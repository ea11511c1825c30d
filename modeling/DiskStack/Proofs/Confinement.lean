import DiskStack.Proofs.Halting
import DiskStack.Proofs.Places
import DiskStack.Proofs.Scribbles
import DiskStack.Proofs.Wakeups

/-!
# Accesses stay in bounds

The accesses to the shared memory and to the in-flight table are not checked, or checked by an
assertion. Their offsets come from cursors that wrap, from the bitmap, and from words that the
controller may have written. Main result: on every drive that has been brought up, whatever the
controller has made of the used ring, each of them lies inside of its region, different ones do not
overlap, and no assertion fails.
-/

namespace DiskStack

namespace Rings

/-- What a driver does to rings of a given size stays inside of them, and stores nothing past their ends. A
submission does not halt, and a completion halts only at what the controller has reported. -/
structure Confined (r : Rings) (n : Nat) : Prop where
  inside : ∀ p : Place, p.Below n → p.access.Within r
  apart : ∀ p p' : Place, p ≠ p' → p.access.Apart p'.access
  submission : ∀ s : Submission, ∃ o q, r.submit s = .ok (o, q) ∧
    (Traffic.submit s).Visits r n (r.submit s) (r.submissionPlaces n o)
  look : Traffic.look.Visits r n (.ok (r.queue.used.isDrained, r)) [.reportIndex]
  completion : Traffic.complete.Visits r n r.complete (r.completionPlaces n)
  reported : ∀ e, r.complete = .error e → e.isReport = true
  halting : ∀ e q, r.collect = (.error e, q) → Traffic.complete.leaves r = q
  submitted : ∀ s o q, r.submit s = .ok (o, q) → r.NoStray q
  completed : ∀ p q, r.complete = .ok (p, q) → r.NoStray q
  stopped : ∀ e q, r.collect = (.error e, q) → r.NoStray q
  offering : ∀ i head : UInt16,
    let written := r.queue.avail.region.store16 (AvailRing.entryOffset r.queue.avail.size i) head
    written.load16 AvailRing.flagsOffset = r.queue.avail.region.load16 AvailRing.flagsOffset ∧
      written.load16 AvailRing.indexOffset = r.queue.avail.region.load16 AvailRing.indexOffset ∧
      ∀ j : UInt16, j.toNat % n ≠ i.toNat % n →
        written.load16 (AvailRing.entryOffset r.queue.avail.size j) = r.queue.avail.entry j

variable {r q : Rings} {n : Nat}

private theorem Balanced.confined (hb : r.Balanced n) : r.Confined n where
  inside _ hp := hb.sound.within hp
  apart _ _ hp := Place.apart hp
  submission s := hb.sound.submission s
  look := ⟨Traffic.run_look r, rfl, fun _ hp => List.mem_singleton.1 hp ▸ trivial⟩
  completion := hb.completion
  reported e he := by
    rcases hb.complete_cases with ⟨_, _, -, -, hok⟩ | ⟨e', _, hreport, -, herror⟩
    · cases he.symm.trans hok
    · cases he.symm.trans herror
      exact hreport
  halting _ _ h := Traffic.leaves_complete r h
  submitted s o q h := by
    obtain ⟨_, _, -, hvisits⟩ := hb.sound.submission s
    rw [← Traffic.leaves_of_run _ (hvisits.run.trans h)]
    exact hvisits.noStray hb.sound
  completed p q h := by
    rw [← Traffic.leaves_of_run _ (hb.completion.run.trans h)]
    exact hb.completion.noStray hb.sound
  stopped e q h := by
    rw [← Traffic.leaves_complete r h]
    exact hb.completion.noStray hb.sound
  offering i head := hb.sound.offering i head

end Rings

namespace Machine

/-- What the tasks and the completion handler of a drive do to its rings stays inside of them. In the
middle of a step, too, the rings are those that turns lead to. A step of a submission does not halt
unless an interrupt comes in, and then, as the handler itself, only at what the controller has
reported. -/
structure Confined (m : Machine) (b : BayId) : Prop where
  rings : ∀ s, (m.bay b).drive.state = .ready s → ∀ q, Relation.ReflTransGen Rings.Turn s.rings q →
    q.Confined (m.bay b).drive.config.queueSize.toNat
  publication : ∀ s, (m.bay b).drive.state = .ready s → ∀ request write sector address length,
    s.left <$> s.publish? request write sector address length =
      s.rings.submit ⟨request, s.nextTicket, write, sector, address, length⟩
  submission : ∀ t p, (m.task t).activity.program? = some p → p.isSubmission = true →
    Run.Safe b (Run.advance t) m
  undisturbed : ∀ t p, (m.task t).activity.program? = some p → p.isSubmission = true → m.Steady b →
    ∃ m', (Run.advance t).run.run m = (.ok (), m')
  handler : ∀ t, Run.Safe b (Run.handleCompletion t b) m
  handling : ∀ point, Run.Safe b (Run.completionStep b point) m

private theorem DriveInvariant.confined {m : Machine} {b : BayId} (hm : m.DriveInvariant b plain) :
    m.Confined b where
  rings _ hs _ hq := ((hm.watched.regular.balanced hs).turns hq).confined
  publication s _ := s.left_publish?
  submission _ _ hp hsubmission := Run.safe_advance hm hp hsubmission
  undisturbed _ _ hp hsubmission hsteady := hm.exists_advance hsteady hp hsubmission
  handler t := Run.safe_handleCompletion hm t
  handling point := Run.safe_completionStep hm point

end Machine

namespace Scene

variable {b : BayId} {s s' : Scene}

/-- From a drive that nobody has used, whatever the callers, the controller and the interrupts do, every
access of a submission and of the completion handler stays inside of its region. -/
theorem confined_of_run (start : s.machine.Pristine b) (run : Relation.ReflTransGen (DriveStep b) s s') :
    s'.machine.Confined b := (driveInvariant_of_run start run).confined

/-- With a request in flight on a drive that has room for no other. -/
theorem confined_of_run_scarce :
    (scarce .manual).Pristine 0 ∧
      Relation.ReflTransGen (DriveStep 0) { machine := scarce .manual } { machine := scarceOnce .manual } ∧
      ((scarceOnce .manual).bay 0).drive.state.ready?.map (·.rings.inFlightCount) = some 1 ∧
      (scarceOnce .manual).Confined 0 := by
  have hstart := pristine_scarce .manual
  have hcount : ((scarceOnce .manual).bay 0).drive.state.ready?.map (·.rings.inFlightCount) =
      some 1 := by
    decide +kernel
  have hrun := run_scarceOnce
  generalize scarceOnce .manual = m at hrun hcount ⊢
  exact ⟨hstart, hrun, hcount, confined_of_run hstart hrun⟩

end Scene

end DiskStack
