import DiskStack.Proofs.InFlight
import DiskStack.Proofs.DriveInvariant
import Mathlib.Logic.Relation

/-!
# No wake-up is lost

Tasks submit requests to one drive and wait for descriptors and completions. Interrupts may come in
on any core at any time: at once where the flag is on, so also between a task's registration on a
channel and its sleep, and otherwise when the flag goes on again. The controller may do anything to
itself and to the memory that it shares with the drive, except for the descriptors, which it only
reads. Still, as long as nothing halts, a registered task always has something to wait for.
-/

namespace DiskStack

namespace Machine

/-- A drive that nobody has used yet, whose number leads to no other drive. All tasks are idle, nobody
is registered on a channel and no interrupt is kept. -/
structure Pristine (m : Machine) (b : BayId) : Prop where
  present : b < m.bays.size
  uninitialized : (m.bay b).drive.state = .uninitialized
  wired : ∀ b', m.bayOf? (m.bay b).number = some b' → b' = b
  image : (m.bay b).controller.image.Whole
  idle : ∀ t, (m.task t).activity = .idle
  quiet : ∀ t, (m.task t).core.pending = []
  requests : m.requests.entries = []
  waiting : m.waiting.waiters = []
  runnable : m.runnable = []

/-- A task is registered on the completion of a request only while the request is pending and has an
entry under the task's ticket, which is no other task's; and on free descriptors only while there are
too few of them, so that a request is in flight. A submitter sleeps only while one is in flight, unless
it has been woken already. -/
structure NoLostWakeup (m : Machine) (b : BayId) : Prop where
  completion : ∀ t ticket, (t, .completion (m.bay b).drive.key ticket) ∈ m.waiting.waiters →
    ∃ s id next, ∃ head : UInt16, (m.bay b).drive.state = .ready s ∧
      (m.task t).activity.program? = some (.complete b id ticket next) ∧
      s.rings.entryAt head.toNat = some ⟨id, ticket⟩ ∧ m.requests.isPending id = true ∧
      ∀ u ticket' next', (m.task u).activity.program? = some (.complete b id ticket' next') → u = t
  descriptors : ∀ t, (t, .descriptors (m.bay b).drive.key) ∈ m.waiting.waiters →
    ∃ s, (m.bay b).drive.state = .ready s ∧ s.rings.queue.pool.numFree < 3 ∧ 0 < s.rings.inFlightCount
  parked : ∀ t p, (m.task t).activity = .asleep p → p.stage? ≠ none → t ∉ m.runnable →
    ∃ s, (m.bay b).drive.state = .ready s ∧ 0 < s.rings.inFlightCount

variable {m : Machine} {b : BayId}

theorem Pristine.driveInvariant (hm : m.Pristine b) : m.DriveInvariant b plain where
  present := hm.present
  wired := fun number b' hn hb => by
    cases hn
    exact hm.wired b' hb
  heard := fun t i hi => by
    rw [hm.quiet t] at hi
    cases hi
  asleep := fun _ => rfl
  watched := by
    have horderly : (m.view b).Orderly b := View.Orderly.of_idle hm.idle hm.requests fun s hs => by
      cases hm.uninitialized.symm.trans hs
    refine ⟨⟨horderly.exists_headers, hm.image, fun id q hq => ?_, fun s hs => ?_, fun s hs => ?_⟩,
      ?_, View.stuck_of_nil hm.waiting⟩
    · have hnone : m.requests.find? id = none := by rw [RequestTable.find?, hm.requests]; rfl
      cases hnone.symm.trans hq
    · cases hm.uninitialized.symm.trans hs
    · cases hm.uninitialized.symm.trans hs
    · rw [hm.runnable]
      exact WaitQueue.agrees_of_idle hm.waiting hm.idle

private theorem DriveInvariant.wake {g : TaskId → Activity → Activity} (hm : m.DriveInvariant b g)
    (c : Channel) :
    (m.wake c).DriveInvariant b g := by
  refine hm.frame (frames_wake c) (fun _ _ => rfl) ?_
  have hw := hm.watched
  exact ⟨hw.regular, hw.agrees.wake c fun t => (hm.asleep t).symm,
    (hw.stuck.mono fun u d p hd hl hp => ⟨List.not_mem_nil, hp, id⟩).wake⟩

private theorem DriveInvariant.inFlight (hm : m.DriveInvariant b plain) {s : ReadyState}
    (hs : (m.bay b).drive.state = .ready s)
    (hfew : s.rings.queue.pool.numFree < 3) : 0 < s.rings.inFlightCount := by
  have hbalanced := hm.watched.regular.balanced hs
  have hcounted := hbalanced.counted
  have hleast := hbalanced.sound.least
  omega

private theorem DriveInvariant.waits (hm : m.DriveInvariant b plain) {t : TaskId} {c : Channel}
    (hc : (t, c) ∈ m.waiting.waiters) :
    ∃ p, (m.task t).activity.program? = some p ∧ p.Underway b ∧
      p.channel? (m.bay b).drive.key (m.bay b).drive.scratch.key = some c ∧ (m.view b).Blocks p := by
  obtain ⟨p, hp, hchannel⟩ := hm.watched.agrees.registered t c hc
  have hprogram : (m.task t).activity.program? = some p := by
    rcases hp with hp | hp <;> rw [show (m.task t).activity = _ from hp] <;> rfl
  exact ⟨p, hprogram, hm.watched.regular.underway hprogram, hchannel,
    hm.watched.stuck t c p hc List.not_mem_nil hprogram⟩

private theorem DriveInvariant.completion (hm : m.DriveInvariant b plain) {t : TaskId} {ticket : UInt64}
    (hc : (t, .completion (m.bay b).drive.key ticket) ∈ m.waiting.waiters) :
    ∃ s id next, ∃ head : UInt16, (m.bay b).drive.state = .ready s ∧
      (m.task t).activity.program? = some (.complete b id ticket next) ∧
      s.rings.entryAt head.toNat = some ⟨id, ticket⟩ ∧ m.requests.isPending id = true ∧
      ∀ u ticket' next', (m.task u).activity.program? = some (.complete b id ticket' next') → u = t := by
  have hstage : ∀ u id ticket next, (m.task u).activity.program? = some (.complete b id ticket next) →
      (m.view b).stage u = some (.complete id ticket) := fun u id ticket next hu => by
    rw [View.stage, show ((m.view b).activity u).program? = _ from hu]
    rfl
  obtain ⟨p, hprogram, hunder, hchannel, hblocks⟩ := hm.waits hc
  cases hunder with
  | asks _ h => cases h <;> cases hchannel
  | publish => cases hchannel
  | complete id ticket' next _ =>
    cases hchannel
    have ht := hstage t id ticket next hprogram
    obtain ⟨s, hs, head, he⟩ := hm.watched.regular.pending ht hblocks
    refine ⟨s, id, next, head, hs, hprogram, he, hblocks, fun u ticket' next' hu => ?_⟩
    exact hm.watched.regular.own (hstage u id ticket' next' hu) ht rfl

private theorem DriveInvariant.descriptors (hm : m.DriveInvariant b plain) {t : TaskId}
    (hc : (t, .descriptors (m.bay b).drive.key) ∈ m.waiting.waiters) :
    ∃ s, (m.bay b).drive.state = .ready s ∧ s.rings.queue.pool.numFree < 3 ∧
      0 < s.rings.inFlightCount := by
  obtain ⟨p, -, hunder, hchannel, hblocks⟩ := hm.waits hc
  cases hunder with
  | asks _ h => cases h <;> cases hchannel
  | complete => cases hchannel
  | publish id sector next _ =>
    obtain ⟨s, hs, hfew⟩ := hblocks
    exact ⟨s, hs, hfew, hm.inFlight hs hfew⟩

private theorem DriveInvariant.noLostWakeup (hm : m.DriveInvariant b plain) : m.NoLostWakeup b := by
  refine ⟨fun t ticket hc => hm.completion hc, fun t hc => hm.descriptors hc, fun t p hp hstage ht => ?_⟩
  obtain ⟨c, hc⟩ := (hm.watched.agrees.asleep t p hp).resolve_left ht
  obtain ⟨p', hprogram, hunder, hchannel, -⟩ := hm.waits hc
  rw [hp] at hprogram
  cases hprogram
  cases hunder with
  | asks _ h => exact absurd h.stage? hstage
  | publish =>
    cases hchannel
    obtain ⟨s, hs, -, hpos⟩ := hm.descriptors hc
    exact ⟨s, hs, hpos⟩
  | complete =>
    cases hchannel
    obtain ⟨s, _, _, head, hs, _, he, _⟩ := hm.completion hc
    exact ⟨s, hs, Rings.inFlightCount_pos he⟩

end Machine

namespace Scene

/-- One step of a drive, its callers and its controller, with interrupts on any core. A sleeping task may
be roused for any reason or for none, and any channel may be woken. A step that halts has no
successor. -/
inductive DriveStep (b : BayId) (s : Scene) : Scene → Prop
  | call (t : TaskId) (p : Program Reply) (hp : p.Asks b) (ht : t < s.machine.tasks.size)
    (h : (s.machine.task t).activity = .idle) :
    DriveStep b s { s with machine := s.machine.setActivity t (.running p) }
  | advance (t : TaskId) (arena : Arena) (m : Machine)
    (hl : s.handler = none ∨ (s.machine.task t).activity.locksDrive = false)
    (h : (Run.advance t).run.run (s.machine.setArena arena) = (.ok (), m)) :
    DriveStep b s { s with machine := m }
  | rouse (t : TaskId) (p : Program Reply) (h : (s.machine.task t).activity = .asleep p) :
    DriveStep b s
      { s with
        machine :=
          { s.machine.setActivity t (.running p) with
            waiting := s.machine.waiting.withdraw t
            runnable := s.machine.runnable.erase t } }
  | wake (c : Channel) : DriveStep b s { s with machine := s.machine.wake c }
  | reply (t : TaskId) (r : Reply) (h : (s.machine.task t).activity = .running (.done r)) :
    DriveStep b s { s with machine := s.machine.setActivity t .idle }
  | bringUp (r : Except InitError Unit) (m : Machine) (hl : s.handler = none)
    (h : (Run.bringUp b).run.run s.machine = (.ok r, m)) : DriveStep b s { s with machine := m }
  | raise (t : TaskId) (i : Interrupt) (m : Machine) (hi : s.machine.Concerns b i)
    (hl : s.handler = none ∨ (s.machine.task t).core.enabled = false)
    (h : (Run.raise t i).run.run s.machine = (.ok (), m)) : DriveStep b s { s with machine := m }
  | interrupt (hl : s.handler = none) : DriveStep b s { s with handler := some .reading }
  | handle (point next : Run.CompletionPoint) (m : Machine) (hl : s.handler = some point)
    (h : (Run.completionStep b point).run.run s.machine = (.ok next, m)) :
    DriveStep b s { s with machine := m, handler := some next }
  | leave (hl : s.handler = some .finished) : DriveStep b s { s with handler := none }
  | control (c : Controller) (hc : c.image.Whole) :
    DriveStep b s { s with machine := s.machine.mapController b fun _ => c }
  | scribble (st : ReadyState) (c : Controller) (shared : SharedMemory)
    (hst : (s.machine.bay b).drive.state = .ready st) (hc : c.image.Whole)
    (h : SharedMemory.Scribbled ⟨st.rings, s.machine.requests⟩ shared) :
    DriveStep b s { s with machine := s.machine.putShared b st c shared }

open Machine (plain)

variable {b : BayId} {s s' : Scene}

theorem DriveStep.driveInvariant (hs : s.machine.DriveInvariant b plain) (h : DriveStep b s s') :
    s'.machine.DriveInvariant b plain := by
  have hrobust := Machine.robust_driveInvariant b plain
  have hw := hs.watched
  cases h with
  | call t p hp ht h =>
    refine hs.setActivity ht (hw.act (a := .running p) ?_ rfl (fun p' hp' => ?_) ?_)
    · exact congrArg Activity.waits h
    · cases hp'
      exact .asks p hp
    · exact hp.stage?.trans (View.stage_of_idle h).symm
  | advance t arena m hl h => exact (Run.keeps_advance t _ (hs.setArena arena)).of_ok h
  | rouse t p h =>
    have ht : t < s.machine.tasks.size := Machine.lt_of_activity fun hidle => by cases h.symm.trans hidle
    exact hs.act ht (hw.rouse h)
  | wake c => exact hs.wake c
  | reply t r h =>
    have ht : t < s.machine.tasks.size := Machine.lt_of_activity fun hidle => by cases h.symm.trans hidle
    refine hs.setActivity ht (hw.act (a := .idle) ?_ rfl (fun p' hp' => by cases hp') ?_)
    · exact congrArg Activity.waits h
    · exact (View.stage_of_running (v := s.machine.view b) h).symm
  | bringUp r m hl h => exact (Run.keeps_bringUp _ hs).of_ok h
  | raise t i m hi hl h => exact (hrobust.leads_raise hs t hi).of_ok h
  | interrupt | leave => exact hs
  | handle point next m hl h => exact (hrobust.keeps_completionStep point _ hs).of_ok h
  | control c hc => exact hs.setController hc
  | scribble st c shared hst hc h => exact hs.putShared hst hc h

/-- From a drive that nobody has used, every run leads to a machine that is watched. -/
theorem driveInvariant_of_run (start : s.machine.Pristine b)
    (run : Relation.ReflTransGen (DriveStep b) s s') :
    s'.machine.DriveInvariant b plain := by
  induction run with
  | refl => exact start.driveInvariant
  | tail _ step ih => exact step.driveInvariant ih

/-- Whatever the callers, the controller and the interrupts do, from a drive that nobody has used, no
wake-up is lost. -/
theorem noLostWakeup_of_run (start : s.machine.Pristine b)
    (run : Relation.ReflTransGen (DriveStep b) s s') :
    s'.machine.NoLostWakeup b := (driveInvariant_of_run start run).noLostWakeup

/-! ### A drive with room for one request -/

/-- A drive with as few descriptors as it can have, and two tasks that may call it. -/
def scarce (mode : NotifyMode) : Machine :=
  { Machine.single { queueSize := 3 } { window := Controller.windowOf 128 [], mode } with
    tasks := #[{ name := "ctl" }, { name := "first" }, { name := "second" }] }

theorem pristine_scarce (mode : NotifyMode) : (scarce mode).Pristine 0 where
  present := Nat.one_pos
  uninitialized := rfl
  wired := fun _ h => (Option.some.inj h).symm
  image := fun _ => List.length_replicate ..
  idle := fun t => by rcases t with _ | _ | _ | t <;> rfl
  quiet := fun t => by rcases t with _ | _ | _ | t <;> rfl
  requests := rfl
  waiting := rfl
  runnable := rfl

/-- A read of the first block. -/
def firstRead : Program Reply :=
  .submit 0 ⟨0, false, List.replicate 1024 0⟩ fun r => .done (.block r)

def scarceReady (mode : NotifyMode) : Machine := ((Run.bringUp 0).run.run (scarce mode)).2

/-- The machine after the first task has submitted its read. -/
def scarceOnce (mode : NotifyMode) : Machine :=
  ((Run.advance 1).run.run ((scarceReady mode).setActivity 1 (.running firstRead))).2

/-- The machine after both tasks have submitted their reads. -/
def scarceTwice (mode : NotifyMode) : Machine :=
  ((Run.advance 2).run.run ((scarceOnce mode).setActivity 2 (.running firstRead))).2

private theorem run_call {m m' : Machine} {t : TaskId} (ht : t < m.tasks.size) (hidle : m.isIdle t = true)
    (hm' : m' = ((Run.advance t).run.run (m.setActivity t (.running firstRead))).2)
    (hok : ((Run.advance t).run.run (m.setActivity t (.running firstRead))).1.toBool = true) :
    Relation.ReflTransGen (DriveStep 0) { machine := m } { machine := m' } := by
  have hasks : firstRead.Asks 0 := .submit _ _ fun r => .done _
  have hcall : DriveStep 0 { machine := m } { machine := m.setActivity t (.running firstRead) } :=
    .call t firstRead hasks ht (Machine.idle_of_isIdle hidle)
  obtain ⟨_, hr⟩ := DiskStack.Run.ok_of_toBool hok
  have hadvance : DriveStep 0 { machine := m.setActivity t (.running firstRead) } { machine := m' } :=
    .advance t (m.setActivity t (.running firstRead)).arena m' (.inl rfl) (hm' ▸ hr)
  exact .tail (.single hcall) hadvance

theorem run_scarceOnce : Relation.ReflTransGen (DriveStep 0) { machine := scarce .manual }
    { machine := scarceOnce .manual } := by
  have hready : ((Run.bringUp 0).run.run (scarce .manual)).1.toBool = true ∧
      1 < (scarceReady .manual).tasks.size ∧ (scarceReady .manual).isIdle 1 = true := by
    decide +kernel
  have honce : ((Run.advance 1).run.run
      ((scarceReady .manual).setActivity 1 (.running firstRead))).1.toBool = true := by
    decide +kernel
  obtain ⟨r, hr⟩ := DiskStack.Run.ok_of_toBool hready.1
  have hup : DriveStep 0 { machine := scarce .manual } { machine := scarceReady .manual } :=
    .bringUp r _ rfl hr
  exact (Relation.ReflTransGen.single hup).trans (run_call hready.2.1 hready.2.2 rfl honce)

/-- With a controller that does not work, the first task waits for its completion and the second one
for descriptors, and each of them has something to wait for. -/
theorem noLostWakeup_of_run_scarce :
    (scarce .manual).Pristine 0 ∧
      Relation.ReflTransGen (DriveStep 0) { machine := scarce .manual } { machine := scarceTwice .manual } ∧
      (scarceTwice .manual).waiting.waiters = [(1, .completion 1 0), (2, .descriptors 1)] ∧
      (scarceTwice .manual).NoLostWakeup 0 := by
  have hstart := pristine_scarce .manual
  have htwice : 2 < (scarceOnce .manual).tasks.size ∧ (scarceOnce .manual).isIdle 2 = true ∧
      ((Run.advance 2).run.run
        ((scarceOnce .manual).setActivity 2 (.running firstRead))).1.toBool = true ∧
      (scarceTwice .manual).waiting.waiters = [(1, .completion 1 0), (2, .descriptors 1)] := by
    decide +kernel
  obtain ⟨hsize, hidle, hok, hwaiting⟩ := htwice
  have hsecond : Relation.ReflTransGen (DriveStep 0) { machine := scarceOnce .manual }
      { machine := scarceTwice .manual } := run_call hsize hidle rfl hok
  have hrun := run_scarceOnce.trans hsecond
  generalize scarceTwice .manual = m at hrun hwaiting ⊢
  exact ⟨hstart, hrun, hwaiting, noLostWakeup_of_run hstart hrun⟩

/-- A completion on the submitting core, in the middle of its own submission, finds the task registered:
nobody is left to wait, and the next step of the task does not sleep. -/
example :
    (scarceOnce .sameCore).waiting.waiters = [] ∧
      ((Run.advance 1).run.run (scarceOnce .sameCore)).2.isAsleep 1 = false := by
  decide +kernel

end Scene

end DiskStack
