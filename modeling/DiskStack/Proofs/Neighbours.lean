import DiskStack.Proofs.DiskCalls
import DiskStack.Proofs.Separation
import DiskStack.Proofs.Wakeups
import DiskStack.Script.Perform

/-!
# Drives do not interfere

An operation on one drive number, in every step that it takes, leaves the drives of all other numbers alone,
and the tasks that wait for them. Calls keep to the drive that they began with, also when another one takes
its place. What is asked of a number that is not registered changes nothing.
-/

namespace DiskStack

open Run (Leads Ends leads_get leads_modify leads_change leads_pure leads_throw ends_get ends_bind
  ends_modify)

namespace Program

variable {p : Program Reply} {b : BayId}

private theorem Underway.at (h : p.Underway b) : p.At (· = b) := by
  cases h with
  | asks _ h => cases h <;> first | rfl | trivial
  | publish | complete => rfl

/-- A task at a node of a call on one drive waits for this drive or its scratch block. -/
private theorem Underway.owner_eq {o : Owner} (h : p.Underway b) (ho : p.owner? = some o) :
    o = .drive b ∨ o = .scratch b := by
  cases h with
  | publish | complete =>
    cases ho
    exact .inl rfl
  | asks _ h =>
    cases h with
    | takeScratch =>
      cases ho
      exact .inr rfl
    | _ => cases ho

end Program

private theorem Performs.underway {R : Machine → Machine → Prop} {t : TaskId} {m m' : Machine}
    {p : Program Reply}
    {a : Activity} {b : BayId} (h : Performs R t m p a m') (hp : p.Underway b) :
    ∃ p', a.program? = some p' ∧ p'.Underway b := by
  induction h with
  | done | awaitDescriptors | awaitCompletion | awaitScratch | awaitLock => exact ⟨_, rfl, hp⟩
  | submit _ _ _ _ _ _ _ _ _ _ _ _ ih =>
    cases hp.at
    exact ih (.publish _ _ _ hp.of_submit)
  | publish _ _ _ _ _ _ _ _ _ _ _ _ _ _ _ _ _ _ ih =>
    cases hp.at
    exact ih (.complete _ _ _ hp.of_publish)
  | unready =>
    cases hp.at
    exact ⟨_, rfl, .asks _ (hp.of_publish _)⟩
  | retire =>
    cases hp.at
    exact ⟨_, rfl, .asks _ (hp.of_complete _)⟩
  | inspect =>
    cases hp.at
    exact ⟨_, rfl, .asks _ (hp.of_inspect _)⟩
  | refuse =>
    cases hp.at
    exact ⟨_, rfl, .asks _ (hp.of_submit _)⟩
  | takeScratch =>
    cases hp.at
    exact ⟨_, rfl, .asks _ (hp.of_takeScratch _)⟩
  | giveScratch =>
    cases hp.at
    exact ⟨_, rfl, .asks _ hp.of_giveScratch⟩
  | takeLock | awaitGate | passGate => rcases hp with ⟨_, ⟨⟩⟩

private theorem Run.run_tryCatch_of_ok {α : Type} {m m' : Machine} {x : Run α} {h : Halt → Run α} {a : α}
    (hx : x.run.run m = (.ok a, m')) : (tryCatch x h).run.run m = (.ok a, m') := by
  rw [ExceptT.run_tryCatch, StateT.run_bind, hx]
  rfl

private theorem Run.Ends.run_eq {α : Type} {m m' : Machine} {x : Run α} {r : Except Halt α}
    (h : Ends x m fun r' m'' => r' = r ∧ m'' = m') : x.run.run m = (r, m') := Prod.ext h.1 h.2

private theorem Run.leads_advance_underway {t : TaskId} {m : Machine} {p : Program Reply} {b : BayId}
    (hp : (m.task t).activity.program? = some p) (hunder : p.Underway b) :
    Leads (advance t) m fun _ m' => ∃ p', (m'.task t).activity.program? = some p' ∧ p'.Underway b := by
  have hmoved : ∀ {m₁ : Machine} {a : Activity}, (m₁.task t).activity = (m.task t).activity →
      (∃ p', a.program? = some p' ∧ p'.Underway b) →
      ∃ p', ((m₁.setActivity t a).task t).activity.program? = some p' ∧ p'.Underway b := fun hact h => by
    have ht := Machine.lt_of_activity (t := t) fun hidle => by
      rw [← hact, hidle] at hp
      cases hp
    rwa [Machine.activity_setActivity ht, if_pos rfl]
  apply leads_get
  cases hact : (m.task t).activity with
  | idle | asleep q => exact leads_pure ⟨p, hp, hunder⟩
  | running q =>
    rw [hact] at hp
    cases hp
    exact ((Machine.tolerates_unmoved t).performs_node p.at_any).bind fun a m₁ h => leads_change
      (hmoved ((Machine.registers_of_performs h).activity t) (h.underway hunder))
  | parking q =>
    rw [hact] at hp
    cases hp
    refine Leads.bind (x := settle t p) (Q := fun a m₁ => (m₁.task t).activity = (m.task t).activity ∧
      a.program? = some p) (leads_get ?_) fun a m₁ h => leads_change (hmoved h.1 ⟨p, h.2, hunder⟩)
    split <;> exact leads_modify (leads_pure ⟨rfl, rfl⟩)

namespace Machine

variable {m m' : Machine} {b k : BayId} {t : TaskId} {c : Channel} {number : UInt8} {p : Program Reply}

/-- One step of an operation on a drive number, with the task on whose core it is taken: what returns at
once, an interrupt on any core or one access of its handler, and the call, the steps, the rousing and the
return of a task that reads or writes. A step that halts has no successor. -/
inductive Works (number : UInt8) (m : Machine) : TaskId → Machine → Prop
  | status (s : DiskStatus) (m' : Machine) (h : (Run.status number).run.run m = (.ok s, m')) :
    Works number m controlTask m'
  | initDrive (s : DiskStatus) (m' : Machine) (h : (Run.initializeDrive number).run.run m = (.ok s, m')) :
    Works number m controlTask m'
  | control (c : ControlCommand) (r : Reply) (m' : Machine)
    (h : (Run.perform (.control number c)).run.run m = (.ok r, m')) : Works number m controlTask m'
  | ioctl (command : UInt8) (length : Nat) (r : Reply) (m' : Machine)
    (h : (Run.perform (.ioctl number command length)).run.run m = (.ok r, m')) :
    Works number m controlTask m'
  | interrupt (t : TaskId) (m' : Machine)
    (h : (Run.raise t (.completion number)).run.run m = (.ok (), m')) : Works number m t m'
  | handle (k : BayId) (point next : Run.CompletionPoint) (m' : Machine) (hk : m.bayOf? number = some k)
    (h : (Run.completionStep k point).run.run m = (.ok next, m')) : Works number m controlTask m'
  | call (t : TaskId) (c : SectorCall) (h : (m.task t).activity = .idle) :
    Works number m t (m.setActivity t (.running (c.operation (m.drive? number))))
  | advance (t : TaskId) (k : BayId) (p : Program Reply) (m' : Machine) (hk : k < m.bays.size)
    (hnumber : (m.bay k).number = number) (hp : (m.task t).activity.program? = some p)
    (hunder : p.Underway k) (h : (Run.advance t).run.run m = (.ok (), m')) : Works number m t m'
  | rouse (t : TaskId) (k : BayId) (p : Program Reply) (hk : k < m.bays.size)
    (hnumber : (m.bay k).number = number) (hp : (m.task t).activity = .asleep p) (hunder : p.Underway k) :
    Works number m t (m.rouse t p)
  | reply (t : TaskId) (r : Reply) (h : (m.task t).activity = .running (.done r)) :
    Works number m t (m.setActivity t .idle)

/-! ### Numbers that are not registered -/

private theorem mapTask_log (t : TaskId) (f : Task → Task) (level : LogLevel) (source text : String) :
    (m.mapTask t f).log level source text = (m.log level source text).mapTask t f := by
  have hlogger : (m.mapTask t f).logger = m.logger := rfl
  rw [Machine.log, Machine.log, hlogger]
  cases m.logger.emit ⟨level, some source, text⟩ <;> rfl

private theorem task_log (t : TaskId) (level : LogLevel) (source text : String) :
    (m.log level source text).task t = m.task t := by
  rw [Machine.log]
  split <;> rfl

/-- What is answered for a number that is not registered, and that nothing comes of it but a warning where
an interrupt comes in under it. -/
structure Ignores (m : Machine) (number : UInt8) : Prop where
  status : (Run.status number).run.run m = (.ok (DiskStatus.noInit ||| DiskStatus.noDisk), m)
  initDrive : (Run.initializeDrive number).run.run m = (.ok (DiskStatus.noInit ||| DiskStatus.noDisk), m)
  control : ∀ c, (Run.perform (.control number c)).run.run m = (.ok (.control (.error .parameter)), m)
  ioctl : ∀ command length buffer, freshBuffer length = .ok buffer →
    (Run.perform (.ioctl number command length)).run.run m =
      (.ok (.diskBuffer (.refuse .parameter buffer)), m)
  call : ∀ t (c : SectorCall), t < m.tasks.size → (m.task t).activity = .idle →
    (Run.call t (c.operation (m.drive? number))).run.run m =
      (.ok (some (c.reply (.refuse .parameter c.buffer))), m)
  interrupt : ∀ t, (Run.raise t (.completion number)).run.run m = (.ok (),
    if (m.task t).core.enabled then m.log .warn registrySource s!"disk interrupt for unknown drive {number}"
    else m.mapCore t (·.defer (.completion number)))
  /-- A core that has kept such an interrupt handles it with its flag on. -/
  kept : ∀ t, (m.task t).core.enabled = true →
    (Run.handle t (.completion number)).run.run m =
      (.ok (), m.log .warn registrySource s!"disk interrupt for unknown drive {number}")

private theorem run_call_done (ht : t < m.tasks.size) (hidle : (m.task t).activity = .idle) (r : Reply) :
    (Run.call t (.done r)).run.run m = (.ok (some r), m) := by
  have hact : ((m.setActivity t (.running (.done r))).task t).activity = .running (.done r) := by
    rw [activity_setActivity ht, if_pos rfl]
  have hback : (m.setActivity t (.running (.done r))).setActivity t .idle = m :=
    (mapTask_mapTask ..).trans (mapTask_eq_self (by rw [← hidle]; rfl))
  have hall : (Run.advanceAll t Run.stepLimit).run.run (m.setActivity t (.running (.done r))) =
      (.ok (some r), m) := by
    rw [show Run.stepLimit = 9999999 + 1 from rfl, Run.advanceAll]
    refine Run.Ends.run_eq (ends_get ?_)
    rw [hact]
    exact ends_modify ⟨rfl, hback⟩
  exact Run.run_tryCatch_of_ok hall

private theorem run_handle_unknown (hnone : m.bayOf? number = none)
    (hcore : (m.task t).core.enabled = true) :
    (Run.handle t (.completion number)).run.run m =
      (.ok (), m.log .warn registrySource s!"disk interrupt for unknown drive {number}") := by
  have hhandler : Ends (Run.handler t (.completion number)) (m.mapCore t Core.disable) fun r m' =>
      r = .ok () ∧ m' = (m.mapCore t Core.disable).log .warn registrySource
        s!"disk interrupt for unknown drive {number}" := by
    refine ends_get ?_
    rw [show (m.mapCore t Core.disable).bayOf? number = none from hnone]
    exact ⟨rfl, rfl⟩
  refine Run.Ends.run_eq (ends_modify (ends_bind (hhandler.mono ?_)))
  rintro r m' ⟨rfl, rfl⟩
  -- the flag was on, so putting it off and on again is no change
  refine ⟨rfl, ?_⟩
  rw [mapCore, mapTask_log]
  refine (mapTask_mapTask ..).trans (mapTask_eq_self ?_)
  rw [task_log]
  change { m.task t with core := { (m.task t).core with enabled := true } } = m.task t
  rw [← hcore]

private theorem run_raise_unknown (hnone : m.bayOf? number = none) :
    (Run.raise t (.completion number)).run.run m = (.ok (),
      if (m.task t).core.enabled then m.log .warn registrySource s!"disk interrupt for unknown drive {number}"
      else m.mapCore t (·.defer (.completion number))) := by
  by_cases hcore : (m.task t).core.enabled = true
  · rw [if_pos hcore]
    refine Run.Ends.run_eq (ends_get ?_)
    rw [if_pos hcore, Ends, run_handle_unknown hnone hcore]
    exact ⟨rfl, rfl⟩
  · rw [if_neg hcore]
    refine Run.Ends.run_eq (ends_get ?_)
    rw [if_neg hcore]
    exact ⟨rfl, rfl⟩

private theorem ignores_of_unknown (hnone : m.bayOf? number = none) : m.Ignores number where
  status := Run.Ends.run_eq (ends_get (by rw [hnone]; exact ⟨rfl, rfl⟩))
  initDrive := Run.Ends.run_eq (ends_get (by rw [hnone]; exact ⟨rfl, rfl⟩))
  control c := Run.Ends.run_eq (ends_get (by rw [drive?, hnone]; exact ⟨rfl, rfl⟩))
  ioctl command length buffer hbuffer := by
    have hrefused : ioctlDrive none command buffer = (.error .parameter, buffer) := by
      rw [ioctlDrive, answerNumbered, ControlCommand.ofNumber]
      cases ControlCommand.all.find? (·.number == command) <;> rfl
    refine Run.Ends.run_eq (ends_get ?_)
    rw [drive?, hnone, hbuffer]
    change Ends (pure (Reply.diskBuffer ⟨(ioctlDrive none command buffer).1,
      (ioctlDrive none command buffer).2⟩)) m _
    rw [hrefused]
    exact ⟨rfl, rfl⟩
  call t c ht hidle := by
    rw [drive?, hnone, Option.map_none, SectorCall.operation_none]
    exact run_call_done ht hidle _
  interrupt t := run_raise_unknown hnone
  kept t hcore := run_handle_unknown hnone hcore

/-! ### Drives of other numbers -/

private theorem keeps_control (c : ControlCommand) : Run.Within Eq (Run.perform (.control number c)) :=
  fun _ =>
  leads_get (leads_pure rfl)

private theorem keeps_ioctl (command : UInt8) (length : Nat) :
    Run.Within Eq (Run.perform (.ioctl number command length)) := fun m => by
  refine leads_get ?_
  cases freshBuffer length with
  | ok buffer => exact leads_pure rfl
  | error h => exact leads_throw

private theorem Distinct.rivals (hm : m.Distinct) (hk : k < m.bays.size) (hb : b < m.bays.size)
    (hnumbers : (m.bay k).number ≠ (m.bay b).number) : k ≠ b ∧ m.Rivals k b :=
  ⟨fun hkb => hnumbers (hkb ▸ rfl), hm, hk, hb, hnumbers⟩

private theorem Distinct.not_calls (hm : m.Distinct) (hnumber : (m.bay b).number ≠ number) :
    ¬m.Calls (.completion number) b := by
  rintro ⟨number', hnumber', hb⟩
  cases hnumber'
  exact hnumber (hm.of_bayOf? hb).2

private theorem apart_rouse (hrivals : m.Rivals k b) (hseated : m.Seated)
    (hp : (m.task t).activity = .asleep p)
    (hunder : p.Underway k) : m.Apart b (m.rouse t p) := by
  have hne : k ≠ b := fun hkb => hrivals.numbers (hkb ▸ rfl)
  have hnot : ∀ c, (m.bay b).drive.HasChannel c → (t, c) ∉ m.waiting.waiters := fun c hc ht => by
    obtain ⟨p', hp' | hp', o, ho, howner⟩ := hseated t c ht <;> rw [hp] at hp' <;> cases hp'
    have hother : o ≠ .drive b ∧ o ≠ .scratch b := by
      rcases hunder.owner_eq ho with rfl | rfl <;> simp [hne]
    rcases howner with howner | hkey
    · exact hrivals.distinct.not_hasChannel hrivals.right hother howner hc
    · exact hrivals.distinct.not_hasChannel_zero hrivals.right hkey hc
  have hrunning : m.Apart b (m.setActivity t (.running p)) := apart_mapTask t fun _ hi => .inl hi
  refine { hrunning with fixed := .of_same rfl rfl rfl rfl rfl, waiters := fun c hc => ?_, events := ?_ }
  · exact WaitQueue.waitersOf_withdraw (hnot c hc)
  · exact ⟨[], rfl, fun _ _ h => absurd h List.not_mem_nil, fun _ h => .inl (List.mem_of_mem_erase h)⟩

private theorem apart_raise_unknown (hnone : m.bayOf? number = none)
    (h : (Run.raise t (.completion number)).run.run m = (.ok (), m')) (b : BayId) : m.Apart b m' := by
  rw [run_raise_unknown hnone] at h
  cases h
  split
  · exact apart_log ..
  · refine apart_mapTask t fun i hi => ?_
    rcases List.mem_append.1 hi with hi | hi
    · exact .inl hi
    · rw [List.mem_singleton.1 hi]
      refine .inr ?_
      rintro ⟨_, hnumber, hb⟩
      cases hnumber
      rw [hnone] at hb
      cases hb

private theorem Works.around (h : m.Works number t m') (hm : m.Distinct) (hseated : m.Seated)
    (hb : b < m.bays.size)
    (hnumber : (m.bay b).number ≠ number) : m.Around b t m' := by
  have hother : ∀ {k}, k < m.bays.size → (m.bay k).number = number → k ≠ b ∧ m.Rivals k b :=
    fun hk hknumber => hm.rivals hk hb fun heq => hnumber (heq.symm.trans hknumber)
  have hregistered : ∀ {k}, m.bayOf? number = some k → k ≠ b ∧ m.Rivals k b := fun hk =>
    hother (hm.of_bayOf? hk).1 (hm.of_bayOf? hk).2
  have hstay : m.Around b t m := .refl
  have happart : ∀ {m'}, m.Apart b m' → m.Around b t m' := fun h => .single (.inl h)
  cases h with
  | status s m' h =>
    cases hbay : m.bayOf? number with
    | none =>
      rw [(ignores_of_unknown hbay).status] at h
      cases h
      exact hstay
    | some k =>
      obtain ⟨hne, hrivals⟩ := hregistered hbay
      exact (((tolerates_passing hne controlTask).within_status number m).of_ok h).around hrivals
  | initDrive s m' h =>
    cases hbay : m.bayOf? number with
    | none =>
      rw [(ignores_of_unknown hbay).initDrive] at h
      cases h
      exact hstay
    | some k =>
      obtain ⟨hne, hrivals⟩ := hregistered hbay
      have hinit := (tolerates_passing hne controlTask).leads_initializeDrive (m := m)
        (fun m j s hj => .of_apart (apart_setState (hj ▸ hne) s))
        (fun m a => .of_apart (.of_quiet (.of_same rfl rfl rfl rfl rfl) rfl rfl rfl rfl fun _ => rfl))
        fun j hj => Option.some.inj (hj.symm.trans hbay)
      exact (hinit.of_ok h).around hrivals
  | control c r m' h => exact (keeps_control c m).of_ok h ▸ hstay
  | ioctl command length r m' h => exact (keeps_ioctl command length m).of_ok h ▸ hstay
  | interrupt t m' h =>
    cases hbay : m.bayOf? number with
    | none => exact happart (apart_raise_unknown hbay h b)
    | some k =>
      have hraise := leads_raise_passing (a := k) (t := t) fun _ => hm.not_calls hnumber
      exact (hraise.of_ok h).around (hregistered hbay).2
  | handle k point next m' hk h =>
    obtain ⟨hne, hrivals⟩ := hregistered hk
    have hstep := (overlooks_clear k b controlTask).within_completionStep (b := k) hne point
    exact happart (((hstep m).of_ok h).apart hrivals)
  | call t c h | reply t r h => exact happart (apart_mapTask t fun _ hi => .inl hi)
  | advance t k p m' hk hknumber hp hunder h =>
    obtain ⟨hne, hrivals⟩ := hother hk hknumber
    have hadvance := (tolerates_passing hne t).leads_advance (overlooksSteps_passing hne t) (m := m)
      fun p' hp' => by
        rw [hp'] at hp
        cases hp
        exact hunder.at
    exact (hadvance.of_ok h).around hrivals
  | rouse t k p hk hknumber hp hunder => exact happart (apart_rouse (hother hk hknumber).2 hseated hp hunder)

/-- Where no interrupt has been kept for the drive, nothing of the step touches it at all. -/
private theorem Around.apart (h : m.Around b t m') (quiet : ∀ i ∈ (m.task t).core.pending, ¬m.Calls i b) :
    m.Apart b m' := by
  induction h with
  | refl => exact .refl b m
  | tail _ step ih =>
    rcases step with step | ⟨i, rest, hpending, hcalls, -⟩
    · exact ih.trans step
    · have hcalls' : m.Calls i b := hcalls.of_fixed ih.fixed
      rcases ih.heard t i (hpending ▸ List.mem_cons_self) with hi | hi
      · exact absurd hcalls' (quiet i hi)
      · exact absurd hcalls' hi

private theorem Works.steps (h : m.Works number t m') : Relation.ReflTransGen Transition m m' := by
  cases h with
  | status s m' h => exact .single (.environment _ (.status number s m' h))
  | initDrive s m' h => exact .single (.environment _ (.initDrive number s m' h))
  | control c r m' h => exact (keeps_control c m).of_ok h ▸ .refl
  | ioctl command length r m' h => exact (keeps_ioctl command length m).of_ok h ▸ .refl
  | interrupt t m' h => exact .single (.environment _ (.raise t _ m' h))
  | handle k point next m' hk h => exact .single (.environment _ (.handle k point next m' h))
  | call t c h => exact .single (.call t _ h)
  | advance t k p m' hk hknumber hp hunder h => exact .single (.advance t m' h)
  | rouse t k p hk hknumber hp hunder => exact .single (.rouse t p hp)
  | reply t r h => exact .single (.reply t r h)

/-- A machine after steps of operations on other numbers than a drive's, by any tasks in turn. -/
abbrev WorksElsewhere (b : BayId) : Machine → Machine → Prop :=
  Relation.ReflTransGen fun m m' => ∃ number t, (m.bay b).number ≠ number ∧ m.Works number t m'

private theorem WorksElsewhere.around (h : m.WorksElsewhere b m') (hm : m.Distinct) (hseated : m.Seated)
    (hb : b < m.bays.size) :
    Relation.ReflTransGen (fun m m' => m.Apart b m' ∨ ∃ t, m.Interrupted b t m') m m' := by
  -- the run is one of the machine's steps, so each of its steps begins on a machine like the first one
  have hall : Relation.ReflTransGen Transition m m' ∧
      Relation.ReflTransGen (fun m m' => m.Apart b m' ∨ ∃ t, m.Interrupted b t m') m m' := by
    induction h with
    | refl => exact ⟨.refl, .refl⟩
    | tail _ step ih =>
      obtain ⟨hsteps, hrun⟩ := ih
      obtain ⟨number, t, hnumber, step⟩ := step
      have hlt := (holds_of_steps hsteps (.drive b) hb).1
      have haround := step.around (hm.of_steps hsteps) (hseated.of_steps hsteps) hlt hnumber
      exact ⟨hsteps.trans step.steps, hrun.trans
        (haround.lift id fun _ _ h => h.imp_right fun h => ⟨t, h⟩)⟩
  exact hall.2

/-- No two drives of a machine come into each other's way. -/
structure Separate (m : Machine) : Prop where
  /-- No channel of a drive or lock is one of another, -/
  channels : ∀ o o' c, m.HasChannel o c → m.HasChannel o' c → o = o'
  /-- nor are their keys the same word, as long as the words last. -/
  words : m.nextKey ≤ UInt64.size → ∀ o o', m.Has o → m.Has o' →
    UInt64.ofNat (m.keyOf o) = UInt64.ofNat (m.keyOf o') → o = o'
  /-- Whoever waits for a drive is at a node of a call on it. -/
  waiters : m.Seated
  begins : ∀ number k (c : SectorCall), m.bayOf? number = some k →
    k < m.bays.size ∧ (m.bay k).number = number ∧ (c.operation (m.drive? number)).Underway k
  goes : ∀ t k p m', (m.task t).activity.program? = some p → p.Underway k →
    (Run.advance t).run.run m = (.ok (), m') →
      ∃ p', (m'.task t).activity.program? = some p' ∧ p'.Underway k
  /-- No step of an operation touches a drive of another number, but for the drive's own handler, -/
  frame : ∀ number t b m', b < m.bays.size → (m.bay b).number ≠ number → m.Works number t m' →
    m.Around b t m'
  /-- which does not come in unless its core has kept an interrupt of the drive. -/
  quiet : ∀ t b m', (∀ i ∈ (m.task t).core.pending, ¬m.Calls i b) → m.Around b t m' → m.Apart b m'
  run : ∀ b m', b < m.bays.size → m.WorksElsewhere b m' →
    Relation.ReflTransGen (fun m m' => m.Apart b m' ∨ ∃ t, m.Interrupted b t m') m m'
  unknown : ∀ number, m.bayOf? number = none → m.Ignores number

private theorem Distinct.separate (hm : m.Distinct) (hseated : m.Seated) : m.Separate where
  channels o o' c h h' := hm.owner_eq h h'
  words hle o o' ho ho' heq := by
    refine hm.unshared o o' ho ho' ?_
    have hlt := Nat.lt_of_lt_of_le (hm.issued o ho).2 hle
    have hlt' := Nat.lt_of_lt_of_le (hm.issued o' ho').2 hle
    have hword := congrArg UInt64.toNat heq
    rwa [UInt64.toNat_ofNat_of_lt' hlt, UInt64.toNat_ofNat_of_lt' hlt'] at hword
  waiters := hseated
  begins number k c hk := by
    obtain ⟨hlt, hnumber⟩ := hm.of_bayOf? hk
    refine ⟨hlt, hnumber, .asks _ ?_⟩
    rw [drive?, hk]
    exact c.asks_program k _
  goes t k p m' hp hunder h := (Run.leads_advance_underway hp hunder).of_ok h
  frame number t b m' hb hnumber h := h.around hm hseated hb hnumber
  quiet t b m' hquiet h := h.apart hquiet
  run b m' hb h := h.around hm hseated hb
  unknown _ := ignores_of_unknown

/-- Whatever has gone on at a machine, registering drives under numbers that were taken before included, its
drives are separate. -/
theorem separate_of_run (start : m.Bare) (run : Relation.ReflTransGen Transition m m') : m'.Separate :=
  (start.distinct.of_steps run).separate (start.seated.of_steps run)

/-! ### A drive that has been replaced -/

def smallDrive (number : UInt8) : Registration := ⟨number, {}, { window := Controller.windowOf 128 [] }⟩

/-- Two numbers, the first of which has been registered twice. -/
def replaced : Machine :=
  ((({} : Machine).addDrive (smallDrive 0)).addDrive (smallDrive 1)).addDrive (smallDrive 0)

private theorem step_addDrive (m : Machine) (number : UInt8) : m.Transition (m.addDrive (smallDrive number)) :=
  .register (smallDrive number) _ _ rfl

/-- The machine after the drive of the second number has been brought up. -/
def replacedUp : Machine := ((Run.initializeDrive 1).run.run replaced).2

/-- The replaced drive and its successor have channels of their own, and only the drive of the second number
has been brought up. -/
theorem separate_of_run_replaced :
    Bare {} ∧ Relation.ReflTransGen Transition {} replacedUp ∧ replacedUp.registry = [(0, 2), (1, 1)] ∧
      (List.range 3).map (fun b => (replacedUp.keyOf (.drive b), replacedUp.keyOf (.scratch b))) =
        [(1, 2), (3, 4), (5, 6)] ∧
      (List.range 3).map (fun b => (replacedUp.bay b).drive.state.isReady) = [false, true, false] ∧
      replacedUp.Separate := by
  have hstart : Bare {} := ⟨Nat.one_pos, rfl, rfl, rfl, rfl, rfl⟩
  have hup : ((Run.initializeDrive 1).run.run replaced).1.toBool = true ∧
      replacedUp.registry = [(0, 2), (1, 1)] ∧
      (List.range 3).map (fun b => (replacedUp.keyOf (.drive b), replacedUp.keyOf (.scratch b))) =
        [(1, 2), (3, 4), (5, 6)] ∧
      (List.range 3).map (fun b => (replacedUp.bay b).drive.state.isReady) = [false, true, false] := by
    decide +kernel
  obtain ⟨s, hs⟩ := Run.ok_of_toBool hup.1
  have hregistered : Relation.ReflTransGen Transition {} replaced :=
    ((Relation.ReflTransGen.single (step_addDrive _ 0)).tail (step_addDrive _ 1)).tail (step_addDrive _ 0)
  have hrun : Relation.ReflTransGen Transition {} replacedUp :=
    hregistered.tail (.environment _ (.initDrive 1 s _ hs))
  exact ⟨hstart, hrun, hup.2.1, hup.2.2.1, hup.2.2.2, separate_of_run hstart hrun⟩

end Machine

end DiskStack
