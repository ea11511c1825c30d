import DiskStack.Machine.Locks
import DiskStack.Proofs.Nodes

/-!
# Interrupts are kept only while the flag is off

An interrupt that finds the flag off is kept, and whoever puts the flag on again delivers what has been kept
before anything else. So between two steps of a machine no core whose flag is on keeps an interrupt, and
there is nothing to deliver at the end of a section but what has come in meanwhile.
-/

namespace DiskStack

namespace Machine

variable {m m' m'' : Machine} {t u : TaskId}

/-- Only cores whose flag is off keep interrupts. -/
def Calm (m : Machine) : Prop :=
  ∀ t, (m.task t).core.enabled = true → (m.task t).core.pending = []

/-- A core keeps the interrupts that it kept, and its flag has not gone on. -/
def QuietAt (t : TaskId) (m m' : Machine) : Prop :=
  (m'.task t).core.pending = (m.task t).core.pending ∧
    ((m'.task t).core.enabled = true → (m.task t).core.enabled = true)

private theorem QuietAt.refl (t : TaskId) (m : Machine) : QuietAt t m m := ⟨rfl, id⟩

private theorem QuietAt.trans (h : QuietAt t m m') (h' : QuietAt t m' m'') : QuietAt t m m'' :=
  ⟨h'.1.trans h.1, fun hon => h.2 (h'.2 hon)⟩

theorem QuietAt.of_core (h : (m'.task t).core = (m.task t).core) : QuietAt t m m' := by
  rw [QuietAt, h]
  exact ⟨rfl, id⟩

theorem Calm.of_quiet (hm : m.Calm) (h : ∀ u, QuietAt u m m') : m'.Calm := fun u hon =>
  (h u).1.trans (hm u ((h u).2 hon))

private theorem Calm.of_others (hm : m.Calm) (h : ∀ u, u ≠ t → QuietAt u m m')
    (ht : (m'.task t).core.pending = []) : m'.Calm := fun u hon => by
  by_cases hu : u = t
  · rw [hu, ht]
  · exact (h u hu).1.trans (hm u ((h u hu).2 hon))

private theorem quietAt_mapCore_of_ne (hu : u ≠ t) (f : Core Interrupt → Core Interrupt) :
    QuietAt u m (m.mapCore t f) := by
  refine .of_core ?_
  rw [mapCore, task_mapTask, if_neg fun h => hu h.1.symm]

private theorem pending_mapCore (f : Core Interrupt → Core Interrupt)
    (hf : ∀ c, (f c).pending = c.pending) :
    ((m.mapCore t f).task u).core.pending = (m.task u).core.pending := by
  rw [mapCore, task_mapTask]
  split
  · exact hf _
  · rfl

private theorem quietAt_disable (t u : TaskId) : QuietAt u m (m.mapCore t Core.disable) := by
  refine ⟨pending_mapCore _ fun _ => rfl, fun hon => ?_⟩
  rw [mapCore, task_mapTask] at hon
  split at hon
  · cases hon
  · exact hon

theorem core_setActivity (m : Machine) (t u : TaskId) (a : Activity) :
    ((m.setActivity t a).task u).core = (m.task u).core := by
  rw [setActivity, task_mapTask]
  split <;> rfl

private theorem quietAt_log (level : LogLevel) (source text : String) :
    QuietAt u m (m.log level source text) := by
  rw [log]
  split <;> exact .refl u m

end Machine

open Machine (QuietAt Calm)

private theorem overlooks_quiet (t u : TaskId) : OverlooksEach t (QuietAt u) where
  refl := .refl u
  trans := .trans
  emit := fun _ _ => .refl u _
  log := fun _ => Machine.quietAt_log
  disable := fun _ => Machine.quietAt_disable t u
  controller := fun _ _ _ => .refl u _
  state := fun _ _ _ => .refl u _
  stats := fun _ _ _ => .refl u _
  requests := fun _ _ => .refl u _
  wake := fun _ _ _ => .refl u _
  probe := fun _ _ _ _ _ _ _ => .refl u _

theorem overlooks_calm (t : TaskId) : OverlooksEach t fun m m' => m.Calm → m'.Calm where
  refl := fun _ => id
  trans := fun h h' hm => h' (h hm)
  emit := fun _ _ => id
  log := fun _ _ _ _ hm => hm.of_quiet fun _ => Machine.quietAt_log _ _ _
  disable := fun _ hm => hm.of_quiet (Machine.quietAt_disable t)
  controller := fun _ _ _ => id
  state := fun _ _ _ => id
  stats := fun _ _ _ => id
  requests := fun _ _ => id
  wake := fun _ _ _ => id
  probe := fun _ _ _ _ _ _ _ => id

namespace Run

variable {α β : Type} {m : Machine} {t : TaskId} {b : BayId}

/-- A run that keeps a machine calm, unless it halts. -/
def Calms (x : Run α) : Prop := Within (fun m m' => m.Calm → m'.Calm) x

/-- A handler keeps its core's interrupts as they are, and leaves the other cores quiet. -/
private theorem leads_handle_quiet (t : TaskId) (i : Interrupt) (m : Machine) :
    Leads (handle t i) m fun _ m' => (m'.task t).core.pending = (m.task t).core.pending ∧
      ∀ u, u ≠ t → QuietAt u m m' := by
  have hquiet : Leads (handler t i) (m.mapCore t Core.disable) fun _ m' =>
      ∀ u, QuietAt u (m.mapCore t Core.disable) m' := fun a ha u =>
    (overlooks_quiet t u).leads_handler (m.enabled_mapCore_disable t) i a ha
  refine leads_modify (hquiet.bind fun _ m₁ h => leads_change ⟨?_, fun u hu => ?_⟩)
  · have hoff := Machine.pending_mapCore (m := m) (t := t) (u := t) Core.disable fun _ => rfl
    have hon := Machine.pending_mapCore (m := m₁) (t := t) (u := t) Core.enable fun _ => rfl
    exact hon.trans ((h t).1.trans hoff)
  · exact (Machine.quietAt_mapCore_of_ne hu _).trans
      ((h u).trans (Machine.quietAt_mapCore_of_ne hu _))

private theorem leads_deliver_quiet (t : TaskId) (n : Nat) {m : Machine}
    (hn : (m.task t).core.pending.length ≤ n) :
    Leads (deliver t n) m fun _ m' => (m'.task t).core.pending = [] ∧
      ∀ u, u ≠ t → QuietAt u m m' := by
  -- Each handler leaves what is kept on its core alone, so every round drops one interrupt.
  induction n generalizing m with
  | zero =>
    exact leads_pure ⟨List.length_eq_zero_iff.1 (Nat.le_zero.1 hn), fun u _ => .refl u m⟩
  | succ n ih =>
    apply leads_get
    cases hpending : (m.task t).core.pending with
    | nil => exact leads_pure ⟨hpending, fun u _ => .refl u m⟩
    | cons i later =>
      have ht : t < m.tasks.size := Nat.lt_of_not_le fun hle => by
        simp [Machine.task, Array.getElem?_eq_none hle] at hpending
      have hlater : ((m.mapCore t Core.dropPending).task t).core.pending = later := by
        rw [Machine.mapCore, Machine.task_mapTask, if_pos ⟨rfl, ht⟩]
        exact congrArg List.tail hpending
      refine leads_modify ((leads_handle_quiet t i _).bind fun _ m₁ h => ?_)
      refine (ih ?_).mono fun _ m₂ h' => ⟨h'.1, fun u hu => ?_⟩
      · rw [h.1, hlater]
        rw [hpending] at hn
        exact Nat.le_of_succ_le_succ hn
      · exact (Machine.quietAt_mapCore_of_ne hu _).trans ((h.2 u hu).trans (h'.2 u hu))

private theorem calms_restore (t : TaskId) (saved : Bool) : Calms (restore t saved) := by
  intro m
  rw [restore]
  cases saved with
  | false => exact leads_pure id
  | true =>
    rw [if_pos rfl]
    refine leads_modify (leads_get ((leads_deliver_quiet t _ (Nat.le_refl _)).mono ?_))
    refine fun _ m' h hm => hm.of_others (fun u hu => ?_) h.1
    exact (Machine.quietAt_mapCore_of_ne (m := m.emit (.unmask t)) hu _).trans (h.2 u hu)

theorem calms_raise (t : TaskId) (i : Interrupt) : Calms (raise t i) := by
  intro m
  apply leads_get
  cases hflag : (m.task t).core.enabled with
  | true =>
    exact (leads_handle_quiet t i m).mono fun _ m' h hm =>
      hm.of_others h.2 (h.1.trans (hm t hflag))
  | false =>
    refine leads_change fun hm u hon => ?_
    rw [Machine.mapCore, Machine.task_mapTask] at hon ⊢
    split at hon
    · next h =>
      rw [← h.1] at hon
      cases hflag.symm.trans hon
    · next h =>
      rw [if_neg h]
      exact hm u hon

/-! ### Steps of tasks and controllers -/

theorem tolerates_calm (t : TaskId) :
    Tolerates t (fun _ => True) fun m m' => m.Calm → m'.Calm where
  toLenient := ((overlooks_calm t).overlooks _).toLenient
  mask := ((overlooks_calm t).overlooks fun _ => True).within_mask
  restore := calms_restore t
  notify _ := ((overlooks_calm t).overlooks fun _ => True).within_notify (fun _ _ _ _ _ _ _ => id)
    (calms_raise t)

private theorem calms_pure (a : α) : Calms (pure a) := (tolerates_calm controlTask).within_pure a

private theorem Calms.bind {x : Run α} {f : α → Run β} (hx : Calms x) (hf : ∀ a, Calms (f a)) :
    Calms (x >>= f) := (tolerates_calm controlTask).within_bind hx hf

private theorem calms_get {f : Machine → Run α} (h : ∀ m, Calms (f m)) : Calms (get >>= f) := within_get h

private theorem calms_mask (t : TaskId) : Calms (mask t) := (tolerates_calm t).mask

theorem calms_work (b : BayId) (order : Option (List Nat)) : Calms (work b order) :=
  (tolerates_calm controlTask).within_work (fun _ _ _ _ _ _ _ => id) trivial order

theorem calms_bringUp (b : BayId) : Calms (bringUp b) :=
  (tolerates_calm controlTask).within_bringUp trivial (fun _ _ => id) fun _ _ => id

private theorem calms_sleepLock (lock : Nat) : Calms (sleepLock lock) := calms_get fun _ => calms_pure _

private theorem overlooksSteps_calm (t : TaskId) :
    OverlooksSteps t (fun _ => True) fun m m' => m.Calm → m'.Calm where
  trans h h' hm := h' (h hm)
  act m a hm := hm.of_quiet fun u => .of_core (m.core_setActivity t u a)
  sleep _ := id
  stayUp _ := id
  enter _ _ := id
  publish _ _ _ _ _ := id
  retire _ _ _ _ := id
  awaitDrive _ _ _ _ _ := id
  takeScratch _ _ _ _ _ := id
  giveScratch _ _ _ _ := id
  awaitLock _ _ := id
  takeLock _ _ _ _ := id
  awaitGate _ _ := id
  passGate _ _ := id

theorem calms_advance (t : TaskId) : Calms (advance t) := fun _ =>
  (tolerates_calm t).leads_advance (overlooksSteps_calm t) fun p _ => p.at_any

theorem calms_inspectLock (t : TaskId) (lock : Nat) : Calms (inspectLock t lock) :=
  (calms_mask t).bind fun saved => (calms_sleepLock lock).bind fun _ =>
    (calms_restore t saved).bind fun _ => calms_pure _

theorem calms_tryLock (t : TaskId) (lock : Nat) : Calms (tryLock t lock) :=
  (tolerates_calm t).within_tryLock lock fun _ _ _ => id

theorem calms_unlock (t : TaskId) (lock : Nat) : Calms (unlock t lock) :=
  (tolerates_calm t).within_unlock lock fun _ => id

theorem calms_openGate (gate : Nat) (waking : Bool) : Calms (openGate gate waking) :=
  (tolerates_calm controlTask).within_openGate gate waking (fun _ => id) fun _ _ => id

end Run

end DiskStack
