import DiskStack.Proofs.Nodes
import DiskStack.Proofs.ShortLocks
import DiskStack.Proofs.Waiting

/-!
# Nodes as sections

A node masks the core of its task, works, and puts the flag back. What short locks protect it changes in
between only; and until it puts the flag back no handler runs on the core, for interrupts that come in
meanwhile are kept. So nothing can be seen of the core's own doing between two of its nodes but what a
section has left, and a node counts as one step.
-/

namespace DiskStack

/-- Whether a task at a node may have to wait for something. -/
def Program.mayWait {α : Type} : Program α → Bool
  | .publish .. | .complete .. | .takeScratch .. | .takeLock .. | .passGate .. => true
  | _ => false

open Run (Within Leads leads_get leads_set leads_modify leads_change leads_pure leads_throw within_get
  within_modify)

namespace Machine

variable {m m' m'' : Machine} {t u : TaskId}

namespace Untouched

theorem of_same (hcontrol : m'.interruptControl = m.interruptControl) (htasks : m'.tasks = m.tasks)
    (hmutexes : m'.mutexes = m.mutexes) : m.Untouched m' where
  control := hcontrol
  tasks := congrArg Array.size htasks
  core t := by rw [task, task, htasks]
  mutexes := congrArg Array.size hmutexes
  locked i := by rw [mutexAt, mutexAt, hmutexes]

private theorem refl (m : Machine) : m.Untouched m := .of_same rfl rfl rfl

theorem trans (h : m.Untouched m') (h' : m'.Untouched m'') : m.Untouched m'' where
  control := h'.control.trans h.control
  tasks := h'.tasks.trans h.tasks
  core := fun t => (h'.core t).trans (h.core t)
  mutexes := h'.mutexes.trans h.mutexes
  locked := fun i => (h'.locked i).trans (h.locked i)

private theorem enabled (h : m.Untouched m') (t : TaskId) : m'.enabled t = m.enabled t :=
  congrArg Core.enabled (h.core t)

end Untouched

private theorem untouched_log (level : LogLevel) (source text : String) :
    m.Untouched (m.log level source text) := by
  rw [log]
  split <;> exact .of_same rfl rfl rfl

private theorem untouched_disable (ht : m.enabled t = false) : m.Untouched (m.mapCore t Core.disable) := by
  refine ⟨rfl, Array.size_modify, fun u => ?_, rfl, fun _ => rfl⟩
  rw [mapCore, task_mapTask]
  split
  · next h =>
    obtain ⟨rfl, -⟩ := h
    change (m.task t).core.disable = (m.task t).core
    rw [Core.disable, ← ht]
    rfl
  · rfl

private theorem untouched_probe {i : Nat} {l l' : ShortLock UInt64} (value : UInt64)
    (hl : m.mutexes[i]? = some l)
    (htry : l.tryLock = some l') :
    m.Untouched { m with mutexes := m.mutexes.setIfInBounds i { l' with value }.unlock } := by
  refine ⟨rfl, rfl, fun _ => rfl, Array.size_setIfInBounds, fun j => ?_⟩
  obtain ⟨hi, -⟩ := Array.getElem?_eq_some_iff.1 hl
  refine (locked_putMutex hi _ j).trans ?_
  split
  · next hji =>
    rw [hji, mutexAt, Array.getD_eq_getD_getElem?, hl]
    exact (ShortLock.of_tryLock htry).1.symm
  · rfl

theorem overlooks_untouched (t : TaskId) :
    OverlooksEach t fun m m' => m.enabled t = false → m.Untouched m' where
  refl := fun m _ => .refl m
  trans := fun h h' hm => (h hm).trans (h' (((h hm).enabled t).trans hm))
  emit := fun _ _ _ => .of_same rfl rfl rfl
  log := fun _ level source text _ => untouched_log level source text
  disable := fun _ hm => untouched_disable hm
  controller := fun _ _ _ _ => .of_same rfl rfl rfl
  state := fun _ _ _ _ => .of_same rfl rfl rfl
  stats := fun _ _ _ _ => .of_same rfl rfl rfl
  requests := fun _ _ _ => .of_same rfl rfl rfl
  wake := fun _ _ _ _ => .of_same rfl rfl rfl
  probe := fun _ _ _ _ value hl htry _ => untouched_probe value hl htry

/-- A machine that differs neither in which short locks are held nor in a core, but for interrupts that
one core has been made to keep. -/
structure Defers (t : TaskId) (m m' : Machine) : Prop where
  control : m'.interruptControl = m.interruptControl
  tasks : m'.tasks.size = m.tasks.size
  kept : ∃ l : List Interrupt, (m'.task t).core = l.foldl Core.defer (m.task t).core
  others : ∀ u, u ≠ t → (m'.task u).core = (m.task u).core
  mutexes : m'.mutexes.size = m.mutexes.size
  locked : ∀ i, (m'.mutexAt i).locked = (m.mutexAt i).locked

private theorem Untouched.defers (h : m.Untouched m') (t : TaskId) : m.Defers t m' where
  control := h.control
  tasks := h.tasks
  kept := ⟨[], h.core t⟩
  others u _ := h.core u
  mutexes := h.mutexes
  locked := h.locked

private theorem enabled_foldl_defer (c : Core Interrupt) (l : List Interrupt) :
    (l.foldl Core.defer c).enabled = c.enabled := by
  induction l generalizing c with
  | nil => rfl
  | cons i l ih => exact ih (c.defer i)

namespace Defers

private theorem trans (h : m.Defers t m') (h' : m'.Defers t m'') : m.Defers t m'' where
  control := h'.control.trans h.control
  tasks := h'.tasks.trans h.tasks
  kept := by
    obtain ⟨l, hl⟩ := h.kept
    obtain ⟨l', hl'⟩ := h'.kept
    exact ⟨l ++ l', by rw [hl', hl, List.foldl_append]⟩
  others := fun u hu => (h'.others u hu).trans (h.others u hu)
  mutexes := h'.mutexes.trans h.mutexes
  locked := fun i => (h'.locked i).trans (h.locked i)

theorem enabled (h : m.Defers t m') : m'.enabled t = m.enabled t := by
  obtain ⟨l, hl⟩ := h.kept
  rw [Machine.enabled, hl, enabled_foldl_defer, Machine.enabled]

end Defers

private theorem defers_defer (m : Machine) (t : TaskId) (i : Interrupt) :
    m.Defers t (m.mapCore t (·.defer i)) := by
  by_cases ht : t < m.tasks.size
  · refine ⟨rfl, Array.size_modify, ⟨[i], ?_⟩, fun u hu => ?_, rfl, fun _ => rfl⟩
    · rw [mapCore, task_mapTask, if_pos ⟨rfl, ht⟩]
      rfl
    · rw [mapCore, task_mapTask, if_neg fun h => hu h.1.symm]
  · have hsame : ∀ u, ((m.mapCore t (·.defer i)).task u).core = (m.task u).core := fun u => by
      have hnot : ¬(t = u ∧ u < m.tasks.size) := fun h => ht (h.1 ▸ h.2)
      rw [mapCore, task_mapTask, if_neg hnot]
    exact ⟨rfl, Array.size_modify, ⟨[], hsame t⟩, fun u _ => hsame u, rfl, fun _ => rfl⟩

/-- A machine with everything that short locks protect as it was. A request that has returned may be gone,
and the counters of a drive are protected by none. -/
structure Shares (m m' : Machine) : Prop where
  state : ∀ b, (m'.bay b).drive.state = (m.bay b).drive.state
  scratch : ∀ b, (m'.bay b).drive.scratch = (m.bay b).drive.scratch
  controller : ∀ b, (m'.bay b).controller = (m.bay b).controller
  requests : ∃ id, ∀ other, other ≠ id → m'.requests.find? other = m.requests.find? other
  waiting : m'.waiting = m.waiting
  runnable : m'.runnable = m.runnable
  locks : m'.locks = m.locks
  gates : m'.gates = m.gates
  mutexes : m'.mutexes = m.mutexes

private theorem bay_retire (m : Machine) (b : BayId) (id : RequestId) (k : BayId) :
    ∃ stats, (m.retire b id).bay k = { m.bay k with drive.stats := stats } := by
  rw [retire, bay_setRequests, mapDrive]
  by_cases hk : k = b
  · subst hk
    by_cases hb : k < m.bays.size
    · exact ⟨_, bay_mapBay hb _⟩
    · exact ⟨_, by rw [mapBay_of_le (Nat.le_of_not_lt hb)]⟩
  · exact ⟨_, by rw [bay_mapBay_of_ne hk]⟩

private theorem Shares.refl (m : Machine) : m.Shares m :=
  ⟨fun _ => rfl, fun _ => rfl, fun _ => rfl, ⟨0, fun _ _ => rfl⟩, rfl, rfl, rfl, rfl, rfl⟩

/-- The counters of a drive are no lock's, and the request that returns is its task's own. -/
private theorem shares_retire (m : Machine) (b : BayId) (id : RequestId) : m.Shares (m.retire b id) where
  state k := by
    obtain ⟨stats, hk⟩ := m.bay_retire b id k
    rw [hk]
  scratch k := by
    obtain ⟨stats, hk⟩ := m.bay_retire b id k
    rw [hk]
  controller k := by
    obtain ⟨stats, hk⟩ := m.bay_retire b id k
    rw [hk]
  requests := ⟨id, fun other hother => (RequestTable.find?_erase ..).trans (if_neg (Ne.symm hother))⟩
  waiting := rfl
  runnable := rfl
  locks := rfl
  gates := rfl
  mutexes := rfl

end Machine

private theorem lenient_defers (t : TaskId) :
    Lenient (fun _ => True) fun m m' => m.enabled t = false → m.Defers t m' where
  refl m _ := (Machine.Untouched.refl m).defers t
  trans h h' hm := (h hm).trans (h' ((h hm).enabled.trans hm))
  emit m e _ hm := (((Machine.overlooks_untouched t).emit m e) hm).defers t
  log m level source text hm := (((Machine.overlooks_untouched t).log m level source text) hm).defers t
  controller m b f _ hm := (((Machine.overlooks_untouched t).controller m b f) hm).defers t

namespace Run

variable {α β : Type} {t : TaskId} {parks : α → Bool} {m m' : Machine}

private theorem within_raise_defers (t : TaskId) (i : Interrupt) :
    Within (fun m m' => m.enabled t = false → m.Defers t m') (raise t i) := fun m => leads_get (by
  split
  · next hon => exact (leads_any _).mono fun _ _ _ hoff => by cases hon.symm.trans hoff
  · exact leads_change fun _ => m.defers_defer t i)

private theorem within_notify_defers (t : TaskId) (b : BayId) :
    Within (fun m m' => m.enabled t = false → m.Defers t m') (notify t b) :=
  (lenient_defers t).within_notify
    (fun _ _ _ _ _ _ _ _ => ⟨rfl, rfl, ⟨[], rfl⟩, fun _ _ => rfl, rfl, fun _ => rfl⟩)
    (within_raise_defers t) trivial

/-- A run outside of all sections, for a task that need not sleep. It leaves cores and locks alone, and all
that they protect. -/
def Outside (parks : α → Bool) (x : Run α) : Prop :=
  ∀ m, Leads x m fun a m' => parks a = false ∧ m.Untouched m' ∧ m.Shares m'

/-- What is done with a lock in hand. While the flag is off no handler runs on the core. At the end the flag
is put back, by a task that sleeps after it has registered, and nothing that is protected is changed
any more. -/
inductive Closes (t : TaskId) (parks : α → Bool) : Machine → (Bool → Run α) → Prop
  | park (m : Machine) (c : Channel) (a : α) (ha : parks a = true) : Closes t parks m fun saved => do
      modify (·.prepare t c)
      restore t saved
      return a
  | leave (m : Machine) (x : Run α) (hx : Outside parks x) : Closes t parks m fun saved => do
      restore t saved
      x
  | work {β : Type} (m : Machine) (y : Run β) (f : β → Bool → Run α)
    (hy : Leads y m fun _ m' => m.enabled t = false → m.Defers t m')
    (hf : ∀ b m', y.run.run m = (.ok b, m') → Closes t parks m' (f b)) :
    Closes t parks m fun saved => do f (← y) saved

/-- A run with one section at most. All that it may look at before are the configurations of drives. -/
inductive Sectioned (t : TaskId) (parks : α → Bool) : Run α → Prop
  | none (x : Run α) (hx : Outside parks x) : Sectioned t parks x
  | configured (f : Machine → Run α) (hf : ∀ m, Sectioned t parks (f m))
    (hsame : ∀ m m', (∀ b, (m'.bay b).drive.config = (m.bay b).drive.config) → f m' = f m) :
    Sectioned t parks do f (← get)
  | one (f : Bool → Run α) (hf : ∀ m, Closes t parks m f) : Sectioned t parks do f (← mask t)

private theorem closes_get {f : Machine → Bool → Run α} (hf : Closes t parks m (f m)) :
    Closes t parks m (fun saved => do f (← get) saved) :=
  .work m get f (fun _ h => by
    cases h
    exact fun _ => (Machine.Untouched.refl m).defers t) fun b m' h => by
    cases h
    exact hf

private theorem closes_set {f : Bool → Run α} (h : m.Untouched m') (hf : Closes t parks m' f) :
    Closes t parks m (fun saved => do set m'; f saved) :=
  .work m (set m') (fun _ => f) (fun _ _ _ => h.defers t) fun b m'' h' => by
    cases h'
    exact hf

private theorem closes_modify {g : Machine → Machine} {f : Bool → Run α} (h : m.Untouched (g m))
    (hf : Closes t parks (g m) f) :
    Closes t parks m (fun saved => do modify g; f saved) :=
  .work m (modify g) (fun _ => f) (fun _ _ _ => h.defers t) fun b m'' h' => by
    cases h'
    exact hf

private theorem closes_when {c : Prop} [Decidable c] {y : Run PUnit} {f : PUnit → Bool → Run α}
    (hy : Within (fun m m' => m.enabled t = false → m.Defers t m') y)
    (hf : ∀ m, Closes t parks m (f ⟨⟩)) (m : Machine) :
    Closes t parks m (fun saved => if c then do f (← y) saved else f ⟨⟩ saved) := by
  split
  · exact .work m y f (hy m) fun _ m' _ => hf m'
  · exact hf m

private theorem outside_pure {a : α} (ha : parks a = false) : Outside parks (pure a) := fun m =>
  leads_pure ⟨ha, .refl m, .refl m⟩

private theorem outside_throw (e : Halt) : Outside parks (throw e : Run α) := fun _ => leads_throw

private theorem closes_proceed (m : Machine) (p : Program Reply) :
    Closes t Activity.waits m fun saved => proceed t saved p :=
  .leave m _ (outside_pure rfl)

private theorem closes_park (m : Machine) (c : Channel) (p : Program Reply) :
    Closes t Activity.waits m fun saved => park t saved c p :=
  .park m c _ rfl

private theorem closes_finishOrPark (m : Machine) (b : BayId) (id : RequestId) (ticket : UInt64)
    (next : SubmitReply → Program Reply) :
    Closes t Activity.waits m fun saved => finishOrPark t saved b id ticket next := by
  refine closes_get ?_
  split
  · exact closes_park _ _ _
  · refine .leave m _ fun m₁ => leads_get (leads_set (leads_pure ⟨rfl, ?_, m₁.shares_retire b id⟩))
    exact .of_same rfl rfl rfl

private theorem closes_publishOrPark (m : Machine) (b : BayId) (s : ReadyState) (id : RequestId)
    (sector : Nat)
    (next : SubmitReply → Program Reply) :
    Closes t Activity.waits m fun saved => publishOrPark t saved b s id sector next := by
  refine closes_get ?_
  dsimp only
  generalize s.publish? id _ _ _ _ = published
  rcases published with e | _ | ⟨submission, chain, s'⟩
  · exact .leave m _ (outside_throw e)
  · exact closes_park _ _ _
  · refine closes_set (.of_same rfl rfl rfl) ?_
    refine .work _ (notify t b) _ (within_notify_defers t b _) fun _ m₁ _ => ?_
    refine .work _ _ _ ((lenient_defers t).within_log _ _ _ _) fun _ m₂ _ => ?_
    exact closes_finishOrPark m₂ b id _ next

theorem exists_closes_node (t : TaskId) {p : Program Reply} (hp : p.mayWait = true) :
    ∃ f : Bool → Run Activity, node t p = (do f (← mask t)) ∧ ∀ m, Closes t Activity.waits m f := by
  cases p with
  | publish b id sector next =>
    refine ⟨_, rfl, fun m => closes_get ?_⟩
    generalize (m.bay b).drive.state = state
    cases state with
    | ready s => exact closes_publishOrPark m b s id sector next
    | _ => exact closes_proceed m _
  | complete b id ticket next => exact ⟨_, rfl, fun m => closes_finishOrPark m b id ticket next⟩
  | takeScratch b next =>
    refine ⟨_, rfl, fun m => closes_get ?_⟩
    dsimp only
    generalize SleepLock.tryAcquire _ _ = taken
    cases taken with
    | none => exact closes_park m _ _
    | some l =>
      exact closes_modify (.of_same rfl rfl rfl) (closes_proceed _ _)
  | takeLock lock next =>
    simp only [node, takeLock, sleepLock, bind_assoc, pure_bind]
    refine ⟨_, rfl, fun m => closes_get ?_⟩
    generalize SleepLock.tryAcquire _ _ = taken
    cases taken with
    | none => exact closes_park m _ _
    | some l =>
      exact closes_modify (.of_same rfl rfl rfl) (closes_proceed _ _)
  | passGate gate waits next =>
    refine ⟨_, rfl, fun m => closes_get ?_⟩
    dsimp only
    split
    · exact closes_modify (.of_same rfl rfl rfl) (closes_proceed _ _)
    · exact closes_park m _ _
  | _ => cases hp

/-- A node of a program has one section at most, and what it does besides leaves everything alone that
short locks protect. -/
theorem sectioned_node (t : TaskId) (p : Program Reply) : Sectioned t Activity.waits (node t p) := by
  by_cases hp : p.mayWait = true
  · obtain ⟨f, hnode, hf⟩ := exists_closes_node t hp
    rw [hnode]
    exact .one f hf
  cases p with
  | done a => exact .none _ (outside_pure rfl)
  | halt h => exact .none _ (outside_throw h)
  | inspect b next =>
    simp only [node, inspect, bind_assoc, pure_bind]
    exact .one _ fun m => closes_get (.leave m _ (outside_pure rfl))
  | submit b a next =>
    refine .configured _ (fun m => ?_) fun m m' h => by simp only [h]
    dsimp only
    split
    · exact .none _ (outside_pure rfl)
    · next sector _ =>
      refine .one _ fun m => closes_get ?_
      generalize DriveState.checkSectors _ _ _ = checked
      rcases checked with e | s
      · exact closes_proceed m _
      · refine .work m (enterRequest a) _ ?_ fun id m₁ _ => closes_publishOrPark m₁ b s id sector next
        refine leads_get (leads_set (leads_pure fun _ => ?_))
        exact ⟨rfl, rfl, ⟨[], rfl⟩, fun _ _ => rfl, rfl, fun _ => rfl⟩
  | giveScratch b value next =>
    simp only [node, giveScratch, bind_assoc]
    refine .one _ fun m => closes_get ?_
    refine closes_modify (.of_same rfl rfl rfl) ?_
    exact closes_modify (.of_same rfl rfl rfl) (.leave _ _ (outside_pure rfl))
  | _ => exact absurd rfl hp

theorem sectioned_inspectLock (t : TaskId) (lock : Nat) :
    Sectioned t (fun _ => false) (inspectLock t lock) := by
  simp only [inspectLock, sleepLock, bind_assoc, pure_bind]
  exact .one _ fun m => closes_get (.leave m _ (outside_pure rfl))

theorem sectioned_tryLock (t : TaskId) (lock : Nat) :
    Sectioned t (fun _ => false) (tryLock t lock) := by
  simp only [tryLock, sleepLock, bind_assoc, pure_bind]
  refine .one _ fun m => closes_get ?_
  generalize SleepLock.tryAcquire _ _ = taken
  cases taken with
  | none => exact .leave m _ (outside_pure rfl)
  | some l =>
    exact closes_modify (.of_same rfl rfl rfl) (.leave _ _ (outside_pure rfl))

theorem sectioned_unlock (t : TaskId) (lock : Nat) : Sectioned t (fun _ => false) (unlock t lock) := by
  simp only [unlock, sleepLock, bind_assoc, pure_bind]
  refine .one _ fun m => closes_get ?_
  refine closes_modify (.of_same rfl rfl rfl) ?_
  refine closes_modify (.of_same rfl rfl rfl) ?_
  simpa using Closes.leave _ (pure ()) (outside_pure rfl)

theorem sectioned_bringUp (b : BayId) : Sectioned controlTask (fun _ => false) (bringUp b) := by
  have hinside := lenient_defers controlTask
  refine .one _ fun m => closes_get ?_
  refine closes_when (hinside.within_log _ _ _) (fun m₁ => ?_) m
  refine .work m₁ _ _ (hinside.within_dialogue trivial _ m₁) fun r m₂ _ => ?_
  refine closes_modify (.of_same rfl rfl rfl) ?_
  exact closes_when (hinside.within_logNegotiation _ _ _) (fun m₃ => .leave m₃ _ (outside_pure rfl)) _

end Run

end DiskStack
