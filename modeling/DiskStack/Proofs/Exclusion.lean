import DiskStack.Proofs.KeptInterrupts
import DiskStack.Proofs.SleepLocks

/-!
# One holder at a time

What the users of a sleep lock may count on at every moment of a run: at most one guard is live, the lock
is held exactly while one is and knows its owner, an attempt succeeds exactly when none is, and each holder
finds the value that the last one left. No core whose flag is on keeps an interrupt between two steps, so
nothing is delivered when such an operation puts the flag back: it always returns, and leaves no trace but
its own and the events of masking.
-/

namespace DiskStack

namespace Run

variable {α β : Type} {m : Machine} {t : TaskId} {lock : Nat}

/-- A run that returns a value and leaves a certain machine, but for the events. -/
def Leaves (x : Run α) (m : Machine) (a : α) (m' : Machine) : Prop :=
  ∃ events, x.run.run m = (.ok a, { m' with events })

/-- A run that comes to an end without a halt. -/
def Returns (x : Run α) (m : Machine) (Q : α → Machine → Prop) : Prop :=
  Ends x m fun r m' => ∃ a, r = .ok a ∧ Q a m'

theorem returns_pure {a : α} {Q : α → Machine → Prop} (h : Q a m) : Returns (pure a) m Q :=
  ends_pure ⟨a, rfl, h⟩

theorem Returns.bind {x : Run α} {f : α → Run β} {Q : α → Machine → Prop} {R : β → Machine → Prop}
    (hx : Returns x m Q) (h : ∀ a m', Q a m' → Returns (f a) m' R) : Returns (x >>= f) m R := by
  refine ends_bind (Ends.mono hx ?_)
  rintro r m' ⟨a, rfl, hq⟩
  exact h a m' hq

theorem Returns.leaves {x : Run α} {a : α} {m' : Machine}
    (h : Returns x m fun a' m₁ => a' = a ∧ ∃ events, m₁ = { m' with events }) : Leaves x m a m' := by
  obtain ⟨a', hr, rfl, events, hm⟩ := h
  exact ⟨events, Prod.ext hr hm⟩

private theorem Leaves.returns {x : Run α} {a : α} {m' : Machine} (h : Leaves x m a m') :
    Returns x m fun a' m₁ => a' = a ∧ ∃ events, m₁ = { m' with events } := by
  obtain ⟨events, hx⟩ := h
  rw [Returns, Ends, hx]
  exact ⟨a, rfl, rfl, events, rfl⟩

theorem Leaves.leads {x : Run α} {a : α} {m' : Machine} (h : Leaves x m a m') :
    Leads x m fun a' m₁ => a' = a ∧ ∃ events, m₁ = { m' with events } :=
  h.returns.mono fun _ _ ⟨_, hr, hq⟩ _ ha => by
    cases hr.symm.trans ha
    exact hq

theorem leaves_pure (a : α) (m : Machine) : Leaves (pure a) m a m := ⟨m.events, rfl⟩

theorem leaves_get {f : Machine → Run α} {a : α} {m' : Machine} (h : Leaves (f m) m a m') :
    Leaves (get >>= f) m a m' := h

theorem Leaves.bind {x : Run α} {f : α → Run β} {a : α} {c : β} {m₁ m₂ : Machine}
    (hx : Leaves x m a m₁) (hf : ∀ events, Leaves (f a) { m₁ with events } c m₂) :
    Leaves (x >>= f) m c m₂ :=
  Returns.leaves (hx.returns.bind fun _ _ ⟨ha, events, hm⟩ => by
    rw [ha, hm]
    exact (hf events).returns)

private theorem ends_sleepLock {l : SleepLock UInt64} {f : SleepLock UInt64 → Run α}
    {Q : Except Halt α → Machine → Prop} (hl : m.lockAt lock = l) (h : Ends (f l) m Q) :
    Ends (sleepLock lock >>= f) m Q := by
  rw [← hl] at h
  exact h

/-- Whether masking a core and putting its flag back again leaves the tasks as they were. -/
def PutsBack (m : Machine) (t : TaskId) (saved : Bool) (tasks : Array Task) : Prop :=
  ∀ m' : Machine, m'.tasks = tasks → Returns (restore t saved) m' fun _ m'' =>
    ∃ events, m'' = { m' with tasks := m.tasks, events }

private theorem mapCore_mapCore (t : TaskId) (f g : Core Interrupt → Core Interrupt) :
    ((m.mapCore t f).mapCore t g).tasks = (m.mapCore t fun c => g (f c)).tasks :=
  congrArg Machine.tasks (Machine.mapTask_mapTask ..)

private theorem tasks_mapCore_eq_self {f : Core Interrupt → Core Interrupt}
    (h : f (m.task t).core = (m.task t).core) : (m.mapCore t f).tasks = m.tasks :=
  congrArg Machine.tasks (Machine.mapTask_eq_self (by rw [h]))

/-- Masking puts the flag off, and putting it back undoes that where no interrupt has been kept. -/
private theorem putsBack (hm : m.Calm) :
    PutsBack m t (m.task t).core.enabled (m.mapCore t Core.disable).tasks := by
  intro m' hm'
  have hback : ∀ enabled, (m.task t).core.enabled = enabled →
      { (m.task t).core with enabled } = (m.task t).core := fun enabled h => by rw [← h]
  cases hflag : (m.task t).core.enabled with
  | false =>
    have htasks : m'.tasks = m.tasks := hm'.trans (tasks_mapCore_eq_self (hback false hflag))
    refine returns_pure ⟨m'.events, ?_⟩
    rw [← htasks]
  | true =>
    -- The flag goes off and on again, which for a flag that was on is no change at all.
    have htasks : ((m'.emit (.unmask t)).mapCore t Core.enable).tasks = m.tasks := by
      have hsame : ((m'.emit (.unmask t)).mapCore t Core.enable).tasks =
          ((m.mapCore t Core.disable).mapCore t Core.enable).tasks := by
        change m'.tasks.modify t (fun task => { task with core := task.core.enable }) = _
        rw [hm']
        rfl
      rw [hsame, mapCore_mapCore]
      exact tasks_mapCore_eq_self (hback true hflag)
    rw [restore, if_pos rfl]
    refine ends_modify (ends_get ?_)
    rw [Machine.task, htasks, ← Machine.task, hm t hflag]
    refine returns_pure ⟨.unmask t :: m'.events, ?_⟩
    rw [← htasks]
    rfl

theorem returns_masked (hm : m.Calm) {f : Bool → Run α} {Q : α → Machine → Prop}
    (h : ∀ saved tasks events, PutsBack m t saved tasks →
      Returns (f saved) { m with tasks, events } Q) : Returns (mask t >>= f) m Q := by
  refine ends_bind ((ends_masked t m).mono ?_)
  rintro r m₁ ⟨rfl, rfl⟩
  cases m.interruptControl with
  | false =>
    refine h false m.tasks m.events fun m' hm' => returns_pure ⟨m'.events, ?_⟩
    rw [← hm']
  | true => exact h _ _ _ (putsBack hm)

/-- On a calm machine a section that looks at a lock does what it does with the flag left alone. -/
private theorem leaves_section (hm : m.Calm) {f : Bool → SleepLock UInt64 → Run α} {a : α} {m' : Machine}
    (h : ∀ saved tasks events, PutsBack m t saved tasks →
      Returns (f saved (m.lockAt lock)) { m with tasks, events } fun a' m₁ =>
        a' = a ∧ ∃ events, m₁ = { m' with events }) :
    Leaves (do f (← mask t) (← sleepLock lock)) m a m' :=
  Returns.leaves (returns_masked hm fun saved tasks events hback =>
    ends_sleepLock rfl (h saved tasks events hback))

section

variable (hm : m.Calm)
include hm

private theorem leaves_inspectLock : Leaves (inspectLock t lock) m (m.lockAt lock) m :=
  leaves_section hm fun _ _ _ hback => (hback _ rfl).bind fun _ _ hm' => returns_pure ⟨rfl, hm'⟩

private theorem leaves_tryLock_of_held (hheld : (m.lockAt lock).held = true) :
    Leaves (tryLock t lock) m none m := by
  refine leaves_section hm fun saved tasks events hback => ?_
  rw [SleepLock.tryAcquire_of_held hheld]
  exact (hback _ rfl).bind fun _ _ hm' => returns_pure ⟨rfl, hm'⟩

private theorem leaves_tryLock_of_free (hfree : (m.lockAt lock).held = false) :
    Leaves (tryLock t lock) m (some (m.lockAt lock).value)
      (m.putLock lock ((m.lockAt lock).acquire t)) := by
  refine leaves_section hm fun saved tasks events hback => ?_
  rw [SleepLock.tryAcquire_of_free hfree]
  exact ends_modify ((hback _ rfl).bind fun _ _ hm' => returns_pure ⟨rfl, hm'⟩)

private theorem leaves_takeLock_of_held (hheld : (m.lockAt lock).held = true)
    (next : UInt64 → Program Reply) :
    Leaves (takeLock t lock next) m (.parking (.takeLock lock next))
      (m.prepare t (m.lockAt lock).channel) := by
  refine leaves_section hm fun saved tasks events hback => ?_
  rw [SleepLock.tryAcquire_of_held hheld]
  exact ends_modify ((hback _ rfl).bind fun _ _ hm' => returns_pure ⟨rfl, hm'⟩)

private theorem leaves_takeLock_of_free (hfree : (m.lockAt lock).held = false)
    (next : UInt64 → Program Reply) :
    Leaves (takeLock t lock next) m (.running (next (m.lockAt lock).value))
      (m.putLock lock ((m.lockAt lock).acquire t)) := by
  refine leaves_section hm fun saved tasks events hback => ?_
  rw [SleepLock.tryAcquire_of_free hfree]
  exact ends_modify ((hback _ rfl).bind fun _ _ hm' => returns_pure ⟨rfl, hm'⟩)

end

end Run

namespace LockScene

/-- What the users of a lock may count on. -/
structure Exclusive (s : LockScene) (lock : Nat) : Prop where
  one : s.guards.length ≤ 1
  held : (s.machine.lockAt lock).held = true ↔ s.guards ≠ []
  owner : (s.machine.lockAt lock).owner = s.guards.head?
  agrees : (s.machine.lockAt lock).held = (s.machine.lockAt lock).owner.isSome
  holding : ∀ t, (s.machine.lockAt lock).isHeldBy t = true ↔ t ∈ s.guards
  /-- Asking tells how the lock is. -/
  asked : ∀ t, Run.Leaves (Run.inspectLock t lock) s.machine (s.machine.lockAt lock) s.machine
  /-- An attempt that finds a live guard leaves the state as it is. -/
  refused : ∀ t, s.guards ≠ [] → Run.Leaves (Run.tryLock t lock) s.machine none s.machine
  /-- An attempt that finds no guard succeeds, and finds the value that the last holder left. -/
  granted : ∀ t, s.guards = [] → Run.Leaves (Run.tryLock t lock) s.machine (some s.left)
    (s.machine.putLock lock ((s.machine.lockAt lock).acquire t))
  /-- A task that finds a live guard at the lock's node registers and parks. -/
  waits : ∀ t next, s.guards ≠ [] → Run.Leaves (Run.takeLock t lock next) s.machine
    (.parking (.takeLock lock next)) (s.machine.prepare t (s.machine.lockAt lock).channel)
  /-- A task that finds no guard there goes on with the value that the last holder left. -/
  takes : ∀ t next, s.guards = [] → Run.Leaves (Run.takeLock t lock next) s.machine
    (.running (next s.left)) (s.machine.putLock lock ((s.machine.lockAt lock).acquire t))

variable {s s' : LockScene} {lock : Nat} {t : TaskId}

/-- No step leaves an interrupt kept on a core whose flag is on. -/
theorem Step.calm (h : Step lock s s') (hs : s.machine.Calm) : s'.machine.Calm := by
  cases h with
  | call t p ht h => exact hs.of_quiet fun u => .of_core (Machine.core_setActivity _ t u _)
  | advance t m h => exact (Run.calms_advance t _).of_ok h hs
  | reply t r h => exact hs.of_quiet fun u => .of_core (Machine.core_setActivity _ t u _)
  | rouse t p h => exact hs.of_quiet fun u => .of_core (Machine.core_setActivity _ t u _)
  | wake c => exact hs
  | tryLock t r m h => exact (Run.calms_tryLock t lock _).of_ok h hs
  | inspect t l m h => exact (Run.calms_inspectLock t lock _).of_ok h hs
  | store t v ht => exact hs
  | drop t u m ht h => exact (Run.calms_unlock u lock _).of_ok h hs
  | raise t i m h => exact (Run.calms_raise t i _).of_ok h hs
  | work b order r m h => exact (Run.calms_work b order _).of_ok h hs
  | bringUp b r m h => exact (Run.calms_bringUp b _).of_ok h hs

theorem calm_of_run (start : s.machine.Calm) (run : Relation.ReflTransGen (Step lock) s s') :
    s'.machine.Calm := by
  induction run with
  | refl => exact start
  | tail _ step ih => exact step.calm ih

private theorem Owned.exclusive (h : s.Owned lock) (hm : s.machine.Calm) : s.Exclusive lock := by
  have hheld := h.held_iff
  have hfree : s.guards = [] → (s.machine.lockAt lock).held = false := fun hs =>
    Bool.eq_false_iff.2 fun hl => hheld.1 hl hs
  refine ⟨h.one, hheld, h.owner, h.agrees, fun t => ?_, fun t => Run.leaves_inspectLock hm,
    fun t hs => Run.leaves_tryLock_of_held hm (hheld.2 hs),
    fun t hs => h.left hs ▸ Run.leaves_tryLock_of_free hm (hfree hs),
    fun t next hs => Run.leaves_takeLock_of_held hm (hheld.2 hs) next,
    fun t next hs => h.left hs ▸ Run.leaves_takeLock_of_free hm (hfree hs) next⟩
  have hone := h.one
  rw [SleepLock.isHeldBy, show (s.machine.lockAt lock).held = _ from h.agrees, h.owner]
  rcases hguards : s.guards with _ | ⟨u, _ | ⟨v, rest⟩⟩
  · simp
  · rw [List.head?_cons, Option.isSome_some, Bool.true_and, beq_iff_eq, Option.some.injEq,
      List.mem_singleton]
    exact eq_comm
  · rw [hguards] at hone
    exact absurd hone (by simp)

/-- Whatever the tasks do with one lock and whatever goes on around them, it has one holder at a time,
who finds what the last one left. -/
theorem exclusive_of_run (start : s.Fresh lock) (calm : s.machine.Calm)
    (run : Relation.ReflTransGen (Step lock) s s') : s'.Exclusive lock :=
  (keeps_of_run start run).2.exclusive (calm_of_run calm run)

/-! ### Two tasks and a lock -/

/-- A lock that nobody has used, and two tasks that may. -/
def contested : LockScene where
  machine :=
    { tasks := #[{ name := "ctl" }, { name := "first" }, { name := "second" }]
      locks := #[{ name := "lock", key := 1, value := 0 }]
      nextKey := 2 }
  left := 0

def lockOnce : Program Reply := .takeLock 0 fun v => .done (.number v.toNat)

theorem fresh_contested : contested.Fresh 0 where
  sole := by
    refine ⟨Nat.one_pos, fun j hj => ?_, fun g => ?_, fun b => ?_⟩
    · obtain ⟨j, rfl⟩ := Nat.exists_eq_succ_of_ne_zero hj
      rintro ⟨⟩
    · rintro ⟨⟩
    · rintro ⟨⟩
  free := rfl
  unowned := rfl
  guards := rfl
  left := rfl
  idle := fun t => by rcases t with _ | _ | _ | t <;> rfl
  waiting := rfl

/-- A task calls for the lock and takes its first step. -/
def lockedBy (s : LockScene) (t : TaskId) : LockScene :=
  let m := s.machine.setActivity t (.running lockOnce)
  let m' := ((Run.advance t).run.run m).2
  { s with machine := m', guards := if m.tookLock m' 0 t then t :: s.guards else s.guards }

private theorem run_lockedBy (ht : t < s.machine.tasks.size) (hidle : (s.machine.task t).activity = .idle)
    (hok : ((Run.advance t).run.run (s.machine.setActivity t (.running lockOnce))).1 = .ok ()) :
    Relation.ReflTransGen (Step 0) s (s.lockedBy t) := by
  have hcall : Step 0 s { s with machine := s.machine.setActivity t (.running lockOnce) } :=
    .call t lockOnce ht hidle
  exact .tail (.single hcall) (.advance t _ (Prod.ext hok rfl))

/-- The first task takes the lock and stores a value, and then the second one has to wait. -/
def contestedTwice : LockScene :=
  let s := contested.lockedBy 1
  let s := { s with machine := s.machine.putLock 0 { s.machine.lockAt 0 with value := 7 } }
  s.lockedBy 2

theorem run_contestedTwice : Relation.ReflTransGen (Step 0) contested contestedTwice := by
  have hfirst : Relation.ReflTransGen (Step 0) contested (contested.lockedBy 1) :=
    run_lockedBy (by decide) rfl rfl
  refine (hfirst.tail (.store 1 7 ?_)).trans (run_lockedBy ?_ ?_ ?_)
  · decide +kernel
  · decide +kernel
  · rfl
  · rfl

private theorem calm_contested : contested.machine.Calm := fun t _ => by rcases t with _ | _ | _ | t <;> rfl

theorem exclusive_of_run_contested :
    contested.Fresh 0 ∧ contested.machine.Calm ∧
      Relation.ReflTransGen (Step 0) contested contestedTwice ∧
      contestedTwice.guards = [1] ∧ contestedTwice.Exclusive 0 :=
  ⟨fresh_contested, calm_contested, run_contestedTwice, by decide +kernel,
    exclusive_of_run fresh_contested calm_contested run_contestedTwice⟩

end LockScene

end DiskStack
