import DiskStack.Machine.Locks
import DiskStack.Proofs.Bystanders
import Mathlib.Logic.Relation

/-!
# Sleep locks exclude each other's holders

Any number of tasks take one sleep lock, try it, ask about it and drop their guards, each in the middle of
any program, while interrupts come in, controllers work, channels are woken and sleepers are roused for any
reason or for none. All who wait are woken by a drop and race for the lock with each other and with those
who come new. Still at most one guard is live, the lock knows whose it is, and whoever takes the lock finds
the value that the last holder left.
-/

namespace DiskStack

namespace Machine

variable {lock : Nat} {m m' : Machine} {t : TaskId}

private theorem Aside.setActivity (h : m.Aside lock m') (t : TaskId) (a : Activity) :
    (m.setActivity t a).Aside lock (m'.setActivity t a) := by
  refine { h with tasks := ?_, activity := fun u => ?_ }
  · simp only [Machine.setActivity, mapTask, Array.size_modify, h.tasks]
  · simp only [Machine.setActivity, task_mapTask, h.tasks]
    split
    · rfl
    · exact h.activity u

theorem activity_setActivity (ht : t < m.tasks.size) (a : Activity) (u : TaskId) :
    ((m.setActivity t a).task u).activity = if u = t then a else (m.task u).activity := by
  rw [task_setActivity ht]
  split <;> rfl

theorem activity_setActivity_of_ne (h : u ≠ t) (a : Activity) :
    ((m.setActivity t a).task u).activity = (m.task u).activity := by
  rw [setActivity, task_mapTask, if_neg fun htu => h htu.1.symm]

/-- A sleeping task leaves the queue and runs. -/
def rouse (m : Machine) (t : TaskId) (p : Program Reply) : Machine :=
  { m.setActivity t (.running p) with
    waiting := m.waiting.withdraw t
    runnable := m.runnable.erase t }

private theorem activity_rouse (ht : t < m.tasks.size) (p : Program Reply) (u : TaskId) :
    ((m.rouse t p).task u).activity = if u = t then .running p else (m.task u).activity :=
  activity_setActivity ht _ u

private theorem Aside.wake (h : m.Aside lock m') :
    (m.wake (m.lockAt lock).channel).Aside lock (m'.wake (m.lockAt lock).channel) := by
  refine { h with fewer := fun u d hd => ?_, stays := fun u hu => ?_, woken := fun u hu => ?_ }
  · obtain ⟨hd, hne⟩ := WaitQueue.mem_wake_iff.1 hd
    exact WaitQueue.mem_wake_iff.2 ⟨h.fewer u d hd, hne⟩
  · exact absurd rfl (WaitQueue.mem_wake_iff.1 hu).2
  · rcases List.mem_append.1 hu with hu | hu
    · exact List.mem_append_left _ (h.woken u hu)
    · obtain ⟨hu, hasleep⟩ := List.mem_filter.1 hu
      refine List.mem_append_right _ (List.mem_filter.2 ⟨?_, ?_⟩)
      · exact WaitQueue.mem_waitersOf_iff.2 (h.stays u (WaitQueue.mem_waitersOf_iff.1 hu))
      · rw [isAsleep, h.activity]
        exact hasleep

private theorem Sole.congr (hm : m.Sole lock) (hlocks : m'.locks = m.locks) (hgates : m'.gates = m.gates)
    (hbays : m'.bays = m.bays) : m'.Sole lock := by
  have hlock : ∀ j, m'.lockAt j = m.lockAt j := fun j => by rw [lockAt, hlocks, lockAt]
  refine ⟨hlocks ▸ hm.present, fun j hj => ?_, fun g => ?_, fun b => ?_⟩
  · rw [hlock, hlock]
    exact hm.locks j hj
  · rw [hlock, gateAt, hgates]
    exact hm.gates g
  · rw [hlock, bay, hbays]
    exact hm.scratches b

private theorem Sole.putLock (hm : m.Sole lock) {l : SleepLock UInt64} (hl : l.key = (m.lockAt lock).key) :
    (m.putLock lock l).Sole lock := by
  have hkey : ∀ j, ((m.putLock lock l).lockAt j).key = (m.lockAt j).key := fun j => by
    rw [lockAt_putLock hm.present]
    split
    · next h => rw [h, hl]
    · rfl
  refine ⟨?_, fun j hj => ?_, fun g => ?_, fun b => ?_⟩
  · rw [Machine.putLock, Array.size_setIfInBounds]
    exact hm.present
  · rw [hkey, hkey]
    exact hm.locks j hj
  · rw [hkey]
    exact hm.gates g
  · rw [hkey]
    exact hm.scratches b

/-! ### Keys of channels -/

/-- All keys in use have been given out. -/
structure Keyed (m : Machine) : Prop where
  locks : ∀ j, (m.lockAt j).key < m.nextKey
  gates : ∀ g, (m.gateAt g).key < m.nextKey
  scratches : ∀ b, (m.bay b).drive.scratch.key < m.nextKey

theorem keyed_new : ({} : Machine).Keyed where
  locks := fun j => by simp [lockAt]
  gates := fun g => by simp [gateAt]
  scratches := fun b => by simp [bay, default, Drive.ofConfig]

def addLock (m : Machine) (name : String) (value : UInt64) : Machine :=
  { m with nextKey := m.nextKey + 1, locks := m.locks.push { name, key := m.nextKey, value } }

theorem lockAt_addLock (m : Machine) (name : String) (value : UInt64) (j : Nat) :
    (m.addLock name value).lockAt j =
      if j = m.locks.size then { name, key := m.nextKey, value } else m.lockAt j := by
  simp only [lockAt, addLock, Array.getD_eq_getD_getElem?, Array.getElem?_push]
  split <;> rfl

namespace Keyed

variable {name : String} {value : UInt64}

private theorem addLock (hm : m.Keyed) : (m.addLock name value).Keyed where
  locks := fun j => by
    rw [lockAt_addLock]
    split
    · exact Nat.lt_succ_self _
    · exact Nat.lt_succ_of_lt (hm.locks j)
  gates := fun g => Nat.lt_succ_of_lt (hm.gates g)
  scratches := fun b => Nat.lt_succ_of_lt (hm.scratches b)

private theorem sole_addLock (hm : m.Keyed) : (m.addLock name value).Sole m.locks.size where
  present := by simp [Machine.addLock]
  locks := fun j hj => by
    rw [lockAt_addLock, lockAt_addLock, if_neg hj, if_pos rfl]
    exact Nat.ne_of_lt (hm.locks j)
  gates := fun g => by
    rw [lockAt_addLock, if_pos rfl]
    exact Nat.ne_of_lt (hm.gates g)
  scratches := fun b => by
    rw [lockAt_addLock, if_pos rfl]
    exact Nat.ne_of_lt (hm.scratches b)

private theorem addGate (hm : m.Keyed) :
    Keyed { m with nextKey := m.nextKey + 1, gates := m.gates.push { key := m.nextKey } } where
  locks := fun j => Nat.lt_succ_of_lt (hm.locks j)
  gates := fun g => by
    simp only [gateAt, Array.getD_eq_getD_getElem?, Array.getElem?_push]
    split
    · exact Nat.lt_succ_self _
    · exact Nat.lt_succ_of_lt ((Array.getD_eq_getD_getElem? ..) ▸ hm.gates g)
  scratches := fun b => Nat.lt_succ_of_lt (hm.scratches b)

end Keyed

/-! ### Who waits for the lock -/

/-- Those registered on the lock's channel are those who wait at its node, and they wait only while it is
held. A task that sleeps there is registered, unless it has been woken. -/
structure Awaits (m : Machine) (lock : Nat) : Prop where
  sole : m.Sole lock
  registered : ∀ t c, (t, c) ∈ m.waiting.waiters → ∃ p,
    ((m.task t).activity = .parking p ∨ (m.task t).activity = .asleep p) ∧
      (c = (m.lockAt lock).channel ↔ p.takes lock = true)
  asleep : ∀ t p, (m.task t).activity = .asleep p → p.takes lock = true → t ∉ m.runnable →
    (t, (m.lockAt lock).channel) ∈ m.waiting.waiters
  held : ∀ t, (t, (m.lockAt lock).channel) ∈ m.waiting.waiters → (m.lockAt lock).held = true

namespace Awaits

theorem aside (h : m.Awaits lock) (ha : m.Aside lock m') : m'.Awaits lock where
  sole := ha.sole h.sole
  registered := fun t c hc => by
    rw [ha.activity, ha.channel]
    exact h.registered t c (ha.fewer t c hc)
  asleep := fun t p hp htakes ht => by
    rw [ha.channel]
    exact ha.stays t (h.asleep t p (ha.activity t ▸ hp) htakes fun hw => ht (ha.woken t hw))
  held := fun t ht => by
    rw [ha.same]
    rw [ha.channel] at ht
    exact h.held t (ha.fewer t _ ht)

theorem not_registered (h : m.Awaits lock) (ht : (m.task t).activity.waits = false) (c : Channel) :
    (t, c) ∉ m.waiting.waiters := by
  intro hc
  obtain ⟨p, hp | hp, -⟩ := h.registered t c hc <;> rw [hp] at ht <;> cases ht

private theorem setActivity (h : m.Awaits lock) (ht : t < m.tasks.size)
    (hnot : ∀ c, (t, c) ∉ m.waiting.waiters) {a : Activity} (ha : a.isAsleep = false) :
    (m.setActivity t a).Awaits lock where
  sole := h.sole.congr rfl rfl rfl
  registered := fun u c hu => by
    have hne : u ≠ t := fun hut => hnot c (hut ▸ hu)
    rw [activity_setActivity ht, if_neg hne]
    exact h.registered u c hu
  asleep := fun u p hp htakes hu => by
    rw [activity_setActivity ht] at hp
    split at hp
    · rw [hp] at ha
      cases ha
    · exact h.asleep u p hp htakes hu
  held := h.held

private theorem park (h : m.Awaits lock) (ht : t < m.tasks.size) (hnot : ∀ c, (t, c) ∉ m.waiting.waiters)
    {c : Channel} {p : Program Reply} (hc : c = (m.lockAt lock).channel ↔ p.takes lock = true)
    (hheld : c = (m.lockAt lock).channel → (m.lockAt lock).held = true) :
    ((m.prepare t c).setActivity t (.parking p)).Awaits lock where
  sole := h.sole.congr rfl rfl rfl
  registered := fun u d hu => by
    rw [activity_setActivity (m := m.prepare t c) ht]
    rcases WaitQueue.mem_register_iff.1 hu with hu | ⟨rfl, rfl⟩
    · have hne : u ≠ t := fun hut => hnot d (hut ▸ hu)
      rw [if_neg hne]
      exact h.registered u d hu
    · rw [if_pos rfl]
      exact ⟨p, .inl rfl, hc⟩
  asleep := fun u p' hp htakes hu => by
    rw [activity_setActivity (m := m.prepare t c) ht] at hp
    split at hp
    · cases hp
    · exact WaitQueue.mem_register_iff.2 (.inl (h.asleep u p' hp htakes hu))
  held := fun u hu => by
    rcases WaitQueue.mem_register_iff.1 hu with hu | ⟨-, hu⟩
    · exact h.held u hu
    · exact hheld hu.symm

private theorem sleep (h : m.Awaits lock) {p : Program Reply} (ht : (m.task t).activity = .parking p)
    {c : Channel} (hc : (t, c) ∈ m.waiting.waiters) : (m.setActivity t (.asleep p)).Awaits lock := by
  have hlt : t < m.tasks.size := lt_of_activity fun h => by cases ht.symm.trans h
  -- Whichever channel the task is registered on, it is the one of the node that it parks at.
  have hnode : ∀ c, (t, c) ∈ m.waiting.waiters →
      (c = (m.lockAt lock).channel ↔ p.takes lock = true) := fun c hc => by
    obtain ⟨p', hp | hp, hiff⟩ := h.registered t c hc <;> rw [ht] at hp <;> cases hp
    exact hiff
  refine ⟨h.sole.congr rfl rfl rfl, fun u d hu => ?_,
    fun u p' hp htakes hu => ?_, h.held⟩
  · rw [activity_setActivity hlt]
    split
    · next hut => exact ⟨p, .inr rfl, hnode d (hut ▸ hu)⟩
    · exact h.registered u d hu
  · rw [activity_setActivity hlt] at hp
    split at hp
    · next hut =>
      cases hp
      have hchannel : c = (m.lockAt lock).channel := (hnode c hc).2 htakes
      rw [hut]
      exact hchannel ▸ hc
    · exact h.asleep u p' hp htakes hu

private theorem rouse (h : m.Awaits lock) (ht : t < m.tasks.size) (p : Program Reply) :
    (m.rouse t p).Awaits lock where
  sole := h.sole.congr rfl rfl rfl
  registered := fun u c hu => by
    obtain ⟨hu, hne⟩ := WaitQueue.mem_withdraw_iff.1 hu
    rw [activity_rouse ht, if_neg hne]
    exact h.registered u c hu
  asleep := fun u p' hp htakes hu => by
    rw [activity_rouse ht] at hp
    split at hp
    · cases hp
    · next hne =>
      refine WaitQueue.mem_withdraw_iff.2 ⟨h.asleep u p' hp htakes fun hw => hu ?_, hne⟩
      exact (List.mem_erase_of_ne hne).2 hw
  held := fun u hu => h.held u (WaitQueue.mem_withdraw_iff.1 hu).1

private theorem wake (h : m.Awaits lock) (c : Channel) : (m.wake c).Awaits lock where
  sole := h.sole.congr rfl rfl rfl
  registered := fun u d hu => h.registered u d (WaitQueue.mem_wake_iff.1 hu).1
  asleep := fun u p hp htakes hu => by
    have hreg := h.asleep u p hp htakes fun hw => hu (List.mem_append_left _ hw)
    refine WaitQueue.mem_wake_iff.2 ⟨hreg, fun hc => hu (List.mem_append_right _ ?_)⟩
    refine List.mem_filter.2 ⟨WaitQueue.mem_waitersOf_iff.2 (hc ▸ hreg), ?_⟩
    rw [isAsleep, show (m.task u).activity = .asleep p from hp]
  held := fun u hu => h.held u (WaitQueue.mem_wake_iff.1 hu).1

private theorem putLock (h : m.Awaits lock) {l : SleepLock UInt64} (hl : l.key = (m.lockAt lock).key)
    (hheld : ∀ t, (t, (m.lockAt lock).channel) ∈ m.waiting.waiters → l.held = true) :
    (m.putLock lock l).Awaits lock := by
  have hlock : (m.putLock lock l).lockAt lock = l := by rw [lockAt_putLock h.sole.present, if_pos rfl]
  have hchannel : l.channel = (m.lockAt lock).channel := congrArg Channel.lock hl
  refine ⟨h.sole.putLock hl, ?_, ?_, ?_⟩ <;> rw [hlock, hchannel]
  · exact h.registered
  · exact h.asleep
  · exact hheld

theorem release (h : m.Awaits lock) :
    ((m.putLock lock (m.lockAt lock).release).wake (m.lockAt lock).channel).Awaits lock :=
  (h.wake (m.lockAt lock).channel).putLock (l := (m.lockAt lock).release) rfl fun _ ht =>
    absurd rfl (WaitQueue.mem_wake_iff.1 ht).2

end Awaits

end Machine

/-! ### What the operations of a lock do -/

namespace Run

variable {lock : Nat} {m : Machine} {t : TaskId}

theorem run_newSleepLock (name : String) (value : UInt64) :
    (newSleepLock name value).run.run m = (.ok m.locks.size, m.addLock name value) := rfl

theorem keeps_keyed_newSleepLock (name : String) (value : UInt64) :
    Keeps Machine.Keyed (newSleepLock name value) := fun m hm => by
  rw [Leads, Ends, run_newSleepLock]
  exact fun _ _ => hm.addLock

theorem keeps_keyed_newGate : Keeps Machine.Keyed newGate := fun m hm => by
  have hrun : newGate.run.run m = (.ok m.gates.size,
      { m with nextKey := m.nextKey + 1, gates := m.gates.push { key := m.nextKey } }) := rfl
  rw [Leads, Ends, hrun]
  exact fun _ _ => hm.addGate

theorem keeps_keyed_register (r : Registration) : Keeps Machine.Keyed (register r) := by
  intro m hm
  rw [register]
  cases Checked.capacity r.config.blockSize with
  | error h => exact leads_throw_bind
  | ok c =>
    refine (leads_pure (Q := fun _ m' => m'.Keyed) hm).bind fun _ m' hm' => ?_
    refine leads_get (leads_set (leads_pure ⟨fun j => ?_, fun g => ?_, fun b => ?_⟩))
    · exact Nat.lt_add_right 2 (hm'.locks j)
    · exact Nat.lt_add_right 2 (hm'.gates g)
    · have hold := hm'.scratches b
      simp only [Machine.bay, Array.getD_eq_getD_getElem?, Array.getElem?_push] at hold ⊢
      split
      · exact Nat.lt_succ_self _
      · exact Nat.lt_add_right 2 hold

/-- How a step at the lock's node goes. -/
inductive Takes (lock : Nat) (m : Machine) (t : TaskId) (next : UInt64 → Program Reply) :
    Activity → Machine → Prop
  | takes (m' : Machine) (hfree : (m.lockAt lock).held = false)
    (h : (m.putLock lock ((m.lockAt lock).acquire t)).Aside lock m') :
    Takes lock m t next (.running (next (m.lockAt lock).value)) m'
  | waits (m' : Machine) (hheld : (m.lockAt lock).held = true)
    (h : (m.prepare t (m.lockAt lock).channel).Aside lock m') :
    Takes lock m t next (.parking (.takeLock lock next)) m'

private theorem leads_takeLock (hm : m.Sole lock) (next : UInt64 → Program Reply) :
    Leads (takeLock t lock next) m (Takes lock m t next) := by
  refine leads_masked lock fun saved m₁ h => leads_sleepLock ?_
  rw [h.same]
  split
  · next hnone =>
    refine leads_modify (((spares_restore t saved).leads (h.prepare t _)).bind fun _ m' h' => ?_)
    exact leads_pure (.waits m' (SleepLock.held_of_tryAcquire_none hnone) h')
  · next l hl =>
    obtain ⟨hfree, rfl⟩ := SleepLock.of_tryAcquire hl
    have hput := h.putLock hm.present (l := (m.lockAt lock).acquire t) rfl
    refine leads_modify (((spares_restore t saved).leads hput).bind fun _ m' h' => ?_)
    exact leads_pure (.takes m' hfree h')

/-- How an attempt to take the lock goes. -/
inductive Tries (lock : Nat) (m : Machine) (t : TaskId) : Option UInt64 → Machine → Prop
  | takes (m' : Machine) (hfree : (m.lockAt lock).held = false)
    (h : (m.putLock lock ((m.lockAt lock).acquire t)).Aside lock m') :
    Tries lock m t (some (m.lockAt lock).value) m'
  | fails (m' : Machine) (hheld : (m.lockAt lock).held = true) (h : m.Aside lock m') :
    Tries lock m t none m'

private theorem leads_tryLock (hm : m.Sole lock) : Leads (tryLock t lock) m (Tries lock m t) := by
  refine leads_masked lock fun saved m₁ h => leads_sleepLock ?_
  rw [h.same]
  cases hl : (m.lockAt lock).tryAcquire t with
  | none =>
    refine ((spares_restore t saved).leads h).bind fun _ m' h' => ?_
    exact leads_pure (.fails m' (SleepLock.held_of_tryAcquire_none hl) h')
  | some l =>
    obtain ⟨hfree, rfl⟩ := SleepLock.of_tryAcquire hl
    have hput := h.putLock hm.present (l := (m.lockAt lock).acquire t) rfl
    refine leads_modify (((spares_restore t saved).leads hput).bind fun _ m' h' => ?_)
    exact leads_pure (.takes m' hfree h')

private theorem leads_inspectLock (t : TaskId) : Leads (inspectLock t lock) m fun l m' =>
    l = m.lockAt lock ∧ m.Aside lock m' := by
  refine leads_masked lock fun saved m₁ h => leads_sleepLock ?_
  exact ((spares_restore t saved).leads h).bind fun _ m' h' => leads_pure ⟨h.same, h'⟩

theorem leads_unlock (hm : m.Sole lock) : Leads (unlock t lock) m fun _ m' =>
    ((m.putLock lock (m.lockAt lock).release).wake (m.lockAt lock).channel).Aside lock m' := by
  refine leads_masked lock fun saved m₁ h => leads_sleepLock ?_
  rw [h.same]
  have hput := h.putLock hm.present (l := (m.lockAt lock).release) rfl
  have hchannel : ((m.putLock lock (m.lockAt lock).release).lockAt lock).channel =
      (m.lockAt lock).channel := by
    rw [Machine.lockAt_putLock hm.present, if_pos rfl]
    rfl
  have hwake := hput.wake
  rw [hchannel] at hwake
  exact leads_modify (leads_modify ((spares_restore t saved).leads hwake))

end Run

namespace Machine

/-- Whether a step has got a task past the lock's node. -/
def tookLock (before after : Machine) (lock : Nat) (t : TaskId) : Bool :=
  match (before.task t).activity, (after.task t).activity with
  | .running p, .running _ => p.takes lock
  | _, _ => false

/-- A step of a task as far as the lock goes: who waits for it, and whether the task has taken it. -/
structure Advances (lock : Nat) (m : Machine) (t : TaskId) (m' : Machine) : Prop where
  awaits : m'.Awaits lock
  took : m.tookLock m' lock t = true → (m.lockAt lock).held = false ∧
    m'.lockAt lock = (m.lockAt lock).acquire t
  passed : m.tookLock m' lock t = false → m'.lockAt lock = m.lockAt lock

variable {lock : Nat} {m m₁ : Machine} {t : TaskId} {a : Activity} {p : Program Reply}

private theorem advances_of_same (h : m₁.Awaits lock) (hlock : m₁.lockAt lock = m.lockAt lock)
    (hnot : m.tookLock m₁ lock t = false) : m.Advances lock t m₁ :=
  ⟨h, fun htook => Bool.noConfusion (hnot.symm.trans htook), fun _ => hlock⟩

private theorem tookLock_eq_false {m' : Machine}
    (h : ∀ p, (m.task t).activity = .running p → p.takes lock = false) :
    m.tookLock m' lock t = false := by
  rw [tookLock]
  split
  · next p _ hp _ => exact h p hp
  · rfl

private theorem Passes.advances (h : m.Passes lock t a m₁) (hm : m.Awaits lock)
    (hrun : (m.task t).activity = .running p) (hp : p.takes lock = false) :
    m.Advances lock t (m₁.setActivity t a) := by
  have ht : t < m.tasks.size := lt_of_activity fun h => by cases hrun.symm.trans h
  have hnot : ∀ m', m.tookLock m' lock t = false := fun m' => tookLock_eq_false fun p' hp' => by
    rw [hrun] at hp'
    cases hp'
    exact hp
  have hfree := hm.not_registered (t := t) (by rw [hrun]; rfl)
  cases h with
  | goes p' _ h =>
    refine advances_of_same ?_ h.same (hnot _)
    exact (hm.setActivity ht hfree rfl).aside (h.setActivity t (.running p'))
  | parks c p' _ hc hp' h =>
    refine advances_of_same ?_ h.same (hnot _)
    refine (hm.park ht hfree (c := c) (p := p') ?_ (absurd · hc)).aside (h.setActivity t _)
    exact ⟨(absurd · hc), fun htakes => by rw [hp'] at htakes; cases htakes⟩

end Machine

private theorem Run.Takes.advances {lock : Nat} {m m₁ : Machine} {t : TaskId} {a : Activity}
    {next : UInt64 → Program Reply} (h : Takes lock m t next a m₁) (hm : m.Awaits lock)
    (hrun : (m.task t).activity = .running (.takeLock lock next)) :
    m.Advances lock t (m₁.setActivity t a) := by
  have ht : t < m.tasks.size := Machine.lt_of_activity fun h => by cases hrun.symm.trans h
  have hfree := hm.not_registered (t := t) (by rw [hrun]; rfl)
  cases h with
  | takes _ hfree' h =>
    have hput := hm.putLock (l := (m.lockAt lock).acquire t) rfl fun _ _ => rfl
    have hlock : m₁.lockAt lock = (m.lockAt lock).acquire t := by
      rw [h.same, Machine.lockAt_putLock hm.sole.present, if_pos rfl]
    refine ⟨?_, fun _ => ⟨hfree', hlock⟩, fun hnot => ?_⟩
    · exact (hput.setActivity ht hfree rfl).aside (h.setActivity t _)
    · rw [Machine.tookLock, hrun, Machine.activity_setActivity (h.tasks ▸ ht), if_pos rfl] at hnot
      simp [Program.takes] at hnot
  | waits _ hheld h =>
    refine Machine.advances_of_same ?_ h.same ?_
    · refine (hm.park ht hfree (p := .takeLock lock next) ?_ fun _ => hheld).aside (h.setActivity t _)
      exact ⟨fun _ => by simp [Program.takes], fun _ => rfl⟩
    · rw [Machine.tookLock, hrun, Machine.activity_setActivity (h.tasks ▸ ht), if_pos rfl]

namespace Run

variable {lock : Nat} {m : Machine} {t : TaskId}

private theorem leads_settle_of_awaits (hm : m.Awaits lock) {p : Program Reply}
    (hact : (m.task t).activity = .parking p) :
    Leads (settle t p) m fun a m' => m.Advances lock t (m'.setActivity t a) := by
  have ht : t < m.tasks.size := Machine.lt_of_activity fun h => by cases hact.symm.trans h
  have hnot : ∀ m', m.tookLock m' lock t = false := fun m' =>
    Machine.tookLock_eq_false fun p' hp' => by cases hact.symm.trans hp'
  apply leads_get
  by_cases hreg : m.waiting.isRegistered t = true
  · rw [if_pos hreg]
    obtain ⟨c, hc⟩ := WaitQueue.isRegistered_iff.1 hreg
    refine leads_modify (leads_pure (Machine.advances_of_same ?_ rfl (hnot _)))
    exact (hm.sleep hact hc).aside ((Machine.aside_emit _).setActivity t _)
  · rw [if_neg hreg]
    refine leads_modify (leads_pure (Machine.advances_of_same ?_ rfl (hnot _)))
    refine (hm.setActivity ht (fun c hc => hreg ?_) rfl).aside ((Machine.aside_emit _).setActivity t _)
    exact WaitQueue.isRegistered_iff.2 ⟨c, hc⟩

theorem leads_advance (hm : m.Awaits lock) (t : TaskId) :
    Leads (advance t) m fun _ m' => m.Advances lock t m' := by
  apply leads_get
  cases hact : (m.task t).activity with
  | idle | asleep p =>
    refine leads_pure (Machine.advances_of_same hm rfl (Machine.tookLock_eq_false fun p' hp' => ?_))
    cases hact.symm.trans hp'
  | running p =>
    cases htakes : p.takes lock with
    | false =>
      refine (passes_node hm.sole htakes).bind fun a m₁ h => leads_change ?_
      exact h.advances hm hact htakes
    | true =>
      cases p with
      | takeLock other next =>
        obtain rfl : other = lock := by simpa [Program.takes] using htakes
        refine (leads_takeLock hm.sole next).bind fun a m₁ h => leads_change ?_
        exact h.advances hm hact
      | _ => cases htakes
  | parking p => exact (leads_settle_of_awaits hm hact).bind fun a m₁ h => leads_change h

end Run

/-! ### Runs -/

/-- A machine in the middle of what goes on at one lock, with the tasks that acquired the live guards
and the value that the last holder left. -/
structure LockScene where
  machine : Machine
  guards : List TaskId := []
  left : UInt64

namespace LockScene

/-- A lock that nobody has used yet. -/
structure Fresh (s : LockScene) (lock : Nat) : Prop where
  sole : s.machine.Sole lock
  free : (s.machine.lockAt lock).held = false
  unowned : (s.machine.lockAt lock).owner = none
  guards : s.guards = []
  left : s.left = (s.machine.lockAt lock).value
  idle : ∀ t, (s.machine.task t).activity = .idle
  waiting : s.machine.waiting.waiters = []

/-- One step of the tasks and of what goes on around them. A task may call any program, so it may take
the lock anywhere in one, and a guard may be dropped by any task. A step that halts has no successor. -/
inductive Step (lock : Nat) (s : LockScene) : LockScene → Prop
  | call (t : TaskId) (p : Program Reply) (ht : t < s.machine.tasks.size)
    (h : (s.machine.task t).activity = .idle) :
    Step lock s { s with machine := s.machine.setActivity t (.running p) }
  | advance (t : TaskId) (m : Machine) (h : (Run.advance t).run.run s.machine = (.ok (), m)) :
    Step lock s
      { s with
        machine := m
        guards := if s.machine.tookLock m lock t then t :: s.guards else s.guards }
  | reply (t : TaskId) (r : Reply) (h : (s.machine.task t).activity = .running (.done r)) :
    Step lock s { s with machine := s.machine.setActivity t .idle }
  | rouse (t : TaskId) (p : Program Reply) (h : (s.machine.task t).activity = .asleep p) :
    Step lock s { s with machine := s.machine.rouse t p }
  | wake (c : Channel) : Step lock s { s with machine := s.machine.wake c }
  | tryLock (t : TaskId) (r : Option UInt64) (m : Machine)
    (h : (Run.tryLock t lock).run.run s.machine = (.ok r, m)) :
    Step lock s { s with machine := m, guards := if r.isSome then t :: s.guards else s.guards }
  | inspect (t : TaskId) (l : SleepLock UInt64) (m : Machine)
    (h : (Run.inspectLock t lock).run.run s.machine = (.ok l, m)) :
    Step lock s { s with machine := m }
  | store (t : TaskId) (v : UInt64) (ht : t ∈ s.guards) :
    Step lock s
      { s with machine := s.machine.putLock lock { s.machine.lockAt lock with value := v } }
  | drop (t u : TaskId) (m : Machine) (ht : t ∈ s.guards)
    (h : (Run.unlock u lock).run.run s.machine = (.ok (), m)) :
    Step lock s
      { machine := m, guards := s.guards.erase t, left := (s.machine.lockAt lock).value }
  | raise (t : TaskId) (i : Interrupt) (m : Machine)
    (h : (Run.raise t i).run.run s.machine = (.ok (), m)) : Step lock s { s with machine := m }
  | work (b : BayId) (order : Option (List Nat)) (r : Option (List ChainReport)) (m : Machine)
    (h : (Run.work b order).run.run s.machine = (.ok r, m)) : Step lock s { s with machine := m }
  | bringUp (b : BayId) (r : Except InitError Unit) (m : Machine)
    (h : (Run.bringUp b).run.run s.machine = (.ok r, m)) : Step lock s { s with machine := m }

/-- The lock knows whose the live guard is, and a free lock has the value that was left. -/
structure Owned (s : LockScene) (lock : Nat) : Prop where
  agrees : (s.machine.lockAt lock).Agrees
  owner : (s.machine.lockAt lock).owner = s.guards.head?
  one : s.guards.length ≤ 1
  left : s.guards = [] → (s.machine.lockAt lock).value = s.left

variable {lock : Nat} {s s' : LockScene} {m : Machine} {t : TaskId}

theorem fresh_addLock (hm : m.Keyed) (hidle : ∀ t, (m.task t).activity = .idle)
    (hwaiting : m.waiting.waiters = []) (name : String) (value : UInt64) :
    Fresh { machine := m.addLock name value, left := value } m.locks.size where
  sole := hm.sole_addLock
  free := by rw [Machine.lockAt_addLock, if_pos rfl]
  unowned := by rw [Machine.lockAt_addLock, if_pos rfl]
  guards := rfl
  left := by rw [Machine.lockAt_addLock, if_pos rfl]
  idle := hidle
  waiting := hwaiting

namespace Owned

theorem held_iff (h : s.Owned lock) : (s.machine.lockAt lock).held = true ↔ s.guards ≠ [] := by
  rw [show (s.machine.lockAt lock).held = _ from h.agrees, h.owner]
  cases s.guards <;> simp

private theorem guards_eq_nil (h : s.Owned lock) (hfree : (s.machine.lockAt lock).held = false) :
    s.guards = [] := by
  by_cases hnil : s.guards = []
  · exact hnil
  · cases hfree.symm.trans (h.held_iff.2 hnil)

private theorem same (h : s.Owned lock) (hm : m.lockAt lock = s.machine.lockAt lock) :
    Owned { s with machine := m } lock where
  agrees := by rw [hm]; exact h.agrees
  owner := by rw [hm, h.owner]
  one := h.one
  left := fun hs => by rw [hm, h.left hs]

private theorem take (h : s.Owned lock) (hfree : (s.machine.lockAt lock).held = false)
    (hm : m.lockAt lock = (s.machine.lockAt lock).acquire t) :
    Owned { s with machine := m, guards := t :: s.guards } lock where
  agrees := by rw [hm]; exact SleepLock.agrees_acquire _ t
  owner := by rw [hm]; rfl
  one := by rw [h.guards_eq_nil hfree]; exact Nat.le_refl 1
  left := nofun

private theorem store (h : s.Owned lock) (hm : lock < s.machine.locks.size) (ht : t ∈ s.guards)
    (v : UInt64) :
    Owned { s with machine := s.machine.putLock lock { s.machine.lockAt lock with value := v } } lock where
  agrees := by rw [Machine.lockAt_putLock hm, if_pos rfl]; exact h.agrees
  owner := by rw [Machine.lockAt_putLock hm, if_pos rfl]; exact h.owner
  one := h.one
  left := fun hs => by rw [show s.guards = [] from hs] at ht; cases ht

private theorem drop (h : s.Owned lock) (ht : t ∈ s.guards)
    (hm : m.lockAt lock = (s.machine.lockAt lock).release) :
    Owned { machine := m, guards := s.guards.erase t, left := (s.machine.lockAt lock).value } lock := by
  have hone : s.guards = [t] := by
    obtain ⟨u, hu⟩ := List.length_eq_one_iff.1 (Nat.le_antisymm h.one (List.length_pos_of_mem ht))
    rw [hu, List.mem_singleton] at ht
    rw [hu, ht]
  have hnone : s.guards.erase t = [] := by rw [hone, List.erase_cons_head]
  refine ⟨?_, ?_, ?_, fun _ => ?_⟩
  · rw [hm]
    exact SleepLock.agrees_release _
  · rw [hm, hnone]
    rfl
  · rw [hnone]
    exact Nat.zero_le 1
  · rw [hm]
    rfl

end Owned

private theorem Fresh.awaits (h : s.Fresh lock) : s.machine.Awaits lock where
  sole := h.sole
  registered := fun t c hc => by rw [h.waiting] at hc; cases hc
  asleep := fun t p hp => by rw [h.idle t] at hp; cases hp
  held := fun t ht => by rw [h.waiting] at ht; cases ht

private theorem Fresh.owned (h : s.Fresh lock) : s.Owned lock where
  agrees := by rw [SleepLock.Agrees, h.free, h.unowned]; rfl
  owner := by rw [h.unowned, h.guards]; rfl
  one := by rw [h.guards]; exact Nat.zero_le 1
  left := fun _ => h.left.symm

/-- What every step keeps. -/
theorem Step.keeps (h : Step lock s s') (hs : s.machine.Awaits lock ∧ s.Owned lock) :
    s'.machine.Awaits lock ∧ s'.Owned lock := by
  obtain ⟨hw, ho⟩ := hs
  have haside : ∀ m, s.machine.Aside lock m → m.Awaits lock ∧ Owned { s with machine := m } lock :=
    fun m h => ⟨hw.aside h, ho.same h.same⟩
  cases h with
  | call t p ht h =>
    exact ⟨hw.setActivity ht (hw.not_registered (by rw [h]; rfl)) rfl, ho.same rfl⟩
  | advance t m h =>
    have hadv := (Run.leads_advance hw t).of_ok h
    refine ⟨hadv.awaits, ?_⟩
    cases htook : s.machine.tookLock m lock t with
    | true => exact ho.take (hadv.took htook).1 (hadv.took htook).2
    | false => exact ho.same (hadv.passed htook)
  | reply t r h =>
    have ht : t < s.machine.tasks.size := Machine.lt_of_activity fun hidle => by cases h.symm.trans hidle
    exact ⟨hw.setActivity ht (hw.not_registered (by rw [h]; rfl)) rfl, ho.same rfl⟩
  | rouse t p h =>
    have ht : t < s.machine.tasks.size := Machine.lt_of_activity fun hidle => by cases h.symm.trans hidle
    exact ⟨hw.rouse ht p, ho.same rfl⟩
  | wake c => exact ⟨hw.wake c, ho.same rfl⟩
  | tryLock t r m h =>
    cases (Run.leads_tryLock hw.sole).of_ok h with
    | takes _ hfree ha =>
      have hput := hw.putLock (l := (s.machine.lockAt lock).acquire t) rfl fun _ _ => rfl
      refine ⟨hput.aside ha, ho.take hfree ?_⟩
      rw [ha.same, Machine.lockAt_putLock hw.sole.present, if_pos rfl]
    | fails _ _ ha => exact haside m ha
  | inspect t l m h => exact haside m ((Run.leads_inspectLock t).of_ok h).2
  | store t v ht =>
    refine ⟨hw.putLock rfl fun _ _ => ?_, ho.store hw.sole.present ht v⟩
    exact ho.held_iff.2 (List.ne_nil_of_mem ht)
  | drop t u m ht h =>
    have ha := (Run.leads_unlock hw.sole).of_ok h
    refine ⟨hw.release.aside ha, ho.drop ht ?_⟩
    exact ha.same.trans ((Machine.lockAt_putLock hw.sole.present _ lock).trans (if_pos rfl))
  | raise t i m h => exact haside m ((Run.spares_raise t i _).of_ok h)
  | work b order r m h => exact haside m ((Run.spares_work b order _).of_ok h)
  | bringUp b r m h => exact haside m ((Run.spares_bringUp b _).of_ok h)

theorem keeps_of_run (start : s.Fresh lock) (run : Relation.ReflTransGen (Step lock) s s') :
    s'.machine.Awaits lock ∧ s'.Owned lock := by
  induction run with
  | refl => exact ⟨start.awaits, start.owned⟩
  | tail _ step ih => exact step.keeps ih

end LockScene

end DiskStack
