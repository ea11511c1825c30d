import DiskStack.Proofs.Nodes
import DiskStack.Proofs.Waiting

/-!
# What leaves a sleep lock alone

Interrupts, controllers and tasks at other nodes go on around those who use one sleep lock. None of them
touches the lock, what a task other than the one that steps is doing, or who is registered on the lock's
channel. A task at another node at most registers on another channel.
-/

namespace DiskStack

namespace Program

/-- Whether a program is at a node that takes a lock. -/
def takes (lock : Nat) : Program Reply → Bool
  | .takeLock l _ => l == lock
  | _ => false

end Program

namespace Machine

/-- A lock on whose channel nobody waits for anything else. -/
structure Sole (m : Machine) (lock : Nat) : Prop where
  present : lock < m.locks.size
  locks : ∀ j, j ≠ lock → (m.lockAt j).key ≠ (m.lockAt lock).key
  gates : ∀ g, (m.gateAt g).key ≠ (m.lockAt lock).key
  scratches : ∀ b, (m.bay b).drive.scratch.key ≠ (m.lockAt lock).key

/-- A machine that the users of one sleep lock cannot tell from another. Registrations on other channels
may be gone, and more tasks may have been woken. -/
structure Aside (lock : Nat) (m m' : Machine) : Prop where
  size : m'.locks.size = m.locks.size
  same : m'.lockAt lock = m.lockAt lock
  lockKeys : ∀ j, (m'.lockAt j).key = (m.lockAt j).key
  gateKeys : ∀ g, (m'.gateAt g).key = (m.gateAt g).key
  scratchKeys : ∀ b, (m'.bay b).drive.scratch.key = (m.bay b).drive.scratch.key
  tasks : m'.tasks.size = m.tasks.size
  activity : ∀ t, (m'.task t).activity = (m.task t).activity
  fewer : ∀ t c, (t, c) ∈ m'.waiting.waiters → (t, c) ∈ m.waiting.waiters
  stays : ∀ t, (t, (m.lockAt lock).channel) ∈ m.waiting.waiters →
    (t, (m.lockAt lock).channel) ∈ m'.waiting.waiters
  woken : ∀ t ∈ m.runnable, t ∈ m'.runnable

variable {lock : Nat} {m m' m'' : Machine}

namespace Aside

private theorem refl (m : Machine) : m.Aside lock m :=
  ⟨rfl, rfl, fun _ => rfl, fun _ => rfl, fun _ => rfl, rfl, fun _ => rfl, fun _ _ h => h, fun _ h => h,
    fun _ h => h⟩

private theorem trans (h : m.Aside lock m') (h' : m'.Aside lock m'') : m.Aside lock m'' where
  size := h'.size.trans h.size
  same := h'.same.trans h.same
  lockKeys := fun j => (h'.lockKeys j).trans (h.lockKeys j)
  gateKeys := fun g => (h'.gateKeys g).trans (h.gateKeys g)
  scratchKeys := fun b => (h'.scratchKeys b).trans (h.scratchKeys b)
  tasks := h'.tasks.trans h.tasks
  activity := fun t => (h'.activity t).trans (h.activity t)
  fewer := fun t c hc => h.fewer t c (h'.fewer t c hc)
  stays := fun t ht => h.same ▸ h'.stays t (h.same.symm ▸ h.stays t ht)
  woken := fun t ht => h'.woken t (h.woken t ht)

theorem channel (h : m.Aside lock m') : (m'.lockAt lock).channel = (m.lockAt lock).channel := by
  rw [h.same]

theorem sole (h : m.Aside lock m') (hm : m.Sole lock) : m'.Sole lock where
  present := h.size ▸ hm.present
  locks := fun j hj => by rw [h.lockKeys, h.lockKeys]; exact hm.locks j hj
  gates := fun g => by rw [h.gateKeys, h.lockKeys]; exact hm.gates g
  scratches := fun b => by rw [h.scratchKeys, h.lockKeys]; exact hm.scratches b

theorem prepare (h : m.Aside lock m') (t : TaskId) (c : Channel) :
    (m.prepare t c).Aside lock (m'.prepare t c) where
  size := h.size
  same := h.same
  lockKeys := h.lockKeys
  gateKeys := h.gateKeys
  scratchKeys := h.scratchKeys
  tasks := h.tasks
  activity := h.activity
  fewer := fun u d hd => WaitQueue.mem_register_iff.2
    ((WaitQueue.mem_register_iff.1 hd).imp_left (h.fewer u d))
  stays := fun u hu => WaitQueue.mem_register_iff.2
    ((WaitQueue.mem_register_iff.1 hu).imp_left (h.stays u))
  woken := h.woken

end Aside

theorem aside_emit (e : Event) : m.Aside lock (m.emit e) := { Aside.refl m with }

private theorem aside_log (level : LogLevel) (source text : String) :
    m.Aside lock (m.log level source text) := by
  rw [Machine.log]
  split
  · exact { Aside.refl m with }
  · exact .refl m

private theorem aside_mapCore (t : TaskId) (f : Core Interrupt → Core Interrupt) :
    m.Aside lock (m.mapCore t f) := by
  refine { Aside.refl m with tasks := Array.size_modify, activity := fun u => ?_ }
  rw [Machine.mapCore, task_mapTask]
  split <;> rfl

private theorem aside_mapBay (b : BayId) {f : Bay → Bay}
    (hf : (f (m.bay b)).drive.scratch.key = (m.bay b).drive.scratch.key) :
    m.Aside lock (m.mapBay b f) := by
  refine { Aside.refl m with scratchKeys := fun b' => ?_ }
  by_cases hb : b = b'
  · subst hb
    rcases Nat.lt_or_ge b m.bays.size with hlt | hge
    · rw [bay_mapBay hlt, hf]
    · simp [bay, mapBay, Array.getElem?_modify, Array.getElem?_eq_none hge]
  · simp [bay, mapBay, Array.getElem?_modify, hb]

private theorem aside_mapDrive (b : BayId) {f : Drive → Drive}
    (hf : (f (m.bay b).drive).scratch.key = (m.bay b).drive.scratch.key) :
    m.Aside lock (m.mapDrive b f) := aside_mapBay b hf

private theorem aside_setState (b : BayId) (s : DriveState) : m.Aside lock (m.setState b s) :=
  aside_mapDrive b rfl

private theorem aside_setRequests (r : RequestTable) : m.Aside lock (m.setRequests r) :=
  { Aside.refl m with }

private theorem aside_setArena (arena : Arena) : m.Aside lock (m.setArena arena) := { Aside.refl m with }

private theorem aside_mapController (b : BayId) (f : Controller → Controller) :
    m.Aside lock (m.mapController b f) := aside_mapBay b rfl

private theorem aside_wake {c : Channel} (hc : c ≠ (m.lockAt lock).channel) : m.Aside lock (m.wake c) :=
  { Aside.refl m with
    fewer := fun _ _ h => (WaitQueue.mem_wake_iff.1 h).1
    stays := fun _ h => WaitQueue.mem_wake_iff.2 ⟨h, hc.symm⟩
    woken := fun _ h => List.mem_append_left _ h }

private theorem aside_putShared (b : BayId) (s : ReadyState) (c : Controller) (shared : SharedMemory) :
    m.Aside lock (m.putShared b s c shared) :=
  have h : m.Aside lock (m.mapBay b fun bay =>
      { bay with controller := c, drive.state := .ready { s with rings := shared.rings } }) :=
    aside_mapBay b rfl
  { h with }

theorem lockAt_putLock (hm : lock < m.locks.size) (l : SleepLock UInt64) (j : Nat) :
    (m.putLock lock l).lockAt j = if j = lock then l else m.lockAt j := by
  by_cases h : j = lock
  · subst h
    simp [lockAt, putLock, hm]
  · simp [lockAt, putLock, h, Ne.symm h]

private theorem aside_putLock {other : Nat} (hne : other ≠ lock) {l : SleepLock UInt64}
    (hl : l.key = (m.lockAt other).key) : m.Aside lock (m.putLock other l) := by
  have hrefl : m.Aside lock m := .refl m
  by_cases hother : other < m.locks.size
  · refine { hrefl with size := Array.size_setIfInBounds, same := ?_, lockKeys := fun j => ?_ }
    · rw [lockAt_putLock hother, if_neg hne.symm]
    · rw [lockAt_putLock hother]
      split
      · next h => rw [h, hl]
      · rfl
  · have hnone : m.putLock other l = m := by
      rw [putLock, Array.setIfInBounds_eq_of_size_le (Nat.le_of_not_lt hother)]
    rwa [hnone]

theorem aside_putGate {gate : Nat} {g : Gate} (hg : g.key = (m.gateAt gate).key) :
    m.Aside lock (m.putGate gate g) := by
  refine { Aside.refl m with gateKeys := fun j => ?_ }
  by_cases h : gate = j
  · subst h
    by_cases hlt : gate < m.gates.size
    · simp [gateAt, putGate, hlt, hg]
    · simp [gateAt, putGate, hlt]
  · simp [gateAt, putGate, Array.getElem?_setIfInBounds_ne h]

theorem Aside.putLock (h : m.Aside lock m') (hm : lock < m.locks.size) {l : SleepLock UInt64}
    (hl : l.key = (m.lockAt lock).key) : (m.putLock lock l).Aside lock (m'.putLock lock l) := by
  have hm' : lock < m'.locks.size := h.size ▸ hm
  have hchannel : ((m.putLock lock l).lockAt lock).channel = (m.lockAt lock).channel := by
    rw [lockAt_putLock hm, if_pos rfl, SleepLock.channel, SleepLock.channel, hl]
  refine { h with size := ?_, same := ?_, lockKeys := fun j => ?_, stays := ?_ }
  · rw [Machine.putLock, Machine.putLock, Array.size_setIfInBounds, Array.size_setIfInBounds, h.size]
  · rw [lockAt_putLock hm, lockAt_putLock hm', if_pos rfl, if_pos rfl]
  · rw [lockAt_putLock hm, lockAt_putLock hm']
    split
    · rfl
    · exact h.lockKeys j
  · rw [hchannel]
    exact h.stays

end Machine

namespace Run

variable {α β : Type} {lock : Nat} {m : Machine} {b : BayId} {t : TaskId}

/-- A run that the users of one sleep lock cannot notice, unless it halts. -/
def Spares (lock : Nat) (x : Run α) : Prop := Within (Machine.Aside lock) x

private theorem overlooks_aside (lock : Nat) (t : TaskId) : OverlooksEach t (Machine.Aside lock) where
  refl := .refl
  trans := .trans
  emit := fun _ => Machine.aside_emit
  log := fun _ => Machine.aside_log
  disable := fun _ => Machine.aside_mapCore t _
  controller := fun _ => Machine.aside_mapController
  state := fun _ => Machine.aside_setState
  stats := fun _ b _ => Machine.aside_mapDrive b rfl
  requests := fun _ => Machine.aside_setRequests
  wake := fun m _ hc => Machine.aside_wake (hc (m.lockAt lock).key)
  probe := fun m _ _ _ _ _ _ => { Machine.Aside.refl m with }

private theorem overlooksWork_aside (lock : Nat) : OverlooksWork (fun _ => True) (Machine.Aside lock) :=
  fun _ _ _ _ _ _ _ => Machine.aside_putShared ..

private theorem tolerates_aside (lock : Nat) (t : TaskId) :
    Tolerates t (fun _ => True) (Machine.Aside lock) :=
  ((overlooks_aside lock t).overlooks _).tolerates (fun _ => Machine.aside_mapCore t)
    (overlooksWork_aside lock)

theorem Spares.leads {x : Run α} (hx : Spares lock x) {m₀ : Machine} (hm : m₀.Aside lock m) :
    Leads x m fun _ m' => m₀.Aside lock m' := (hx m).mono fun _ _ h => hm.trans h

theorem spares_restore (t : TaskId) (saved : Bool) : Spares lock (restore t saved) :=
  (tolerates_aside lock t).restore saved

theorem spares_raise (t : TaskId) (i : Interrupt) : Spares lock (raise t i) :=
  ((overlooks_aside lock t).overlooks _).within_raise (fun _ => Machine.aside_mapCore t) i

theorem spares_work (b : BayId) (order : Option (List Nat)) : Spares lock (work b order) :=
  (tolerates_aside lock controlTask).within_work (overlooksWork_aside lock) trivial order

theorem spares_bringUp (b : BayId) : Spares lock (bringUp b) :=
  (tolerates_aside lock controlTask).within_bringUp trivial (fun _ => Machine.aside_setState b)
    fun _ => Machine.aside_setArena

end Run

namespace Machine

/-- How a step of a task goes that is at another node than the lock's: the task goes on, or it parks
on another channel. -/
inductive Passes (lock : Nat) (m : Machine) (t : TaskId) : Activity → Machine → Prop
  | goes (p : Program Reply) (m' : Machine) (h : m.Aside lock m') : Passes lock m t (.running p) m'
  | parks (c : Channel) (p : Program Reply) (m' : Machine) (hc : c ≠ (m.lockAt lock).channel)
    (hp : p.takes lock = false) (h : (m.prepare t c).Aside lock m') : Passes lock m t (.parking p) m'

private theorem Passes.trans {m₀ m m' : Machine} {lock : Nat} {t : TaskId} {a : Activity}
    (hm : m₀.Aside lock m) (h : m.Passes lock t a m') : m₀.Passes lock t a m' := by
  cases h with
  | goes p m' h => exact .goes p m' (hm.trans h)
  | parks c p m' hc hp h => exact .parks c p m' (hm.channel ▸ hc) hp ((hm.prepare t c).trans h)

private theorem passes_of_performs {m m' : Machine} {lock : Nat} {t : TaskId} {p : Program Reply}
    {a : Activity}
    (hm : m.Sole lock) (hp : p.takes lock = false) (h : Performs (Aside lock) t m p a m') :
    m.Passes lock t a m' := by
  induction h with
  | done m a => exact .goes _ m (.refl m)
  | inspect m m' b next state h => exact .goes _ m' h
  | refuse m m' b a next e h => exact .goes _ m' h
  | submit m m₁ m' b a next sector s act before ready rest ih =>
    have hentered : m.Aside lock (m₁.enter a) := before.trans { Aside.refl m₁ with }
    exact .trans hentered (ih (hentered.sole hm) rfl)
  | unready m m₁ m' b id sector next before state after => exact .goes _ m' (before.trans after)
  | awaitDescriptors m m₁ m' b id sector next before after =>
    refine .trans before (.parks _ _ m' ?_ rfl after)
    simp [Drive.descriptorChannel, SleepLock.channel]
  | publish m m₁ m₂ m' b id sector next s s' submission chain act before ready published between rest
      ih =>
    have hpublished : m₁.Aside lock (m₁.publish b id s') :=
      (aside_setState b _).trans (aside_setRequests _)
    have hnotified := before.trans (hpublished.trans between)
    exact .trans hnotified (ih (hnotified.sole hm) rfl)
  | awaitCompletion m m₁ m' b id ticket next before after =>
    refine .trans before (.parks _ _ m' ?_ rfl after)
    simp [Drive.completionChannel, SleepLock.channel]
  | retire m m₁ b id ticket next before =>
    exact .goes _ _ (before.trans ((aside_mapDrive b rfl).trans (aside_setRequests _)))
  | awaitScratch m m₁ m' b next before after =>
    refine .trans before (.parks _ _ m' (fun hc => ?_) rfl after)
    exact (before.sole hm).scratches b (Channel.lock.inj hc)
  | takeScratch m m₁ m' b next l before taken after =>
    obtain ⟨-, rfl⟩ := SleepLock.of_tryAcquire taken
    exact .goes _ m' (before.trans ((aside_mapDrive b rfl).trans after))
  | giveScratch m m₁ m' b value next before after =>
    have hgiven : m₁.Aside lock (m₁.setScratch b { (m₁.bay b).drive.scratch.release with value }) :=
      aside_mapDrive b rfl
    have hc : (m₁.bay b).drive.scratch.channel ≠ (m₁.lockAt lock).channel := fun hc =>
      (before.sole hm).scratches b (Channel.lock.inj hc)
    exact .goes _ m' (before.trans (hgiven.trans ((aside_wake (hgiven.channel ▸ hc)).trans after)))
  | awaitLock m m₁ m' other next before after =>
    have hne : other ≠ lock := by simpa [Program.takes] using hp
    refine .trans before (.parks _ _ m' (fun hc => ?_) hp after)
    exact (before.sole hm).locks other hne (Channel.lock.inj hc)
  | takeLock m m₁ m' other next l before taken after =>
    have hne : other ≠ lock := by simpa [Program.takes] using hp
    obtain ⟨-, rfl⟩ := SleepLock.of_tryAcquire taken
    have htaken : m₁.Aside lock (m₁.putLock other ((m₁.lockAt other).acquire t)) :=
      aside_putLock hne rfl
    exact .goes _ m' (before.trans (htaken.trans after))
  | awaitGate m m₁ m' gate waits next before after =>
    refine .trans before (.parks _ _ m' (fun hc => ?_) rfl after)
    exact (before.sole hm).gates gate (Channel.lock.inj hc)
  | passGate m m₁ m' gate waits next before after =>
    have hshut : m₁.Aside lock (m₁.putGate gate { m₁.gateAt gate with isOpen := false }) :=
      aside_putGate rfl
    exact .goes _ m' (before.trans (hshut.trans after))

end Machine

namespace Run

variable {m : Machine} {lock : Nat} {t : TaskId}

theorem leads_masked {α : Type} {Q : α → Machine → Prop} (lock : Nat) {f : Bool → Run α}
    (h : ∀ saved m₁, Machine.Aside lock m m₁ → Leads (f saved) m₁ Q) : Leads (mask t >>= f) m Q :=
  (tolerates_aside lock t).leads_masked h

/-- Whatever node but the lock's a task is at, its step passes the lock by. -/
theorem passes_node (hm : m.Sole lock) {p : Program Reply} (hp : p.takes lock = false) :
    Leads (node t p) m (Machine.Passes lock m t) :=
  ((tolerates_aside lock t).performs_node p.at_any).mono fun _ _ h => Machine.passes_of_performs hm hp h

end Run

end DiskStack
