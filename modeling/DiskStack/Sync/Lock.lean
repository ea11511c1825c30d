import DiskStack.Sync.Channel

/-!
# Locks

A short lock is held for a few steps with the interrupts of its core masked; its guard remembers
whether they were on before. A sleep lock may be held across waits: it knows its owner, and a task
that finds it held waits on the lock's own channel.
-/

namespace DiskStack

structure ShortLock (α : Type) where
  locked : Bool := false
  value : α

namespace ShortLock

variable {α : Type}

def tryLock (l : ShortLock α) : Option (ShortLock α) :=
  if l.locked then none else some { l with locked := true }

def unlock (l : ShortLock α) : ShortLock α := { l with locked := false }

end ShortLock

structure SleepLock (α : Type) where
  name : String
  key : Nat
  held : Bool := false
  /-- Of interest only while the lock is held. -/
  owner : Option TaskId := none
  value : α

namespace SleepLock

variable {α : Type}

def isHeldBy (l : SleepLock α) (t : TaskId) : Bool := l.held && l.owner == some t

def channel (l : SleepLock α) : Channel := .lock l.key

def acquire (l : SleepLock α) (t : TaskId) : SleepLock α := { l with held := true, owner := some t }

def tryAcquire (l : SleepLock α) (t : TaskId) : Option (SleepLock α) :=
  if l.held then none else some (l.acquire t)

def release (l : SleepLock α) : SleepLock α := { l with held := false, owner := none }

/-- Whether a lock is owned exactly while it is held. -/
def Agrees (l : SleepLock α) : Prop := l.held = l.owner.isSome

variable {l l' : SleepLock α} {t u : TaskId}

theorem agrees_acquire (l : SleepLock α) (t : TaskId) : (l.acquire t).Agrees := rfl

theorem agrees_release (l : SleepLock α) : l.release.Agrees := rfl

theorem isHeldBy_iff : l.isHeldBy t = true ↔ l.held = true ∧ l.owner = some t := by
  rw [isHeldBy, Bool.and_eq_true, beq_iff_eq]

theorem isHeldBy_acquire : (l.acquire t).isHeldBy u = true ↔ t = u := by
  simp [isHeldBy, acquire]

theorem not_isHeldBy_of_free (h : l.held = false) (t : TaskId) : l.isHeldBy t ≠ true := fun ht => by
  cases h.symm.trans (isHeldBy_iff.1 ht).1

theorem eq_of_isHeldBy (ht : l.isHeldBy t = true) (hu : l.isHeldBy u = true) : t = u :=
  Option.some.inj ((isHeldBy_iff.1 ht).2.symm.trans (isHeldBy_iff.1 hu).2)

theorem Agrees.free_of_not_isHeldBy (hl : l.Agrees) (h : ∀ t, l.isHeldBy t ≠ true) :
    l.held = false := by
  refine Bool.eq_false_iff.2 fun hheld => ?_
  rw [Agrees, hheld] at hl
  obtain ⟨t, ht⟩ := Option.isSome_iff_exists.1 hl.symm
  exact h t (isHeldBy_iff.2 ⟨hheld, ht⟩)

theorem tryAcquire_of_held (h : l.held = true) : l.tryAcquire t = none := if_pos h

theorem tryAcquire_of_free (h : l.held = false) : l.tryAcquire t = some (l.acquire t) :=
  if_neg (Bool.eq_false_iff.1 h)

theorem held_of_tryAcquire_none (h : l.tryAcquire t = none) : l.held = true := by
  rw [tryAcquire] at h
  split at h
  · assumption
  · cases h

theorem of_tryAcquire (h : l.tryAcquire t = some l') :
    l.held = false ∧ l' = l.acquire t := by
  rw [tryAcquire] at h
  split at h
  · cases h
  · exact ⟨Bool.eq_false_iff.2 ‹_›, (Option.some.inj h).symm⟩

theorem key_of_tryAcquire (h : l.tryAcquire t = some l') : l'.key = l.key := by
  rw [(of_tryAcquire h).2]
  rfl

end SleepLock

end DiskStack
