import DiskStack.Machine.Advance

/-!
# Locks kept by tasks

Short locks and sleep locks that a task takes in one call and may keep until a later one. A call
here never waits.
-/

namespace DiskStack

namespace Run

def freshKey : Run Nat := do
  let m ← get
  set { m with nextKey := m.nextKey + 1 }
  return m.nextKey

def newSleepLock (name : String) (value : UInt64) : Run Nat := do
  let key ← freshKey
  let m ← get
  set { m with locks := m.locks.push { name, key, value } }
  return m.locks.size

def inspectLock (t : TaskId) (lock : Nat) : Run (SleepLock UInt64) := do
  let saved ← mask t
  let l ← sleepLock lock
  restore t saved
  return l

def tryLock (t : TaskId) (lock : Nat) : Run (Option UInt64) := do
  let saved ← mask t
  let l ← sleepLock lock
  let taken := l.tryAcquire t
  if let some l := taken then setLock lock l
  restore t saved
  return taken.map (·.value)

/-- Releases a sleep lock and wakes all who wait for it. -/
def unlock (t : TaskId) (lock : Nat) : Run Unit := do
  let saved ← mask t
  let l ← sleepLock lock
  setLock lock l.release
  wake l.channel
  restore t saved

def newMutex (value : UInt64) : Run Nat := do
  let m ← get
  set { m with mutexes := m.mutexes.push { value } }
  return m.mutexes.size

def mutex (i : Nat) : Run (ShortLock UInt64) := do
  return (← get).mutexes.getD i { value := 0 }

def setMutex (i : Nat) (l : ShortLock UInt64) : Run Unit :=
  modify fun m => { m with mutexes := m.mutexes.setIfInBounds i l }

/-- Takes a short lock if it is free, with the interrupts masked already; they stay so while the
lock is kept. -/
def claimMutex (t : TaskId) (i : Nat) (saved : Bool) : Run (Option UInt64) := do
  match (← mutex i).tryLock with
  | none =>
    restore t saved
    return none
  | some l =>
    setMutex i l
    modify (·.mapTask t fun task => { task with guards := (i, saved) :: task.guards })
    return some l.value

def tryMutex (t : TaskId) (i : Nat) : Run (Option UInt64) := do
  claimMutex t i (← mask t)

def guardOf? (t : TaskId) (i : Nat) : Run (Option Bool) := do
  return (((← get).task t).guards.find? fun g => g.1 == i).map Prod.snd

/-- Releases a short lock that the task keeps, and puts the interrupts back. -/
def dropMutex (t : TaskId) (i : Nat) (saved : Bool) : Run Unit := do
  setMutex i (← mutex i).unlock
  modify (·.mapTask t fun task => { task with guards := task.guards.filter fun g => g.1 != i })
  restore t saved

def newGate : Run Nat := do
  let key ← freshKey
  let m ← get
  set { m with gates := m.gates.push { key } }
  return m.gates.size

/-- Opens a gate, and wakes those who wait for it if asked to. -/
def openGate (gate : Nat) (waking : Bool) : Run Unit := do
  let saved ← mask controlTask
  let g := (← get).gates.getD gate { key := 0 }
  modify fun m => { m with gates := m.gates.setIfInBounds gate { g with isOpen := true } }
  restore controlTask saved
  if waking then wake (.lock g.key)

end Run

end DiskStack
