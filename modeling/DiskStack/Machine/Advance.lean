import DiskStack.Machine.Interrupt

/-!
# Running a task

One step of a task runs one node of its program, or takes it from its registration on a channel to
sleep. Every node masks the task's interrupts, does its work, and restores them; a node whose
condition is unmet registers the task before it restores them, so that a wake-up in between is not
lost. A halt in a step releases the scratch block that the task holds.
-/

namespace DiskStack

namespace Run

/-- Restores the interrupts of a task that has nothing to wait for. -/
def proceed (t : TaskId) (saved : Bool) (p : Program Reply) : Run Activity := do
  restore t saved
  return .running p

/-- Registers a task and restores its interrupts; the program is what it will try again. -/
def park (t : TaskId) (saved : Bool) (c : Channel) (p : Program Reply) : Run Activity := do
  modify (·.prepare t c)
  restore t saved
  return .parking p

def inspect (t : TaskId) (b : BayId) : Run DriveState := do
  let saved ← mask t
  let state := ((← get).bay b).drive.state
  restore t saved
  return state

def enterRequest (a : BlockAccess) : Run RequestId := do
  let m ← get
  let (address, arena) := m.arena.reserve a.data.length
  set { m with
    arena
    nextRequest := m.nextRequest + 1
    requests := m.requests.insert m.nextRequest (.fresh a.block a.write a.data address) }
  return m.nextRequest

/-- Returns from a request that is no longer pending, or waits for its completion. -/
def finishOrPark (t : TaskId) (saved : Bool) (b : BayId) (id : RequestId) (ticket : UInt64)
    (next : SubmitReply → Program Reply) : Run Activity := do
  let m ← get
  if m.requests.isPending id then
    park t saved ((m.bay b).drive.completionChannel ticket) (.complete b id ticket next)
  else
    restore t saved
    let m ← get
    let request := (m.requests.find? id).getD (.fresh 0 false [] 0)
    set { m.mapDrive b fun d => { d with stats := d.stats.countRequest request.write } with
      requests := m.requests.erase id }
    return .running (next ⟨⟨.ok (), request.data⟩, request.pending⟩)

def publishedText (request : BlockRequest) (sector : Nat) (head : UInt16) : String :=
  "virtio-blk: " ++ (if request.write then "write" else "read") ++
    s!" block {request.block} (sector {sector}) head {head}"

/-- Publishes a request and goes on to its completion, or waits for descriptors. -/
def publishOrPark (t : TaskId) (saved : Bool) (b : BayId) (s : ReadyState) (id : RequestId)
    (sector : Nat) (next : SubmitReply → Program Reply) : Run Activity := do
  let m ← get
  let request := (m.requests.find? id).getD (.fresh 0 false [] 0)
  match s.publish? id request.write sector request.address request.data.length with
  | .error h =>
    restore t saved
    throw h
  | .ok none =>
    park t saved (m.bay b).drive.descriptorChannel (.publish b id sector next)
  | .ok (some (submission, chain, s)) =>
    set { m.mapDrive b fun d => { d with state := .ready s } with
      requests := m.requests.setPending id true }
    notify t b
    log .debug driveSource (publishedText request sector chain.head)
    finishOrPark t saved b id submission.ticket next

/-- Submits the transfer of one block: a refusal leaves no trace. -/
def submit (t : TaskId) (b : BayId) (a : BlockAccess) (next : SubmitReply → Program Reply) :
    Run Activity := do
  let config := ((← get).bay b).drive.config
  match config.firstSector a.block a.data.length with
  | .error e => return .running (next ⟨⟨.error e, a.data⟩, false⟩)
  | .ok sector =>
    let saved ← mask t
    match ((← get).bay b).drive.state.checkSectors sector config.sectorsPerBlock with
    | .error e => proceed t saved (next ⟨⟨.error e, a.data⟩, false⟩)
    | .ok s =>
      let id ← enterRequest a
      publishOrPark t saved b s id sector next

/-- Tries a waiting publication again. A drive that has been ready stays so. -/
def publishAgain (t : TaskId) (b : BayId) (id : RequestId) (sector : Nat)
    (next : SubmitReply → Program Reply) : Run Activity := do
  let saved ← mask t
  match ((← get).bay b).drive.state with
  | .ready s => publishOrPark t saved b s id sector next
  | _ => proceed t saved (next ⟨⟨.error .notReady, []⟩, false⟩)

/-- Takes the lock on a drive's scratch block, or waits for it. -/
def takeScratch (t : TaskId) (b : BayId) (next : Bytes → Program Reply) : Run Activity := do
  let saved ← mask t
  let scratch := ((← get).bay b).drive.scratch
  match scratch.tryAcquire t with
  | none => park t saved scratch.channel (.takeScratch b next)
  | some scratch =>
    modify (·.mapDrive b fun d => { d with scratch })
    proceed t saved (next scratch.value)

/-- Unlocks a drive's scratch block, with the bytes it now has, and wakes all who wait for it. -/
def giveScratch (t : TaskId) (b : BayId) (value : Bytes) : Run Unit := do
  let saved ← mask t
  let scratch := ((← get).bay b).drive.scratch
  modify (·.mapDrive b fun d => { d with scratch := { scratch.release with value } })
  wake scratch.channel
  restore t saved

def sleepLock (lock : Nat) : Run (SleepLock UInt64) := do
  return (← get).locks.getD lock { name := "", key := 0, value := 0 }

def setLock (lock : Nat) (l : SleepLock UInt64) : Run Unit :=
  modify fun m => { m with locks := m.locks.setIfInBounds lock l }

def takeLock (t : TaskId) (lock : Nat) (next : UInt64 → Program Reply) : Run Activity := do
  let saved ← mask t
  let l ← sleepLock lock
  match l.tryAcquire t with
  | none => park t saved l.channel (.takeLock lock next)
  | some l =>
    setLock lock l
    proceed t saved (next l.value)

/-- Closes an open gate behind the task, or waits for it to open. -/
def passGate (t : TaskId) (gate waits : Nat) (next : Nat → Program Reply) : Run Activity := do
  let saved ← mask t
  let g := (← get).gates.getD gate { key := 0 }
  if g.isOpen then
    modify fun m => { m with gates := m.gates.setIfInBounds gate { g with isOpen := false } }
    proceed t saved (next waits)
  else park t saved (.lock g.key) (.passGate gate (waits + 1) next)

def node (t : TaskId) : Program Reply → Run Activity
  | .done a => return .running (.done a)
  | .halt h => throw h
  | .inspect b next => do return .running (next (← inspect t b))
  | .submit b a next => submit t b a next
  | .publish b id sector next => publishAgain t b id sector next
  | .complete b id ticket next => do finishOrPark t (← mask t) b id ticket next
  | .takeScratch b next => takeScratch t b next
  | .giveScratch b value next => do
    giveScratch t b value
    return .running next
  | .takeLock lock next => takeLock t lock next
  | .passGate gate waits next => passGate t gate waits next

/-- Puts a parking task to sleep, unless it has been woken up since it registered. -/
def settle (t : TaskId) (p : Program Reply) : Run Activity := do
  if (← get).waiting.isRegistered t then
    emit (.sleep t)
    return .asleep p
  else
    emit (.noSleep t)
    return .running p

def advance (t : TaskId) : Run Unit := do
  match ((← get).task t).activity with
  | .running p =>
    let a ← node t p
    modify (·.setActivity t a)
  | .parking p =>
    let a ← settle t p
    modify (·.setActivity t a)
  | _ => pure ()

def releaseScratch (t : TaskId) : Run Unit := do
  let m ← get
  for b in List.range m.bays.size do
    let scratch := (m.bay b).drive.scratch
    if scratch.isHeldBy t then giveScratch t b scratch.value

/-- Runs a task until its call returns or it sleeps, for at most the given number of steps. -/
def advanceAll (t : TaskId) : Nat → Run (Option Reply)
  | 0 => return none
  | n + 1 => do
    match ((← get).task t).activity with
    | .running (.done a) =>
      modify (·.setActivity t .idle)
      return some a
    | .running _ | .parking _ =>
      advance t
      advanceAll t n
    | _ => return none

def stepLimit : Nat := 10000000

/-- Runs a task until its call returns or it sleeps. -/
def runTask (t : TaskId) : Run (Option Reply) :=
  tryCatch (advanceAll t stepLimit) fun h => do
    releaseScratch t
    throw h

def call (t : TaskId) (p : Program Reply) : Run (Option Reply) := do
  modify (·.setActivity t (.running p))
  runTask t

end Run

end DiskStack
