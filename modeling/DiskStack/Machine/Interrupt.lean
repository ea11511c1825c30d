import DiskStack.Machine.Basic

/-!
# Masking and interrupts

A short lock masks the interrupts of its core and puts the flag back as it was; interrupts kept in
the meantime are delivered when the flag goes on. A handler runs with the flag off, and so the short
locks that it takes find the flag off and leave it so. The completion handler acknowledges first and
then drains the used ring; a chain nobody waits for, or a failed request, halts the machine.
-/

namespace DiskStack

namespace Run

/-- Masks the interrupts of a task's core and tells whether they were on. -/
def mask (t : TaskId) : Run Bool := do
  let m ← get
  if m.interruptControl then
    set ((m.emit (.mask t)).mapCore t Core.disable)
    return (m.task t).core.enabled
  else return false

/-- Puts the interrupt flag back as it was before `mask`. What has been kept is not delivered. -/
def putBack (t : TaskId) (saved : Bool) : Run Unit :=
  if saved then modify fun m => (m.emit (.unmask t)).mapCore t Core.enable else pure ()

def ask (b : BayId) (q : Query) : Run UInt32 := do
  let m ← get
  let (answer, controller) := (m.bay b).controller.ask q
  set ((m.mapController b fun _ => controller).emit (.query (m.bay b).number q answer))
  return answer

/-- Tells the controller of a drive. What a notification sets off is not done here. -/
def command (b : BayId) (c : Command) : Run Unit :=
  modify fun m => (m.mapController b (·.tell c)).emit (.command (m.bay b).number c)

def wake (c : Channel) : Run Unit := modify (·.wake c)

def ofChecked {α : Type} : Except Halt α → Run α
  | .ok a => pure a
  | .error h => throw h

def logFailure : Halt → Run Unit
  | .unknownHead id => log .error driveSource s!"virtio-blk: completion for unknown head {id}"
  | .failedStatus head status =>
    log .error driveSource s!"virtio-blk: request at head {head} failed with status {status}"
  | _ => pure ()

/-- Takes one finished request off the used ring, lets its caller go on and frees its chain. -/
def completeNext (b : BayId) (s : ReadyState) : Run Unit := do
  match s.rings.collect with
  | (.error h, rings) =>
    modify (·.mapDrive b fun d => { d with state := .ready { s with rings } })
    logFailure h
    throw h
  | (.ok (head, entry), rings) =>
    let drive := ((← get).bay b).drive
    modify fun m =>
      { m.mapDrive b fun d => { d with state := .ready { s with rings } } with
        requests := m.requests.setPending entry.request false }
    wake (drive.completionChannel entry.ticket)
    let rings ← ofChecked (rings.release head)
    modify (·.mapDrive b fun d => { d with state := .ready { s with rings } })
    wake drive.descriptorChannel
    modify (·.mapDrive b fun d => { d with stats := d.stats.countCompletion })
    log .debug driveSource s!"virtio-blk: completed head {head}"

/-- How far a completion handler has come. Between two of these points the controller may act. -/
inductive CompletionPoint
  | reading
  | acknowledging (causes : UInt32)
  | looking
  | taking
  | finished
  deriving DecidableEq, Repr

/-- One access of the completion handler to registers or rings. -/
def completionStep (b : BayId) (point : CompletionPoint) : Run CompletionPoint := do
  match ((← get).bay b).drive.state, point with
  | .ready _, .reading => return .acknowledging (← ask b .interruptStatus)
  | .ready _, .acknowledging causes =>
    command b (.ackInterrupt (causes &&& interruptMask))
    return .looking
  | .ready s, .looking => return if s.rings.queue.used.isDrained then .finished else .taking
  | .ready s, .taking =>
    completeNext b s
    return .looking
  | _, _ => return .finished

def completionSteps (b : BayId) : Nat → CompletionPoint → Run Unit
  | 0, _ | _, .finished => pure ()
  | n + 1, point => do completionSteps b n (← completionStep b point)

/-- The steps of a handler with nothing coming in between: two for the registers, two for each
element, and a last look. -/
def completionBound (s : ReadyState) : Nat := 2 + 2 * s.rings.queue.used.backlog + 1

/-- Completes the finished requests of a drive under its short lock. -/
def completeAll (b : BayId) : Run Unit := do
  match ((← get).bay b).drive.state with
  | .ready s => completionSteps b (completionBound s) .reading
  | _ => log .warn driveSource "virtio-blk: interrupt before initialization"

def handleCompletion (t : TaskId) (b : BayId) : Run Unit := do
  let saved ← mask t
  completeAll b
  putBack t saved

/-- Adds one to the value of a short lock, if the lock is free. -/
def addToMutex (mutex : Nat) : Run (Option UInt64) := do
  let m ← get
  match (m.mutexes[mutex]?).bind ShortLock.tryLock with
  | none => return none
  | some l =>
    let value := l.value + 1
    set { m with mutexes := m.mutexes.setIfInBounds mutex { l with value }.unlock }
    return some value

def probeMutex (t : TaskId) (mutex : Nat) : Run (Option UInt64) := do
  let saved ← mask t
  let value ← addToMutex mutex
  putBack t saved
  return value

def handler (t : TaskId) : Interrupt → Run Unit
  | .completion number => do
    match (← get).bayOf? number with
    | some b => handleCompletion t b
    | none => log .warn registrySource s!"disk interrupt for unknown drive {number}"
  | .probe name mutex => do
    let value ← match mutex with
      | some i => probeMutex t i
      | none => pure none
    emit (.probe name t ((← get).task t).core.enabled value)

/-- Runs a handler with the flag off and puts the flag on; a handler that halts leaves it off. -/
def handle (t : TaskId) (i : Interrupt) : Run Unit := do
  modify (·.mapCore t Core.disable)
  handler t i
  modify (·.mapCore t Core.enable)

/-- Delivers up to the given number of kept interrupts, oldest first. -/
def deliver (t : TaskId) : Nat → Run Unit
  | 0 => pure ()
  | n + 1 => do
    match ((← get).task t).core.pending with
    | [] => pure ()
    | i :: _ =>
      modify (·.mapCore t Core.dropPending)
      handle t i
      deliver t n

/-- Puts the interrupt flag back as it was before `mask`, and delivers what has been kept. -/
def restore (t : TaskId) (saved : Bool) : Run Unit := do
  if saved then
    modify fun m => (m.emit (.unmask t)).mapCore t Core.enable
    deliver t ((← get).task t).core.pending.length

def raise (t : TaskId) (i : Interrupt) : Run Unit := do
  if ((← get).task t).core.enabled then handle t i
  else modify (·.mapCore t (·.defer i))

/-- Lets the controller of a drive work on its queue; nothing comes of it unless the queue has been
handed over. -/
def work (b : BayId) (order : Option (List Nat)) : Run (Option (List ChainReport)) := do
  modify (·.mapController b fun c => { c with notified := false })
  let m ← get
  match m.shared? b with
  | none => return none
  | some (s, shared) =>
    let (reports, controller, shared) := (m.bay b).controller.work shared order
    set (m.putShared b s controller shared)
    return some reports

/-- Notifies the controller of a drive; it may work at once and interrupt the notifying core. -/
def notify (t : TaskId) (b : BayId) : Run Unit := do
  command b (.notifyQueue 0)
  let bay := (← get).bay b
  if bay.controller.mode = .sameCore then
    let _ ← work b none
    raise t (.completion bay.number)

end Run

end DiskStack
