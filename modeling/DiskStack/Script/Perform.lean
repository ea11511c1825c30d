import DiskStack.Machine.Locks
import DiskStack.Machine.Schedule
import DiskStack.Script.Step

/-!
# Performing steps

Each step is performed on the machine and answered. Afterwards the machine is drained, unless the
step is deferred. A halt ends the script.
-/

namespace DiskStack

namespace Run

/-- The task of a name, which is created when it is first mentioned; no name means the control
task. -/
def taskNamed (name : String) : Run TaskId := do
  let m ← get
  match (List.range m.tasks.size).find? fun t =>
      t != controlTask && (m.task t).name == name with
  | some t => return t
  | none =>
    set { m with tasks := m.tasks.push { name } }
    return m.tasks.size

def start (t : TaskId) (p : Program Reply) : Run Reply := do
  return (← call t p).getD .blocked

/-- Starts a sector transfer on a drive, past the registry. -/
def startSectors (t : TaskId) (number : UInt8) (scratch : Option Nat)
    (transfer : Nat → Bytes → BlockProgram SectorOutcome) : Run Reply := do
  match (← get).drive? number with
  | none => return .nothing
  | some (b, config) =>
    let block ← ofChecked (freshScratch (scratch.getD config.blockSize))
    start t do return .sectors (← Program.ofBlocks b (transfer config.blockSize block))

def performCall (t : TaskId) : TaskCall → Run Reply
  | .read number sector count buffer => do
    let buffer ← ofChecked buffer.buffer
    let drive := (← get).drive? number
    start t do return .diskBuffer (← readDrive drive buffer sector count)
  | .write number sector count buffer => do
    let data ← ofChecked buffer.buffer
    let drive := (← get).drive? number
    start t do return .disk (← writeDrive drive data sector count).result
  | .submit number block write buffer => do
    let data ← ofChecked buffer.buffer
    match (← get).bayOf? number with
    | none => return .nothing
    | some b => start t do return .block (← Program.submitAccess b ⟨block, write, data⟩)
  | .readSectors number sector count buffer scratch => do
    let buffer ← ofChecked buffer.buffer
    startSectors t number scratch fun blockSize => readSectors blockSize buffer sector count
  | .writeSectors number sector count buffer scratch => do
    let data ← ofChecked buffer.buffer
    startSectors t number scratch fun blockSize => writeSectors blockSize data sector count
  | .takeLock lock => start t (.takeLock lock fun v => .done (.number v.toNat))
  | .tryLock lock => do return .optional (← tryLock t lock)
  | .unlock lock => do
    let held := (← sleepLock lock).isHeldBy t
    if held then unlock t lock
    return .flag held
  | .isHolding lock => do return .flag ((← inspectLock t lock).isHeldBy t)
  | .addToLock lock amount => do
    let l ← sleepLock lock
    if !l.isHeldBy t then return .nothing
    setLock lock { l with value := l.value + amount }
    return .number (l.value + amount).toNat
  | .takeMutex i => do
    if (← mutex i).locked then return .wouldSpin
    return .optional (← tryMutex t i)
  | .tryMutex i => do return .optional (← tryMutex t i)
  | .unlockMutex i => do
    match ← guardOf? t i with
    | none => return .flag false
    | some saved =>
      dropMutex t i saved
      return .flag true
  | .addToMutex i amount => do
    match ← guardOf? t i with
    | none => return .nothing
    | some _ =>
      let l ← mutex i
      setMutex i { l with value := l.value + amount }
      return .number (l.value + amount).toNat
  | .passGate gate => start t (.passGate gate 0 fun n => .done (.number n))
  | .raise name mutex => do
    raise t (.probe name mutex)
    return .nothing
  | .core => do
    let core := ((← get).task t).core
    return .core core.enabled core.pending.length core.deferred

/-- The queue memory of a drive, if the queue has been handed over. -/
def ringsView (m : Machine) (b : BayId) : Option RingsView :=
  (m.shared? b).map fun (_, shared) =>
    let size := (m.bay b).controller.queueSize
    let slots := List.range size
    let queue := shared.rings.queue
    { descriptors := slots.map fun i => shared.descriptor size (UInt16.ofNat i)
      availFlags := queue.avail.region.load16 AvailRing.flagsOffset
      availIndex := queue.avail.index
      availRing := slots.map fun i => queue.avail.region.load16 (AvailRing.ringOffset + 2 * i)
      usedFlags := queue.used.region.load16 UsedRing.flagsOffset
      usedIndex := queue.used.deviceIndex
      usedRing := slots.map fun i =>
        queue.used.element (UsedRing.ringOffset + UsedRing.elementWidth * i) }

/-- Performs an operation on the bay of a registered number, if there is one. -/
def onBay (number : UInt8) (operation : BayId → Run Reply) : Run Reply := do
  match (← get).bayOf? number with
  | none => return .nothing
  | some b => operation b

/-- Has a controller report an element that no chain stands for. -/
def inject (b : BayId) (e : UsedElement) : Run Unit := do
  let m ← get
  if let some (s, shared) := m.shared? b then
    let (controller, shared) := (m.bay b).controller.inject shared e
    set (m.putShared b s controller shared)

/-- Runs a task if it has been woken up; tells whether it was. -/
def runWoken (t : TaskId) : Run Reply := do
  let woken := (← get).runnable.contains t
  if woken then resume t
  return .flag woken

def perform : Step → Run Reply
  | .call task c => do
    if let .write .. := c then
      if (← get).build.readOnly then return .absent
    let t ← taskNamed task
    if (← get).isIdle t then performCall t c else return .busy
  | .register r => do return .number (← register r)
  | .bringUp number => onBay number fun b => do return .initialized (← bringUp b)
  | .initializeDrive number => do return .number (← initializeDrive number).toNat
  | .status number => do return .number (← status number).toNat
  | .driveCount => do return .count (← get).registry.length
  | .info number => onBay number fun b => do return .info (← info b)
  | .ioctl number command length => do
    let config := ((← get).drive? number).map Prod.snd
    let (result, buffer) := ioctlDrive config command (← ofChecked (freshBuffer length))
    return .diskBuffer ⟨result, buffer⟩
  | .control number c => do
    return .control (controlDrive (((← get).drive? number).map Prod.snd) c)
  | .process number order => onBay number fun b => do
    return match ← work b order with
    | some reports => .reports reports
    | none => .nothing
  | .interrupt number => do
    raise controlTask (.completion number)
    return .nothing
  | .inject number e => onBay number fun b => do
    inject b e
    return .nothing
  | .change number c => onBay number fun b => do
    modify (·.mapController b c.apply)
    return .nothing
  | .poke number offset value => onBay number fun b => do
    modify (·.mapController b fun c => { c with window := c.window.write offset value })
    return .number value.toNat
  | .peek number offset => onBay number fun b => do
    return .number (((← get).bay b).controller.window.read offset).toNat
  | .fillDisk number sector source => onBay number fun b => do
    let data ← ofChecked source.buffer
    modify (·.mapController b fun c => { c with image := c.image.writeAround sector data })
    return .nothing
  | .readDisk number sector count => onBay number fun b => do
    return .bytes (((← get).bay b).controller.image.readAround sector count)
  | .rings number => onBay number fun b => do
    return match ringsView (← get) b with
    | some view => .rings view
    | none => .nothing
  | .wake c => do
    wake c
    return .nothing
  | .run task => do runWoken (← taskNamed task)
  | .drain => return .nothing
  | .tasks => do
    let m ← get
    return .tasks (((List.range m.tasks.size).drop 1).map fun t => ((m.task t).name, m.phaseOf t))
  | .newLock name value => do return .number (← newSleepLock name value)
  | .lockInfo lock => do
    let l ← inspectLock controlTask lock
    let again ← inspectLock controlTask lock
    return .lockInfo l.name l.held (again.isHeldBy controlTask)
  | .newMutex value => do return .number (← newMutex value)
  | .isMutexLocked i => do return .flag (← mutex i).locked
  | .newGate => do return .number (← newGate)
  | .openGate gate waking => do
    openGate gate waking
    return .nothing

end Run

/-- What a step is answered if the machine halts in it: interrupts and resumed tasks are not part of
the step's own call. -/
def Step.replyOnHalt : Step → Option Reply
  | .interrupt _ => some .nothing
  | .run _ => some (.flag true)
  | _ => none

structure StepReport where
  reply : Option Reply
  finished : List (TaskId × Option Reply)
  events : List Event
  lines : List String
  halt : Option Halt

namespace Machine

def clearJournal (m : Machine) : Machine := { m with events := [], lines := [], finished := [] }

def report (m : Machine) (reply : Option Reply) (halt : Option Halt) : StepReport :=
  ⟨reply, m.finished.reverse, m.events.reverse, m.lines.reverse, halt⟩

/-- Performs one step and drains the machine unless the step is deferred. -/
def runStep (m : Machine) (s : Step) (deferred : Bool) : StepReport × Machine :=
  match (Run.perform s).run.run m.clearJournal with
  | (.error h, m) => (m.report s.replyOnHalt (some h), m)
  | (.ok reply, m) =>
    if deferred then (m.report (some reply) none, m)
    else
      match Run.drain.run.run m with
      | (.error h, m) => (m.report (some reply) (some h), m)
      | (.ok (), m) => (m.report (some reply) none, m)

def runScript (m : Machine) : List (Step × Bool) → List StepReport × Machine
  | [] => ([], m)
  | (s, deferred) :: rest =>
    let (report, m) := m.runStep s deferred
    if report.halt.isSome then ([report], m)
    else
      let (reports, m) := m.runScript rest
      (report :: reports, m)

end Machine

end DiskStack
