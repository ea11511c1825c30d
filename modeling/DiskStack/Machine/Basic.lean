import DiskStack.Log
import DiskStack.Machine.Event
import DiskStack.Sync.Core
import DiskStack.Task.Reply

/-!
# The machine

Drives with their controllers, tasks with a core each, locks, the wait queue and the journal of what
happened. Everything that runs does so as a state transformer that may halt; what has happened up
to a halt stays in the journal.
-/

namespace DiskStack

/-- A drive, its controller, and the number under which it was registered. -/
structure Bay where
  number : UInt8
  drive : Drive
  controller : Controller

instance : Inhabited Bay where
  default := ⟨0, .ofConfig {} 0 0, { window := .zeroed unnumberedWindowBase }⟩

inductive Interrupt
  | completion (number : UInt8)
  /-- Adds one to a short lock's value if the lock is free. -/
  | probe (name : String) (mutex : Option Nat)
  deriving DecidableEq, Repr

inductive Activity
  | idle
  | running (p : Program Reply)
  /-- Registered on a channel and about to sleep. -/
  | parking (p : Program Reply)
  | asleep (p : Program Reply)

structure Task where
  name : String
  core : Core Interrupt := {}
  activity : Activity := .idle
  /-- The short locks that the task keeps, with the interrupt flag to restore. -/
  guards : List (Nat × Bool) := []

/-- No interrupt reaches the core of a task that is not there. -/
instance : Inhabited Task where
  default := { name := "", core := { enabled := false } }

/-- A flag that tasks wait for, under a short lock. -/
structure Gate where
  isOpen : Bool := false
  key : Nat

structure Machine where
  build : Build := {}
  logger : Logger := {}
  /-- Whether short locks mask the interrupts of their core. -/
  interruptControl : Bool := true
  arena : Arena := ⟨1⟩
  nextKey : Nat := 1
  bays : Array Bay := #[]
  registry : List (UInt8 × BayId) := []
  requests : RequestTable := {}
  nextRequest : RequestId := 0
  /-- The control task and the others in the order of their first mention. -/
  tasks : Array Task := #[{ name := "ctl" }]
  waiting : WaitQueue := {}
  /-- The woken tasks, in the order in which they will run. -/
  runnable : List TaskId := []
  mutexes : Array (ShortLock UInt64) := #[]
  locks : Array (SleepLock UInt64) := #[]
  gates : Array Gate := #[]
  /-- Latest first, as are the next two. -/
  events : List Event := []
  lines : List String := []
  /-- Calls that returned after they had waited; a call that halted has no reply. -/
  finished : List (TaskId × Option Reply) := []

def controlTask : TaskId := 0

namespace Machine

def bay (m : Machine) (b : BayId) : Bay := m.bays.getD b default

def task (m : Machine) (t : TaskId) : Task := m.tasks.getD t default

def bayOf? (m : Machine) (number : UInt8) : Option BayId :=
  (m.registry.find? fun e => e.1 == number).map Prod.snd

def drive? (m : Machine) (number : UInt8) : Option (BayId × DriveConfig) :=
  (m.bayOf? number).map fun b => (b, (m.bay b).drive.config)

def mapBay (m : Machine) (b : BayId) (f : Bay → Bay) : Machine :=
  { m with bays := m.bays.modify b f }

def mapDrive (m : Machine) (b : BayId) (f : Drive → Drive) : Machine :=
  m.mapBay b fun bay => { bay with drive := f bay.drive }

def mapController (m : Machine) (b : BayId) (f : Controller → Controller) : Machine :=
  m.mapBay b fun bay => { bay with controller := f bay.controller }

/-- The memory that a drive shares with its controller, once the queue has been handed over. -/
def shared? (m : Machine) (b : BayId) : Option (ReadyState × SharedMemory) :=
  match (m.bay b).drive.state with
  | .ready s => if (m.bay b).controller.isSetUp then some (s, ⟨s.rings, m.requests⟩) else none
  | _ => none

/-- Keeps what a controller has done to itself and to the shared memory. -/
def putShared (m : Machine) (b : BayId) (s : ReadyState) (controller : Controller)
    (shared : SharedMemory) : Machine :=
  { m.mapBay b fun bay =>
      { bay with controller, drive.state := .ready { s with rings := shared.rings } } with
    requests := shared.requests }

def mapTask (m : Machine) (t : TaskId) (f : Task → Task) : Machine :=
  { m with tasks := m.tasks.modify t f }

def mapCore (m : Machine) (t : TaskId) (f : Core Interrupt → Core Interrupt) : Machine :=
  m.mapTask t fun task => { task with core := f task.core }

def setActivity (m : Machine) (t : TaskId) (a : Activity) : Machine :=
  m.mapTask t fun task => { task with activity := a }

def emit (m : Machine) (e : Event) : Machine := { m with events := e :: m.events }

def log (m : Machine) (level : LogLevel) (source text : String) : Machine :=
  match m.logger.emit ⟨level, some source, text⟩ with
  | some line => { m with lines := line :: m.lines }
  | none => m

def isAsleep (m : Machine) (t : TaskId) : Bool :=
  match (m.task t).activity with
  | .asleep _ => true
  | _ => false

def isIdle (m : Machine) (t : TaskId) : Bool :=
  match (m.task t).activity with
  | .idle => true
  | _ => false

def prepare (m : Machine) (t : TaskId) (c : Channel) : Machine :=
  ({ m with waiting := m.waiting.register t c }).emit (.prepare t c)

/-- Releases all waiters of a channel; those asleep become runnable. -/
def wake (m : Machine) (c : Channel) : Machine :=
  let released := m.waiting.waitersOf c
  let woken := released.filter m.isAsleep
  ({ m with waiting := m.waiting.wake c, runnable := m.runnable ++ woken }).emit (.wake c released)

def phaseOf (m : Machine) (t : TaskId) : TaskPhase :=
  if m.isIdle t then .idle else if m.runnable.contains t then .woken else .asleep

end Machine

def driveSource : String := "rany_blk::io::virtio::blk"

def registrySource : String := "rany_blk::fs::registry"

abbrev Run := ExceptT Halt (StateM Machine)

namespace Run

def log (level : LogLevel) (source text : String) : Run Unit :=
  modify (·.log level source text)

def emit (e : Event) : Run Unit := modify (·.emit e)

end Run

end DiskStack
