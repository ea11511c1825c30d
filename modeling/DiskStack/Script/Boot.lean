import DiskStack.Script.Perform

/-!
# Start of a system

A system starts without a logger and without control over interrupts. The logger is installed once,
and so is the control over interrupts; until then short locks leave interrupts alone.
-/

namespace DiskStack

namespace Machine

/-- A machine that logs at the limit of its build and masks interrupts. -/
def started (build : Build) : Machine :=
  let logger : Logger := { initialized := true }
  { build, logger := logger.setLevel build .trace }

end Machine

structure BootReport where
  loggerBefore : Logger
  loggerAfter : Logger
  /-- Whether the first installation of the logger succeeded, and why the second did not. -/
  installed : Bool
  refusal : Option String
  maskingBefore : Bool
  maskingAfter : Bool
  /-- Whether a held short lock was refused, and the masking that went with it. -/
  probeBefore : Bool × List Event
  probeAfter : Bool × List Event
  driveUp : Bool
  lines : List String

namespace Run

def installLogger : Run (Option String) := do
  let m ← get
  match m.logger.install m.build with
  | .ok logger =>
    set { m with logger }
    return none
  | .error text => return some text

/-- Installs control over interrupts; only the first installation counts. -/
def installControl : Run Unit := modify fun m => { m with interruptControl := true }

/-- Takes a fresh short lock, tries it again while it is held, and releases it. -/
def probeMasking : Run (Bool × List Event) := do
  modify Machine.clearJournal
  let i ← newMutex 0
  let _ ← tryMutex controlTask i
  let refused := (← tryMutex controlTask i).isNone
  if let some saved := ← guardOf? controlTask i then dropMutex controlTask i saved
  return (refused, (← get).events.reverse)

def bringUpDefault : Run (Bool × List String) := do
  modify Machine.clearJournal
  let _ ← register ⟨0, {}, { window := Controller.windowOf 2048 [] }⟩
  let result ← bringUp 0
  return (result.isOk, (← get).lines.reverse)

def boot : Run BootReport := do
  let loggerBefore := (← get).logger
  let installed := (← installLogger).isNone
  let refusal ← installLogger
  let loggerAfter := (← get).logger
  let maskingBefore := (← get).interruptControl
  let probeBefore ← probeMasking
  let (driveUp, lines) ← bringUpDefault
  installControl
  installControl
  let maskingAfter := (← get).interruptControl
  let probeAfter ← probeMasking
  return ⟨loggerBefore, loggerAfter, installed, refusal, maskingBefore, maskingAfter, probeBefore,
    probeAfter, driveUp, lines⟩

end Run

def bootReport (build : Build) : Except Halt BootReport :=
  (Run.boot.run.run { build, interruptControl := false }).1

end DiskStack
