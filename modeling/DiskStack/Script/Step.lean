import DiskStack.Machine.Basic
import DiskStack.Machine.Registry
import DiskStack.Registry.Ioctl
import DiskStack.Script.Buffer

/-!
# Script steps

What can be done to a machine from outside: calls on tasks, operations of the control task, and
what the controllers do in between.
-/

namespace DiskStack

inductive TaskCall
  | read (number : UInt8) (sector count : Nat) (buffer : BufferSource)
  | write (number : UInt8) (sector count : Nat) (buffer : BufferSource)
  | submit (number : UInt8) (block : Nat) (write : Bool) (buffer : BufferSource)
  /-- A sector transfer past the registry, with a scratch block of its own. -/
  | readSectors (number : UInt8) (sector count : Nat) (buffer : BufferSource)
      (scratch : Option Nat)
  | writeSectors (number : UInt8) (sector count : Nat) (buffer : BufferSource)
      (scratch : Option Nat)
  | takeLock (lock : Nat)
  | tryLock (lock : Nat)
  | unlock (lock : Nat)
  | isHolding (lock : Nat)
  | addToLock (lock : Nat) (amount : UInt64)
  | takeMutex (mutex : Nat)
  | tryMutex (mutex : Nat)
  | unlockMutex (mutex : Nat)
  | addToMutex (mutex : Nat) (amount : UInt64)
  | passGate (gate : Nat)
  /-- A probe interrupt on the task's core. -/
  | raise (name : String) (mutex : Option Nat)
  | core

/-- Changes to how a controller behaves; what is missing stays. -/
structure ControllerChange where
  skipStatus : Option Bool := none
  rejectFeatures : Option Bool := none
  failing : Option (Option (Nat × Nat)) := none
  failStatus : Option UInt8 := none

def ControllerChange.apply (change : ControllerChange) (c : Controller) : Controller :=
  { c with
    skipStatus := change.skipStatus.getD c.skipStatus
    rejectFeatures := change.rejectFeatures.getD c.rejectFeatures
    failing := change.failing.getD c.failing
    failStatus := change.failStatus.getD c.failStatus }

inductive Step
  | call (task : String) (c : TaskCall)
  | register (r : Registration)
  | bringUp (number : UInt8)
  | initializeDrive (number : UInt8)
  | status (number : UInt8)
  | driveCount
  | info (number : UInt8)
  | ioctl (number command : UInt8) (length : Nat)
  | control (number : UInt8) (c : ControlCommand)
  | process (number : UInt8) (order : Option (List Nat))
  | interrupt (number : UInt8)
  | inject (number : UInt8) (e : UsedElement)
  | change (number : UInt8) (c : ControllerChange)
  | poke (number : UInt8) (offset : Nat) (value : UInt32)
  | peek (number : UInt8) (offset : Nat)
  | fillDisk (number : UInt8) (sector : Nat) (source : BufferSource)
  | readDisk (number : UInt8) (sector count : Nat)
  | rings (number : UInt8)
  | wake (c : Channel)
  | run (task : String)
  | drain
  | tasks
  | newLock (name : String) (value : UInt64)
  | lockInfo (lock : Nat)
  | newMutex (value : UInt64)
  | isMutexLocked (mutex : Nat)
  | newGate
  | openGate (gate : Nat) (waking : Bool)

end DiskStack
