import DiskStack.Bytes
import DiskStack.Drive.Config

/-!
# Drive control

The control commands of the disk contract. A command is given by number; its answer is a number
that is left in the caller's buffer, lowest byte first, in the command's width.
-/

namespace DiskStack

inductive ControlCommand
  | sync
  | sectorCount
  | sectorSize
  | eraseSize
  deriving DecidableEq, Repr

namespace ControlCommand

def all : List ControlCommand := [.sync, .sectorCount, .sectorSize, .eraseSize]

def number : ControlCommand → UInt8
  | .sync => 0
  | .sectorCount => 1
  | .sectorSize => 2
  | .eraseSize => 3

def ofNumber (n : UInt8) : Except DiskError ControlCommand :=
  match all.find? (·.number == n) with
  | some c => .ok c
  | none => .error .parameter

/-- The bytes that an answer takes; a sync has none. -/
def width : ControlCommand → Nat
  | .sync => 0
  | .sectorSize => 2
  | .sectorCount | .eraseSize => 4

/-- The answer for a drive. Everything written is already on the drive, so a sync has nothing to
wait for; an erase block is one sector. -/
def answer (config : DriveConfig) : ControlCommand → UInt32
  | .sync => 0
  | .sectorCount => config.sectorCount
  | .sectorSize => UInt32.ofNat DiskStack.sectorSize
  | .eraseSize => 1

end ControlCommand

def controlDrive (drive : Option DriveConfig) (c : ControlCommand) : Except DiskError UInt32 :=
  match drive with
  | none => .error .parameter
  | some config => .ok (c.answer config)

/-- The command of a number and its answer, for a buffer with room for the answer. -/
def answerNumbered (drive : Option DriveConfig) (number : UInt8) (room : Nat) :
    Except DiskError (ControlCommand × UInt32) := do
  let c ← ControlCommand.ofNumber number
  let value ← controlDrive drive c
  if room < c.width then throw .parameter
  return (c, value)

/-- Answers a command by number into a buffer, which keeps its other bytes. -/
def ioctlDrive (drive : Option DriveConfig) (number : UInt8) (buffer : Bytes) :
    Except DiskError Unit × Bytes :=
  match answerNumbered drive number buffer.length with
  | .error e => (.error e, buffer)
  | .ok (c, value) => (.ok (), Bytes.splice buffer 0 (Bytes.littleEndian c.width value.toNat))

/-- The time stamp given to files: noon on the first of March 2024, packed as year since 1980,
month, day, hour, minute and half second. -/
def fileTime : UInt32 :=
  UInt32.ofNat ((2024 - 1980) <<< 25 ||| 3 <<< 21 ||| 1 <<< 16 ||| 12 <<< 11)

end DiskStack
