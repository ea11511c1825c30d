import DiskStack.Task.Program
import DiskStack.Sector.Transfer

/-!
# Disk operations

The reading and writing of sectors on a numbered drive. A call checks the drive and the buffer, and
then keeps the drive's scratch block locked for the whole transfer, so that two calls never work on
parts of one block at a time.
-/

namespace DiskStack

/-- How a disk operation ended, with the buffer as it then was. -/
structure DiskOutcome where
  result : Except DiskError Unit
  buffer : Bytes

namespace DiskOutcome

def refuse (e : DiskError) (buffer : Bytes) : DiskOutcome := ⟨.error e, buffer⟩

def ofSectors (o : SectorOutcome) : DiskOutcome :=
  ⟨o.result.mapError BlockError.toDiskError, o.buffer⟩

end DiskOutcome

/-- Whether a buffer is shorter than `count` sectors; the product saturates. -/
def isShort (buffer : Bytes) (count : Nat) : Bool :=
  buffer.length < min (count * sectorSize) (wordLimit - 1)

def withScratch (bay : BayId) (transfer : Bytes → BlockProgram SectorOutcome) :
    Program DiskOutcome := do
  let scratch ← Program.lockScratch bay
  let outcome ← Program.ofBlocks bay (transfer scratch)
  Program.unlockScratch bay outcome.scratch
  return .ofSectors outcome

/-- Reads `count` sectors of a drive, if there is such a drive. -/
def readDrive (drive : Option (BayId × DriveConfig)) (buffer : Bytes) (sector count : Nat) :
    Program DiskOutcome := do
  let some (bay, config) := drive | return .refuse .parameter buffer
  let state ← Program.inspectDrive bay
  if !state.isReady then return .refuse .notReady buffer
  if isShort buffer count then return .refuse .parameter buffer
  withScratch bay (readSectors config.blockSize buffer sector count)

/-- Writes `count` sectors of a drive, if there is such a drive and its media are not protected. -/
def writeDrive (drive : Option (BayId × DriveConfig)) (buffer : Bytes) (sector count : Nat) :
    Program DiskOutcome := do
  let some (bay, config) := drive | return .refuse .parameter buffer
  let state ← Program.inspectDrive bay
  if !state.isReady then return .refuse .notReady buffer
  let state ← Program.inspectDrive bay
  if state.isReadOnly then return .refuse .writeProtected buffer
  if isShort buffer count then return .refuse .parameter buffer
  withScratch bay (writeSectors config.blockSize buffer sector count)

end DiskStack
