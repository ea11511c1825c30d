import DiskStack.Region
import DiskStack.Queue.Pool

/-!
# Drive configuration

A filesystem counts in sectors of 512 bytes; a drive transfers native blocks of a configured size.
A configuration is valid when blocks are whole sectors within a page and the queue holds at least
one request of three descriptors.
-/

namespace DiskStack

def sectorSize : Nat := 512

/-- The descriptors of one request: header, data and status. -/
def descriptorsPerRequest : Nat := 3

structure DriveConfig where
  blockSize : Nat := 1024
  queueSize : UInt16 := 8
  sectorCount : UInt32 := 16384
  deriving DecidableEq, Repr

namespace DriveConfig

def sectorsPerBlock (c : DriveConfig) : Nat := c.blockSize / sectorSize

def isValid (c : DriveConfig) : Bool :=
  sectorSize ≤ c.blockSize && c.blockSize % sectorSize == 0 && c.blockSize ≤ pageSize &&
    descriptorsPerRequest ≤ c.queueSize.toNat && c.queueSize ≤ maxQueueSize

end DriveConfig

end DiskStack
