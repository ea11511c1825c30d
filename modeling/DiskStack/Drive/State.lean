import DiskStack.Drive.Config
import DiskStack.Drive.Rings

/-!
# Drive state

A drive is uninitialised until its controller has been brought up, and from then on either ready or,
for good, incompatible. Only a ready drive has rings, so that every request it accepts finds them.
The checks of a submission and its publication are here; waiting for descriptors and for the
completion is the caller's part.
-/

namespace DiskStack

structure ReadyState where
  rings : Rings
  features : Features
  readOnly : Bool
  capacity : UInt64
  nextTicket : UInt64

inductive DriveState
  | uninitialized
  | incompatible
  | ready (s : ReadyState)

namespace DriveState

def ready? : DriveState → Option ReadyState
  | .ready s => some s
  | _ => none

def isReady (s : DriveState) : Bool := s.ready?.isSome

def render : DriveState → String
  | .uninitialized => "Uninitialized"
  | .incompatible => "Incompatible"
  | .ready _ => "Ready"

def capacity (s : DriveState) : UInt64 := (s.ready?.map (·.capacity)).getD 0

def features (s : DriveState) : Features := (s.ready?.map (·.features)).getD 0

def isReadOnly (s : DriveState) : Bool := (s.ready?.map (·.readOnly)).getD false

def freeDescriptors (s : DriveState) : Nat :=
  (s.ready?.map (·.rings.queue.pool.numFree)).getD 0

end DriveState

/-- Finished requests of each direction and collected completions, modulo 2^64. -/
structure DriveStats where
  reads : UInt64 := 0
  writes : UInt64 := 0
  completions : UInt64 := 0
  deriving DecidableEq, Repr

namespace DriveStats

def countRequest (s : DriveStats) (write : Bool) : DriveStats :=
  if write then { s with writes := s.writes + 1 } else { s with reads := s.reads + 1 }

def countCompletion (s : DriveStats) : DriveStats := { s with completions := s.completions + 1 }

end DriveStats

namespace DriveConfig

/-- The first sector of a block, for a buffer of exactly one block. -/
def firstSector (c : DriveConfig) (block length : Nat) : Except BlockError Nat :=
  if length ≠ c.blockSize then .error .invalidBufferSize
  else if block * c.sectorsPerBlock < wordLimit then .ok (block * c.sectorsPerBlock)
  else .error .invalidBlock

end DriveConfig

namespace DriveState

/-- Whether a ready drive holds the sectors of one block from `sector` on. The sum saturates. -/
def checkSectors (s : DriveState) (sector sectorsPerBlock : Nat) :
    Except BlockError ReadyState :=
  match s with
  | .ready r =>
    if r.capacity.toNat < min (sector + sectorsPerBlock) (wordLimit - 1) then
      .error .invalidBlock
    else .ok r
  | _ => .error .notReady

end DriveState

namespace ReadyState

/-- Takes three descriptors and publishes a request under the next ticket; without three free
descriptors nothing happens. -/
def publish? (s : ReadyState) (request : RequestId) (write : Bool) (sector : Nat)
    (address : UInt64) (length : Nat) : Except Halt (Option (Submission × Chain × ReadyState)) := do
  match ← s.rings.reserve with
  | none => return none
  | some (chain, rings) =>
    let submission : Submission := ⟨request, s.nextTicket, write, sector, address, length⟩
    let rings ← rings.publish chain submission
    return some (submission, chain, { s with rings, nextTicket := s.nextTicket + 1 })

end ReadyState

end DiskStack
