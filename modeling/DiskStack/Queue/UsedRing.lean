import DiskStack.Region

/-!
# Used ring

The controller reports finished chains in a ring of eight-byte elements: the chain head and the
number of bytes it wrote. The driver keeps a cursor of its own and reads on while it differs from
the controller's index; both count modulo 2^16.
-/

namespace DiskStack

structure UsedElement where
  id : UInt32
  length : UInt32
  deriving DecidableEq, Repr

structure UsedRing where
  region : Region
  size : UInt16
  lastSeen : UInt16

namespace UsedRing

def flagsOffset : Nat := 0
def indexOffset : Nat := 2
def ringOffset : Nat := 4

def elementWidth : Nat := 8

def ofSize (size : UInt16) (arena : Arena) : Except InitError (UsedRing × Arena) :=
  match arena.zeroed (ringOffset + elementWidth * size.toNat + 2) with
  | none => .error .outOfMemory
  | some (region, rest) => .ok (⟨region, size, 0⟩, rest)

def deviceIndex (r : UsedRing) : UInt16 := r.region.load16 indexOffset

def elementOffset (size i : UInt16) : Nat := ringOffset + elementWidth * (i % size).toNat

def element (r : UsedRing) (offset : Nat) : UsedElement :=
  ⟨r.region.load32 offset, r.region.load32 (offset + 4)⟩

/-- The number of elements between the cursor and the controller's index. -/
def backlog (r : UsedRing) : Nat := (r.deviceIndex - r.lastSeen).toNat

/-- Whether the cursor has caught up with the controller's index. -/
def isDrained (r : UsedRing) : Bool := r.lastSeen == r.deviceIndex

/-- Reads the element under the cursor and moves the cursor past it. -/
def take (r : UsedRing) : Except Halt (UsedElement × UsedRing) :=
  if r.size = 0 then .error .remainderByZero
  else
    .ok (r.element (elementOffset r.size r.lastSeen), { r with lastSeen := r.lastSeen + 1 })

/-- Takes the next element, if the controller has moved past it. -/
def pop (r : UsedRing) : Except Halt (Option (UsedElement × UsedRing)) :=
  if r.isDrained then .ok none else some <$> r.take

end UsedRing

end DiskStack
