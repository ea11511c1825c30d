import DiskStack.Region

/-!
# Available ring

The driver offers chain heads to the controller in a ring of 16-bit entries. The ring index counts
all offers and wraps at 2^16; an entry lies at the index modulo the ring size and is written before
the index moves past it.
-/

namespace DiskStack

structure AvailRing where
  region : Region
  size : UInt16

namespace AvailRing

def flagsOffset : Nat := 0
def indexOffset : Nat := 2
def ringOffset : Nat := 4

/-- An empty ring: a header of four bytes, the entries, and a trailing event word. -/
def ofSize (size : UInt16) (arena : Arena) : Except InitError (AvailRing × Arena) :=
  match arena.zeroed (ringOffset + 2 * size.toNat + 2) with
  | none => .error .outOfMemory
  | some (region, rest) => .ok (⟨region, size⟩, rest)

def index (r : AvailRing) : UInt16 := r.region.load16 indexOffset

def entryOffset (size i : UInt16) : Nat := ringOffset + 2 * (i % size).toNat

def push (r : AvailRing) (head : UInt16) : Except Halt AvailRing :=
  if r.size = 0 then .error .remainderByZero
  else
    let i := r.index
    let entered := r.region.store16 (entryOffset r.size i) head
    .ok { r with region := entered.store16 indexOffset (i + 1) }

end AvailRing

end DiskStack
