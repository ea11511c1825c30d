import DiskStack.Bytes

/-!
# Shared memory regions

The rings of a queue, the request headers and the status bytes lie in memory that a controller
reads and writes on its own. Each such region starts at a page and covers whole pages, all zero at
first; addresses are physical. Main statement: a store is seen by a load of the same bytes and by
no load that is disjoint from it.
-/

namespace DiskStack

def pageSize : Nat := 4096

/-- The length past which a region is not laid out: up to a page boundary it takes less than half of all
addresses. -/
def Region.limit : Nat := wordLimit / 2 - pageSize

structure Region where
  base : UInt64
  bytes : Array UInt8
  /-- The number of bytes that have been stored past the end, which nothing stops. -/
  strays : Nat := 0

namespace Region

def zeroed (base : UInt64) (length : Nat) : Region where
  base
  bytes := Array.replicate length 0

/-- A size in whole pages; no size takes less than one page. -/
def roundUp (size : Nat) : Nat := (max size 1 + pageSize - 1) / pageSize * pageSize

def roundUpChecked (size : Nat) : Except Halt Nat :=
  Checked.mul ((max size 1 + pageSize - 1) / pageSize) pageSize

def size (r : Region) : Nat := r.bytes.size

def addressOf (r : Region) (offset : Nat) : Except Halt UInt64 :=
  if offset < r.size then .ok (r.base + UInt64.ofNat offset) else .error .regionOffset

def byte (r : Region) (offset : Nat) : UInt8 := r.bytes.getD offset 0

def load (r : Region) (offset width : Nat) : Bytes :=
  (List.range width).map fun i => r.byte (offset + i)

def storeByte (r : Region) (offset : Nat) (b : UInt8) : Region :=
  { r with
    bytes := r.bytes.setIfInBounds offset b
    strays := if offset < r.size then r.strays else r.strays + 1 }

def store (r : Region) (offset : Nat) : Bytes → Region
  | [] => r
  | b :: rest => (r.storeByte offset b).store (offset + 1) rest

def load16 (r : Region) (offset : Nat) : UInt16 := UInt16.ofNat (r.load offset 2).toNat

def store16 (r : Region) (offset : Nat) (v : UInt16) : Region :=
  r.store offset (Bytes.littleEndian 2 v.toNat)

def load32 (r : Region) (offset : Nat) : UInt32 := UInt32.ofNat (r.load offset 4).toNat

def store32 (r : Region) (offset : Nat) (v : UInt32) : Region :=
  r.store offset (Bytes.littleEndian 4 v.toNat)

def load64 (r : Region) (offset : Nat) : UInt64 := UInt64.ofNat (r.load offset 8).toNat

def store64 (r : Region) (offset : Nat) (v : UInt64) : Region :=
  r.store offset (Bytes.littleEndian 8 v.toNat)

/-- The offset at which an address falls into the region. -/
def offsetOf? (r : Region) (address : UInt64) : Option Nat :=
  if r.base ≤ address ∧ address.toNat < r.base.toNat + r.size then
    some (address.toNat - r.base.toNat)
  else none

@[simp] theorem base_storeByte (r : Region) (offset : Nat) (b : UInt8) :
    (r.storeByte offset b).base = r.base := rfl

@[simp] theorem size_storeByte (r : Region) (offset : Nat) (b : UInt8) :
    (r.storeByte offset b).size = r.size := by
  simp [size, storeByte]

theorem strays_storeByte {r : Region} {offset : Nat} (h : offset < r.size) (b : UInt8) :
    (r.storeByte offset b).strays = r.strays := if_pos h

theorem byte_storeByte (r : Region) (offset i : Nat) (b : UInt8) :
    (r.storeByte offset b).byte i = if i = offset ∧ i < r.size then b else r.byte i := by
  simp only [byte, storeByte, size, Array.getD_eq_getD_getElem?, Array.getElem?_setIfInBounds]
  by_cases h : offset = i
  · subst h
    by_cases hi : offset < r.bytes.size <;> simp [hi]
  · simp [h, Ne.symm h]

@[simp] theorem base_store (r : Region) (offset : Nat) (bytes : Bytes) :
    (r.store offset bytes).base = r.base := by
  induction bytes generalizing r offset with
  | nil => rfl
  | cons b rest ih => rw [store, ih, base_storeByte]

@[simp] theorem size_store (r : Region) (offset : Nat) (bytes : Bytes) :
    (r.store offset bytes).size = r.size := by
  induction bytes generalizing r offset with
  | nil => rfl
  | cons b rest ih => rw [store, ih, size_storeByte]

theorem strays_store {r : Region} {offset : Nat} {bytes : Bytes} (h : offset + bytes.length ≤ r.size) :
    (r.store offset bytes).strays = r.strays := by
  induction bytes generalizing r offset with
  | nil => rfl
  | cons b rest ih =>
    rw [List.length_cons] at h
    rw [store, ih (by rw [size_storeByte]; omega), strays_storeByte (by omega)]

theorem byte_store (r : Region) (offset i : Nat) (bytes : Bytes) :
    (r.store offset bytes).byte i =
      if offset ≤ i ∧ i < offset + bytes.length ∧ i < r.size then bytes.getD (i - offset) 0
      else r.byte i := by
  induction bytes generalizing r offset with
  | nil =>
    have : ¬(offset ≤ i ∧ i < offset + ([] : Bytes).length ∧ i < r.size) := by
      simp only [List.length_nil]; omega
    rw [if_neg this, store]
  | cons b rest ih =>
    have hlen : (b :: rest : Bytes).length = rest.length + 1 := rfl
    rw [store, ih, byte_storeByte, size_storeByte, hlen]
    by_cases hi : i = offset
    · subst hi
      rw [if_neg (by omega)]
      by_cases hs : i < r.size
      · rw [if_pos ⟨rfl, hs⟩, if_pos (by omega)]
        simp
      · rw [if_neg (by omega), if_neg (by omega)]
    · by_cases hr : offset + 1 ≤ i ∧ i < offset + 1 + rest.length ∧ i < r.size
      · rw [if_pos hr, if_pos (by omega), show i - offset = i - (offset + 1) + 1 by omega,
          List.getD_cons_succ]
      · rw [if_neg hr, if_neg (by omega), if_neg (by omega)]

theorem load_store_same (r : Region) (offset : Nat) (bytes : Bytes)
    (h : offset + bytes.length ≤ r.size) :
    (r.store offset bytes).load offset bytes.length = bytes := by
  apply List.ext_getElem
  · simp [load]
  · intro i h₁ h₂
    simp only [load, List.getElem_map, List.getElem_range, byte_store]
    rw [if_pos (by omega), show offset + i - offset = i by omega]
    simp [h₂]

theorem load_store_disjoint (r : Region) (offset start width : Nat) (bytes : Bytes)
    (h : start + width ≤ offset ∨ offset + bytes.length ≤ start) :
    (r.store offset bytes).load start width = r.load start width := by
  apply List.map_congr_left
  intro i hi
  rw [byte_store, if_neg]
  have := List.mem_range.1 hi
  omega

theorem store_singleton (r : Region) (offset : Nat) (b : UInt8) :
    r.store offset [b] = r.storeByte offset b := by
  rw [store, store]

-- from here on a store is known by the bytes it leaves, and never unfolded
attribute [irreducible] store

end Region

/-- Where memory for regions comes from. -/
class Allocator where
  /-- The first of so many zeroed pages, asked for when a number of pages have been asked for before. It
  may be any page, and there may be none. -/
  grant (asked count : Nat) : Option Nat

/-- Hands out one page after the other, and nothing to those who ask for a gigabyte. -/
instance : Allocator where
  grant asked count := if count * pageSize ≤ 0x40000000 then some asked else none

/-- The number of the pages that have been asked for, with the allocator that they come from. Buffers lie
at that number. -/
structure Arena where
  next : Nat
  [allocator : Allocator]

namespace Arena

/-- Takes enough pages for `size` bytes and gives the address of the first. -/
def reserve (a : Arena) (size : Nat) : UInt64 × Arena :=
  (UInt64.ofNat (a.next * pageSize), { a with next := a.next + Region.roundUp size / pageSize })

/-- A region for `size` bytes, if they can be laid out and the allocator has the pages for it. -/
def zeroed (a : Arena) (size : Nat) : Option (Region × Arena) :=
  let length := Region.roundUp size
  if length ≤ Region.limit then
    (a.allocator.grant a.next (length / pageSize)).map fun page =>
      (.zeroed (UInt64.ofNat (page * pageSize)) length,
        { a with next := a.next + length / pageSize })
  else none

end Arena

end DiskStack
