import DiskStack.Region

/-!
# Words in shared memory

A word that is stored is loaded again from the same place, and a store leaves every word alone that
it does not overlap. Loads look at bytes only, so a disjoint store of any width does.
-/

namespace DiskStack

namespace Region

variable {r : Region} {offset place : Nat}

private theorem ofNat_toNat_littleEndian {width value : Nat} (h : value < Nat.pow 256 width) :
    Bytes.toNat (Bytes.littleEndian width value) = value := by
  rw [Bytes.toNat_littleEndian, Nat.mod_eq_of_lt h]

theorem load16_store16_same (v : UInt16) (h : offset + 2 ≤ r.size) :
    (r.store16 offset v).load16 offset = v := by
  have stored := load_store_same r offset (Bytes.littleEndian 2 v.toNat) (by simpa using h)
  rw [Bytes.length_littleEndian] at stored
  rw [load16, store16, stored, ofNat_toNat_littleEndian v.toNat_lt, UInt16.ofNat_toNat]

theorem load32_store32_same (v : UInt32) (h : offset + 4 ≤ r.size) :
    (r.store32 offset v).load32 offset = v := by
  have stored := load_store_same r offset (Bytes.littleEndian 4 v.toNat) (by simpa using h)
  rw [Bytes.length_littleEndian] at stored
  rw [load32, store32, stored, ofNat_toNat_littleEndian v.toNat_lt, UInt32.ofNat_toNat]

private theorem load16_store_disjoint (bytes : Bytes)
    (h : place + 2 ≤ offset ∨ offset + bytes.length ≤ place) :
    (r.store offset bytes).load16 place = r.load16 place := by
  rw [load16, load_store_disjoint _ _ _ _ _ h, load16]

private theorem load32_store_disjoint (bytes : Bytes)
    (h : place + 4 ≤ offset ∨ offset + bytes.length ≤ place) :
    (r.store offset bytes).load32 place = r.load32 place := by
  rw [load32, load_store_disjoint _ _ _ _ _ h, load32]

theorem load16_store16_disjoint (v : UInt16) (h : place + 2 ≤ offset ∨ offset + 2 ≤ place) :
    (r.store16 offset v).load16 place = r.load16 place :=
  load16_store_disjoint _ (by simpa using h)

theorem load16_store32_disjoint (v : UInt32) (h : place + 2 ≤ offset ∨ offset + 4 ≤ place) :
    (r.store32 offset v).load16 place = r.load16 place :=
  load16_store_disjoint _ (by simpa using h)

theorem load32_store16_disjoint (v : UInt16) (h : place + 4 ≤ offset ∨ offset + 2 ≤ place) :
    (r.store16 offset v).load32 place = r.load32 place :=
  load32_store_disjoint _ (by simpa using h)

theorem load32_store32_disjoint (v : UInt32) (h : place + 4 ≤ offset ∨ offset + 4 ≤ place) :
    (r.store32 offset v).load32 place = r.load32 place :=
  load32_store_disjoint _ (by simpa using h)

@[simp] theorem size_store16 (v : UInt16) : (r.store16 offset v).size = r.size := size_store _ _ _

@[simp] theorem size_store32 (v : UInt32) : (r.store32 offset v).size = r.size := size_store _ _ _

theorem offsetOf?_base_add (h : offset < r.size) (hr : r.base.toNat + r.size ≤ wordLimit) :
    r.offsetOf? (r.base + UInt64.ofNat offset) = some offset := by
  have hlimit : wordLimit = 18446744073709551616 := rfl
  have hbase := r.base.toNat_lt
  have hsum : (r.base + UInt64.ofNat offset).toNat = r.base.toNat + offset := by
    rw [UInt64.toNat_add, UInt64.toNat_ofNat']
    omega
  have hle : r.base ≤ r.base + UInt64.ofNat offset := UInt64.le_iff_toNat_le.2 (by omega)
  rw [offsetOf?, if_pos ⟨hle, by omega⟩, hsum, Nat.add_sub_cancel_left]

end Region

end DiskStack
