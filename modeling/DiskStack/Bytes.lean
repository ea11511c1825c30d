import DiskStack.Halt

/-!
# Byte strings

Buffers, blocks and sectors are lists of bytes. Shared memory stores words with the lowest byte
first.
-/

namespace DiskStack

abbrev Bytes := List UInt8

namespace Bytes

/-- The `length` bytes from `offset` on, as far as they exist. -/
def slice (bytes : Bytes) (offset length : Nat) : Bytes := (bytes.drop offset).take length

/-- `bytes` with the bytes from `offset` on replaced by `source`. -/
def splice (bytes : Bytes) (offset : Nat) (source : Bytes) : Bytes :=
  bytes.take offset ++ source ++ bytes.drop (offset + source.length)

/-- A slice that has to lie inside the bytes. -/
def sliceChecked (bytes : Bytes) (offset length : Nat) : Except Halt Bytes := do
  let stop ← Checked.add offset length
  if stop ≤ bytes.length then .ok (bytes.slice offset length)
  else .error (.sliceBounds stop bytes.length)

/-- Replaces the `length` bytes from `offset` on, which have to exist, by as many bytes. -/
def spliceChecked (bytes : Bytes) (offset length : Nat) (source : Bytes) : Except Halt Bytes := do
  let stop ← Checked.add offset length
  if bytes.length < stop then .error (.sliceBounds stop bytes.length)
  else if source.length ≠ length then .error (.copyLength source.length length)
  else .ok (bytes.splice offset source)

def filled (length : Nat) (byte : UInt8) : Except Halt Bytes := do
  return List.replicate (← Checked.capacity length) byte

/-- The `width` lowest bytes of a number, lowest first. -/
def littleEndian : (width value : Nat) → Bytes
  | 0, _ => []
  | width + 1, value => UInt8.ofNat value :: littleEndian width (value / 256)

/-- The number whose bytes are given, lowest first. -/
def toNat : Bytes → Nat
  | [] => 0
  | b :: rest => b.toNat + 256 * toNat rest

theorem length_splice {bytes source : Bytes} {offset : Nat}
    (h : offset + source.length ≤ bytes.length) :
    (bytes.splice offset source).length = bytes.length := by
  simp only [splice, List.length_append, List.length_take, List.length_drop]
  omega

theorem splice_zero {bytes source : Bytes} (h : bytes.length = source.length) :
    bytes.splice 0 source = source := by
  rw [splice, List.take_zero, List.nil_append, Nat.zero_add, ← h, List.drop_length, List.append_nil]

theorem slice_append_slice (bytes : Bytes) (offset length more : Nat) :
    bytes.slice offset length ++ bytes.slice (offset + length) more =
      bytes.slice offset (length + more) := by
  rw [slice, slice, slice, ← List.drop_drop, List.take_add]

@[simp] theorem length_littleEndian (width value : Nat) :
    (littleEndian width value).length = width := by
  induction width generalizing value with
  | zero => rfl
  | succ width ih => simp [littleEndian, ih]

theorem toNat_littleEndian (width value : Nat) :
    toNat (littleEndian width value) = value % Nat.pow 256 width := by
  induction width generalizing value with
  | zero => simp [littleEndian, toNat, Nat.mod_one]
  | succ width ih =>
    rw [littleEndian, toNat, ih, Nat.pow, Nat.mul_eq, Nat.mul_comm (Nat.pow 256 width) 256,
      Nat.mod_mul]
    simp

end Bytes

end DiskStack
