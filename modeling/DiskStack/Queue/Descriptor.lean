import DiskStack.Bytes
import DiskStack.Flags

/-!
# Descriptors

A descriptor names one buffer of a request and, when its `next` flag is set, the descriptor that
follows it in the chain. In shared memory it takes sixteen bytes.
-/

namespace DiskStack

structure Descriptor where
  address : UInt64
  length : UInt32
  flags : DescriptorFlags
  next : UInt16
  deriving DecidableEq, Repr

namespace Descriptor

def empty : Descriptor := ⟨0, 0, 0, 0⟩

def hasNext (d : Descriptor) : Bool := d.flags &&& DescriptorFlags.next != 0

def width : Nat := 16

def encode (d : Descriptor) : Bytes :=
  Bytes.littleEndian 8 d.address.toNat ++ Bytes.littleEndian 4 d.length.toNat ++
    Bytes.littleEndian 2 d.flags.toNat ++ Bytes.littleEndian 2 d.next.toNat

def decode (bytes : Bytes) : Descriptor where
  address := UInt64.ofNat (bytes.slice 0 8).toNat
  length := UInt32.ofNat (bytes.slice 8 4).toNat
  flags := UInt16.ofNat (bytes.slice 12 2).toNat
  next := UInt16.ofNat (bytes.slice 14 2).toNat

theorem length_encode (d : Descriptor) : d.encode.length = width := by
  simp [encode, width]

theorem decode_encode (d : Descriptor) : decode d.encode = d := by
  have h₁ : d.encode.slice 0 8 = Bytes.littleEndian 8 d.address.toNat := by
    simp [encode, Bytes.slice, Bytes.littleEndian]
  have h₂ : d.encode.slice 8 4 = Bytes.littleEndian 4 d.length.toNat := by
    simp [encode, Bytes.slice, Bytes.littleEndian]
  have h₃ : d.encode.slice 12 2 = Bytes.littleEndian 2 d.flags.toNat := by
    simp [encode, Bytes.slice, Bytes.littleEndian]
  have h₄ : d.encode.slice 14 2 = Bytes.littleEndian 2 d.next.toNat := by
    simp [encode, Bytes.slice, Bytes.littleEndian]
  have ha := d.address.toNat_lt
  have hl := d.length.toNat_lt
  have hf := d.flags.toNat_lt
  have hn := d.next.toNat_lt
  cases d
  simp_all [decode, Bytes.toNat_littleEndian, Nat.mod_eq_of_lt]

end Descriptor

end DiskStack
