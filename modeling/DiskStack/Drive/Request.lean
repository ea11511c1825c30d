import DiskStack.Bytes

/-!
# Block requests

A request asks for one native block to be read into, or written from, a buffer of its caller. The
request is pending from its publication until the completion interrupt has seen it finished.
-/

namespace DiskStack

structure BlockRequest where
  block : Nat
  write : Bool
  data : Bytes
  /-- The physical address of the buffer, at which the controller finds it. -/
  address : UInt64
  pending : Bool
  deriving DecidableEq, Repr

namespace BlockRequest

def fresh (block : Nat) (write : Bool) (data : Bytes) (address : UInt64) : BlockRequest :=
  ⟨block, write, data, address, false⟩

def length (r : BlockRequest) : Nat := r.data.length

def isEmpty (r : BlockRequest) : Bool := r.data.isEmpty

end BlockRequest

/-- Names a request while its call is in progress; a name is never used again. -/
abbrev RequestId := Nat

/-- The request header that a controller reads: sixteen bytes. -/
structure RequestHeader where
  kind : UInt32
  reserved : UInt32
  sector : UInt64
  deriving DecidableEq, Repr

namespace RequestHeader

def width : Nat := 16

def kindRead : UInt32 := 0

def kindWrite : UInt32 := 1

def encode (h : RequestHeader) : Bytes :=
  Bytes.littleEndian 4 h.kind.toNat ++ Bytes.littleEndian 4 h.reserved.toNat ++
    Bytes.littleEndian 8 h.sector.toNat

def decode (bytes : Bytes) : RequestHeader where
  kind := UInt32.ofNat (bytes.slice 0 4).toNat
  reserved := UInt32.ofNat (bytes.slice 4 4).toNat
  sector := UInt64.ofNat (bytes.slice 8 8).toNat

theorem length_encode (h : RequestHeader) : h.encode.length = width := by
  simp [encode, width]

theorem decode_encode (h : RequestHeader) : decode h.encode = h := by
  have h₁ : h.encode.slice 0 4 = Bytes.littleEndian 4 h.kind.toNat := by
    simp [encode, Bytes.slice, Bytes.littleEndian]
  have h₂ : h.encode.slice 4 4 = Bytes.littleEndian 4 h.reserved.toNat := by
    simp [encode, Bytes.slice, Bytes.littleEndian]
  have h₃ : h.encode.slice 8 8 = Bytes.littleEndian 8 h.sector.toNat := by
    simp [encode, Bytes.slice, Bytes.littleEndian]
  have hk := h.kind.toNat_lt
  have hr := h.reserved.toNat_lt
  have hs := h.sector.toNat_lt
  cases h
  simp_all [decode, Bytes.toNat_littleEndian, Nat.mod_eq_of_lt]

end RequestHeader

namespace RequestStatus

/-- The status byte of a request that succeeded; the failures follow. -/
def ok : UInt8 := 0
def ioError : UInt8 := 1
def unsupported : UInt8 := 2

/-- What the driver presets; a controller that finishes a request overwrites it. -/
def pending : UInt8 := 0xff

end RequestStatus

end DiskStack
