import DiskStack.Drive.Config

/-!
# Script buffers

The buffers that scripts transfer to and from. Memory not written yet holds a byte of its own, other
than zero, so that it can be told from what a transfer has put there.
-/

namespace DiskStack

def bufferFill : UInt8 := 0xee

/-- The byte that scratch blocks past the registry are filled with. -/
def scratchFill : UInt8 := 0xcc

inductive BufferSource
  | given (data : Bytes)
  | filled (length : Nat) (byte : UInt8)
  | fresh (length : Nat)
  /-- A fresh buffer as long as so many sectors. -/
  | sectors (count : Nat)

def freshBuffer (length : Nat) : Except Halt Bytes := Bytes.filled length bufferFill

def freshScratch (length : Nat) : Except Halt Bytes := Bytes.filled length scratchFill

def BufferSource.buffer : BufferSource → Except Halt Bytes
  | .given data => .ok data
  | .filled length byte => Bytes.filled length byte
  | .fresh length => freshBuffer length
  | .sectors count => do freshBuffer (← Checked.mul sectorSize count)

end DiskStack
