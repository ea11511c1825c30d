import DiskStack.Bytes
import DiskStack.Drive.Config

/-!
# Spans

A range of sectors is transferred block by block. A span is the part of the range that lies in one
native block: from the first sector of the range up to the end of its block or of the range.
-/

namespace DiskStack

/-- Consecutive sectors of one block; offset and length are in bytes. -/
structure Span where
  block : Nat
  offset : Nat
  length : Nat
  deriving DecidableEq, Repr

/-- The first span of `remaining` sectors from `sector` on. -/
def Span.first (sector remaining sectorsPerBlock : Nat) : Except Halt Span := do
  let block ← Checked.div sector sectorsPerBlock
  let skipped ← Checked.rem sector sectorsPerBlock
  let count := min (← Checked.sub sectorsPerBlock skipped) remaining
  let offset ← Checked.mul skipped sectorSize
  let length ← Checked.mul count sectorSize
  return ⟨block, offset, length⟩

/-- The sectors of a block, for a buffer that holds `count` sectors and one block of scratch. -/
def checkBuffers (blockSize bufferLength count scratchLength : Nat) : Except BlockError Nat :=
  if blockSize < sectorSize ∨ blockSize % sectorSize ≠ 0 then .error .invalidBufferSize
  else if wordLimit ≤ count * sectorSize then .error .invalidBufferSize
  else if bufferLength < count * sectorSize ∨ scratchLength ≠ blockSize then
    .error .invalidBufferSize
  else .ok (blockSize / sectorSize)

end DiskStack
