import DiskStack.Block.Program
import DiskStack.Sector.Span

/-!
# Sector transfers

Reading and writing ranges of 512-byte sectors on a disk of native blocks. A whole block is read
straight into the buffer, a part of one by way of the scratch block; a whole block is written from
the scratch block alone, a part of one after the block has been read into it. The first refused
access ends a transfer, and nothing that was written is taken back.
-/

namespace DiskStack

/-- How a transfer ended, with both buffers as they then were. -/
structure SectorOutcome where
  result : Except BlockError Unit
  buffer : Bytes
  scratch : Bytes

/-- A transfer under way. The buffer is held in two parts: the spans already transferred, latest
first, and what follows them. -/
structure SectorProgress where
  sector : Nat
  remaining : Nat
  position : Nat
  passed : List Bytes
  rest : Bytes
  scratch : Bytes

namespace SectorProgress

def start (sector count : Nat) (buffer scratch : Bytes) : SectorProgress :=
  ⟨sector, count, 0, [], buffer, scratch⟩

def buffer (p : SectorProgress) : Bytes := p.passed.reverse.flatten ++ p.rest

def finish (p : SectorProgress) (result : Except BlockError Unit) : SectorOutcome :=
  ⟨result, p.buffer, p.scratch⟩

/-- The next `length` bytes of the buffer, which have to exist. -/
def next (p : SectorProgress) (length : Nat) : Except Halt Bytes := do
  let stop ← Checked.add p.position length
  let part := p.rest.take length
  if part.length = length then .ok part
  else .error (.sliceBounds stop (p.position + p.rest.length))

def put (p : SectorProgress) (data : Bytes) : SectorProgress :=
  { p with rest := data ++ p.rest.drop data.length }

def advance (p : SectorProgress) (s : Span) : Except Halt SectorProgress := do
  let count ← Checked.div s.length sectorSize
  let sector ← Checked.add p.sector count
  let remaining ← Checked.sub p.remaining count
  let position ← Checked.add p.position s.length
  let passed := p.rest.take s.length :: p.passed
  return ⟨sector, remaining, position, passed, p.rest.drop s.length, p.scratch⟩

/-- Reads one span, either straight into the buffer or through the scratch block. -/
def readSpan (blockSize : Nat) (p : SectorProgress) (s : Span) :
    BlockProgram (Except BlockError Unit × SectorProgress) := do
  if s.length = blockSize then
    let target ← .ofChecked (p.next blockSize)
    let reply ← .transfer ⟨s.block, false, target⟩
    return (reply.result, p.put reply.data)
  else
    let reply ← .transfer ⟨s.block, false, p.scratch⟩
    let p := { p with scratch := reply.data }
    match reply.result with
    | .error e => return (.error e, p)
    | .ok () =>
      let _ ← .ofChecked (p.next s.length)
      let part ← .ofChecked (p.scratch.sliceChecked s.offset s.length)
      return (.ok (), p.put part)

/-- Writes the scratch block after the span has been copied into it. -/
def flushSpan (p : SectorProgress) (s : Span) :
    BlockProgram (Except BlockError Unit × SectorProgress) := do
  let part ← .ofChecked (p.next s.length)
  let staged ← .ofChecked (p.scratch.spliceChecked s.offset s.length part)
  let reply ← .transfer ⟨s.block, true, staged⟩
  return (reply.result, { p with scratch := reply.data })

/-- Writes one span; a part of a block keeps the rest of the block. -/
def writeSpan (blockSize : Nat) (p : SectorProgress) (s : Span) :
    BlockProgram (Except BlockError Unit × SectorProgress) := do
  if s.length = blockSize then p.flushSpan s
  else
    let reply ← .transfer ⟨s.block, false, p.scratch⟩
    let p := { p with scratch := reply.data }
    match reply.result with
    | .error e => return (.error e, p)
    | .ok () => p.flushSpan s

/-- Transfers span by span, at most `bound` of them; every span takes at least one sector. -/
def transferSpans (step : SectorProgress → Span → BlockProgram (Except BlockError Unit × SectorProgress))
    (sectorsPerBlock : Nat) : (bound : Nat) → SectorProgress → BlockProgram SectorOutcome
  | 0, p => return p.finish (.ok ())
  | bound + 1, p => do
    if p.remaining = 0 then return p.finish (.ok ())
    let span ← .ofChecked (Span.first p.sector p.remaining sectorsPerBlock)
    let (result, p) ← step p span
    match result with
    | .error e => return p.finish (.error e)
    | .ok () =>
      let p ← .ofChecked (p.advance span)
      transferSpans step sectorsPerBlock bound p

end SectorProgress

def readSectors (blockSize : Nat) (buffer : Bytes) (start count : Nat) (scratch : Bytes) :
    BlockProgram SectorOutcome :=
  match checkBuffers blockSize buffer.length count scratch.length with
  | .error e => .done ⟨.error e, buffer, scratch⟩
  | .ok sectorsPerBlock =>
    SectorProgress.transferSpans (SectorProgress.readSpan blockSize) sectorsPerBlock count
      (.start start count buffer scratch)

/-- Writes the first `count` sectors of the buffer from `start` on. -/
def writeSectors (blockSize : Nat) (buffer : Bytes) (start count : Nat) (scratch : Bytes) :
    BlockProgram SectorOutcome :=
  match checkBuffers blockSize buffer.length count scratch.length with
  | .error e => .done ⟨.error e, buffer, scratch⟩
  | .ok sectorsPerBlock =>
    SectorProgress.transferSpans (SectorProgress.writeSpan blockSize) sectorsPerBlock count
      (.start start count buffer scratch)

end DiskStack
