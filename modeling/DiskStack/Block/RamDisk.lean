import Std.Data.HashMap
import DiskStack.Block.Program

/-!
# Disk in memory

A disk of zero blocks, of which only those written since take memory. It can be told to fail from
some block on or at one access, and it records the accesses it was given. A bottomless disk has
every block: reading one gives its number in every byte, and writes are dropped. Main statement: a
block that is stored is found in its place, and every other block stays.
-/

namespace DiskStack

/-- The first `count` pieces of `size` bytes each, as far as the bytes go. -/
def Bytes.pieces (size : Nat) : (count : Nat) → Bytes → List Bytes
  | 0, _ => []
  | count + 1, bytes => bytes.take size :: pieces size count (bytes.drop size)

structure RamDisk where
  blockSize : Nat
  blockCount : Nat
  written : Std.HashMap Nat Bytes := ∅
  failFrom : Option Nat := none
  failNth : Option Nat := none
  error : BlockError := .ioError
  bottomless : Bool := false
  /-- The accesses so far, a buffer of the wrong length included. -/
  count : Nat := 0
  /-- The accesses with a buffer of one block, latest first. -/
  submitted : List BlockAccess := []

namespace RamDisk

def zeroed (blockSize blockCount : Nat) : Except Halt RamDisk := do
  let _ ← Checked.capacity (← Checked.mul blockSize blockCount)
  return { blockSize, blockCount }

def size (d : RamDisk) : Nat := d.blockCount * d.blockSize

def block (d : RamDisk) (i : Nat) : Bytes :=
  match d.written[i]? with
  | some data => data
  | none => List.replicate d.blockSize 0

def store (d : RamDisk) (i : Nat) (data : Bytes) : RamDisk :=
  { d with written := d.written.insert i data }

theorem block_store (d : RamDisk) (i j : Nat) (data : Bytes) :
    (d.store i data).block j = if j = i then data else d.block j := by
  by_cases h : j = i
  · simp [block, store, h]
  · simp [block, store, h, Std.HashMap.getElem?_insert, Ne.symm h]

def read (d : RamDisk) (first count : Nat) : Bytes :=
  (List.range count).flatMap fun i => d.block (first + i)

def image (d : RamDisk) : Bytes := d.read 0 d.blockCount

def fails (d : RamDisk) (block : Nat) : Bool :=
  d.failFrom.any (· ≤ block) || d.failNth == some d.count

/-- One access; a refused one changes neither the blocks nor the buffer. -/
def submit (a : BlockAccess) (d : RamDisk) : BlockReply × RamDisk :=
  let counted := { d with count := d.count + 1 }
  if a.data.length ≠ d.blockSize then (⟨.error .invalidBufferSize, a.data⟩, counted)
  else
    let listed := { counted with submitted := a :: d.submitted }
    if !d.bottomless && d.blockCount ≤ a.block then (⟨.error .invalidBlock, a.data⟩, listed)
    else if d.fails a.block then (⟨.error d.error, a.data⟩, listed)
    else if d.bottomless then
      let data := if a.write then a.data else List.replicate a.data.length (UInt8.ofNat a.block)
      (⟨.ok (), data⟩, listed)
    else if a.write then (⟨.ok (), a.data⟩, listed.store a.block a.data)
    else (⟨.ok (), d.block a.block⟩, listed)

/-- Sets bytes of the image directly; they have to lie inside it. -/
def fill (d : RamDisk) (offset : Nat) (data : Bytes) : Except Halt RamDisk := do
  let stop ← Checked.add offset data.length
  if d.size < stop then .error (.sliceBounds stop d.size)
  else
    let first := offset / d.blockSize
    let count := (stop + d.blockSize - 1) / d.blockSize - first
    let bytes := Bytes.splice (d.read first count) (offset % d.blockSize) data
    let blocks := (Bytes.pieces d.blockSize count bytes).zipIdx first
    .ok (blocks.foldl (fun d (data, i) => d.store i data) d)

end RamDisk

end DiskStack
