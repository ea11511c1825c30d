import DiskStack.Queue.Descriptor
import DiskStack.Region

/-!
# Descriptor pool

The pool hands out the slots of a descriptor table. A free bitmap of 64 bits bounds the table; a
free slot is taken lowest first and cleared when it comes back. Several slots are taken all
together or not at all, and a chain is given back by following its `next` links.
-/

namespace DiskStack

def maxQueueSize : UInt16 := 64

structure DescriptorPool where
  table : Region
  size : UInt16
  free : BitVec 64

namespace DescriptorPool

def ofSize (size : UInt16) (arena : Arena) : Except InitError (DescriptorPool × Arena) :=
  if size = 0 ∨ maxQueueSize < size then .error .invalidConfig
  else
    match arena.zeroed (size.toNat * Descriptor.width) with
    | none => .error .outOfMemory
    | some (table, rest) => .ok (⟨table, size, BitVec.twoPow 64 size.toNat - 1⟩, rest)

def numFree (p : DescriptorPool) : Nat := (List.range 64).countP p.free.getLsbD

def isFree (p : DescriptorPool) (i : UInt16) : Bool := i < p.size && p.free.getLsbD i.toNat

def get (p : DescriptorPool) (i : UInt16) : Except Halt Descriptor :=
  if i < p.size then
    .ok (Descriptor.decode (p.table.load (Descriptor.width * i.toNat) Descriptor.width))
  else .error .descriptorIndex

def set (p : DescriptorPool) (i : UInt16) (d : Descriptor) : Except Halt DescriptorPool :=
  if i < p.size then
    .ok { p with table := p.table.store (Descriptor.width * i.toNat) d.encode }
  else .error .descriptorIndex

def allocOne (p : DescriptorPool) : Option (UInt16 × DescriptorPool) :=
  ((List.range 64).find? p.free.getLsbD).map fun i =>
    (UInt16.ofNat i, { p with free := p.free &&& ~~~BitVec.twoPow 64 i })

def freeOne (p : DescriptorPool) (i : UInt16) : Except Halt DescriptorPool :=
  if p.size ≤ i then .error (.freeOutOfRange i)
  else if p.free.getLsbD i.toNat then .error (.alreadyFree i)
  else do
    let p ← p.set i .empty
    .ok { p with free := p.free ||| BitVec.twoPow 64 i.toNat }

/-- Takes up to `n` slots, lowest first. -/
def takeFree : Nat → DescriptorPool → List UInt16 × DescriptorPool
  | 0, p => ([], p)
  | n + 1, p =>
    match p.allocOne with
    | none => ([], p)
    | some (i, p) =>
      let (rest, p) := takeFree n p
      (i :: rest, p)

/-- Takes exactly `n` slots; if there are fewer, those taken so far go back. -/
def allocChain (n : Nat) (p : DescriptorPool) :
    Except Halt (Option (List UInt16) × DescriptorPool) :=
  let (slots, q) := takeFree n p
  if slots.length = n then .ok (some slots, q)
  else do
    let q ← slots.foldlM freeOne q
    .ok (none, q)

/-- Gives back at most `bound` more slots, following the links from `i`. -/
def freeLinked (head : UInt16) :
    (bound freed : Nat) → UInt16 → DescriptorPool → Except Halt (Nat × DescriptorPool)
  | 0, _, _, _ => .error (.endlessChain head)
  | bound + 1, freed, i, p => do
    let d ← p.get i
    let p ← p.freeOne i
    if d.hasNext then freeLinked head bound (freed + 1) d.next p else .ok (freed + 1, p)

/-- Gives back a whole chain and counts its slots; no chain is longer than the pool. -/
def freeChain (p : DescriptorPool) (head : UInt16) : Except Halt (Nat × DescriptorPool) :=
  freeLinked head p.size.toNat 0 head p

end DescriptorPool

end DiskStack
