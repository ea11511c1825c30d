import DiskStack.Queue.Basic
import DiskStack.Drive.Request

/-!
# Rings of a drive

Beside its queue a drive keeps, for each slot that can head a chain, a request header and a status
byte in shared memory and an in-flight entry of its own. Publishing a request fills these, links
its three descriptors and offers the head; completing one takes the entry and frees the chain.
-/

namespace DiskStack

structure InFlight where
  request : RequestId
  ticket : UInt64
  deriving DecidableEq, Repr

structure Chain where
  head : UInt16
  data : UInt16
  status : UInt16
  deriving DecidableEq, Repr

/-- What publication needs to know of a request. -/
structure Submission where
  request : RequestId
  ticket : UInt64
  write : Bool
  sector : Nat
  address : UInt64
  length : Nat
  deriving DecidableEq, Repr

structure Rings where
  queue : VirtQueue
  headers : Region
  status : Region
  inFlight : Array (Option InFlight)

namespace Rings

/-- Rings with every slot free and no request in flight. -/
def ofSize (size : UInt16) (arena : Arena) : Except InitError (Rings × Arena) :=
  match arena.zeroed (size.toNat * RequestHeader.width) with
  | none => .error .outOfMemory
  | some (headers, arena) =>
    match arena.zeroed size.toNat with
    | none => .error .outOfMemory
    | some (status, arena) => do
      let (queue, arena) ← VirtQueue.ofSize size arena
      return (⟨queue, headers, status, Array.replicate size.toNat none⟩, arena)

def headerAddress (r : Rings) (head : UInt16) : Except Halt UInt64 :=
  r.headers.addressOf (head.toNat * RequestHeader.width)

def statusAddress (r : Rings) (head : UInt16) : Except Halt UInt64 :=
  r.status.addressOf head.toNat

def header (r : Rings) (head : UInt16) : RequestHeader :=
  RequestHeader.decode (r.headers.load (head.toNat * RequestHeader.width) RequestHeader.width)

def writeHeader (r : Rings) (head : UInt16) (h : RequestHeader) : Rings :=
  { r with headers := r.headers.store (head.toNat * RequestHeader.width) h.encode }

def statusByte (r : Rings) (head : UInt16) : UInt8 := r.status.byte head.toNat

def setStatusByte (r : Rings) (head : UInt16) (b : UInt8) : Rings :=
  { r with status := r.status.storeByte head.toNat b }

def setDescriptor (r : Rings) (i : UInt16) (d : Descriptor) : Except Halt Rings := do
  let pool ← r.queue.pool.set i d
  return { r with queue := { r.queue with pool } }

def reserve (r : Rings) : Except Halt (Option (Chain × Rings)) :=
  if r.queue.pool.numFree < 3 then .ok none
  else do
    match ← r.queue.pool.allocChain 3 with
    | (some [head, data, status], pool) =>
      return some (⟨head, data, status⟩, { r with queue := { r.queue with pool } })
    | _ => return none

def enter (r : Rings) (head : UInt16) (entry : InFlight) : Except Halt Rings :=
  if head.toNat < r.inFlight.size then
    .ok { r with inFlight := r.inFlight.setIfInBounds head.toNat (some entry) }
  else .error (.tableIndex head.toNat r.inFlight.size)

def offer (r : Rings) (head : UInt16) : Except Halt Rings := do
  let avail ← r.queue.avail.push head
  return { r with queue := { r.queue with avail } }

/-- The flags of the data descriptor: a read lets the controller write the buffer. -/
def dataFlags (write : Bool) : DescriptorFlags :=
  if write then DescriptorFlags.next else DescriptorFlags.next ||| DescriptorFlags.write

/-- Fills the three descriptors of a chain and offers it to the controller. -/
def publish (r : Rings) (c : Chain) (s : Submission) : Except Halt Rings := do
  let kind := if s.write then RequestHeader.kindWrite else RequestHeader.kindRead
  let r := r.writeHeader c.head ⟨kind, 0, UInt64.ofNat s.sector⟩
  let r := r.setStatusByte c.head RequestStatus.pending
  let headerAddress ← r.headerAddress c.head
  let statusAddress ← r.statusAddress c.head
  let r ← r.setDescriptor c.head ⟨headerAddress, 16, DescriptorFlags.next, c.data⟩
  let r ← r.setDescriptor c.data ⟨s.address, UInt32.ofNat s.length, dataFlags s.write, c.status⟩
  let r ← r.setDescriptor c.status ⟨statusAddress, 1, DescriptorFlags.write, 0⟩
  let r ← r.enter c.head ⟨s.request, s.ticket⟩
  r.offer c.head

/-- Takes the request that an element names out of the in-flight table. The entry goes before the status
byte is looked at, and does not come back when that is a halt. -/
def claim (r : Rings) (element : UsedElement) : Except Halt (UInt16 × InFlight) × Rings :=
  match (r.inFlight[element.id.toNat]?).join with
  | none => (.error (.unknownHead element.id), r)
  | some entry =>
    let head := element.id.toUInt16
    let status := r.statusByte head
    (if status ≠ RequestStatus.ok then .error (.failedStatus head status) else .ok (head, entry),
      { r with inFlight := r.inFlight.setIfInBounds element.id.toNat none })

/-- Takes the next finished request off the used ring and out of the in-flight table, with the rings
that are left also at a halt: by then the cursor has moved. -/
def collect (r : Rings) : Except Halt (UInt16 × InFlight) × Rings :=
  match r.queue.used.take with
  | .error h => (.error h, r)
  | .ok (element, used) => { r with queue := { r.queue with used } }.claim element

def release (r : Rings) (head : UInt16) : Except Halt Rings := do
  let (_, pool) ← r.queue.pool.freeChain head
  return { r with queue := { r.queue with pool } }

end Rings

end DiskStack
