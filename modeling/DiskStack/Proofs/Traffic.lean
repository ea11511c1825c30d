import DiskStack.Drive.State
import DiskStack.Proofs.Rings

/-!
# Traffic with the shared memory

What a driver does to the memory that it shares with its controller is a program of single loads and
stores, and of accesses to its in-flight table. Such a program is data, so that every access that it
makes can be told, up to the one before it halts; run on the rings of a drive it does what the drive's
own operations do.
-/

namespace DiskStack

/-- The parts of the shared memory. -/
inductive Area
  | descriptors
  | headers
  | status
  | avail
  | used
  deriving DecidableEq, Repr

/-- What a driver has of its rings beside the shared memory and the in-flight table. -/
structure Own where
  poolSize : UInt16
  availSize : UInt16
  usedSize : UInt16
  free : BitVec 64
  lastSeen : UInt16

namespace Rings

def region (r : Rings) : Area → Region
  | .descriptors => r.queue.pool.table
  | .headers => r.headers
  | .status => r.status
  | .avail => r.queue.avail.region
  | .used => r.queue.used.region

def setRegion (r : Rings) (region : Region) : Area → Rings
  | .descriptors => { r with queue.pool.table := region }
  | .headers => { r with headers := region }
  | .status => { r with status := region }
  | .avail => { r with queue.avail.region := region }
  | .used => { r with queue.used.region := region }

/-- Takes a chain for a request and publishes the request on it; without three free descriptors nothing
happens. -/
def submit (r : Rings) (s : Submission) : Except Halt (Option Chain × Rings) := do
  match ← r.reserve with
  | none => return (none, r)
  | some (c, q) => return (some c, ← q.publish c s)

/-- A result with the rings that belong to it, unless it is a halt. -/
def settling {α : Type} : Except Halt α × Rings → Except Halt (α × Rings)
  | (.ok a, q) => .ok (a, q)
  | (.error h, _) => .error h

/-- Takes the next finished request and gives its chain back. -/
def complete (r : Rings) : Except Halt ((UInt16 × InFlight) × Rings) := do
  let (p, q) ← settling r.collect
  return (p, ← q.release p.1)

def own (r : Rings) : Own where
  poolSize := r.queue.pool.size
  availSize := r.queue.avail.size
  usedSize := r.queue.used.size
  free := r.queue.pool.free
  lastSeen := r.queue.used.lastSeen

theorem free_own (r : Rings) : r.own.free = r.queue.pool.free := rfl

end Rings

/-- An access to bytes of an area, or to an entry of the in-flight table. -/
inductive Access
  | bytes (area : Area) (offset width : Nat)
  | entry (i : Nat)
  deriving DecidableEq, Repr

/-- A program of accesses. -/
inductive Traffic (α : Type)
  | done (a : α)
  | halt (h : Halt)
  /-- Tells what the driver has of its own. -/
  | consult (next : Own → Traffic α)
  /-- Sets the bitmap of free descriptors. -/
  | mark (free : BitVec 64) (next : Traffic α)
  /-- Sets the cursor on the used ring. -/
  | move (lastSeen : UInt16) (next : Traffic α)
  | load (area : Area) (offset width : Nat) (next : Bytes → Traffic α)
  | store (area : Area) (offset : Nat) (bytes : Bytes) (next : Traffic α)
  /-- Tells the address of an offset, which is checked. -/
  | locate (area : Area) (offset : Nat) (next : UInt64 → Traffic α)
  /-- Looks an entry up; past the end of the table there is none. -/
  | find (i : Nat) (next : Option InFlight → Traffic α)
  /-- Sets an entry; past the end of the table that is a halt. -/
  | enter (i : Nat) (e : Option InFlight) (next : Traffic α)

namespace Traffic

variable {α β : Type}

def bind : Traffic α → (α → Traffic β) → Traffic β
  | .done a, f => f a
  | .halt h, _ => .halt h
  | .consult next, f => .consult fun own => (next own).bind f
  | .mark free next, f => .mark free (next.bind f)
  | .move lastSeen next, f => .move lastSeen (next.bind f)
  | .load area offset width next, f => .load area offset width fun bytes => (next bytes).bind f
  | .store area offset bytes next, f => .store area offset bytes (next.bind f)
  | .locate area offset next, f => .locate area offset fun address => (next address).bind f
  | .find i next, f => .find i fun e => (next e).bind f
  | .enter i e next, f => .enter i e (next.bind f)

instance : Monad Traffic where
  pure := .done
  bind := Traffic.bind

/-- Runs traffic on the rings of a drive. -/
def run : Traffic α → Rings → Except Halt (α × Rings)
  | .done a, r => .ok (a, r)
  | .halt h, _ => .error h
  | .consult next, r => (next r.own).run r
  | .mark free next, r => next.run { r with queue.pool.free := free }
  | .move lastSeen next, r => next.run { r with queue.used.lastSeen := lastSeen }
  | .load area offset width next, r => (next ((r.region area).load offset width)).run r
  | .store area offset bytes next, r =>
    next.run (r.setRegion ((r.region area).store offset bytes) area)
  | .locate area offset next, r =>
    match (r.region area).addressOf offset with
    | .ok address => (next address).run r
    | .error h => .error h
  | .find i next, r => (next (r.inFlight[i]?).join).run r
  | .enter i e next, r =>
    if i < r.inFlight.size then next.run { r with inFlight := r.inFlight.setIfInBounds i e }
    else .error (.tableIndex i r.inFlight.size)

/-- The rings that traffic leaves, at a halt too. -/
def leaves : Traffic α → Rings → Rings
  | .done _, r | .halt _, r => r
  | .consult next, r => (next r.own).leaves r
  | .mark free next, r => next.leaves { r with queue.pool.free := free }
  | .move lastSeen next, r => next.leaves { r with queue.used.lastSeen := lastSeen }
  | .load area offset width next, r => (next ((r.region area).load offset width)).leaves r
  | .store area offset bytes next, r =>
    next.leaves (r.setRegion ((r.region area).store offset bytes) area)
  | .locate area offset next, r =>
    match (r.region area).addressOf offset with
    | .ok address => (next address).leaves r
    | .error _ => r
  | .find i next, r => (next (r.inFlight[i]?).join).leaves r
  | .enter i e next, r =>
    if i < r.inFlight.size then next.leaves { r with inFlight := r.inFlight.setIfInBounds i e } else r

/-- The accesses that traffic makes, in order, up to where it halts. A lookup past the end of the table
accesses nothing; setting an entry there is an access out of bounds. -/
def accesses : Traffic α → Rings → List Access
  | .done _, _ | .halt _, _ => []
  | .consult next, r => (next r.own).accesses r
  | .mark free next, r => next.accesses { r with queue.pool.free := free }
  | .move lastSeen next, r => next.accesses { r with queue.used.lastSeen := lastSeen }
  | .load area offset width next, r =>
    .bytes area offset width :: (next ((r.region area).load offset width)).accesses r
  | .store area offset bytes next, r =>
    .bytes area offset bytes.length ::
      next.accesses (r.setRegion ((r.region area).store offset bytes) area)
  | .locate area offset next, r =>
    match (r.region area).addressOf offset with
    | .ok address => (next address).accesses r
    | .error _ => []
  | .find i next, r =>
    if i < r.inFlight.size then .entry i :: (next (r.inFlight[i]?).join).accesses r
    else (next none).accesses r
  | .enter i e next, r =>
    .entry i ::
      if i < r.inFlight.size then next.accesses { r with inFlight := r.inFlight.setIfInBounds i e }
      else []

theorem run_bind (x : Traffic α) (f : α → Traffic β) (r : Rings) :
    (x >>= f).run r = x.run r >>= fun p => (f p.1).run p.2 := by
  change (x.bind f).run r = _
  induction x generalizing r with
  | done a => rfl
  | halt h => rfl
  | consult next ih => exact ih _ _
  | mark free next ih => exact ih _
  | move lastSeen next ih => exact ih _
  | load area offset width next ih => exact ih _ _
  | store area offset bytes next ih => exact ih _
  | locate area offset next ih =>
    simp only [bind, run]
    split
    · exact ih _ _
    · rfl
  | find i next ih => exact ih _ _
  | enter i e next ih =>
    simp only [bind, run]
    split
    · exact ih _
    · rfl

private theorem leaves_bind (x : Traffic α) (f : α → Traffic β) (r : Rings) :
    (x >>= f).leaves r =
      match x.run r with
      | .ok p => (f p.1).leaves p.2
      | .error _ => x.leaves r := by
  change (x.bind f).leaves r = _
  induction x generalizing r with
  | done a => rfl
  | halt h => rfl
  | consult next ih => exact ih _ _
  | mark free next ih => exact ih _
  | move lastSeen next ih => exact ih _
  | load area offset width next ih => exact ih _ _
  | store area offset bytes next ih => exact ih _
  | locate area offset next ih =>
    simp only [bind, run, leaves]
    split
    · exact ih _ _
    · rfl
  | find i next ih => exact ih _ _
  | enter i e next ih =>
    simp only [bind, run, leaves]
    split
    · exact ih _
    · rfl

theorem leaves_of_run (x : Traffic α) {r q : Rings} {a : α} (h : x.run r = .ok (a, q)) :
    x.leaves r = q := by
  induction x generalizing r with
  | done b =>
    cases h
    rfl
  | halt e => cases h
  | consult next ih => exact ih _ h
  | mark free next ih => exact ih h
  | move lastSeen next ih => exact ih h
  | load area offset width next ih => exact ih _ h
  | store area offset bytes next ih => exact ih h
  | locate area offset next ih =>
    rw [run] at h
    rw [leaves]
    split at h
    · exact ih _ h
    · cases h
  | find i next ih => exact ih _ h
  | enter i e next ih =>
    rw [run] at h
    rw [leaves]
    split at h
    · next hi =>
      rw [if_pos hi]
      exact ih h
    · cases h

theorem accesses_bind (x : Traffic α) (f : α → Traffic β) (r : Rings) :
    (x >>= f).accesses r = x.accesses r ++
      match x.run r with
      | .ok p => (f p.1).accesses p.2
      | .error _ => [] := by
  change (x.bind f).accesses r = _
  induction x generalizing r with
  | done a => rfl
  | halt h => rfl
  | consult next ih => exact ih _ _
  | mark free next ih => exact ih _
  | move lastSeen next ih => exact ih _
  | load area offset width next ih => exact congrArg _ (ih _ _)
  | store area offset bytes next ih => exact congrArg _ (ih _)
  | locate area offset next ih =>
    simp only [bind, run, accesses]
    split
    · exact ih _ _
    · rfl
  | find i next ih =>
    simp only [bind, run, accesses]
    split
    · exact congrArg _ (ih _ _)
    · next h =>
      rw [Array.getElem?_eq_none (Nat.le_of_not_lt h)]
      exact ih _ _
  | enter i e next ih =>
    simp only [bind, run, accesses]
    split
    · exact congrArg _ (ih _)
    · rfl

/-! ### The operations of a driver -/

def own : Traffic Own := .consult .done

def load16 (area : Area) (offset : Nat) : Traffic UInt16 :=
  .load area offset 2 fun bytes => .done (UInt16.ofNat bytes.toNat)

def store16 (area : Area) (offset : Nat) (v : UInt16) : Traffic Unit :=
  .store area offset (Bytes.littleEndian 2 v.toNat) (.done ())

def get (i : UInt16) : Traffic Descriptor := do
  if i < (← own).poolSize then
    .load .descriptors (Descriptor.width * i.toNat) Descriptor.width fun bytes =>
      .done (Descriptor.decode bytes)
  else .halt .descriptorIndex

def set (i : UInt16) (d : Descriptor) : Traffic Unit := do
  if i < (← own).poolSize then
    .store .descriptors (Descriptor.width * i.toNat) d.encode (.done ())
  else .halt .descriptorIndex

def freeOne (i : UInt16) : Traffic Unit := do
  let own ← own
  if own.poolSize ≤ i then .halt (.freeOutOfRange i)
  else if own.free.getLsbD i.toNat then .halt (.alreadyFree i)
  else do
    set i .empty
    .mark (own.free ||| BitVec.twoPow 64 i.toNat) (.done ())

def freeAll : List UInt16 → Traffic Unit
  | [] => .done ()
  | i :: l => do
    freeOne i
    freeAll l

def allocOne : Traffic (Option UInt16) := do
  let own ← own
  match (List.range 64).find? own.free.getLsbD with
  | none => return none
  | some i => .mark (own.free &&& ~~~BitVec.twoPow 64 i) (.done (some (UInt16.ofNat i)))

def takeFree : Nat → Traffic (List UInt16)
  | 0 => return []
  | n + 1 => do
    match ← allocOne with
    | none => return []
    | some i => do
      let rest ← takeFree n
      return i :: rest

def allocChain (n : Nat) : Traffic (Option (List UInt16)) := do
  let slots ← takeFree n
  if slots.length = n then return some slots
  else do
    freeAll slots
    return none

def reserve : Traffic (Option Chain) := do
  if (List.range 64).countP (← own).free.getLsbD < 3 then return none
  else
    match ← allocChain 3 with
    | some [head, data, status] => return some ⟨head, data, status⟩
    | _ => return none

/-- Writes an entry of the available ring and then moves the index past it. -/
def push (head : UInt16) : Traffic Unit := do
  let size := (← own).availSize
  if size = 0 then .halt .remainderByZero
  else do
    let i ← load16 .avail AvailRing.indexOffset
    store16 .avail (AvailRing.entryOffset size i) head
    store16 .avail AvailRing.indexOffset (i + 1)

def writeHeader (head : UInt16) (h : RequestHeader) : Traffic Unit :=
  .store .headers (head.toNat * RequestHeader.width) h.encode (.done ())

def setStatusByte (head : UInt16) (b : UInt8) : Traffic Unit :=
  .store .status head.toNat [b] (.done ())

/-- What a publication does before it offers the head. -/
def fill (c : Chain) (s : Submission) : Traffic Unit := do
  let kind := if s.write then RequestHeader.kindWrite else RequestHeader.kindRead
  writeHeader c.head ⟨kind, 0, UInt64.ofNat s.sector⟩
  setStatusByte c.head RequestStatus.pending
  let headerAddress ← .locate .headers (c.head.toNat * RequestHeader.width) .done
  let statusAddress ← .locate .status c.head.toNat .done
  set c.head ⟨headerAddress, 16, DescriptorFlags.next, c.data⟩
  set c.data ⟨s.address, UInt32.ofNat s.length, Rings.dataFlags s.write, c.status⟩
  set c.status ⟨statusAddress, 1, DescriptorFlags.write, 0⟩
  .enter c.head.toNat (some ⟨s.request, s.ticket⟩) (.done ())

def publish (c : Chain) (s : Submission) : Traffic Unit := do
  fill c s
  push c.head

/-- Takes three descriptors, if there are as many, and publishes a request on them. -/
def submit (s : Submission) : Traffic (Option Chain) := do
  match ← reserve with
  | none => return none
  | some c => do
    publish c s
    return some c

/-- Whether the cursor has caught up with the controller's index. -/
def look : Traffic Bool := do
  let index ← load16 .used UsedRing.indexOffset
  return (← own).lastSeen == index

/-- Reads the element under the cursor and moves the cursor past it. -/
def take : Traffic UsedElement := do
  let own ← own
  if own.usedSize = 0 then .halt .remainderByZero
  else
    .load .used (UsedRing.elementOffset own.usedSize own.lastSeen) UsedRing.elementWidth fun bytes =>
      .move (own.lastSeen + 1)
        (.done ⟨UInt32.ofNat (bytes.slice 0 4).toNat, UInt32.ofNat (bytes.slice 4 4).toNat⟩)

/-- Takes the request that an element names out of the in-flight table. The entry goes before the status
byte is read. -/
def claim (element : UsedElement) : Traffic (UInt16 × InFlight) := do
  match ← .find element.id.toNat .done with
  | none => .halt (.unknownHead element.id)
  | some entry => do
    .enter element.id.toNat none (.done ())
    let head := element.id.toUInt16
    let status ← .load .status head.toNat 1 fun bytes => .done (bytes.headD 0)
    if status ≠ RequestStatus.ok then .halt (.failedStatus head status)
    else return (head, entry)

def collect : Traffic (UInt16 × InFlight) := do claim (← take)

def freeLinked (head : UInt16) : (bound freed : Nat) → UInt16 → Traffic Nat
  | 0, _, _ => .halt (.endlessChain head)
  | bound + 1, freed, i => do
    let d ← get i
    freeOne i
    if d.hasNext then freeLinked head bound (freed + 1) d.next else return freed + 1

def release (head : UInt16) : Traffic Unit := do
  let _ ← freeLinked head (← own).poolSize.toNat 0 head
  return ()

/-- What the completion handler does with one element of the used ring. -/
def complete : Traffic (UInt16 × InFlight) := do
  let (head, entry) ← collect
  release head
  return (head, entry)

/-! ### What they come to -/

section runs

variable (r : Rings)

private theorem run_own (f : Own → Traffic α) : (own >>= f).run r = (f r.own).run r := rfl

private theorem run_find (i : Nat) (f : Option InFlight → Traffic α) :
    (find i done >>= f).run r = (f (r.inFlight[i]?).join).run r := rfl

private theorem leaves_find (i : Nat) (f : Option InFlight → Traffic α) :
    (find i done >>= f).leaves r = (f (r.inFlight[i]?).join).leaves r := rfl

theorem run_get (i : UInt16) : (get i).run r = (·, r) <$> r.queue.pool.get i := by
  by_cases h : i < r.queue.pool.size
  · rw [DescriptorPool.get, if_pos h]
    exact congrArg (run · r) (if_pos h)
  · rw [DescriptorPool.get, if_neg h]
    exact congrArg (run · r) (if_neg h)

theorem run_set (i : UInt16) (d : Descriptor) :
    (set i d).run r = ((), ·) <$> r.setDescriptor i d := by
  by_cases h : i < r.queue.pool.size
  · rw [Rings.setDescriptor_of_lt i d h]
    exact congrArg (run · r) (if_pos h)
  · rw [Rings.setDescriptor, DescriptorPool.set, if_neg h]
    exact congrArg (run · r) (if_neg h)

theorem run_freeOne (i : UInt16) :
    (freeOne i).run r = (fun p => ((), r.withPool p)) <$> r.queue.pool.freeOne i := by
  by_cases hout : r.queue.pool.size ≤ i
  · rw [DescriptorPool.freeOne, if_pos hout]
    exact congrArg (run · r) (if_pos hout)
  · rw [DescriptorPool.freeOne, if_neg hout]
    refine (congrArg (run · r) (if_neg hout)).trans ?_
    by_cases hfree : r.queue.pool.free.getLsbD i.toNat = true
    · rw [if_pos hfree]
      exact congrArg (run · r) (if_pos hfree)
    · rw [if_neg hfree]
      refine (congrArg (run · r) (if_neg hfree)).trans ?_
      have hi : i < r.queue.pool.size := UInt16.not_le.1 hout
      rw [run_bind, run_set, Rings.setDescriptor_of_lt _ _ hi, DescriptorPool.set_of_lt _ hi]
      rfl

private theorem run_freeAll (l : List UInt16) :
    (freeAll l).run r = (fun p => ((), r.withPool p)) <$>
      l.foldlM DescriptorPool.freeOne r.queue.pool := by
  induction l generalizing r with
  | nil => rfl
  | cons i l ih =>
    rw [freeAll, run_bind, run_freeOne, List.foldlM_cons]
    cases r.queue.pool.freeOne i with
    | error e => rfl
    | ok p => exact ih (r.withPool p)

theorem run_allocOne :
    allocOne.run r = .ok (match r.queue.pool.allocOne with
      | none => (none, r)
      | some (i, p) => (some i, r.withPool p)) := by
  rw [allocOne, run_own, r.free_own, DescriptorPool.allocOne]
  cases (List.range 64).find? r.queue.pool.free.getLsbD <;> rfl

theorem run_takeFree (n : Nat) :
    (takeFree n).run r = .ok ((DescriptorPool.takeFree n r.queue.pool).1,
      r.withPool (DescriptorPool.takeFree n r.queue.pool).2) := by
  induction n generalizing r with
  | zero => rfl
  | succ n ih =>
    rw [takeFree, run_bind, run_allocOne, DescriptorPool.takeFree]
    cases r.queue.pool.allocOne with
    | none => rfl
    | some p =>
      change ((takeFree n >>= fun rest => pure (p.1 :: rest) : Traffic _).run (r.withPool p.2)) = _
      rw [run_bind, ih (r.withPool p.2)]
      rfl

private theorem run_allocChain (n : Nat) :
    (allocChain n).run r = (fun p => (p.1, r.withPool p.2)) <$> r.queue.pool.allocChain n := by
  rw [allocChain, run_bind, run_takeFree, DescriptorPool.allocChain]
  by_cases h : (DescriptorPool.takeFree n r.queue.pool).1.length = n
  · simp only [if_pos h]
    exact congrArg (run · _) (if_pos h)
  · simp only [if_neg h]
    refine (congrArg (run · _) (if_neg h)).trans ?_
    rw [run_bind, run_freeAll]
    change Except.bind (Except.map _ (List.foldlM _ (DescriptorPool.takeFree n r.queue.pool).2 _)) _ = _
    cases List.foldlM DescriptorPool.freeOne (DescriptorPool.takeFree n r.queue.pool).2
      (DescriptorPool.takeFree n r.queue.pool).1 <;> rfl

/-- What taking a chain comes to, with the rings that are left. -/
def reserved (r : Rings) : Option (Chain × Rings) → Option Chain × Rings
  | none => (none, r)
  | some (c, q) => (some c, q)

theorem run_reserve : reserve.run r = reserved r <$> r.reserve := by
  by_cases h : r.queue.pool.numFree < 3
  · rw [Rings.reserve, if_pos h]
    exact congrArg (run · r) (if_pos h)
  · have hge : 3 ≤ r.queue.pool.numFree := Nat.not_lt.1 h
    have halloc := DescriptorPool.allocChain_of_le hge
    rw [Rings.reserve, if_neg h, halloc]
    refine (congrArg (run · r) (if_neg h)).trans ?_
    obtain ⟨head, data, status, hslots⟩ := DescriptorPool.exists_take_freeSlots hge
    rw [run_bind, run_allocChain, halloc, hslots]
    rfl

theorem run_push (head : UInt16) : (push head).run r = ((), ·) <$> r.offer head := by
  by_cases h : r.queue.avail.size = 0
  · rw [Rings.offer, AvailRing.push, if_pos h]
    exact congrArg (run · r) (if_pos h)
  · rw [Rings.offer, AvailRing.push, if_neg h]
    exact congrArg (run · r) (if_neg h)

theorem run_writeHeader (head : UInt16) (h : RequestHeader) :
    (writeHeader head h).run r = pure ((), r.writeHeader head h) := rfl

theorem run_setStatusByte (head : UInt16) (b : UInt8) :
    (setStatusByte head b).run r = pure ((), r.setStatusByte head b) := by
  rw [Rings.setStatusByte, ← Region.store_singleton]
  rfl

theorem run_locate (area : Area) (offset : Nat) :
    (locate area offset done).run r = (·, r) <$> (r.region area).addressOf offset := by
  rw [run]
  cases (r.region area).addressOf offset <;> rfl

theorem run_enter (head : UInt16) (e : InFlight) :
    (enter head.toNat (some e) (done ())).run r = ((), ·) <$> r.enter head e := by
  rw [run, Rings.enter]
  split <;> rfl

theorem run_publish (c : Chain) (s : Submission) :
    (publish c s).run r = ((), ·) <$> r.publish c s := by
  simp only [publish, fill, Rings.publish, run_bind, run_writeHeader, run_setStatusByte, run_locate,
    run_set, run_enter, run_push, bind_map_left, map_bind, bind_assoc, pure_bind]
  rfl

theorem run_look : look.run r = .ok (r.queue.used.isDrained, r) := rfl

private theorem slice_load (area : Region) (offset start : Nat) {width length : Nat}
    (h : start + length ≤ width) :
    (area.load offset width).slice start length = area.load (offset + start) length := by
  apply List.ext_getElem
  · simp only [Bytes.slice, Region.load, List.length_take, List.length_drop, List.length_map,
      List.length_range]
    omega
  · intro i hi _
    simp only [Bytes.slice, Region.load, List.getElem_take, List.getElem_drop, List.getElem_map,
      List.getElem_range, Nat.add_assoc]

theorem run_take : take.run r = (fun p => (p.1, { r with queue.used := p.2 })) <$>
    r.queue.used.take := by
  by_cases h : r.queue.used.size = 0
  · rw [UsedRing.take, if_pos h]
    exact congrArg (run · r) (if_pos h)
  · rw [UsedRing.take, if_neg h]
    refine (congrArg (run · r) (if_neg h)).trans ?_
    let offset := UsedRing.elementOffset r.queue.used.size r.queue.used.lastSeen
    have hid := slice_load r.queue.used.region offset 0 (show 0 + 4 ≤ 8 by decide)
    have hlength := slice_load r.queue.used.region offset 4 (show 4 + 4 ≤ 8 by decide)
    change Except.ok (UsedElement.mk
      (UInt32.ofNat ((r.queue.used.region.load offset 8).slice 0 4).toNat)
      (UInt32.ofNat ((r.queue.used.region.load offset 8).slice 4 4).toNat), _) = _
    rw [hid, hlength]
    rfl

private theorem leaves_take {e : Halt} (h : r.queue.used.take = .error e) : take.leaves r = r := by
  rw [UsedRing.take] at h
  split at h
  · next hsize => exact congrArg (leaves · r) (if_pos hsize)
  · cases h

private theorem run_claim (element : UsedElement) :
    (claim element).run r = Rings.settling (r.claim element) ∧
    (claim element).leaves r = (r.claim element).2 := by
  rw [claim, run_find, leaves_find]
  cases he : r.entryAt element.id.toNat with
  | none =>
    rw [Rings.claim_of_entryAt_none he, show (r.inFlight[element.id.toNat]?).join = none from he]
    exact ⟨rfl, rfl⟩
  | some entry =>
    have hlt := Rings.lt_size_of_entryAt he
    rw [Rings.claim_of_entryAt he, show (r.inFlight[element.id.toNat]?).join = some entry from he]
    by_cases hstatus : r.statusByte element.id.toUInt16 ≠ RequestStatus.ok
    · rw [if_pos hstatus]
      exact ⟨(if_pos hlt).trans (congrArg (run · _) (if_pos hstatus)),
        (if_pos hlt).trans (congrArg (leaves · _) (if_pos hstatus))⟩
    · rw [if_neg hstatus]
      exact ⟨(if_pos hlt).trans (congrArg (run · _) (if_neg hstatus)),
        (if_pos hlt).trans (congrArg (leaves · _) (if_neg hstatus))⟩

theorem run_collect : collect.run r = Rings.settling r.collect ∧ collect.leaves r = r.collect.2 := by
  rw [collect, run_bind, leaves_bind, run_take, Rings.collect]
  cases htake : r.queue.used.take with
  | error e => exact ⟨rfl, leaves_take r htake⟩
  | ok p => exact run_claim { r with queue.used := p.2 } p.1

private theorem run_freeLinked (head : UInt16) (bound freed : Nat) (i : UInt16) :
    (freeLinked head bound freed i).run r =
      (fun p => (p.1, r.withPool p.2)) <$> DescriptorPool.freeLinked head bound freed i r.queue.pool := by
  induction bound generalizing freed i r with
  | zero => rfl
  | succ bound ih =>
    rw [freeLinked, run_bind, run_get, DescriptorPool.freeLinked]
    cases r.queue.pool.get i with
    | error e => rfl
    | ok d =>
      change ((freeOne i >>= fun _ => _ : Traffic _).run r) = _
      rw [run_bind, run_freeOne]
      change _ = Except.map _ (r.queue.pool.freeOne i >>= _)
      cases r.queue.pool.freeOne i with
      | error e => rfl
      | ok p =>
        change (ite _ _ _ : Traffic _).run (r.withPool p) = Except.map _ (ite _ _ _)
        by_cases h : d.hasNext = true
        · rw [if_pos h, if_pos h]
          exact ih (r.withPool p) _ _
        · rw [if_neg h, if_neg h]
          rfl

private theorem run_release (head : UInt16) : (release head).run r = ((), ·) <$> r.release head := by
  change ((freeLinked head r.queue.pool.size.toNat 0 head >>= fun _ => pure ()).run r) = _
  rw [run_bind, run_freeLinked, Rings.release, DescriptorPool.freeChain]
  cases DescriptorPool.freeLinked head r.queue.pool.size.toNat 0 head r.queue.pool <;> rfl

theorem run_complete : complete.run r = r.complete := by
  rw [complete, run_bind, (run_collect r).1, Rings.complete]
  cases Rings.settling r.collect with
  | error e => rfl
  | ok p =>
    change ((release p.1.1 >>= fun _ => pure p.1).run p.2) = p.2.release p.1.1 >>= fun q => pure (p.1, q)
    rw [run_bind, run_release]
    cases p.2.release p.1.1 <;> rfl

theorem leaves_complete {e : Halt} {q : Rings} (h : r.collect = (.error e, q)) :
    complete.leaves r = q := by
  rw [complete, leaves_bind, (run_collect r).1, (run_collect r).2, h]
  rfl

theorem run_submit (s : Submission) : (submit s).run r = r.submit s := by
  rw [submit, run_bind, run_reserve, Rings.submit]
  cases r.reserve with
  | error e => rfl
  | ok o =>
    cases o with
    | none => rfl
    | some p =>
      change ((publish p.1 s >>= fun _ => pure (some p.1)).run p.2) =
        p.2.publish p.1 s >>= fun q => pure (some p.1, q)
      rw [run_bind, run_publish]
      cases p.2.publish p.1 s <;> rfl

end runs

end Traffic

namespace ReadyState

/-- The rings that an attempt to publish leaves, with the chain that it has taken. -/
def left (s : ReadyState) : Option (Submission × Chain × ReadyState) → Option Chain × Rings
  | none => (none, s.rings)
  | some (_, c, s') => (some c, s'.rings)

theorem left_publish? (s : ReadyState) (request : RequestId) (write : Bool) (sector : Nat)
    (address : UInt64) (length : Nat) :
    s.left <$> s.publish? request write sector address length =
      s.rings.submit ⟨request, s.nextTicket, write, sector, address, length⟩ := by
  rw [Rings.submit, ReadyState.publish?]
  cases s.rings.reserve with
  | error e => rfl
  | ok o =>
    cases o with
    | none => rfl
    | some p =>
      change s.left <$> (p.2.publish p.1 _ >>= _) = p.2.publish p.1 _ >>= _
      cases p.2.publish p.1 ⟨request, s.nextTicket, write, sector, address, length⟩ <;> rfl

end ReadyState

end DiskStack
