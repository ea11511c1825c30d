import DiskStack.Drive.Rings
import DiskStack.Proofs.Pool

/-!
# Publishing and completing on the rings

The effect of each driver operation on the rings, as seen through the descriptor slots, the headers,
the status bytes, the in-flight entries and the ring entries. Publishing succeeds on sound rings and
touches one chain only; completing takes one entry and gives back one chain.
-/

namespace DiskStack

namespace AvailRing

def entry (r : AvailRing) (i : UInt16) : UInt16 := r.region.load16 (entryOffset r.size i)

private theorem entryOffset_fits {r : AvailRing} (hn : 0 < r.size.toNat)
    (hr : ringOffset + 2 * r.size.toNat ≤ r.region.size) (i : UInt16) :
    entryOffset r.size i + 2 ≤ r.region.size := by
  have := Nat.mod_lt i.toNat hn
  rw [entryOffset, UInt16.toNat_mod]
  omega

/-- A push writes the entry under the index, moves the index on and leaves the other entries. -/
theorem push_of_pos {r : AvailRing} (hn : 0 < r.size.toNat)
    (hr : ringOffset + 2 * r.size.toNat ≤ r.region.size) (head : UInt16) :
    ∃ q, r.push head = .ok q ∧ q.size = r.size ∧ q.region.size = r.region.size ∧
      q.index = r.index + 1 ∧
      ∀ i, q.entry i = if i % r.size = r.index % r.size then head else r.entry i := by
  have hne : r.size ≠ 0 := fun h => by simp [h] at hn
  have hfit := entryOffset_fits hn hr
  refine ⟨_, if_neg hne, rfl, by simp, ?_, ?_⟩
  · apply Region.load16_store16_same _
    rw [Region.size_store16]
    simp only [indexOffset, ringOffset] at hr ⊢
    omega
  · intro i
    have hi := hfit i
    have hx := hfit r.index
    simp only [entry, entryOffset] at hi hx ⊢
    rw [Region.load16_store16_disjoint _ (by simp only [indexOffset, ringOffset]; omega)]
    by_cases h : i % r.size = r.index % r.size
    · rw [if_pos h, h, Region.load16_store16_same _ hx]
    · rw [if_neg h, Region.load16_store16_disjoint]
      have : (i % r.size).toNat ≠ (r.index % r.size).toNat := fun he => h (UInt16.toNat_inj.1 he)
      omega

end AvailRing

namespace UsedRing

def report (r : UsedRing) (i : UInt16) : UsedElement := r.element (elementOffset r.size i)

end UsedRing

def Chain.slots (c : Chain) : List UInt16 := [c.head, c.data, c.status]

namespace Rings

def slot (r : Rings) (i : Nat) : Descriptor := r.queue.pool.slot i

def entryAt (r : Rings) (i : Nat) : Option InFlight := (r.inFlight[i]?).join

def inFlightCount (r : Rings) : Nat := r.inFlight.countP Option.isSome

/-- The rings whose pool has been replaced. -/
def withPool (r : Rings) (pool : DescriptorPool) : Rings := { r with queue := { r.queue with pool } }

/-- Rings whose parts are all laid out for a queue of `n` slots. -/
structure Sound (r : Rings) (n : Nat) : Prop where
  pool : r.queue.pool.Sound
  poolSize : r.queue.pool.size.toNat = n
  availSize : r.queue.avail.size.toNat = n
  usedSize : r.queue.used.size.toNat = n
  entries : r.inFlight.size = n
  headers : RequestHeader.width * n ≤ r.headers.size
  status : n ≤ r.status.size
  avail : AvailRing.ringOffset + 2 * n ≤ r.queue.avail.region.size
  used : UsedRing.ringOffset + UsedRing.elementWidth * n ≤ r.queue.used.region.size
  least : 3 ≤ n

variable {r : Rings} {n : Nat}

theorem Sound.most (hr : r.Sound n) : n ≤ 64 := hr.poolSize ▸ hr.pool.small

theorem Sound.size_ne_zero (hr : r.Sound n) {size : UInt16} (h : size.toNat = n) : size ≠ 0 := by
  rintro rfl
  have hleast := hr.least
  rw [UInt16.toNat_zero] at h
  omega

private theorem header_writeHeader (h k : UInt16) (x : RequestHeader)
    (hfit : k.toNat * RequestHeader.width + RequestHeader.width ≤ r.headers.size) :
    (r.writeHeader k x).header h = if h = k then x else r.header h := by
  rw [header, writeHeader]
  by_cases hk : h = k
  · subst hk
    have stored := Region.load_store_same r.headers (h.toNat * RequestHeader.width) x.encode
      (by rw [RequestHeader.length_encode]; exact hfit)
    rw [RequestHeader.length_encode] at stored
    rw [if_pos rfl, stored, RequestHeader.decode_encode]
  · have : h.toNat ≠ k.toNat := fun he => hk (UInt16.toNat_inj.1 he)
    rw [if_neg hk, Region.load_store_disjoint, header]
    rw [RequestHeader.length_encode]
    simp only [RequestHeader.width]
    omega

theorem statusByte_setStatusByte (h k : UInt16) (b : UInt8) (hfit : k.toNat < r.status.size) :
    (r.setStatusByte k b).statusByte h = if h = k then b else r.statusByte h := by
  rw [statusByte, setStatusByte, Region.byte_storeByte]
  by_cases hk : h = k
  · subst hk
    rw [if_pos ⟨rfl, hfit⟩, if_pos rfl]
  · have : h.toNat ≠ k.toNat := fun he => hk (UInt16.toNat_inj.1 he)
    rw [if_neg (fun hc => this hc.1), if_neg hk, statusByte]

private theorem entryAt_eq_none_of_le {i : Nat} (h : r.inFlight.size ≤ i) : r.entryAt i = none := by
  rw [entryAt, Array.getElem?_eq_none h, Option.join_none]

theorem lt_size_of_entryAt {i : Nat} {e : InFlight} (h : r.entryAt i = some e) :
    i < r.inFlight.size := Nat.lt_of_not_le fun hle => by
  rw [entryAt_eq_none_of_le hle] at h
  cases h

theorem Sound.lt_of_entryAt (hr : r.Sound n) {i : Nat} {e : InFlight} (h : r.entryAt i = some e) :
    i < n := hr.entries ▸ lt_size_of_entryAt h

theorem Sound.toNat_toUInt16 (hr : r.Sound n) {id : UInt32} {e : InFlight}
    (h : r.entryAt id.toNat = some e) : id.toUInt16.toNat = id.toNat := by
  have hlt := hr.lt_of_entryAt h
  have hmost := hr.most
  rw [UInt32.toNat_toUInt16]
  omega

theorem count_setIfInBounds {a : Array (Option InFlight)} {i : Nat} (hi : i < a.size)
    (x : Option InFlight) :
    (a.setIfInBounds i x).countP Option.isSome =
      a.countP Option.isSome - (if (a[i]?).join.isSome then 1 else 0) +
        (if x.isSome then 1 else 0) := by
  have hset : a.setIfInBounds i x = a.set i x hi := by
    rw [Array.setIfInBounds, dif_pos hi]
  rw [hset, Array.countP_set, Array.getElem?_eq_getElem hi, Option.join_some]

theorem entryAt_join_set {a : Array (Option InFlight)} {i : Nat} (hi : i < a.size)
    (x : Option InFlight) (j : Nat) :
    ((a.setIfInBounds i x)[j]?).join = if j = i then x else (a[j]?).join := by
  rw [Array.getElem?_setIfInBounds]
  by_cases h : j = i
  · subst h
    simp [hi]
  · simp [h, Ne.symm h]

/-! ### Publishing -/

def headerOf (s : Submission) : RequestHeader :=
  ⟨if s.write then RequestHeader.kindWrite else RequestHeader.kindRead, 0, UInt64.ofNat s.sector⟩

/-- The three descriptors that a submission writes, for the header and status addresses. -/
def headDescriptor (c : Chain) (address : UInt64) : Descriptor :=
  ⟨address, 16, DescriptorFlags.next, c.data⟩

def dataDescriptor (c : Chain) (s : Submission) : Descriptor :=
  ⟨s.address, UInt32.ofNat s.length, dataFlags s.write, c.status⟩

def statusDescriptor (address : UInt64) : Descriptor := ⟨address, 1, DescriptorFlags.write, 0⟩

/-- The address of the header of a head, and of its status byte. -/
def headerPlace (r : Rings) (head : UInt16) : UInt64 :=
  r.headers.base + UInt64.ofNat (head.toNat * RequestHeader.width)

def statusPlace (r : Rings) (head : UInt16) : UInt64 := r.status.base + UInt64.ofNat head.toNat

/-- What publishing a submission on a chain does to the rings. -/
structure Published (r : Rings) (n : Nat) (c : Chain) (s : Submission) (q : Rings) : Prop where
  sound : q.Sound n
  free : q.queue.pool.free = r.queue.pool.free
  slot : ∀ j, q.slot j =
    if j = c.status.toNat then statusDescriptor (r.statusPlace c.head)
    else if j = c.data.toNat then dataDescriptor c s
    else if j = c.head.toNat then headDescriptor c (r.headerPlace c.head)
    else r.slot j
  header : ∀ h, q.header h = if h = c.head then headerOf s else r.header h
  statusByte : ∀ h, q.statusByte h = if h = c.head then RequestStatus.pending else r.statusByte h
  entry : ∀ j, q.entryAt j = if j = c.head.toNat then some ⟨s.request, s.ticket⟩ else r.entryAt j
  count : r.entryAt c.head.toNat = none → q.inFlightCount = r.inFlightCount + 1
  index : q.queue.avail.index = r.queue.avail.index + 1
  offered : ∀ i, q.queue.avail.entry i =
    if i % r.queue.avail.size = r.queue.avail.index % r.queue.avail.size then c.head
    else r.queue.avail.entry i
  used : q.queue.used = r.queue.used
  headersBase : q.headers.base = r.headers.base
  headersSize : q.headers.size = r.headers.size
  statusBase : q.status.base = r.status.base
  statusSize : q.status.size = r.status.size

theorem setDescriptor_of_lt (i : UInt16) (d : Descriptor) (h : i < r.queue.pool.size) :
    r.setDescriptor i d = .ok { r with queue := { r.queue with pool := r.queue.pool.write i.toNat d } } := by
  rw [setDescriptor, DescriptorPool.set_of_lt d h]
  rfl

private theorem headerAddress_of_lt {head : UInt16}
    (h : head.toNat * RequestHeader.width < r.headers.size) :
    r.headerAddress head = .ok (r.headerPlace head) := if_pos h

private theorem statusAddress_of_lt {head : UInt16} (h : head.toNat < r.status.size) :
    r.statusAddress head = .ok (r.statusPlace head) := if_pos h

theorem enter_of_lt {head : UInt16} (e : InFlight) (h : head.toNat < r.inFlight.size) :
    r.enter head e = .ok { r with inFlight := r.inFlight.setIfInBounds head.toNat (some e) } :=
  if_pos h

/-- Rings with the header, the status byte, the descriptors and the entry of a submission. -/
def filled (r : Rings) (c : Chain) (s : Submission) : Rings :=
  { queue := { r.queue with
      pool := ((r.queue.pool.write c.head.toNat (headDescriptor c (r.headerPlace c.head))).write
        c.data.toNat (dataDescriptor c s)).write c.status.toNat
          (statusDescriptor (r.statusPlace c.head)) }
    headers := r.headers.store (c.head.toNat * RequestHeader.width) (headerOf s).encode
    status := r.status.storeByte c.head.toNat RequestStatus.pending
    inFlight := r.inFlight.setIfInBounds c.head.toNat (some ⟨s.request, s.ticket⟩) }

theorem Sound.publish_eq (hr : r.Sound n) (c : Chain) (s : Submission) (hhead : c.head.toNat < n)
    (hdata : c.data.toNat < n) (hstatus : c.status.toNat < n) :
    r.publish c s = (r.filled c s).offer c.head := by
  have hlt : ∀ i : UInt16, i.toNat < n → i < r.queue.pool.size := fun i hi =>
    UInt16.lt_iff_toNat_lt.2 (hr.poolSize ▸ hi)
  let started := (r.writeHeader c.head (headerOf s)).setStatusByte c.head RequestStatus.pending
  have hheader : started.headerAddress c.head = .ok (r.headerPlace c.head) := by
    have hfit := hr.headers
    rw [headerAddress_of_lt]
    · simp only [headerPlace, started, setStatusByte, writeHeader, Region.base_store]
    · simp only [started, setStatusByte, writeHeader, Region.size_store]
      simp only [RequestHeader.width] at hfit ⊢
      omega
  have hstat : started.statusAddress c.head = .ok (r.statusPlace c.head) := by
    have hfit := hr.status
    rw [statusAddress_of_lt]
    · simp only [statusPlace, started, setStatusByte, writeHeader, Region.base_storeByte]
    · simp only [started, setStatusByte, writeHeader, Region.size_storeByte]
      omega
  rw [publish]
  change (started.headerAddress c.head >>= fun _ => _) = _
  rw [hheader]
  change (started.statusAddress c.head >>= fun _ => _) = _
  rw [hstat]
  change (started.setDescriptor c.head (headDescriptor c (r.headerPlace c.head)) >>= fun _ => _) = _
  rw [setDescriptor_of_lt _ _ (by exact hlt _ hhead)]
  change (setDescriptor _ c.data (dataDescriptor c s) >>= fun _ => _) = _
  rw [setDescriptor_of_lt _ _ (by exact hlt _ hdata)]
  change (setDescriptor _ c.status (statusDescriptor (r.statusPlace c.head)) >>= fun _ => _) = _
  rw [setDescriptor_of_lt _ _ (by exact hlt _ hstatus)]
  change (enter _ c.head ⟨s.request, s.ticket⟩ >>= fun _ => _) = _
  rw [enter_of_lt _ (by exact hr.entries ▸ hhead)]
  rfl

theorem Sound.publish (hr : r.Sound n) (c : Chain) (s : Submission) (hhead : c.head.toNat < n)
    (hdata : c.data.toNat < n) (hstatus : c.status.toNat < n) :
    ∃ q, r.publish c s = .ok q ∧ Published r n c s q := by
  obtain ⟨a, hpush, hasize, haregion, haindex, haentry⟩ := AvailRing.push_of_pos
    (r := r.queue.avail) (by have := hr.availSize; have := hr.least; omega)
    (by rw [hr.availSize]; exact hr.avail) c.head
  have hentries : c.head.toNat < r.inFlight.size := by rw [hr.entries]; exact hhead
  have hwidth : ∀ i : UInt16, i.toNat < n →
      Descriptor.width * i.toNat + Descriptor.width ≤ r.queue.pool.table.size :=
    fun i hi => hr.pool.fits (hr.poolSize.symm ▸ hi)
  refine ⟨{ r.filled c s with queue := { (r.filled c s).queue with avail := a } }, ?_, ?_⟩
  · have hoffer : (r.filled c s).queue.avail.push c.head = .ok a := hpush
    rw [hr.publish_eq c s hhead hdata hstatus, offer, hoffer]
    rfl
  · constructor
    case sound =>
      constructor
      case pool => exact ((hr.pool.write _ _).write _ _).write _ _
      case poolSize => exact hr.poolSize
      case availSize => exact hasize ▸ hr.availSize
      case usedSize => exact hr.usedSize
      case entries => simpa only [filled, Array.size_setIfInBounds] using hr.entries
      case headers => simpa only [filled, Region.size_store] using hr.headers
      case status => simpa only [filled, Region.size_storeByte] using hr.status
      case avail => exact haregion ▸ hr.avail
      case used => exact hr.used
      case least => exact hr.least
    case free => rfl
    case slot =>
      intro j
      have hs := hwidth _ hstatus
      have hd := hwidth _ hdata
      have hh := hwidth _ hhead
      simp only [slot, filled]
      rw [DescriptorPool.slot_write _ _ (by simpa using hs),
        DescriptorPool.slot_write _ _ (by simpa using hd), DescriptorPool.slot_write _ _ hh]
    case header =>
      intro h
      apply header_writeHeader h c.head (headerOf s)
      have := hr.headers
      simp only [RequestHeader.width] at this ⊢
      omega
    case statusByte =>
      intro h
      exact statusByte_setStatusByte h c.head RequestStatus.pending (by have := hr.status; omega)
    case entry => exact entryAt_join_set hentries _
    case count =>
      intro hnone
      have hcount := count_setIfInBounds hentries (some ⟨s.request, s.ticket⟩)
      rw [show (r.inFlight[c.head.toNat]?).join = none from hnone] at hcount
      simp only [Option.isSome, Bool.false_eq_true, if_false, if_true, Nat.sub_zero] at hcount
      exact hcount
    case index => exact haindex
    case offered => exact haentry
    case used => rfl
    case headersBase => exact Region.base_store _ _ _
    case headersSize => exact Region.size_store _ _ _
    case statusBase => exact Region.base_storeByte _ _ _
    case statusSize => exact Region.size_storeByte _ _ _

/-! ### Reserving -/

/-- Rings whose pool has handed out the slots of a chain. -/
def taking (r : Rings) (c : Chain) : Rings :=
  { r with queue := { r.queue with pool := r.queue.pool.takeSlots c.slots } }

@[simp] theorem slot_taking (c : Chain) (j : Nat) : (r.taking c).slot j = r.slot j :=
  DescriptorPool.slot_takeSlots j

theorem Sound.taking (hr : r.Sound n) (c : Chain) : (r.taking c).Sound n :=
  { hr with
    pool := hr.pool.takeSlots
    poolSize := by rw [Rings.taking, DescriptorPool.size_takeSlots, hr.poolSize] }

structure Fresh (r : Rings) (c : Chain) : Prop where
  distinct : c.slots.Nodup
  free : ∀ i ∈ c.slots, r.queue.pool.free.getLsbD i.toNat = true

theorem Sound.lt_of_fresh (hr : r.Sound n) {c : Chain} (hc : r.Fresh c) {i : UInt16}
    (hi : i ∈ c.slots) : i.toNat < n := hr.poolSize ▸ hr.pool.bounded _ (hc.free i hi)

theorem reserve_cases (r : Rings) :
    (r.queue.pool.numFree < 3 ∧ r.reserve = .ok none) ∨
      ∃ c, r.reserve = .ok (some (c, r.taking c)) ∧ r.Fresh c ∧
        r.queue.pool.numFree = (r.taking c).queue.pool.numFree + 3 := by
  rcases Nat.lt_or_ge r.queue.pool.numFree 3 with hlt | hge
  · exact .inl ⟨hlt, if_pos hlt⟩
  · have halloc := DescriptorPool.allocChain_of_le hge
    have hnodup := DescriptorPool.nodup_freeSlots.sublist (List.take_sublist 3 r.queue.pool.freeSlots)
    have hfree : ∀ i ∈ r.queue.pool.freeSlots.take 3, r.queue.pool.free.getLsbD i.toNat = true :=
      fun i hi => DescriptorPool.mem_freeSlots.1 (List.mem_of_mem_take hi)
    have hcount := DescriptorPool.numFree_takeSlots
      (fun i hi => ⟨BitVec.lt_of_getLsbD (hfree i hi), hfree i hi⟩) hnodup
    obtain ⟨head, data, status, hl⟩ := DescriptorPool.exists_take_freeSlots hge
    rw [hl] at halloc hnodup hfree hcount
    refine .inr ⟨⟨head, data, status⟩, ?_, ⟨hnodup, hfree⟩, hcount⟩
    rw [reserve, if_neg (Nat.not_lt.2 hge), halloc]
    rfl

/-! ### Completing -/

/-- Rings that have taken the entry of a head off the used ring and the in-flight table. -/
def collected (r : Rings) (head : UInt16) : Rings :=
  { r with
    queue := { r.queue with used := { r.queue.used with lastSeen := r.queue.used.lastSeen + 1 } }
    inFlight := r.inFlight.setIfInBounds head.toNat none }

/-- Rings whose cursor has moved past one more element. -/
def advanced (r : Rings) : Rings :=
  { r with queue.used.lastSeen := r.queue.used.lastSeen + 1 }

/-- Rings whose pool has got the slots of a chain back. -/
def giving (r : Rings) (c : Chain) : Rings :=
  { r with queue := { r.queue with pool := r.queue.pool.giveBackAll c.slots } }

theorem Sound.take_eq (hr : r.Sound n) :
    r.queue.used.take = .ok (r.queue.used.report r.queue.used.lastSeen,
      { r.queue.used with lastSeen := r.queue.used.lastSeen + 1 }) :=
  if_neg (hr.size_ne_zero hr.usedSize)

theorem claim_of_entryAt_none {element : UsedElement} (h : r.entryAt element.id.toNat = none) :
    r.claim element = (.error (.unknownHead element.id), r) := by
  rw [claim, show (r.inFlight[element.id.toNat]?).join = none from h]

theorem claim_of_entryAt {element : UsedElement} {e : InFlight}
    (h : r.entryAt element.id.toNat = some e) : r.claim element =
      (if r.statusByte element.id.toUInt16 ≠ RequestStatus.ok then
        .error (.failedStatus element.id.toUInt16 (r.statusByte element.id.toUInt16))
      else .ok (element.id.toUInt16, e),
        { r with inFlight := r.inFlight.setIfInBounds element.id.toNat none }) := by
  rw [claim, show (r.inFlight[element.id.toNat]?).join = some e from h]

theorem Sound.collect_eq (hr : r.Sound n) :
    r.collect = r.advanced.claim (r.queue.used.report r.queue.used.lastSeen) := by
  rw [collect, hr.take_eq]
  rfl

/-- What is collected is the reported head with its entry, if the head has one and its request
succeeded. -/
theorem Sound.collect_iff (hr : r.Sound n) {head : UInt16} {e : InFlight} {q : Rings} :
    r.collect = (.ok (head, e), q) ↔
      (r.queue.used.report r.queue.used.lastSeen).id.toNat = head.toNat ∧
        r.entryAt head.toNat = some e ∧ r.statusByte head = RequestStatus.ok ∧
        q = r.collected head := by
  rw [hr.collect_eq]
  generalize r.queue.used.report r.queue.used.lastSeen = el
  cases hx : r.entryAt el.id.toNat with
  | none =>
    have hx' : r.advanced.entryAt el.id.toNat = none := hx
    rw [claim_of_entryAt_none hx']
    constructor
    · rintro ⟨⟩
    · rintro ⟨hid, he, -⟩
      rw [← hid, hx] at he
      cases he
  | some x =>
    have hsame := hr.toNat_toUInt16 hx
    have hx' : r.advanced.entryAt el.id.toNat = some x := hx
    have hstatus : r.advanced.statusByte el.id.toUInt16 = r.statusByte el.id.toUInt16 := rfl
    rw [claim_of_entryAt hx', hstatus]
    by_cases hs : r.statusByte el.id.toUInt16 = RequestStatus.ok
    · rw [if_neg fun hne => hne hs, Prod.mk.injEq, Except.ok.injEq, Prod.mk.injEq]
      constructor
      · rintro ⟨⟨rfl, rfl⟩, rfl⟩
        exact ⟨hsame.symm, by rw [hsame, hx], hs, by rw [collected, hsame]; rfl⟩
      · rintro ⟨hid, he, -, rfl⟩
        have hhead : el.id.toUInt16 = head := UInt16.toNat_inj.1 (hsame.trans hid)
        rw [← hid, hx] at he
        exact ⟨⟨hhead, Option.some.inj he⟩, by rw [collected, hid]; rfl⟩
    · rw [if_pos hs]
      constructor
      · rintro ⟨⟩
      · rintro ⟨hid, -, hok, -⟩
        have hhead : el.id.toUInt16 = head := UInt16.toNat_inj.1 (hsame.trans hid)
        exact absurd (hhead ▸ hok) hs

theorem Sound.release (hr : r.Sound n) {c : Chain} (path : r.queue.pool.Path c.head c.slots)
    (hc : c.slots.Nodup) (taken : ∀ i ∈ c.slots, r.queue.pool.IsTaken i.toNat) :
    r.release c.head = .ok (r.giving c) := by
  have hleast := hr.least
  have hlen : c.slots.length ≤ r.queue.pool.size.toNat := by
    rw [hr.poolSize]
    exact hleast
  have hfree : DescriptorPool.freeLinked c.head r.queue.pool.size.toNat 0 c.head r.queue.pool =
      .ok (0 + c.slots.length, r.queue.pool.giveBackAll c.slots) :=
    DescriptorPool.freeLinked_of_path hr.pool path hc taken c.head hlen
  rw [Rings.release, DescriptorPool.freeChain, hfree]
  rfl

/-! ### The used ring -/

theorem used_ofSize {size : UInt16} {arena rest : Arena} {r : Rings}
    (h : Rings.ofSize size arena = .ok (r, rest)) :
    ∃ arena' rest', UsedRing.ofSize size arena' = .ok (r.queue.used, rest') := by
  rw [Rings.ofSize] at h
  split at h
  · cases h
  · split at h
    · cases h
    · obtain ⟨⟨queue, rest⟩, hqueue, h⟩ := Checked.exists_of_bind h
      cases h
      obtain ⟨⟨pool, arena₁⟩, -, hqueue⟩ := Checked.exists_of_bind hqueue
      obtain ⟨⟨avail, arena₂⟩, -, hqueue⟩ := Checked.exists_of_bind hqueue
      obtain ⟨⟨used, arena₃⟩, hused, hqueue⟩ := Checked.exists_of_bind hqueue
      cases hqueue
      exact ⟨arena₂, _, hused⟩

private theorem queue_claim (r : Rings) (element : UsedElement) : (r.claim element).2.queue = r.queue := by
  rw [claim]
  split <;> rfl

theorem exists_take_of_collect {r q : Rings} {p : UInt16 × InFlight} (h : r.collect = (.ok p, q)) :
    ∃ element used, r.queue.used.take = .ok (element, used) ∧
      { r with queue.used := used }.claim element = (.ok p, q) := by
  rw [collect] at h
  split at h
  · cases h
  · next element used htake => exact ⟨element, used, htake, h⟩

theorem used_collect {r q : Rings} {head : UInt16} {e : InFlight}
    (h : r.collect = (.ok (head, e), q)) :
    q.queue.used = { r.queue.used with lastSeen := r.queue.used.lastSeen + 1 } := by
  obtain ⟨element, used, htake, hclaim⟩ := exists_take_of_collect h
  have hqueue := queue_claim { r with queue.used := used } element
  rw [hclaim] at hqueue
  rw [UsedRing.take] at htake
  split at htake <;> cases htake
  exact congrArg VirtQueue.used hqueue

theorem used_release {r q : Rings} {head : UInt16} (h : r.release head = .ok q) :
    q.queue.used = r.queue.used := by
  obtain ⟨_, -, h⟩ := Checked.exists_of_bind h
  cases h
  rfl

end Rings

end DiskStack
