import DiskStack.Proofs.ChainRelease
import DiskStack.Proofs.Collection
import DiskStack.Proofs.Scribbles
import DiskStack.Proofs.Traffic
import Mathlib.Logic.Relation

/-!
# Where the traffic goes

Every access of a driver is to one of a few kinds of places: a descriptor, a header, a status byte, a
word or an entry of the available ring, the index or an element of the used ring, or an entry of the
in-flight table. Those with a number below the queue size lie inside of their regions, and two
different ones do not overlap. On balanced rings, whatever the controller has written to them, the
driver goes to no others.
-/

namespace DiskStack

/-- Whether a halt is due to what the controller has reported. -/
def Halt.isReport : Halt → Bool
  | .unknownHead _ | .failedStatus _ _ => true
  | _ => false

inductive Place
  | descriptor (i : Nat)
  | header (head : Nat)
  | status (head : Nat)
  | offerFlags
  | offerIndex
  | offer (i : Nat)
  | reportIndex
  | report (i : Nat)
  | entry (head : Nat)
  deriving DecidableEq, Repr

namespace Access

/-- Whether an access lies wholly inside of its region, or of the in-flight table. -/
def Within (r : Rings) : Access → Prop
  | .bytes area offset width => offset + width ≤ (r.region area).size
  | .entry i => i < r.inFlight.size

/-- Whether two accesses have no byte and no entry in common. -/
def Apart : Access → Access → Prop
  | .bytes area offset width, .bytes area' offset' width' =>
    area = area' → offset + width ≤ offset' ∨ offset' + width' ≤ offset
  | .entry i, .entry j => i ≠ j
  | _, _ => True

end Access

namespace Place

def access : Place → Access
  | .descriptor i => .bytes .descriptors (Descriptor.width * i) Descriptor.width
  | .header head => .bytes .headers (head * RequestHeader.width) RequestHeader.width
  | .status head => .bytes .status head 1
  | .offerFlags => .bytes .avail AvailRing.flagsOffset 2
  | .offerIndex => .bytes .avail AvailRing.indexOffset 2
  | .offer i => .bytes .avail (AvailRing.ringOffset + 2 * i) 2
  | .reportIndex => .bytes .used UsedRing.indexOffset 2
  | .report i => .bytes .used (UsedRing.ringOffset + UsedRing.elementWidth * i) UsedRing.elementWidth
  | .entry head => .entry head

/-- Whether the number of a place, if it has one, is below a bound. -/
def Below (n : Nat) : Place → Prop
  | .descriptor i | .header i | .status i | .offer i | .report i | .entry i => i < n
  | .offerFlags | .offerIndex | .reportIndex => True

theorem apart {p q : Place} (h : p ≠ q) : p.access.Apart q.access := by
  cases p <;> cases q <;>
    simp only [access, Access.Apart, Descriptor.width, RequestHeader.width, AvailRing.flagsOffset,
      AvailRing.indexOffset, AvailRing.ringOffset, UsedRing.indexOffset, UsedRing.ringOffset,
      UsedRing.elementWidth, ne_eq, reduceCtorEq, descriptor.injEq, header.injEq, status.injEq,
      offer.injEq, report.injEq, entry.injEq, not_true_eq_false, forall_const, false_implies] at h ⊢ <;>
    omega

end Place

namespace Rings

variable {r q : Rings} {n : Nat}

theorem Sound.within (hr : r.Sound n) {p : Place} (hp : p.Below n) : p.access.Within r := by
  cases p with
  | descriptor i => exact hr.pool.fits (hr.poolSize.symm ▸ hp)
  | header head =>
    have hp : head < n := hp
    have hfit := hr.headers
    simp only [RequestHeader.width] at hfit
    change head * 16 + 16 ≤ r.headers.size
    omega
  | status head => exact Nat.le_trans hp hr.status
  | offerFlags | offerIndex =>
    have hfit := hr.avail
    simp only [AvailRing.ringOffset] at hfit
    change _ ≤ r.queue.avail.region.size
    simp only [AvailRing.flagsOffset, AvailRing.indexOffset]
    omega
  | offer i =>
    have hp : i < n := hp
    have hfit := hr.avail
    change AvailRing.ringOffset + 2 * i + 2 ≤ r.queue.avail.region.size
    omega
  | reportIndex =>
    have hfit := hr.used
    simp only [UsedRing.ringOffset] at hfit
    change UsedRing.indexOffset + 2 ≤ r.queue.used.region.size
    simp only [UsedRing.indexOffset]
    omega
  | report i =>
    have hp : i < n := hp
    have hfit := hr.used
    simp only [UsedRing.elementWidth] at hfit
    change UsedRing.ringOffset + 8 * i + 8 ≤ r.queue.used.region.size
    omega
  | entry head => exact Nat.lt_of_lt_of_eq hp hr.entries.symm

/-- Writing an entry of the available ring leaves its flags, its index and its other entries. -/
theorem Sound.offering (hr : r.Sound n) (i head : UInt16) :
    let written := r.queue.avail.region.store16 (AvailRing.entryOffset r.queue.avail.size i) head
    written.load16 AvailRing.flagsOffset = r.queue.avail.region.load16 AvailRing.flagsOffset ∧
      written.load16 AvailRing.indexOffset = r.queue.avail.region.load16 AvailRing.indexOffset ∧
      ∀ j : UInt16, j.toNat % n ≠ i.toNat % n →
        written.load16 (AvailRing.entryOffset r.queue.avail.size j) = r.queue.avail.entry j := by
  have hsize := hr.availSize
  refine ⟨?_, ?_, fun j hj => ?_⟩
  · apply Region.load16_store16_disjoint
    simp only [AvailRing.flagsOffset, AvailRing.entryOffset, AvailRing.ringOffset]
    omega
  · apply Region.load16_store16_disjoint
    simp only [AvailRing.indexOffset, AvailRing.entryOffset, AvailRing.ringOffset]
    omega
  · apply Region.load16_store16_disjoint
    simp only [AvailRing.entryOffset, UInt16.toNat_mod, hsize]
    omega

end Rings

namespace DescriptorPool

variable {p : DescriptorPool} {i : UInt16} {l : List UInt16}

private theorem IsChain.rest (hp : p.Sound) (h : p.IsChain i l) :
    (l = [i] ∧ (p.slot i.toNat).hasNext = false) ∨
      ∃ l', l = i :: l' ∧ (p.slot i.toNat).hasNext = true ∧
        (p.giveBack i.toNat).IsChain (p.slot i.toNat).next l' := by
  obtain ⟨path, nodup, taken⟩ := h
  have first := taken i path.head_mem
  cases path with
  | last _ hlast => exact .inl ⟨rfl, hlast⟩
  | link _ l' hnext rest =>
    obtain ⟨hnot, nodup⟩ := List.nodup_cons.1 nodup
    have hne : ∀ j ∈ l', j.toNat ≠ i.toNat := fun j hj he => hnot (UInt16.toNat_inj.1 he ▸ hj)
    refine .inr ⟨l', rfl, hnext, rest.congr fun j hj => ?_, nodup, fun j hj => ?_⟩
    · rw [slot_giveBack _ (hp.fits first.1), if_neg (hne j hj)]
    · exact (taken j (List.mem_cons_of_mem _ hj)).giveBack (hp.lt first.1) (hne j hj)

end DescriptorPool

namespace Traffic

variable {α β : Type} {r q : Rings} {n : Nat}

/-- Traffic that comes to something goes on from there. -/
theorem accesses_bind_of_run {x : Traffic α} {a : α} (h : x.run r = .ok (a, q)) (f : α → Traffic β) :
    (x >>= f).accesses r = x.accesses r ++ (f a).accesses q := by
  rw [accesses_bind, h]

private theorem accesses_own (f : Own → Traffic α) : (own >>= f).accesses r = (f r.own).accesses r := rfl

private theorem accesses_get {i : UInt16} (h : i < r.queue.pool.size) :
    (get i).accesses r = [(Place.descriptor i.toNat).access] :=
  congrArg (accesses · r) (if_pos h)

private theorem accesses_set {i : UInt16} (h : i < r.queue.pool.size) (d : Descriptor) :
    (set i d).accesses r = [(Place.descriptor i.toNat).access] := by
  refine (congrArg (accesses · r) (if_pos h)).trans ?_
  rw [accesses, Descriptor.length_encode]
  rfl

private theorem accesses_freeOne {i : UInt16} (h : r.queue.pool.IsTaken i.toNat) :
    (freeOne i).accesses r = [(Place.descriptor i.toNat).access] := by
  have hi : i < r.queue.pool.size := UInt16.lt_iff_toNat_lt.2 h.1
  refine (congrArg (accesses · r) (if_neg (UInt16.not_le.2 hi))).trans ?_
  refine (congrArg (accesses · r) (if_neg (ne_true_of_eq_false h.2))).trans ?_
  rw [accesses_bind, accesses_set hi]
  cases (set i .empty).run r <;> rfl

/-- The places that giving slots back goes to: each descriptor is read and then cleared. -/
def cleared (l : List UInt16) : List Place :=
  l.flatMap fun i => [.descriptor i.toNat, .descriptor i.toNat]

private theorem accesses_freeLinked (hp : r.queue.pool.Sound) {i : UInt16} {l : List UInt16}
    (h : r.queue.pool.IsChain i l) (head : UInt16) {bound freed : Nat} (hbound : l.length ≤ bound) :
    (freeLinked head bound freed i).accesses r = (cleared l).map Place.access := by
  -- what lies ahead is a chain of the pool with the slots behind given back
  induction bound generalizing r i l freed with
  | zero => cases h.path <;> cases hbound
  | succ bound ih =>
    have first := h.taken i h.path.head_mem
    have hi : i < r.queue.pool.size := UInt16.lt_iff_toNat_lt.2 first.1
    have hget : (get i).run r = .ok (r.slot i.toNat, r) := by
      rw [run_get, DescriptorPool.get_of_lt hi]
      rfl
    have hfree : (freeOne i).run r = .ok ((), r.withPool (r.queue.pool.giveBack i.toNat)) := by
      rw [run_freeOne, first.freeOne]
      rfl
    rw [freeLinked, accesses_bind_of_run hget, accesses_get hi, accesses_bind_of_run hfree,
      accesses_freeOne first]
    rcases h.rest hp with ⟨rfl, hlast⟩ | ⟨l, rfl, hnext, rest⟩
    · have hdone : (r.slot i.toNat).hasNext = false := hlast
      rw [if_neg (ne_true_of_eq_false hdone)]
      rfl
    · have hmore : (r.slot i.toNat).hasNext = true := hnext
      have hrest : (freeLinked head bound (freed + 1) (r.slot i.toNat).next).accesses
          (r.withPool (r.queue.pool.giveBack i.toNat)) = (cleared l).map Place.access :=
        ih (hp.giveBack first.1) rest (Nat.le_of_succ_le_succ hbound)
      rw [if_pos hmore]
      exact congrArg ([_, _] ++ ·) hrest

private theorem accesses_push (h : r.queue.avail.size ≠ 0) (head : UInt16) :
    (push head).accesses r = [Place.offerIndex.access,
      (Place.offer (r.queue.avail.index % r.queue.avail.size).toNat).access,
      Place.offerIndex.access] :=
  (congrArg (accesses · r) (if_neg h)).trans rfl

private theorem accesses_take (h : r.queue.used.size ≠ 0) :
    take.accesses r = [(Place.report (r.queue.used.lastSeen % r.queue.used.size).toNat).access] :=
  congrArg (accesses · r) (if_neg h)

/-- The places that taking the request of an element goes to. -/
def claimed (r : Rings) (element : UsedElement) : List Place :=
  if element.id.toNat < r.inFlight.size then
    match r.entryAt element.id.toNat with
    | none => [.entry element.id.toNat]
    | some _ => [.entry element.id.toNat, .entry element.id.toNat, .status element.id.toUInt16.toNat]
  else []

private theorem accesses_claim (element : UsedElement) :
    (claim element).accesses r = (claimed r element).map Place.access := by
  rw [claimed]
  by_cases h : element.id.toNat < r.inFlight.size
  · rw [if_pos h]
    refine (if_pos h).trans ?_
    cases he : r.entryAt element.id.toNat with
    | none =>
      rw [show (r.inFlight[element.id.toNat]?).join = none from he]
      rfl
    | some entry =>
      rw [show (r.inFlight[element.id.toNat]?).join = some entry from he]
      refine congrArg (_ :: ·) ((congrArg (_ :: ·) (if_pos h)).trans (congrArg ([_, _] ++ ·) ?_))
      change accesses (ite _ _ _ : Traffic _) _ = []
      split <;> rfl
  · rw [if_neg h]
    exact if_neg h

private theorem accesses_release (hp : r.queue.pool.Sound) {head : UInt16} {l : List UInt16}
    (h : r.queue.pool.IsChain head l) : (release head).accesses r = (cleared l).map Place.access := by
  change (freeLinked head r.queue.pool.size.toNat 0 head >>= fun _ => pure ()).accesses r = _
  rw [accesses_bind, accesses_freeLinked hp h head h.length_le]
  cases (freeLinked head r.queue.pool.size.toNat 0 head).run r <;> exact List.append_nil _

private theorem accesses_locate (area : Area) (offset : Nat) :
    (locate area offset done).accesses r = [] := by
  rw [accesses]
  split <;> rfl

private theorem run_set_of_lt {i : UInt16} (h : i < q.queue.pool.size) (d : Descriptor) :
    (set i d).run q = .ok ((), q.withPool (q.queue.pool.write i.toNat d)) := by
  rw [run_set, Rings.setDescriptor_of_lt i d h]
  rfl

private theorem run_locate_of_lt {area : Area} {offset : Nat} (h : offset < (q.region area).size) :
    (locate area offset done).run q = .ok ((q.region area).base + UInt64.ofNat offset, q) := by
  rw [run_locate, Region.addressOf, if_pos h]
  rfl

theorem run_bind_of_run {x : Traffic α} {a : α} (h : x.run r = .ok (a, q)) (f : α → Traffic β) :
    (x >>= f).run r = (f a).run q := by
  rw [run_bind, h]
  rfl

private theorem run_bind_set {i : UInt16} (h : i < q.queue.pool.size) (d : Descriptor)
    (f : Unit → Traffic β) :
    (set i d >>= f).run q = (f ()).run (q.withPool (q.queue.pool.write i.toNat d)) := by
  rw [run_bind_of_run (run_set_of_lt h d)]

private theorem accesses_bind_set {i : UInt16} (h : i < q.queue.pool.size) (d : Descriptor)
    (f : Unit → Traffic β) :
    (set i d >>= f).accesses q = (Place.descriptor i.toNat).access ::
      (f ()).accesses (q.withPool (q.queue.pool.write i.toNat d)) := by
  rw [accesses_bind_of_run (run_set_of_lt h d), accesses_set h]
  rfl

private theorem accesses_enter {i : Nat} (h : i < q.inFlight.size) (e : Option InFlight) :
    (enter i e (done ())).accesses q = [(Place.entry i).access] :=
  congrArg (_ :: ·) (if_pos h)

/-- The places that filling a chain's rings goes to. -/
def filledPlaces (c : Chain) : List Place :=
  [.header c.head.toNat, .status c.head.toNat, .descriptor c.head.toNat, .descriptor c.data.toNat,
    .descriptor c.status.toNat, .entry c.head.toNat]

/-- The places that an offer goes to: the index, an entry, and the index again, in this order. -/
def offerPlaces (r : Rings) (n : Nat) : List Place :=
  [.offerIndex, .offer (r.queue.avail.index.toNat % n), .offerIndex]

/-- Filling the rings for a chain leaves them filled, and keeps off the available ring. -/
private theorem fills (hr : r.Sound n) (c : Chain) (s : Submission) (hhead : c.head.toNat < n)
    (hdata : c.data.toNat < n) (hstatus : c.status.toNat < n) :
    (fill c s).run r = .ok ((), r.filled c s) ∧
      (fill c s).accesses r = (filledPlaces c).map Place.access := by
  have hlt : ∀ i : UInt16, i.toNat < n → i < r.queue.pool.size := fun i hi =>
    UInt16.lt_iff_toNat_lt.2 (hr.poolSize ▸ hi)
  let started := (r.writeHeader c.head (Rings.headerOf s)).setStatusByte c.head RequestStatus.pending
  have hheader : (locate .headers (c.head.toNat * RequestHeader.width) done).run started =
      .ok (r.headerPlace c.head, started) := by
    have hbase : (started.region .headers).base = r.headers.base := Region.base_store ..
    have hfit : c.head.toNat * RequestHeader.width < (started.region .headers).size := by
      have hfit := hr.headers
      change _ < (r.headers.store _ _).size
      rw [Region.size_store]
      simp only [RequestHeader.width] at hfit ⊢
      omega
    rw [run_locate_of_lt hfit, hbase, Rings.headerPlace]
  have hbyte : (locate .status c.head.toNat done).run started = .ok (r.statusPlace c.head, started) := by
    have hfit : c.head.toNat < (started.region .status).size := by
      change _ < (r.status.storeByte _ _).size
      rw [Region.size_storeByte]
      exact Nat.lt_of_lt_of_le hhead hr.status
    rw [run_locate_of_lt hfit]
    rfl
  have hentry : c.head.toNat < r.inFlight.size := hr.entries ▸ hhead
  constructor
  · rw [fill, run_bind_of_run (run_writeHeader r c.head _), run_bind_of_run (run_setStatusByte _ c.head _)]
    change run _ started = _
    rw [run_bind_of_run hheader, run_bind_of_run hbyte, run_bind_set, run_bind_set, run_bind_set, run_enter,
      Rings.enter_of_lt]
    · rfl
    · exact hentry
    · exact hlt _ hstatus
    · exact hlt _ hdata
    · exact hlt _ hhead
  · rw [fill, accesses_bind_of_run (run_writeHeader r c.head _),
      accesses_bind_of_run (run_setStatusByte _ c.head _)]
    change _ ++ (_ ++ accesses _ started) = _
    rw [accesses_bind_of_run hheader, accesses_bind_of_run hbyte, accesses_locate, accesses_locate,
      accesses_bind_set, accesses_bind_set, accesses_bind_set, accesses_enter]
    · rfl
    · exact hentry
    · exact hlt _ hstatus
    · exact hlt _ hdata
    · exact hlt _ hhead

private theorem accesses_offer (hr : r.Sound n) (c : Chain) (s : Submission) :
    (push c.head).accesses (r.filled c s) = (offerPlaces r n).map Place.access := by
  have hsize : (r.filled c s).queue.avail.size ≠ 0 := hr.size_ne_zero hr.availSize
  rw [accesses_push hsize, offerPlaces, ← hr.availSize, ← UInt16.toNat_mod]
  rfl

private theorem accesses_publish (hr : r.Sound n) (c : Chain) (s : Submission) (hhead : c.head.toNat < n)
    (hdata : c.data.toNat < n) (hstatus : c.status.toNat < n) :
    (publish c s).accesses r = (filledPlaces c ++ offerPlaces r n).map Place.access := by
  obtain ⟨hrun, haccesses⟩ := fills hr c s hhead hdata hstatus
  rw [publish, accesses_bind_of_run hrun, haccesses, accesses_offer hr, List.map_append]

private theorem accesses_allocOne (r : Rings) : allocOne.accesses r = [] := by
  rw [allocOne, accesses_own, r.free_own]
  cases (List.range 64).find? r.queue.pool.free.getLsbD <;> rfl

private theorem accesses_takeFree (k : Nat) (r : Rings) : (takeFree k).accesses r = [] := by
  induction k generalizing r with
  | zero => rfl
  | succ k ih =>
    rw [takeFree, accesses_bind, accesses_allocOne, run_allocOne]
    cases r.queue.pool.allocOne with
    | none => rfl
    | some p =>
      change (takeFree k >>= fun rest => pure (p.1 :: rest)).accesses (r.withPool p.2) = []
      rw [accesses_bind, ih, run_takeFree]
      rfl

private theorem accesses_reserve (r : Rings) : reserve.accesses r = [] := by
  by_cases h : r.queue.pool.numFree < 3
  · exact congrArg (accesses · r) (if_pos h)
  · have hlength : (DescriptorPool.takeFree 3 r.queue.pool).1.length = 3 := by
      rw [DescriptorPool.takeFree_eq, List.length_take, DescriptorPool.length_freeSlots]
      omega
    have halloc : (allocChain 3).accesses r = [] := by
      rw [allocChain, accesses_bind_of_run (run_takeFree r 3), accesses_takeFree]
      exact congrArg (accesses · _) (if_pos hlength)
    refine (congrArg (accesses · r) (if_neg h)).trans ?_
    rw [accesses_bind, halloc]
    cases (allocChain 3).run r with
    | error e => rfl
    | ok p =>
      obtain ⟨_ | (_ | ⟨_, _ | ⟨_, _ | ⟨_, _ | _⟩⟩⟩), q⟩ := p <;> rfl

private theorem accesses_collect (hr : r.Sound n) :
    collect.accesses r =
      (.report (r.queue.used.lastSeen.toNat % n) :: claimed r r.underCursor).map Place.access := by
  have htake : take.run r = .ok (r.underCursor,
      { r with queue.used.lastSeen := r.queue.used.lastSeen + 1 }) := by
    rw [run_take, hr.take_eq]
    rfl
  rw [collect, accesses_bind_of_run htake, accesses_take (hr.size_ne_zero hr.usedSize),
    accesses_claim, UInt16.toNat_mod, hr.usedSize]
  rfl

private theorem below_claimed (hr : r.Sound n) (element : UsedElement) :
    ∀ p ∈ claimed r element, p.Below n := by
  have hmost := hr.most
  rw [claimed, hr.entries]
  by_cases h : element.id.toNat < n
  · have hhead : element.id.toNat % 65536 < n := by omega
    rw [if_pos h]
    cases r.entryAt element.id.toNat <;> simp [Place.Below, h, hhead]
  · rw [if_neg h]
    simp

private theorem below_cleared {l : List UInt16} (h : ∀ i ∈ l, i.toNat < n) :
    ∀ p ∈ cleared l, p.Below n := by
  intro p hp
  obtain ⟨i, hi, hp⟩ := List.mem_flatMap.1 hp
  simp only [List.mem_cons, List.not_mem_nil, or_false, or_self] at hp
  rw [hp]
  exact h i hi

end Traffic

/-! ### Stray stores -/

section strays

variable {α : Type} {r q : Rings} {n : Nat}

/-- Rings with nothing more stored past the end of a region. -/
def Rings.NoStray (r q : Rings) : Prop := ∀ area, (q.region area).strays = (r.region area).strays

private theorem Rings.region_setRegion (r : Rings) (region : Region) (area area' : Area) :
    (r.setRegion region area).region area' = if area' = area then region else r.region area' := by
  cases area <;> cases area' <;> rfl

private theorem Access.Within.congr {a : Access} (h : a.Within r)
    (hsize : ∀ area, (q.region area).size = (r.region area).size)
    (hentries : q.inFlight.size = r.inFlight.size) : a.Within q := by
  cases a with
  | bytes area offset width => exact Nat.le_trans h (Nat.le_of_eq (hsize area).symm)
  | entry i => exact Nat.lt_of_lt_of_eq h hentries.symm

private theorem Rings.NoStray.of_same {r' : Rings} (h : ∀ area, r'.region area = r.region area)
    (hq : r'.NoStray q) : r.NoStray q := fun area => by rw [hq, h]

/-- Traffic that stays inside of the regions stores nothing past their ends, at a halt neither. -/
private theorem Traffic.noStray_leaves (x : Traffic α) (h : ∀ a ∈ x.accesses r, a.Within r) :
    r.NoStray (x.leaves r) := by
  induction x generalizing r with
  | done a => exact fun _ => rfl
  | halt e => exact fun _ => rfl
  | consult next ih => exact ih _ h
  | mark free next ih =>
    have hsame : ∀ area, ({ r with queue.pool.free := free } : Rings).region area = r.region area :=
      fun area => by cases area <;> rfl
    exact (ih fun a ha => (h a ha).congr (fun area => by rw [hsame]) rfl).of_same hsame
  | move lastSeen next ih =>
    have hsame : ∀ area,
        ({ r with queue.used.lastSeen := lastSeen } : Rings).region area = r.region area :=
      fun area => by cases area <;> rfl
    exact (ih fun a ha => (h a ha).congr (fun area => by rw [hsame]) rfl).of_same hsame
  | load area offset width next ih => exact ih _ fun a ha => h a (List.mem_cons_of_mem _ ha)
  | store area offset bytes next ih =>
    have hfits : offset + bytes.length ≤ (r.region area).size := h _ (List.mem_cons_self ..)
    have hsize : ∀ area', ((r.setRegion ((r.region area).store offset bytes) area).region area').size =
        (r.region area').size := fun area' => by
      rw [Rings.region_setRegion]
      split
      · next harea => rw [Region.size_store, harea]
      · rfl
    have hentries : (r.setRegion ((r.region area).store offset bytes) area).inFlight.size =
        r.inFlight.size := by cases area <;> rfl
    intro area'
    refine (ih (fun a ha => (h a (List.mem_cons_of_mem _ ha)).congr hsize hentries) area').trans ?_
    rw [Rings.region_setRegion]
    split
    · next harea => rw [Region.strays_store hfits, harea]
    · rfl
  | locate area offset next ih =>
    rw [accesses] at h
    rw [leaves]
    split at h
    · exact ih _ h
    · exact fun _ => rfl
  | find i next ih =>
    rw [accesses] at h
    split at h
    · exact ih _ fun a ha => h a (List.mem_cons_of_mem _ ha)
    · next hi =>
      rw [leaves, Array.getElem?_eq_none (Nat.le_of_not_lt hi)]
      exact ih _ h
  | enter i e next ih =>
    rw [leaves]
    split
    · next hi =>
      rw [accesses, if_pos hi] at h
      have hsame : ∀ area, ({ r with inFlight := r.inFlight.setIfInBounds i e } : Rings).region area =
          r.region area := fun area => by cases area <;> rfl
      have hnext := ih fun a ha => (h a (List.mem_cons_of_mem _ ha)).congr
        (fun area => by rw [hsame]) Array.size_setIfInBounds
      exact hnext.of_same hsame
    · exact fun _ => rfl

/-- Traffic that does what an operation does, and on its way goes to some places, all of them with
numbers below a bound. -/
structure Traffic.Visits {α : Type} (x : Traffic α) (r : Rings) (n : Nat)
    (op : Except Halt (α × Rings)) (l : List Place) : Prop where
  run : x.run r = op
  accesses : x.accesses r = l.map Place.access
  below : ∀ p ∈ l, p.Below n

theorem Traffic.Visits.noStray {x : Traffic α} {op : Except Halt (α × Rings)} {l : List Place}
    (hv : x.Visits r n op l) (hr : r.Sound n) : r.NoStray (x.leaves r) := by
  refine x.noStray_leaves fun a ha => ?_
  rw [hv.accesses] at ha
  obtain ⟨p, hp, rfl⟩ := List.mem_map.1 ha
  exact hr.within (hv.below p hp)

end strays

namespace Rings

open Traffic (Visits accesses_bind accesses_bind_of_run)

variable {r q : Rings} {n : Nat}

private theorem Sound.mod_lt (hr : r.Sound n) (i : UInt16) : i.toNat % n < n :=
  Nat.mod_lt _ (Nat.lt_of_lt_of_le (by decide) hr.least)

/-! ### Submissions -/

/-- The places that a submission goes to, with the chain that it takes. The head goes into the entry
of the available ring that the index stands for. -/
def submissionPlaces (r : Rings) (n : Nat) : Option Chain → List Place
  | none => []
  | some c => Traffic.filledPlaces c ++ Traffic.offerPlaces r n

private theorem Sound.submit_cases (hr : r.Sound n) (s : Submission) :
    (r.reserve = .ok none ∧ r.submit s = .ok (none, r)) ∨
      ∃ c q, r.reserve = .ok (some (c, r.taking c)) ∧ r.Fresh c ∧
        r.queue.pool.numFree = (r.taking c).queue.pool.numFree + 3 ∧
        (r.taking c).publish c s = .ok q ∧ r.submit s = .ok (some c, q) := by
  rcases r.reserve_cases with ⟨-, hnone⟩ | ⟨c, hsome, hc, hcount⟩
  · refine .inl ⟨hnone, ?_⟩
    rw [submit, hnone]
    rfl
  · obtain ⟨q, hq, -⟩ := hr.exists_published hc s
    refine .inr ⟨c, q, hsome, hc, hcount, hq, ?_⟩
    rw [submit, hsome]
    change (r.taking c).publish c s >>= _ = _
    rw [hq]
    rfl

theorem Sound.submission (hr : r.Sound n) (s : Submission) :
    ∃ o q, r.submit s = .ok (o, q) ∧
      (Traffic.submit s).Visits r n (r.submit s) (r.submissionPlaces n o) := by
  rcases hr.submit_cases s with ⟨hnone, hsubmit⟩ | ⟨c, q, hsome, hc, -, hq, hsubmit⟩
  · refine ⟨none, r, hsubmit, Traffic.run_submit r s, ?_, by simp [submissionPlaces]⟩
    have hreserve : Traffic.reserve.run r = .ok (none, r) := by
      rw [Traffic.run_reserve, hnone]
      rfl
    rw [Traffic.submit, accesses_bind_of_run hreserve, Traffic.accesses_reserve]
    rfl
  · have hlt : ∀ i ∈ c.slots, i.toNat < n := fun i hi => hr.lt_of_fresh hc hi
    have hhead := hlt c.head (by simp [Chain.slots])
    have hdata := hlt c.data (by simp [Chain.slots])
    have hstatus := hlt c.status (by simp [Chain.slots])
    refine ⟨some c, q, hsubmit, Traffic.run_submit r s, ?_, ?_⟩
    · have hreserve : Traffic.reserve.run r = .ok (some c, r.taking c) := by
        rw [Traffic.run_reserve, hsome]
        rfl
      have hpublish : (Traffic.publish c s).run (r.taking c) = .ok ((), q) := by
        rw [Traffic.run_publish, hq]
        rfl
      rw [Traffic.submit, accesses_bind_of_run hreserve, Traffic.accesses_reserve]
      change (Traffic.publish c s >>= fun _ => pure (some c)).accesses (r.taking c) = _
      rw [accesses_bind_of_run hpublish,
        Traffic.accesses_publish (hr.taking c) c s hhead hdata hstatus]
      rfl
    · simp [submissionPlaces, Traffic.filledPlaces, Traffic.offerPlaces, Place.Below, hhead, hdata, hstatus,
        hr.mod_lt]

/-- A publication as its accesses. Those that fill the rings come first and keep off the available ring; those
of the offer look the index up, write the head behind it, and then move the index. -/
structure FillsFirst (r : Rings) (n : Nat) (c : Chain) (s : Submission) : Prop where
  publish : (Traffic.publish c s).run r = ((), ·) <$> r.publish c s
  fill : (Traffic.fill c s).run r = .ok ((), r.filled c s)
  filling : (Traffic.fill c s).accesses r = (Traffic.filledPlaces c).map Place.access
  offer : (Traffic.push c.head).run (r.filled c s) = ((), ·) <$> (r.filled c s).offer c.head
  offering : (Traffic.push c.head).accesses (r.filled c s) =
    (Traffic.offerPlaces r n).map Place.access
  order : (Traffic.publish c s).accesses r = (Traffic.fill c s).accesses r ++
    (Traffic.push c.head).accesses (r.filled c s)

theorem Sound.fillsFirst (hr : r.Sound n) (c : Chain) (s : Submission) (hhead : c.head.toNat < n)
    (hdata : c.data.toNat < n) (hstatus : c.status.toNat < n) : r.FillsFirst n c s where
  publish := Traffic.run_publish r c s
  fill := (Traffic.fills hr c s hhead hdata hstatus).1
  filling := (Traffic.fills hr c s hhead hdata hstatus).2
  offer := Traffic.run_push _ c.head
  offering := Traffic.accesses_offer hr c s
  order := by
    obtain ⟨hrun, -⟩ := Traffic.fills hr c s hhead hdata hstatus
    rw [Traffic.publish, accesses_bind_of_run hrun]

/-! ### Completions -/

/-- The places that the completion handler goes to for the element under the cursor. -/
def completionPlaces (r : Rings) (n : Nat) : List Place :=
  .report (r.queue.used.lastSeen.toNat % n) :: Traffic.claimed r r.underCursor ++
    if (r.entryAt r.underCursor.id.toNat).isSome ∧
        r.statusByte r.underCursor.id.toUInt16 = RequestStatus.ok then
      Traffic.cleared (r.chainAt r.underCursor.id.toUInt16).slots
    else []

private theorem Linked.isChain {h : UInt16} (hl : r.Linked h) :
    r.queue.pool.IsChain h (r.chainAt h).slots := ⟨hl.path, hl.distinct, hl.taken⟩

private theorem Balanced.accesses_complete (hb : r.Balanced n) :
    Traffic.complete.accesses r = (r.completionPlaces n).map Place.access := by
  rw [Traffic.complete, accesses_bind, Traffic.accesses_collect hb.sound, (Traffic.run_collect r).1,
    completionPlaces, List.map_append]
  have hnamed : ∀ {h : UInt16} {e : InFlight}, r.underCursor.id.toNat = h.toNat →
      r.entryAt h.toNat = some e → r.underCursor.id.toUInt16 = h := fun hid he =>
    UInt16.toNat_inj.1 ((hb.sound.toNat_toUInt16 (hid ▸ he)).trans hid)
  rcases hb.sound.collect_cases with ⟨h, e, hid, he, hok, hc⟩ | ⟨h, e, hid, he, hok, hc⟩ |
    ⟨hnone, hc⟩
  · have hh := isHead_of_entryAt he
    have hrelease : (Traffic.release h).accesses (r.collected h) =
        (Traffic.cleared (r.chainAt h).slots).map Place.access :=
      Traffic.accesses_release (r := r.collected h) hb.sound.pool (hb.linked h hh).isChain
    rw [hc, hnamed hid he, hid, he, if_pos ⟨rfl, hok⟩, ← hrelease]
    refine congrArg (HAppend.hAppend _) ?_
    change (Traffic.release h >>= fun _ => pure (h, e)).accesses (r.collected h) = _
    rw [accesses_bind]
    cases (Traffic.release h).run (r.collected h) <;> exact List.append_nil _
  · rw [hc, hnamed hid he, if_neg fun hboth => hok hboth.2]
    rfl
  · rw [hc, hnone, if_neg fun hboth => Bool.false_ne_true hboth.1]
    rfl

private theorem Balanced.below_completionPlaces (hb : r.Balanced n) :
    ∀ p ∈ r.completionPlaces n, p.Below n := by
  intro p hp
  rcases List.mem_append.1 hp with hp | hp
  · rcases List.mem_cons.1 hp with rfl | hp
    · exact hb.sound.mod_lt _
    · exact Traffic.below_claimed hb.sound _ p hp
  · split at hp
    · next h =>
      have hh : r.IsHead r.underCursor.id.toUInt16 := by
        obtain ⟨e, he⟩ := Option.isSome_iff_exists.1 h.1
        rw [IsHead, hb.sound.toNat_toUInt16 he]
        exact h.1
      exact Traffic.below_cleared (fun i hi => hb.lt_of_mem hh hi) p hp
    · cases hp

/-- The handler goes to the element under the cursor, then to the entry that it names, to the status
byte and to the descriptors of the chain. -/
theorem Balanced.completion (hb : r.Balanced n) :
    Traffic.complete.Visits r n r.complete (r.completionPlaces n) :=
  ⟨Traffic.run_complete r, hb.accesses_complete, hb.below_completionPlaces⟩

/-- The handler takes a request in flight, or halts at what the controller has reported. -/
theorem Balanced.complete_cases (hb : r.Balanced n) :
    (∃ h e, r.entryAt h.toNat = some e ∧ r.collect = (.ok (h, e), r.collected h) ∧
      r.complete = .ok ((h, e), r.settled h)) ∨
      ∃ e q, e.isReport = true ∧ r.collect = (.error e, q) ∧ r.complete = .error e := by
  rcases hb.sound.collect_cases with ⟨h, e, -, he, -, hc⟩ | ⟨h, e, -, -, -, hc⟩ | ⟨-, hc⟩
  · refine .inl ⟨h, e, he, hc, ?_⟩
    rw [complete, hc]
    change (r.collected h).release h >>= _ = _
    rw [hb.release (isHead_of_entryAt he)]
    rfl
  · exact .inr ⟨_, _, rfl, hc, by rw [complete, hc]; rfl⟩
  · exact .inr ⟨_, _, rfl, hc, by rw [complete, hc]; rfl⟩

/-! ### Turns -/

/-- What may become of rings: a submission, a completion, or anything that a controller writes outside
of the descriptors. -/
inductive Turn (r : Rings) : Rings → Prop
  | submit (s : Submission) (o : Option Chain) (q : Rings) (h : r.submit s = .ok (o, q)) : Turn r q
  | complete (p : UInt16 × InFlight) (q : Rings) (h : r.complete = .ok (p, q)) : Turn r q
  | overwrite (q : Rings) (h : r.Overwritten q) : Turn r q

private theorem Balanced.turn (hb : r.Balanced n) (h : r.Turn q) : q.Balanced n := by
  cases h with
  | submit s o q h =>
    rcases hb.sound.submit_cases s with ⟨-, hsubmit⟩ | ⟨c, q', -, hc, hcount, hpublish, hsubmit⟩
    · cases h.symm.trans hsubmit
      exact hb
    · cases h.symm.trans hsubmit
      exact hb.publish hc hcount (hb.published hc hpublish)
  | complete p q h =>
    rcases hb.complete_cases with ⟨k, e, he, -, hok⟩ | ⟨e, _, -, -, herror⟩
    · cases h.symm.trans hok
      exact hb.settle (isHead_of_entryAt he)
    · cases h.symm.trans herror
  | overwrite q h => exact hb.congr (hb.sound.overwritten h) h.pool h.entries

theorem Balanced.turns (hb : r.Balanced n) (h : Relation.ReflTransGen Turn r q) : q.Balanced n := by
  induction h with
  | refl => exact hb
  | tail _ hturn ih => exact ih.turn hturn

end Rings

end DiskStack
