import Mathlib.Logic.Relation
import DiskStack.Proofs.Handshake
import DiskStack.Proofs.Offers

/-!
# The order of offers

A driver offers heads while few enough of them are outstanding for the pool to hold their chains,
and a reader with a running index of its own takes the entry under it until it has caught up. Main
result: the reader takes the heads offered, in their order, for just those ring sizes that the wrap
of the indices does not shift by less than the number of requests that fit in the pool. Sizes that
divide the wrap do not shift at all; of the others a valid configuration allows several that do.
-/

namespace DiskStack

/-- An available ring between its driver and a reader, with what the two have done so far. -/
structure Feed where
  ring : AvailRing
  /-- The reader's running index. -/
  cursor : UInt16 := 0
  offered : List UInt16 := []
  taken : List UInt16 := []

namespace Feed

/-- The requests of three descriptors that a pool of the ring's size has room for. -/
def room (f : Feed) : Nat := f.ring.size.toNat / descriptorsPerRequest

def offering (f : Feed) (ring : AvailRing) (head : UInt16) : Feed :=
  { f with ring, offered := f.offered ++ [head] }

def taking (f : Feed) : Feed :=
  { f with cursor := f.cursor + 1, taken := f.taken ++ [f.ring.entry f.cursor] }

inductive Step (f : Feed) : Feed → Prop
  | offer (head : UInt16) (ring : AvailRing) (few : f.offered.length < f.taken.length + f.room)
    (h : f.ring.push head = .ok ring) : Step f (f.offering ring head)
  | take (h : f.cursor ≠ f.ring.index) : Step f f.taking

abbrev Run : Feed → Feed → Prop := Relation.ReflTransGen Step

/-- The heads taken are those offered first, and all of them once the reader has caught up; another
head can always be offered. -/
structure Fifo (f : Feed) : Prop where
  order : f.taken <+: f.offered
  complete : f.cursor = f.ring.index → f.taken = f.offered
  goes : ∀ head, ∃ ring, f.ring.push head = .ok ring

/-- A feed whose ring is laid out for `n` entries. -/
structure Sized (f : Feed) (n : Nat) : Prop where
  size : f.ring.size.toNat = n
  fits : AvailRing.ringOffset + 2 * n ≤ f.ring.region.size
  least : 3 ≤ n
  most : n ≤ 64

variable {f f' : Feed} {n : Nat}

private theorem ne_running (first : UInt16) {k : Nat} (hpos : 0 < k) (hk : k < 65536) :
    first ≠ first + UInt16.ofNat k := by
  intro h
  have hnat := congrArg UInt16.toNat h
  rw [UInt16.toNat_add, UInt16.toNat_ofNat'] at hnat
  have hfirst := first.toNat_lt
  omega

private theorem Sized.push (hf : f.Sized n) (head : UInt16) :
    ∃ ring, f.ring.push head = .ok ring ∧ ring.size = f.ring.size ∧
      ring.region.size = f.ring.region.size ∧ ring.index = f.ring.index + 1 ∧
      ∀ i, ring.entry i = if i % f.ring.size = f.ring.index % f.ring.size then head
        else f.ring.entry i := by
  have hsize := hf.size
  have hleast := hf.least
  apply AvailRing.push_of_pos (by omega)
  rw [hsize]
  exact hf.fits

private theorem Sized.step (hf : f.Sized n) (h : f.Step f') : f'.Sized n := by
  cases h with
  | offer head ring few h =>
    obtain ⟨q, hq, hsize, hregion, -⟩ := hf.push head
    cases hq.symm.trans h
    exact ⟨(congrArg UInt16.toNat hsize).trans hf.size, hregion ▸ hf.fits, hf.least, hf.most⟩
  | take => exact ⟨hf.size, hf.fits, hf.least, hf.most⟩

private theorem sized_of_ofSize {c : DriveConfig} (valid : c.isValid = true) {arena rest : Arena}
    {ring : AvailRing} (fresh : AvailRing.ofSize c.queueSize arena = .ok (ring, rest)) :
    Sized { ring } c.queueSize.toNat ∧ ring.index = 0 := by
  obtain ⟨hleast, hmost⟩ := DriveConfig.queue_of_isValid valid
  rw [AvailRing.ofSize] at fresh
  split at fresh
  · cases fresh
  · next h =>
    obtain ⟨base, rfl⟩ := Arena.exists_of_zeroed h
    cases fresh
    refine ⟨⟨rfl, ?_, hleast, hmost⟩, Region.load16_zeroed _ _ _⟩
    rw [Region.size_zeroed]
    exact Nat.le_trans (Nat.le_add_right _ 2) (Region.le_roundUp _)

/-! ### Sizes that keep the order -/

/-- The heads between the reader's index and the driver's are the outstanding ones. -/
structure Orderly (f : Feed) (n : Nat) (heads : List UInt16) : Prop where
  sized : f.Sized n
  offered : f.offered = f.taken ++ heads
  few : heads.length ≤ n / descriptorsPerRequest
  offers : f.ring.Offers f.cursor heads

private theorem Orderly.fifo {heads : List UInt16} (hf : f.Orderly n heads) : f.Fifo where
  order := ⟨heads, hf.offered.symm⟩
  complete h := by
    have hfew := hf.few
    have hmost := hf.sized.most
    have hnone := hf.offers.eq_nil (by simp only [descriptorsPerRequest] at hfew; omega) h.symm
    rw [hf.offered, hnone, List.append_nil]
  goes head := by
    obtain ⟨ring, hpush, -⟩ := hf.sized.push head
    exact ⟨ring, hpush⟩

private theorem Orderly.step {heads : List UInt16} (hf : f.Orderly n heads)
    (hwrap : 65536 % n = 0 ∨ n / descriptorsPerRequest ≤ 65536 % n) (h : f.Step f') :
    ∃ heads', f'.Orderly n heads' := by
  have hsized := hf.sized.step h
  have hfew := hf.few
  cases h with
  | offer head ring few h =>
    obtain ⟨q, hq, -, -, hindex, hentry⟩ := hf.sized.push head
    cases hq.symm.trans h
    rw [hf.offered, List.length_append, room, hf.sized.size] at few
    have hroom : n / descriptorsPerRequest < n := Nat.div_lt_self (by have := hf.sized.least; omega)
      (by decide)
    refine ⟨heads ++ [head], hsized, ?_, ?_, ?_⟩
    · change f.offered ++ [head] = f.taken ++ (heads ++ [head])
      rw [hf.offered, List.append_assoc]
    · rw [List.length_append, List.length_singleton]
      omega
    · exact hf.offers.push_of_ne (fun k hpos hk => by omega) hf.sized.size (by omega) hindex hentry
  | take hne =>
    have hoffers := hf.offers
    cases heads with
    | nil => exact absurd (hoffers.index.trans (UInt16.add_zero _)).symm hne
    | cons head rest =>
      obtain ⟨hentry, hrest⟩ := hoffers.take
      refine ⟨rest, hsized, ?_, Nat.le_of_succ_le hfew, hrest⟩
      change f.offered = f.taken ++ [f.ring.entry f.cursor] ++ rest
      rw [hentry, hf.offered, List.append_assoc]
      rfl

/-! ### Sizes that do not -/

private theorem Sized.exists_offer (hf : f.Sized n) (head : UInt16)
    (few : f.offered.length < f.taken.length + n / descriptorsPerRequest) :
    ∃ ring, f.Step (f.offering ring head) ∧ ring.index = f.ring.index + 1 ∧
      ∀ i, ring.entry i = if i % f.ring.size = f.ring.index % f.ring.size then head
        else f.ring.entry i := by
  obtain ⟨ring, hpush, -, -, hindex, hentry⟩ := hf.push head
  exact ⟨ring, .offer head ring (by rw [room, hf.size]; exact few) hpush, hindex, hentry⟩

private theorem Sized.exists_offers (hf : f.Sized n) (heads : List UInt16)
    (few : f.offered.length + heads.length ≤ f.taken.length + n / descriptorsPerRequest) :
    ∃ g, Run f g ∧ g.Sized n ∧ g.cursor = f.cursor ∧ g.offered = f.offered ++ heads ∧
      g.taken = f.taken ∧ g.ring.index = f.ring.index + UInt16.ofNat heads.length := by
  induction heads generalizing f with
  | nil => exact ⟨f, .refl, hf, rfl, (List.append_nil _).symm, rfl, (UInt16.add_zero _).symm⟩
  | cons head rest ih =>
    rw [List.length_cons] at few
    obtain ⟨ring, hstep, hindex, -⟩ := hf.exists_offer head (by omega)
    obtain ⟨g, hrun, hg, hcursor, hoffered, htaken, hring⟩ := ih (hf.step hstep) (by
      change (f.offered ++ [head]).length + _ ≤ f.taken.length + _
      rw [List.length_append, List.length_singleton]
      omega)
    refine ⟨g, .head hstep hrun, hg, hcursor, ?_, htaken, ?_⟩
    · rw [hoffered, offering, List.append_assoc]
      rfl
    · rw [hring, offering, hindex, List.length_cons, running_succ]

private theorem Sized.exists_passed (hf : f.Sized n) (hidle : f.offered = f.taken)
    (hcaught : f.cursor = f.ring.index) (k : Nat) :
    ∃ g, Run f g ∧ g.Sized n ∧ g.cursor = f.cursor + UInt16.ofNat k ∧ g.cursor = g.ring.index ∧
      g.offered = g.taken ∧ g.taken.length = f.taken.length + k := by
  induction k with
  | zero => exact ⟨f, .refl, hf, (UInt16.add_zero _).symm, hcaught, hidle, rfl⟩
  | succ k ih =>
    obtain ⟨g, hrun, hg, hplace, hcaught, hsame, hlen⟩ := ih
    have hone : 0 < n / descriptorsPerRequest := Nat.div_pos hg.least (by decide)
    obtain ⟨ring, hoffer, hindex, hentry⟩ := hg.exists_offer 0 (by rw [hsame]; omega)
    have htake : Step (g.offering ring 0) _ := .take (by
      rw [offering, hindex, hcaught]
      exact ne_running (k := 1) _ (by decide) (by decide))
    refine ⟨_, (hrun.tail hoffer).tail htake, (hg.step hoffer).step htake, ?_, ?_, ?_, ?_⟩
    · rw [taking, offering, hplace, UInt16.ofNat_add, UInt16.add_assoc]
      rfl
    · rw [taking, offering, hindex, hcaught]
    · rw [taking, offering, hentry, hcaught, if_pos rfl, hsame]
    · rw [taking, offering, List.length_append, hlen, List.length_singleton, Nat.add_assoc]

/-- The last index before the wrap shares its place with one as far behind the wrap as that shifts the
places. -/
private theorem last_mod_eq {size : UInt16} {d : Nat} (hsize : size.toNat = n)
    (hd : 65536 % n = d + 1) :
    UInt16.ofNat 65535 % size = (UInt16.ofNat 65535 + 1 + UInt16.ofNat d) % size := by
  have hle := Nat.mod_le 65536 n
  have hrounds := Nat.div_add_mod 65536 n
  have hsplit : 65535 = n * (65536 / n) + d := by omega
  have hlast : UInt16.ofNat 65535 + 1 + UInt16.ofNat d = UInt16.ofNat d := UInt16.zero_add _
  apply UInt16.toNat_inj.1
  rw [hlast, UInt16.toNat_mod, UInt16.toNat_mod, hsize, UInt16.toNat_ofNat_of_lt' (by decide),
    UInt16.toNat_ofNat_of_lt' (show d < 65536 by omega), hsplit, Nat.mul_add_mod_self_left]

/-- Where the wrap shifts the places by less than the pool has room for, a head is overwritten before
it is taken: the last head before the wrap by one after it. -/
private theorem Sized.exists_overwritten (hf : f.Sized n) (hstart : f.cursor = 0)
    (hindex : f.ring.index = 0)
    (hoffered : f.offered = []) (htaken : f.taken = []) (hpos : 0 < 65536 % n)
    (hwrap : 65536 % n < n / descriptorsPerRequest) :
    ∃ g, Run f g ∧ g.offered[65535]? = some 0 ∧ g.taken[65535]? = some 1 := by
  obtain ⟨d, hd⟩ : ∃ d, 65536 % n = d + 1 := ⟨65536 % n - 1, by omega⟩
  obtain ⟨g, hrun, hg, hcursor, hcaught, hsame, hlen⟩ :=
    hf.exists_passed (by rw [hoffered, htaken]) (by rw [hstart, hindex]) 65535
  rw [htaken, List.length_nil, Nat.zero_add] at hlen
  rw [hstart, UInt16.zero_add] at hcursor
  -- the last head before the wrap, and those after it but for the one at the same place
  obtain ⟨u, hoffers, hu, hucursor, huoffered, hutaken, huindex⟩ :=
    hg.exists_offers (0 :: List.replicate d 1) (by
      rw [hsame, List.length_cons, List.length_replicate]
      omega)
  rw [← hcaught, List.length_cons, List.length_replicate] at huindex
  have hshared : u.cursor % u.ring.size = u.ring.index % u.ring.size := by
    rw [hucursor, hcursor, huindex, hcursor, running_succ]
    exact last_mod_eq hu.size hd
  obtain ⟨ring, hover, hring, hentry⟩ := hu.exists_offer 1 (by
    rw [huoffered, hutaken, hsame, List.length_append, List.length_cons, List.length_replicate]
    omega)
  have htake : Step (u.offering ring 1) _ := .take (by
    have hnext : ring.index = g.cursor + UInt16.ofNat (d + 2) := by
      rw [hring, huindex, UInt16.ofNat_add (d + 1) 1, ← UInt16.add_assoc]
      rfl
    rw [offering, hnext, hucursor]
    have hmost := hg.most
    have hless := Nat.div_le_self n descriptorsPerRequest
    exact ne_running _ (Nat.succ_pos _) (by omega))
  refine ⟨_, ((hrun.trans hoffers).tail hover).tail htake, ?_, ?_⟩
  · rw [taking, offering, huoffered, hsame, List.append_assoc,
      List.getElem?_append_right (Nat.le_of_eq hlen), hlen]
    rfl
  · rw [taking, offering, hentry, if_pos hshared, hutaken,
      List.getElem?_append_right (Nat.le_of_eq hlen), hlen]
    rfl

private theorem not_fifo (hoffered : f.offered[65535]? = some 0) (htaken : f.taken[65535]? = some 1) :
    ¬f.Fifo := by
  intro h
  obtain ⟨more, hmore⟩ := h.order
  have hlt := (List.getElem?_eq_some_iff.1 htaken).1
  rw [← hmore, List.getElem?_append_left hlt, htaken] at hoffered
  cases hoffered

/-- The reader takes the heads offered in their order, for just those valid ring sizes that the wrap of
the indices does not shift by less than the number of requests that the pool has room for. -/
theorem fifo_iff {c : DriveConfig} (valid : c.isValid = true) {arena rest : Arena} {ring : AvailRing}
    (fresh : AvailRing.ofSize c.queueSize arena = .ok (ring, rest)) :
    (∀ f, Run { ring } f → f.Fifo) ↔
      65536 % c.queueSize.toNat = 0 ∨
        c.queueSize.toNat / descriptorsPerRequest ≤ 65536 % c.queueSize.toNat := by
  obtain ⟨hsized, hindex⟩ := sized_of_ofSize valid fresh
  constructor
  · intro h
    rcases Nat.eq_zero_or_pos (65536 % c.queueSize.toNat) with hzero | hpos
    · exact .inl hzero
    refine .inr (Nat.le_of_not_lt fun hwrap => ?_)
    obtain ⟨f, hrun, hoffered, htaken⟩ := hsized.exists_overwritten rfl hindex rfl rfl hpos hwrap
    exact not_fifo hoffered htaken (h f hrun)
  · intro hwrap f hrun
    obtain ⟨heads, hf⟩ : ∃ heads, f.Orderly c.queueSize.toNat heads := by
      induction hrun with
      | refl => exact ⟨[], hsized, rfl, Nat.zero_le _, hindex, fun i hi => absurd hi (Nat.not_lt_zero i)⟩
      | tail _ step ih =>
        obtain ⟨heads, hf⟩ := ih
        exact hf.step hwrap step
    exact hf.fifo

/-- A ring of eight entries keeps the order, as its size divides the wrap. -/
theorem fifo_sample :
    ∃ ring rest, DriveConfig.isValid {} = true ∧ AvailRing.ofSize 8 ⟨1⟩ = .ok (ring, rest) ∧
      ∀ f, Run { ring } f → f.Fifo := by
  have valid : DriveConfig.isValid {} = true := by decide
  have fresh : AvailRing.ofSize 8 ⟨1⟩ = .ok (⟨Region.page 1, 8⟩, ⟨2⟩) :=
    AvailRing.ofSize_after ⟨1⟩ 0 (by decide)
  exact ⟨_, _, valid, fresh, (fifo_iff valid fresh).2 (.inl (by decide))⟩

/-- A ring of thirteen entries is shifted by three at the wrap while four requests fit in the pool: the
last head offered before the wrap is lost, and the reader takes another one in its place. -/
theorem not_fifo_sample :
    ∃ ring rest f, DriveConfig.isValid { queueSize := 13 } = true ∧
      AvailRing.ofSize 13 ⟨1⟩ = .ok (ring, rest) ∧ Run { ring } f ∧
      f.offered[65535]? = some 0 ∧ f.taken[65535]? = some 1 ∧ ¬f.Fifo := by
  have valid : DriveConfig.isValid { queueSize := 13 } = true := by decide
  have fresh : AvailRing.ofSize 13 ⟨1⟩ = .ok (⟨Region.page 1, 13⟩, ⟨2⟩) :=
    AvailRing.ofSize_after ⟨1⟩ 0 (by decide)
  obtain ⟨hsized, hindex⟩ := sized_of_ofSize valid fresh
  obtain ⟨f, hrun, hoffered, htaken⟩ :=
    hsized.exists_overwritten rfl hindex rfl rfl (by decide) (by decide)
  exact ⟨_, _, f, valid, fresh, hrun, hoffered, htaken, not_fifo hoffered htaken⟩

end Feed

end DiskStack
