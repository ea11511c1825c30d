import DiskStack.Proofs.ChainRelease
import DiskStack.Proofs.Handshake

/-!
# Dealings with a pool

Users take slots one at a time or several together, fill those they have, and give them back one at
a time or as a chain. Whatever they do, short of a halt, the descriptors of the free slots stay zero.
Main result: several slots are taken all together or not at all. If there are enough, the lowest are
taken; if not, those taken on the way go back, and since that writes zeros over zeros no trace of them
is left.
-/

namespace DiskStack

private theorem Region.ext_byte {r s : Region} (hbase : r.base = s.base) (hsize : r.size = s.size)
    (hstrays : r.strays = s.strays) (h : ∀ k, r.byte k = s.byte k) : r = s := by
  cases r with
  | mk base bytes strays =>
    cases s with
    | mk base' bytes' strays' =>
      have hbytes : bytes = bytes' := by
        refine Array.ext hsize fun k hk hk' => ?_
        have hbyte := h k
        rw [byte, byte, Array.getD_eq_getD_getElem?, Array.getD_eq_getD_getElem?,
          Array.getElem?_eq_getElem hk, Array.getElem?_eq_getElem hk'] at hbyte
        exact hbyte
      rw [show base = base' from hbase, hbytes, show strays = strays' from hstrays]

namespace DescriptorPool

/-- The lowest free slots, so many of them, in ascending order. -/
structure Lowest (p : DescriptorPool) (count : Nat) (l : List UInt16) : Prop where
  length : l.length = count
  ascending : l.Pairwise (· < ·)
  free : ∀ i ∈ l, p.isFree i = true
  least : ∀ i ∈ l, ∀ j, p.isFree j = true → j ∉ l → i < j

/-- Some slots of a pool have been taken: their bits are clear, and nothing else has changed. -/
structure Took (p : DescriptorPool) (l : List UInt16) (q : DescriptorPool) : Prop where
  table : q.table = p.table
  size : q.size = p.size
  free : ∀ i, i < 64 →
    q.free.getLsbD i = (p.free.getLsbD i && decide (i ∉ l.map UInt16.toNat))

/-- A sound pool whose free slots hold zeros. -/
structure Clean (p : DescriptorPool) : Prop extends Sound p where
  blank : ∀ k, p.free.getLsbD (k / Descriptor.width) = true → p.table.byte k = 0

/-- What a user asks of a pool, with the answer. -/
inductive Dealing
  | takeOne (answer : Option UInt16)
  | takeChain (count : Nat) (answer : Option (List UInt16))
  | giveOne (i : UInt16)
  | giveChain (head : UInt16) (count : Nat)
  | fill (i : UInt16) (d : Descriptor)

/-- A dealing that does not halt; only taken slots are filled. -/
inductive Deals (p : DescriptorPool) : Dealing → DescriptorPool → Prop
  | takeOne (i : UInt16) (q : DescriptorPool) (h : p.allocOne = some (i, q)) :
    Deals p (.takeOne (some i)) q
  | takeNone (h : p.allocOne = none) : Deals p (.takeOne none) p
  | takeChain (count : Nat) (answer : Option (List UInt16)) (q : DescriptorPool)
    (h : allocChain count p = .ok (answer, q)) : Deals p (.takeChain count answer) q
  | giveOne (i : UInt16) (q : DescriptorPool) (h : p.freeOne i = .ok q) : Deals p (.giveOne i) q
  | giveChain (head : UInt16) (count : Nat) (q : DescriptorPool)
    (h : p.freeChain head = .ok (count, q)) : Deals p (.giveChain head count) q
  | fill (i : UInt16) (d : Descriptor) (q : DescriptorPool) (taken : p.IsTaken i.toNat)
    (h : p.set i d = .ok q) : Deals p (.fill i d) q

/-- What has been done with a pool so far, latest first. -/
inductive Run (p : DescriptorPool) : List Dealing → DescriptorPool → Prop
  | start : Run p [] p
  | deal (d : Dealing) (history : List Dealing) (q q' : DescriptorPool) (before : Run p history q)
    (h : q.Deals d q') : Run p (d :: history) q'

/-- What the dealings with a clean pool amount to. -/
inductive Amounts (p : DescriptorPool) : Dealing → DescriptorPool → Prop
  | takeOne (i : UInt16) (h : p.freeSlots.head? = some i) :
    Amounts p (.takeOne (some i)) (p.takeSlots [i])
  | takeNone (h : p.freeSlots = []) : Amounts p (.takeOne none) p
  | takeChain (count : Nat) (h : count ≤ p.numFree) :
    Amounts p (.takeChain count (some (p.freeSlots.take count))) (p.takeSlots (p.freeSlots.take count))
  | takeTooMany (count : Nat) (h : p.numFree < count) : Amounts p (.takeChain count none) p
  | giveOne (i : UInt16) (h : p.IsTaken i.toNat) : Amounts p (.giveOne i) (p.giveBackAll [i])
  | giveChain (head : UInt16) (l : List UInt16) (h : p.IsChain head l) :
    Amounts p (.giveChain head l.length) (p.giveBackAll l)
  | fill (i : UInt16) (d : Descriptor) (h : p.IsTaken i.toNat) :
    Amounts p (.fill i d) (p.write i.toNat d)

variable {p q made : DescriptorPool} {d : Dealing} {history : List Dealing} {i : UInt16}
  {l : List UInt16} {count : Nat}

/-! ### Taking the lowest slots -/

theorem Sound.isFree_iff (hp : p.Sound) : p.isFree i = true ↔ p.free.getLsbD i.toNat = true := by
  rw [isFree, Bool.and_eq_true, decide_eq_true_eq, and_iff_right_iff_imp]
  exact fun h => UInt16.lt_iff_toNat_lt.2 (hp.bounded _ h)

private theorem took_takeSlots : p.Took l (p.takeSlots l) :=
  ⟨table_takeSlots, size_takeSlots, fun i hi => free_takeSlots i hi⟩

theorem Sound.lowest (hp : p.Sound) (h : count ≤ p.numFree) :
    p.Lowest count (p.freeSlots.take count) where
  length := by rw [List.length_take, length_freeSlots, Nat.min_eq_left h]
  ascending := pairwise_freeSlots.sublist (List.take_sublist ..)
  free i hi := hp.isFree_iff.2 (mem_freeSlots.1 (List.mem_of_mem_take hi))
  least i hi j hj hnot := by
    have hmem := mem_freeSlots.2 (hp.isFree_iff.1 hj)
    have hsplit := p.pairwise_freeSlots
    rw [← List.take_append_drop count p.freeSlots] at hmem hsplit
    rcases List.mem_append.1 hmem with htaken | hleft
    · exact absurd htaken hnot
    · exact (List.pairwise_append.1 hsplit).2.2 i hi j hleft

/-! ### Taking too many slots -/

private theorem foldlM_freeOne (hp : p.Sound) (hl : l.Nodup) (taken : ∀ i ∈ l, p.IsTaken i.toNat) :
    l.foldlM freeOne p = .ok (p.giveBackAll l) := by
  induction l generalizing p with
  | nil => rfl
  | cons i l ih =>
    obtain ⟨hnot, hl⟩ := List.nodup_cons.1 hl
    have first := taken i (List.mem_cons_self ..)
    rw [List.foldlM_cons, first.freeOne]
    exact ih (hp.giveBack first.1) hl fun j hj =>
      (taken j (List.mem_cons_of_mem _ hj)).giveBack (hp.lt first.1) fun he =>
        hnot (UInt16.toNat_inj.1 he ▸ hj)

private theorem Clean.giveBackAll_takeSlots (hp : p.Clean) (free : ∀ i ∈ l, p.free.getLsbD i.toNat = true) :
    (p.takeSlots l).giveBackAll l = p := by
  have released : (p.takeSlots l).Released l _ :=
    released_giveBackAll hp.toSound.takeSlots fun i hi => by
      rw [size_takeSlots]
      exact hp.bounded _ (free i hi)
  have htable : ((p.takeSlots l).giveBackAll l).table = p.table := by
    refine Region.ext_byte (released.base.trans (by rw [table_takeSlots]))
      (released.extent.trans (by rw [table_takeSlots]))
      (released.strays.trans (by rw [table_takeSlots])) fun k => ?_
    rw [released.byte, table_takeSlots]
    split
    · next hk =>
      obtain ⟨i, hi, hplace⟩ := List.mem_map.1 hk
      exact (hp.blank k (hplace ▸ free i hi)).symm
    · rfl
  have hfree : ((p.takeSlots l).giveBackAll l).free = p.free := by
    refine BitVec.eq_of_getLsbD_eq fun n hn => ?_
    rw [released.free n hn, free_takeSlots n hn]
    by_cases hmem : n ∈ l.map UInt16.toNat
    · obtain ⟨i, hi, rfl⟩ := List.mem_map.1 hmem
      simp [free i hi, hmem]
    · simp [hmem]
  have hsize : ((p.takeSlots l).giveBackAll l).size = p.size := by
    rw [size_giveBackAll, size_takeSlots]
  generalize (p.takeSlots l).giveBackAll l = q at htable hfree hsize
  cases p
  cases q
  cases htable
  cases hfree
  cases hsize
  rfl

theorem Clean.allocChain_of_lt (hp : p.Clean) (h : p.numFree < count) :
    allocChain count p = .ok (none, p) := by
  have hall : p.freeSlots.take count = p.freeSlots :=
    List.take_of_length_le (by rw [length_freeSlots]; exact Nat.le_of_lt h)
  have hfew : p.freeSlots.length ≠ count := by
    rw [length_freeSlots]
    exact Nat.ne_of_lt h
  have free : ∀ i ∈ p.freeSlots, p.free.getLsbD i.toNat = true := fun i hi => mem_freeSlots.1 hi
  have back : p.freeSlots.foldlM freeOne (p.takeSlots p.freeSlots) = .ok p := by
    rw [foldlM_freeOne hp.toSound.takeSlots nodup_freeSlots fun i hi => ?_,
      hp.giveBackAll_takeSlots free]
    refine ⟨by rw [size_takeSlots]; exact hp.bounded _ (free i hi), ?_⟩
    rw [free_takeSlots _ (BitVec.lt_of_getLsbD (free i hi))]
    simp [List.mem_map_of_mem hi]
  rw [allocChain, takeFree_eq, hall]
  simp only [if_neg hfew, back, bind, Except.bind]

/-! ### What a dealing keeps -/

private theorem Clean.takeSlots (hp : p.Clean) : (p.takeSlots l).Clean where
  toSound := hp.toSound.takeSlots
  blank k hk := by
    rw [free_takeSlots _ (BitVec.lt_of_getLsbD hk), Bool.and_eq_true] at hk
    rw [table_takeSlots]
    exact hp.blank k hk.1

private theorem Clean.giveBackAll (hp : p.Clean) (h : ∀ i ∈ l, i.toNat < p.size.toNat) :
    (p.giveBackAll l).Clean where
  toSound := hp.toSound.giveBackAll h
  blank k hk := by
    have released := released_giveBackAll hp.toSound h
    rw [released.free _ (BitVec.lt_of_getLsbD hk), Bool.or_eq_true, decide_eq_true_eq] at hk
    rw [released.byte]
    split
    · rfl
    · next hnot => exact hp.blank k (hk.resolve_right hnot)

private theorem Clean.write (hp : p.Clean) {n : Nat} (hn : p.IsTaken n) (d : Descriptor) :
    (p.write n d).Clean where
  toSound := hp.toSound.write n d
  blank k hk := by
    rw [free_write] at hk
    have hne : k / Descriptor.width ≠ n := fun he => by
      rw [he, hn.2] at hk
      cases hk
    have houtside : ¬(Descriptor.width * n ≤ k ∧ k < Descriptor.width * n + Descriptor.width ∧
        k < p.table.size) := by
      simp only [Descriptor.width] at hne ⊢
      omega
    rw [DescriptorPool.write, Region.byte_store, Descriptor.length_encode, if_neg houtside]
    exact hp.blank k hk

private theorem isTaken_of_freeOne (h : p.freeOne i = .ok q) :
    p.IsTaken i.toNat ∧ q = p.giveBack i.toNat := by
  have taken : p.IsTaken i.toNat := by
    rw [freeOne] at h
    split at h
    · cases h
    · next hi =>
      split at h
      · cases h
      · next hfree => exact ⟨UInt16.lt_iff_toNat_lt.1 (UInt16.not_le.1 hi), Bool.eq_false_iff.2 hfree⟩
  exact ⟨taken, Except.ok.inj (h.symm.trans taken.freeOne)⟩

theorem Clean.amounts (hp : p.Clean) (h : p.Deals d q) : p.Amounts d q := by
  cases h with
  | takeOne i q h =>
    obtain ⟨j, hj, heq⟩ := Option.map_eq_some_iff.1 (allocOne_eq.symm.trans h)
    cases heq
    exact .takeOne i hj
  | takeNone h =>
    exact .takeNone (List.head?_eq_none_iff.1 (Option.map_eq_none_iff.1 (allocOne_eq.symm.trans h)))
  | takeChain count answer q h =>
    rcases Nat.lt_or_ge p.numFree count with hlt | hge
    · cases (hp.allocChain_of_lt hlt).symm.trans h
      exact .takeTooMany count hlt
    · cases (allocChain_of_le hge).symm.trans h
      exact .takeChain count hge
  | giveOne i q h =>
    obtain ⟨taken, rfl⟩ := isTaken_of_freeOne h
    exact .giveOne i taken
  | giveChain head count q h =>
    obtain ⟨l, chain, rfl, rfl⟩ := hp.toSound.isChain_of_freeChain h
    exact .giveChain head l chain
  | fill i e q taken h =>
    cases (set_of_lt e (UInt16.lt_iff_toNat_lt.2 taken.1)).symm.trans h
    exact .fill i e taken

theorem Clean.deals (hp : p.Clean) (h : p.Deals d q) : q.Clean := by
  cases hp.amounts h with
  | takeOne => exact hp.takeSlots
  | takeNone => exact hp
  | takeChain => exact hp.takeSlots
  | takeTooMany => exact hp
  | giveOne i taken =>
    exact hp.giveBackAll fun j hj => by
      rw [List.mem_singleton.1 hj]
      exact taken.1
  | giveChain head l chain => exact hp.giveBackAll fun j hj => (chain.taken j hj).1
  | fill i e taken => exact hp.write taken e

private theorem Clean.run (hp : made.Clean) (run : made.Run history p) : p.Clean := by
  induction run with
  | start => exact hp
  | deal d history q q' _ h ih => exact ih.deals h

theorem of_ofSize {size : UInt16} {arena rest : Arena} (fresh : ofSize size arena = .ok (made, rest)) :
    made.Clean ∧ made.size = size ∧ made.free = BitVec.twoPow 64 size.toNat - 1 := by
  rw [ofSize] at fresh
  split at fresh
  · cases fresh
  · next hsize =>
    have hsmall : size.toNat ≤ 64 := UInt16.le_iff_toNat_le.1 (UInt16.not_lt.1 fun h => hsize (.inr h))
    have hroom := Region.le_roundUp (size.toNat * Descriptor.width)
    split at fresh
    · cases fresh
    · next table rest' htable =>
      obtain ⟨base, rfl⟩ := Arena.exists_of_zeroed htable
      cases fresh
      refine ⟨⟨⟨hsmall, ?_, fun i hi => ?_⟩, fun k _ => Region.byte_zeroed ..⟩, rfl, rfl⟩
      · change _ ≤ (Array.replicate _ _).size
        rw [Array.size_replicate, Nat.mul_comm]
        exact hroom
      · change (BitVec.twoPow 64 size.toNat - 1).getLsbD i = true at hi
        rw [getLsbD_full hsmall (BitVec.lt_of_getLsbD hi)] at hi
        exact of_decide_eq_true hi

/-- Whatever has been done with a pool, several slots are taken just when so many are free. They are
the lowest free ones, in ascending order; if there are not enough, the pool is exactly as before. -/
theorem allocChain_all_or_nothing {size : UInt16} {arena rest : Arena}
    (fresh : ofSize size arena = .ok (made, rest)) (run : made.Run history p) (count : Nat) :
    (count ≤ p.numFree →
      ∃ l q, allocChain count p = .ok (some l, q) ∧ p.Lowest count l ∧ p.Took l q) ∧
    (p.numFree < count → allocChain count p = .ok (none, p)) := by
  have hp := (of_ofSize fresh).1.run run
  exact ⟨fun h => ⟨_, _, allocChain_of_le h, hp.toSound.lowest h, took_takeSlots⟩,
    hp.allocChain_of_lt⟩

/-- A pool of three slots that nothing has been done with. -/
def three : DescriptorPool := ⟨Region.page 1, 3, BitVec.twoPow 64 3 - 1⟩

theorem ofSize_three : ofSize 3 ⟨1⟩ = .ok (three, ⟨2⟩) :=
  ofSize_after ⟨1⟩ 0 (by decide) (by decide)

private theorem run_three :
    three.Run [.giveOne 0, .takeOne (some 1), .takeOne (some 0)] ((three.takeSlots [0, 1]).giveBack 0) :=
  .deal _ _ _ _ (.deal _ _ _ _ (.deal _ _ _ _ .start (.takeOne 0 (three.takeSlots [0]) rfl))
    (.takeOne 1 (three.takeSlots [0, 1]) rfl))
    (.giveOne 0 _ (IsTaken.freeOne ⟨by decide, by decide⟩))

/-- Of two slots that are free again, two can be taken at once but not three. -/
theorem allocChain_all_or_nothing_three :
    ofSize 3 ⟨1⟩ = .ok (three, ⟨2⟩) ∧
      three.Run [.giveOne 0, .takeOne (some 1), .takeOne (some 0)]
        ((three.takeSlots [0, 1]).giveBack 0) ∧
      (∃ l q, allocChain 2 ((three.takeSlots [0, 1]).giveBack 0) = .ok (some l, q) ∧
        ((three.takeSlots [0, 1]).giveBack 0).Lowest 2 l ∧
        ((three.takeSlots [0, 1]).giveBack 0).Took l q) ∧
      allocChain 3 ((three.takeSlots [0, 1]).giveBack 0) =
        .ok (none, (three.takeSlots [0, 1]).giveBack 0) :=
  ⟨ofSize_three, run_three, (allocChain_all_or_nothing ofSize_three run_three 2).1 (by decide),
    (allocChain_all_or_nothing ofSize_three run_three 3).2 (by decide)⟩

end DescriptorPool

end DiskStack
