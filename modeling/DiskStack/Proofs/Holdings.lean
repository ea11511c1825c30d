import DiskStack.Proofs.PoolDealings

/-!
# Who has which slot

The dealings with a pool alone tell which slots have been handed out and not come back, and what each
of those was filled with last; a chain that comes back is read off these descriptors. Main result: the
pool agrees with that account after every run. The bitmap shows as free exactly the slots that are not
out, the lowest of them is handed out next, a slot that is out is not handed out again before it has
come back, and its descriptor is the one that its user filled it with.
-/

namespace DiskStack

namespace DescriptorPool

/-- What the slots that are out were filled with last. -/
abbrev Holdings := UInt16 → Option Descriptor

namespace Holdings

/-- The slots that the links of the descriptors lead through, so many of them. -/
def linked (held : Holdings) : Nat → UInt16 → List UInt16
  | 0, _ => []
  | count + 1, i => i :: held.linked count ((held i).getD .empty).next

end Holdings

namespace Dealing

/-- The slots that a dealing hands out. -/
@[simp] def handed : Dealing → List UInt16
  | .takeOne answer => answer.toList
  | .takeChain _ answer => answer.getD []
  | .giveOne _ | .giveChain .. | .fill .. => []

/-- The slots that come back. -/
@[simp] def returned (held : Holdings) : Dealing → List UInt16
  | .giveOne i => [i]
  | .giveChain head count => held.linked count head
  | .takeOne _ | .takeChain .. | .fill .. => []

@[simp] def filling? (i : UInt16) : Dealing → Option Descriptor
  | .fill j d => if i = j then some d else none
  | .takeOne _ | .takeChain .. | .giveOne _ | .giveChain .. => none

/-- What is out after a dealing. A slot is handed out empty. -/
def after (held : Holdings) (d : Dealing) : Holdings := fun i =>
  if i ∈ d.handed then some .empty
  else if i ∈ d.returned held then none
  else (d.filling? i).or (held i)

end Dealing

/-- What is out after some dealings, latest first. -/
def holdings : List Dealing → Holdings
  | [] => fun _ => none
  | d :: earlier => d.after (holdings earlier)

/-- What a pool has in its taken slots. -/
def contents (p : DescriptorPool) : Holdings := fun i =>
  if p.IsTaken i.toNat then some (p.slot i.toNat) else none

/-- A pool of some size agrees with what has been done with it. -/
structure Accounted (size : UInt16) (history : List Dealing) (p : DescriptorPool) : Prop where
  bounded : ∀ i, p.free.getLsbD i = true → i < size.toNat
  shown : ∀ i, p.isFree i = true ↔ i < size ∧ holdings history i = none
  balance : p.numFree +
    (List.range size.toNat).countP (fun i => (holdings history (UInt16.ofNat i)).isSome) = size.toNat
  one : ∀ i q, p.allocOne = some (i, q) → i < size ∧ holdings history i = none ∧
    ∀ j, j < i → (holdings history j).isSome = true
  several : ∀ count l q, allocChain count p = .ok (some l, q) →
    l.length = count ∧ l.Pairwise (· < ·) ∧ ∀ i ∈ l, i < size ∧ holdings history i = none ∧
      ∀ j, j < i → j ∉ l → (holdings history j).isSome = true
  exhausted : p.allocOne = none → ∀ i, i < size → (holdings history i).isSome = true
  blank : ∀ i, i < size → holdings history i = none → p.get i = .ok .empty
  recalled : ∀ i d, holdings history i = some d → p.get i = .ok d
  once : ∀ later again between first earlier i,
    history = later ++ again :: (between ++ first :: earlier) → i ∈ first.handed → i ∈ again.handed →
      ∃ after back before, between = after ++ back :: before ∧
        i ∈ back.returned (holdings (before ++ first :: earlier))

variable {p q made : DescriptorPool} {d : Dealing} {history earlier : List Dealing} {i : UInt16}
  {l : List UInt16}

/-! ### What the dealings do to the contents -/

private theorem IsTaken.contents_eq (h : p.IsTaken i.toNat) : p.contents i = some (p.slot i.toNat) :=
  if_pos h

private theorem contents_eq_none_iff : p.contents i = none ↔ ¬p.IsTaken i.toNat := by
  rw [contents]
  split <;> simp [*]

private theorem isSome_contents_iff : (p.contents i).isSome = true ↔ p.IsTaken i.toNat := by
  rw [contents]
  split <;> simp [*]

private theorem Clean.slot_eq_empty (hp : p.Clean) {n : Nat} (h : p.free.getLsbD n = true) :
    p.slot n = .empty := by
  have hload : p.table.load (Descriptor.width * n) Descriptor.width =
      List.replicate Descriptor.width 0 := by
    rw [Region.load, List.eq_replicate_iff]
    refine ⟨by simp, fun b hb => ?_⟩
    obtain ⟨k, hk, rfl⟩ := List.mem_map.1 hb
    have hplace : (Descriptor.width * n + k) / Descriptor.width = n := by
      rw [Nat.mul_add_div (by decide), Nat.div_eq_of_lt (List.mem_range.1 hk), Nat.add_zero]
    exact hp.blank _ (by rw [hplace]; exact h)
  rw [slot, hload]
  rfl

private theorem mem_map_toNat : i.toNat ∈ l.map UInt16.toNat ↔ i ∈ l := by
  rw [List.mem_map]
  exact ⟨fun ⟨j, hj, he⟩ => UInt16.toNat_inj.1 he ▸ hj, fun h => ⟨i, h, rfl⟩⟩

private theorem Sound.isTaken_takeSlots (hp : p.Sound) (free : ∀ j ∈ l, p.free.getLsbD j.toNat = true) :
    (p.takeSlots l).IsTaken i.toNat ↔ i ∈ l ∨ p.IsTaken i.toNat := by
  rw [IsTaken, IsTaken, size_takeSlots]
  by_cases hi : i.toNat < p.size.toNat
  · rw [free_takeSlots _ (hp.lt hi)]
    by_cases hmem : i ∈ l <;> simp [hi, hmem, mem_map_toNat]
  · have hnot : i ∉ l := fun hmem => hi (hp.bounded _ (free i hmem))
    simp [hi, hnot]

private theorem Sound.isTaken_giveBackAll (hp : p.Sound) (h : ∀ j ∈ l, j.toNat < p.size.toNat) :
    (p.giveBackAll l).IsTaken i.toNat ↔ i ∉ l ∧ p.IsTaken i.toNat := by
  rw [IsTaken, IsTaken, size_giveBackAll, free_giveBackAll fun j hj => hp.lt (h j hj)]
  by_cases hmem : i ∈ l <;> simp [hmem, mem_map_toNat]

private theorem Clean.contents_takeSlots (hp : p.Clean) (free : ∀ j ∈ l, p.free.getLsbD j.toNat = true) :
    (p.takeSlots l).contents i = if i ∈ l then some .empty else p.contents i := by
  simp only [contents, hp.isTaken_takeSlots free, slot_takeSlots]
  by_cases hmem : i ∈ l
  · rw [if_pos (.inl hmem), if_pos hmem, hp.slot_eq_empty (free i hmem)]
  · simp only [hmem, false_or, if_false]

private theorem Sound.contents_giveBackAll (hp : p.Sound) (h : ∀ j ∈ l, j.toNat < p.size.toNat) :
    (p.giveBackAll l).contents i = if i ∈ l then none else p.contents i := by
  simp only [contents, hp.isTaken_giveBackAll h, slot_giveBackAll hp h, mem_map_toNat]
  by_cases hmem : i ∈ l <;> simp [hmem]

private theorem Sound.contents_write (hp : p.Sound) {j : UInt16} (hj : p.IsTaken j.toNat) (e : Descriptor) :
    (p.write j.toNat e).contents i = if i = j then some e else p.contents i := by
  have htaken : (p.write j.toNat e).IsTaken i.toNat ↔ p.IsTaken i.toNat := by
    rw [IsTaken, IsTaken, size_write, free_write]
  simp only [contents, htaken, slot_write _ _ (hp.fits hj.1), UInt16.toNat_inj]
  by_cases hij : i = j
  · simp [hij, hj]
  · simp [hij]

/-- The links of a chain are those of the descriptors that its slots were filled with. -/
private theorem IsChain.linked_contents (chain : p.IsChain i l) : p.contents.linked l.length i = l := by
  obtain ⟨path, -, taken⟩ := chain
  induction path with
  | last i h => rfl
  | link i l h rest ih =>
    rw [List.length_cons, Holdings.linked, (taken i (List.mem_cons_self ..)).contents_eq]
    exact congrArg _ (ih fun j hj => taken j (List.mem_cons_of_mem _ hj))

private theorem Clean.contents_deals (hp : p.Clean) (h : p.Deals d q) :
    q.contents = d.after p.contents := by
  funext i
  cases hp.amounts h with
  | takeOne j hj =>
    have hfree : ∀ k ∈ [j], p.free.getLsbD k.toNat = true := fun k hk => by
      rw [List.mem_singleton.1 hk]
      exact mem_freeSlots.1 (List.mem_of_head? hj)
    rw [hp.contents_takeSlots hfree]
    simp [Dealing.after]
  | takeNone => simp [Dealing.after]
  | takeChain count hcount =>
    have hfree : ∀ k ∈ p.freeSlots.take count, p.free.getLsbD k.toNat = true := fun k hk =>
      mem_freeSlots.1 (List.mem_of_mem_take hk)
    rw [hp.contents_takeSlots hfree]
    simp [Dealing.after]
  | takeTooMany => simp [Dealing.after]
  | giveOne j taken =>
    rw [hp.contents_giveBackAll fun k hk => by
      rw [List.mem_singleton.1 hk]
      exact taken.1]
    simp [Dealing.after]
  | giveChain head l chain =>
    rw [hp.contents_giveBackAll fun k hk => (chain.taken k hk).1]
    simp [Dealing.after, chain.linked_contents]
  | fill j e taken =>
    rw [hp.contents_write taken]
    by_cases hij : i = j <;> simp [Dealing.after, hij]

theorem Clean.agrees_of_run (hp : made.Clean) (hnone : made.contents = holdings [])
    (run : made.Run history p) : p.Clean ∧ p.size = made.size ∧ p.contents = holdings history := by
  induction run with
  | start => exact ⟨hp, rfl, hnone⟩
  | deal d history q q' _ h ih =>
    obtain ⟨hq, hsize, hc⟩ := ih
    refine ⟨hq.deals h, Eq.trans ?_ hsize, by rw [hq.contents_deals h, hc, holdings]⟩
    cases hq.amounts h <;> simp [takeSlot]

/-! ### A slot goes out once -/

private theorem Run.exists_deals {later : List Dealing} (run : made.Run (later ++ d :: earlier) p) :
    ∃ q q', made.Run earlier q ∧ q.Deals d q' := by
  generalize hall : later ++ d :: earlier = all at run
  induction run generalizing later with
  | start => cases later <;> cases hall
  | deal d' history q q' before h ih =>
    cases later with
    | nil =>
      cases hall
      exact ⟨q, q', before, h⟩
    | cons last later =>
      cases hall
      exact ih rfl

private theorem Clean.not_isTaken_of_handed (hp : p.Clean) (h : p.Deals d q) (hi : i ∈ d.handed) :
    ¬p.IsTaken i.toNat := by
  have hfree : i ∈ p.freeSlots := by
    cases hp.amounts h with
    | takeOne j hj =>
      rw [Dealing.handed, Option.toList_some, List.mem_singleton] at hi
      exact hi ▸ List.mem_of_head? hj
    | takeChain count _ => exact List.mem_of_mem_take hi
    | takeNone => cases hi
    | takeTooMany => cases hi
    | giveOne => cases hi
    | giveChain => cases hi
    | fill => cases hi
  rintro ⟨-, htaken⟩
  rw [mem_freeSlots.1 hfree] at htaken
  cases htaken

private theorem exists_returned {between : List Dealing} {first : Dealing} (hi : i ∈ first.handed)
    (hnone : holdings (between ++ first :: earlier) i = none) :
    ∃ after back before, between = after ++ back :: before ∧
      i ∈ back.returned (holdings (before ++ first :: earlier)) := by
  induction between with
  | nil =>
    rw [List.nil_append, holdings, Dealing.after, if_pos hi] at hnone
    cases hnone
  | cons back before ih =>
    by_cases hback : i ∈ back.returned (holdings (before ++ first :: earlier))
    · exact ⟨[], back, before, rfl, hback⟩
    · rw [List.cons_append, holdings, Dealing.after] at hnone
      split at hnone
      · cases hnone
      · rw [Option.or_eq_none_iff] at hnone
        obtain ⟨after, back', before', rfl, h⟩ := ih hnone.2
        exact ⟨back :: after, back', before', rfl, h⟩

/-! ### What a pool shows -/

private theorem Sound.isFree_iff_contents (hp : p.Sound) :
    p.isFree i = true ↔ i < p.size ∧ p.contents i = none := by
  rw [hp.isFree_iff, contents_eq_none_iff, IsTaken, UInt16.lt_iff_toNat_lt, not_and,
    Bool.not_eq_false]
  exact ⟨fun h => ⟨hp.bounded _ h, fun _ => h⟩, fun h => h.2 h.1⟩

private theorem Sound.contents_lowest (hp : p.Sound) {count : Nat} (h : p.Lowest count l) (hi : i ∈ l) :
    i < p.size ∧ p.contents i = none ∧
      ∀ j, j < i → j ∉ l → (p.contents j).isSome = true := by
  obtain ⟨hlt, hnone⟩ := hp.isFree_iff_contents.1 (h.free i hi)
  refine ⟨hlt, hnone, fun j hj hnot => Option.isSome_iff_ne_none.2 fun hin => ?_⟩
  have hfree : p.isFree j = true := hp.isFree_iff_contents.2 ⟨UInt16.lt_trans hj hlt, hin⟩
  exact UInt16.lt_asymm hj (h.least i hi j hfree hnot)

private theorem Sound.lowest_of_allocOne (hp : p.Sound) (h : p.allocOne = some (i, q)) :
    p.Lowest 1 [i] := by
  obtain ⟨j, hj, heq⟩ := Option.map_eq_some_iff.1 (allocOne_eq.symm.trans h)
  cases heq
  obtain ⟨rest, hfree⟩ := List.head?_eq_some_iff.1 hj
  have hsome : 1 ≤ p.numFree := by
    rw [← length_freeSlots, hfree]
    exact Nat.succ_pos _
  have hlow := hp.lowest hsome
  rwa [hfree] at hlow

private theorem isSome_contents_of_allocOne (h : p.allocOne = none) (hi : i < p.size) :
    (p.contents i).isSome = true := by
  have hnone : p.freeSlots = [] :=
    List.head?_eq_none_iff.1 (Option.map_eq_none_iff.1 (allocOne_eq.symm.trans h))
  refine isSome_contents_iff.2 ⟨UInt16.lt_iff_toNat_lt.1 hi, Bool.eq_false_iff.2 fun hfree => ?_⟩
  have hmem := mem_freeSlots.2 hfree
  rw [hnone] at hmem
  cases hmem

private theorem Clean.get_of_contents_none (hp : p.Clean) (hi : i < p.size) (h : p.contents i = none) :
    p.get i = .ok .empty := by
  have hfree := hp.isFree_iff.1 (hp.isFree_iff_contents.2 ⟨hi, h⟩)
  rw [get_of_lt hi, hp.slot_eq_empty hfree]

private theorem get_of_contents {e : Descriptor} (h : p.contents i = some e) : p.get i = .ok e := by
  have taken := isSome_contents_iff.1 (Option.isSome_of_eq_some h)
  rw [taken.contents_eq] at h
  rw [get_of_lt (UInt16.lt_iff_toNat_lt.2 taken.1), Option.some.inj h]

private theorem Sound.balance (hp : p.Sound) :
    p.numFree + (List.range p.size.toNat).countP (fun i => (p.contents (UInt16.ofNat i)).isSome) =
      p.size.toNat := by
  have hfree : p.numFree = (List.range p.size.toNat).countP p.free.getLsbD :=
    countP_range_of_le hp.small fun j hle _ => Bool.eq_false_iff.2 fun h =>
      Nat.not_lt.2 hle (hp.bounded j h)
  have hout : (List.range p.size.toNat).countP (fun i => (p.contents (UInt16.ofNat i)).isSome) =
      (List.range p.size.toNat).countP (fun i => decide ¬p.free.getLsbD i = true) := by
    refine List.countP_congr fun i hi => ?_
    have hlt := List.mem_range.1 hi
    have hnat : (UInt16.ofNat i).toNat = i :=
      UInt16.toNat_ofNat_of_lt' (Nat.lt_trans hlt p.size.toNat_lt)
    rw [isSome_contents_iff, hnat, IsTaken, decide_eq_true_eq, Bool.not_eq_true]
    exact and_iff_right hlt
  rw [hfree, hout, ← List.length_eq_countP_add_countP, List.length_range]

private theorem contents_of_full (hp : p.Sound) (h : p.free = BitVec.twoPow 64 p.size.toNat - 1) :
    p.contents = holdings [] := by
  funext i
  refine contents_eq_none_iff.2 fun ⟨hlt, hfree⟩ => ?_
  rw [h, getLsbD_full hp.small (hp.lt hlt), decide_eq_false_iff_not] at hfree
  exact hfree hlt

/-- After every run that does not halt, a pool agrees with what has been done with it. -/
theorem holdings_accounted {size : UInt16} {arena rest : Arena}
    (fresh : ofSize size arena = .ok (made, rest)) (run : made.Run history p) :
    Accounted size history p := by
  obtain ⟨hmade, rfl, hfull⟩ := of_ofSize fresh
  have hnone := contents_of_full hmade.toSound hfull
  obtain ⟨hp, hsize, hc⟩ := hmade.agrees_of_run hnone run
  have lowest : ∀ count l, p.Lowest count l → ∀ i ∈ l, i < p.size ∧ holdings history i = none ∧
      ∀ j, j < i → j ∉ l → (holdings history j).isSome = true := fun count l h i hi => by
    rw [← hc]
    exact hp.contents_lowest h hi
  rw [← hsize]
  constructor
  case bounded => exact hp.bounded
  case shown =>
    rw [← hc]
    exact fun i => hp.isFree_iff_contents
  case balance =>
    rw [← hc]
    exact hp.balance
  case one =>
    intro i q h
    obtain ⟨hlt, hout, hbelow⟩ := lowest _ _ (hp.lowest_of_allocOne h) i (List.mem_singleton_self i)
    exact ⟨hlt, hout, fun j hj => hbelow j hj fun hmem =>
      UInt16.ne_of_lt hj (List.mem_singleton.1 hmem)⟩
  case several =>
    intro count l q h
    rcases Nat.lt_or_ge p.numFree count with hlt | hge
    · cases (hp.allocChain_of_lt hlt).symm.trans h
    · cases (allocChain_of_le hge).symm.trans h
      have hlow := hp.lowest hge
      exact ⟨hlow.length, hlow.ascending, lowest _ _ hlow⟩
  case exhausted =>
    rw [← hc]
    exact fun h i => isSome_contents_of_allocOne h
  case blank =>
    rw [← hc]
    exact fun i => hp.get_of_contents_none
  case recalled =>
    rw [← hc]
    exact fun i e => get_of_contents
  case once =>
    rintro later again between first earlier i rfl hfirst hagain
    obtain ⟨q, q', before, h⟩ := run.exists_deals
    obtain ⟨hq, -, hqc⟩ := hmade.agrees_of_run hnone before
    refine exists_returned hfirst ?_
    rw [← hqc]
    exact contents_eq_none_iff.2 (hq.not_isTaken_of_handed h hagain)

/-- Two slots are taken and the second is filled; the first comes back and is taken again. -/
def reuse : List Dealing :=
  [.takeOne (some 0), .giveOne 0, .fill 1 (linkTo 2), .takeOne (some 1), .takeOne (some 0)]

def reused : DescriptorPool :=
  (((three.takeSlots [0, 1]).write 1 (linkTo 2)).giveBack 0).takeSlots [0]

private theorem run_reuse : three.Run reuse reused :=
  .deal _ _ _ _ (.deal _ _ _ _ (.deal _ _ _ _ (.deal _ _ _ _ (.deal _ _ _ _ .start
    (.takeOne 0 (three.takeSlots [0]) rfl)) (.takeOne 1 (three.takeSlots [0, 1]) rfl))
    (.fill 1 _ _ ⟨by decide, by decide⟩ rfl)) (.giveOne 0 _ (IsTaken.freeOne ⟨by decide, by decide⟩)))
    (.takeOne 0 reused rfl)

theorem holdings_accounted_reuse :
    ofSize 3 ⟨1⟩ = .ok (three, ⟨2⟩) ∧ three.Run reuse reused ∧ Accounted 3 reuse reused :=
  ⟨ofSize_three, run_reuse, holdings_accounted ofSize_three run_reuse⟩

end DescriptorPool

end DiskStack
