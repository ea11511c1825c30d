import DiskStack.Proofs.Pool

/-!
# Giving back whatever a table links

The links of a table may lead anywhere: around in a circle, out of the table, to slots that are free
or belong to another chain. Giving back a chain follows the links as they were before it began,
although it clears the slots on its way. Main result: it gives back exactly the slots of a chain of
different taken slots that ends, and comes to a halt on everything else, in both cases after no more
slots than the pool has.
-/

namespace DiskStack

namespace DescriptorPool

/-- The links from a slot lead through some slots, in order, to a further one. -/
inductive Leads (p : DescriptorPool) : UInt16 → List UInt16 → UInt16 → Prop
  | here (i : UInt16) : Leads p i [] i
  | link (i j : UInt16) (l : List UInt16) (h : (p.slot i.toNat).hasNext = true)
      (rest : Leads p (p.slot i.toNat).next l j) : Leads p i (i :: l) j

/-- The links from a slot lead through different taken slots to a further one. -/
structure Passes (p : DescriptorPool) (i : UInt16) (l : List UInt16) (j : UInt16) : Prop where
  leads : p.Leads i l j
  nodup : l.Nodup
  taken : ∀ k ∈ l, p.IsTaken k.toNat

/-- The links from a head pass through different taken slots, up to one without a link. -/
structure IsChain (p : DescriptorPool) (head : UInt16) (l : List UInt16) : Prop where
  path : p.Path head l
  nodup : l.Nodup
  taken : ∀ i ∈ l, p.IsTaken i.toNat

/-- What stops the way along the links once some slots have been passed: there are to be no more of
them, or the next one is not in the table, or it is free by now. -/
inductive Blocked (p : DescriptorPool) (head : UInt16) (bound : Nat) (l : List UInt16) (i : UInt16) :
    Halt → Prop
  | endless (h : l.length = bound) : Blocked p head bound l i (.endlessChain head)
  | outside (more : l.length < bound) (h : p.size ≤ i) : Blocked p head bound l i .descriptorIndex
  | free (more : l.length < bound) (inside : i < p.size)
      (h : p.free.getLsbD i.toNat = true ∨ i ∈ l) : Blocked p head bound l i (.alreadyFree i)

/-- Some slots of a pool have been given back: their descriptors are zero and their bits are set, and
all other bytes and bits are as they were. -/
structure Released (p : DescriptorPool) (l : List UInt16) (q : DescriptorPool) : Prop where
  size : q.size = p.size
  base : q.table.base = p.table.base
  extent : q.table.size = p.table.size
  strays : q.table.strays = p.table.strays
  byte : ∀ k, q.table.byte k =
    if k / Descriptor.width ∈ l.map UInt16.toNat then 0 else p.table.byte k
  free : ∀ i, i < 64 →
    q.free.getLsbD i = (p.free.getLsbD i || decide (i ∈ l.map UInt16.toNat))

variable {p : DescriptorPool} {i j head : UInt16} {l : List UInt16} {bound freed : Nat}

/-! ### Giving slots back, byte by byte -/

private theorem byte_table_giveBack {n : Nat} (h : Descriptor.width * n + Descriptor.width ≤ p.table.size)
    (k : Nat) :
    (p.giveBack n).table.byte k = if k / Descriptor.width = n then 0 else p.table.byte k := by
  have hblank : ∀ m, Descriptor.empty.encode.getD m 0 = 0 := fun m => by
    change (List.replicate Descriptor.width (0 : UInt8)).getD m 0 = 0
    rw [List.getD_eq_getElem?_getD, List.getElem?_replicate]
    split <;> rfl
  have hplace : (Descriptor.width * n ≤ k ∧ k < Descriptor.width * n + Descriptor.width ∧
      k < p.table.size) ↔ k / Descriptor.width = n := by
    simp only [Descriptor.width] at h ⊢
    omega
  change (p.table.store (Descriptor.width * n) Descriptor.empty.encode).byte k = _
  rw [Region.byte_store, Descriptor.length_encode, hblank]
  simp only [hplace]

theorem released_giveBackAll (hp : p.Sound) (h : ∀ i ∈ l, i.toNat < p.size.toNat) :
    p.Released l (p.giveBackAll l) := by
  induction l generalizing p with
  | nil => exact ⟨rfl, rfl, rfl, rfl, by simp, by simp⟩
  | cons i l ih =>
    have hi := h i (List.mem_cons_self ..)
    have hsmall := hp.small
    have rest := ih (hp.giveBack hi) fun k hk => by
      rw [size_giveBack]
      exact h k (List.mem_cons_of_mem _ hk)
    refine ⟨rest.size.trans (size_giveBack _), rest.base.trans (base_table_giveBack _),
      rest.extent.trans (size_table_giveBack _),
      rest.strays.trans (Region.strays_store (hp.fits hi)), fun k => ?_, fun k hk => ?_⟩
    · rw [giveBackAll_cons, rest.byte, byte_table_giveBack (hp.fits hi)]
      by_cases hk : k / Descriptor.width = i.toNat <;> simp [hk]
    · rw [giveBackAll_cons, rest.free k hk, free_giveBack _ _ (by omega)]
      simp [Bool.or_assoc]

/-! ### The way along the links -/

theorem IsChain.length_le (h : p.IsChain head l) : l.length ≤ p.size.toNat :=
  length_le_of_lt h.nodup fun i hi => (h.taken i hi).1

private theorem Leads.congr {q : DescriptorPool} (h : p.Leads i l j)
    (same : ∀ k ∈ l, q.slot k.toNat = p.slot k.toNat) : q.Leads i l j := by
  induction h with
  | here i => exact .here i
  | link i j l hnext _ ih =>
    have hs := same i (List.mem_cons_self ..)
    refine .link i j l (by rw [hs]; exact hnext) ?_
    rw [hs]
    exact ih fun k hk => same k (List.mem_cons_of_mem _ hk)

private theorem passes_nil : p.Passes i [] i := ⟨.here i, List.nodup_nil, by simp⟩

private theorem isChain_singleton (hi : p.IsTaken i.toNat) (h : (p.slot i.toNat).hasNext = false) :
    p.IsChain i [i] := by
  refine ⟨.last i h, List.pairwise_singleton .., fun k hk => ?_⟩
  rw [List.mem_singleton.1 hk]
  exact hi

/-- Slots that are taken once another one is back were taken before, hold what they held, and do not
include that one. -/
private theorem taken_of_giveBack (hp : p.Sound) (hi : p.IsTaken i.toNat)
    (h : ∀ k ∈ l, (p.giveBack i.toNat).IsTaken k.toNat) :
    i ∉ l ∧ (∀ k ∈ i :: l, p.IsTaken k.toNat) ∧
      ∀ k ∈ l, p.slot k.toNat = (p.giveBack i.toNat).slot k.toNat := by
  have hsmall := hp.small
  have hlt := hi.1
  have later : ∀ k ∈ l, p.IsTaken k.toNat ∧ k.toNat ≠ i.toNat := fun k hk => by
    obtain ⟨hin, hfree⟩ := h k hk
    rw [free_giveBack _ _ (by omega), Bool.or_eq_false_iff, decide_eq_false_iff_not] at hfree
    rw [size_giveBack] at hin
    exact ⟨⟨hin, hfree.1⟩, hfree.2⟩
  refine ⟨fun hmem => (later i hmem).2 rfl, fun k hk => ?_, fun k hk => ?_⟩
  · rcases List.mem_cons.1 hk with rfl | hk
    · exact hi
    · exact (later k hk).1
  · rw [slot_giveBack _ (hp.fits hlt), if_neg (later k hk).2]

private theorem IsChain.link (hp : p.Sound) (hi : p.IsTaken i.toNat)
    (hnext : (p.slot i.toNat).hasNext = true)
    (h : (p.giveBack i.toNat).IsChain (p.slot i.toNat).next l) : p.IsChain i (i :: l) := by
  obtain ⟨hnot, taken, same⟩ := taken_of_giveBack hp hi h.taken
  exact ⟨.link i l hnext (h.path.congr same), List.nodup_cons.2 ⟨hnot, h.nodup⟩, taken⟩

private theorem Passes.link (hp : p.Sound) (hi : p.IsTaken i.toNat)
    (hnext : (p.slot i.toNat).hasNext = true)
    (h : (p.giveBack i.toNat).Passes (p.slot i.toNat).next l j) : p.Passes i (i :: l) j := by
  obtain ⟨hnot, taken, same⟩ := taken_of_giveBack hp hi h.taken
  exact ⟨.link i j l hnext (h.leads.congr same), List.nodup_cons.2 ⟨hnot, h.nodup⟩, taken⟩

private theorem Blocked.link (hp : p.Sound) (hi : p.IsTaken i.toNat) {halt : Halt}
    (h : (p.giveBack i.toNat).Blocked head bound l j halt) :
    p.Blocked head (bound + 1) (i :: l) j halt := by
  have hsmall := hp.small
  have hlt := hi.1
  cases h with
  | endless h => exact .endless (congrArg Nat.succ h)
  | outside more h => exact .outside (Nat.succ_lt_succ more) (by rwa [size_giveBack] at h)
  | free more inside h =>
    rw [size_giveBack] at inside
    refine .free (Nat.succ_lt_succ more) inside ?_
    rw [free_giveBack _ _ (by omega), Bool.or_eq_true, decide_eq_true_eq] at h
    rcases h with (h | h) | h
    · exact .inl h
    · exact .inr (UInt16.toNat_inj.1 h ▸ List.mem_cons_self ..)
    · exact .inr (List.mem_cons_of_mem _ h)

private theorem freeLinked_of_le (h : p.size ≤ i) :
    freeLinked head (bound + 1) freed i p = .error .descriptorIndex := by
  have hget : p.get i = .error .descriptorIndex := if_neg (UInt16.not_lt.2 h)
  rw [freeLinked, hget]
  rfl

private theorem freeLinked_of_free (hi : i < p.size) (h : p.free.getLsbD i.toNat = true) :
    freeLinked head (bound + 1) freed i p = .error (.alreadyFree i) := by
  have hone : p.freeOne i = .error (.alreadyFree i) := by
    rw [freeOne, if_neg (UInt16.not_le.2 hi), if_pos h]
  simp only [freeLinked, get_of_lt hi, hone, bind, Except.bind]

private theorem freeLinked_of_hasNext (hi : p.IsTaken i.toNat) (h : (p.slot i.toNat).hasNext = true) :
    freeLinked head (bound + 1) freed i p =
      freeLinked head bound (freed + 1) (p.slot i.toNat).next (p.giveBack i.toNat) := by
  simp only [freeLinked, get_of_lt (UInt16.lt_iff_toNat_lt.2 hi.1), hi.freeOne, bind, Except.bind]
  rw [if_pos h]

/-- The links from a slot are a chain, or something is in the way and following them halts. -/
private theorem freeLinked_cases (hp : p.Sound) (head : UInt16) (bound freed : Nat) (i : UInt16) :
    (∃ l, p.IsChain i l ∧ l.length ≤ bound) ∨
      ∃ l j halt, p.Passes i l j ∧ l.length ≤ bound ∧ p.Blocked head bound l j halt ∧
        freeLinked head bound freed i p = .error halt := by
  -- what lies ahead is looked at in the pool with the slots behind given back
  induction bound generalizing p i freed with
  | zero => exact .inr ⟨[], i, _, passes_nil, Nat.le_refl _, .endless rfl, rfl⟩
  | succ bound ih =>
    by_cases hi : i < p.size
    case neg =>
      have hle := UInt16.not_lt.1 hi
      exact .inr ⟨[], i, _, passes_nil, Nat.zero_le _, .outside (Nat.succ_pos _) hle,
        freeLinked_of_le hle⟩
    cases hfree : p.free.getLsbD i.toNat with
    | true =>
      exact .inr ⟨[], i, _, passes_nil, Nat.zero_le _, .free (Nat.succ_pos _) hi (.inl hfree),
        freeLinked_of_free hi hfree⟩
    | false =>
      have taken : p.IsTaken i.toNat := ⟨UInt16.lt_iff_toNat_lt.1 hi, hfree⟩
      cases hnext : (p.slot i.toNat).hasNext with
      | false => exact .inl ⟨[i], isChain_singleton taken hnext, Nat.le_add_left ..⟩
      | true =>
        rcases ih (hp.giveBack taken.1) (freed + 1) (p.slot i.toNat).next with
          ⟨l, chain, hlen⟩ | ⟨l, j, halt, passes, hlen, blocked, herror⟩
        · exact .inl ⟨i :: l, chain.link hp taken hnext, Nat.succ_le_succ hlen⟩
        · exact .inr ⟨i :: l, j, halt, passes.link hp taken hnext, Nat.succ_le_succ hlen,
            blocked.link hp taken, (freeLinked_of_hasNext taken hnext).trans herror⟩

private theorem IsChain.freeChain (hp : p.Sound) (h : p.IsChain head l) :
    p.freeChain head = .ok (l.length, p.giveBackAll l) := by
  rw [DescriptorPool.freeChain, freeLinked_of_path hp h.path h.nodup h.taken head h.length_le,
    Nat.zero_add]

theorem Sound.isChain_of_freeChain (hp : p.Sound) {count : Nat} {q : DescriptorPool}
    (h : p.freeChain head = .ok (count, q)) :
    ∃ l, p.IsChain head l ∧ count = l.length ∧ q = p.giveBackAll l := by
  rcases freeLinked_cases hp head p.size.toNat 0 head with
    ⟨l, chain, -⟩ | ⟨l, i, halt, -, -, -, herror⟩
  · rw [chain.freeChain hp, Except.ok.injEq, Prod.mk.injEq] at h
    exact ⟨l, chain, h.1.symm, h.2.symm⟩
  · cases herror.symm.trans h

/-- Whatever the table holds, giving back a chain gives back exactly the slots that the links from its
head passed through when it began, if they are different, taken and come to an end; if not, it halts.
Either way it passes no more slots than the pool has. -/
theorem freeChain_exact (hp : p.Sound) (head : UInt16) :
    (∀ l, p.IsChain head l → l.length ≤ p.size.toNat ∧
      ∃ q, p.freeChain head = .ok (l.length, q) ∧ p.Released l q) ∧
    ((∀ l, ¬p.IsChain head l) → ∃ l i halt, p.freeChain head = .error halt ∧
      p.Passes head l i ∧ l.length ≤ p.size.toNat ∧ p.Blocked head p.size.toNat l i halt) := by
  refine ⟨fun l chain => ⟨chain.length_le, _, chain.freeChain hp,
    released_giveBackAll hp fun i hi => (chain.taken i hi).1⟩, fun hnone => ?_⟩
  rcases freeLinked_cases hp head p.size.toNat 0 head with
    ⟨l, chain, -⟩ | ⟨l, i, halt, passes, hlen, blocked, herror⟩
  · exact absurd chain (hnone l)
  · exact ⟨l, i, halt, herror, passes, hlen, blocked⟩

def linkTo (next : UInt16) : Descriptor := ⟨0, 0, DescriptorFlags.next, next⟩

/-- Three taken slots: the first links to the second, which links no further, and the last to itself. -/
def looped : DescriptorPool :=
  ((⟨.zeroed 0 48, 3, 0⟩ : DescriptorPool).write 0 (linkTo 1)).write 2 (linkTo 2)

private theorem sound_looped : looped.Sound := by
  refine (Sound.write ⟨by decide, by decide, fun i hi => ?_⟩ _ _).write _ _
  simp at hi

private theorem slot_looped (k : Nat) :
    looped.slot k = if k = 2 then linkTo 2 else if k = 0 then linkTo 1
      else (⟨.zeroed 0 48, 3, 0⟩ : DescriptorPool).slot k := by
  rw [looped, slot_write _ _ (by rw [size_table_write]; decide), slot_write _ _ (by decide)]

private theorem isTaken_looped {k : Nat} (h : k < 3) : looped.IsTaken k := ⟨h, by simp [looped]⟩

/-- The first two slots are given back as a chain of two; what links to itself is found to be free when
it comes up again. -/
theorem freeChain_exact_looped :
    looped.Sound ∧ looped.IsChain 0 [0, 1] ∧
      (∃ q, looped.freeChain 0 = .ok (2, q) ∧ looped.Released [0, 1] q) ∧
      (∀ l, ¬looped.IsChain 2 l) ∧
      ∃ l i halt, looped.freeChain 2 = .error halt ∧ looped.Passes 2 l i ∧ l.length ≤ 3 ∧
        looped.Blocked 2 3 l i halt := by
  have hzero : looped.slot (0 : UInt16).toNat = linkTo 1 := by rw [slot_looped]; rfl
  have hone : looped.slot (1 : UInt16).toNat = .empty := by rw [slot_looped]; decide
  have htwo : looped.slot (2 : UInt16).toNat = linkTo 2 := by rw [slot_looped]; rfl
  have chain : looped.IsChain 0 [0, 1] := by
    refine ⟨.link 0 [1] ?_ ?_, by decide, fun i hi => ?_⟩
    · rw [hzero]
      rfl
    · rw [hzero]
      refine .last 1 ?_
      rw [hone]
      rfl
    · rcases List.mem_cons.1 hi with rfl | hi
      · exact isTaken_looped (by decide)
      · rw [List.mem_singleton.1 hi]
        exact isTaken_looped (by decide)
  have endless : ∀ l, ¬looped.IsChain 2 l := by
    rintro l ⟨path, hl, -⟩
    cases path with
    | last _ h =>
      rw [htwo] at h
      cases h
    | link _ l _ rest =>
      rw [htwo] at rest
      exact (List.nodup_cons.1 hl).1 rest.head_mem
  exact ⟨sound_looped, chain, ((freeChain_exact sound_looped 0).1 _ chain).2, endless,
    (freeChain_exact sound_looped 2).2 endless⟩

end DescriptorPool

end DiskStack
