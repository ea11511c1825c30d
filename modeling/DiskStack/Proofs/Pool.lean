import DiskStack.Proofs.Words
import DiskStack.Queue.Pool

/-!
# Slots of a descriptor pool

What the operations of a pool do to its slots: taking hands out free slots and changes no descriptor,
and giving a chain back clears exactly the slots that its links pass through. A slot is taken when
the bitmap does not show it free.
-/

namespace DiskStack

/-- Two conditions on numbers that differ at one number at most are counted alike, but for that one. -/
theorem countP_range_update {f g : Nat → Bool} {n i : Nat} (hi : i < n)
    (hfg : ∀ j, j < n → j ≠ i → g j = f j) :
    (List.range n).countP f + (g i).toNat = (List.range n).countP g + (f i).toNat := by
  have htoNat : ∀ c : Bool, (if c = true then 1 else 0) = c.toNat := fun c => by cases c <;> rfl
  induction n with
  | zero => omega
  | succ n ih =>
    rw [List.range_succ, List.countP_append, List.countP_append, List.countP_singleton,
      List.countP_singleton, htoNat, htoNat]
    by_cases hn : i = n
    · subst hn
      have same : (List.range i).countP f = (List.range i).countP g := by
        apply List.countP_congr
        intro j hj
        have := List.mem_range.1 hj
        rw [hfg j (by omega) (by omega)]
      omega
    · have last : g n = f n := hfg n (by omega) (Ne.symm hn)
      have rest := ih (by omega) fun j hj hne => hfg j (by omega) hne
      rw [last]
      omega

theorem countP_range_of_le {f : Nat → Bool} {n m : Nat} (h : n ≤ m)
    (hf : ∀ j, n ≤ j → j < m → f j = false) : (List.range m).countP f = (List.range n).countP f := by
  obtain ⟨k, rfl⟩ := Nat.exists_eq_add_of_le h
  have hzero : ((List.range k).map (n + ·)).countP f = 0 := by
    rw [List.countP_eq_zero]
    intro j hj
    obtain ⟨i, hi, rfl⟩ := List.mem_map.1 hj
    have := List.mem_range.1 hi
    simp [hf (n + i) (by omega) (by omega)]
  rw [List.range_add, List.countP_append, hzero, Nat.add_zero]

theorem length_le_of_lt {l : List UInt16} {n : Nat} (hl : l.Nodup) (h : ∀ i ∈ l, i.toNat < n) :
    l.length ≤ n := by
  have hnodup : (l.map UInt16.toNat).Nodup :=
    List.Pairwise.map _ (fun _ _ hne he => hne (UInt16.toNat_inj.1 he)) hl
  have hsub : l.map UInt16.toNat ⊆ List.range n := fun k hk => by
    obtain ⟨i, hi, rfl⟩ := List.mem_map.1 hk
    exact List.mem_range.2 (h i hi)
  have hle := hnodup.length_le_of_subset hsub
  rwa [List.length_map, List.length_range] at hle

namespace DescriptorPool

def slot (p : DescriptorPool) (i : Nat) : Descriptor :=
  Descriptor.decode (p.table.load (Descriptor.width * i) Descriptor.width)

def IsTaken (p : DescriptorPool) (i : Nat) : Prop := i < p.size.toNat ∧ p.free.getLsbD i = false

instance (p : DescriptorPool) (i : Nat) : Decidable (p.IsTaken i) := inferInstanceAs (Decidable (_ ∧ _))

/-- The table holds every slot, and only slots of the table are free. -/
structure Sound (p : DescriptorPool) : Prop where
  small : p.size.toNat ≤ 64
  room : Descriptor.width * p.size.toNat ≤ p.table.size
  bounded : ∀ i, p.free.getLsbD i = true → i < p.size.toNat

def write (p : DescriptorPool) (i : Nat) (d : Descriptor) : DescriptorPool :=
  { p with table := p.table.store (Descriptor.width * i) d.encode }

def takeSlot (p : DescriptorPool) (i : Nat) : DescriptorPool :=
  { p with free := p.free &&& ~~~BitVec.twoPow 64 i }

def giveBack (p : DescriptorPool) (i : Nat) : DescriptorPool :=
  { p.write i .empty with free := p.free ||| BitVec.twoPow 64 i }

def takeSlots (p : DescriptorPool) (l : List UInt16) : DescriptorPool :=
  l.foldl (fun p i => p.takeSlot i.toNat) p

def giveBackAll (p : DescriptorPool) (l : List UInt16) : DescriptorPool :=
  l.foldl (fun p i => p.giveBack i.toNat) p

variable {p : DescriptorPool} {i : UInt16} {l : List UInt16}

@[simp] theorem size_write (n : Nat) (d : Descriptor) : (p.write n d).size = p.size := by
  simp only [write]

@[simp] theorem free_write (n : Nat) (d : Descriptor) : (p.write n d).free = p.free := by
  simp only [write]

@[simp] theorem base_table_write (n : Nat) (d : Descriptor) :
    (p.write n d).table.base = p.table.base := by rw [write, Region.base_store]

@[simp] theorem size_table_write (n : Nat) (d : Descriptor) :
    (p.write n d).table.size = p.table.size := by rw [write, Region.size_store]

theorem get_of_lt (h : i < p.size) : p.get i = .ok (p.slot i.toNat) := if_pos h

theorem set_of_lt (d : Descriptor) (h : i < p.size) : p.set i d = .ok (p.write i.toNat d) := if_pos h

theorem slot_write {n : Nat} (j : Nat) (d : Descriptor)
    (h : Descriptor.width * n + Descriptor.width ≤ p.table.size) :
    (p.write n d).slot j = if j = n then d else p.slot j := by
  rw [slot, write]
  by_cases hj : j = n
  · subst hj
    have stored := Region.load_store_same p.table (Descriptor.width * j) d.encode
      (by rw [Descriptor.length_encode]; exact h)
    rw [Descriptor.length_encode] at stored
    rw [if_pos rfl, stored, Descriptor.decode_encode]
  · rw [if_neg hj, Region.load_store_disjoint, slot]
    rw [Descriptor.length_encode]
    simp only [Descriptor.width]
    omega

theorem Sound.fits (hp : p.Sound) {n : Nat} (h : n < p.size.toNat) :
    Descriptor.width * n + Descriptor.width ≤ p.table.size := by
  have hroom := hp.room
  simp only [Descriptor.width] at hroom ⊢
  omega

theorem Sound.lt (hp : p.Sound) {n : Nat} (h : n < p.size.toNat) : n < 64 :=
  Nat.lt_of_lt_of_le h hp.small

theorem Sound.write (hp : p.Sound) (n : Nat) (d : Descriptor) : (p.write n d).Sound where
  small := by rw [size_write]; exact hp.small
  room := by rw [size_write, size_table_write]; exact hp.room
  bounded := by rw [size_write, free_write]; exact hp.bounded

private theorem free_takeSlot (n j : Nat) (hj : j < 64) :
    (p.takeSlot n).free.getLsbD j = (p.free.getLsbD j && decide (j ≠ n)) := by
  simp only [takeSlot, BitVec.getLsbD_and, BitVec.getLsbD_not, BitVec.getLsbD_twoPow, hj]
  by_cases h : n = j
  · simp [h, hj]
  · simp [h, Ne.symm h]

theorem free_giveBack (n j : Nat) (hn : n < 64) :
    (p.giveBack n).free.getLsbD j = (p.free.getLsbD j || decide (j = n)) := by
  simp only [giveBack, BitVec.getLsbD_or, BitVec.getLsbD_twoPow, hn]
  by_cases h : n = j
  · simp [h]
  · simp [h, Ne.symm h]

theorem slot_giveBack {n : Nat} (j : Nat)
    (h : Descriptor.width * n + Descriptor.width ≤ p.table.size) :
    (p.giveBack n).slot j = if j = n then .empty else p.slot j := by
  rw [← slot_write j .empty h, slot, slot, giveBack]

/-! ### Counting the free slots -/

private theorem countP_range_flip {f g : Nat → Bool} {n i : Nat} (hi : i < n) (hf : f i = true)
    (hg : g i = false) (hfg : ∀ j, j < n → j ≠ i → g j = f j) :
    (List.range n).countP f = (List.range n).countP g + 1 := by
  have h := countP_range_update hi hfg
  rw [hf, hg] at h
  exact h

private theorem numFree_takeSlot {n : Nat} (hn : n < 64) (h : p.free.getLsbD n = true) :
    p.numFree = (p.takeSlot n).numFree + 1 := by
  apply countP_range_flip hn h
  · simp [free_takeSlot n n hn]
  · intro j hj hne
    simp [free_takeSlot n j hj, hne]

private theorem numFree_giveBack {n : Nat} (hn : n < 64) (h : p.free.getLsbD n = false) :
    (p.giveBack n).numFree = p.numFree + 1 := by
  apply countP_range_flip hn
  · simp [free_giveBack n n hn]
  · exact h
  · intro j hj hne
    simp [free_giveBack n j hn, hne]

theorem getLsbD_full {n j : Nat} (hn : n ≤ 64) (hj : j < 64) :
    (BitVec.twoPow 64 n - 1).getLsbD j = decide (j < n) := by
  have hall : ∀ n : Fin 65, ∀ j : Fin 64,
      (BitVec.twoPow 64 n.1 - 1).getLsbD j.1 = decide (j.1 < n.1) := by decide +kernel
  exact hall ⟨n, by omega⟩ ⟨j, hj⟩

theorem numFree_full {n : Nat} (hn : n ≤ 64) (h : p.free = BitVec.twoPow 64 n - 1) :
    p.numFree = n := by
  have hfree : ∀ j, j < 64 → p.free.getLsbD j = decide (j < n) := fun j hj => by
    rw [h, getLsbD_full hn hj]
  rw [numFree, countP_range_of_le hn fun j hle hj => by simp [hfree j hj, hle]]
  conv => rhs; rw [← List.length_range (n := n)]
  rw [List.countP_eq_length]
  intro j hj
  have := List.mem_range.1 hj
  simp [hfree j (by omega), this]

/-! ### Taking several slots -/

@[simp] theorem takeSlots_nil : p.takeSlots [] = p := rfl

@[simp] theorem takeSlots_cons : p.takeSlots (i :: l) = (p.takeSlot i.toNat).takeSlots l := rfl

@[simp] theorem table_takeSlots : (p.takeSlots l).table = p.table := by
  induction l generalizing p with
  | nil => rfl
  | cons i l ih => rw [takeSlots_cons, ih, takeSlot]

@[simp] theorem size_takeSlots : (p.takeSlots l).size = p.size := by
  induction l generalizing p with
  | nil => rfl
  | cons i l ih => rw [takeSlots_cons, ih, takeSlot]

@[simp] theorem slot_takeSlots (j : Nat) : (p.takeSlots l).slot j = p.slot j := by
  rw [slot, table_takeSlots, slot]

theorem free_takeSlots (j : Nat) (hj : j < 64) :
    (p.takeSlots l).free.getLsbD j = (p.free.getLsbD j && decide (j ∉ l.map UInt16.toNat)) := by
  induction l generalizing p with
  | nil => simp
  | cons i l ih =>
    rw [takeSlots_cons, ih, free_takeSlot _ _ hj]
    by_cases h : j = i.toNat <;> simp [h]

theorem numFree_takeSlots (h : ∀ i ∈ l, i.toNat < 64 ∧ p.free.getLsbD i.toNat = true) (hl : l.Nodup) :
    p.numFree = (p.takeSlots l).numFree + l.length := by
  induction l generalizing p with
  | nil => rfl
  | cons i l ih =>
    obtain ⟨hlt, hfree⟩ := h i (List.mem_cons_self ..)
    obtain ⟨hnot, hl⟩ := List.nodup_cons.1 hl
    have rest := ih (p := p.takeSlot i.toNat) (fun j hj => by
      obtain ⟨hjlt, hjfree⟩ := h j (List.mem_cons_of_mem _ hj)
      have hne : j.toNat ≠ i.toNat := fun he => hnot (UInt16.toNat_inj.1 he ▸ hj)
      exact ⟨hjlt, by simp [free_takeSlot _ _ hjlt, hjfree, hne]⟩) hl
    rw [numFree_takeSlot hlt hfree, takeSlots_cons, rest, List.length_cons]
    omega

/-- The free slots, lowest first. -/
def freeSlots (p : DescriptorPool) : List UInt16 :=
  ((List.range 64).filter p.free.getLsbD).map UInt16.ofNat

private theorem toNat_ofNat_of_mem {f : Nat → Bool} {n : Nat} (h : n ∈ (List.range 64).filter f) :
    (UInt16.ofNat n).toNat = n :=
  UInt16.toNat_ofNat_of_lt'
    (Nat.lt_trans (List.mem_range.1 (List.mem_filter.1 h).1) (by decide))

theorem mem_freeSlots : i ∈ p.freeSlots ↔ p.free.getLsbD i.toNat = true := by
  rw [freeSlots, List.mem_map]
  constructor
  · rintro ⟨n, hn, rfl⟩
    rw [toNat_ofNat_of_mem hn]
    exact (List.mem_filter.1 hn).2
  · intro h
    exact ⟨i.toNat, List.mem_filter.2 ⟨List.mem_range.2 (BitVec.lt_of_getLsbD h), h⟩,
      UInt16.ofNat_toNat⟩

theorem length_freeSlots : p.freeSlots.length = p.numFree := by
  rw [freeSlots, List.length_map, numFree, List.countP_eq_length_filter]

theorem pairwise_freeSlots : p.freeSlots.Pairwise (· < ·) := by
  refine List.pairwise_map.2 ((List.pairwise_lt_range.filter _).imp_of_mem ?_)
  intro m n hm hn h
  rw [UInt16.lt_iff_toNat_lt, toNat_ofNat_of_mem hm, toNat_ofNat_of_mem hn]
  exact h

theorem nodup_freeSlots : p.freeSlots.Nodup := pairwise_freeSlots.imp fun h => UInt16.ne_of_lt h

private theorem freeSlots_takeSlot (i : UInt16) :
    (p.takeSlot i.toNat).freeSlots = p.freeSlots.filter fun j => decide (j ≠ i) := by
  rw [freeSlots, freeSlots, List.filter_map, List.filter_filter]
  congr 1
  apply List.filter_congr
  intro n hn
  have hnat : (UInt16.ofNat n).toNat = n :=
    UInt16.toNat_ofNat_of_lt' (Nat.lt_trans (List.mem_range.1 hn) (by decide))
  rw [free_takeSlot _ _ (List.mem_range.1 hn), Bool.and_comm, Function.comp_apply]
  simp only [ne_eq, ← UInt16.toNat_inj, hnat]

theorem allocOne_eq : p.allocOne = p.freeSlots.head?.map fun i => (i, p.takeSlot i.toNat) := by
  rw [freeSlots, List.head?_map, List.head?_filter, allocOne, Option.map_map]
  cases hn : (List.range 64).find? p.free.getLsbD with
  | none => rfl
  | some n =>
    have hnat := toNat_ofNat_of_mem
      (List.mem_filter.2 ⟨List.mem_of_find?_eq_some hn, List.find?_some hn⟩)
    simp only [Option.map_some, Function.comp_apply, hnat]
    rfl

/-- Of the free slots the lowest are taken, as many as are asked for and as there are. -/
theorem takeFree_eq (n : Nat) :
    takeFree n p = (p.freeSlots.take n, p.takeSlots (p.freeSlots.take n)) := by
  induction n generalizing p with
  | zero => rfl
  | succ n ih =>
    cases hfree : p.freeSlots with
    | nil =>
      have halloc : p.allocOne = none := by rw [allocOne_eq, hfree]; rfl
      rw [takeFree, halloc]
      rfl
    | cons i rest =>
      have halloc : p.allocOne = some (i, p.takeSlot i.toNat) := by rw [allocOne_eq, hfree]; rfl
      have hnot : ∀ j ∈ rest, decide (j ≠ i) = true := fun j hj =>
        decide_eq_true fun he => (List.nodup_cons.1 (hfree ▸ p.nodup_freeSlots)).1 (he ▸ hj)
      have hrest : (p.takeSlot i.toNat).freeSlots = rest := by
        rw [freeSlots_takeSlot, hfree, List.filter_cons_of_neg (by simp), List.filter_eq_self.2 hnot]
      simp only [takeFree, halloc, ih, hrest, List.take_succ_cons, takeSlots_cons]

theorem allocChain_of_le {n : Nat} (h : n ≤ p.numFree) :
    allocChain n p = .ok (some (p.freeSlots.take n), p.takeSlots (p.freeSlots.take n)) := by
  rw [allocChain, takeFree_eq]
  refine if_pos ?_
  rw [List.length_take, length_freeSlots, Nat.min_eq_left h]

theorem exists_take_freeSlots (h : 3 ≤ p.numFree) :
    ∃ head data status, p.freeSlots.take 3 = [head, data, status] := by
  have hlen : (p.freeSlots.take 3).length = 3 := by
    rw [List.length_take, length_freeSlots, Nat.min_eq_left h]
  match p.freeSlots.take 3, hlen with
  | [head, data, status], _ => exact ⟨head, data, status, rfl⟩

theorem Sound.takeSlots (hp : p.Sound) : (p.takeSlots l).Sound where
  small := by simpa using hp.small
  room := by simpa using hp.room
  bounded := by
    intro j hj
    have hlt : j < 64 := BitVec.lt_of_getLsbD hj
    rw [free_takeSlots _ hlt, Bool.and_eq_true] at hj
    simpa using hp.bounded j hj.1

/-! ### Giving a chain back -/

/-- The slots that the links from a slot pass through, up to one without a link. -/
inductive Path (p : DescriptorPool) : UInt16 → List UInt16 → Prop
  | last (i : UInt16) (h : (p.slot i.toNat).hasNext = false) : Path p i [i]
  | link (i : UInt16) (l : List UInt16) (h : (p.slot i.toNat).hasNext = true)
      (rest : Path p (p.slot i.toNat).next l) : Path p i (i :: l)

theorem Path.head_mem (path : p.Path i l) : i ∈ l := by
  cases path <;> exact List.mem_cons_self ..

theorem Path.congr {q : DescriptorPool} (path : p.Path i l)
    (same : ∀ j ∈ l, q.slot j.toNat = p.slot j.toNat) : q.Path i l := by
  induction path with
  | last i h => exact .last i (by rw [same i (List.mem_cons_self ..)]; exact h)
  | link i l h _ ih =>
    have hs := same i (List.mem_cons_self ..)
    refine .link i l (by rw [hs]; exact h) ?_
    rw [hs]
    exact ih fun j hj => same j (List.mem_cons_of_mem _ hj)

@[simp] theorem giveBackAll_nil : p.giveBackAll [] = p := rfl

@[simp] theorem giveBackAll_cons :
    p.giveBackAll (i :: l) = (p.giveBack i.toNat).giveBackAll l := rfl

@[simp] theorem size_giveBack (n : Nat) : (p.giveBack n).size = p.size := by
  simp only [giveBack, size_write]

@[simp] theorem size_table_giveBack (n : Nat) : (p.giveBack n).table.size = p.table.size := by
  simp only [giveBack, size_table_write]

@[simp] theorem base_table_giveBack (n : Nat) : (p.giveBack n).table.base = p.table.base := by
  simp only [giveBack, base_table_write]

@[simp] theorem size_giveBackAll : (p.giveBackAll l).size = p.size := by
  induction l generalizing p with
  | nil => rfl
  | cons i l ih => rw [giveBackAll_cons, ih, size_giveBack]

theorem Sound.giveBack (hp : p.Sound) {n : Nat} (hn : n < p.size.toNat) : (p.giveBack n).Sound where
  small := by rw [size_giveBack]; exact hp.small
  room := by rw [size_giveBack, size_table_giveBack]; exact hp.room
  bounded := by
    intro j hj
    have hsmall := hp.small
    rw [free_giveBack _ _ (by omega), Bool.or_eq_true, decide_eq_true_iff] at hj
    rw [size_giveBack]
    rcases hj with hj | rfl
    · exact hp.bounded j hj
    · exact hn

theorem Sound.giveBackAll (hp : p.Sound) (h : ∀ i ∈ l, i.toNat < p.size.toNat) :
    (p.giveBackAll l).Sound := by
  induction l generalizing p with
  | nil => exact hp
  | cons i l ih =>
    have hi := h i (List.mem_cons_self ..)
    exact ih (hp.giveBack hi) fun j hj => by
      rw [size_giveBack]
      exact h j (List.mem_cons_of_mem _ hj)

theorem free_giveBackAll (h : ∀ i ∈ l, i.toNat < 64) (j : Nat) :
    (p.giveBackAll l).free.getLsbD j = (p.free.getLsbD j || decide (j ∈ l.map UInt16.toNat)) := by
  induction l generalizing p with
  | nil => simp
  | cons i l ih =>
    rw [giveBackAll_cons, ih fun k hk => h k (List.mem_cons_of_mem _ hk),
      free_giveBack _ _ (h i (List.mem_cons_self ..))]
    simp [Bool.or_assoc]

theorem slot_giveBackAll (hp : p.Sound) (h : ∀ i ∈ l, i.toNat < p.size.toNat) (j : Nat) :
    (p.giveBackAll l).slot j = if j ∈ l.map UInt16.toNat then .empty else p.slot j := by
  induction l generalizing p with
  | nil => simp
  | cons i l ih =>
    have hi := h i (List.mem_cons_self ..)
    rw [giveBackAll_cons, ih (hp.giveBack hi) fun k hk => by
      rw [size_giveBack]
      exact h k (List.mem_cons_of_mem _ hk), slot_giveBack _ (hp.fits hi)]
    by_cases hj : j = i.toNat
    · simp [hj]
    · simp [hj]

theorem numFree_giveBackAll (h : ∀ i ∈ l, i.toNat < 64 ∧ p.free.getLsbD i.toNat = false)
    (hl : l.Nodup) : (p.giveBackAll l).numFree = p.numFree + l.length := by
  induction l generalizing p with
  | nil => rfl
  | cons i l ih =>
    obtain ⟨hlt, hfree⟩ := h i (List.mem_cons_self ..)
    obtain ⟨hnot, hl⟩ := List.nodup_cons.1 hl
    rw [giveBackAll_cons, ih _ hl, numFree_giveBack hlt hfree, List.length_cons]
    · omega
    · intro j hj
      obtain ⟨hjlt, hjfree⟩ := h j (List.mem_cons_of_mem _ hj)
      have hne : j.toNat ≠ i.toNat := fun he => hnot (UInt16.toNat_inj.1 he ▸ hj)
      exact ⟨hjlt, by simp [free_giveBack _ _ hlt, hjfree, hne]⟩

theorem IsTaken.giveBack {n k : Nat} (h : p.IsTaken k) (hn : n < 64) (hne : k ≠ n) :
    (p.giveBack n).IsTaken k := by
  refine ⟨by rw [size_giveBack]; exact h.1, ?_⟩
  rw [free_giveBack _ _ hn, h.2]
  simp [hne]

theorem IsTaken.freeOne (h : p.IsTaken i.toNat) : p.freeOne i = .ok (p.giveBack i.toNat) := by
  obtain ⟨hlt, hfree⟩ := h
  have hi : i < p.size := UInt16.lt_iff_toNat_lt.2 hlt
  have hle : ¬p.size ≤ i := UInt16.not_le.2 hi
  rw [DescriptorPool.freeOne, if_neg hle, hfree, if_neg Bool.false_ne_true, set_of_lt _ hi]
  rfl

theorem freeLinked_of_path (hp : p.Sound) (path : p.Path i l) (hl : l.Nodup)
    (taken : ∀ j ∈ l, p.IsTaken j.toNat) (head : UInt16) {bound freed : Nat}
    (hbound : l.length ≤ bound) :
    freeLinked head bound freed i p = .ok (freed + l.length, p.giveBackAll l) := by
  -- the path through the pool so far is a path through the pool with a slot less
  induction bound generalizing p i l freed with
  | zero => cases path <;> simp at hbound
  | succ bound ih =>
    have first : p.IsTaken i.toNat := taken i path.head_mem
    have hget : p.get i = .ok (p.slot i.toNat) := get_of_lt (UInt16.lt_iff_toNat_lt.2 first.1)
    simp only [freeLinked, hget, first.freeOne, bind, Except.bind]
    cases path with
    | last _ hlast => simp [hlast]
    | link _ l hnext rest =>
      obtain ⟨hnot, hl⟩ := List.nodup_cons.1 hl
      have apart : ∀ j ∈ l, j.toNat ≠ i.toNat := fun j hj he =>
        hnot (UInt16.toNat_inj.1 he ▸ hj)
      have rest' : (p.giveBack i.toNat).Path (p.slot i.toNat).next l := rest.congr fun j hj => by
        rw [slot_giveBack _ (hp.fits first.1), if_neg (apart j hj)]
      rw [if_pos hnext, ih (hp.giveBack first.1) rest' hl]
      · simp only [List.length_cons, giveBackAll_cons]
        congr 2
        omega
      · exact fun j hj => (taken j (List.mem_cons_of_mem _ hj)).giveBack (hp.lt first.1) (apart j hj)
      · simpa using hbound

end DescriptorPool

end DiskStack
