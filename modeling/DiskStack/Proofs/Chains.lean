import DiskStack.Proofs.Rings

/-!
# Chains of the requests in flight

Each in-flight entry has a chain of three slots, found by following the links from its head. On
balanced rings these chains are disjoint and use up exactly the slots that are taken. Publishing on
free slots and completing a request both keep rings balanced, and a controller that writes neither
descriptors nor the in-flight table cannot disturb them.
-/

namespace DiskStack

namespace Rings

/-- The three slots that the links from a head lead through. -/
def chainAt (r : Rings) (head : UInt16) : Chain where
  head
  data := (r.slot head.toNat).next
  status := (r.slot (r.slot head.toNat).next.toNat).next

/-- Whether a slot heads the chain of a request in flight. -/
def IsHead (r : Rings) (h : UInt16) : Prop := (r.entryAt h.toNat).isSome = true

/-- The chain of a head has three different slots, all taken, and ends at the third. -/
structure Linked (r : Rings) (h : UInt16) : Prop where
  distinct : (r.chainAt h).slots.Nodup
  taken : ∀ i ∈ (r.chainAt h).slots, r.queue.pool.IsTaken i.toNat
  headNext : (r.slot (r.chainAt h).head.toNat).hasNext = true
  dataNext : (r.slot (r.chainAt h).data.toNat).hasNext = true
  statusLast : (r.slot (r.chainAt h).status.toNat).hasNext = false

/-- The requests in flight have disjoint chains that use up the taken slots. -/
structure Balanced (r : Rings) (n : Nat) : Prop where
  sound : r.Sound n
  linked : ∀ h, r.IsHead h → r.Linked h
  apart : ∀ h k, r.IsHead h → r.IsHead k → h ≠ k →
    ∀ i ∈ (r.chainAt h).slots, i ∉ (r.chainAt k).slots
  covered : ∀ i : UInt16, r.queue.pool.IsTaken i.toNat →
    ∃ h, r.IsHead h ∧ i ∈ (r.chainAt h).slots
  counted : r.queue.pool.numFree + 3 * r.inFlightCount = n

variable {r q : Rings} {n : Nat} {c : Chain} {s : Submission} {h : UInt16}

theorem head_mem_slots (h : UInt16) : h ∈ (r.chainAt h).slots := List.mem_cons_self ..

theorem isHead_of_entryAt {e : InFlight} (he : r.entryAt h.toNat = some e) : r.IsHead h := by
  rw [IsHead, he]
  rfl

private theorem isHead_of_isSome (hr : r.Sound n) {i : Nat} (hi : i < r.inFlight.size)
    (h : r.inFlight[i].isSome = true) : ∃ k : UInt16, k.toNat = i ∧ r.IsHead k := by
  have hsmall : i < 65536 := by
    have hentries := hr.entries
    have hmost := hr.most
    omega
  have hk : (UInt16.ofNat i).toNat = i := UInt16.toNat_ofNat_of_lt' hsmall
  refine ⟨UInt16.ofNat i, hk, ?_⟩
  rw [IsHead, hk, entryAt, Array.getElem?_eq_getElem hi, Option.join_some]
  exact h

theorem inFlightCount_eq_zero (hr : r.Sound n) (hnone : ∀ k, ¬r.IsHead k) : r.inFlightCount = 0 := by
  rw [inFlightCount, Array.countP_eq_zero]
  intro a ha hsome
  obtain ⟨i, hi, rfl⟩ := Array.getElem_of_mem ha
  obtain ⟨k, -, hk⟩ := isHead_of_isSome hr hi hsome
  exact hnone k hk

theorem inFlightCount_pos {i : Nat} {e : InFlight} (he : r.entryAt i = some e) : 0 < r.inFlightCount := by
  rw [entryAt] at he
  cases hi : r.inFlight[i]? with
  | none =>
    rw [hi] at he
    cases he
  | some entry =>
    rw [hi, Option.join_some] at he
    rw [inFlightCount, Array.countP_pos_iff]
    exact ⟨entry, Array.mem_of_getElem? hi, by rw [he]; rfl⟩

private theorem countP_le_one {α : Type} {p : α → Bool} {l : List α}
    (h : ∀ i j (hi : i < l.length) (hj : j < l.length), p l[i] = true → p l[j] = true → i = j) :
    l.countP p ≤ 1 := by
  induction l with
  | nil => exact Nat.zero_le 1
  | cons a l ih =>
    have hrest : l.countP p ≤ 1 := ih fun i j hi hj hpi hpj =>
      Nat.succ.inj (h (i + 1) (j + 1) (Nat.succ_lt_succ hi) (Nat.succ_lt_succ hj) hpi hpj)
    by_cases ha : p a = true
    · have hzero : l.countP p = 0 := by
        rw [List.countP_eq_zero]
        intro x hx hpx
        obtain ⟨j, hj, rfl⟩ := List.getElem_of_mem hx
        cases h 0 (j + 1) (Nat.zero_lt_succ _) (Nat.succ_lt_succ hj) ha hpx
      exact Nat.le_of_eq (by rw [List.countP_cons_of_pos ha, hzero])
    · rw [List.countP_cons_of_neg ha]
      exact hrest

theorem inFlightCount_le_one (hr : r.Sound n)
    (hone : ∀ h k, r.IsHead h → r.IsHead k → h = k) : r.inFlightCount ≤ 1 := by
  rw [inFlightCount, ← Array.countP_toList]
  apply countP_le_one
  intro i j hi hj hpi hpj
  obtain ⟨h, hhead, hhead'⟩ := isHead_of_isSome hr (i := i) hi hpi
  obtain ⟨k, hkead, hkead'⟩ := isHead_of_isSome hr (i := j) hj hpj
  rw [← hhead, ← hkead, hone h k hhead' hkead']

private theorem chainAt_congr (hhead : q.slot h.toNat = r.slot h.toNat)
    (hdata : q.slot (r.chainAt h).data.toNat = r.slot (r.chainAt h).data.toNat) :
    q.chainAt h = r.chainAt h := by
  simp only [chainAt] at hdata ⊢
  rw [hhead, hdata]

private theorem Linked.congr (hl : r.Linked h)
    (same : ∀ i ∈ (r.chainAt h).slots, q.slot i.toNat = r.slot i.toNat)
    (taken : ∀ i ∈ (r.chainAt h).slots, q.queue.pool.IsTaken i.toNat) :
    q.chainAt h = r.chainAt h ∧ q.Linked h := by
  have hhead := same (r.chainAt h).head (by simp [Chain.slots])
  have hdata := same (r.chainAt h).data (by simp [Chain.slots])
  have hstatus := same (r.chainAt h).status (by simp [Chain.slots])
  have hchain : q.chainAt h = r.chainAt h := chainAt_congr hhead hdata
  refine ⟨hchain, ?_, ?_, ?_, ?_, ?_⟩
  · rw [hchain]
    exact hl.distinct
  · rw [hchain]
    exact taken
  · rw [hchain, hhead]
    exact hl.headNext
  · rw [hchain, hdata]
    exact hl.dataNext
  · rw [hchain, hstatus]
    exact hl.statusLast

theorem Linked.path (hl : r.Linked h) : r.queue.pool.Path h (r.chainAt h).slots :=
  .link _ _ hl.headNext (.link _ _ hl.dataNext (.last _ hl.statusLast))

theorem Balanced.not_fresh (hb : r.Balanced n) (hc : r.Fresh c) (hh : r.IsHead h) {i : UInt16}
    (hi : i ∈ (r.chainAt h).slots) : i ∉ c.slots := by
  intro hmem
  have htaken := ((hb.linked h hh).taken i hi).2
  rw [hc.free i hmem] at htaken
  cases htaken

theorem Balanced.entryAt_fresh (hb : r.Balanced n) (hc : r.Fresh c) :
    r.entryAt c.head.toNat = none := by
  cases he : r.entryAt c.head.toNat with
  | none => rfl
  | some e =>
    have hnot := hb.not_fresh hc (isHead_of_entryAt he) (head_mem_slots c.head)
    exact absurd (by simp [Chain.slots]) hnot

/-! ### Publishing -/

private theorem Published.slot_of_not_mem (hq : Published r n c s q) {i : UInt16} (hi : i ∉ c.slots) :
    q.slot i.toNat = r.slot i.toNat := by
  simp only [Chain.slots, List.mem_cons, List.not_mem_nil, or_false, not_or] at hi
  obtain ⟨h₁, h₂, h₃⟩ := hi
  rw [hq.slot, if_neg (fun he => h₃ (UInt16.toNat_inj.1 he)),
    if_neg (fun he => h₂ (UInt16.toNat_inj.1 he)), if_neg (fun he => h₁ (UInt16.toNat_inj.1 he))]

theorem Published.slot_head (hq : Published r n c s q) (hc : c.slots.Nodup) :
    q.slot c.head.toNat = headDescriptor c (r.headerPlace c.head) := by
  simp only [Chain.slots, List.nodup_cons, List.mem_cons, List.not_mem_nil, or_false, not_or] at hc
  rw [hq.slot, if_neg (fun he => hc.1.2 (UInt16.toNat_inj.1 he)),
    if_neg (fun he => hc.1.1 (UInt16.toNat_inj.1 he)), if_pos rfl]

theorem Published.slot_data (hq : Published r n c s q) (hc : c.slots.Nodup) :
    q.slot c.data.toNat = dataDescriptor c s := by
  simp only [Chain.slots, List.nodup_cons, List.mem_cons, List.not_mem_nil, or_false, not_or] at hc
  rw [hq.slot, if_neg (fun he => hc.2.1 (UInt16.toNat_inj.1 he)), if_pos rfl]

theorem Published.slot_status (hq : Published r n c s q) :
    q.slot c.status.toNat = statusDescriptor (r.statusPlace c.head) := by
  rw [hq.slot, if_pos rfl]

theorem Published.chainAt_head (hq : Published r n c s q) (hc : c.slots.Nodup) :
    q.chainAt c.head = c := by
  have hnext : (q.slot c.head.toNat).next = c.data := by rw [hq.slot_head hc]; rfl
  have hlast : (q.slot c.data.toNat).next = c.status := by rw [hq.slot_data hc]; rfl
  simp only [chainAt, hnext, hlast]

private theorem hasNext_headDescriptor (c : Chain) (address : UInt64) :
    (headDescriptor c address).hasNext = true := by
  change (DescriptorFlags.next &&& DescriptorFlags.next != 0) = true
  decide

private theorem hasNext_dataDescriptor (c : Chain) (s : Submission) :
    (dataDescriptor c s).hasNext = true := by
  change (dataFlags s.write &&& DescriptorFlags.next != 0) = true
  cases s.write <;> decide

private theorem hasNext_statusDescriptor (address : UInt64) :
    (statusDescriptor address).hasNext = false := by
  change (DescriptorFlags.write &&& DescriptorFlags.next != 0) = false
  decide

private theorem isTaken_taking (hr : r.Sound n) (c : Chain) {i : Nat} :
    (r.taking c).queue.pool.IsTaken i ↔
      i < n ∧ (r.queue.pool.free.getLsbD i = false ∨ i ∈ c.slots.map UInt16.toNat) := by
  have hmost := hr.most
  simp only [DescriptorPool.IsTaken, taking, DescriptorPool.size_takeSlots, hr.poolSize]
  constructor
  · rintro ⟨hlt, hfree⟩
    rw [DescriptorPool.free_takeSlots _ (by omega), Bool.and_eq_false_iff] at hfree
    exact ⟨hlt, by simpa using hfree⟩
  · rintro ⟨hlt, hfree⟩
    refine ⟨hlt, ?_⟩
    rw [DescriptorPool.free_takeSlots _ (by omega), Bool.and_eq_false_iff]
    simpa using hfree

theorem Sound.exists_published (hr : r.Sound n) (hc : r.Fresh c) (s : Submission) :
    ∃ q, (r.taking c).publish c s = .ok q ∧ Published (r.taking c) n c s q := by
  have hlt : ∀ i ∈ c.slots, i.toNat < n := fun i hi => hr.lt_of_fresh hc hi
  exact (hr.taking c).publish c s (hlt _ (by simp [Chain.slots])) (hlt _ (by simp [Chain.slots]))
    (hlt _ (by simp [Chain.slots]))

/-- Publishing on a fresh chain of balanced rings does what it should, once it succeeds. -/
theorem Balanced.published (hb : r.Balanced n) (hc : r.Fresh c)
    (hp : (r.taking c).publish c s = .ok q) : Published (r.taking c) n c s q := by
  obtain ⟨q', hq', hpub⟩ := hb.sound.exists_published hc s
  rw [hp] at hq'
  cases hq'
  exact hpub

private theorem Published.isTaken (hq : Published r n c s q) (hr : r.Sound n) {i : Nat} :
    q.queue.pool.IsTaken i ↔ r.queue.pool.IsTaken i := by
  simp only [DescriptorPool.IsTaken, hq.sound.poolSize, hr.poolSize, hq.free]

theorem Balanced.publish (hb : r.Balanced n) (hc : r.Fresh c)
    (hcount : r.queue.pool.numFree = (r.taking c).queue.pool.numFree + 3)
    (hq : Published (r.taking c) n c s q) : q.Balanced n := by
  have htaken : ∀ i : UInt16, q.queue.pool.IsTaken i.toNat ↔
      i.toNat < n ∧ (r.queue.pool.free.getLsbD i.toNat = false ∨ i ∈ c.slots) := fun i => by
    rw [hq.isTaken (hb.sound.taking c), isTaken_taking hb.sound]
    refine and_congr_right fun _ => or_congr_right ?_
    simp [UInt16.toNat_inj]
  have hnew := hq.chainAt_head hc.distinct
  have hnone := hb.entryAt_fresh hc
  have hhead : ∀ k, q.IsHead k ↔ r.IsHead k ∨ k = c.head := fun k => by
    have hentry : q.entryAt k.toNat = if k.toNat = c.head.toNat then some ⟨s.request, s.ticket⟩
      else r.entryAt k.toNat := hq.entry k.toNat
    rw [IsHead, IsHead, hentry]
    by_cases hk : k = c.head
    · simp [hk]
    · simp [hk, UInt16.toNat_inj]
  -- a chain in flight keeps its slots, since the fresh ones are none of them
  have hold : ∀ k, r.IsHead k → q.chainAt k = r.chainAt k ∧ q.Linked k := fun k hk =>
    (hb.linked k hk).congr
      (fun i hi => by rw [hq.slot_of_not_mem (hb.not_fresh hc hk hi), slot_taking])
      (fun i hi => by
        obtain ⟨hlt, hfree⟩ := (hb.linked k hk).taken i hi
        exact (htaken i).2 ⟨hb.sound.poolSize ▸ hlt, .inl hfree⟩)
  have hfirst : q.Linked c.head := by
    constructor
    · rw [hnew]
      exact hc.distinct
    · rw [hnew]
      exact fun i hi => (htaken i).2 ⟨hb.sound.lt_of_fresh hc hi, .inr hi⟩
    · rw [hnew, hq.slot_head hc.distinct]
      exact hasNext_headDescriptor c _
    · rw [hnew, hq.slot_data hc.distinct]
      exact hasNext_dataDescriptor c s
    · rw [hnew, hq.slot_status]
      exact hasNext_statusDescriptor _
  refine ⟨hq.sound, ?_, ?_, ?_, ?_⟩
  · intro k hk
    rcases (hhead k).1 hk with hk | rfl
    · exact (hold k hk).2
    · exact hfirst
  · intro k l hk hl hne i hi hi'
    rcases (hhead k).1 hk with hk | rfl <;> rcases (hhead l).1 hl with hl | rfl
    · rw [(hold k hk).1] at hi
      rw [(hold l hl).1] at hi'
      exact hb.apart k l hk hl hne i hi hi'
    · rw [(hold k hk).1] at hi
      rw [hnew] at hi'
      exact hb.not_fresh hc hk hi hi'
    · rw [hnew] at hi
      rw [(hold l hl).1] at hi'
      exact hb.not_fresh hc hl hi' hi
    · exact hne rfl
  · intro i hi
    obtain ⟨hlt, hi⟩ := (htaken i).1 hi
    by_cases hmem : i ∈ c.slots
    · exact ⟨c.head, (hhead _).2 (.inr rfl), by rw [hnew]; exact hmem⟩
    · obtain ⟨k, hk, hik⟩ := hb.covered i ⟨hb.sound.poolSize.symm ▸ hlt, hi.resolve_right hmem⟩
      exact ⟨k, (hhead k).2 (.inl hk), by rw [(hold k hk).1]; exact hik⟩
  · have hcounted := hb.counted
    have hfree : q.queue.pool.numFree = (r.taking c).queue.pool.numFree := by
      rw [DescriptorPool.numFree, DescriptorPool.numFree, hq.free]
    have hmore : q.inFlightCount = r.inFlightCount + 1 := hq.count hnone
    omega

/-! ### Completing -/

/-- Rings after the request of a head has been collected and its chain released. -/
def settled (r : Rings) (h : UInt16) : Rings := (r.collected h).giving (r.chainAt h)

theorem Balanced.lt_of_mem (hb : r.Balanced n) (hh : r.IsHead h) {i : UInt16}
    (hi : i ∈ (r.chainAt h).slots) : i.toNat < n :=
  hb.sound.poolSize ▸ ((hb.linked h hh).taken i hi).1

theorem Balanced.entryAt_settled (hb : r.Balanced n) (hh : r.IsHead h) (j : Nat) :
    (r.settled h).entryAt j = if j = h.toNat then none else r.entryAt j :=
  entryAt_join_set (by
    rw [hb.sound.entries]
    exact hb.lt_of_mem hh (head_mem_slots h)) none j

theorem Balanced.slot_settled (hb : r.Balanced n) (hh : r.IsHead h) (j : UInt16) :
    (r.settled h).slot j.toNat =
      if j ∈ (r.chainAt h).slots then .empty else r.slot j.toNat := by
  have hlt : ∀ i ∈ (r.chainAt h).slots, i.toNat < r.queue.pool.size.toNat := fun i hi =>
    hb.sound.poolSize.symm ▸ hb.lt_of_mem hh hi
  rw [slot, settled, giving, collected, DescriptorPool.slot_giveBackAll hb.sound.pool hlt, slot]
  simp [UInt16.toNat_inj]

theorem Balanced.isTaken_settled (hb : r.Balanced n) (hh : r.IsHead h) (i : UInt16) :
    (r.settled h).queue.pool.IsTaken i.toNat ↔
      r.queue.pool.IsTaken i.toNat ∧ i ∉ (r.chainAt h).slots := by
  have hmost := hb.sound.most
  have hlt : ∀ i ∈ (r.chainAt h).slots, i.toNat < 64 := fun i hi => by
    have := hb.lt_of_mem hh hi
    omega
  simp only [DescriptorPool.IsTaken, settled, giving, collected, DescriptorPool.size_giveBackAll,
    DescriptorPool.free_giveBackAll hlt, Bool.or_eq_false_iff, decide_eq_false_iff_not]
  simp [UInt16.toNat_inj, and_assoc]

theorem Balanced.sound_settled (hb : r.Balanced n) (hh : r.IsHead h) : (r.settled h).Sound n :=
  { hb.sound with
    pool := hb.sound.pool.giveBackAll fun i hi => hb.sound.poolSize.symm ▸ hb.lt_of_mem hh hi
    poolSize := by
      rw [settled, giving, DescriptorPool.size_giveBackAll]
      exact hb.sound.poolSize
    entries := by
      rw [settled, giving, collected, Array.size_setIfInBounds]
      exact hb.sound.entries }

theorem Balanced.release (hb : r.Balanced n) (hh : r.IsHead h) :
    (r.collected h).release h = .ok (r.settled h) := by
  have hl := hb.linked h hh
  have hsound : (r.collected h).Sound n :=
    { hb.sound with
      entries := by
        rw [collected, Array.size_setIfInBounds]
        exact hb.sound.entries }
  exact hsound.release (c := r.chainAt h) hl.path hl.distinct hl.taken

theorem Balanced.settle (hb : r.Balanced n) (hh : r.IsHead h) : (r.settled h).Balanced n := by
  have hlinked := hb.linked h hh
  have hhead : ∀ k, (r.settled h).IsHead k ↔ r.IsHead k ∧ k ≠ h := fun k => by
    rw [IsHead, IsHead, hb.entryAt_settled hh]
    by_cases hk : k = h
    · simp [hk]
    · simp [hk, UInt16.toNat_inj]
  -- the other chains have none of the released slots
  have hold : ∀ k, (r.settled h).IsHead k →
      (r.settled h).chainAt k = r.chainAt k ∧ (r.settled h).Linked k := fun k hk => by
    obtain ⟨hk, hne⟩ := (hhead k).1 hk
    exact (hb.linked k hk).congr
      (fun i hi => by rw [hb.slot_settled hh, if_neg (hb.apart k h hk hh hne i hi)])
      (fun i hi => (hb.isTaken_settled hh i).2
        ⟨(hb.linked k hk).taken i hi, hb.apart k h hk hh hne i hi⟩)
  refine ⟨hb.sound_settled hh, fun k hk => (hold k hk).2, ?_, ?_, ?_⟩
  · intro k l hk hl hne i hi hi'
    rw [(hold k hk).1] at hi
    rw [(hold l hl).1] at hi'
    exact hb.apart k l ((hhead k).1 hk).1 ((hhead l).1 hl).1 hne i hi hi'
  · intro i hi
    obtain ⟨hi, hnot⟩ := (hb.isTaken_settled hh i).1 hi
    obtain ⟨k, hk, hik⟩ := hb.covered i hi
    have hk' : (r.settled h).IsHead k := (hhead k).2 ⟨hk, fun he => hnot (he ▸ hik)⟩
    exact ⟨k, hk', by rw [(hold k hk').1]; exact hik⟩
  · have hmost := hb.sound.most
    have hfree : (r.settled h).queue.pool.numFree = r.queue.pool.numFree + 3 :=
      DescriptorPool.numFree_giveBackAll
        (fun i hi => ⟨by have := hb.lt_of_mem hh hi; omega, (hlinked.taken i hi).2⟩)
        hlinked.distinct
    have hlt : h.toNat < r.inFlight.size := by
      rw [hb.sound.entries]
      exact hb.lt_of_mem hh (head_mem_slots h)
    have hcount := count_setIfInBounds hlt none
    have hsome : ((r.inFlight[h.toNat]?).join).isSome = true := hh
    rw [if_pos hsome] at hcount
    have hless : (r.settled h).inFlightCount = r.inFlightCount - 1 := hcount
    obtain ⟨e, he⟩ := Option.isSome_iff_exists.1 hh
    have hpos := inFlightCount_pos he
    have hcounted := hb.counted
    omega

/-- Rings stay balanced when a controller changes neither the pool nor the in-flight table. -/
theorem Balanced.congr (hb : r.Balanced n) (hq : q.Sound n) (hpool : q.queue.pool = r.queue.pool)
    (hentries : q.inFlight = r.inFlight) : q.Balanced n := by
  have hslot : ∀ j, q.slot j = r.slot j := fun j => by rw [slot, slot, hpool]
  have hchain : ∀ h, q.chainAt h = r.chainAt h := fun h => chainAt_congr (hslot _) (hslot _)
  have hhead : ∀ h, q.IsHead h ↔ r.IsHead h := fun h => by
    rw [IsHead, IsHead, entryAt, entryAt, hentries]
  refine ⟨hq, ?_, ?_, ?_, ?_⟩
  · intro h hh
    exact ((hb.linked h ((hhead h).1 hh)).congr (fun i _ => hslot _)
      (fun i hi => by rw [hpool]; exact (hb.linked h ((hhead h).1 hh)).taken i hi)).2
  · intro h k hh hk
    rw [hchain, hchain]
    exact hb.apart h k ((hhead h).1 hh) ((hhead k).1 hk)
  · intro i hi
    rw [hpool] at hi
    obtain ⟨h, hh, hih⟩ := hb.covered i hi
    exact ⟨h, (hhead h).2 hh, by rw [hchain]; exact hih⟩
  · rw [inFlightCount, hpool, hentries]
    exact hb.counted

/-! ### Chains that are kept -/

/-- What rings keep of the chain of a head: its entry, its descriptors and its header, in regions that
stay in place. -/
structure Keeps (r q : Rings) (h : UInt16) : Prop where
  entry : q.entryAt h.toNat = r.entryAt h.toNat
  slots : ∀ i ∈ (r.chainAt h).slots, q.slot i.toNat = r.slot i.toNat
  header : q.header h = r.header h
  headersBase : q.headers.base = r.headers.base
  statusBase : q.status.base = r.status.base

theorem Keeps.chainAt (hk : r.Keeps q h) : q.chainAt h = r.chainAt h :=
  chainAt_congr (hk.slots _ (head_mem_slots h)) (hk.slots _ (by simp [Chain.slots]))

theorem Keeps.refl (r : Rings) (h : UInt16) : r.Keeps r h := ⟨rfl, fun _ _ => rfl, rfl, rfl, rfl⟩

theorem Keeps.symm (hk : r.Keeps q h) : q.Keeps r h where
  entry := hk.entry.symm
  slots i hi := (hk.slots i (hk.chainAt ▸ hi)).symm
  header := hk.header.symm
  headersBase := hk.headersBase.symm
  statusBase := hk.statusBase.symm

theorem Keeps.trans {p : Rings} (hk : r.Keeps q h) (hk' : q.Keeps p h) : r.Keeps p h where
  entry := hk'.entry.trans hk.entry
  slots i hi := (hk'.slots i (hk.chainAt.symm ▸ hi)).trans (hk.slots i hi)
  header := hk'.header.trans hk.header
  headersBase := hk'.headersBase.trans hk.headersBase
  statusBase := hk'.statusBase.trans hk.statusBase

theorem Keeps.of_pool (hpool : q.queue.pool = r.queue.pool) (hentries : q.inFlight = r.inFlight)
    (hheaders : q.headers = r.headers) (hstatus : q.status.base = r.status.base) (h : UInt16) :
    r.Keeps q h where
  entry := by rw [entryAt, entryAt, hentries]
  slots i _ := by rw [slot, slot, hpool]
  header := by rw [Rings.header, Rings.header, hheaders]
  headersBase := by rw [hheaders]
  statusBase := hstatus

theorem Published.keeps (hq : Published (r.taking c) n c s q) (hb : r.Balanced n) (hc : r.Fresh c)
    (hh : r.IsHead h) : r.Keeps q h := by
  have hne : h ≠ c.head := fun he =>
    hb.not_fresh hc hh (head_mem_slots h) (by rw [he]; simp [Chain.slots])
  refine ⟨?_, fun i hi => ?_, (hq.header h).trans (if_neg hne), hq.headersBase, hq.statusBase⟩
  · exact (hq.entry h.toNat).trans (if_neg fun he => hne (UInt16.toNat_inj.1 he))
  · rw [hq.slot_of_not_mem (hb.not_fresh hc hh hi), slot_taking]

theorem Balanced.keeps_settled (hb : r.Balanced n) {k : UInt16} (hh : r.IsHead h) (hk : r.IsHead k)
    (hne : k ≠ h) : r.Keeps (r.settled h) k where
  entry := (hb.entryAt_settled hh k.toNat).trans (if_neg fun he => hne (UInt16.toNat_inj.1 he))
  slots i hi := by rw [hb.slot_settled hh, if_neg (hb.apart k h hk hh hne i hi)]
  header := rfl
  headersBase := rfl
  statusBase := rfl

end Rings

end DiskStack
