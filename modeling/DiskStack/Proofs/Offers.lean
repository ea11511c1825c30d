import DiskStack.Controller.Basic
import DiskStack.Proofs.Rings

/-!
# What the rings hold

Between the controller's cursor and the driver's index the available ring holds the heads offered and
not yet taken, oldest first; between the driver's cursor and the controller's index the used ring
holds the heads reported and not yet collected. Indices run on and wrap at 2^16. If the ring size
divides 2^16, fewer entries than the ring has never share a place; a ring with one entry never has
two to share one.
-/

namespace DiskStack

/-- Running indices less than a ring apart lie at different places, unless they are as far apart as the
wrap goes past whole rounds of the ring. -/
private theorem running_mod_ne_of_ne {n i j : Nat} (first size : UInt16) (hsize : size.toNat = n)
    (hij : i < j) (hj : j < i + n) (hwrap : 65536 % n ≠ j - i) :
    (first + UInt16.ofNat i) % size ≠ (first + UInt16.ofNat j) % size := by
  intro h
  have hplace : ∀ k, ((first + UInt16.ofNat k) % size).toNat = (first.toNat + k) % 65536 % n :=
    fun k => by
      rw [UInt16.toNat_mod, UInt16.toNat_add, UInt16.toNat_ofNat', hsize, Nat.add_mod_mod]
  have hmod := congrArg UInt16.toNat h
  rw [hplace, hplace] at hmod
  have hn := size.toNat_lt
  rcases Nat.lt_or_ge ((first.toNat + i) % 65536 + (j - i)) 65536 with hlow | hhigh
  · -- no wrap lies between the two
    have hnext : (first.toNat + j) % 65536 = (first.toNat + i) % 65536 + (j - i) := by omega
    have hzero := Nat.sub_mod_eq_zero_of_mod_eq hmod.symm
    rw [hnext, Nat.add_sub_cancel_left, Nat.mod_eq_of_lt (by omega)] at hzero
    omega
  · have hnext : (first.toNat + i) % 65536 - (first.toNat + j) % 65536 = 65536 - (j - i) := by omega
    have hzero := Nat.sub_mod_eq_zero_of_mod_eq hmod
    rw [hnext] at hzero
    have hsplit : 65536 = 65536 - (j - i) + (j - i) := by omega
    rw [hsplit, Nat.add_mod, hzero, Nat.zero_add, Nat.mod_mod, Nat.mod_eq_of_lt (by omega)] at hwrap
    exact hwrap rfl

/-- Running indices less than a ring apart lie at different places, if the ring divides the wrap. -/
theorem running_mod_ne {n i j : Nat} (hn : n ∣ 65536) (first size : UInt16) (hsize : size.toNat = n)
    (hij : i < j) (hj : j < i + n) :
    (first + UInt16.ofNat i) % size ≠ (first + UInt16.ofNat j) % size :=
  running_mod_ne_of_ne first size hsize hij hj (by rw [Nat.mod_eq_zero_of_dvd hn]; omega)

theorem running_succ (first : UInt16) (i : Nat) :
    first + UInt16.ofNat (i + 1) = first + 1 + UInt16.ofNat i := by
  rw [UInt16.ofNat_add, UInt16.add_assoc, UInt16.add_comm (UInt16.ofNat i)]
  rfl

theorem toNat_sub_succ {i j : UInt16} (h : i ≠ j) : (j - (i + 1)).toNat + 1 = (j - i).toNat := by
  have hne : i.toNat ≠ j.toNat := fun hc => h (UInt16.toNat_inj.1 hc)
  have hi := i.toNat_lt
  have hj := j.toNat_lt
  have hnext : (i + 1).toNat = (i.toNat + 1) % 65536 := UInt16.toNat_add ..
  rw [UInt16.toNat_sub, UInt16.toNat_sub, hnext]
  omega

namespace AvailRing

structure Offers (r : AvailRing) (first : UInt16) (heads : List UInt16) : Prop where
  index : r.index = first + UInt16.ofNat heads.length
  entry : ∀ i (h : i < heads.length), r.entry (first + UInt16.ofNat i) = heads[i]

variable {r q : AvailRing} {first head : UInt16} {heads : List UInt16}

/-- A head offered after others lies at a place of its own, if no two of them are as far apart as the
wrap goes past whole rounds of the ring. -/
theorem Offers.push_of_ne {n : Nat} (ho : r.Offers first heads)
    (hwrap : ∀ k, 0 < k → k ≤ heads.length → 65536 % n ≠ k) (hsize : r.size.toNat = n)
    (hroom : heads.length < n) (hindex : q.index = r.index + 1)
    (hentry : ∀ i, q.entry i = if i % r.size = r.index % r.size then head else r.entry i) :
    q.Offers first (heads ++ [head]) := by
  constructor
  · rw [hindex, ho.index, List.length_append, List.length_singleton, UInt16.ofNat_add,
      ← UInt16.add_assoc]
    rfl
  · intro i hi
    rw [List.length_append, List.length_singleton] at hi
    rw [hentry, ho.index]
    rcases Nat.lt_or_ge i heads.length with hlt | hge
    · have hne := running_mod_ne_of_ne first r.size hsize hlt (by omega)
        (hwrap _ (by omega) (by omega))
      rw [if_neg hne, List.getElem_append_left hlt]
      exact ho.entry i hlt
    · have hi' : i = heads.length := by omega
      subst hi'
      rw [if_pos rfl, List.getElem_concat_length rfl]

theorem Offers.push {n : Nat} (ho : r.Offers first heads) (hn : n ∣ 65536 ∨ heads = [])
    (hsize : r.size.toNat = n) (hroom : heads.length < n) (hindex : q.index = r.index + 1)
    (hentry : ∀ i, q.entry i = if i % r.size = r.index % r.size then head else r.entry i) :
    q.Offers first (heads ++ [head]) := by
  refine ho.push_of_ne (fun k hpos hk => ?_) hsize hroom hindex hentry
  rcases hn with hdvd | rfl
  · rw [Nat.mod_eq_zero_of_dvd hdvd]
    omega
  · exact absurd hpos (by simpa using hk)

/-- The oldest head offered is found under the cursor, and the others from the next index on. -/
theorem Offers.take (ho : r.Offers first (head :: heads)) :
    r.entry first = head ∧ r.Offers (first + 1) heads := by
  refine ⟨?_, ?_, fun i hi => ?_⟩
  · have hentry := ho.entry 0 (Nat.succ_pos _)
    rwa [show first + UInt16.ofNat 0 = first from UInt16.add_zero first] at hentry
  · rw [ho.index, List.length_cons, running_succ]
  · have hentry := ho.entry (i + 1) (Nat.succ_lt_succ hi)
    rwa [running_succ] at hentry

theorem Offers.eq_nil (ho : r.Offers first heads) (hlen : heads.length < 65536)
    (hindex : r.index = first) : heads = [] := by
  have hlength := ho.index
  rw [hindex] at hlength
  have hnat := congrArg UInt16.toNat hlength
  rw [UInt16.toNat_add, UInt16.toNat_ofNat'] at hnat
  have hfirst := first.toNat_lt
  exact List.eq_nil_of_length_eq_zero (by omega)

end AvailRing

namespace UsedRing

structure Reports (r : UsedRing) (heads : List UInt16) : Prop where
  index : r.deviceIndex = r.lastSeen + UInt16.ofNat heads.length
  element : ∀ i (h : i < heads.length),
    (r.report (r.lastSeen + UInt16.ofNat i)).id = heads[i].toUInt32

variable {r q : UsedRing} {head : UInt16} {heads : List UInt16}

theorem backlog_eq_zero_iff : r.backlog = 0 ↔ r.lastSeen = r.deviceIndex := by
  rw [backlog, UInt16.toNat_sub, ← UInt16.toNat_inj]
  have hd := r.deviceIndex.toNat_lt
  have hl := r.lastSeen.toNat_lt
  omega

theorem backlog_succ (h : r.lastSeen ≠ r.deviceIndex) :
    { r with lastSeen := r.lastSeen + 1 }.backlog + 1 = r.backlog := toNat_sub_succ h

theorem Reports.isDrained_iff (hr : r.Reports heads) (hlen : heads.length < 65536) :
    r.isDrained = true ↔ heads = [] := by
  rw [isDrained, beq_iff_eq, hr.index]
  constructor
  · intro h
    have hnat := congrArg UInt16.toNat h
    rw [UInt16.toNat_add, UInt16.toNat_ofNat'] at hnat
    have hseen := r.lastSeen.toNat_lt
    exact List.eq_nil_of_length_eq_zero (by omega)
  · rintro rfl
    exact (UInt16.add_zero _).symm

/-- The oldest head reported is found under the cursor, and the others from the next index on. -/
theorem Reports.collect (hr : r.Reports (head :: heads)) :
    (r.report r.lastSeen).id = head.toUInt32 ∧
      Reports { r with lastSeen := r.lastSeen + 1 } heads := by
  refine ⟨?_, ?_, fun i hi => ?_⟩
  · have helement := hr.element 0 (Nat.succ_pos _)
    rwa [show r.lastSeen + UInt16.ofNat 0 = r.lastSeen from UInt16.add_zero _] at helement
  · have hindex := hr.index
    rwa [List.length_cons, running_succ] at hindex
  · have helement := hr.element (i + 1) (Nat.succ_lt_succ hi)
    rwa [running_succ] at helement

private theorem elementOffset_fits (hn : 0 < r.size.toNat)
    (hr : ringOffset + elementWidth * r.size.toNat ≤ r.region.size) (i : UInt16) :
    elementOffset r.size i + 8 ≤ r.region.size := by
  have := Nat.mod_lt i.toNat hn
  simp only [elementOffset, elementWidth, UInt16.toNat_mod] at hr ⊢
  omega

/-- A ring with one more element, under the controller's index. -/
def reported (r : UsedRing) (e : UsedElement) : UsedRing :=
  { r with
    region := ((r.region.store32 (elementOffset r.size r.deviceIndex) e.id).store32
      (elementOffset r.size r.deviceIndex + 4) e.length).store16 indexOffset (r.deviceIndex + 1) }

/-- A ring with an element written under the controller's index, which has not moved on yet. -/
def placed (r : UsedRing) (e : UsedElement) : UsedRing :=
  { r with
    region := (r.region.store32 (elementOffset r.size r.deviceIndex) e.id).store32
      (elementOffset r.size r.deviceIndex + 4) e.length }

/-- A ring whose controller has moved its index on. -/
def advanced (r : UsedRing) : UsedRing :=
  { r with region := r.region.store16 indexOffset (r.deviceIndex + 1) }

theorem deviceIndex_placed (e : UsedElement) : (r.placed e).deviceIndex = r.deviceIndex := by
  simp only [deviceIndex, placed, elementOffset, indexOffset, ringOffset]
  rw [Region.load16_store32_disjoint _ (by omega), Region.load16_store32_disjoint _ (by omega)]

private theorem reported_eq (e : UsedElement) : r.reported e = (r.placed e).advanced := by
  rw [advanced, deviceIndex_placed]
  rfl

theorem deviceIndex_advanced (hr : ringOffset ≤ r.region.size) :
    r.advanced.deviceIndex = r.deviceIndex + 1 := Region.load16_store16_same _ hr

theorem report_advanced (i : UInt16) : r.advanced.report i = r.report i := by
  simp only [report, element, advanced, elementOffset, indexOffset, ringOffset]
  rw [Region.load32_store16_disjoint _ (by omega), Region.load32_store16_disjoint _ (by omega)]

theorem report_placed (hn : 0 < r.size.toNat)
    (hr : ringOffset + elementWidth * r.size.toNat ≤ r.region.size) (e : UsedElement) (i : UInt16) :
    (r.placed e).report i = if i % r.size = r.deviceIndex % r.size then e else r.report i := by
  have hfit := elementOffset_fits hn hr r.deviceIndex
  by_cases h : i % r.size = r.deviceIndex % r.size
  · have hplace : elementOffset r.size i = elementOffset r.size r.deviceIndex := by
      rw [elementOffset, h, elementOffset]
    rw [if_pos h]
    simp only [report, element, placed, hplace]
    rw [Region.load32_store32_disjoint _ (by omega), Region.load32_store32_same _ (by omega),
      Region.load32_store32_same _ (by rw [Region.size_store32]; omega)]
  · have hne : (i % r.size).toNat ≠ (r.deviceIndex % r.size).toNat := fun he =>
      h (UInt16.toNat_inj.1 he)
    rw [if_neg h]
    simp only [report, element, placed, elementOffset, elementWidth]
    rw [Region.load32_store32_disjoint _ (by omega), Region.load32_store32_disjoint _ (by omega),
      Region.load32_store32_disjoint _ (by omega), Region.load32_store32_disjoint _ (by omega)]

/-- Reporting moves the index on, writes the element under it and leaves the other elements. -/
private theorem report_reported (hn : 0 < r.size.toNat)
    (hr : ringOffset + elementWidth * r.size.toNat ≤ r.region.size) (e : UsedElement) :
    (r.reported e).deviceIndex = r.deviceIndex + 1 ∧
      ∀ i, (r.reported e).report i =
        if i % r.size = r.deviceIndex % r.size then e else r.report i := by
  have hsize : (r.placed e).region.size = r.region.size := by simp [placed]
  rw [reported_eq]
  refine ⟨?_, fun i => ?_⟩
  · rw [deviceIndex_advanced (by omega), deviceIndex_placed]
  · rw [report_advanced, report_placed hn hr]

theorem Reports.inject {n : Nat} (hr : r.Reports heads) (hn : n ∣ 65536 ∨ heads = [])
    (hsize : r.size.toNat = n) (hroom : heads.length < n)
    (hfit : ringOffset + elementWidth * n ≤ r.region.size) (length : UInt32) :
    (r.reported ⟨head.toUInt32, length⟩).Reports (heads ++ [head]) := by
  obtain ⟨hindex, helement⟩ := report_reported (r := r) (by omega) (by rw [hsize]; exact hfit)
    ⟨head.toUInt32, length⟩
  constructor
  · rw [hindex, hr.index, List.length_append, List.length_singleton, UInt16.ofNat_add,
      ← UInt16.add_assoc]
    rfl
  · intro i hi
    rw [List.length_append, List.length_singleton] at hi
    rw [helement, hr.index]
    change (if (r.lastSeen + UInt16.ofNat i) % r.size = _ then _ else
      r.report (r.lastSeen + UInt16.ofNat i)).id = _
    rcases Nat.lt_or_ge i heads.length with hlt | hge
    · have hdvd : n ∣ 65536 := hn.resolve_right fun h => by
        rw [h] at hlt
        cases hlt
      rw [if_neg (running_mod_ne hdvd r.lastSeen r.size hsize hlt (by omega)),
        List.getElem_append_left hlt]
      exact hr.element i hlt
    · have hi' : i = heads.length := by omega
      subst hi'
      rw [if_pos rfl, List.getElem_concat_length rfl]

end UsedRing

namespace SharedMemory

variable {m : SharedMemory} {n : Nat}

/-- A controller with a queue of the ring's size finds the heads where the driver offers them. -/
theorem offered_eq_entry (hn : m.rings.queue.avail.size.toNat = n) (i : UInt16) :
    m.offered n i = m.rings.queue.avail.entry i := by
  rw [offered, AvailRing.entry, AvailRing.entryOffset, UInt16.toNat_mod, hn]

theorem report_eq_reported (hn : m.rings.queue.used.size.toNat = n) (e : UsedElement) :
    m.report n m.rings.queue.used.deviceIndex e =
      { m with rings.queue.used := m.rings.queue.used.reported e } := by
  rw [report, UsedRing.reported, UsedRing.elementOffset, UInt16.toNat_mod, hn]

end SharedMemory

end DiskStack
