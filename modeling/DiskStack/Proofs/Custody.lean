import DiskStack.Proofs.Chains
import DiskStack.Proofs.Memory
import DiskStack.Proofs.Offers

/-!
# Where a chain in flight is

Each chain in flight is in one place: offered by the driver, held by the controller, carried out and
not yet reported, or reported. The status byte tells whether it has been carried out. Publishing puts
a chain at the first place, the steps of the controller move it on in any order, and completing it
takes it away.
-/

namespace DiskStack

namespace Rings

/-- The heads in flight, in any order. On a ring that does not divide the wrap of the indices there is
one at most. -/
structure Tracks (r : Rings) (n : Nat) (l : List UInt16) : Prop where
  nodup : l.Nodup
  heads : ∀ h, r.IsHead h ↔ h ∈ l
  sparse : n ∣ 65536 ∨ l.length ≤ 1

structure Custody (r : Rings) (c : Controller) (n : Nat) (offered unreported reported : List UInt16) :
    Prop where
  queue : c.queueSize = n
  tracks : r.Tracks n (offered ++ c.held ++ unreported ++ reported)
  offers : r.queue.avail.Offers c.lastAvail offered
  reports : r.queue.used.Reports reported
  usedIndex : c.usedIndex = r.queue.used.deviceIndex
  undone : ∀ h ∈ offered ++ c.held, r.statusByte h ≠ RequestStatus.ok
  done : ∀ h ∈ unreported ++ reported, r.statusByte h = RequestStatus.ok

variable {r q : Rings} {c c' : Controller} {n : Nat} {l l' : List UInt16}
  {offered unreported reported : List UInt16} {h : UInt16}

private theorem Tracks.perm (ht : r.Tracks n l) (hl : l'.Perm l) (hq : ∀ h, q.IsHead h ↔ r.IsHead h) :
    q.Tracks n l' where
  nodup := hl.nodup_iff.2 ht.nodup
  heads h := by rw [hq, ht.heads, hl.mem_iff]
  sparse := by
    rw [hl.length_eq]
    exact ht.sparse

private theorem Tracks.length_le (ht : r.Tracks n l) (hr : r.Sound n) : l.length ≤ n :=
  length_le_of_lt ht.nodup fun h hh => by
    obtain ⟨e, he⟩ := Option.isSome_iff_exists.1 ((ht.heads h).2 hh)
    exact hr.lt_of_entryAt he

private theorem Tracks.publish (ht : r.Tracks n l) (hb : r.Balanced n) {chain : Chain} {s : Submission}
    (hfresh : r.Fresh chain) (hq : Published (r.taking chain) n chain s q)
    (room : n ∣ 65536 ∨ ∀ h, ¬r.IsHead h) : q.Tracks n (chain.head :: l) := by
  have hhead : ∀ h, q.IsHead h ↔ h = chain.head ∨ r.IsHead h := fun h => by
    have hentry : q.entryAt h.toNat = if h.toNat = chain.head.toNat then some ⟨s.request, s.ticket⟩
      else r.entryAt h.toNat := hq.entry h.toNat
    rw [IsHead, hentry]
    by_cases hh : h = chain.head
    · simp [hh]
    · simp [hh, UInt16.toNat_inj, IsHead]
  have hnot : ¬r.IsHead chain.head := fun hh => by
    rw [IsHead, hb.entryAt_fresh hfresh] at hh
    cases hh
  refine ⟨List.nodup_cons.2 ⟨fun hmem => hnot ((ht.heads _).2 hmem), ht.nodup⟩, fun h => ?_, ?_⟩
  · rw [hhead, ht.heads, List.mem_cons]
  · apply room.imp_right
    intro hnone
    have hnil : l = [] := List.eq_nil_iff_forall_not_mem.2 fun h hmem => hnone h ((ht.heads h).2 hmem)
    exact Nat.le_of_eq (by rw [hnil, List.length_singleton])

private theorem Tracks.settle (ht : r.Tracks n (h :: l)) (hb : r.Balanced n) :
    (r.settled h).Tracks n l := by
  obtain ⟨hnot, hnodup⟩ := List.nodup_cons.1 ht.nodup
  refine ⟨hnodup, fun k => ?_, ht.sparse.imp_right fun hlen => ?_⟩
  · have hentry := hb.entryAt_settled ((ht.heads h).2 (List.mem_cons_self ..)) k.toNat
    have hold : (r.entryAt k.toNat).isSome = true ↔ k ∈ h :: l := ht.heads k
    rw [IsHead, hentry]
    by_cases hk : k = h
    · simp [hk, hnot]
    · simp [UInt16.toNat_inj, hk, hold]
  · rw [List.length_cons] at hlen
    omega

theorem Custody.congr (hc : r.Custody c n offered unreported reported)
    (hqueue : c'.queueSize = c.queueSize) (hheld : c'.held = c.held)
    (havail : c'.lastAvail = c.lastAvail) (hused : c'.usedIndex = c.usedIndex) :
    r.Custody c' n offered unreported reported := by
  refine ⟨by rw [hqueue, hc.queue], ?_, ?_, hc.reports, by rw [hused, hc.usedIndex], ?_, hc.done⟩
  · rw [hheld]
    exact hc.tracks
  · rw [havail]
    exact hc.offers
  · rw [hheld]
    exact hc.undone

theorem Custody.publish (hc : r.Custody c n offered unreported reported) (hb : r.Balanced n)
    {chain : Chain} {s : Submission} (hfresh : r.Fresh chain)
    (hq : Published (r.taking chain) n chain s q) (room : n ∣ 65536 ∨ ∀ h, ¬r.IsHead h) :
    q.Custody c n (offered ++ [chain.head]) unreported reported := by
  have hnew : chain.head ∉ offered ++ c.held ++ unreported ++ reported := fun hmem => by
    have hhead := (hc.tracks.heads _).2 hmem
    rw [IsHead, hb.entryAt_fresh hfresh] at hhead
    cases hhead
  have hstatus : ∀ h, h ≠ chain.head → q.statusByte h = r.statusByte h := fun h hne =>
    (hq.statusByte h).trans (if_neg hne)
  have htracks : q.Tracks n (offered ++ [chain.head] ++ c.held ++ unreported ++ reported) := by
    refine (hc.tracks.publish hb hfresh hq room).perm ?_ fun _ => Iff.rfl
    simp only [List.append_assoc]
    exact List.perm_middle
  refine ⟨hc.queue, htracks, ?_, by rw [hq.used]; exact hc.reports,
    by rw [hq.used]; exact hc.usedIndex, ?_, ?_⟩
  · have hroom : offered.length < n := by
      have hle := htracks.length_le hq.sound
      simp only [List.length_append, List.length_singleton] at hle
      omega
    refine hc.offers.push (room.imp_right fun hnone => ?_) hb.sound.availSize hroom hq.index
      hq.offered
    exact List.eq_nil_iff_forall_not_mem.2 fun h hmem =>
      hnone h ((hc.tracks.heads h).2 (by simp [hmem]))
  · intro h hh
    by_cases hne : h = chain.head
    · rw [hq.statusByte, if_pos hne]
      decide
    · rw [hstatus h hne]
      apply hc.undone h
      simpa [hne] using hh
  · intro h hh
    rw [hstatus h fun hne => hnew (hne ▸ by
      simp only [List.append_assoc, List.mem_append] at hh ⊢
      exact .inr (.inr hh))]
    exact hc.done h hh

theorem Custody.take (hc : r.Custody c n (h :: offered) unreported reported) :
    r.queue.avail.entry c.lastAvail = h ∧
      r.Custody { c with held := c.held ++ [h], lastAvail := c.lastAvail + 1 } n offered unreported
        reported := by
  obtain ⟨hentry, hoffers⟩ := hc.offers.take
  refine ⟨hentry, hc.queue, ?_, hoffers, hc.reports, hc.usedIndex, fun k hk => hc.undone k ?_, hc.done⟩
  · refine hc.tracks.perm ?_ fun _ => Iff.rfl
    have hmiddle : (offered ++ c.held ++ h :: (unreported ++ reported)).Perm
        (h :: (offered ++ c.held ++ (unreported ++ reported))) := List.perm_middle
    simpa only [List.append_assoc, List.cons_append, List.nil_append] using hmiddle
  · simp only [List.mem_append, List.mem_cons, List.not_mem_nil, or_false] at hk ⊢
    rcases hk with hk | hk | hk <;> simp [hk]

theorem Custody.execute (hc : r.Custody c n offered unreported reported) (hr : r.Sound n)
    (hh : h ∈ c.held) (image : Image) :
    (r.setStatusByte h RequestStatus.ok).Custody { c with held := c.held.erase h, image } n offered
      (h :: unreported) reported := by
  have hmem : ∀ k, k ∈ offered ++ c.held.erase h → k ∈ offered ++ c.held := fun k hk => by
    rcases List.mem_append.1 hk with hk | hk
    · exact List.mem_append_left _ hk
    · exact List.mem_append_right _ (List.mem_of_mem_erase hk)
  have hnodup := hc.tracks.nodup
  have hnot : h ∉ offered ++ c.held.erase h := by
    have hsplit : (offered ++ c.held).Nodup := by
      rw [List.append_assoc] at hnodup
      exact (List.nodup_append.1 hnodup).1
    intro hk
    rcases List.mem_append.1 hk with hk | hk
    · exact (List.nodup_append.1 hsplit).2.2 h hk h hh rfl
    · exact (List.nodup_append.1 hsplit).2.1.not_mem_erase hk
  have hfit : h.toNat < r.status.size := by
    obtain ⟨e, he⟩ := Option.isSome_iff_exists.1 ((hc.tracks.heads h).2 (by simp [hh]))
    have hlt := hr.lt_of_entryAt he
    have hsize := hr.status
    omega
  have hstatus := fun k => statusByte_setStatusByte (r := r) k h RequestStatus.ok hfit
  refine ⟨hc.queue, ?_, hc.offers, hc.reports, hc.usedIndex, fun k hk => ?_, fun k hk => ?_⟩
  · refine hc.tracks.perm ?_ fun _ => Iff.rfl
    simp only [List.append_assoc]
    apply List.Perm.append_left _
    rw [List.cons_append]
    exact List.perm_middle.trans ((List.perm_cons_erase hh).symm.append_right _)
  · rw [hstatus, if_neg fun he : k = h => hnot (he ▸ hk)]
    exact hc.undone k (hmem k hk)
  · rw [hstatus]
    by_cases hk' : k = h
    · rw [if_pos hk']
    · rw [if_neg hk']
      exact hc.done k (by simpa [hk'] using hk)

theorem Custody.report (hc : r.Custody c n offered unreported reported) (hr : r.Sound n)
    (hh : h ∈ unreported) (length : UInt32) :
    Custody { r with queue.used := r.queue.used.reported ⟨h.toUInt32, length⟩ }
      { c with usedIndex := c.usedIndex + 1 } n offered (unreported.erase h) (reported ++ [h]) := by
  have hlen := hc.tracks.length_le hr
  have hpos := List.length_pos_of_mem hh
  simp only [List.length_append] at hlen
  have hreports : (r.queue.used.reported ⟨h.toUInt32, length⟩).Reports (reported ++ [h]) :=
    hc.reports.inject (hc.tracks.sparse.imp_right fun hle => by
      simp only [List.length_append] at hle
      exact List.eq_nil_of_length_eq_zero (by omega)) hr.usedSize (by omega) hr.used length
  refine ⟨hc.queue, ?_, hc.offers, hreports, ?_, hc.undone, fun k hk => hc.done k ?_⟩
  · refine hc.tracks.perm ?_ fun _ => Iff.rfl
    simp only [List.append_assoc]
    refine (List.Perm.append_left _ (List.Perm.append_left _ ?_))
    rw [← List.append_assoc]
    apply (List.perm_append_singleton h _).trans
    rw [← List.cons_append]
    exact (List.perm_cons_erase hh).symm.append_right _
  · have hlength := hc.reports.index
    rw [hreports.index, hc.usedIndex, hlength, List.length_append, List.length_singleton,
      UInt16.ofNat_add, ← UInt16.add_assoc]
    rfl
  · simp only [List.mem_append, List.mem_singleton] at hk ⊢
    rcases hk with hk | hk | hk
    · exact .inl (List.mem_of_mem_erase hk)
    · exact .inr hk
    · exact .inl (hk ▸ hh)

theorem Custody.settle (hc : r.Custody c n offered unreported (h :: reported)) (hb : r.Balanced n) :
    (r.queue.used.report r.queue.used.lastSeen).id = h.toUInt32 ∧
      (r.settled h).Custody c n offered unreported reported := by
  obtain ⟨hid, hreports⟩ := hc.reports.collect
  refine ⟨hid, hc.queue, ?_, hc.offers, hreports, hc.usedIndex, hc.undone, fun k hk => hc.done k ?_⟩
  · exact (hc.tracks.perm List.perm_middle.symm fun _ => Iff.rfl).settle hb
  · simp only [List.mem_append, List.mem_cons] at hk ⊢
    rcases hk with hk | hk <;> simp [hk]

theorem Custody.isDrained_iff (hc : r.Custody c n offered unreported reported) (hr : r.Sound n) :
    r.queue.used.isDrained = true ↔ reported = [] := by
  have hlen := hc.tracks.length_le hr
  have hmost := hr.most
  simp only [List.length_append] at hlen
  exact hc.reports.isDrained_iff (by omega)

/-- Where the controller has nothing to do and nothing is reported, nothing is in flight. -/
theorem Custody.vacant (hc : r.Custody c n offered unreported reported) (hr : r.Sound n)
    (htaken : c.lastAvail = r.queue.avail.index) (hheld : c.held = []) (hdone : unreported = [])
    (hdrained : r.queue.used.isDrained = true) (h : UInt16) : ¬r.IsHead h := by
  have hlen := hc.tracks.length_le hr
  have hmost := hr.most
  simp only [List.length_append] at hlen
  rw [hc.tracks.heads, hc.offers.eq_nil (by omega) htaken.symm, hheld, hdone,
    (hc.isDrained_iff hr).1 hdrained]
  exact List.not_mem_nil

end Rings

end DiskStack
