import Mathlib.Data.List.Nodup
import DiskStack.Proofs.SectorRanges

/-!
# The plan of a transfer

Which accesses a transfer makes does not depend on what is read or written. As long as none of them is
refused, it visits the blocks of its range in ascending order: a read reads each block, a write writes
each block and, if only a part of the block is in the range, reads it just before. Main result: the
accesses are those of this plan, whatever the device does with the data.
-/

namespace DiskStack

/-- What an access is for. -/
structure Visit where
  block : Nat
  write : Bool
  deriving DecidableEq, Repr

def BlockAccess.visit (a : BlockAccess) : Visit := ⟨a.block, a.write⟩

/-- Whether a block lies wholly inside a range of sectors. -/
def InsideRange (sectorsPerBlock start count block : Nat) : Prop :=
  start ≤ block * sectorsPerBlock ∧ block * sectorsPerBlock + sectorsPerBlock ≤ start + count

instance (sectorsPerBlock start count block : Nat) :
    Decidable (InsideRange sectorsPerBlock start count block) := inferInstanceAs (Decidable (_ ∧ _))

/-- How a transfer of a range visits one of its blocks. -/
def visitsTo (write : Bool) (sectorsPerBlock start count block : Nat) : List Visit :=
  if write then
    if InsideRange sectorsPerBlock start count block then [⟨block, true⟩]
    else [⟨block, false⟩, ⟨block, true⟩]
  else [⟨block, false⟩]

/-- The visits of a transfer, from the block of the first sector to that of the last. -/
def transferPlan (write : Bool) (sectorsPerBlock start : Nat) : Nat → List Visit
  | 0 => []
  | count + 1 =>
    (List.range' (start / sectorsPerBlock)
      ((start + count) / sectorsPerBlock + 1 - start / sectorsPerBlock)).flatMap
        (visitsTo write sectorsPerBlock start (count + 1))

/-- Four sectors of which only the middle two are a whole block. -/
example : transferPlan true 2 1 4 = [⟨0, false⟩, ⟨0, true⟩, ⟨1, true⟩, ⟨2, false⟩, ⟨2, true⟩] := by
  decide

section Plan

variable {write : Bool} {spb start count block : Nat} {v : Visit}

private theorem mem_visitsTo (h : v ∈ visitsTo write spb start count block) :
    v.block = block ∧ (write = true → v.write = false → ¬InsideRange spb start count block) := by
  rw [visitsTo] at h
  split at h
  · split at h
    · rw [List.mem_singleton.1 h]
      exact ⟨rfl, fun _ hw => by cases hw⟩
    · next hpart =>
      refine ⟨?_, fun _ _ => hpart⟩
      rcases List.mem_cons.1 h with rfl | h
      · rfl
      · rw [List.mem_singleton.1 h]
  · next hread =>
    rw [List.mem_singleton.1 h]
    exact ⟨rfl, fun hw => absurd hw hread⟩

private theorem nodup_visitsTo : (visitsTo write spb start count block).Nodup := by
  rw [visitsTo]
  split
  · split <;> simp
  · simp

private theorem mem_transferPlan (h : v ∈ transferPlan write spb start count) :
    start / spb ≤ v.block ∧ v.block ≤ (start + count - 1) / spb ∧ 0 < count ∧
      (write = true → v.write = false → ¬InsideRange spb start count v.block) := by
  cases count with
  | zero => cases h
  | succ count =>
    obtain ⟨block, hblock, hv⟩ := List.mem_flatMap.1 h
    obtain ⟨rfl, hpart⟩ := mem_visitsTo hv
    obtain ⟨hfirst, hlast⟩ := List.mem_range'_1.1 hblock
    refine ⟨hfirst, ?_, Nat.succ_pos _, hpart⟩
    change v.block ≤ (start + count) / spb
    omega

private theorem exists_sector (hpos : 0 < spb) (h : v ∈ transferPlan write spb start count) :
    ∃ sector, start ≤ sector ∧ sector < start + count ∧ v.block = sector / spb := by
  obtain ⟨hfirst, hlast, hcount, -⟩ := mem_transferPlan h
  rcases Nat.eq_or_lt_of_le hfirst with heq | hlater
  · exact ⟨start, Nat.le_refl _, Nat.lt_add_of_pos_right hcount, heq.symm⟩
  · have hstart := (Nat.div_lt_iff_lt_mul hpos).1 hlater
    have hstop := (Nat.le_div_iff_mul_le hpos).1 hlast
    exact ⟨v.block * spb, Nat.le_of_lt hstart, by omega, (Nat.mul_div_cancel _ hpos).symm⟩

private theorem nodup_transferPlan : (transferPlan write spb start count).Nodup := by
  cases count with
  | zero => exact List.nodup_nil
  | succ count =>
    have hascending : (List.range' (start / spb)
        ((start + count) / spb + 1 - start / spb)).Pairwise (· < ·) := List.pairwise_lt_range' _
    refine List.pairwise_flatMap.2 ⟨fun _ _ => nodup_visitsTo, hascending.imp ?_⟩
    rintro a b hlt x hx _ hy rfl
    have hblock : a = b := (mem_visitsTo hx).1.symm.trans (mem_visitsTo hy).1
    exact absurd hblock (Nat.ne_of_lt hlt)

private theorem ends_of_read (hpos : 0 < spb) (h : v ∈ transferPlan true spb start count)
    (hread : v.write = false) : v.block = start / spb ∨ v.block = (start + count - 1) / spb := by
  obtain ⟨hfirst, hlast, hcount, hpart⟩ := mem_transferPlan h
  rcases Nat.eq_or_lt_of_le hfirst with heq | hlater
  · exact .inl heq.symm
  · rcases Nat.eq_or_lt_of_le hlast with heq | hearlier
    · exact .inr heq
    · have hstart := (Nat.div_lt_iff_lt_mul hpos).1 hlater
      have hstop := (Nat.le_div_iff_mul_le hpos).1 hearlier
      rw [Nat.succ_mul] at hstop
      exact absurd ⟨Nat.le_of_lt hstart, by omega⟩ (hpart rfl hread)

private theorem length_reads_le (hpos : 0 < spb) :
    ((transferPlan true spb start count).filter fun v => !v.write).length ≤ 2 := by
  have hsub : (transferPlan true spb start count).filter (fun v => !v.write) ⊆
      [⟨start / spb, false⟩, ⟨(start + count - 1) / spb, false⟩] := by
    intro v hv
    obtain ⟨hmem, hwrite⟩ := List.mem_filter.1 hv
    have hread : v.write = false := (Bool.not_eq_true' _).mp hwrite
    obtain ⟨block, _⟩ := v
    cases hread
    rcases ends_of_read hpos hmem rfl with rfl | rfl
    · exact List.mem_cons_self
    · exact List.mem_cons_of_mem _ List.mem_cons_self
  exact (List.Nodup.filter _ nodup_transferPlan).length_le_of_subset hsub

private theorem transferPlan_of_pos (h : 0 < count) :
    transferPlan write spb start count =
      (List.range' (start / spb) ((start + count - 1) / spb + 1 - start / spb)).flatMap
        (visitsTo write spb start count) := by
  obtain ⟨count, rfl⟩ := Nat.exists_eq_succ_of_ne_zero (Nat.ne_of_gt h)
  rfl

private theorem transferPlan_of_fits (hpos : 0 < spb) (hcount : 0 < count) (h : start % spb + count ≤ spb) :
    transferPlan write spb start count = visitsTo write spb start count (start / spb) := by
  have hlast : (start + count - 1) / spb = start / spb := by
    have hdiv := Nat.div_add_mod start spb
    rw [Nat.div_eq_iff hpos, Nat.mul_comm]
    omega
  rw [transferPlan_of_pos hcount, hlast, Nat.add_sub_cancel_left]
  exact List.flatMap_singleton ..

/-- A range that goes on after the block of its first sector continues at the next block. -/
private theorem transferPlan_of_exceeds (hpos : 0 < spb) {first : Nat} (hfirst : start % spb + first = spb)
    (h : first < count) :
    transferPlan write spb start count = visitsTo write spb start count (start / spb) ++
      transferPlan write spb (start + first) (count - first) := by
  have hnext : start + first = (start / spb + 1) * spb := by
    have hdiv := Nat.div_add_mod start spb
    rw [Nat.succ_mul, Nat.mul_comm]
    omega
  have hblock : (start + first) / spb = start / spb + 1 := by
    rw [hnext, Nat.mul_div_cancel _ hpos]
  have hlast : start / spb + 1 ≤ (start + count - 1) / spb := by
    rw [Nat.le_div_iff_mul_le hpos, ← hnext]
    omega
  have hend : start + first + (count - first) = start + count := by omega
  have hblocks : (start + count - 1) / spb + 1 - start / spb =
      (start + count - 1) / spb + 1 - (start / spb + 1) + 1 := by omega
  rw [transferPlan_of_pos (Nat.lt_of_le_of_lt (Nat.zero_le _) h),
    transferPlan_of_pos (Nat.sub_pos_of_lt h), hend, hblock, hblocks, List.range'_succ,
    List.flatMap_cons]
  congr 1
  -- no later block begins before the next one, so both ranges hold it wholly or neither does
  refine List.flatMap_congr fun block hmem => ?_
  have hlater := (List.mem_range'_1.1 hmem).1
  have hinside : InsideRange spb start count block ↔
      InsideRange spb (start + first) (count - first) block := by
    have hbegin := Nat.mul_le_mul_right spb hlater
    rw [InsideRange, InsideRange, hend]
    omega
  simp only [visitsTo, hinside]

private theorem transferPlan_eq (hpos : 0 < spb) (hcount : 0 < count) :
    transferPlan write spb start count = visitsTo write spb start count (start / spb) ++
      transferPlan write spb (start + min (spb - start % spb) count)
        (count - min (spb - start % spb) count) := by
  have hfirst : start % spb + (spb - start % spb) = spb :=
    Nat.add_sub_cancel' (Nat.le_of_lt (Nat.mod_lt start hpos))
  rcases Nat.lt_or_ge (spb - start % spb) count with hexceeds | hfits
  · rw [Nat.min_eq_left (Nat.le_of_lt hexceeds)]
    exact transferPlan_of_exceeds hpos hfirst hexceeds
  · rw [Nat.min_eq_right hfits, Nat.sub_self, transferPlan_of_fits hpos hcount (by omega)]
    exact (List.append_nil _).symm

end Plan

namespace BlockProgram

variable {σ α β : Type} {size : Nat} {P : α → Prop} {Q : β → Prop} {visits later : List Visit}

/-- As long as its accesses are carried out, a program makes those of a list, each with a buffer of
`size` bytes, and of its value something holds. -/
def Follows (size : Nat) (P : α → Prop) : BlockProgram α → List Visit → Prop
  | .done a, visits => visits = [] ∧ P a
  | .halt _, _ => False
  | .access a next, visits =>
    a.data.length = size ∧ ∃ later, visits = a.visit :: later ∧
      ∀ data, data.length = size → (next ⟨.ok (), data⟩).Follows size P later

private theorem follows_done {a : α} (h : P a) : (done a).Follows size P [] := ⟨rfl, h⟩

private theorem follows_transfer {a : BlockAccess} {f : BlockReply → BlockProgram β}
    (hlen : a.data.length = size)
    (h : ∀ data, data.length = size → (f ⟨.ok (), data⟩).Follows size Q visits) :
    (transfer a >>= f).Follows size Q (a.visit :: visits) := ⟨hlen, visits, rfl, h⟩

private theorem follows_ofChecked {e : Except Halt α} {a : α} (he : e = .ok a) {f : α → BlockProgram β}
    (h : (f a).Follows size Q visits) : (ofChecked e >>= f).Follows size Q visits := by
  subst he
  exact h

private theorem Follows.bind {p : BlockProgram α} {f : α → BlockProgram β} (h : p.Follows size P visits)
    (hf : ∀ a, P a → (f a).Follows size Q later) : (p >>= f).Follows size Q (visits ++ later) := by
  induction p generalizing visits with
  | done a =>
    obtain ⟨rfl, ha⟩ := h
    exact hf a ha
  | halt h' => exact h.elim
  | access a next ih =>
    obtain ⟨hlen, after, rfl, hnext⟩ := h
    exact ⟨hlen, after ++ later, rfl, fun data hdata => ih _ (hnext data hdata)⟩

/-- Held with whatever carries out the accesses of its plan, a program comes to its end and makes these
accesses. -/
private theorem Follows.run {submit : BlockAccess → σ → BlockReply × σ} {p : BlockProgram α}
    (h : p.Follows size P visits)
    (serves : ∀ a s, a.visit ∈ visits → a.data.length = size →
      (submit a s).1.result = .ok () ∧ (submit a s).1.data.length = size) (s : σ) :
    ∃ a s', p.run submit s = (.ok a, s') ∧ P a ∧
      (p.answers submit s).map (fun x => x.1.visit) = visits ∧
      ∀ x ∈ p.answers submit s, x.1.data.length = size := by
  induction p generalizing visits s with
  | done a =>
    obtain ⟨rfl, ha⟩ := h
    exact ⟨a, s, rfl, ha, rfl, fun x hx => nomatch hx⟩
  | halt h' => exact h.elim
  | access a next ih =>
    obtain ⟨hlen, later, rfl, hnext⟩ := h
    obtain ⟨hok, hdata⟩ := serves a s List.mem_cons_self hlen
    have hreply : (submit a s).1 = ⟨.ok (), (submit a s).1.data⟩ := by rw [← hok]
    obtain ⟨b, s', hrun, hb, hvisits, hsizes⟩ :=
      ih (submit a s).1 (hreply ▸ hnext _ hdata)
        (fun b u hb => serves b u (List.mem_cons_of_mem _ hb)) (submit a s).2
    refine ⟨b, s', hrun, hb, congrArg (a.visit :: ·) hvisits, fun x hx => ?_⟩
    rcases List.mem_cons.1 hx with rfl | hx
    · exact hlen
    · exact hsizes x hx

end BlockProgram

namespace SectorProgress

variable {σ : Type} {d : BlockDevice σ} {p : SectorProgress} {write : Bool}

/-- The span has been transferred, whatever there was to move. -/
def SpanDone (d : BlockDevice σ) (p : SectorProgress) (r : Except BlockError Unit × SectorProgress) :
    Prop :=
  ∃ rest scratch, r = (.ok (), { p with rest, scratch }) ∧ rest.length = p.rest.length ∧
    scratch.length = d.blockSize

private theorem length_span_eq_iff (hd : d.Sectored) : (p.span d).length = d.blockSize ↔
    InsideRange d.sectorsPerBlock p.sector p.remaining (p.sector / d.sectorsPerBlock) := by
  have hdiv := Nat.div_add_mod p.sector d.sectorsPerBlock
  have hmod := Nat.mod_lt p.sector hd.pos
  have hcount : (p.span d).length = d.blockSize ↔ p.spanSectors d = d.sectorsPerBlock := by
    rw [length_span, hd.size]
    exact Nat.mul_right_inj (by decide)
  rw [hcount, spanSectors, InsideRange, Nat.mul_comm]
  omega

theorem length_put {data : Bytes} (h : data.length ≤ p.rest.length) :
    (p.put data).rest.length = p.rest.length := by
  simp only [put, List.length_append, List.length_drop]
  omega

theorem Ample.slice_le (hp : p.Ample d) (data : Bytes) :
    (data.slice (p.span d).offset (p.span d).length).length ≤ p.rest.length := by
  rw [Bytes.slice, List.length_take]
  exact Nat.le_trans (Nat.min_le_left _ _) hp.span_le

private theorem readSpan_follows (hd : d.Sectored) (hp : p.Ample d) :
    (p.readSpan d.blockSize (p.span d)).Follows d.blockSize (p.SpanDone d)
      (visitsTo false d.sectorsPerBlock p.sector p.remaining (p.sector / d.sectorsPerBlock)) := by
  obtain ⟨hnext, hlen⟩ := hp.next_eq
  rw [readSpan]
  split
  · next hfull =>
    rw [hfull] at hnext hlen
    rw [length_span] at hfull
    refine BlockProgram.follows_ofChecked hnext ?_
    refine BlockProgram.follows_transfer hlen fun data hdata => ?_
    exact BlockProgram.follows_done ⟨_, p.scratch, rfl,
      length_put (Nat.le_trans (Nat.le_of_eq (hdata.trans hfull.symm)) hp.span_le), hp.scratch⟩
  · refine BlockProgram.follows_transfer hp.scratch fun data hdata => ?_
    refine BlockProgram.follows_ofChecked hnext
      (BlockProgram.follows_ofChecked (slice_span hd hdata) ?_)
    exact BlockProgram.follows_done
      ⟨_, data, rfl, length_put (p := { p with scratch := data }) (hp.slice_le data), hdata⟩

private theorem flushSpan_follows (hd : d.Sectored) (hp : p.Ample d) :
    (p.flushSpan (p.span d)).Follows d.blockSize (p.SpanDone d)
      [⟨p.sector / d.sectorsPerBlock, true⟩] := by
  obtain ⟨hsplice, hkept⟩ := hp.splice_eq hd
  refine BlockProgram.follows_ofChecked hp.next_eq.1 (BlockProgram.follows_ofChecked hsplice ?_)
  refine BlockProgram.follows_transfer hkept fun data hdata => ?_
  exact BlockProgram.follows_done ⟨p.rest, data, rfl, rfl, hdata⟩

private theorem writeSpan_follows (hd : d.Sectored) (hp : p.Ample d) :
    (p.writeSpan d.blockSize (p.span d)).Follows d.blockSize (p.SpanDone d)
      (visitsTo true d.sectorsPerBlock p.sector p.remaining (p.sector / d.sectorsPerBlock)) := by
  rw [writeSpan, visitsTo, if_pos rfl]
  split
  · next hfull =>
    rw [if_pos ((length_span_eq_iff hd).1 hfull)]
    exact flushSpan_follows hd hp
  · next hpart =>
    rw [if_neg fun hinside => hpart ((length_span_eq_iff hd).2 hinside)]
    refine BlockProgram.follows_transfer hp.scratch fun data hdata => ?_
    exact flushSpan_follows (p := { p with scratch := data }) hd (hp.renewed rfl hdata)

private theorem transferSpans_follows (hd : d.Sectored)
    {step : SectorProgress → Span → BlockProgram (Except BlockError Unit × SectorProgress)}
    (hstep : ∀ p : SectorProgress, p.Ample d → (step p (p.span d)).Follows d.blockSize (p.SpanDone d)
      (visitsTo write d.sectorsPerBlock p.sector p.remaining (p.sector / d.sectorsPerBlock)))
    (bound : Nat) (hp : p.Ample d) (hrange : p.sector + p.remaining < wordLimit)
    (hbound : p.remaining ≤ bound) :
    (transferSpans step d.sectorsPerBlock bound p).Follows d.blockSize (fun o => o.result = .ok ())
      (transferPlan write d.sectorsPerBlock p.sector p.remaining) := by
  -- the plan loses the visits to its first block with each span
  induction bound generalizing p with
  | zero =>
    rw [Nat.le_zero.1 hbound]
    exact BlockProgram.follows_done rfl
  | succ bound ih =>
    rw [transferSpans]
    split
    · next hzero =>
      rw [hzero]
      exact BlockProgram.follows_done rfl
    · next hsome =>
      have hle := spanSectors_le_remaining (d := d) (p := p)
      have hpos := spanSectors_pos hd hsome
      rw [transferPlan_eq hd.pos (Nat.pos_of_ne_zero hsome)]
      refine BlockProgram.follows_ofChecked (first_eq_span hd) ((hstep p hp).bind ?_)
      rintro _ ⟨rest, scratch, rfl, hrest, hscratch⟩
      have hafter := hp.renewed hrest hscratch
      have hword : p.sector + p.spanSectors d < wordLimit := by omega
      refine BlockProgram.follows_ofChecked (hafter.advance_eq hword)
        (ih (hafter.after_span _) ?_ ?_)
      · change p.sector + p.spanSectors d + (p.remaining - p.spanSectors d) < wordLimit
        omega
      · change p.remaining - p.spanSectors d ≤ bound
        omega

end SectorProgress

private theorem BlockDevice.Sectored.transferSectors_follows {σ : Type} {d : BlockDevice σ}
    (hd : d.Sectored)
    (write : Bool) {start count : Nat} {buffer scratch : Bytes} (hrange : start + count < wordLimit)
    (hlen : sectorSize * count ≤ buffer.length) (hword : buffer.length < wordLimit)
    (hscratch : scratch.length = d.blockSize) :
    (transferSectors write d.blockSize buffer start count scratch).Follows d.blockSize
      (fun o => o.result = .ok ()) (transferPlan write d.sectorsPerBlock start count) := by
  have hcount : sectorSize * count < wordLimit := Nat.lt_of_le_of_lt hlen hword
  have hp : (SectorProgress.start start count buffer scratch).Ample d := by
    refine ⟨hscratch, hlen, .inl hrange, ?_⟩
    change 0 + sectorSize * count < wordLimit
    omega
  cases write with
  | true =>
    rw [transferSectors, if_pos rfl, writeSectors, hd.checkBuffers_eq hlen hcount hscratch]
    exact SectorProgress.transferSpans_follows hd
      (fun p hp => SectorProgress.writeSpan_follows hd hp) count hp hrange (Nat.le_refl _)
  | false =>
    rw [transferSectors, if_neg Bool.false_ne_true, readSectors,
      hd.checkBuffers_eq hlen hcount hscratch]
    exact SectorProgress.transferSpans_follows hd
      (fun p hp => SectorProgress.readSpan_follows hd hp) count hp hrange (Nat.le_refl _)

/-- The accesses of a transfer are those of its plan: each has a buffer of one block and is to a block
with a sector of the range, none is made twice, and a write reads no block but the first and the
last. -/
structure FollowsPlan (write : Bool) (blockSize start count : Nat) (log : Answers) : Prop where
  visits : log.map (fun x => x.1.visit) = transferPlan write (blockSize / sectorSize) start count
  sizes : ∀ x ∈ log, x.1.data.length = blockSize
  once : (log.map fun x => x.1.visit).Nodup
  inside : ∀ x ∈ log, ∃ sector, start ≤ sector ∧ sector < start + count ∧
    x.1.block = sector / (blockSize / sectorSize)
  ends : write = true → ∀ x ∈ log, x.1.write = false →
    x.1.block = start / (blockSize / sectorSize) ∨
      x.1.block = (start + count - 1) / (blockSize / sectorSize)
  reads : write = true → (log.filter fun x => !x.1.write).length ≤ 2

private theorem followsPlan_of_visits {write : Bool} {blockSize start count : Nat} {log : Answers}
    (hpos : 0 < blockSize / sectorSize)
    (hvisits : log.map (fun x => x.1.visit) = transferPlan write (blockSize / sectorSize) start count)
    (hsizes : ∀ x ∈ log, x.1.data.length = blockSize) : FollowsPlan write blockSize start count log := by
  have hmem : ∀ x ∈ log, x.1.visit ∈ transferPlan write (blockSize / sectorSize) start count :=
    fun x hx => hvisits ▸ List.mem_map_of_mem hx
  refine ⟨hvisits, hsizes, hvisits ▸ nodup_transferPlan, fun x hx => exists_sector hpos (hmem x hx),
    ?_, ?_⟩
  · rintro rfl x hx hread
    exact ends_of_read hpos (hmem x hx) hread
  · rintro rfl
    have hle : ((transferPlan true _ start count).filter fun v => !v.write).length ≤ 2 :=
      length_reads_le hpos
    rwa [← hvisits, List.filter_map, List.length_map] at hle

theorem BlockDevice.length_submit {σ : Type} {d : BlockDevice σ} {a : BlockAccess} {s : σ}
    (hlen : a.data.length = d.blockSize) (hok : (d.submit a s).1.result = .ok ()) :
    (d.submit a s).1.data.length = d.blockSize := by
  cases hw : a.write with
  | true =>
    rw [(d.write a s hlen hw hok).1, hlen]
  | false =>
    rw [(d.read a s hlen hw hok).1, d.length_block]

/-- A transfer none of whose accesses is refused comes to its end by the accesses of its plan. -/
theorem transferSectors_follows_plan {σ : Type} (submit : BlockAccess → σ → BlockReply × σ)
    (write : Bool) {blockSize start count : Nat} {buffer scratch : Bytes} (hpos : 0 < blockSize)
    (hwhole : blockSize % sectorSize = 0) (hlimit : blockSize < wordLimit)
    (hrange : start + count < wordLimit) (hlen : sectorSize * count ≤ buffer.length)
    (hword : buffer.length < wordLimit) (hscratch : scratch.length = blockSize)
    (serves : ∀ (a : BlockAccess) (s : σ), a.data.length = blockSize →
      (∃ sector, start ≤ sector ∧ sector < start + count ∧
        a.block = sector / (blockSize / sectorSize)) →
      (submit a s).1.result = .ok () ∧ (submit a s).1.data.length = blockSize) (s : σ) :
    ∃ o s', (transferSectors write blockSize buffer start count scratch).run submit s = (.ok o, s') ∧
      o.result = .ok () ∧ FollowsPlan write blockSize start count
        ((transferSectors write blockSize buffer start count scratch).answers submit s) := by
  -- of a device only the size of its blocks counts here, not what it stores
  have hd : (BlockDevice.inMemory blockSize 0).Sectored := ⟨hpos, hwhole, hlimit⟩
  have hfollows := hd.transferSectors_follows write hrange hlen hword hscratch
  obtain ⟨o, s', hrun, hok, hvisits, hsizes⟩ := hfollows.run
    (fun a s ha ha' => serves a s ha' (exists_sector hd.pos ha)) s
  exact ⟨o, s', hrun, hok, followsPlan_of_visits hd.pos hvisits hsizes⟩

/-- Four sectors are written to a disk in memory, from the middle of a block on. -/
theorem transferSectors_follows_plan_sample :
    ∃ o s', (transferSectors true 1024 (List.replicate 2048 1) 1 4 (List.replicate 1024 9)).run
        (BlockDevice.inMemory 1024 4).submit ⟨_, RamDisk.keeps_blank 1024 4⟩ = (.ok o, s') ∧
      o.result = .ok () ∧ FollowsPlan true 1024 1 4
        ((transferSectors true 1024 (List.replicate 2048 1) 1 4 (List.replicate 1024 9)).answers
          (BlockDevice.inMemory 1024 4).submit ⟨_, RamDisk.keeps_blank 1024 4⟩) := by
  refine transferSectors_follows_plan (BlockDevice.inMemory 1024 4).submit true (by decide) (by decide)
    (by decide) (by decide) (by rw [List.length_replicate]; decide)
    (by rw [List.length_replicate]; decide) List.length_replicate ?_ _
  rintro a s hlen ⟨sector, -, hlast, hblock⟩
  have hhas : a.block < 4 := by
    change a.block = sector / 2 at hblock
    omega
  have hok : ((BlockDevice.inMemory 1024 4).submit a s).1.result = .ok () :=
    BlockDevice.inMemory_has hhas a s rfl hlen
  exact ⟨hok, BlockDevice.length_submit hlen hok⟩

end DiskStack
