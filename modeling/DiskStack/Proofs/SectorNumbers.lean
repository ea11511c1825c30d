import DiskStack.Proofs.SectorFailures
import DiskStack.Proofs.TransferPlan

/-!
# Transfers up to the last sector number

Whatever a device answers, a transfer whose sectors all have a word for a number stays inside of its
buffers and its words up to its last sector. The number after the last sector is taken as well, though
no access needs it, and this one need not be a word. Main result: a transfer halts only there, once all
of its accesses have been carried out.
-/

namespace DiskStack

private theorem Answers.served_cons_iff {log : Answers} {x : BlockAccess × Except BlockError Unit} :
    Served (x :: log) ↔ x.2 = .ok () ∧ log.Served := List.forall_mem_cons

private theorem Checked.add_of_le {a b : Nat} (h : wordLimit ≤ a + b) : add a b = .error .addOverflow :=
  if_neg (Nat.not_lt.2 h)

/-- A computation halts, by an addition beyond the last word, in one case only. -/
def OverflowsIff {α : Type} (c : Prop) (x : Except Halt α) : Prop :=
  ∀ h, x = .error h ↔ h = .addOverflow ∧ c

private theorem overflowsIff_ok {α : Type} {a : α} {c : Prop} (hc : ¬c) : OverflowsIff c (.ok a) :=
  fun _ => ⟨nofun, fun h => absurd h.2 hc⟩

private theorem overflowsIff_addOverflow {α : Type} {c : Prop} (hc : c) :
    OverflowsIff c (.error .addOverflow : Except Halt α) :=
  fun _ => ⟨fun h => ⟨(Except.error.inj h).symm, hc⟩, fun h => h.1 ▸ rfl⟩

namespace BlockProgram

variable {σ α β : Type} {P : Except Halt α → Prop → Prop} {Q : Except Halt β → Prop → Prop}
  {served : Prop}

/-- Whatever the replies to its accesses are, as long as no buffer changes its length, a program comes to
an end of which something holds. The end is held against whether every access was carried out; `served`
says so of the accesses before. -/
def Concludes (P : Except Halt α → Prop → Prop) : BlockProgram α → Prop → Prop
  | .done a, served => P (.ok a) served
  | .halt h, served => P (.error h) served
  | .access a next, served => ∀ reply : BlockReply, reply.data.length = a.data.length →
      (next reply).Concludes P (served ∧ reply.result = .ok ())

private theorem concludes_done {a : α} (h : P (.ok a) served) : (done a).Concludes P served := h

private theorem concludes_transfer {a : BlockAccess} {f : BlockReply → BlockProgram β}
    (h : ∀ reply : BlockReply, reply.data.length = a.data.length →
      (f reply).Concludes Q (served ∧ reply.result = .ok ())) :
    (transfer a >>= f).Concludes Q served := h

private theorem concludes_ofChecked {e : Except Halt α} {a : α} (he : e = .ok a) {f : α → BlockProgram β}
    (h : (f a).Concludes Q served) : (ofChecked e >>= f).Concludes Q served := by
  subst he
  exact h

private theorem concludes_halted {e : Except Halt α} {h : Halt} (he : e = .error h) {f : α → BlockProgram β}
    (hQ : Q (.error h) served) : (ofChecked e >>= f).Concludes Q served := by
  subst he
  exact hQ

private theorem Concludes.bind {p : BlockProgram α} {f : α → BlockProgram β}
    (hp : p.Concludes P served)
    (hok : ∀ a served, P (.ok a) served → (f a).Concludes Q served)
    (herror : ∀ h served, P (.error h) served → Q (.error h) served) :
    (p >>= f).Concludes Q served := by
  induction p generalizing served with
  | done a => exact hok a served hp
  | halt h => exact herror h served hp
  | access a next ih => exact fun reply hlen => ih reply (hp reply hlen)

/-- Held with anything that leaves the buffers as long as they are, a program ends as it is said to. -/
private theorem Concludes.run {submit : BlockAccess → σ → BlockReply × σ}
    (keeps : ∀ a s, (submit a s).1.data.length = a.data.length) {p : BlockProgram α}
    (hp : p.Concludes P served) (s : σ) :
    P (p.run submit s).1 (served ∧ (p.answers submit s).Served) := by
  induction p generalizing served s with
  | done a =>
    rw [answers, and_iff_left Answers.served_nil]
    exact hp
  | halt h =>
    rw [answers, and_iff_left Answers.served_nil]
    exact hp
  | access a next ih =>
    have hnext := ih (submit a s).1 (hp (submit a s).1 (keeps a s)) (submit a s).2
    rw [answers, Answers.served_cons_iff, ← and_assoc]
    exact hnext

end BlockProgram

private theorem BlockDevice.bounded_inMemory_zero (size : Nat) : (inMemory size 0).Bounded := by
  intro a s hlen hok
  have hrefused : (RamDisk.submit a s.1).1.result = .error .invalidBlock := by
    rw [s.2.submit_eq hlen, if_pos (Nat.zero_le _)]
  exact nomatch hrefused.symm.trans hok

namespace SectorProgress

variable {σ : Type} {d : BlockDevice σ} {p : SectorProgress} {served : Prop}

/-- The span has been moved, or an access to its block has been refused. -/
def SpanEnds (d : BlockDevice σ) (p : SectorProgress)
    (x : Except Halt (Except BlockError Unit × SectorProgress)) (served : Prop) : Prop :=
  ∃ r, x = .ok r ∧ (p.SpanDone d r ∧ served ∨ (∃ e, r.1 = .error e) ∧ ¬served)

private theorem spanEnds_moved {rest scratch : Bytes} (hrest : rest.length = p.rest.length)
    (hscratch : scratch.length = d.blockSize) (hserved : served) :
    p.SpanEnds d (.ok (.ok (), { p with rest, scratch })) served :=
  ⟨_, rfl, .inl ⟨⟨rest, scratch, rfl, hrest, hscratch⟩, hserved⟩⟩

private theorem spanEnds_refused {e : BlockError} {q : SectorProgress} :
    p.SpanEnds d (.ok (.error e, q)) (served ∧ Except.error (α := Unit) e = .ok ()) :=
  ⟨_, rfl, .inr ⟨⟨e, rfl⟩, fun h => nomatch h.2⟩⟩

private theorem readSpan_concludes (hd : d.Sectored) (hp : p.Ample d) (hserved : served) :
    (p.readSpan d.blockSize (p.span d)).Concludes (p.SpanEnds d) served := by
  obtain ⟨hnext, hlen⟩ := hp.next_eq
  rw [readSpan]
  split
  · next hfull =>
    rw [hfull] at hnext hlen
    rw [length_span] at hfull
    refine BlockProgram.concludes_ofChecked hnext (BlockProgram.concludes_transfer ?_)
    rintro ⟨_ | _, data⟩ hdata
    · exact spanEnds_refused
    · have hput : data.length ≤ p.rest.length :=
        Nat.le_trans (Nat.le_of_eq ((hdata.trans hlen).trans hfull.symm)) hp.span_le
      exact spanEnds_moved (length_put hput) hp.scratch ⟨hserved, rfl⟩
  · refine BlockProgram.concludes_transfer ?_
    rintro ⟨_ | _, data⟩ hdata
    · exact spanEnds_refused
    · replace hdata : data.length = d.blockSize := hdata.trans hp.scratch
      refine BlockProgram.concludes_ofChecked hnext
        (BlockProgram.concludes_ofChecked (slice_span hd hdata) ?_)
      exact spanEnds_moved (length_put (p := { p with scratch := data }) (hp.slice_le data)) hdata
        ⟨hserved, rfl⟩

private theorem flushSpan_concludes (hd : d.Sectored) (hp : p.Ample d) (hserved : served) :
    (p.flushSpan (p.span d)).Concludes (p.SpanEnds d) served := by
  obtain ⟨hsplice, hkept⟩ := hp.splice_eq hd
  refine BlockProgram.concludes_ofChecked hp.next_eq.1 (BlockProgram.concludes_ofChecked hsplice ?_)
  refine BlockProgram.concludes_transfer ?_
  rintro ⟨_ | _, data⟩ hdata
  · exact spanEnds_refused
  · exact spanEnds_moved (Eq.refl p.rest.length) (hdata.trans hkept) ⟨hserved, rfl⟩

private theorem writeSpan_concludes (hd : d.Sectored) (hp : p.Ample d) (hserved : served) :
    (p.writeSpan d.blockSize (p.span d)).Concludes (p.SpanEnds d) served := by
  rw [writeSpan]
  split
  · exact flushSpan_concludes hd hp hserved
  · refine BlockProgram.concludes_transfer ?_
    rintro ⟨_ | _, data⟩ hdata
    · exact spanEnds_refused
    · exact flushSpan_concludes hd (hp.renewed rfl (hdata.trans hp.scratch)) ⟨hserved, rfl⟩

private theorem advance_overflows (htop : wordLimit ≤ p.sector + p.spanSectors d) :
    p.advance (p.span d) = .error .addOverflow := by
  simp only [advance, div_length_span, bind, Except.bind, Checked.add_of_le htop]

/-- The spans follow one another up to the last sector. Only the number after the last one may be
missing, and it is asked for if every access was carried out. -/
private theorem transferSpans_concludes (hd : d.Sectored)
    {step : SectorProgress → Span → BlockProgram (Except BlockError Unit × SectorProgress)}
    (hstep : ∀ (p : SectorProgress) (served : Prop), p.Ample d → served →
      (step p (p.span d)).Concludes (p.SpanEnds d) served) (bound : Nat) (hp : p.Ample d)
    (hsector : p.sector < wordLimit) (hrange : p.sector + p.remaining ≤ wordLimit)
    (hbound : p.remaining ≤ bound) (hserved : served) :
    (transferSpans step d.sectorsPerBlock bound p).Concludes
      (fun x served => OverflowsIff (p.sector + p.remaining = wordLimit ∧ served) x) served := by
  -- each span takes some of the sectors that are left
  induction bound generalizing p served with
  | zero => exact BlockProgram.concludes_done (overflowsIff_ok (by omega))
  | succ bound ih =>
    rw [transferSpans]
    split
    · next hzero => exact BlockProgram.concludes_done (overflowsIff_ok (by omega))
    · next hsome =>
      have hle := spanSectors_le_remaining (d := d) (p := p)
      have hpos := spanSectors_pos hd hsome
      refine BlockProgram.concludes_ofChecked (first_eq_span hd)
        ((hstep p served hp hserved).bind ?_ ?_)
      · rintro ⟨result, q⟩ later
          ⟨_, ⟨⟩, ⟨⟨rest, scratch, ⟨⟩, hrest, hscratch⟩, hlater⟩ | ⟨⟨e, he⟩, hnot⟩⟩
        · have hafter := hp.renewed hrest hscratch
          rcases Nat.lt_or_ge (p.sector + p.spanSectors d) wordLimit with hword | htop
          · refine BlockProgram.concludes_ofChecked (hafter.advance_eq hword) ?_
            have hend : p.sector + p.spanSectors d + (p.remaining - p.spanSectors d) =
                p.sector + p.remaining := by omega
            rw [← hend]
            exact ih (hafter.after_span _) hword (Nat.le_trans (Nat.le_of_eq hend) hrange)
              (show p.remaining - p.spanSectors d ≤ bound by omega) hlater
          · have hlast : p.sector + p.remaining = wordLimit := by omega
            refine BlockProgram.concludes_halted
              (advance_overflows (p := { p with rest, scratch }) htop) ?_
            exact overflowsIff_addOverflow ⟨hlast, hlater⟩
        · obtain rfl : result = .error e := he
          exact BlockProgram.concludes_done (overflowsIff_ok fun h => hnot h.2)
      · rintro h later ⟨_, heq, _⟩
        cases heq

end SectorProgress

/-- A transfer whose sectors all have a word for a number halts if the number after the last one is
none and every access has been carried out; else it returns. -/
theorem transferSectors_halts_iff {σ : Type} (submit : BlockAccess → σ → BlockReply × σ)
    (keeps : ∀ a s, (submit a s).1.data.length = a.data.length) (write : Bool)
    {blockSize start count : Nat} (buffer scratch : Bytes) (hlimit : blockSize < wordLimit)
    (hstart : start < wordLimit) (hrange : start + count ≤ wordLimit) (s : σ) :
    ∀ h, ((transferSectors write blockSize buffer start count scratch).run submit s).1 = .error h ↔
      h = .addOverflow ∧ start + count = wordLimit ∧
        (∃ n, checkBuffers blockSize buffer.length count scratch.length = .ok n) ∧
        ((transferSectors write blockSize buffer start count scratch).answers submit s).Served := by
  cases hcheck : checkBuffers blockSize buffer.length count scratch.length with
  | error e =>
    rw [transferSectors_of_error hcheck]
    exact overflowsIff_ok fun ⟨_, ⟨_, h⟩, _⟩ => nomatch h
  | ok spb =>
    obtain ⟨hpos, hwhole, hspb, hcount, hlen, hscratch⟩ := of_checkBuffers hcheck
    -- of a device only the size of its blocks counts here; this one has no block at all
    have hd : (BlockDevice.inMemory blockSize 0).Sectored := ⟨hpos, hwhole, hlimit⟩
    have hp : (SectorProgress.start start count buffer scratch).Ample (.inMemory blockSize 0) := by
      refine ⟨hscratch, hlen, .inr (BlockDevice.bounded_inMemory_zero blockSize), ?_⟩
      change 0 + sectorSize * count < wordLimit
      rwa [Nat.zero_add]
    have hconcludes : (transferSectors write blockSize buffer start count scratch).Concludes
        (fun x served => OverflowsIff (start + count = wordLimit ∧ served) x) True := by
      cases write with
      | true =>
        rw [transferSectors, if_pos rfl, writeSectors, hcheck, hspb]
        exact SectorProgress.transferSpans_concludes hd
          (fun p served hp => SectorProgress.writeSpan_concludes hd hp) count hp hstart hrange
          (Nat.le_refl _) trivial
      | false =>
        rw [transferSectors, if_neg Bool.false_ne_true, readSectors, hcheck, hspb]
        exact SectorProgress.transferSpans_concludes hd
          (fun p served hp => SectorProgress.readSpan_concludes hd hp) count hp hstart hrange
          (Nat.le_refl _) trivial
    have hrun := hconcludes.run keeps s
    rw [true_and] at hrun
    exact fun h => (hrun h).trans (by simp)

private theorem BlockDevice.length_inMemory {size count : Nat} (a : BlockAccess)
    (d : { d : RamDisk // d.Keeps size count }) :
    ((inMemory size count).submit a d).1.data.length = a.data.length := by
  by_cases hlen : a.data.length = size
  · by_cases hok : ((inMemory size count).submit a d).1.result = .ok ()
    · exact (length_submit hlen hok).trans hlen.symm
    · rw [((inMemory size count).refused a d hlen hok).1]
  · change (RamDisk.submit a d.1).1.data.length = _
    rw [RamDisk.submit, if_pos (by rw [d.2.blockSize]; exact hlen)]

/-- The last three sectors of a disk with all the sectors that have a number, from the middle of a block
on. -/
theorem transferSectors_halts_iff_sample :
    1024 < wordLimit ∧ wordLimit - 3 < wordLimit ∧ wordLimit - 3 + 3 ≤ wordLimit ∧
    ∀ h, ((transferSectors true 1024 (List.replicate 1536 1) (wordLimit - 3) 3
        (List.replicate 1024 9)).run (BlockDevice.inMemory 1024 (wordLimit / 2)).submit
        ⟨_, RamDisk.keeps_blank 1024 (wordLimit / 2)⟩).1 = .error h ↔
      h = .addOverflow ∧ wordLimit - 3 + 3 = wordLimit ∧
        (∃ n, checkBuffers 1024 (List.replicate 1536 (1 : UInt8)).length 3
          (List.replicate 1024 (9 : UInt8)).length = .ok n) ∧
        ((transferSectors true 1024 (List.replicate 1536 1) (wordLimit - 3) 3
          (List.replicate 1024 9)).answers (BlockDevice.inMemory 1024 (wordLimit / 2)).submit
          ⟨_, RamDisk.keeps_blank 1024 (wordLimit / 2)⟩).Served :=
  ⟨by decide, by decide, by decide,
    transferSectors_halts_iff _ BlockDevice.length_inMemory true _ _ (by decide) (by decide)
      (by decide) _⟩

/-- A disk that has every block, none of which it stores. -/
def bottomlessDisk : RamDisk := { blockSize := 512, blockCount := 0, bottomless := true }

set_option maxRecDepth 8000 in
/-- The last sector of all is read, and its number has no successor. -/
theorem transferSectors_halts_at_top :
    wordLimit - 1 + 1 ≤ wordLimit ∧
    ((transferSectors false 512 (List.replicate 512 0) (wordLimit - 1) 1 (List.replicate 512 0)).run
      RamDisk.submit bottomlessDisk).1 = .error .addOverflow :=
  ⟨by decide, rfl⟩

end DiskStack
