import DiskStack.Proofs.BlockDevice
import DiskStack.Proofs.Transfers

/-!
# Ranges of sectors on any block device

A transfer moves its spans in order until the device refuses an access, which is then the last one.
On a device that has the blocks of a range, a transfer of the range therefore comes to its end: a
write leaves the disk with the sectors of the buffer in the range and all other bytes as they were,
and a read leaves the buffer with the sectors of the range. Whether a span goes straight to the
buffer or by way of the scratch block, and what the scratch block held before, makes no difference.
-/

namespace DiskStack

/-- The accesses made of a device, in order, and how each of them ended. -/
abbrev Answers := List (BlockAccess × Except BlockError Unit)

namespace Answers

variable {log before : Answers} {a : BlockAccess} {block : Nat} {e : BlockError}

def Served (log : Answers) : Prop := ∀ x ∈ log, x.2 = .ok ()

/-- All accesses were carried out but the last, which was to the block and failed. -/
def StoppedAt (log : Answers) (block : Nat) (e : BlockError) : Prop :=
  ∃ before a, log = before ++ [(a, .error e)] ∧ a.block = block ∧ Served before

theorem served_nil : Served [] := by simp [Served]

private theorem Served.cons (h : log.Served) : Served ((a, .ok ()) :: log) := by
  simpa [Served] using h

private theorem Served.append (hbefore : before.Served) (h : log.Served) : Served (before ++ log) := by
  intro x hx
  rcases List.mem_append.1 hx with hx | hx
  · exact hbefore x hx
  · exact h x hx

private theorem stoppedAt_singleton (h : a.block = block) : StoppedAt [(a, .error e)] block e :=
  ⟨[], a, rfl, h, served_nil⟩

private theorem StoppedAt.append (hbefore : before.Served) (h : log.StoppedAt block e) :
    StoppedAt (before ++ log) block e := by
  obtain ⟨middle, a, hlog, hblock, hmiddle⟩ := h
  refine ⟨before ++ middle, a, ?_, hblock, hbefore.append hmiddle⟩
  rw [hlog, List.append_assoc]

private theorem StoppedAt.cons (h : log.StoppedAt block e) : StoppedAt ((a, .ok ()) :: log) block e :=
  StoppedAt.append (served_nil.cons (a := a)) h

end Answers

namespace BlockProgram

variable {σ α β : Type} {d : BlockDevice σ} {s : σ} {P : α → Answers → σ → Prop}
  {Q : β → Answers → σ → Prop}

/-- What a program asks of a device. -/
def answers (submit : BlockAccess → σ → BlockReply × σ) : BlockProgram α → σ → Answers
  | .done _, _ => []
  | .halt _, _ => []
  | .access a next, s =>
    (a, (submit a s).1.result) :: (next (submit a s).1).answers submit (submit a s).2

private theorem answers_bind (submit : BlockAccess → σ → BlockReply × σ) (p : BlockProgram α)
    (f : α → BlockProgram β) (s : σ) :
    (p.bind f).answers submit s = p.answers submit s ++
      match p.run submit s with
      | (.ok a, s) => (f a).answers submit s
      | (.error _, _) => [] := by
  induction p generalizing s with
  | done a => rfl
  | halt h => rfl
  | access a next ih => exact congrArg _ (ih (submit a s).1 (submit a s).2)

/-- A program held with a device does not halt, and of its value, its accesses and the last state
something holds. -/
def Gives (d : BlockDevice σ) (p : BlockProgram α) (s : σ) (P : α → Answers → σ → Prop) : Prop :=
  ∃ a s', p.run d.submit s = (.ok a, s') ∧ P a (p.answers d.submit s) s'

private theorem gives_done {a : α} (h : P a [] s) : (done a).Gives d s P := ⟨a, s, rfl, h⟩

private theorem gives_transfer {a : BlockAccess} {f : BlockReply → BlockProgram β}
    (h : (f (d.submit a s).1).Gives d (d.submit a s).2 fun b log =>
      Q b ((a, (d.submit a s).1.result) :: log)) : (transfer a >>= f).Gives d s Q := h

private theorem gives_ofChecked {e : Except Halt α} {a : α} (he : e = .ok a) {f : α → BlockProgram β}
    (h : (f a).Gives d s Q) : (ofChecked e >>= f).Gives d s Q := by
  subst he
  exact h

private theorem Gives.bind {p : BlockProgram α} {f : α → BlockProgram β}
    (h : p.Gives d s fun a log s' => (f a).Gives d s' fun b later => Q b (log ++ later)) :
    (p >>= f).Gives d s Q := by
  obtain ⟨a, s₁, hp, b, s₂, hf, hQ⟩ := h
  refine ⟨b, s₂, ?_, ?_⟩
  · rw [show p >>= f = p.bind f from rfl, run_bind, hp]
    exact hf
  · rw [show p >>= f = p.bind f from rfl, answers_bind, hp]
    exact hQ

private theorem Gives.mono {P' : α → Answers → σ → Prop} {p : BlockProgram α} (h : p.Gives d s P)
    (hP : ∀ a log s', P a log s' → P' a log s') : p.Gives d s P' := by
  obtain ⟨a, s', hp, ha⟩ := h
  exact ⟨a, s', hp, hP a _ s' ha⟩

end BlockProgram

namespace SectorProgress

variable {σ : Type} {d : BlockDevice σ} {p : SectorProgress} {s : σ} {write : Bool}

/-- How many sectors the next span has. -/
def spanSectors (d : BlockDevice σ) (p : SectorProgress) : Nat :=
  min (d.sectorsPerBlock - p.sector % d.sectorsPerBlock) p.remaining

def span (d : BlockDevice σ) (p : SectorProgress) : Span :=
  ⟨p.sector / d.sectorsPerBlock, sectorSize * (p.sector % d.sectorsPerBlock),
    sectorSize * p.spanSectors d⟩

@[simp] theorem block_span : (p.span d).block = p.sector / d.sectorsPerBlock := rfl

@[simp] theorem offset_span :
    (p.span d).offset = sectorSize * (p.sector % d.sectorsPerBlock) := rfl

@[simp] theorem length_span : (p.span d).length = sectorSize * p.spanSectors d := rfl

/-- A transfer under way whose buffers are large enough for what remains, and whose numbers are
words as far as the device goes. -/
structure Ample (d : BlockDevice σ) (p : SectorProgress) : Prop where
  scratch : p.scratch.length = d.blockSize
  rest : sectorSize * p.remaining ≤ p.rest.length
  sector : p.sector + p.remaining < wordLimit ∨ d.Bounded
  position : p.position + sectorSize * p.remaining < wordLimit

theorem spanSectors_le_remaining : p.spanSectors d ≤ p.remaining := Nat.min_le_right ..

private theorem spanSectors_fits (hd : d.Sectored) :
    p.sector % d.sectorsPerBlock + p.spanSectors d ≤ d.sectorsPerBlock := by
  have hmod := Nat.mod_lt p.sector hd.pos
  rw [spanSectors]
  omega

theorem spanSectors_pos (hd : d.Sectored) (h : p.remaining ≠ 0) : 0 < p.spanSectors d := by
  have hmod := Nat.mod_lt p.sector hd.pos
  rw [spanSectors]
  omega

private theorem span_fits (hd : d.Sectored) : (p.span d).offset + (p.span d).length ≤ d.blockSize := by
  rw [span, hd.size, ← Nat.mul_add]
  exact Nat.mul_le_mul_left _ (spanSectors_fits hd)

theorem first_eq_span (hd : d.Sectored) :
    Span.first p.sector p.remaining d.sectorsPerBlock = .ok (p.span d) := by
  have hpos := hd.pos
  have hne : d.sectorsPerBlock ≠ 0 := Nat.ne_of_gt hpos
  have hmod := Nat.mod_lt p.sector hpos
  have hlimit := hd.limit
  have hfits := span_fits (p := p) hd
  simp only [span] at hfits
  have hoffset : p.sector % d.sectorsPerBlock * sectorSize < wordLimit := by
    rw [Nat.mul_comm]
    omega
  have hlength : p.spanSectors d * sectorSize < wordLimit := by
    rw [Nat.mul_comm]
    omega
  rw [spanSectors] at hlength
  simp only [Span.first, Checked.div_of_ne hne, Checked.rem_of_ne hne,
    Checked.sub_of_le (Nat.le_of_lt hmod), bind, Except.bind, Checked.mul_of_lt hoffset,
    Checked.mul_of_lt hlength, pure, Except.pure]
  rw [span, spanSectors, Nat.mul_comm sectorSize, Nat.mul_comm sectorSize]

theorem Ample.span_le (hp : p.Ample d) : sectorSize * p.spanSectors d ≤ p.rest.length :=
  Nat.le_trans (Nat.mul_le_mul_left _ spanSectors_le_remaining) hp.rest

private theorem Ample.add_position (hp : p.Ample d) :
    Checked.add p.position (p.span d).length = .ok (p.position + (p.span d).length) := by
  have hmost := Nat.mul_le_mul_left sectorSize (spanSectors_le_remaining (d := d) (p := p))
  have hlimit := hp.position
  apply Checked.add_of_lt
  simp only [span]
  omega

theorem Ample.next_eq (hp : p.Ample d) :
    p.next (p.span d).length = .ok (p.rest.take (p.span d).length) ∧
      (p.rest.take (p.span d).length).length = (p.span d).length := by
  have hlen : (p.rest.take (p.span d).length).length = (p.span d).length := by
    rw [List.length_take, Nat.min_eq_left]
    exact hp.span_le
  refine ⟨?_, hlen⟩
  rw [next, hp.add_position]
  exact if_pos hlen

theorem Ample.splice_eq (hd : d.Sectored) (hp : p.Ample d) :
    p.scratch.spliceChecked (p.span d).offset (p.span d).length (p.rest.take (p.span d).length) =
        .ok (p.scratch.splice (p.span d).offset (p.rest.take (p.span d).length)) ∧
      (p.scratch.splice (p.span d).offset (p.rest.take (p.span d).length)).length = d.blockSize := by
  have hend := span_fits (p := p) hd
  have hscratch := hp.scratch
  have hlen := hp.next_eq.2
  refine ⟨Bytes.spliceChecked_of_le (hscratch ▸ hend) (hscratch ▸ hd.limit) hlen, ?_⟩
  rw [Bytes.length_splice (by rw [hlen, hscratch]; exact hend), hscratch]

theorem slice_span (hd : d.Sectored) {data : Bytes} (hlen : data.length = d.blockSize) :
    data.sliceChecked (p.span d).offset (p.span d).length =
      .ok (data.slice (p.span d).offset (p.span d).length) :=
  Bytes.sliceChecked_of_le (hlen ▸ span_fits hd) (hlen ▸ hd.limit)

/-- The sector after a span is a word, if the device carries out an access to the block. -/
private theorem Ample.word (hd : d.Sectored) (hp : p.Ample d) {a : BlockAccess}
    (hblock : a.block = p.sector / d.sectorsPerBlock) (hlen : a.data.length = d.blockSize)
    (hok : (d.submit a s).1.result = .ok ()) : p.sector + p.spanSectors d < wordLimit := by
  have hle := spanSectors_le_remaining (d := d) (p := p)
  rcases hp.sector with hrange | hbounded
  · omega
  · have hend := hbounded a s hlen hok
    have hfits := spanSectors_fits (p := p) hd
    have hdiv := Nat.div_add_mod p.sector d.sectorsPerBlock
    rw [hblock, Nat.succ_mul, Nat.mul_comm] at hend
    omega

theorem div_length_span : Checked.div (p.span d).length sectorSize = .ok (p.spanSectors d) := by
  rw [Checked.div_of_ne (by decide), span, Nat.mul_div_cancel_left _ (by decide)]

theorem Ample.advance_eq (hp : p.Ample d) (hword : p.sector + p.spanSectors d < wordLimit) :
    p.advance (p.span d) = .ok ⟨p.sector + p.spanSectors d, p.remaining - p.spanSectors d,
      p.position + (p.span d).length, p.rest.take (p.span d).length :: p.passed,
      p.rest.drop (p.span d).length, p.scratch⟩ := by
  have hle := spanSectors_le_remaining (d := d) (p := p)
  simp only [advance, div_length_span, bind, Except.bind, Checked.add_of_lt hword,
    Checked.sub_of_le hle, hp.add_position, pure, Except.pure]

theorem Ample.renewed (hp : p.Ample d) {rest scratch : Bytes} (hrest : rest.length = p.rest.length)
    (hlen : scratch.length = d.blockSize) : Ample d { p with rest, scratch } :=
  ⟨hlen, hrest ▸ hp.rest, hp.sector, hp.position⟩

theorem Ample.after_span (hp : p.Ample d) (passed : List Bytes) :
    Ample d ⟨p.sector + p.spanSectors d, p.remaining - p.spanSectors d,
      p.position + (p.span d).length, passed, p.rest.drop (p.span d).length, p.scratch⟩ := by
  have hle := spanSectors_le_remaining (d := d) (p := p)
  have hall : sectorSize * p.remaining =
      sectorSize * p.spanSectors d + sectorSize * (p.remaining - p.spanSectors d) := by
    rw [← Nat.mul_add, Nat.add_sub_cancel' hle]
  have hrest := hp.rest
  have hposition := hp.position
  refine ⟨hp.scratch, ?_, hp.sector.imp_left fun hsector => ?_, ?_⟩
  · change _ ≤ (p.rest.drop (sectorSize * p.spanSectors d)).length
    rw [List.length_drop]
    exact Nat.le_sub_of_add_le' (hall ▸ hrest)
  · change p.sector + p.spanSectors d + (p.remaining - p.spanSectors d) < wordLimit
    omega
  · change p.position + sectorSize * p.spanSectors d +
      sectorSize * (p.remaining - p.spanSectors d) < wordLimit
    omega

/-- The next span has been moved, or the device has refused its block. -/
inductive Steps (d : BlockDevice σ) (write : Bool) (p : SectorProgress) (s : σ) :
    Except BlockError Unit × SectorProgress → Answers → σ → Prop
  | moved (scratch : Bytes) (log : Answers) (s' : σ) (hlen : scratch.length = d.blockSize)
    (hserved : log.Served) (hword : p.sector + p.spanSectors d < wordLimit)
    (h : d.image s' = ((d.image s).moved write p.sector (p.spanSectors d) p.rest).2) :
    Steps d write p s
      (.ok (), { p with rest := ((d.image s).moved write p.sector (p.spanSectors d) p.rest).1, scratch })
      log s'
  | refused (e : BlockError) (scratch : Bytes) (log : Answers) (s' : σ)
    (hlen : scratch.length = d.blockSize)
    (hstopped : log.StoppedAt (p.sector / d.sectorsPerBlock) e)
    (h : d.image s' = d.image s) (hnot : ¬d.Has (p.sector / d.sectorsPerBlock)) :
    Steps d write p s (.error e, { p with scratch }) log s'

/-- An access before that changes no more than the scratch block makes no difference to where the
next span of a transfer goes. -/
private theorem Steps.after {scratch : Bytes} {u : σ} (hu : d.image u = d.image s)
    {r : Except BlockError Unit × SectorProgress} {log : Answers} {s' : σ} {a : BlockAccess}
    (h : Steps d write { p with scratch } u r log s') :
    Steps d write p s r ((a, .ok ()) :: log) s' := by
  cases h with
  | moved scratch log s' hlen hserved hword h =>
    rw [hu] at h ⊢
    exact .moved scratch _ s' hlen hserved.cons hword h
  | refused e scratch log s' hlen hstopped h hnot =>
    exact .refused e scratch _ s' hlen hstopped.cons (h.trans hu) hnot

/-- An access to the block of the next span is carried out, unless the device does not have it. -/
private theorem gives_span {α : Type} {Q : α → Answers → σ → Prop} (hd : d.Sectored) (hp : p.Ample d)
    {a : BlockAccess} {f : BlockReply → BlockProgram α}
    (hblock : a.block = p.sector / d.sectorsPerBlock) (hlen : a.data.length = d.blockSize)
    (served : ∀ s', p.sector + p.spanSectors d < wordLimit →
      d.image s' = ((d.image s).perform d.sectorsPerBlock a).2 →
      (f ⟨.ok (), ((d.image s).perform d.sectorsPerBlock a).1⟩).Gives d s' fun r log =>
        Q r ((a, .ok ()) :: log))
    (refused : ∀ e s', d.image s' = d.image s → ¬d.Has (p.sector / d.sectorsPerBlock) →
      (f ⟨.error e, a.data⟩).Gives d s' fun r log => Q r ((a, .error e) :: log)) :
    (BlockProgram.transfer a >>= f).Gives d s Q := by
  apply BlockProgram.gives_transfer
  have hword := hp.word (s := s) hd hblock hlen
  have hok := hd.image_submit (s := s) hlen
  have hrefused := d.refused a s hlen
  have has : d.Has (p.sector / d.sectorsPerBlock) → (d.submit a s).1.result = .ok () :=
    fun has => has a s hblock hlen
  generalize (d.submit a s).2 = s' at hok hrefused
  cases hr : (d.submit a s).1 with
  | mk result data =>
    rw [hr] at hok hrefused has hword
    cases result with
    | ok _ =>
      have hperform := hok rfl
      rw [show data = _ from congrArg Prod.fst hperform]
      exact served s' (hword rfl) (congrArg Prod.snd hperform)
    | error e =>
      obtain ⟨hdata, hsame⟩ := hrefused (by simp)
      rw [show data = a.data from hdata]
      exact refused e s' (BlockDevice.image_congr hsame) fun hb => by cases has hb

private theorem readSpan_gives (hd : d.Sectored) (hp : p.Ample d) :
    (p.readSpan d.blockSize (p.span d)).Gives d s (p.Steps d false s) := by
  have hw := hd.whole_image s
  obtain ⟨hnext, hlen⟩ := hp.next_eq
  have hfits := spanSectors_fits (p := p) hd
  have hdiv := Nat.div_add_mod p.sector d.sectorsPerBlock
  rw [readSpan]
  split
  · next hfull =>
    -- a whole block is read straight into the buffer
    have hall : p.spanSectors d = d.sectorsPerBlock := by
      rw [span, hd.size] at hfull
      exact Nat.eq_of_mul_eq_mul_left (by decide) hfull
    rw [hfull] at hnext hlen
    refine BlockProgram.gives_ofChecked hnext (gives_span hd hp rfl hlen (fun s' hword h => ?_)
      fun e s' h hnot => ?_)
    · have hread : (d.image s).block d.sectorsPerBlock (p.span d).block =
          (d.image s).read p.sector (p.spanSectors d) := by
        rw [Image.block, hall, block_span, Nat.mul_comm]
        congr 1
        omega
      refine BlockProgram.gives_done ?_
      change Steps d false p s
        (.ok (), p.put ((d.image s).block d.sectorsPerBlock (p.span d).block)) _ s'
      rw [hread, put_read hw]
      exact .moved p.scratch _ s' hp.scratch Answers.served_nil.cons hword h
    · refine BlockProgram.gives_done ?_
      change Steps d false p s (.error e, p.put (p.rest.take d.blockSize)) _ s'
      rw [put_take hlen]
      exact .refused e p.scratch _ s' hp.scratch (Answers.stoppedAt_singleton rfl) h hnot
  · refine gives_span hd hp rfl hp.scratch (fun s' hword h => ?_) fun e s' h hnot => ?_
    · have hblock : ((d.image s).block d.sectorsPerBlock (p.span d).block).length = d.blockSize := by
        rw [Image.block, Image.length_read hw, ← hd.size]
      have hslice : ((d.image s).block d.sectorsPerBlock (p.span d).block).sliceChecked
          (p.span d).offset (p.span d).length =
          .ok ((d.image s).read p.sector (p.spanSectors d)) := by
        rw [slice_span hd hblock]
        refine congrArg _ ?_
        rw [Image.block, offset_span, length_span, Image.slice_read hw hfits, block_span, Nat.mul_comm]
        congr 1
      refine BlockProgram.gives_ofChecked hnext (BlockProgram.gives_ofChecked hslice
        (BlockProgram.gives_done ?_))
      rw [put_read hw]
      exact .moved _ _ s' hblock Answers.served_nil.cons hword h
    · exact BlockProgram.gives_done
        (.refused e p.scratch _ s' hp.scratch (Answers.stoppedAt_singleton rfl) h hnot)

/-- Writing the scratch block moves a span from the buffer to the disk, if the span is the whole block
or the scratch block has the bytes of the block. -/
private theorem flushSpan_gives (hd : d.Sectored) (hp : p.Ample d)
    (hstaged : p.spanSectors d = d.sectorsPerBlock ∨
      p.scratch = (d.image s).block d.sectorsPerBlock (p.span d).block) :
    (p.flushSpan (p.span d)).Gives d s (p.Steps d true s) := by
  have hw := hd.whole_image s
  obtain ⟨hnext, hlen⟩ := hp.next_eq
  obtain ⟨hsplice, hkept⟩ := hp.splice_eq hd
  have hfits := spanSectors_fits (p := p) hd
  have hdiv := Nat.div_add_mod p.sector d.sectorsPerBlock
  refine BlockProgram.gives_ofChecked hnext (BlockProgram.gives_ofChecked hsplice
    (gives_span hd hp rfl hkept (fun s' hword h => ?_) fun e s' h hnot => ?_))
  · refine BlockProgram.gives_done
      (.moved _ _ s' hkept Answers.served_nil.cons hword (h.trans ?_))
    change (d.image s).setBlock d.sectorsPerBlock (p.span d).block
      (p.scratch.splice (p.span d).offset (p.rest.take (p.span d).length)) =
      (d.image s).write p.sector (p.rest.take (sectorSize * p.spanSectors d))
    rcases hstaged with hwhole | hscratch
    · have hskipped : p.sector % d.sectorsPerBlock = 0 := by omega
      have hall : (p.rest.take (p.span d).length).length = sectorSize * d.sectorsPerBlock := by
        rw [hlen, length_span, hwhole]
      rw [offset_span, hskipped, Nat.mul_zero, Bytes.splice_zero (by rw [hp.scratch, hall, hd.size]),
        ← Image.write_block hw hd.pos hall, block_span, Nat.mul_comm]
      congr 1
      omega
    · rw [hscratch, offset_span, Image.setBlock_splice hw hd.pos hlen hfits, block_span, Nat.mul_comm,
        hdiv, length_span]
  · exact BlockProgram.gives_done
      (.refused e _ _ s' hkept (Answers.stoppedAt_singleton rfl) h hnot)

private theorem writeSpan_gives (hd : d.Sectored) (hp : p.Ample d) :
    (p.writeSpan d.blockSize (p.span d)).Gives d s (p.Steps d true s) := by
  rw [writeSpan]
  split
  · next hfull =>
    rw [length_span, hd.size] at hfull
    exact flushSpan_gives hd hp (.inl (Nat.eq_of_mul_eq_mul_left (by decide) hfull))
  · refine gives_span hd hp rfl hp.scratch (fun s' _ h => ?_) fun e s' h hnot => ?_
    · have hread : d.image s' = d.image s := h
      have hblock : ((d.image s).block d.sectorsPerBlock (p.span d).block).length = d.blockSize := by
        rw [Image.block, Image.length_read (hd.whole_image s), ← hd.size]
      have hflush := flushSpan_gives (s := s')
        (p := { p with scratch := (d.image s).block d.sectorsPerBlock (p.span d).block }) hd
        (hp.renewed rfl hblock) (.inr (by rw [hread]; rfl))
      exact hflush.mono fun r log s'' h => h.after hread
    · exact BlockProgram.gives_done
        (.refused e p.scratch _ s' hp.scratch (Answers.stoppedAt_singleton rfl) h hnot)

/-! ### All spans -/

/-- Some sectors have been moved: all of them, or those before the first span that was refused. -/
structure Covers (d : BlockDevice σ) (write : Bool) (p : SectorProgress) (s : σ) (count : Nat)
    (o : SectorOutcome) (log : Answers) (s' : σ) : Prop where
  count_le : count ≤ p.remaining
  scratch : o.scratch.length = d.blockSize
  result : (o.result = .ok () ∧ log.Served ∧ count = p.remaining) ∨
    ∃ e, o.result = .error e ∧ log.StoppedAt ((p.sector + count) / d.sectorsPerBlock) e ∧
      count < p.remaining ∧ (count = 0 ∨ (p.sector + count) % d.sectorsPerBlock = 0) ∧
        ¬d.Has ((p.sector + count) / d.sectorsPerBlock)
  buffer : o.buffer = p.passed.reverse.flatten ++ ((d.image s).moved write p.sector count p.rest).1
  image : d.image s' = ((d.image s).moved write p.sector count p.rest).2

private theorem covers_all (hlen : p.scratch.length = d.blockSize) (hzero : p.remaining = 0) :
    Covers d write p s 0 (p.finish (.ok ())) [] s := by
  refine ⟨Nat.zero_le _, hlen, .inl ⟨rfl, Answers.served_nil, hzero.symm⟩, ?_, ?_⟩
  · rw [Image.moved_zero]
    rfl
  · rw [Image.moved_zero]

private theorem covers_none {e : BlockError} {scratch : Bytes} {log : Answers} {s' : σ}
    (hlen : scratch.length = d.blockSize) (hsome : p.remaining ≠ 0)
    (hstopped : log.StoppedAt (p.sector / d.sectorsPerBlock) e) (hsame : d.image s' = d.image s)
    (hnot : ¬d.Has (p.sector / d.sectorsPerBlock)) :
    Covers d write p s 0 (finish { p with scratch } (.error e)) log s' := by
  refine ⟨Nat.zero_le _, hlen,
    .inr ⟨e, rfl, hstopped, Nat.pos_of_ne_zero hsome, .inl rfl, hnot⟩, ?_, ?_⟩
  · rw [Image.moved_zero]
    rfl
  · rw [Image.moved_zero, hsame]

private theorem mod_after_span (hd : d.Sectored) (h : p.spanSectors d < p.remaining) :
    (p.sector + p.spanSectors d) % d.sectorsPerBlock = 0 := by
  have hmod := Nat.mod_lt p.sector hd.pos
  have hdiv := Nat.div_add_mod p.sector d.sectorsPerBlock
  rw [spanSectors] at h ⊢
  have hend : p.sector + min (d.sectorsPerBlock - p.sector % d.sectorsPerBlock) p.remaining =
      d.sectorsPerBlock * (p.sector / d.sectorsPerBlock + 1) := by
    rw [Nat.mul_succ]
    omega
  rw [hend, Nat.mul_mod_right]

/-- Once a span has been moved, what the rest of the transfer comes to is what the whole comes to. -/
private theorem Covers.of_moved (hd : d.Sectored) (hp : p.Ample d) {count : Nat} {scratch : Bytes}
    {position : Nat} {u s' : σ} {o : SectorOutcome} {log later : Answers} (hlog : log.Served)
    (hu : d.image u = ((d.image s).moved write p.sector (p.spanSectors d) p.rest).2)
    (h : Covers d write
      ⟨p.sector + p.spanSectors d, p.remaining - p.spanSectors d, position,
        ((d.image s).moved write p.sector (p.spanSectors d) p.rest).1.take
          (sectorSize * p.spanSectors d) :: p.passed,
        ((d.image s).moved write p.sector (p.spanSectors d) p.rest).1.drop
          (sectorSize * p.spanSectors d), scratch⟩ u count o later s') :
    Covers d write p s (p.spanSectors d + count) o (log ++ later) s' := by
  have hw := hd.whole_image s
  have hle := spanSectors_le_remaining (d := d) (p := p)
  obtain ⟨hcount, hscratch, hresult, hbuffer, himage⟩ := h
  simp only [Image.drop_moved hw, hu] at hbuffer himage hcount hresult
  refine ⟨by omega, hscratch, ?_, ?_, ?_⟩
  · rcases hresult with ⟨hok, hserved, hall⟩ | ⟨e, herror, hstopped, hlt, hstart, hnot⟩
    · exact .inl ⟨hok, hlog.append hserved, by omega⟩
    · rw [← Nat.add_assoc]
      refine .inr ⟨e, herror, hstopped.append hlog, by omega, .inr ?_, hnot⟩
      rcases hstart with rfl | hstart
      · exact mod_after_span hd (by omega)
      · exact hstart
  · rw [hbuffer, Image.moved_add hw hp.span_le, List.reverse_cons, List.flatten_append,
      List.flatten_cons, List.flatten_nil, List.append_nil, List.append_assoc]
  · rw [himage, Image.moved_add hw hp.span_le]

/-- A transfer ends with a run of sectors moved, whatever moves the single spans. -/
private theorem transferSpans_gives (hd : d.Sectored)
    {step : SectorProgress → Span → BlockProgram (Except BlockError Unit × SectorProgress)}
    (hstep : ∀ (p : SectorProgress) (s : σ), p.Ample d →
      (step p (p.span d)).Gives d s (p.Steps d write s)) (bound : Nat) (hp : p.Ample d)
    (hbound : p.remaining ≤ bound) :
    (transferSpans step d.sectorsPerBlock bound p).Gives d s fun o log s' =>
      ∃ count, Covers d write p s count o log s' := by
  induction bound generalizing p s with
  | zero => exact BlockProgram.gives_done ⟨0, covers_all hp.scratch (Nat.le_zero.1 hbound)⟩
  | succ bound ih =>
    rw [transferSpans]
    split
    · next hzero => exact BlockProgram.gives_done ⟨0, covers_all hp.scratch hzero⟩
    · next hsome =>
      refine BlockProgram.gives_ofChecked (first_eq_span hd) (BlockProgram.Gives.bind ?_)
      refine (hstep p s hp).mono fun r log u hr => ?_
      have hw := hd.whole_image s
      cases hr with
      | refused e scratch log _ hlen hstopped hsame hnot =>
        refine BlockProgram.gives_done ⟨0, ?_⟩
        rw [List.append_nil]
        exact covers_none hlen hsome hstopped hsame hnot
      | moved scratch log _ hlen hserved hword hmoved =>
        have hpos := spanSectors_pos hd hsome
        have hlength : ((d.image s).moved write p.sector (p.spanSectors d) p.rest).1.length =
            p.rest.length := Image.length_moved hw hp.span_le
        have hafter := hp.renewed hlength hlen
        refine BlockProgram.gives_ofChecked (hafter.advance_eq hword) ?_
        refine (ih (hafter.after_span _) ?_).mono ?_
        · change p.remaining - p.spanSectors d ≤ bound
          omega
        · rintro o later s' ⟨count, h⟩
          exact ⟨p.spanSectors d + count, h.of_moved hd hp hserved hmoved⟩

end SectorProgress

namespace Image

variable {image : Image} {write : Bool} {start count i : Nat} {buffer : Bytes}

private theorem getD_moved (h : image.Whole) :
    (image.moved write start count buffer).1.getD i 0 =
      if write = false ∧ i < sectorSize * count then image.byte (sectorSize * start + i)
      else buffer.getD i 0 := by
  cases write with
  | true => simp [moved]
  | false =>
    have hread := length_read h start count
    simp only [moved, Bool.false_eq_true, if_false, true_and]
    rw [List.getD_eq_getElem?_getD, List.getElem?_append, hread]
    split
    · next hin => rw [← List.getD_eq_getElem?_getD, getD_read h start hin]
    · next hout =>
      rw [List.getElem?_drop, Nat.add_sub_cancel' (Nat.le_of_not_lt hout),
        ← List.getD_eq_getElem?_getD]

private theorem byte_moved (h : image.Whole) (hlen : sectorSize * count ≤ buffer.length) :
    (image.moved write start count buffer).2.byte i =
      if write = true ∧ sectorSize * start ≤ i ∧ i < sectorSize * (start + count) then
        buffer.getD (i - sectorSize * start) 0
      else image.byte i := by
  cases write with
  | false => simp [moved]
  | true =>
    have htake : (buffer.take (sectorSize * count)).length = sectorSize * count := by
      rw [List.length_take, Nat.min_eq_left hlen]
    simp only [moved, if_true, true_and]
    rw [byte_write h htake]
    split
    · next hin =>
      have hi : i - sectorSize * start < sectorSize * count := by
        rw [Nat.mul_add] at hin
        omega
      rw [List.getD_eq_getElem?_getD, List.getElem?_take_of_lt hi, ← List.getD_eq_getElem?_getD]
    · rfl

end Image

/-- Exactly `count` sectors have been transferred: a write has put the front of the buffer in their
place on the disk, a read has put them at the front of the buffer, and every other byte is as it
was. -/
structure Transferred (write : Bool) (start count : Nat) (buffer buffer' : Bytes)
    (disk disk' : Nat → UInt8) : Prop where
  length : buffer'.length = buffer.length
  held : ∀ i, buffer'.getD i 0 =
    if write = false ∧ i < sectorSize * count then disk (sectorSize * start + i)
    else buffer.getD i 0
  stored : ∀ i, disk' i =
    if write = true ∧ sectorSize * start ≤ i ∧ i < sectorSize * (start + count) then
      buffer.getD (i - sectorSize * start) 0
    else disk i

private theorem Image.transferred {image : Image} {write : Bool} {start count : Nat} {buffer : Bytes}
    (h : image.Whole) (hlen : sectorSize * count ≤ buffer.length) :
    Transferred write start count buffer (image.moved write start count buffer).1 image.byte
      (image.moved write start count buffer).2.byte :=
  ⟨length_moved h hlen, fun _ => getD_moved h, fun _ => byte_moved h hlen⟩

namespace BlockDevice

variable {σ : Type} {d : BlockDevice σ} {start count : Nat} {buffer scratch : Bytes}

theorem Sectored.transferred (hd : d.Sectored) {write : Bool} {s s' : σ} {buffer' : Bytes}
    (hlen : sectorSize * count ≤ buffer.length)
    (h : (buffer', d.image s') = (d.image s).moved write start count buffer) :
    Transferred write start count buffer buffer' (d.byte s) (d.byte s') := by
  have hbytes : ∀ s, d.byte s = (d.image s).byte := fun s => funext fun i => hd.byte_eq s i
  have hbuffer : buffer' = ((d.image s).moved write start count buffer).1 := congrArg Prod.fst h
  have himage : d.image s' = ((d.image s).moved write start count buffer).2 := congrArg Prod.snd h
  rw [hbytes, hbytes, hbuffer, himage]
  exact Image.transferred (hd.whole_image s) hlen

theorem Sectored.checkBuffers_eq (hd : d.Sectored) (hlen : sectorSize * count ≤ buffer.length)
    (hword : sectorSize * count < wordLimit) (hscratch : scratch.length = d.blockSize) :
    checkBuffers d.blockSize buffer.length count scratch.length = .ok d.sectorsPerBlock := by
  have hleast : sectorSize ≤ d.blockSize := by
    rw [hd.size]
    exact Nat.le_mul_of_pos_right _ hd.pos
  have hwhole := hd.whole
  rw [Nat.mul_comm] at hlen hword
  rw [checkBuffers, if_neg (by omega), if_neg (by omega), if_neg (by omega)]
  rfl

/-- A transfer with buffers that are large enough moves sectors until an access is refused. -/
theorem Sectored.transferSectors_covers (hd : d.Sectored) (write : Bool) (s : σ)
    (hrange : start + count < wordLimit ∨ d.Bounded) (hlen : sectorSize * count ≤ buffer.length)
    (hword : sectorSize * count < wordLimit) (hscratch : scratch.length = d.blockSize) :
    (transferSectors write d.blockSize buffer start count scratch).Gives d s fun o log s' =>
      ∃ n, SectorProgress.Covers d write (.start start count buffer scratch) s n o log s' := by
  have hample : (SectorProgress.start start count buffer scratch).Ample d := by
    refine ⟨hscratch, hlen, hrange, ?_⟩
    change 0 + sectorSize * count < wordLimit
    omega
  cases write with
  | true =>
    rw [transferSectors, if_pos rfl, writeSectors, hd.checkBuffers_eq hlen hword hscratch]
    exact SectorProgress.transferSpans_gives hd (fun p s hp => SectorProgress.writeSpan_gives hd hp)
      count hample (Nat.le_refl _)
  | false =>
    rw [transferSectors, if_neg Bool.false_ne_true, readSectors,
      hd.checkBuffers_eq hlen hword hscratch]
    exact SectorProgress.transferSpans_gives hd (fun p s hp => SectorProgress.readSpan_gives hd hp)
      count hample (Nat.le_refl _)

private theorem Sectored.transferSectors_gives (hd : d.Sectored) (write : Bool) (s : σ)
    (hrange : start + count < wordLimit)
    (has : ∀ sector, start ≤ sector → sector < start + count → d.Has (sector / d.sectorsPerBlock))
    (hlen : sectorSize * count ≤ buffer.length) (hword : buffer.length < wordLimit)
    (hscratch : scratch.length = d.blockSize) :
    (transferSectors write d.blockSize buffer start count scratch).Gives d s fun o _ s' =>
      o.result = .ok () ∧ o.scratch.length = d.blockSize ∧
        (o.buffer, d.image s') = (d.image s).moved write start count buffer := by
  refine (hd.transferSectors_covers write s (.inl hrange) hlen (Nat.lt_of_le_of_lt hlen hword)
    hscratch).mono ?_
  rintro o log s' ⟨n, hcovers⟩
  rcases hcovers.result with ⟨hok, -, hn⟩ | ⟨e, -, -, hn, -, hnot⟩
  · subst hn
    exact ⟨hok, hcovers.scratch, Prod.ext hcovers.buffer hcovers.image⟩
  · exact absurd (has _ (Nat.le_add_right start n) (Nat.add_lt_add_left hn start)) hnot

/-- Writing sectors replaces the bytes of the range by those of the buffer, and no other byte. -/
theorem writeSectors_replaces_range (d : BlockDevice σ) (hd : d.Sectored) (s : σ)
    (hrange : start + count < wordLimit)
    (has : ∀ sector, start ≤ sector → sector < start + count → d.Has (sector / d.sectorsPerBlock))
    (hlen : sectorSize * count ≤ buffer.length) (hword : buffer.length < wordLimit)
    (hscratch : scratch.length = d.blockSize) :
    ∃ o s', (writeSectors d.blockSize buffer start count scratch).run d.submit s = (.ok o, s') ∧
      o.result = .ok () ∧ o.buffer = buffer ∧
      ∀ i, d.byte s' i =
        if sectorSize * start ≤ i ∧ i < sectorSize * (start + count) then
          buffer.getD (i - sectorSize * start) 0
        else d.byte s i := by
  obtain ⟨o, s', hrun, hok, -, hmoved⟩ :=
    hd.transferSectors_gives true s hrange has hlen hword hscratch
  have hbuffer : o.buffer = buffer := congrArg Prod.fst hmoved
  have himage : d.image s' = (d.image s).write start (buffer.take (sectorSize * count)) :=
    congrArg Prod.snd hmoved
  have htake : (buffer.take (sectorSize * count)).length = sectorSize * count := by
    rw [List.length_take, Nat.min_eq_left hlen]
  refine ⟨o, s', hrun, hok, hbuffer, fun i => ?_⟩
  rw [hd.byte_eq, himage, Image.byte_write (hd.whole_image s) htake, hd.byte_eq]
  split
  · next hin =>
    have hi : i - sectorSize * start < sectorSize * count := by
      rw [Nat.mul_add] at hin
      omega
    rw [List.getD_eq_getElem?_getD, List.getElem?_take_of_lt hi, ← List.getD_eq_getElem?_getD]
  · rfl

/-- Two sectors on both sides of a block boundary are written. -/
theorem writeSectors_replaces_range_sample :
    ∃ o s', (writeSectors 1024 (List.replicate 1024 1) 1 2 (List.replicate 1024 9)).run
        (inMemory 1024 4).submit ⟨_, RamDisk.keeps_blank 1024 4⟩ = (.ok o, s') ∧
      o.result = .ok () ∧ o.buffer = List.replicate 1024 1 ∧
      ∀ i, (inMemory 1024 4).byte s' i =
        if sectorSize * 1 ≤ i ∧ i < sectorSize * (1 + 2) then
          (List.replicate 1024 1).getD (i - sectorSize * 1) 0
        else (inMemory 1024 4).byte ⟨_, RamDisk.keeps_blank 1024 4⟩ i :=
  writeSectors_replaces_range (inMemory 1024 4) ⟨by decide, by decide, by decide⟩ _ (by decide)
    (fun sector _ h => inMemory_has (by
      change sector / 2 < 4
      omega)) (by rw [List.length_replicate]; decide)
    (by rw [List.length_replicate]; decide) List.length_replicate

/-- Reading sectors leaves the bytes of the range at the front of the buffer, and changes neither the
rest of the buffer nor the disk. -/
theorem readSectors_fetches_range (d : BlockDevice σ) (hd : d.Sectored) (s : σ)
    (hrange : start + count < wordLimit)
    (has : ∀ sector, start ≤ sector → sector < start + count → d.Has (sector / d.sectorsPerBlock))
    (hlen : sectorSize * count ≤ buffer.length) (hword : buffer.length < wordLimit)
    (hscratch : scratch.length = d.blockSize) :
    ∃ o s', (readSectors d.blockSize buffer start count scratch).run d.submit s = (.ok o, s') ∧
      o.result = .ok () ∧ o.buffer.length = buffer.length ∧
      (∀ i, o.buffer.getD i 0 =
        if i < sectorSize * count then d.byte s (sectorSize * start + i) else buffer.getD i 0) ∧
      ∀ i, d.byte s' i = d.byte s i := by
  obtain ⟨o, s', hrun, hok, -, hmoved⟩ :=
    hd.transferSectors_gives false s hrange has hlen hword hscratch
  have hw := hd.whole_image s
  have hbuffer : o.buffer = (d.image s).read start count ++ buffer.drop (sectorSize * count) :=
    congrArg Prod.fst hmoved
  have himage : d.image s' = d.image s := congrArg Prod.snd hmoved
  have hread := Image.length_read hw start count
  refine ⟨o, s', hrun, hok, ?_, fun i => ?_, fun i => ?_⟩
  · rw [hbuffer, List.length_append, hread, List.length_drop]
    omega
  · rw [hbuffer, List.getD_eq_getElem?_getD, List.getElem?_append, hread]
    split
    · next hin =>
      rw [← List.getD_eq_getElem?_getD, Image.getD_read hw start hin, hd.byte_eq]
    · next hout =>
      rw [List.getElem?_drop, Nat.add_sub_cancel' (Nat.le_of_not_lt hout),
        ← List.getD_eq_getElem?_getD]
  · rw [hd.byte_eq, himage, hd.byte_eq]

/-- Two sectors on both sides of a block boundary are read. -/
theorem readSectors_fetches_range_sample :
    ∃ o s', (readSectors 1024 (List.replicate 1500 1) 1 2 (List.replicate 1024 9)).run
        (inMemory 1024 4).submit ⟨_, RamDisk.keeps_blank 1024 4⟩ = (.ok o, s') ∧
      o.result = .ok () ∧ o.buffer.length = (List.replicate 1500 (1 : UInt8)).length ∧
      (∀ i, o.buffer.getD i 0 =
        if i < sectorSize * 2 then
          (inMemory 1024 4).byte ⟨_, RamDisk.keeps_blank 1024 4⟩ (sectorSize * 1 + i)
        else (List.replicate 1500 1).getD i 0) ∧
      ∀ i, (inMemory 1024 4).byte s' i =
        (inMemory 1024 4).byte ⟨_, RamDisk.keeps_blank 1024 4⟩ i :=
  readSectors_fetches_range (inMemory 1024 4) ⟨by decide, by decide, by decide⟩ _ (by decide)
    (fun sector _ h => inMemory_has (by
      change sector / 2 < 4
      omega)) (by rw [List.length_replicate]; decide)
    (by rw [List.length_replicate]; decide) List.length_replicate

end BlockDevice

end DiskStack
