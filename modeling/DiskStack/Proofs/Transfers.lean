import DiskStack.Proofs.Device
import DiskStack.Sector.Transfer

/-!
# Transfers on a disk of sectors

A transfer works block by block through a scratch block. On a disk that carries out each access at
once it amounts to moving a range of sectors between the image and the buffer, up to the first sector
that the drive does not have. Nothing is said of transfers that halt.
-/

namespace DiskStack

namespace Checked

variable {a b c : Nat}

private theorem of_add (h : add a b = .ok c) : a + b < wordLimit ∧ c = a + b := by
  rw [add] at h
  split at h
  · cases h
    exact ⟨‹_›, rfl⟩
  · cases h

private theorem of_sub (h : sub a b = .ok c) : b ≤ a ∧ c = a - b := by
  rw [sub] at h
  split at h
  · cases h
    exact ⟨‹_›, rfl⟩
  · cases h

private theorem of_mul (h : mul a b = .ok c) : c = a * b := by
  rw [mul] at h
  split at h
  · cases h
    rfl
  · cases h

private theorem of_div (h : div a b = .ok c) : c = a / b := by
  rw [div] at h
  split at h
  · cases h
  · cases h
    rfl

private theorem of_rem (h : rem a b = .ok c) : c = a % b := by
  rw [rem] at h
  split at h
  · cases h
  · cases h
    rfl

end Checked

namespace Bytes

variable {bytes source part : Bytes} {offset length : Nat}

private theorem of_sliceChecked (h : bytes.sliceChecked offset length = .ok part) :
    part = bytes.slice offset length := by
  obtain ⟨stop, -, h⟩ := Checked.exists_of_bind h
  split at h
  · cases h
    rfl
  · cases h

theorem sliceChecked_of_le (h : offset + length ≤ bytes.length) (hlimit : bytes.length < wordLimit) :
    bytes.sliceChecked offset length = .ok (bytes.slice offset length) := by
  rw [sliceChecked, Checked.add_of_lt (Nat.lt_of_le_of_lt h hlimit)]
  exact if_pos h

private theorem of_spliceChecked (h : bytes.spliceChecked offset length source = .ok part) :
    offset + length ≤ bytes.length ∧ source.length = length ∧ part = bytes.splice offset source := by
  obtain ⟨stop, hstop, h⟩ := Checked.exists_of_bind h
  split at h
  · cases h
  · next hle =>
    split at h
    · cases h
    · next hlen =>
      cases h
      have hsum := (Checked.of_add hstop).2
      exact ⟨by omega, Decidable.not_not.1 hlen, rfl⟩

theorem spliceChecked_of_le (h : offset + length ≤ bytes.length) (hlimit : bytes.length < wordLimit)
    (hlen : source.length = length) :
    bytes.spliceChecked offset length source = .ok (bytes.splice offset source) := by
  rw [spliceChecked, Checked.add_of_lt (Nat.lt_of_le_of_lt h hlimit)]
  exact (if_neg (Nat.not_lt.2 h)).trans (if_neg (not_not_intro hlen))

end Bytes

namespace DriveParameters

variable {k : DriveParameters} {a : BlockAccess}

/-- Where the sectors end that accesses reach: the drive has whole blocks only, and a capacity that is
the greatest word is no bound. -/
def reach (k : DriveParameters) : Nat :=
  if k.capacity.toNat = wordLimit - 1 then wordLimit
  else k.capacity.toNat / k.config.sectorsPerBlock * k.config.sectorsPerBlock

/-- How many of `count` sectors from `sector` on accesses reach. -/
def within (k : DriveParameters) (sector count : Nat) : Nat := min count (k.reach - sector)

def serve (k : DriveParameters) (a : BlockAccess) (image : Image) : BlockReply × Image :=
  match k.verdict a with
  | .error e => (⟨.error e, a.data⟩, image)
  | .ok () =>
    (⟨.ok (), (image.perform k.config.sectorsPerBlock a).1⟩,
      (image.perform k.config.sectorsPerBlock a).2)

private theorem verdict_eq (hpos : 0 < k.config.sectorsPerBlock) {sector : Nat} (hs : sector < wordLimit)
    (hlen : a.data.length = k.config.blockSize)
    (hblock : a.block = sector / k.config.sectorsPerBlock) :
    k.verdict a = if sector < k.reach then .ok () else .error .invalidBlock := by
  have hle : a.block * k.config.sectorsPerBlock ≤ sector := by
    rw [hblock]
    exact Nat.div_mul_le_self _ _
  have hfirst : k.config.firstSector a.block a.data.length =
      .ok (a.block * k.config.sectorsPerBlock) := by
    rw [DriveConfig.firstSector, if_neg (fun h => h hlen), if_pos (Nat.lt_of_le_of_lt hle hs)]
  have hcapacity : k.capacity.toNat < wordLimit := k.capacity.toNat_lt
  have hiff : k.capacity.toNat <
      min (a.block * k.config.sectorsPerBlock + k.config.sectorsPerBlock) (wordLimit - 1) ↔
      ¬sector < k.reach := by
    rw [reach]
    split
    · next hmax => omega
    · next hmax =>
      have hblocks : a.block < k.capacity.toNat / k.config.sectorsPerBlock ↔
          a.block * k.config.sectorsPerBlock + k.config.sectorsPerBlock ≤ k.capacity.toNat := by
        rw [← Nat.succ_mul, ← Nat.le_div_iff_mul_le hpos]
        exact Nat.lt_iff_add_one_le
      rw [← Nat.div_lt_iff_lt_mul hpos, ← hblock, hblocks]
      omega
  rw [verdict, hfirst]
  change (if _ then _ else _) = _
  by_cases h : sector < k.reach
  · rw [if_neg (fun hc => hiff.1 hc h), if_pos h]
  · rw [if_pos (hiff.2 h), if_neg h]

private theorem serve_eq (hpos : 0 < k.config.sectorsPerBlock) {sector : Nat} (hs : sector < wordLimit)
    (hlen : a.data.length = k.config.blockSize)
    (hblock : a.block = sector / k.config.sectorsPerBlock) (image : Image) :
    k.serve a image =
      if sector < k.reach then
        (⟨.ok (), (image.perform k.config.sectorsPerBlock a).1⟩,
          (image.perform k.config.sectorsPerBlock a).2)
      else (⟨.error .invalidBlock, a.data⟩, image) := by
  have hverdict := verdict_eq hpos hs hlen hblock
  by_cases h : sector < k.reach
  · rw [if_pos h] at hverdict ⊢
    rw [serve, hverdict]
  · rw [if_neg h] at hverdict ⊢
    rw [serve, hverdict]

private theorem add_le_reach (hpos : 0 < k.config.sectorsPerBlock) {sector count : Nat}
    (hs : sector < k.reach) (hsum : sector + count < wordLimit)
    (hcount : count ≤ k.config.sectorsPerBlock - sector % k.config.sectorsPerBlock) :
    sector + count ≤ k.reach := by
  rw [reach] at hs ⊢
  split at hs
  · next hmax =>
    rw [if_pos hmax]
    omega
  · next hmax =>
    rw [if_neg hmax]
    have hblock := (Nat.div_lt_iff_lt_mul hpos).2 hs
    have hle := Nat.mul_le_mul_right k.config.sectorsPerBlock hblock
    have hdiv := Nat.div_add_mod sector k.config.sectorsPerBlock
    have hmod := Nat.mod_lt sector hpos
    rw [Nat.succ_mul, Nat.mul_comm] at hle
    omega

end DriveParameters

namespace BlockProgram

variable {α β : Type} {k : DriveParameters} {image : Image} {P : α → Image → Prop} {Q : β → Image → Prop}

/-- What a program comes to if every access is carried out at once, unless it halts. -/
def Yields (k : DriveParameters) (p : BlockProgram α) (image : Image) (P : α → Image → Prop) : Prop :=
  ∀ a image', p.run k.serve image = (.ok a, image') → P a image'

theorem yields_done_iff {a : α} : (done a).Yields k image P ↔ P a image := by
  constructor
  · exact fun h => h a image rfl
  · rintro h _ _ hr
    cases hr
    exact h

private theorem yields_halt {h : Halt} : (halt h).Yields k image P := fun _ _ hr => by cases hr

private theorem Yields.bind {p : BlockProgram α} {f : α → BlockProgram β}
    (h : p.Yields k image fun a image' => (f a).Yields k image' Q) :
    (p >>= f).Yields k image Q := by
  intro b image' hr
  rw [show p >>= f = p.bind f from rfl, run_bind] at hr
  cases hp : p.run k.serve image with
  | mk r image₁ =>
    rw [hp] at hr
    cases r with
    | ok a => exact h a image₁ hp b image' hr
    | error e => cases hr

private theorem yields_ofChecked {e : Except Halt α} {f : α → BlockProgram β}
    (h : ∀ a, e = .ok a → (f a).Yields k image Q) : (ofChecked e >>= f).Yields k image Q := by
  cases e with
  | ok a => exact h a rfl
  | error e => exact yields_halt

private theorem yields_transfer (hpos : 0 < k.config.sectorsPerBlock) {a : BlockAccess}
    {f : BlockReply → BlockProgram β} {sector : Nat} (hs : sector < wordLimit)
    (hlen : a.data.length = k.config.blockSize)
    (hblock : a.block = sector / k.config.sectorsPerBlock)
    (served : sector < k.reach →
      (f ⟨.ok (), (image.perform k.config.sectorsPerBlock a).1⟩).Yields k
        (image.perform k.config.sectorsPerBlock a).2 Q)
    (refused : k.reach ≤ sector → (f ⟨.error .invalidBlock, a.data⟩).Yields k image Q) :
    (transfer a >>= f).Yields k image Q := by
  change (f (k.serve a image).1).Yields k (k.serve a image).2 Q
  rw [DriveParameters.serve_eq hpos hs hlen hblock]
  by_cases h : sector < k.reach
  · rw [if_pos h]
    exact served h
  · rw [if_neg h]
    exact refused (Nat.le_of_not_lt h)

end BlockProgram

namespace Image

variable {image : Image} {write : Bool} {start count more : Nat} {buffer : Bytes}

/-- Moves `count` sectors from the buffer to the image, or from the image to the buffer. -/
def moved (write : Bool) (image : Image) (start count : Nat) (buffer : Bytes) : Bytes × Image :=
  if write then (buffer, image.write start (buffer.take (sectorSize * count)))
  else (image.read start count ++ buffer.drop (sectorSize * count), image)

theorem moved_zero : image.moved write start 0 buffer = (buffer, image) := by
  cases write <;> simp [moved, write_nil]

theorem whole_moved (h : image.Whole) (hlen : sectorSize * count ≤ buffer.length) :
    (image.moved write start count buffer).2.Whole := by
  cases write with
  | true => exact whole_write h (by rw [List.length_take, Nat.min_eq_left hlen])
  | false => exact h

/-- A write moves the sectors of the range from the buffer, and leaves the others as they are. -/
theorem sector_moved (h : image.Whole) (hlen : sectorSize * count ≤ buffer.length) (i : Nat) :
    (image.moved write start count buffer).2.sector i =
      if write = true ∧ start ≤ i ∧ i < start + count then
        buffer.slice (sectorSize * (i - start)) sectorSize
      else image.sector i := by
  cases write with
  | false => rw [if_neg fun hc => Bool.false_ne_true hc.1]; rfl
  | true =>
    have htake : (buffer.take (sectorSize * count)).length = sectorSize * count := by
      rw [List.length_take, Nat.min_eq_left hlen]
    change (image.write start (buffer.take (sectorSize * count))).sector i = _
    rw [sector_write h htake]
    simp only [true_and]
    split
    · next hin =>
      have hfit : sectorSize * (i - start) + sectorSize ≤ sectorSize * count := by
        rw [← Nat.mul_succ]
        exact Nat.mul_le_mul_left _ (by omega)
      rw [Bytes.slice, Bytes.slice, List.drop_take, List.take_take, Nat.min_eq_left (by omega)]
    · rfl

theorem moved_add (h : image.Whole) (hlen : sectorSize * count ≤ buffer.length) :
    image.moved write start (count + more) buffer =
      ((image.moved write start count buffer).1.take (sectorSize * count) ++
        ((image.moved write start count buffer).2.moved write (start + count) more
          (buffer.drop (sectorSize * count))).1,
        ((image.moved write start count buffer).2.moved write (start + count) more
          (buffer.drop (sectorSize * count))).2) := by
  have htake : (buffer.take (sectorSize * count)).length = sectorSize * count := by
    rw [List.length_take, Nat.min_eq_left hlen]
  cases write with
  | true =>
    simp only [moved, if_true]
    rw [List.take_append_drop, Nat.mul_add, List.take_add, write_append htake]
  | false =>
    simp only [moved, Bool.false_eq_true, if_false]
    rw [List.take_left' (length_read h start count), read_add, List.append_assoc, List.drop_drop,
      Nat.mul_add]

theorem length_moved (h : image.Whole) (hlen : sectorSize * count ≤ buffer.length) :
    (image.moved write start count buffer).1.length = buffer.length := by
  cases write with
  | true => rfl
  | false =>
    simp only [moved, Bool.false_eq_true, if_false]
    rw [List.length_append, length_read h, List.length_drop]
    omega

theorem drop_moved (h : image.Whole) :
    (image.moved write start count buffer).1.drop (sectorSize * count) =
      buffer.drop (sectorSize * count) := by
  cases write with
  | true => rfl
  | false =>
    simp only [moved, Bool.false_eq_true, if_false]
    rw [List.drop_left' (length_read h start count)]

end Image

/-- The first span of a range: the sectors up to the end of the range or of their block. -/
private theorem Span.first_eq {sector remaining sectorsPerBlock : Nat} {s : Span}
    (h : Span.first sector remaining sectorsPerBlock = .ok s) :
    s = ⟨sector / sectorsPerBlock, sector % sectorsPerBlock * sectorSize,
      min (sectorsPerBlock - sector % sectorsPerBlock) remaining * sectorSize⟩ := by
  rw [first] at h
  obtain ⟨block, hblock, h⟩ := Checked.exists_of_bind h
  obtain ⟨skipped, hskipped, h⟩ := Checked.exists_of_bind h
  obtain ⟨room, hroom, h⟩ := Checked.exists_of_bind h
  obtain ⟨offset, hoffset, h⟩ := Checked.exists_of_bind h
  obtain ⟨length, hlength, h⟩ := Checked.exists_of_bind h
  cases h
  rw [Checked.of_mul hlength, Checked.of_mul hoffset, (Checked.of_sub hroom).2,
    Checked.of_rem hskipped, Checked.of_div hblock]

/-- How many sectors the next span of a transfer has. -/
def SectorProgress.spanCount (k : DriveParameters) (p : SectorProgress) : Nat :=
  min (k.config.sectorsPerBlock - p.sector % k.config.sectorsPerBlock) p.remaining

private theorem Span.first_fields {k : DriveParameters} {p : SectorProgress} {s : Span}
    (h : Span.first p.sector p.remaining k.config.sectorsPerBlock = .ok s) :
    s.block = p.sector / k.config.sectorsPerBlock ∧
      s.offset = sectorSize * (p.sector % k.config.sectorsPerBlock) ∧
      s.length = sectorSize * p.spanCount k := by
  rw [Span.first_eq h, Nat.mul_comm sectorSize, Nat.mul_comm sectorSize]
  exact ⟨rfl, rfl, rfl⟩

namespace SectorProgress

variable {k : DriveParameters} {p : SectorProgress} {image : Image} {s : Span}

/-- A transfer under way with a scratch block, and with the bytes of the sectors that remain. -/
structure Fits (k : DriveParameters) (p : SectorProgress) : Prop where
  scratch : p.scratch.length = k.config.blockSize
  rest : sectorSize * p.remaining ≤ p.rest.length
  sector : p.sector < wordLimit

/-- The next span has been moved if it is within reach, and is refused otherwise. -/
inductive Moves (k : DriveParameters) (write : Bool) (p : SectorProgress) (image : Image) :
    Except BlockError Unit × SectorProgress → Image → Prop
  | moved (scratch : Bytes) (hlen : scratch.length = k.config.blockSize)
    (h : p.sector < k.reach) :
    Moves k write p image
      (.ok (), { p with rest := (image.moved write p.sector (p.spanCount k) p.rest).1, scratch })
      (image.moved write p.sector (p.spanCount k) p.rest).2
  | refused (scratch : Bytes) (hlen : scratch.length = k.config.blockSize)
    (h : k.reach ≤ p.sector) :
    Moves k write p image (.error .invalidBlock, { p with scratch }) image

private theorem spanCount_fits (hpos : 0 < k.config.sectorsPerBlock) :
    p.sector % k.config.sectorsPerBlock + p.spanCount k ≤ k.config.sectorsPerBlock := by
  have hmod := Nat.mod_lt p.sector hpos
  rw [spanCount]
  omega

private theorem of_next {length : Nat} {part : Bytes} (h : p.next length = .ok part) :
    part = p.rest.take length ∧ part.length = length := by
  rw [next] at h
  obtain ⟨stop, -, h⟩ := Checked.exists_of_bind h
  by_cases hlen : (p.rest.take length).length = length
  · cases (if_pos hlen).symm.trans h
    exact ⟨rfl, hlen⟩
  · cases (if_neg hlen).symm.trans h

theorem put_take {length : Nat} (h : (p.rest.take length).length = length) :
    p.put (p.rest.take length) = p := by
  rw [put, h, List.take_append_drop]

theorem put_read (hw : image.Whole) (count : Nat) :
    p.put (image.read p.sector count) =
      { p with rest := (image.moved false p.sector count p.rest).1 } := by
  rw [put, Image.length_read hw]
  rfl

private theorem length_block (hw : image.Whole) (hsize : k.config.blockSize =
    sectorSize * k.config.sectorsPerBlock) (i : Nat) :
    (image.block k.config.sectorsPerBlock i).length = k.config.blockSize := by
  rw [Image.block, Image.length_read hw, hsize]

private theorem readSpan_yields (valid : k.config.isValid = true) (hw : image.Whole) (hp : p.Fits k)
    (hs : Span.first p.sector p.remaining k.config.sectorsPerBlock = .ok s) :
    (p.readSpan k.config.blockSize s).Yields k image (p.Moves k false image) := by
  obtain ⟨hsize, hpos, -⟩ := DriveConfig.block_of_isValid valid
  obtain ⟨hblock, hoffset, hlength⟩ := Span.first_fields hs
  have hfits := spanCount_fits (p := p) hpos
  have hdiv := Nat.div_add_mod p.sector k.config.sectorsPerBlock
  rw [readSpan]
  split
  · next hfull =>
    -- a whole block is read straight into the buffer
    have hwhole : p.spanCount k = k.config.sectorsPerBlock := by
      rw [hlength, hsize] at hfull
      exact Nat.eq_of_mul_eq_mul_left (by decide) hfull
    have hread : image.block k.config.sectorsPerBlock s.block =
        image.read p.sector (p.spanCount k) := by
      rw [Image.block, hblock, hwhole, Nat.mul_comm]
      congr 1
      omega
    apply BlockProgram.yields_ofChecked
    intro target htarget
    obtain ⟨rfl, hlen⟩ := of_next htarget
    refine BlockProgram.yields_transfer hpos hp.sector hlen hblock (fun h => ?_) fun h => ?_
    · refine BlockProgram.yields_done_iff.2 ?_
      change Moves k false p image (.ok (), p.put (image.block k.config.sectorsPerBlock s.block)) image
      rw [hread, put_read hw]
      exact .moved p.scratch hp.scratch h
    · refine BlockProgram.yields_done_iff.2 ?_
      change Moves k false p image (.error .invalidBlock, p.put (p.rest.take _)) image
      rw [put_take hlen]
      exact .refused p.scratch hp.scratch h
  · next hpart =>
    refine BlockProgram.yields_transfer hpos hp.sector hp.scratch hblock (fun h => ?_) fun h => ?_
    · refine BlockProgram.yields_ofChecked fun _ _ => BlockProgram.yields_ofChecked fun part hslice => ?_
      refine BlockProgram.yields_done_iff.2 ?_
      have hpart : part = image.read p.sector (p.spanCount k) := by
        rw [Bytes.of_sliceChecked hslice]
        change (image.block k.config.sectorsPerBlock s.block).slice s.offset s.length = _
        rw [Image.block, hoffset, hlength, Image.slice_read hw hfits, hblock, Nat.mul_comm]
        congr 1
      rw [hpart, put_read hw]
      exact .moved _ (length_block hw hsize s.block) h
    · refine BlockProgram.yields_done_iff.2 ?_
      exact .refused p.scratch hp.scratch h

private theorem Moves.of_scratch {write : Bool} {scratch : Bytes}
    {r : Except BlockError Unit × SectorProgress} {image' : Image}
    (h : Moves k write { p with scratch } image r image') : Moves k write p image r image' := by
  cases h with
  | moved scratch hlen h => exact .moved scratch hlen h
  | refused scratch hlen h => exact .refused scratch hlen h

/-- Writing the scratch block moves a span from the buffer to the image, if the span is the whole
block or the scratch block has the bytes of the block. -/
private theorem flushSpan_yields (valid : k.config.isValid = true) (hw : image.Whole) (hp : p.Fits k)
    (hs : Span.first p.sector p.remaining k.config.sectorsPerBlock = .ok s)
    (hstaged : p.sector < k.reach → p.spanCount k = k.config.sectorsPerBlock ∨
      p.scratch = image.block k.config.sectorsPerBlock s.block) :
    (p.flushSpan s).Yields k image (p.Moves k true image) := by
  obtain ⟨hsize, hpos, -⟩ := DriveConfig.block_of_isValid valid
  obtain ⟨hblock, hoffset, hlength⟩ := Span.first_fields hs
  have hfits := spanCount_fits (p := p) hpos
  have hdiv := Nat.div_add_mod p.sector k.config.sectorsPerBlock
  apply BlockProgram.yields_ofChecked
  intro part hpart
  apply BlockProgram.yields_ofChecked
  intro staged hsplice
  obtain ⟨rfl, hlen⟩ := of_next hpart
  obtain ⟨hfit, -, rfl⟩ := Bytes.of_spliceChecked hsplice
  have hkept : (p.scratch.splice s.offset (p.rest.take s.length)).length = k.config.blockSize := by
    rw [Bytes.length_splice (by rw [hlen]; exact hfit), hp.scratch]
  rw [hlength] at hlen
  refine BlockProgram.yields_transfer hpos hp.sector hkept hblock (fun h => ?_) fun h => ?_
  · have hwrite : image.setBlock k.config.sectorsPerBlock s.block
        (p.scratch.splice s.offset (p.rest.take s.length)) =
        (image.moved true p.sector (p.spanCount k) p.rest).2 := by
      change _ = image.write p.sector (p.rest.take (sectorSize * p.spanCount k))
      rw [hlength, hoffset]
      rcases hstaged h with hwhole | hscratch
      · have hskipped : p.sector % k.config.sectorsPerBlock = 0 := by omega
        rw [hskipped, Nat.mul_zero, Bytes.splice_zero (by rw [hp.scratch, hlen, hsize, hwhole]),
          ← Image.write_block hw hpos (by rw [hlen, hwhole]), hblock, Nat.mul_comm]
        congr 1
        omega
      · rw [hscratch, Image.setBlock_splice hw hpos hlen hfits, hblock, Nat.mul_comm]
        congr 1
    refine BlockProgram.yields_done_iff.2 ?_
    change Moves k true p image _ (image.setBlock _ _ _)
    rw [hwrite]
    exact .moved _ hkept h
  · refine BlockProgram.yields_done_iff.2 ?_
    exact .refused _ hkept h

private theorem writeSpan_yields (valid : k.config.isValid = true) (hw : image.Whole) (hp : p.Fits k)
    (hs : Span.first p.sector p.remaining k.config.sectorsPerBlock = .ok s) :
    (p.writeSpan k.config.blockSize s).Yields k image (p.Moves k true image) := by
  obtain ⟨hsize, hpos, -⟩ := DriveConfig.block_of_isValid valid
  obtain ⟨hblock, hoffset, hlength⟩ := Span.first_fields hs
  rw [writeSpan]
  split
  · next hfull =>
    rw [hlength, hsize] at hfull
    exact flushSpan_yields valid hw hp hs fun _ =>
      .inl (Nat.eq_of_mul_eq_mul_left (by decide) hfull)
  · refine BlockProgram.yields_transfer hpos hp.sector hp.scratch hblock (fun h => ?_) fun h => ?_
    · have hflush := flushSpan_yields (p := { p with
          scratch := image.block k.config.sectorsPerBlock s.block }) valid hw
        ⟨length_block hw hsize s.block, hp.rest, hp.sector⟩ hs fun _ => .inr rfl
      exact fun r image' hr => (hflush r image' hr).of_scratch
    · refine BlockProgram.yields_done_iff.2 ?_
      exact .refused p.scratch hp.scratch h

/-! ### All spans -/

/-- A transfer has moved the sectors within reach, and has failed if there were others. -/
structure Ends (k : DriveParameters) (write : Bool) (p : SectorProgress) (image : Image) (o : SectorOutcome)
    (image' : Image) : Prop where
  scratch : o.scratch.length = k.config.blockSize
  result : o.result = if k.within p.sector p.remaining = p.remaining then .ok ()
    else .error .invalidBlock
  buffer : o.buffer = p.passed.reverse.flatten ++
    (image.moved write p.sector (k.within p.sector p.remaining) p.rest).1
  image : image' = (image.moved write p.sector (k.within p.sector p.remaining) p.rest).2

private theorem ends_nothing {write : Bool} {result : Except BlockError Unit} {scratch : Bytes}
    (hscratch : scratch.length = k.config.blockSize) (hzero : k.within p.sector p.remaining = 0)
    (hresult : result = if 0 = p.remaining then .ok () else .error .invalidBlock) :
    Ends k write p image (finish { p with scratch } result) image := by
  refine ⟨hscratch, by rw [hzero]; exact hresult, ?_, ?_⟩
  · rw [hzero, Image.moved_zero]
    rfl
  · rw [hzero, Image.moved_zero]

private theorem of_advance {q : SectorProgress} {count : Nat} (h : p.advance s = .ok q)
    (hlength : s.length = sectorSize * count) :
    p.sector + count < wordLimit ∧ q = ⟨p.sector + count, p.remaining - count,
      p.position + s.length, p.rest.take s.length :: p.passed, p.rest.drop s.length, p.scratch⟩ := by
  rw [advance] at h
  obtain ⟨n, hn, h⟩ := Checked.exists_of_bind h
  obtain ⟨sector, hsector, h⟩ := Checked.exists_of_bind h
  obtain ⟨remaining, hremaining, h⟩ := Checked.exists_of_bind h
  obtain ⟨position, hposition, h⟩ := Checked.exists_of_bind h
  have hcount : n = count := by
    rw [Checked.of_div hn, hlength]
    exact Nat.mul_div_cancel_left _ (by decide)
  obtain ⟨hlt, hsum⟩ := Checked.of_add hsector
  cases h
  rw [hcount] at hlt hsum hremaining
  exact ⟨hlt, by rw [hsum, (Checked.of_sub hremaining).2, (Checked.of_add hposition).2]⟩

/-- Once a span has been moved, what the rest of the transfer comes to is what the whole comes to. -/
private theorem Ends.of_moved {write : Bool} {count : Nat} {scratch : Bytes} {position : Nat}
    (hw : image.Whole)
    (hrest : sectorSize * p.remaining ≤ p.rest.length) (hcount : count ≤ p.remaining)
    (hreach : p.sector + count ≤ k.reach) {o : SectorOutcome} {image' : Image}
    (h : Ends k write
      ⟨p.sector + count, p.remaining - count, position,
        (image.moved write p.sector count p.rest).1.take (sectorSize * count) :: p.passed,
        (image.moved write p.sector count p.rest).1.drop (sectorSize * count), scratch⟩
      (image.moved write p.sector count p.rest).2 o image') : Ends k write p image o image' := by
  have hlen : sectorSize * count ≤ p.rest.length :=
    Nat.le_trans (Nat.mul_le_mul_left _ hcount) hrest
  have hwithin : k.within p.sector p.remaining =
      count + k.within (p.sector + count) (p.remaining - count) := by
    rw [DriveParameters.within, DriveParameters.within]
    omega
  obtain ⟨hscratch, hresult, hbuffer, himage⟩ := h
  simp only [Image.drop_moved hw] at hbuffer himage
  refine ⟨hscratch, ?_, ?_, ?_⟩
  · rw [hresult, hwithin]
    by_cases hall : k.within (p.sector + count) (p.remaining - count) = p.remaining - count
    · rw [if_pos hall, if_pos (by omega)]
    · rw [if_neg hall, if_neg (by omega)]
  · rw [hbuffer, hwithin, Image.moved_add hw hlen, List.reverse_cons, List.flatten_append,
      List.flatten_cons, List.flatten_nil, List.append_nil, List.append_assoc]
  · rw [himage, hwithin, Image.moved_add hw hlen]

private theorem transferSpans_yields (hpos : 0 < k.config.sectorsPerBlock) {write : Bool}
    {step : SectorProgress → Span → BlockProgram (Except BlockError Unit × SectorProgress)}
    (hstep : ∀ (p : SectorProgress) (image : Image) (s : Span), image.Whole → p.Fits k →
      Span.first p.sector p.remaining k.config.sectorsPerBlock = .ok s →
        (step p s).Yields k image (p.Moves k write image)) (bound : Nat) (hw : image.Whole)
    (hp : p.Fits k) (hbound : p.remaining ≤ bound) :
    (transferSpans step k.config.sectorsPerBlock bound p).Yields k image (Ends k write p image) := by
  induction bound generalizing p image with
  | zero =>
    have hzero : p.remaining = 0 := by omega
    refine BlockProgram.yields_done_iff.2 (ends_nothing hp.scratch ?_ ?_)
    · rw [hzero, DriveParameters.within, Nat.zero_min]
    · rw [hzero, if_pos rfl]
  | succ bound ih =>
    rw [transferSpans]
    split
    · next hzero =>
      refine BlockProgram.yields_done_iff.2 (ends_nothing hp.scratch ?_ ?_)
      · rw [hzero, DriveParameters.within, Nat.zero_min]
      · rw [hzero, if_pos rfl]
    · next hsome =>
      refine BlockProgram.yields_ofChecked fun s hs => BlockProgram.Yields.bind ?_
      intro r image₁ hr
      have hmoves := hstep p image s hw hp hs r image₁ hr
      obtain ⟨-, -, hlength⟩ := Span.first_fields hs
      cases hmoves with
      | refused scratch hlen h =>
        refine BlockProgram.yields_done_iff.2 (ends_nothing hlen ?_ ?_)
        · rw [DriveParameters.within, Nat.sub_eq_zero_of_le h, Nat.min_zero]
        · rw [if_neg (Ne.symm hsome)]
      | moved scratch hlen h =>
        apply BlockProgram.yields_ofChecked
        intro q hq
        obtain ⟨hlt, rfl⟩ := of_advance hq hlength
        have hcount : p.spanCount k ≤ p.remaining := Nat.min_le_right ..
        have hblock : p.spanCount k ≤
            k.config.sectorsPerBlock - p.sector % k.config.sectorsPerBlock := Nat.min_le_left ..
        have hmod := Nat.mod_lt p.sector hpos
        have hsome' : 0 < p.spanCount k := by
          rw [spanCount]
          omega
        have hbytes : sectorSize * p.spanCount k ≤ p.rest.length :=
          Nat.le_trans (Nat.mul_le_mul_left _ hcount) hp.rest
        rw [hlength]
        intro o image' ho
        refine (ih (Image.whole_moved hw hbytes) ⟨hlen, ?_, hlt⟩ ?_ o image' ho).of_moved hw hp.rest
          hcount (DriveParameters.add_le_reach hpos h hlt hblock)
        · rw [List.length_drop, Image.length_moved hw hbytes, Nat.mul_sub]
          exact Nat.sub_le_sub_right hp.rest _
        · change p.remaining - p.spanCount k ≤ bound
          omega

end SectorProgress

def transferSectors (write : Bool) (blockSize : Nat) (buffer : Bytes) (start count : Nat)
    (scratch : Bytes) : BlockProgram SectorOutcome :=
  if write then writeSectors blockSize buffer start count scratch
  else readSectors blockSize buffer start count scratch

private theorem checkBuffers_of_isValid {config : DriveConfig} (valid : config.isValid = true)
    {length count : Nat} (hlimit : count * sectorSize < wordLimit)
    (hlen : sectorSize * count ≤ length) :
    checkBuffers config.blockSize length count config.blockSize = .ok config.sectorsPerBlock := by
  obtain ⟨hsize, hpos, -⟩ := DriveConfig.block_of_isValid valid
  have hleast : sectorSize ≤ config.blockSize := by
    rw [hsize]
    exact Nat.le_mul_of_pos_right _ hpos
  have hwhole : config.blockSize % sectorSize = 0 := by
    rw [hsize]
    exact Nat.mul_mod_right _ _
  rw [Nat.mul_comm] at hlen
  rw [checkBuffers, if_neg (by omega), if_neg (by omega), if_neg (by omega)]
  rfl

theorem transferSectors_of_error {write : Bool} {blockSize start count : Nat} {buffer scratch : Bytes}
    {e : BlockError} (h : checkBuffers blockSize buffer.length count scratch.length = .error e) :
    transferSectors write blockSize buffer start count scratch =
      .done ⟨.error e, buffer, scratch⟩ := by
  rw [transferSectors, writeSectors, readSectors, h, ite_self]

theorem checkBuffers_of_limit {blockSize length count scratchLength : Nat}
    (hlimit : wordLimit ≤ count * sectorSize) :
    checkBuffers blockSize length count scratchLength = .error .invalidBufferSize := by
  rw [checkBuffers, if_pos hlimit, ite_self]

theorem transferSectors_yields {k : DriveParameters} {image : Image} (valid : k.config.isValid = true)
    (hw : image.Whole) (write : Bool) {buffer scratch : Bytes} {start count : Nat}
    (hstart : start < wordLimit) (hlimit : count * sectorSize < wordLimit)
    (hlen : sectorSize * count ≤ buffer.length)
    (hscratch : scratch.length = k.config.blockSize) :
    (transferSectors write k.config.blockSize buffer start count scratch).Yields k image
      fun o image' => o.scratch.length = k.config.blockSize ∧
        o.result = (if k.within start count = count then .ok () else .error .invalidBlock) ∧
        (o.buffer, image') = image.moved write start (k.within start count) buffer := by
  obtain ⟨-, hpos, -⟩ := DriveConfig.block_of_isValid valid
  have hcheck := checkBuffers_of_isValid valid hlimit hlen
  rw [← hscratch] at hcheck
  have hfits : (SectorProgress.start start count buffer scratch).Fits k :=
    ⟨hscratch, hlen, hstart⟩
  have hends : ∀ {o : SectorOutcome} {image' : Image},
      SectorProgress.Ends k write (.start start count buffer scratch) image o image' →
        o.scratch.length = k.config.blockSize ∧
          o.result = (if k.within start count = count then .ok () else .error .invalidBlock) ∧
          (o.buffer, image') = image.moved write start (k.within start count) buffer :=
    fun h => ⟨h.scratch, h.result, Prod.ext h.buffer h.image⟩
  intro o image' hr
  rw [transferSectors] at hr
  cases write with
  | true =>
    rw [if_pos rfl, writeSectors, ← hscratch, hcheck, hscratch] at hr
    exact hends (SectorProgress.transferSpans_yields hpos
      (fun p image s hw hp hs => SectorProgress.writeSpan_yields valid hw hp hs) count hw hfits
      (Nat.le_refl _) o image' hr)
  | false =>
    rw [if_neg Bool.false_ne_true, readSectors, ← hscratch, hcheck, hscratch] at hr
    exact hends (SectorProgress.transferSpans_yields hpos
      (fun p image s hw hp hs => SectorProgress.readSpan_yields valid hw hp hs) count hw hfits
      (Nat.le_refl _) o image' hr)

end DiskStack
