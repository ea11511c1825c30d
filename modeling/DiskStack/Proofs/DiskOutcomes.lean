import DiskStack.Proofs.SectorStore

/-!
# What a disk operation comes to

The outcome of a disk operation on a ready drive, told in whole numbers without bounds: which check
refuses it, or which of its sectors the drive has. The checks of the code work on words, saturate and
take the capacity in sectors at one place and in blocks at another; as long as the capacity is a true
one, that makes no difference.
-/

namespace DiskStack

namespace DriveParameters

/-- How a call ends, and how many of its sectors are transferred. -/
def outcome (k : DriveParameters) (c : SectorCall) : Except DiskError Unit × Nat :=
  if c.write = true ∧ k.readOnly = true then (.error .writeProtected, 0)
  else if c.buffer.length < sectorSize * c.count.toNat then (.error .parameter, 0)
  else if c.count.toNat = 0 ∨
      ((c.sector.toNat + c.count.toNat - 1) / k.config.sectorsPerBlock + 1) *
        k.config.sectorsPerBlock ≤ k.capacity.toNat then
    (.ok (), c.count.toNat)
  else
    (.error .failed,
      k.capacity.toNat / k.config.sectorsPerBlock * k.config.sectorsPerBlock - c.sector.toNat)

/-- A call that ends as it should, on an image: the operation's outcome and the image afterwards. -/
def settled (k : DriveParameters) (c : SectorCall) (image : Image) : DiskOutcome × Image :=
  (⟨(k.outcome c).1, (image.moved c.write c.sector.toNat (k.outcome c).2 c.buffer).1⟩,
    (image.moved c.write c.sector.toNat (k.outcome c).2 c.buffer).2)

variable {k : DriveParameters} {c : SectorCall} {image : Image}

private theorem settled_of_outcome (image : Image) {e : DiskError} (h : k.outcome c = (.error e, 0)) :
    k.settled c image = (.refuse e c.buffer, image) := by
  rw [settled, h, Image.moved_zero]
  rfl

theorem settled_of_refusal (image : Image) {e : DiskError} (h : k.refusal? c = some e) :
    k.settled c image = (.refuse e c.buffer, image) := by
  apply settled_of_outcome
  rw [refusal?] at h
  rw [outcome]
  by_cases hprotected : (c.write && k.readOnly) = true
  · rw [if_pos hprotected] at h
    cases h
    rw [if_pos (Bool.and_eq_true_iff.1 hprotected)]
  · rw [if_neg hprotected] at h
    rw [if_neg (fun hc => hprotected (Bool.and_eq_true_iff.2 hc))]
    split at h
    · next hshort =>
      cases h
      rw [isShort, decide_eq_true_eq, Nat.mul_comm] at hshort
      rw [if_pos (by omega)]
    · cases h

private theorem within_eq_iff (hpos : 0 < k.config.sectorsPerBlock)
    (hcapacity : k.capacity.toNat < wordLimit - 1) (sector count : Nat) :
    k.within sector count = count ↔ count = 0 ∨
      ((sector + count - 1) / k.config.sectorsPerBlock + 1) * k.config.sectorsPerBlock ≤
        k.capacity.toNat := by
  have hlast : ((sector + count - 1) / k.config.sectorsPerBlock + 1) * k.config.sectorsPerBlock ≤
      k.capacity.toNat ↔ sector + count - 1 <
        k.capacity.toNat / k.config.sectorsPerBlock * k.config.sectorsPerBlock := by
    rw [← Nat.le_div_iff_mul_le hpos, ← Nat.div_lt_iff_lt_mul hpos]
    exact Iff.rfl
  rw [hlast, within, reach, if_neg (Nat.ne_of_lt hcapacity)]
  omega

private theorem length_of_outcome (hpos : 0 < k.config.sectorsPerBlock)
    (hcapacity : k.capacity.toNat < wordLimit - 1) (c : SectorCall) :
    sectorSize * (k.outcome c).2 ≤ c.buffer.length := by
  rw [outcome]
  split
  · exact Nat.zero_le _
  · split
    · exact Nat.zero_le _
    · next hlen =>
      split
      · exact Nat.le_of_not_lt hlen
      · next hout =>
        have hfits := within_eq_iff hpos hcapacity c.sector.toNat c.count.toNat
        rw [← hfits, within, reach, if_neg (Nat.ne_of_lt hcapacity)] at hout
        refine Nat.le_trans (Nat.mul_le_mul_left _ ?_) (Nat.le_of_not_lt hlen)
        change k.capacity.toNat / k.config.sectorsPerBlock * k.config.sectorsPerBlock -
          c.sector.toNat ≤ c.count.toNat
        omega

/-- What the first sectors of a call come to: on the image if it writes, in its buffer if it reads. -/
structure Moves (c : SectorCall) (n : Nat) (image : Image) (r : DiskOutcome × Image) : Prop where
  sector : ∀ i, r.2.sector i =
    if c.write = true ∧ c.sector.toNat ≤ i ∧ i < c.sector.toNat + n then
      c.buffer.slice (sectorSize * (i - c.sector.toNat)) sectorSize
    else image.sector i
  buffer : r.1.buffer = if c.write then c.buffer
    else image.read c.sector.toNat n ++ c.buffer.drop (sectorSize * n)
  length : r.1.buffer.length = c.buffer.length

theorem moves_settled (hpos : 0 < k.config.sectorsPerBlock)
    (hcapacity : k.capacity.toNat < wordLimit - 1) (hw : image.Whole) (c : SectorCall) :
    Moves c (k.outcome c).2 image (k.settled c image) where
  sector := Image.sector_moved hw (length_of_outcome hpos hcapacity c)
  buffer := by
    rw [settled, Image.moved]
    split <;> rfl
  length := Image.length_moved hw (length_of_outcome hpos hcapacity c)

private theorem settled_of_transfer (image : Image) (hpos : 0 < k.config.sectorsPerBlock)
    (hcapacity : k.capacity.toNat < wordLimit - 1) (hword : c.buffer.length < wordLimit)
    (h : k.refusal? c = none) : k.settled c image = k.transfer c image := by
  have hopen : ¬(c.write = true ∧ k.readOnly = true) := fun hc => by
    rw [refusal?, if_pos (Bool.and_eq_true_iff.2 hc)] at h
    cases h
  rw [transfer]
  by_cases hlimit : wordLimit ≤ c.count.toNat * sectorSize
  · rw [if_pos hlimit]
    rw [Nat.mul_comm] at hlimit
    apply settled_of_outcome
    rw [outcome, if_neg hopen, if_pos (Nat.lt_of_lt_of_le hword hlimit)]
  · have hlen := length_of_refusal h hlimit
    have hfits := within_eq_iff hpos hcapacity c.sector.toNat c.count.toNat
    have houtcome : k.outcome c =
        (if k.within c.sector.toNat c.count.toNat = c.count.toNat then .ok () else .error .failed,
          k.within c.sector.toNat c.count.toNat) := by
      rw [outcome, if_neg hopen, if_neg (Nat.not_lt.2 hlen)]
      by_cases hall : k.within c.sector.toNat c.count.toNat = c.count.toNat
      · rw [if_pos (hfits.1 hall), if_pos hall, hall]
      · rw [if_neg (fun hc => hall (hfits.2 hc)), if_neg hall]
        have hreach : k.within c.sector.toNat c.count.toNat = k.capacity.toNat /
            k.config.sectorsPerBlock * k.config.sectorsPerBlock - c.sector.toNat := by
          rw [within, reach, if_neg (Nat.ne_of_lt hcapacity)] at hall ⊢
          omega
        rw [hreach]
    rw [if_neg hlimit, settled, houtcome]

end DriveParameters

namespace SectorStore

variable {k : DriveParameters} {t u : TaskId} {c : SectorCall} {image : Image} {d d' : SectorStore}
  {x : Option SectorTurn} {l trace : List (Incident SectorCall)}

/-- A store at which one task at most has a call. -/
def only (t : TaskId) (x : Option SectorTurn) (image : Image) : SectorStore :=
  ⟨image, fun u => if u = t then x else none⟩

theorem only_put (t : TaskId) (x y : Option SectorTurn) (image : Image) :
    (only t x image).put t y = only t y image := by
  have hturns : (fun u => if u = t then y else (only t x image).turns u) =
      fun u => if u = t then y else none := funext fun u => by
    split
    · rfl
    · next hu => exact if_neg hu
  rw [put, hturns]
  rfl

private theorem of_turns_only {y : SectorTurn} (h : (only t x image).turns u = some y) :
    u = t ∧ x = some y := by
  change (if u = t then x else none) = some y at h
  split at h
  · next hu => exact ⟨hu, h⟩
  · cases h

/-- A store with the one call of a task: it is to be served, has been served, or has returned. -/
inductive Sole (k : DriveParameters) (t : TaskId) (c : SectorCall) (image : Image) : SectorStore → Prop
  | asked : Sole k t c image (only t (some (.asked c)) image)
  | answered : Sole k t c image
      (only t (some (.answered (c.reply (k.settled c image).1))) (k.settled c image).2)
  | returned : Sole k t c image (only t none (k.settled c image).2)

private theorem Sole.of_asked (hd : Sole k t c image d) {c' : SectorCall}
    (h : d.turns u = some (.asked c')) : u = t ∧ c' = c ∧ d = only t (some (.asked c)) image := by
  cases hd with
  | asked =>
    obtain ⟨hu, hx⟩ := of_turns_only h
    cases hx
    exact ⟨hu, rfl, rfl⟩
  | answered => cases (of_turns_only h).2
  | returned => cases (of_turns_only h).2

private theorem Sole.of_answered (hd : Sole k t c image d) {r : Reply}
    (h : d.turns u = some (.answered r)) : u = t ∧ r = c.reply (k.settled c image).1 ∧
      d = only t (some (.answered r)) (k.settled c image).2 := by
  cases hd with
  | asked => cases (of_turns_only h).2
  | answered =>
    obtain ⟨hu, hx⟩ := of_turns_only h
    cases hx
    exact ⟨hu, rfl, rfl⟩
  | returned => cases (of_turns_only h).2

private theorem Sole.step (hpos : 0 < k.config.sectorsPerBlock)
    (hcapacity : k.capacity.toNat < wordLimit - 1) (hword : c.buffer.length < wordLimit)
    (hd : Sole k t c image d) (h : Step k d l d') (hnone : ∀ u c', .call u c' ∉ l) :
    Sole k t c image d' ∧ (d = only t none (k.settled c image).2 → d' = d) ∧
      ∀ u r, .reply u r ∈ l → u = t ∧ r = c.reply (k.settled c image).1 ∧
        d' = only t none (k.settled c image).2 := by
  have hreturned : ∀ {u x}, (only t none (k.settled c image).2).turns u ≠ some x :=
    fun h => by cases (of_turns_only h).2
  cases h with
  | still => exact ⟨hd, fun _ => rfl, fun _ _ h => absurd h List.not_mem_nil⟩
  | execute u => exact ⟨hd, fun _ => rfl, by simp⟩
  | call u c' => exact absurd (List.mem_singleton_self _) (hnone u c')
  | refuse u c' e h he =>
    obtain ⟨rfl, rfl, rfl⟩ := hd.of_asked h
    have hsettled := DriveParameters.settled_of_refusal image he
    have hanswered : Sole k u c' image _ := .answered
    rw [hsettled] at hanswered
    rw [only_put]
    exact ⟨hanswered, fun hr => absurd (hr ▸ h) hreturned, by simp⟩
  | serve u c' h he =>
    obtain ⟨rfl, rfl, rfl⟩ := hd.of_asked h
    have hsettled := DriveParameters.settled_of_transfer image hpos hcapacity hword he
    have hanswered : Sole k u c' image _ := .answered
    rw [hsettled] at hanswered
    refine ⟨?_, fun hr => absurd (hr ▸ h) hreturned, by simp⟩
    exact only_put u (some (.asked c')) _ (k.transfer c' image).2 ▸ hanswered
  | reply u r h =>
    obtain ⟨rfl, rfl, rfl⟩ := hd.of_answered h
    rw [only_put]
    refine ⟨.returned, fun hr => absurd (hr ▸ h) hreturned, fun v r' hr => ?_⟩
    rw [List.mem_singleton] at hr
    cases hr
    exact ⟨rfl, rfl, rfl⟩

theorem Run.sole (hpos : 0 < k.config.sectorsPerBlock)
    (hcapacity : k.capacity.toNat < wordLimit - 1) (hword : c.buffer.length < wordLimit)
    (hd : Sole k t c image d) (run : Run k d trace d') (hnone : ∀ u c', .call u c' ∉ trace) :
    Sole k t c image d' ∧ ∀ u r, .reply u r ∈ trace → u = t ∧
      r = c.reply (k.settled c image).1 ∧ d' = only t none (k.settled c image).2 := by
  induction run with
  | refl => exact ⟨hd, fun _ _ h => absurd h List.not_mem_nil⟩
  | step _ next ih =>
    obtain ⟨hsole, hreplies⟩ := ih fun u c' h => hnone u c' (List.mem_append_left _ h)
    obtain ⟨hsole', hsame, hreplies'⟩ := hsole.step hpos hcapacity hword next
      fun u c' h => hnone u c' (List.mem_append_right _ h)
    refine ⟨hsole', fun u r hr => ?_⟩
    rcases List.mem_append.1 hr with hr | hr
    · obtain ⟨hu, heq, hd'⟩ := hreplies u r hr
      exact ⟨hu, heq, (hsame hd').trans hd'⟩
    · exact hreplies' u r hr

/-! ### The call of one task among others -/

/-- How far a call has come: it is to be served, has been answered as it should, or has returned. -/
inductive Answers (k : DriveParameters) (c : SectorCall) : Option SectorTurn → Prop
  | asked : Answers k c (some (.asked c))
  | answered (image : Image) : Answers k c (some (.answered (c.reply (k.settled c image).1)))
  | returned : Answers k c none

private theorem Answers.step (hpos : 0 < k.config.sectorsPerBlock)
    (hcapacity : k.capacity.toNat < wordLimit - 1) (hword : c.buffer.length < wordLimit)
    (hd : Answers k c (d.turns t)) (h : Step k d l d') (hnone : ∀ c', .call t c' ∉ l) :
    Answers k c (d'.turns t) ∧ ∀ r, .reply t r ∈ l → ∃ image, r = c.reply (k.settled c image).1 := by
  cases h with
  | still => exact ⟨hd, fun _ h => absurd h List.not_mem_nil⟩
  | execute u => exact ⟨hd, by simp⟩
  | call u c' =>
    have hu : t ≠ u := fun hu => hnone c' (hu ▸ List.mem_singleton_self _)
    rw [turns_put, if_neg hu]
    exact ⟨hd, by simp⟩
  | refuse u c' e h he =>
    refine ⟨?_, by simp⟩
    rw [turns_put]
    split
    · next hu =>
      rw [hu, h] at hd
      cases hd
      have hanswered := Answers.answered (k := k) (c := c) d.image
      rwa [DriveParameters.settled_of_refusal d.image he] at hanswered
    · exact hd
  | serve u c' h he =>
    refine ⟨?_, by simp⟩
    rw [turns_put]
    split
    · next hu =>
      rw [hu, h] at hd
      cases hd
      have hanswered := Answers.answered (k := k) (c := c) d.image
      rwa [DriveParameters.settled_of_transfer d.image hpos hcapacity hword he] at hanswered
    · exact hd
  | reply u r h =>
    rw [turns_put]
    split
    · next hu =>
      refine ⟨.returned, fun r' hr => ?_⟩
      rw [List.mem_singleton] at hr
      cases hr
      rw [hu] at hd
      rw [h] at hd
      cases hd with
      | answered image => exact ⟨image, rfl⟩
    · next hu =>
      refine ⟨hd, fun r' hr => ?_⟩
      rw [List.mem_singleton] at hr
      cases hr
      exact absurd rfl hu

/-- Whatever the other tasks do, a call is answered as it should on the image that it comes upon. -/
theorem Run.answers (hpos : 0 < k.config.sectorsPerBlock)
    (hcapacity : k.capacity.toNat < wordLimit - 1) (hword : c.buffer.length < wordLimit)
    (hd : Answers k c (d.turns t)) (run : Run k d trace d') (hnone : ∀ c', .call t c' ∉ trace) :
    Answers k c (d'.turns t) ∧
      ∀ r, .reply t r ∈ trace → ∃ image, r = c.reply (k.settled c image).1 := by
  induction run with
  | refl => exact ⟨hd, fun _ h => absurd h List.not_mem_nil⟩
  | step _ next ih =>
    obtain ⟨hold, hreplies⟩ := ih fun c' h => hnone c' (List.mem_append_left _ h)
    obtain ⟨hnew, hreplies'⟩ := hold.step hpos hcapacity hword next
      fun c' h => hnone c' (List.mem_append_right _ h)
    refine ⟨hnew, fun r hr => ?_⟩
    rcases List.mem_append.1 hr with hr | hr
    · exact hreplies r hr
    · exact hreplies' r hr

end SectorStore

end DiskStack
