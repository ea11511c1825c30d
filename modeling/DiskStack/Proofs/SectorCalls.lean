import DiskStack.Proofs.Transfers
import DiskStack.Registry.Access

/-!
# Disk operations as calls at an array of sectors

A sector store has an image and answers one read or write of a range of sectors per task, each at
once. What a disk operation does with the blocks of a drive, while it keeps the scratch block, is what
the store does at once.
-/

namespace DiskStack

structure SectorCall where
  write : Bool
  sector : UInt64
  count : UInt64
  buffer : Bytes
  deriving DecidableEq

namespace SectorCall

/-- What a call returns of how its operation ended. Writing leaves the buffer alone. -/
def reply (c : SectorCall) (o : DiskOutcome) : Reply :=
  if c.write then .disk o.result else .diskBuffer o

def program (b : BayId) (config : DriveConfig) (c : SectorCall) : Program Reply :=
  if c.write then do
    return .disk (← writeDrive (some (b, config)) c.buffer c.sector.toNat c.count.toNat).result
  else do
    return .diskBuffer (← readDrive (some (b, config)) c.buffer c.sector.toNat c.count.toNat)

end SectorCall

namespace DriveParameters

/-- Why a call is refused before it takes the scratch block. -/
def refusal? (k : DriveParameters) (c : SectorCall) : Option DiskError :=
  if c.write && k.readOnly then some .writeProtected
  else if isShort c.buffer c.count.toNat then some .parameter
  else none

/-- Serves a call at once: the sectors within reach are moved, and it has failed if there are others. -/
def transfer (k : DriveParameters) (c : SectorCall) (image : Image) : DiskOutcome × Image :=
  if wordLimit ≤ c.count.toNat * sectorSize then (.refuse .parameter c.buffer, image)
  else
    let n := k.within c.sector.toNat c.count.toNat
    let (buffer, image) := image.moved c.write c.sector.toNat n c.buffer
    (⟨if n = c.count.toNat then .ok () else .error .failed, buffer⟩, image)

end DriveParameters

inductive SectorTurn
  | asked (c : SectorCall)
  | answered (r : Reply)

structure SectorStore where
  image : Image
  turns : TaskId → Option SectorTurn

namespace SectorStore

def put (d : SectorStore) (t : TaskId) (x : Option SectorTurn) : SectorStore :=
  { d with turns := fun u => if u = t then x else d.turns u }

theorem put_self {d : SectorStore} {t : TaskId} {x : Option SectorTurn} (h : d.turns t = x) :
    d.put t x = d := by
  have hturns : (fun u => if u = t then x else d.turns u) = d.turns := funext fun u => by
    split
    · next hu => rw [hu, h]
    · rfl
  rw [put, hturns]

theorem turns_put (d : SectorStore) (t u : TaskId) (x : Option SectorTurn) :
    (d.put t x).turns u = if u = t then x else d.turns u := rfl

/-- One step of a sector store and what is seen of it. Calls are served as they take the scratch
block; the requests that this takes are not seen. -/
inductive Step (k : DriveParameters) (d : SectorStore) : List (Incident SectorCall) → SectorStore → Prop
  | still : Step k d [] d
  | execute (t : TaskId) : Step k d [.execute t] d
  | call (t : TaskId) (c : SectorCall) (h : d.turns t = none) :
    Step k d [.call t c] (d.put t (some (.asked c)))
  | refuse (t : TaskId) (c : SectorCall) (e : DiskError) (h : d.turns t = some (.asked c))
    (he : k.refusal? c = some e) :
    Step k d [] (d.put t (some (.answered (c.reply (.refuse e c.buffer)))))
  | serve (t : TaskId) (c : SectorCall) (h : d.turns t = some (.asked c))
    (he : k.refusal? c = none) :
    Step k d [.scratch t]
      ({ d with image := (k.transfer c d.image).2 }.put t
        (some (.answered (c.reply (k.transfer c d.image).1))))
  | reply (t : TaskId) (r : Reply) (h : d.turns t = some (.answered r)) :
    Step k d [.reply t r] (d.put t none)

abbrev Run (k : DriveParameters) : SectorStore → List (Incident SectorCall) → SectorStore → Prop :=
  Runs (Step k)

end SectorStore

def Incident.scratch? {γ : Type} : Incident γ → Option TaskId
  | .scratch t => some t
  | _ => none

/-! ### Calls one after another -/

namespace DriveParameters

/-- The image after calls that are served one after another. -/
def serial (k : DriveParameters) (image : Image) (calls : List (TaskId × SectorCall)) : Image :=
  calls.foldl (fun image p => (k.transfer p.2 image).2) image

def extent (k : DriveParameters) (c : SectorCall) : Nat :=
  if wordLimit ≤ c.count.toNat * sectorSize then 0 else k.within c.sector.toNat c.count.toNat

def Writes (k : DriveParameters) (c : SectorCall) (i : Nat) : Prop :=
  c.write = true ∧ c.sector.toNat ≤ i ∧ i < c.sector.toNat + k.extent c

variable {k : DriveParameters} {c : SectorCall} {image : Image} {calls : List (TaskId × SectorCall)}

theorem length_of_refusal (hrefuse : k.refusal? c = none)
    (hlimit : ¬wordLimit ≤ c.count.toNat * sectorSize) :
    sectorSize * c.count.toNat ≤ c.buffer.length := by
  have hshort : ¬isShort c.buffer c.count.toNat = true := fun hshort => by
    rw [refusal?, hshort, if_pos rfl] at hrefuse
    split at hrefuse <;> cases hrefuse
  rw [isShort, decide_eq_true_eq] at hshort
  rw [Nat.mul_comm]
  omega

private theorem length_of_extent (hrefuse : k.refusal? c = none) :
    sectorSize * k.extent c ≤ c.buffer.length := by
  rw [extent]
  split
  · exact Nat.zero_le _
  · next hlimit =>
    have hwithin : k.within c.sector.toNat c.count.toNat ≤ c.count.toNat := Nat.min_le_left ..
    exact Nat.le_trans (Nat.mul_le_mul_left _ hwithin) (length_of_refusal hrefuse hlimit)

private theorem image_transfer (k : DriveParameters) (c : SectorCall) (image : Image) :
    (k.transfer c image).2 = (image.moved c.write c.sector.toNat (k.extent c) c.buffer).2 := by
  rw [transfer, extent]
  split
  · rw [Image.moved_zero]
  · rfl

private theorem whole_transfer (hw : image.Whole) (hrefuse : k.refusal? c = none) :
    (k.transfer c image).2.Whole := by
  rw [image_transfer]
  exact Image.whole_moved hw (length_of_extent hrefuse)

/-- A call leaves the sectors alone that it does not write, those of the same block too. -/
private theorem sector_transfer_of_not_writes (hw : image.Whole) (hrefuse : k.refusal? c = none) {i : Nat}
    (hi : ¬k.Writes c i) : (k.transfer c image).2.sector i = image.sector i := by
  rw [image_transfer, Image.sector_moved hw (length_of_extent hrefuse)]
  exact if_neg hi

private theorem sector_transfer_of_writes (hw : image.Whole) (hrefuse : k.refusal? c = none) {i : Nat}
    (hi : k.Writes c i) :
    (k.transfer c image).2.sector i =
      c.buffer.slice (sectorSize * (i - c.sector.toNat)) sectorSize := by
  rw [image_transfer, Image.sector_moved hw (length_of_extent hrefuse)]
  exact if_pos hi

private theorem whole_serial (hw : image.Whole) (hcalls : ∀ p ∈ calls, k.refusal? p.2 = none) :
    (k.serial image calls).Whole := by
  induction calls generalizing image with
  | nil => exact hw
  | cons p calls ih =>
    obtain ⟨hp, hrest⟩ := List.forall_mem_cons.1 hcalls
    exact ih (whole_transfer hw hp) hrest

private theorem sector_serial_of_not_writes (hw : image.Whole)
    (hcalls : ∀ p ∈ calls, k.refusal? p.2 = none) {i : Nat}
    (hout : ∀ p ∈ calls, ¬k.Writes p.2 i) : (k.serial image calls).sector i = image.sector i := by
  induction calls generalizing image with
  | nil => rfl
  | cons p calls ih =>
    obtain ⟨hp, hrest⟩ := List.forall_mem_cons.1 hcalls
    obtain ⟨hpi, hresti⟩ := List.forall_mem_cons.1 hout
    rw [← sector_transfer_of_not_writes hw hp hpi]
    exact ih (whole_transfer hw hp) hrest hresti

theorem sector_serial_of_last (hw : image.Whole) {before after : List (TaskId × SectorCall)}
    {t : TaskId} (hcalls : ∀ p ∈ before ++ (t, c) :: after, k.refusal? p.2 = none) {i : Nat}
    (hi : k.Writes c i) (hlast : ∀ p ∈ after, ¬k.Writes p.2 i) :
    (k.serial image (before ++ (t, c) :: after)).sector i =
      c.buffer.slice (sectorSize * (i - c.sector.toNat)) sectorSize := by
  obtain ⟨hbefore, hrest⟩ := List.forall_mem_append.1 hcalls
  obtain ⟨hc, hafter⟩ := List.forall_mem_cons.1 hrest
  have hmid : (k.serial image before).Whole := whole_serial hw hbefore
  have hsplit : k.serial image (before ++ (t, c) :: after) =
      k.serial (k.transfer c (k.serial image before)).2 after := by
    rw [serial, List.foldl_append]
    rfl
  rw [hsplit, sector_serial_of_not_writes (whole_transfer hmid hc) hafter hlast]
  exact sector_transfer_of_writes hmid hc hi

end DriveParameters

namespace SectorStore

variable {k : DriveParameters} {d d' : SectorStore} {l trace : List (Incident SectorCall)}

private theorem Run.called (h : Run k d trace d') (hd : ∀ t, d.turns t = none) {t : TaskId} {c : SectorCall}
    (ht : d'.turns t = some (.asked c)) : .call t c ∈ trace := by
  have hput : ∀ {e : SectorStore} {u : TaskId} {x : Option SectorTurn},
      x ≠ some (.asked c) → (e.put u x).turns t = some (.asked c) → e.turns t = some (.asked c) :=
    fun hx h => by
      rw [turns_put] at h
      split at h
      · exact absurd h hx
      · exact h
  induction h with
  | refl =>
    rw [hd t] at ht
    cases ht
  | step _ step ih =>
    rw [List.mem_append]
    cases step with
    | still => exact .inl (ih ht)
    | execute => exact .inl (ih ht)
    | call u c' =>
      rw [turns_put] at ht
      split at ht
      · next hu =>
        cases ht
        rw [hu]
        exact .inr (List.mem_singleton_self _)
      · exact .inl (ih ht)
    | refuse => exact .inl (ih (hput (by simp) ht))
    | serve => exact .inl (ih (hput (by simp) ht))
    | reply => exact .inl (ih (hput (by simp) ht))

/-- A step serves the task whose turn with the scratch block is seen, if any. -/
theorem Step.serial (h : Step k d l d') :
    ∃ calls, calls.map Prod.fst = l.filterMap Incident.scratch? ∧
      (∀ p ∈ calls, d.turns p.1 = some (.asked p.2) ∧ k.refusal? p.2 = none) ∧
      d'.image = k.serial d.image calls := by
  cases h with
  | serve t c h he =>
    refine ⟨[(t, c)], rfl, fun p hp => ?_, rfl⟩
    rw [List.mem_singleton] at hp
    rw [hp]
    exact ⟨h, he⟩
  | _ => exact ⟨[], rfl, fun p hp => absurd hp List.not_mem_nil, rfl⟩

/-- The image after a run is that of the served calls, one after another in the order in which they
took the scratch block. -/
theorem Run.serial (h : Run k d trace d') (hd : ∀ t, d.turns t = none) :
    ∃ calls, calls.map Prod.fst = trace.filterMap Incident.scratch? ∧
      (∀ p ∈ calls, .call p.1 p.2 ∈ trace ∧ k.refusal? p.2 = none) ∧
      d'.image = k.serial d.image calls := by
  induction h with
  | refl => exact ⟨[], rfl, fun p hp => absurd hp List.not_mem_nil, rfl⟩
  | step run step ih =>
    obtain ⟨calls, horder, hcalls, himage⟩ := ih
    obtain ⟨calls', horder', hcalls', himage'⟩ := step.serial
    refine ⟨calls ++ calls', ?_, fun p hp => ?_, ?_⟩
    · rw [List.map_append, List.filterMap_append, horder, horder']
    · rcases List.mem_append.1 hp with hp | hp
      · exact ⟨List.mem_append_left _ (hcalls p hp).1, (hcalls p hp).2⟩
      · have hcalled := Run.called run hd (hcalls' p hp).1
        exact ⟨List.mem_append_left _ hcalled, (hcalls' p hp).2⟩
    · rw [himage', himage, DriveParameters.serial, DriveParameters.serial, DriveParameters.serial,
        List.foldl_append]

end SectorStore

namespace Program

variable {α β : Type} {b : BayId}

private theorem Asks.bind {p : Program α} {f : α → Program β} (hp : p.Asks b) (hf : ∀ a, (f a).Asks b) :
    (p.bind f).Asks b := by
  induction hp with
  | done a => exact hf a
  | halt h => exact .halt h
  | inspect next _ ih => exact .inspect _ ih
  | submit a next _ ih => exact .submit a _ ih
  | takeScratch next _ ih => exact .takeScratch _ ih
  | giveScratch scratch next _ ih => exact .giveScratch scratch _ ih

private theorem asks_ofBlocks (b : BayId) (p : BlockProgram α) : (ofBlocks b p).Asks b := by
  induction p with
  | done a => exact .done a
  | halt h => exact .halt h
  | access a next ih => exact .submit a _ fun r => ih _

private theorem asks_withScratch (b : BayId) (transfer : Bytes → BlockProgram SectorOutcome) :
    (withScratch b transfer).Asks b :=
  .takeScratch _ fun scratch => (asks_ofBlocks b (transfer scratch)).bind fun o =>
    .giveScratch o.scratch _ (.done _)

private theorem asks_readDrive (b : BayId) (config : DriveConfig) (buffer : Bytes) (sector count : Nat) :
    (readDrive (some (b, config)) buffer sector count).Asks b := by
  refine .inspect _ fun s => ?_
  change Program.Asks b (if !s.isReady then .done (DiskOutcome.refuse .notReady buffer)
    else if isShort buffer count then .done (DiskOutcome.refuse .parameter buffer)
    else withScratch b (readSectors config.blockSize buffer sector count))
  split
  · exact .done _
  · split
    · exact .done _
    · exact asks_withScratch b _

private theorem asks_writeDrive (b : BayId) (config : DriveConfig) (buffer : Bytes) (sector count : Nat) :
    (writeDrive (some (b, config)) buffer sector count).Asks b := by
  refine .inspect _ fun s => ?_
  change Program.Asks b (if !s.isReady then .done (DiskOutcome.refuse .notReady buffer)
    else .inspect b fun s => if s.isReadOnly then .done (DiskOutcome.refuse .writeProtected buffer)
      else if isShort buffer count then .done (DiskOutcome.refuse .parameter buffer)
      else withScratch b (writeSectors config.blockSize buffer sector count))
  split
  · exact .done _
  · refine .inspect _ fun s => ?_
    split
    · exact .done _
    · split
      · exact .done _
      · exact asks_withScratch b _

end Program

namespace SectorCall

variable {k : DriveParameters} {c : SectorCall} {b : BayId}

theorem asks_program (b : BayId) (config : DriveConfig) (c : SectorCall) :
    (c.program b config).Asks b := by
  rw [program]
  split
  · exact (Program.asks_writeDrive b config _ _ _).bind fun _ => .done _
  · exact (Program.asks_readDrive b config _ _ _).bind fun _ => .done _

/-- A call that keeps the scratch block, as far as its transfer has come. -/
def working (b : BayId) (c : SectorCall) (p : BlockProgram SectorOutcome) : Program Reply :=
  (Program.ofBlocks b p).bind fun o => .giveScratch b o.scratch (.done (c.reply (.ofSectors o)))

/-- A call that is to take the scratch block. -/
def locking (k : DriveParameters) (c : SectorCall) : Program Reply :=
  .takeScratch k.bay fun scratch => c.working k.bay
    (transferSectors c.write k.config.blockSize c.buffer c.sector.toNat c.count.toNat scratch)

/-- A call whose drive and buffer have been checked. -/
def checked (k : DriveParameters) (c : SectorCall) : Program Reply :=
  match k.refusal? c with
  | some e => .done (c.reply (.refuse e c.buffer))
  | none => c.locking k

/-- A call that looks at the state of the drive, once or more often, before it goes on as checked. -/
inductive Looks (k : DriveParameters) (c : SectorCall) : Program Reply → Prop
  | last (next : DriveState → Program Reply)
    (h : ∀ s, k.Fits s → next (.ready s) = c.checked k) : Looks k c (.inspect k.bay next)
  | more (next : DriveState → Program Reply) (h : ∀ s, k.Fits s → Looks k c (next (.ready s))) :
    Looks k c (.inspect k.bay next)

private theorem withScratch_eq (f : DiskOutcome → Program Reply) (hf : ∀ o, f o = .done (c.reply o)) :
    (withScratch k.bay (transferSectors c.write k.config.blockSize c.buffer c.sector.toNat
      c.count.toNat)).bind f = c.locking k := by
  have hreply : f = fun o => .done (c.reply o) := funext hf
  subst hreply
  have hbind : ∀ (p : BlockProgram SectorOutcome),
      ((Program.ofBlocks k.bay p).bind fun o =>
        (Program.giveScratch k.bay o.scratch (.done (DiskOutcome.ofSectors o)))).bind
          (fun o => .done (c.reply o)) = c.working k.bay p := fun p => by
    induction p with
    | done o => rfl
    | halt h => rfl
    | access a next ih => exact congrArg (Program.submit k.bay a) (funext fun r => ih _)
  exact congrArg (Program.takeScratch k.bay) (funext fun scratch => hbind _)

theorem looks_program (k : DriveParameters) (c : SectorCall) : c.Looks k (c.program k.bay k.config) := by
  cases hw : c.write with
  | true =>
    have hreply : ∀ o : DiskOutcome, Program.done (Reply.disk o.result) = .done (c.reply o) :=
      fun o => by
        rw [reply, hw]
        rfl
    have hlocking := withScratch_eq (k := k) (c := c) _ hreply
    rw [program, hw, if_pos rfl]
    refine .more _ fun s hs => .last _ fun s' hs' => ?_
    change Program.bind (if s'.readOnly then
      .done (DiskOutcome.refuse .writeProtected c.buffer) else if isShort c.buffer c.count.toNat then
      .done (DiskOutcome.refuse .parameter c.buffer) else
      withScratch k.bay (writeSectors k.config.blockSize c.buffer c.sector.toNat c.count.toNat))
        (fun o => Program.done (Reply.disk o.result)) = _
    rw [checked, DriveParameters.refusal?, hw, Bool.true_and, hs'.readOnly]
    split
    · exact hreply _
    · split
      · exact hreply _
      · rw [hw] at hlocking
        exact hlocking
  | false =>
    have hreply : ∀ o : DiskOutcome, Program.done (Reply.diskBuffer o) = .done (c.reply o) :=
      fun o => by
        rw [reply, hw]
        rfl
    have hlocking := withScratch_eq (k := k) (c := c) _ hreply
    rw [program, hw, if_neg Bool.false_ne_true]
    refine .last _ fun s hs => ?_
    change Program.bind (if isShort c.buffer c.count.toNat then
      .done (DiskOutcome.refuse .parameter c.buffer) else
      withScratch k.bay (readSectors k.config.blockSize c.buffer c.sector.toNat c.count.toNat))
        (fun o => Program.done (Reply.diskBuffer o)) = _
    rw [checked, DriveParameters.refusal?, hw, Bool.false_and, if_neg Bool.false_ne_true]
    split
    · exact hreply _
    · rw [hw] at hlocking
      exact hlocking

/-- The outcome of a transfer that gives a reply, leaves an image and keeps the scratch block whole. -/
structure Settles (k : DriveParameters) (c : SectorCall) (goal : Image) (r : Reply) (o : SectorOutcome)
    (image : Image) : Prop where
  scratch : o.scratch.length = k.config.blockSize
  reply : c.reply (.ofSectors o) = r
  image : image = goal

theorem transfer_yields (valid : k.config.isValid = true) {image : Image} (hw : image.Whole)
    (hrefuse : k.refusal? c = none) {scratch : Bytes}
    (hscratch : scratch.length = k.config.blockSize) :
    (transferSectors c.write k.config.blockSize c.buffer c.sector.toNat c.count.toNat
      scratch).Yields k image
        (c.Settles k (k.transfer c image).2 (c.reply (k.transfer c image).1)) := by
  by_cases hlimit : wordLimit ≤ c.count.toNat * sectorSize
  · rw [transferSectors_of_error (checkBuffers_of_limit hlimit), DriveParameters.transfer, if_pos hlimit]
    exact BlockProgram.yields_done_iff.2 ⟨hscratch, rfl, rfl⟩
  · have hlen := DriveParameters.length_of_refusal hrefuse hlimit
    have hyields := transferSectors_yields valid hw c.write c.sector.toNat_lt (Nat.lt_of_not_le hlimit)
      hlen hscratch
    intro o image' ho
    obtain ⟨hkept, hresult, hmoved⟩ := hyields o image' ho
    have htransfer : k.transfer c image = (DiskOutcome.ofSectors o, image') := by
      rw [DriveParameters.transfer, if_neg hlimit]
      dsimp only
      rw [← hmoved, DiskOutcome.ofSectors, hresult]
      split <;> rfl
    rw [htransfer]
    exact ⟨hkept, rfl, rfl⟩

end SectorCall

end DiskStack
