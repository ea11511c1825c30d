import DiskStack.Proofs.SectorCalls
import DiskStack.Proofs.SectorRanges

/-!
# A drive under its terms as a block device

A drive that carries out at once what its terms accept is a block device. If its capacity is a true
one and not the greatest word, it refuses every block that ends beyond the words, so that no transfer
on it ever counts its sectors further than that: transfers do not halt, wherever their range begins
and however long it is.
-/

namespace DiskStack

namespace BlockProgram

variable {σ τ α : Type} {submit : BlockAccess → σ → BlockReply × σ}
  {submit' : BlockAccess → τ → BlockReply × τ}

private theorem run_map (f : σ → τ)
    (h : ∀ a s, submit' a (f s) = ((submit a s).1, f (submit a s).2)) (p : BlockProgram α) (s : σ) :
    p.run submit' (f s) = ((p.run submit s).1, f (p.run submit s).2) := by
  induction p generalizing s with
  | done a => rfl
  | halt e => rfl
  | access a next ih =>
    change (next (submit' a (f s)).1).run submit' (submit' a (f s)).2 = _
    rw [h]
    exact ih (submit a s).1 (submit a s).2

end BlockProgram

namespace DriveParameters

variable {k : DriveParameters} {a : BlockAccess} {image : Image}

theorem length_of_verdict (h : k.verdict a = .ok ()) : a.data.length = k.config.blockSize := by
  by_cases hlen : a.data.length = k.config.blockSize
  · exact hlen
  · have hfirst : k.config.firstSector a.block a.data.length = .error .invalidBufferSize :=
      if_pos hlen
    rw [verdict, hfirst] at h
    cases h

private theorem serve_of_ok (h : (k.serve a image).1.result = .ok ()) :
    k.verdict a = .ok () ∧ k.serve a image = (⟨.ok (), (image.perform k.config.sectorsPerBlock a).1⟩,
      (image.perform k.config.sectorsPerBlock a).2) := by
  rw [serve] at h ⊢
  split at h
  · cases h
  · next hv =>
    rw [hv]
    exact ⟨rfl, rfl⟩

private theorem serve_of_refused (h : (k.serve a image).1.result ≠ .ok ()) :
    (k.serve a image).1.data = a.data ∧ (k.serve a image).2 = image := by
  rw [serve] at h ⊢
  cases hv : k.verdict a with
  | error e => exact ⟨rfl, rfl⟩
  | ok _ =>
    rw [hv] at h
    exact absurd rfl h

private theorem whole_serve (valid : k.config.isValid = true) (hw : image.Whole) (a : BlockAccess) :
    (k.serve a image).2.Whole := by
  obtain ⟨hsize, hpos, -⟩ := DriveConfig.block_of_isValid valid
  by_cases hok : (k.serve a image).1.result = .ok ()
  · obtain ⟨hv, hserve⟩ := serve_of_ok hok
    rw [hserve]
    exact Image.whole_perform hw hpos ((length_of_verdict hv).trans hsize)
  · rw [(serve_of_refused hok).2]
    exact hw

/-- A drive that carries out an access at once, if its terms accept it. -/
def device (k : DriveParameters) (valid : k.config.isValid = true) :
    BlockDevice { image : Image // image.Whole } where
  blockSize := k.config.blockSize
  submit a s := ((k.serve a s.1).1, ⟨(k.serve a s.1).2, whole_serve valid s.2 a⟩)
  block s := s.1.block k.config.sectorsPerBlock
  length_block s i := by
    rw [Image.block, Image.length_read s.2, (DriveConfig.block_of_isValid valid).1]
  refused a s _ hne := by
    obtain ⟨hdata, himage⟩ := serve_of_refused hne
    exact ⟨hdata, congrArg (Image.block · k.config.sectorsPerBlock) himage⟩
  read a s _ hread hok := by
    obtain ⟨-, hserve⟩ := serve_of_ok hok
    rw [Image.perform, if_neg (by rw [hread]; exact Bool.false_ne_true)] at hserve
    exact ⟨congrArg (fun r => r.1.data) hserve,
      congrArg (fun r => r.2.block k.config.sectorsPerBlock) hserve⟩
  write a s hlen hwrite hok := by
    obtain ⟨hsize, hpos, -⟩ := DriveConfig.block_of_isValid valid
    obtain ⟨-, hserve⟩ := serve_of_ok hok
    rw [Image.perform, if_pos hwrite] at hserve
    refine ⟨congrArg (fun r => r.1.data) hserve, fun i => ?_⟩
    rw [← Image.block_setBlock hpos (hlen.trans hsize)]
    exact congrArg (fun r => r.2.block k.config.sectorsPerBlock i) hserve

private theorem sectored_device (valid : k.config.isValid = true) : (k.device valid).Sectored where
  positive := by
    obtain ⟨hsize, hpos, -⟩ := DriveConfig.block_of_isValid valid
    change 0 < k.config.blockSize
    rw [hsize]
    exact Nat.mul_pos (by decide) hpos
  whole := by
    obtain ⟨hsize, -, -⟩ := DriveConfig.block_of_isValid valid
    change k.config.blockSize % sectorSize = 0
    rw [hsize, Nat.mul_mod_right]
  limit := Nat.lt_of_le_of_lt (DriveConfig.block_of_isValid valid).2.2 (by decide)

private theorem bounded_device (valid : k.config.isValid = true)
    (hcapacity : k.capacity.toNat < wordLimit - 1) : (k.device valid).Bounded := by
  intro a s hlen hok
  obtain ⟨hv, -⟩ := serve_of_ok hok
  change (a.block + 1) * k.config.sectorsPerBlock < wordLimit
  rw [verdict, DriveConfig.firstSector, if_neg (fun h => h hlen)] at hv
  split at hv
  · next hfits =>
    change (if _ then _ else _) = _ at hv
    split at hv
    · cases hv
    · next hroom =>
      rw [Nat.succ_mul]
      omega
  · cases hv

/-- No transfer with buffers that are large enough halts on a drive whose capacity is a bound. -/
private theorem ends_transferSectors (valid : k.config.isValid = true)
    (hcapacity : k.capacity.toNat < wordLimit - 1) (write : Bool) {start count : Nat}
    {buffer scratch : Bytes} (hlen : sectorSize * count ≤ buffer.length)
    (hword : sectorSize * count < wordLimit) (hscratch : scratch.length = k.config.blockSize)
    (hw : image.Whole) :
    ∃ o image', (transferSectors write k.config.blockSize buffer start count scratch).run k.serve
      image = (.ok o, image') := by
  obtain ⟨o, s', hrun, -⟩ : (transferSectors write k.config.blockSize buffer start count
      scratch).Gives (k.device valid) ⟨image, hw⟩ _ :=
    (sectored_device valid).transferSectors_covers write _ (.inr (bounded_device valid hcapacity))
      hlen hword hscratch
  have hview : ∀ a (s : { image : Image // image.Whole }), k.serve a s.1 =
      (((k.device valid).submit a s).1, ((k.device valid).submit a s).2.1) := fun _ _ => rfl
  have hmap := BlockProgram.run_map Subtype.val hview
    (transferSectors write k.config.blockSize buffer start count scratch) ⟨image, hw⟩
  exact ⟨o, s'.1, by rw [hmap]; exact congrArg (fun r => (r.1, r.2.1)) hrun⟩

end DriveParameters

namespace BlockProgram

variable {α : Type} {k : DriveParameters} {image : Image} {P : α → Image → Prop}

/-- What a program comes to if every access is carried out at once. It may halt only on a drive whose
capacity is no bound. -/
structure Reaches (k : DriveParameters) (p : BlockProgram α) (image : Image) (P : α → Image → Prop) :
    Prop where
  yields : p.Yields k image P
  ends : k.capacity.toNat < wordLimit - 1 → ∃ a image', p.run k.serve image = (.ok a, image')

theorem reaches_done_iff {a : α} : (done a).Reaches k image P ↔ P a image := by
  constructor
  · exact fun h => yields_done_iff.1 h.yields
  · exact fun h => ⟨yields_done_iff.2 h, fun _ => ⟨a, image, rfl⟩⟩

theorem reaches_access_iff {a : BlockAccess} {next : BlockReply → BlockProgram α} :
    (access a next).Reaches k image P ↔
      (next (k.serve a image).1).Reaches k (k.serve a image).2 P := by
  constructor
  · exact fun h => ⟨h.yields, h.ends⟩
  · exact fun h => ⟨h.yields, h.ends⟩

theorem not_reaches_halt {e : Halt} (hcapacity : k.capacity.toNat < wordLimit - 1) :
    ¬(halt e : BlockProgram α).Reaches k image P := by
  intro h
  obtain ⟨a, image', hrun⟩ := h.ends hcapacity
  cases hrun

end BlockProgram

theorem SectorCall.transfer_reaches {k : DriveParameters} {c : SectorCall} (valid : k.config.isValid = true)
    {image : Image} (hw : image.Whole) (hrefuse : k.refusal? c = none) {scratch : Bytes}
    (hscratch : scratch.length = k.config.blockSize) :
    (transferSectors c.write k.config.blockSize c.buffer c.sector.toNat c.count.toNat
      scratch).Reaches k image
        (c.Settles k (k.transfer c image).2 (c.reply (k.transfer c image).1)) := by
  refine ⟨transfer_yields valid hw hrefuse hscratch, fun hcapacity => ?_⟩
  by_cases hlimit : wordLimit ≤ c.count.toNat * sectorSize
  · rw [transferSectors_of_error (checkBuffers_of_limit hlimit)]
    exact ⟨_, _, rfl⟩
  · have hword : sectorSize * c.count.toNat < wordLimit := by
      rw [Nat.mul_comm]
      omega
    exact DriveParameters.ends_transferSectors valid hcapacity c.write
      (DriveParameters.length_of_refusal hrefuse hlimit) hword hscratch hw

end DiskStack
