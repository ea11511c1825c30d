import DiskStack.Proofs.SectorRanges

/-!
# Transfers that fail

A device may refuse any access, for whatever reason. The first access that it refuses ends a transfer,
and the transfer reports its error. What has then been moved are the spans before the one that failed:
the block that was under way is as it was, also if only the second half of a read and write of it was
refused and the scratch block already had the new bytes.
-/

namespace DiskStack

/-- A size that passes the check of the buffers is that of a device of whole sectors, and the buffers
are as long as a transfer needs them. -/
theorem of_checkBuffers {blockSize length count scratchLength sectorsPerBlock : Nat}
    (h : checkBuffers blockSize length count scratchLength = .ok sectorsPerBlock) :
    0 < blockSize ∧ blockSize % sectorSize = 0 ∧ sectorsPerBlock = blockSize / sectorSize ∧
      sectorSize * count < wordLimit ∧ sectorSize * count ≤ length ∧ scratchLength = blockSize := by
  rw [checkBuffers] at h
  split at h
  · cases h
  · next hsize =>
    split at h
    · cases h
    · next hcount =>
      split at h
      · cases h
      · next hlen =>
        cases h
        rw [Nat.mul_comm sectorSize]
        refine ⟨?_, ?_, rfl, ?_, ?_, ?_⟩
        · exact Nat.lt_of_lt_of_le (by decide) (Nat.le_of_not_lt fun h => hsize (.inl h))
        · exact Decidable.not_not.1 fun h => hsize (.inr h)
        · exact Nat.lt_of_not_le hcount
        · exact Nat.le_of_not_lt fun h => hlen (.inl h)
        · exact Decidable.not_not.1 fun h => hlen (.inr h)

private theorem error_of_checkBuffers {blockSize length count scratchLength : Nat} {e : BlockError}
    (h : checkBuffers blockSize length count scratchLength = .error e) : e = .invalidBufferSize := by
  rw [checkBuffers] at h
  split at h
  · cases h
    rfl
  · split at h
    · cases h
      rfl
    · split at h
      · cases h
        rfl
      · cases h

namespace BlockDevice

variable {σ : Type} {d : BlockDevice σ}

/-- A transfer whose buffers fit moves sectors until the device refuses an access. That access is the
last one, its error is the result, and what has been moved are the sectors before its span. -/
theorem transferSectors_stops_at_refusal (d : BlockDevice σ) (hword : d.blockSize < wordLimit)
    (write : Bool) (s : σ) (start count : Nat) (buffer scratch : Bytes)
    (hrange : start + count < wordLimit) :
    (∀ e, checkBuffers d.blockSize buffer.length count scratch.length = .error e →
      e = .invalidBufferSize ∧
      (transferSectors write d.blockSize buffer start count scratch).run d.submit s =
        (.ok ⟨.error e, buffer, scratch⟩, s) ∧
      (transferSectors write d.blockSize buffer start count scratch).answers d.submit s = []) ∧
    ∀ sectorsPerBlock,
      checkBuffers d.blockSize buffer.length count scratch.length = .ok sectorsPerBlock →
      ∃ o s' log j,
        (transferSectors write d.blockSize buffer start count scratch).run d.submit s = (.ok o, s') ∧
        (transferSectors write d.blockSize buffer start count scratch).answers d.submit s = log ∧
        Transferred write start j buffer o.buffer (d.byte s) (d.byte s') ∧
        ((o.result = .ok () ∧ log.Served ∧ j = count) ∨
          ∃ e, o.result = .error e ∧ log.StoppedAt ((start + j) / sectorsPerBlock) e ∧ j < count ∧
            (j = 0 ∨ (start + j) % sectorsPerBlock = 0)) := by
  refine ⟨fun e he => ?_, fun sectorsPerBlock hok => ?_⟩
  · rw [transferSectors_of_error he]
    exact ⟨error_of_checkBuffers he, rfl, rfl⟩
  · obtain ⟨hpos, hwhole, hspb, hcount, hlen, hscratch⟩ := of_checkBuffers hok
    have hd : d.Sectored := ⟨hpos, hwhole, hword⟩
    obtain ⟨o, s', hrun, j, hcovers⟩ :=
      hd.transferSectors_covers write s (.inl hrange) hlen hcount hscratch
    have hmoved : sectorSize * j ≤ buffer.length :=
      Nat.le_trans (Nat.mul_le_mul_left _ hcovers.count_le) hlen
    have hresult := hcovers.result
    rw [hspb]
    refine ⟨o, s', _, j, hrun, rfl, hd.transferred hmoved (Prod.ext hcovers.buffer hcovers.image), ?_⟩
    exact hresult.imp_right fun ⟨e, herror, hstopped, hj, hstart, _⟩ =>
      ⟨e, herror, hstopped, hj, hstart⟩

/-! ### Devices with faults -/

/-- A device that also fails the accesses with the numbers that have a fault. -/
def faulty (d : BlockDevice σ) (fault : Nat → Option BlockError) : BlockDevice (σ × Nat) where
  blockSize := d.blockSize
  submit a s :=
    match fault s.2 with
    | some e => (⟨.error e, a.data⟩, (s.1, s.2 + 1))
    | none => ((d.submit a s.1).1, ((d.submit a s.1).2, s.2 + 1))
  block s := d.block s.1
  length_block s := d.length_block s.1
  refused a s hlen := by
    split
    · exact fun _ => ⟨rfl, rfl⟩
    · exact d.refused a s.1 hlen
  read a s hlen hread := by
    split
    · exact fun h => by cases h
    · exact d.read a s.1 hlen hread
  write a s hlen hwrite := by
    split
    · exact fun h => by cases h
    · exact d.write a s.1 hlen hwrite

/-- A disk in memory whose fourth access fails. -/
def fourthFails : BlockDevice ({ d : RamDisk // d.Keeps 1024 4 } × Nat) :=
  (inMemory 1024 4).faulty fun n => if n = 3 then some .ioError else none

/-- Two sectors on both sides of a block boundary: the first block is read and written, the second is
read, and its write is refused. -/
theorem transferSectors_stops_at_refusal_sample :
    1024 < wordLimit ∧ 1 + 2 < wordLimit ∧
    ∃ o s' log j,
      (transferSectors true 1024 (List.replicate 1024 1) 1 2 (List.replicate 1024 9)).run
        fourthFails.submit (⟨_, RamDisk.keeps_blank 1024 4⟩, 0) = (.ok o, s') ∧
      (transferSectors true 1024 (List.replicate 1024 1) 1 2 (List.replicate 1024 9)).answers
        fourthFails.submit (⟨_, RamDisk.keeps_blank 1024 4⟩, 0) = log ∧
      Transferred true 1 j (List.replicate 1024 1) o.buffer
        (fourthFails.byte (⟨_, RamDisk.keeps_blank 1024 4⟩, 0)) (fourthFails.byte s') ∧
      ((o.result = .ok () ∧ log.Served ∧ j = 2) ∨
        ∃ e, o.result = .error e ∧ log.StoppedAt ((1 + j) / 2) e ∧ j < 2 ∧
          (j = 0 ∨ (1 + j) % 2 = 0)) :=
  ⟨by decide, by decide,
    (transferSectors_stops_at_refusal fourthFails (by decide) true (⟨_, RamDisk.keeps_blank 1024 4⟩, 0)
      1 2 (List.replicate 1024 1) (List.replicate 1024 9) (by decide)).2 2 (by
        rw [List.length_replicate, List.length_replicate]
        rfl)⟩

end BlockDevice

end DiskStack
