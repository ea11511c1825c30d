import DiskStack.Block.RamDisk
import DiskStack.Proofs.AtomicDrive

/-!
# Block devices

A block device stores native blocks and carries out one access at a time, or refuses the access and
changes nothing. Its content is an array of bytes, and an image where blocks are whole sectors: to
read a block is to read its sectors, and to write one is to replace them. The disk in memory is such
a device.
-/

namespace DiskStack

/-- A device with states `σ` that keeps the native blocks it is given. -/
structure BlockDevice (σ : Type) where
  blockSize : Nat
  submit : BlockAccess → σ → BlockReply × σ
  block : σ → Nat → Bytes
  length_block : ∀ s i, (block s i).length = blockSize
  refused : ∀ a s, a.data.length = blockSize → (submit a s).1.result ≠ .ok () →
    (submit a s).1.data = a.data ∧ block (submit a s).2 = block s
  read : ∀ a s, a.data.length = blockSize → a.write = false → (submit a s).1.result = .ok () →
    (submit a s).1.data = block s a.block ∧ block (submit a s).2 = block s
  write : ∀ a s, a.data.length = blockSize → a.write = true → (submit a s).1.result = .ok () →
    (submit a s).1.data = a.data ∧
      ∀ i, block (submit a s).2 i = if i = a.block then a.data else block s i

private theorem Bytes.getD_slice {bytes : Bytes} {offset length i : Nat} (h : i < length) :
    (bytes.slice offset length).getD i 0 = bytes.getD (offset + i) 0 := by
  rw [slice, List.getD_eq_getElem?_getD, List.getElem?_take_of_lt h, List.getElem?_drop,
    ← List.getD_eq_getElem?_getD]

namespace Image

variable {image : Image}

private theorem block_eq_of_slices {spb i : Nat} {data : Bytes} (hlen : data.length = sectorSize * spb)
    (h : ∀ n, n < spb → image.sector (i * spb + n) = data.slice (sectorSize * n) sectorSize) :
    image.block spb i = data := by
  have hslices : ∀ n, n ≤ spb → image.read (i * spb) n = data.slice 0 (sectorSize * n) := by
    intro n hn
    induction n with
    | zero => simp [Bytes.slice]
    | succ n ih =>
      have hone : image.read (i * spb + n) 1 = data.slice (0 + sectorSize * n) sectorSize := by
        rw [read_succ, read_zero, List.append_nil, h n hn, Nat.zero_add]
      rw [read_add, ih (Nat.le_of_succ_le hn), hone, Bytes.slice_append_slice, Nat.mul_succ]
  rw [block, hslices spb (Nat.le_refl _), Bytes.slice, List.drop_zero,
    List.take_of_length_le (Nat.le_of_eq hlen)]

theorem block_setBlock {spb : Nat} {data : Bytes} (hpos : 0 < spb)
    (hlen : data.length = sectorSize * spb) (i j : Nat) :
    (image.setBlock spb i data).block spb j = if j = i then data else image.block spb j := by
  have hdiv : ∀ n, n < spb → (j * spb + n) / spb = j := fun n hn => by
    rw [Nat.mul_comm, Nat.mul_add_div hpos, Nat.div_eq_of_lt hn, Nat.add_zero]
  split
  · next hj =>
    refine block_eq_of_slices hlen fun n hn => ?_
    have hmod : (j * spb + n) % spb = n := by rw [Nat.mul_comm, Nat.mul_add_mod, Nat.mod_eq_of_lt hn]
    rw [sector_setBlock, if_pos (by rw [hdiv n hn, hj]), hmod]
  · next hj =>
    apply read_congr
    intro n hn
    rw [sector_setBlock, if_neg (by rw [hdiv n hn]; exact hj)]

/-- The byte at a place of the image, its sectors laid out one after the other. -/
def byte (image : Image) (i : Nat) : UInt8 := (image.sector (i / sectorSize)).getD (i % sectorSize) 0

theorem getD_read (h : image.Whole) (first : Nat) {count i : Nat} (hi : i < sectorSize * count) :
    (image.read first count).getD i 0 = image.byte (sectorSize * first + i) := by
  have hpos : 0 < sectorSize := by decide
  induction count generalizing first i with
  | zero => exact absurd hi (Nat.not_lt_zero i)
  | succ count ih =>
    rw [read_succ, List.getD_eq_getElem?_getD, List.getElem?_append, h]
    split
    · next hfirst =>
      rw [← List.getD_eq_getElem?_getD, byte, Nat.mul_add_div hpos, Nat.div_eq_of_lt hfirst,
        Nat.add_zero, Nat.mul_add_mod, Nat.mod_eq_of_lt hfirst]
    · next hlater =>
      rw [Nat.mul_succ] at hi
      rw [← List.getD_eq_getElem?_getD, ih (first + 1) (by omega), Nat.mul_succ, Nat.add_assoc,
        Nat.add_sub_cancel' (Nat.le_of_not_lt hlater)]

theorem byte_write {data : Bytes} {first count : Nat} (h : image.Whole)
    (hlen : data.length = sectorSize * count) (i : Nat) :
    (image.write first data).byte i =
      if sectorSize * first ≤ i ∧ i < sectorSize * (first + count) then
        data.getD (i - sectorSize * first) 0
      else image.byte i := by
  have hiff : (sectorSize * first ≤ i ∧ i < sectorSize * (first + count)) ↔
      first ≤ i / sectorSize ∧ i / sectorSize < first + count := by
    simp only [sectorSize]
    omega
  rw [byte, sector_write h hlen]
  by_cases hin : first ≤ i / sectorSize ∧ i / sectorSize < first + count
  · have hplace : sectorSize * (i / sectorSize - first) + i % sectorSize = i - sectorSize * first := by
      simp only [sectorSize] at hin ⊢
      omega
    rw [if_pos hin, if_pos (hiff.2 hin), Bytes.getD_slice (Nat.mod_lt _ (by decide)), hplace]
  · rw [if_neg hin, if_neg (fun hc => hin (hiff.1 hc))]
    rfl

end Image

namespace BlockDevice

variable {σ : Type} {d : BlockDevice σ} {s : σ}

/-- Whether the device has a block: no access to it is refused. -/
def Has (d : BlockDevice σ) (i : Nat) : Prop :=
  ∀ a s, a.block = i → a.data.length = d.blockSize → (d.submit a s).1.result = .ok ()

/-- The byte at a place of the disk, its blocks laid out one after the other. -/
def byte (d : BlockDevice σ) (s : σ) (i : Nat) : UInt8 :=
  (d.block s (i / d.blockSize)).getD (i % d.blockSize) 0

def sectorsPerBlock (d : BlockDevice σ) : Nat := d.blockSize / sectorSize

/-- The disk as an array of sectors. -/
def image (d : BlockDevice σ) (s : σ) : Image where
  sector i := (d.block s (i / d.sectorsPerBlock)).slice (sectorSize * (i % d.sectorsPerBlock)) sectorSize

private theorem sector_image (s : σ) (i : Nat) :
    (d.image s).sector i =
      (d.block s (i / d.sectorsPerBlock)).slice (sectorSize * (i % d.sectorsPerBlock)) sectorSize := rfl

/-- A device whose blocks are whole sectors, and fit into a buffer. -/
structure Sectored (d : BlockDevice σ) : Prop where
  positive : 0 < d.blockSize
  whole : d.blockSize % sectorSize = 0
  limit : d.blockSize < wordLimit

/-- A device whose sectors all have a word for a number: it refuses what lies beyond. -/
def Bounded (d : BlockDevice σ) : Prop :=
  ∀ a s, a.data.length = d.blockSize → (d.submit a s).1.result = .ok () →
    (a.block + 1) * d.sectorsPerBlock < wordLimit

theorem Sectored.size (hd : d.Sectored) : d.blockSize = sectorSize * d.sectorsPerBlock :=
  (Nat.mul_div_cancel' (Nat.dvd_of_mod_eq_zero hd.whole)).symm

theorem Sectored.pos (hd : d.Sectored) : 0 < d.sectorsPerBlock := by
  have hpos := hd.positive
  rw [hd.size] at hpos
  exact Nat.pos_of_mul_pos_left hpos

theorem Sectored.whole_image (hd : d.Sectored) (s : σ) : (d.image s).Whole := by
  intro i
  have hmod := Nat.mod_lt i hd.pos
  have hle : sectorSize * (i % d.sectorsPerBlock) + sectorSize ≤ sectorSize * d.sectorsPerBlock := by
    rw [← Nat.mul_succ]
    exact Nat.mul_le_mul_left _ hmod
  simp only [image, Bytes.slice, List.length_take, List.length_drop, d.length_block]
  rw [hd.size]
  omega

private theorem Sectored.image_block (hd : d.Sectored) (s : σ) (i : Nat) :
    (d.image s).block d.sectorsPerBlock i = d.block s i := by
  refine Image.block_eq_of_slices ((d.length_block s i).trans hd.size) fun n hn => ?_
  have hplace : (i * d.sectorsPerBlock + n) / d.sectorsPerBlock = i := by
    rw [Nat.mul_comm, Nat.mul_add_div hd.pos, Nat.div_eq_of_lt hn, Nat.add_zero]
  have hmod : (i * d.sectorsPerBlock + n) % d.sectorsPerBlock = n := by
    rw [Nat.mul_comm, Nat.mul_add_mod, Nat.mod_eq_of_lt hn]
  rw [sector_image, hplace, hmod]

theorem image_congr {s' : σ} (h : d.block s' = d.block s) : d.image s' = d.image s := by
  rw [image, image, h]

theorem Sectored.image_submit (hd : d.Sectored) {a : BlockAccess} (hlen : a.data.length = d.blockSize)
    (hok : (d.submit a s).1.result = .ok ()) :
    ((d.submit a s).1.data, d.image (d.submit a s).2) =
      (d.image s).perform d.sectorsPerBlock a := by
  cases hw : a.write with
  | true =>
    obtain ⟨hdata, hblock⟩ := d.write a s hlen hw hok
    rw [Image.perform, if_pos hw, hdata]
    congr 1
    apply Image.ext
    intro i
    rw [sector_image, hblock, Image.sector_setBlock]
    split
    · rfl
    · rfl
  | false =>
    obtain ⟨hdata, hblock⟩ := d.read a s hlen hw hok
    rw [Image.perform, if_neg (by rw [hw]; exact Bool.false_ne_true), hdata, image_congr hblock,
      hd.image_block]

/-- A byte of the disk is the same whether it is looked up in its block or in its sector. -/
theorem Sectored.byte_eq (hd : d.Sectored) (s : σ) (i : Nat) : d.byte s i = (d.image s).byte i := by
  have hpos : 0 < sectorSize := by decide
  rw [Image.byte, sector_image, Bytes.getD_slice (Nat.mod_lt _ hpos), byte, hd.size,
    Nat.div_div_eq_div_mul, Nat.mod_mul]
  congr 1
  omega

end BlockDevice

namespace RamDisk

variable {d : RamDisk} {size count : Nat}

/-- A disk in memory of `count` blocks that drops no write and is not told to fail. -/
structure Keeps (size count : Nat) (d : RamDisk) : Prop where
  blockSize : d.blockSize = size
  blockCount : d.blockCount = count
  bottom : d.bottomless = false
  failFrom : d.failFrom = none
  failNth : d.failNth = none
  length_block : ∀ i, (d.block i).length = size

private theorem Keeps.fails_eq (h : d.Keeps size count) (i : Nat) : d.fails i = false := by
  rw [fails, h.failFrom, h.failNth]
  rfl

theorem keeps_blank (size count : Nat) :
    Keeps size count { blockSize := size, blockCount := count } := by
  refine ⟨rfl, rfl, rfl, rfl, rfl, fun i => ?_⟩
  simp [block]

theorem Keeps.submit_eq (h : d.Keeps size count) {a : BlockAccess} (hlen : a.data.length = size) :
    RamDisk.submit a d =
      let listed := { d with count := d.count + 1, submitted := a :: d.submitted }
      if count ≤ a.block then (⟨.error .invalidBlock, a.data⟩, listed)
      else if a.write then (⟨.ok (), a.data⟩, listed.store a.block a.data)
      else (⟨.ok (), d.block a.block⟩, listed) := by
  rw [submit, if_neg (by rw [h.blockSize]; exact not_not_intro hlen), h.bottom, h.blockCount,
    h.fails_eq]
  simp only [Bool.not_false, Bool.true_and, decide_eq_true_eq, Bool.false_eq_true, if_false]

private theorem Keeps.submit (h : d.Keeps size count) (a : BlockAccess) :
    (RamDisk.submit a d).2.Keeps size count := by
  by_cases hlen : a.data.length = size
  · have hlisted : Keeps size count { d with count := d.count + 1, submitted := a :: d.submitted } :=
      ⟨h.blockSize, h.blockCount, h.bottom, h.failFrom, h.failNth, h.length_block⟩
    rw [h.submit_eq hlen]
    split
    · exact hlisted
    · split
      · refine ⟨h.blockSize, h.blockCount, h.bottom, h.failFrom, h.failNth, fun i => ?_⟩
        rw [block_store]
        split
        · exact hlen
        · exact hlisted.length_block i
      · exact hlisted
  · rw [RamDisk.submit, if_pos (by rw [h.blockSize]; exact hlen)]
    exact ⟨h.blockSize, h.blockCount, h.bottom, h.failFrom, h.failNth, h.length_block⟩

end RamDisk

namespace BlockDevice

variable {size count : Nat}

/-- The disk in memory. -/
def inMemory (size count : Nat) : BlockDevice { d : RamDisk // d.Keeps size count } where
  blockSize := size
  submit a d := ((RamDisk.submit a d.1).1, ⟨(RamDisk.submit a d.1).2, d.2.submit a⟩)
  block d := d.1.block
  length_block d := d.2.length_block
  refused a d hlen := by
    change (RamDisk.submit a d.1).1.result ≠ .ok () → (RamDisk.submit a d.1).1.data = a.data ∧
      (RamDisk.submit a d.1).2.block = d.1.block
    rw [d.2.submit_eq hlen]
    split
    · exact fun _ => ⟨rfl, rfl⟩
    · split
      · exact fun h => absurd rfl h
      · exact fun h => absurd rfl h
  read a d hlen hread := by
    change (RamDisk.submit a d.1).1.result = .ok () → (RamDisk.submit a d.1).1.data = d.1.block a.block ∧
      (RamDisk.submit a d.1).2.block = d.1.block
    rw [d.2.submit_eq hlen, hread]
    split
    · exact fun h => by cases h
    · exact fun _ => ⟨rfl, rfl⟩
  write a d hlen hwrite := by
    change (RamDisk.submit a d.1).1.result = .ok () → (RamDisk.submit a d.1).1.data = a.data ∧
      ∀ i, (RamDisk.submit a d.1).2.block i = if i = a.block then a.data else d.1.block i
    rw [d.2.submit_eq hlen, hwrite]
    split
    · exact fun h => by cases h
    · exact fun _ => ⟨rfl, fun i => RamDisk.block_store _ _ _ _⟩

theorem inMemory_has {i : Nat} (h : i < count) : (inMemory size count).Has i := by
  rintro a d rfl hlen
  change (RamDisk.submit a d.1).1.result = .ok ()
  rw [d.2.submit_eq hlen, if_neg (Nat.not_le.2 h)]
  split
  · rfl
  · rfl

end BlockDevice

end DiskStack
