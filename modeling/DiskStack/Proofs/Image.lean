import DiskStack.Controller.Image

/-!
# Blocks of a disk image

An image whose sectors all have 512 bytes is an array of sectors, and equally one of native blocks.
Writing whole sectors replaces these and leaves all others; a block is read as the bytes that were
written to it last.
-/

namespace DiskStack

namespace Image

def Whole (image : Image) : Prop := ∀ i, (image.sector i).length = sectorSize

def block (image : Image) (sectorsPerBlock i : Nat) : Bytes :=
  image.read (i * sectorsPerBlock) sectorsPerBlock

def setBlock (image : Image) (sectorsPerBlock i : Nat) (data : Bytes) : Image where
  sector j :=
    if j / sectorsPerBlock = i then data.slice (sectorSize * (j % sectorsPerBlock)) sectorSize
    else image.sector j

variable {image : Image} {first count : Nat} {data : Bytes}

theorem sector_setBlock (sectorsPerBlock i j : Nat) :
    (image.setBlock sectorsPerBlock i data).sector j =
      if j / sectorsPerBlock = i then data.slice (sectorSize * (j % sectorsPerBlock)) sectorSize
      else image.sector j := rfl

theorem ext {a b : Image} (h : ∀ i, a.sector i = b.sector i) : a = b := by
  cases a
  cases b
  congr
  funext i
  exact h i

@[simp] theorem read_zero : image.read first 0 = [] := rfl

theorem read_succ (first count : Nat) :
    image.read first (count + 1) = image.sector first ++ image.read (first + 1) count := by
  have hsucc : (fun i => image.sector (first + (i + 1))) = fun i => image.sector (first + 1 + i) :=
    funext fun i => by rw [Nat.add_comm i 1, Nat.add_assoc]
  rw [read, read, List.range_succ_eq_map, List.flatMap_cons, List.flatMap_map, Nat.add_zero, ← hsucc]

theorem read_add (first count more : Nat) :
    image.read first (count + more) = image.read first count ++ image.read (first + count) more := by
  induction count generalizing first with
  | zero => simp
  | succ count ih =>
    rw [Nat.succ_add, read_succ, ih, read_succ, List.append_assoc, Nat.add_right_comm, Nat.add_assoc]

theorem length_read (h : image.Whole) (first count : Nat) :
    (image.read first count).length = sectorSize * count := by
  induction count generalizing first with
  | zero => rfl
  | succ count ih =>
    rw [read_succ, List.length_append, ih, h, Nat.mul_succ, Nat.add_comm]

theorem sector_write (h : image.Whole) (hlen : data.length = sectorSize * count) (i : Nat) :
    (image.write first data).sector i =
      if first ≤ i ∧ i < first + count then data.slice (sectorSize * (i - first)) sectorSize
      else image.sector i := by
  induction count generalizing image first data with
  | zero =>
    rw [List.eq_nil_of_length_eq_zero (hlen.trans (Nat.mul_zero _)), write, if_pos rfl,
      if_neg (by omega)]
  | succ count ih =>
    have hlen' : data.length = sectorSize * count + sectorSize := hlen
    have hpos : 0 < sectorSize := by decide
    have hne : data ≠ [] := fun hd => by
      rw [hd, List.length_nil] at hlen'
      omega
    have htake : (data.take sectorSize).length = sectorSize := by
      rw [List.length_take]
      omega
    have hsplice : (image.sector first).splice 0 (data.take sectorSize) = data.take sectorSize :=
      Bytes.splice_zero (by rw [h, htake])
    have hwhole : (image.set first (data.take sectorSize)).Whole := fun j => by
      rw [sector_set]
      split
      · exact htake
      · exact h j
    rw [write, if_neg hne, hsplice, ih hwhole (by rw [List.length_drop]; omega), sector_set]
    by_cases hi : i = first
    · subst hi
      rw [if_neg (by omega), if_pos rfl, if_pos (by omega), Nat.sub_self, Nat.mul_zero, Bytes.slice,
        List.drop_zero]
    · by_cases hin : first + 1 ≤ i ∧ i < first + 1 + count
      · have hsub : i - first = i - (first + 1) + 1 := by omega
        rw [if_pos hin, if_pos (by omega), Bytes.slice, Bytes.slice, List.drop_drop, hsub, Nat.mul_succ,
          Nat.add_comm sectorSize]
      · rw [if_neg hin, if_neg hi, if_neg (by omega)]

theorem whole_write (h : image.Whole) (hlen : data.length = sectorSize * count) :
    (image.write first data).Whole := by
  intro i
  rw [sector_write h hlen]
  split
  · next hi =>
    have hle : sectorSize * (i - first) + sectorSize ≤ sectorSize * count := by
      rw [← Nat.mul_succ]
      exact Nat.mul_le_mul_left _ (by omega)
    rw [Bytes.slice, List.length_take, List.length_drop, hlen]
    omega
  · exact h i

theorem write_block {sectorsPerBlock : Nat} (h : image.Whole) (hpos : 0 < sectorsPerBlock)
    (hlen : data.length = sectorSize * sectorsPerBlock) (i : Nat) :
    image.write (i * sectorsPerBlock) data = image.setBlock sectorsPerBlock i data := by
  apply ext
  intro j
  rw [sector_write h hlen, sector_setBlock]
  have hdiv := Nat.div_add_mod j sectorsPerBlock
  have hmod := Nat.mod_lt j hpos
  by_cases hj : j / sectorsPerBlock = i
  · have hsub : j - i * sectorsPerBlock = j % sectorsPerBlock := by
      rw [← hj, Nat.mul_comm]
      omega
    have hin : i * sectorsPerBlock ≤ j ∧ j < i * sectorsPerBlock + sectorsPerBlock := by
      rw [← hj, Nat.mul_comm]
      omega
    rw [if_pos hin, if_pos hj, hsub]
  · rw [if_neg hj, if_neg]
    rintro ⟨hle, hlt⟩
    exact hj (Nat.div_eq_of_lt_le hle (by rw [Nat.succ_mul]; exact hlt))

theorem whole_setBlock {sectorsPerBlock : Nat} (h : image.Whole) (hpos : 0 < sectorsPerBlock)
    (hlen : data.length = sectorSize * sectorsPerBlock) (i : Nat) :
    (image.setBlock sectorsPerBlock i data).Whole := by
  rw [← write_block h hpos hlen]
  exact whole_write h hlen

/-! ### Ranges of sectors -/

theorem read_congr {a b : Image} (h : ∀ i, i < count → a.sector (first + i) = b.sector (first + i)) :
    a.read first count = b.read first count := by
  induction count generalizing first with
  | zero => rfl
  | succ count ih =>
    rw [read_succ, read_succ, ← Nat.add_zero first, h 0 (Nat.succ_pos _)]
    refine congrArg _ (ih fun i hi => ?_)
    rw [Nat.add_zero, Nat.add_assoc, Nat.add_comm 1 i]
    exact h (i + 1) (Nat.succ_lt_succ hi)

theorem slice_read (h : image.Whole) {skipped length : Nat} (hle : skipped + length ≤ count) :
    (image.read first count).slice (sectorSize * skipped) (sectorSize * length) =
      image.read (first + skipped) length := by
  obtain ⟨more, rfl⟩ := Nat.exists_eq_add_of_le hle
  rw [read_add, read_add, Bytes.slice, List.append_assoc,
    List.drop_left' (length_read h first skipped), List.take_left' (length_read h _ _)]

theorem write_nil : image.write first [] = image := by rw [write, if_pos rfl]

theorem write_append {a b : Bytes} (ha : a.length = sectorSize * count) :
    image.write first (a ++ b) = (image.write first a).write (first + count) b := by
  induction count generalizing image first a with
  | zero =>
    rw [List.eq_nil_of_length_eq_zero (ha.trans (Nat.mul_zero _)), List.nil_append, write_nil,
      Nat.add_zero]
  | succ count ih =>
    have ha' : a.length = sectorSize * count + sectorSize := ha
    have hpos : 0 < sectorSize := by decide
    have hne : a ≠ [] := fun h => by
      rw [h, List.length_nil] at ha'
      omega
    rw [write, if_neg (by simp [hne]), write.eq_def image first a, if_neg hne,
      List.take_append_of_le_length (by omega), List.drop_append_of_le_length (by omega),
      ih (by rw [List.length_drop]; omega), Nat.add_assoc, Nat.add_comm 1 count]

private theorem write_read (h : image.Whole) (first count : Nat) :
    image.write first (image.read first count) = image := by
  apply ext
  intro i
  rw [sector_write h (length_read h first count)]
  split
  · next hi =>
    obtain ⟨hle, hlt⟩ := hi
    have hslice : (image.read first count).slice (sectorSize * (i - first)) (sectorSize * 1) =
        image.read (first + (i - first)) 1 := slice_read h (by omega)
    rw [Nat.mul_one, read_succ, read_zero, List.append_nil, Nat.add_sub_cancel' hle] at hslice
    exact hslice
  · rfl

private theorem read_write_of_disjoint (h : image.Whole) {at' length : Nat}
    (hlen : data.length = sectorSize * length) (hd : first + count ≤ at' ∨ at' + length ≤ first) :
    (image.write at' data).read first count = image.read first count :=
  read_congr fun i hi => by
    rw [sector_write h hlen, if_neg (by omega)]

/-- Putting sectors into the bytes of a block and then the block into the image is to write these
sectors. -/
theorem setBlock_splice {sectorsPerBlock skipped : Nat} (h : image.Whole) (hpos : 0 < sectorsPerBlock)
    (hlen : data.length = sectorSize * count) (hle : skipped + count ≤ sectorsPerBlock) (i : Nat) :
    image.setBlock sectorsPerBlock i ((image.block sectorsPerBlock i).splice (sectorSize * skipped) data) =
      image.write (i * sectorsPerBlock + skipped) data := by
  obtain ⟨more, hmore⟩ := Nat.exists_eq_add_of_le hle
  have hbefore := length_read h (i * sectorsPerBlock) skipped
  have hdata := length_read h (i * sectorsPerBlock + skipped) count
  have hparts : image.block sectorsPerBlock i = image.read (i * sectorsPerBlock) skipped ++
      (image.read (i * sectorsPerBlock + skipped) count ++
        image.read (i * sectorsPerBlock + (skipped + count)) more) := by
    rw [block, hmore, read_add, read_add, List.append_assoc]
  have hspliced : (image.block sectorsPerBlock i).splice (sectorSize * skipped) data =
      image.read (i * sectorsPerBlock) skipped ++
        (data ++ image.read (i * sectorsPerBlock + (skipped + count)) more) := by
    rw [Bytes.splice, hparts, List.take_left' hbefore, ← List.drop_drop, List.drop_left' hbefore,
      List.drop_left' (by rw [hdata, hlen]), List.append_assoc]
  have hwritten : (image.write (i * sectorsPerBlock + skipped) data).Whole := whole_write h hlen
  have hlast : (image.write (i * sectorsPerBlock + skipped) data).read
      (i * sectorsPerBlock + (skipped + count)) more =
      image.read (i * sectorsPerBlock + (skipped + count)) more :=
    read_write_of_disjoint h hlen (.inr (by omega))
  rw [← write_block h hpos, hspliced, write_append hbefore, write_read h, write_append hlen,
    Nat.add_assoc, ← hlast, write_read hwritten]
  rw [hspliced, List.length_append, List.length_append, hbefore, hlen, length_read h, ← Nat.mul_add,
    ← Nat.mul_add, hmore, Nat.add_assoc]

end Image

end DiskStack
