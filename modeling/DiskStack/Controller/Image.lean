import DiskStack.Drive.Config

/-!
# Disk images

A disk image gives each sector its 512 bytes. It has no end: what a controller lets be reached is
the matter of its capacity. Seen from outside, sector numbers are 64-bit words, and the last sector
is followed by the first.
-/

namespace DiskStack

structure Image where
  sector : Nat → Bytes

namespace Image

def blank : Image := ⟨fun _ => List.replicate sectorSize 0⟩

def set (image : Image) (sector : Nat) (bytes : Bytes) : Image :=
  ⟨fun i => if i = sector then bytes else image.sector i⟩

theorem sector_set (image : Image) (s i : Nat) (bytes : Bytes) :
    (image.set s bytes).sector i = if i = s then bytes else image.sector i := rfl

def read (image : Image) (first count : Nat) : Bytes :=
  (List.range count).flatMap fun i => image.sector (first + i)

/-- Writes bytes from the start of a sector on; a sector in part written keeps its other bytes. -/
def write (image : Image) (first : Nat) (data : Bytes) : Image :=
  if data = [] then image
  else
    let sector := Bytes.splice (image.sector first) 0 (data.take sectorSize)
    write (image.set first sector) (first + 1) (data.drop sectorSize)
termination_by data.length
decreasing_by
  have : 0 < data.length := List.length_pos_iff.2 ‹_›
  simp only [List.length_drop, sectorSize]
  omega

def sectorsToEnd (first : Nat) : Nat := wordLimit - first

/-- The bytes of `count` sectors from `first` on, around the end of the sector numbers. -/
def readAround (image : Image) (first count : Nat) : Bytes :=
  image.read first (min count (sectorsToEnd first)) ++ image.read 0 (count - sectorsToEnd first)

/-- Writes bytes from the start of a sector on, around the end of the sector numbers. -/
def writeAround (image : Image) (first : Nat) (data : Bytes) : Image :=
  let room := min data.length (sectorsToEnd first * sectorSize)
  (image.write first (data.take room)).write 0 (data.drop room)

end Image

end DiskStack
