import DiskStack.Fault

/-!
# Flag words

A flag word is a fixed-width word whose bits carry names. `FlagLayout` describes one kind of word;
the four kinds of this stack are listed with it. Bits without a name are kept by the set operations
and dropped only by `truncate` and `complement`.
-/

namespace DiskStack

/-- One kind of flag word: its title, its named bits in order, and the bits it knows. -/
structure FlagLayout (w : Nat) where
  title : String
  named : List (String × BitVec w)
  known : BitVec w

namespace FlagLayout

variable {w : Nat} (layout : FlagLayout w)

def contains (x y : BitVec w) : Bool := x &&& y == y

def intersects (x y : BitVec w) : Bool := x &&& y != 0

def difference (x y : BitVec w) : BitVec w := x &&& ~~~y

def ofBits? (x : BitVec w) : Option (BitVec w) :=
  if difference x layout.known = 0 then some x else none

def truncate (x : BitVec w) : BitVec w := x &&& layout.known

def complement (x : BitVec w) : BitVec w := layout.truncate (~~~x)

/-- The named flags wholly inside a word, in layout order. -/
def names (x : BitVec w) : List String :=
  (layout.named.filter fun f => contains x f.2).map Prod.fst

def unnamed (x : BitVec w) : BitVec w :=
  (layout.named.filter fun f => contains x f.2).foldl (fun rest f => difference rest f.2) x

/-- The names and then the unnamed bits, joined by bars; an empty word shows a zero. -/
def render (x : BitVec w) : String :=
  let rest := layout.unnamed x
  let parts := layout.names x ++ (if rest = 0 then [] else [hexText rest.toNat])
  layout.title ++ "(" ++ (if parts.isEmpty then hexText 0 else String.intercalate " | " parts) ++ ")"

end FlagLayout

abbrev DiskStatus := UInt8

namespace DiskStatus

def noInit : DiskStatus := 0x01
def noDisk : DiskStatus := 0x02
def protect : DiskStatus := 0x04

def layout : FlagLayout 8 where
  title := "DiskStatus"
  named := [("NOINIT", noInit.toBitVec), ("NODISK", noDisk.toBitVec),
    ("PROTECT", protect.toBitVec)]
  known := 0x07

end DiskStatus

abbrev DeviceStatus := UInt8

namespace DeviceStatus

def acknowledge : DeviceStatus := 1
def driver : DeviceStatus := 2
def driverOk : DeviceStatus := 4
def featuresOk : DeviceStatus := 8
def needsReset : DeviceStatus := 64
def failed : DeviceStatus := 128

def layout : FlagLayout 8 where
  title := "DeviceStatus"
  named := [("ACKNOWLEDGE", acknowledge.toBitVec), ("DRIVER", driver.toBitVec),
    ("DRIVER_OK", driverOk.toBitVec), ("FEATURES_OK", featuresOk.toBitVec),
    ("DEVICE_NEEDS_RESET", needsReset.toBitVec), ("FAILED", failed.toBitVec)]
  known := 0xcf

end DeviceStatus

/-- The low 32 feature bits of a block controller; every bit is known, some have names. -/
abbrev Features := UInt32

namespace Features

def sizeMax : Features := 0x2
def segMax : Features := 0x4
def geometry : Features := 0x10
def readOnly : Features := 0x20
def blkSize : Features := 0x40
def scsi : Features := 0x80
def flush : Features := 0x200
def topology : Features := 0x400
def configWce : Features := 0x800
def multiQueue : Features := 0x1000
def anyLayout : Features := 0x8000000
def ringIndirect : Features := 0x10000000
def ringEventIdx : Features := 0x20000000

def layout : FlagLayout 32 where
  title := "BlkFeatures"
  named := [("SIZE_MAX", sizeMax.toBitVec), ("SEG_MAX", segMax.toBitVec),
    ("GEOMETRY", geometry.toBitVec), ("RO", readOnly.toBitVec), ("BLK_SIZE", blkSize.toBitVec),
    ("SCSI", scsi.toBitVec), ("FLUSH", flush.toBitVec), ("TOPOLOGY", topology.toBitVec),
    ("CONFIG_WCE", configWce.toBitVec), ("MQ", multiQueue.toBitVec),
    ("ANY_LAYOUT", anyLayout.toBitVec), ("RING_INDIRECT_DESC", ringIndirect.toBitVec),
    ("RING_EVENT_IDX", ringEventIdx.toBitVec)]
  known := 0xffffffff

/-- The features that would change the fixed three-descriptor form of a request. -/
def unsupported : Features :=
  readOnly ||| scsi ||| configWce ||| multiQueue ||| anyLayout ||| ringEventIdx ||| ringIndirect

def negotiate (offered : Features) : Features := offered &&& ~~~unsupported

end Features

abbrev DescriptorFlags := UInt16

namespace DescriptorFlags

def next : DescriptorFlags := 1
def write : DescriptorFlags := 2
def indirect : DescriptorFlags := 4

def layout : FlagLayout 16 where
  title := "DescFlags"
  named := [("NEXT", next.toBitVec), ("WRITE", write.toBitVec), ("INDIRECT", indirect.toBitVec)]
  known := 0x7

end DescriptorFlags

end DiskStack
