import DiskStack.Halt

/-!
# Controller registers

A controller is programmed through a window of 32-bit registers at fixed byte offsets, followed by
its configuration space. The windows of successive controllers lie one page apart.
-/

namespace DiskStack

namespace Register

def magic : Nat := 0x000
def version : Nat := 0x004
def deviceId : Nat := 0x008
def vendorId : Nat := 0x00c
def deviceFeatures : Nat := 0x010
def deviceFeaturesSel : Nat := 0x014
def driverFeatures : Nat := 0x020
def driverFeaturesSel : Nat := 0x024
def queueSel : Nat := 0x030
def queueNumMax : Nat := 0x034
def queueNum : Nat := 0x038
def queueReady : Nat := 0x044
def queueNotify : Nat := 0x050
def interruptStatus : Nat := 0x060
def interruptAck : Nat := 0x064
def status : Nat := 0x070
def queueDescLow : Nat := 0x080
def queueDescHigh : Nat := 0x084
def queueAvailLow : Nat := 0x090
def queueAvailHigh : Nat := 0x094
def queueUsedLow : Nat := 0x0a0
def queueUsedHigh : Nat := 0x0a4
def config : Nat := 0x100

def all : List Nat :=
  [magic, version, deviceId, vendorId, deviceFeatures, deviceFeaturesSel, driverFeatures,
    driverFeaturesSel, queueSel, queueNumMax, queueNum, queueReady, queueNotify, interruptStatus,
    interruptAck, status, queueDescLow, queueDescHigh, queueAvailLow, queueAvailHigh, queueUsedLow,
    queueUsedHigh, config]

end Register

namespace Identity

/-- The magic word of a register window; the other identity words follow. -/
def magic : UInt32 := 0x74726976
def version : UInt32 := 2
def blockDevice : UInt32 := 2
def vendor : UInt32 := 0x554d4551

end Identity

def interruptMask : UInt32 := 0x3

def windowBase : Nat := 0x10001000

def windowStride : Nat := 0x1000

/-- Where a window lies that stands in ordinary memory and not among the numbered ones. -/
def unnumberedWindowBase : Nat := 0x550000000000

def windowAddress (index : Nat) : Except Halt Nat := do
  Checked.add windowBase (← Checked.mul index windowStride)

end DiskStack
