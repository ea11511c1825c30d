import DiskStack.Transport.Dialogue

/-!
# Register windows

A window is plain memory of 32-bit words. Answering a query reads one word; a command writes one
word, or two where it selects the feature word first or splits a 64-bit address.
-/

namespace DiskStack

/-- The words of a window by their number; offsets are in bytes. -/
structure RegisterWindow where
  base : Nat := unnumberedWindowBase
  words : Array UInt32

namespace RegisterWindow

def zeroed (base : Nat) : RegisterWindow := ⟨base, Array.replicate 1024 0⟩

def read (w : RegisterWindow) (offset : Nat) : UInt32 := w.words.getD (offset / 4) 0

def write (w : RegisterWindow) (offset : Nat) (v : UInt32) : RegisterWindow :=
  { w with words := w.words.setIfInBounds (offset / 4) v }

/-- Two words that hold the low and the high half of an address. -/
def writeAddress (w : RegisterWindow) (low high : Nat) (v : UInt64) : RegisterWindow :=
  (w.write low v.toUInt32).write high (v >>> 32).toUInt32

def readAddress (w : RegisterWindow) (low high : Nat) : UInt64 :=
  (w.read low).toUInt64 ||| ((w.read high).toUInt64 <<< 32)

def ask (w : RegisterWindow) : Query → UInt32 × RegisterWindow
  | .magic => (w.read Register.magic, w)
  | .version => (w.read Register.version, w)
  | .deviceId => (w.read Register.deviceId, w)
  | .vendorId => (w.read Register.vendorId, w)
  | .status => ((w.read Register.status).toUInt8.toUInt32, w)
  | .deviceFeatures =>
    let w := w.write Register.deviceFeaturesSel 0
    (w.read Register.deviceFeatures, w)
  | .queueMaxSize => (w.read Register.queueNumMax, w)
  | .queueReady => (if w.read Register.queueReady = 0 then 0 else 1, w)
  | .interruptStatus => (w.read Register.interruptStatus, w)
  | .config offset => (w.read (Register.config + offset), w)

def tell (w : RegisterWindow) : Command → RegisterWindow
  | .setStatus status => w.write Register.status status.toUInt32
  | .setDriverFeatures features =>
    (w.write Register.driverFeaturesSel 0).write Register.driverFeatures features
  | .selectQueue queue => w.write Register.queueSel queue.toUInt32
  | .setQueueSize size => w.write Register.queueNum size.toUInt32
  | .setDescriptorAddress address =>
    w.writeAddress Register.queueDescLow Register.queueDescHigh address
  | .setAvailAddress address =>
    w.writeAddress Register.queueAvailLow Register.queueAvailHigh address
  | .setUsedAddress address => w.writeAddress Register.queueUsedLow Register.queueUsedHigh address
  | .enableQueue => w.write Register.queueReady 1
  | .notifyQueue queue => w.write Register.queueNotify queue.toUInt32
  | .ackInterrupt causes => w.write Register.interruptAck causes

/-- A 32-bit field of the configuration space, whose address has to be a word. -/
def config32 (w : RegisterWindow) (offset : Nat) : Except Halt UInt32 := do
  let _ ← Checked.add w.base (← Checked.add Register.config offset)
  return (w.ask (.config offset)).1

def config64 (w : RegisterWindow) (offset : Nat) : Except Halt UInt64 := do
  let low ← w.config32 offset
  let high ← w.config32 (← Checked.add offset 4)
  return low.toUInt64 ||| (high.toUInt64 <<< 32)

/-- The words below `stop` that differ between two windows, with their new values. -/
def changes (before after : RegisterWindow) (stop : Nat) : List (Nat × UInt32) :=
  (List.range (stop / 4)).filterMap fun i =>
    if before.read (4 * i) = after.read (4 * i) then none else some (4 * i, after.read (4 * i))

end RegisterWindow

end DiskStack
