import DiskStack.Controller.Image
import DiskStack.Drive.Rings
import DiskStack.Drive.RequestTable
import DiskStack.Transport.Window

/-!
# Controllers

A controller is a register window in front of a disk image. It takes chains off the available ring,
carries them out on the image and reports them on the used ring; when it does so, and which of the
chains it has taken it finishes first, is up to whoever runs it. It can be told to fail a range of
sectors, to leave status bytes alone or to refuse features.
-/

namespace DiskStack

/-- What follows a notification: the controller works when nobody else does, when it is told to, or
at once with its interrupt on the notifying core. -/
inductive NotifyMode
  | auto
  | manual
  | sameCore
  deriving DecidableEq, Repr

structure Controller where
  window : RegisterWindow
  image : Image := Image.blank
  mode : NotifyMode := .auto
  rejectFeatures : Bool := false
  skipStatus : Bool := false
  /-- The sectors from the first bound up to the second fail. -/
  failing : Option (Nat × Nat) := none
  failStatus : UInt8 := RequestStatus.ioError
  notified : Bool := false
  lastAvail : UInt16 := 0
  usedIndex : UInt16 := 0
  /-- Chains taken off the available ring and not yet carried out. -/
  held : List UInt16 := []

namespace Controller

/-- A window with the identity of a block controller, a queue of up to 16 and a capacity; the given
words are stored over it. -/
def windowOf (capacity : Nat) (words : List (Nat × UInt32)) : RegisterWindow :=
  let preset := [(Register.magic, Identity.magic), (Register.version, Identity.version),
    (Register.deviceId, Identity.blockDevice), (Register.vendorId, Identity.vendor),
    (Register.queueNumMax, 16), (Register.config, UInt32.ofNat capacity),
    (Register.config + 4, UInt32.ofNat (capacity / UInt32.size))]
  (preset ++ words).foldl (fun w e => w.write e.1 e.2) (.zeroed unnumberedWindowBase)

def ask (c : Controller) (q : Query) : UInt32 × Controller :=
  let (answer, window) := c.window.ask q
  (answer, { c with window })

def tell (c : Controller) : Command → Controller
  | .setStatus status =>
    let kept := if c.rejectFeatures then status &&& ~~~DeviceStatus.featuresOk else status
    { c with window := c.window.tell (.setStatus kept) }
  | .ackInterrupt causes =>
    let window := c.window.tell (.ackInterrupt causes)
    let left := window.read Register.interruptStatus &&& ~~~causes
    { c with window := window.write Register.interruptStatus left }
  | .notifyQueue queue => { c with window := c.window.tell (.notifyQueue queue), notified := true }
  | command => { c with window := c.window.tell command }

/-- The size of the queue: the low half of its register. -/
def queueSize (c : Controller) : Nat := (c.window.read Register.queueNum).toUInt16.toNat

/-- Whether the queue has been handed over: it is enabled, has entries, and each of its three parts
has an address. -/
def isSetUp (c : Controller) : Bool :=
  c.window.read Register.queueReady != 0 && c.queueSize != 0 &&
    c.window.readAddress Register.queueDescLow Register.queueDescHigh != 0 &&
    c.window.readAddress Register.queueAvailLow Register.queueAvailHigh != 0 &&
    c.window.readAddress Register.queueUsedLow Register.queueUsedHigh != 0

def capacity (c : Controller) : Nat :=
  (c.window.read Register.config).toNat +
    UInt32.size * (c.window.read (Register.config + 4)).toNat

def raiseCause (c : Controller) : Controller :=
  let causes := c.window.read Register.interruptStatus ||| 1
  { c with window := c.window.write Register.interruptStatus causes }

/-- Whether some of `count` sectors from `first` on are told to fail. -/
def fails (c : Controller) (first count : Nat) : Bool :=
  c.failing.any fun range => first < range.2 && range.1 < first + count

end Controller

structure SharedMemory where
  rings : Rings
  requests : RequestTable

namespace SharedMemory

/-- The bytes at an address: of the request headers, of the status bytes, or of a buffer. -/
def load (m : SharedMemory) (address : UInt64) (width : Nat) : Bytes :=
  match m.rings.headers.offsetOf? address, m.rings.status.offsetOf? address with
  | some offset, _ => m.rings.headers.load offset width
  | none, some offset => m.rings.status.load offset width
  | none, none => (m.requests.dataAt address).take width

def store (m : SharedMemory) (address : UInt64) (bytes : Bytes) : SharedMemory :=
  match m.rings.headers.offsetOf? address, m.rings.status.offsetOf? address with
  | some offset, _ => { m with rings.headers := m.rings.headers.store offset bytes }
  | none, some offset => { m with rings.status := m.rings.status.store offset bytes }
  | none, none => { m with requests := m.requests.storeAt address bytes }

/-- The descriptor that a controller with a queue of the given size finds for a slot number. -/
def descriptor (m : SharedMemory) (queueSize : Nat) (i : UInt16) : Descriptor :=
  Descriptor.decode
    (m.rings.queue.pool.table.load (Descriptor.width * (i.toNat % queueSize)) Descriptor.width)

def headerAt (m : SharedMemory) (address : UInt64) : RequestHeader :=
  RequestHeader.decode (m.load address RequestHeader.width)

def statusAt (m : SharedMemory) (address : UInt64) : UInt8 := (m.load address 1).headD 0

def setStatusAt (m : SharedMemory) (address : UInt64) (b : UInt8) : SharedMemory :=
  m.store address [b]

def offered (m : SharedMemory) (queueSize : Nat) (i : UInt16) : UInt16 :=
  m.rings.queue.avail.region.load16 (AvailRing.ringOffset + 2 * (i.toNat % queueSize))

/-- Reports an element at a position of the used ring and moves the index past it. -/
def report (m : SharedMemory) (queueSize : Nat) (i : UInt16) (e : UsedElement) : SharedMemory :=
  let offset := UsedRing.ringOffset + UsedRing.elementWidth * (i.toNat % queueSize)
  let region := m.rings.queue.used.region
  let region := (region.store32 offset e.id).store32 (offset + 4) e.length
  { m with rings.queue.used.region := region.store16 UsedRing.indexOffset (i + 1) }

end SharedMemory

structure ChainReport where
  head : UInt16
  descriptors : List Descriptor
  header : RequestHeader
  preset : UInt8
  status : UInt8
  deriving DecidableEq, Repr

namespace Controller

/-- Whether three descriptors have the form of a request. -/
def isWellFormed (header : RequestHeader) (h d s : Descriptor) : Bool :=
  h.flags == DescriptorFlags.next && h.length == 16 &&
    d.flags == Rings.dataFlags (header.kind != RequestHeader.kindRead) &&
    s.flags == DescriptorFlags.write && s.length == 1

/-- The status of a request that is not carried out. -/
def refusal? (c : Controller) (header : RequestHeader) (h d s : Descriptor) : Option UInt8 :=
  let first := header.sector.toNat
  let count := d.length.toNat / sectorSize
  if c.fails first count then some c.failStatus
  else if !isWellFormed header h d s || c.capacity < first + count then
    some RequestStatus.ioError
  else none

def moveData (c : Controller) (m : SharedMemory) (header : RequestHeader) (d : Descriptor) :
    Controller × SharedMemory :=
  let first := header.sector.toNat
  let length := d.length.toNat
  if header.kind = RequestHeader.kindRead then
    let bytes := c.image.read first (length / sectorSize)
    (c, m.store d.address bytes)
  else
    let bytes := m.load d.address length
    ({ c with image := c.image.write first bytes }, m)

/-- Carries out one chain, or refuses it, and reports it. -/
def finish (c : Controller) (m : SharedMemory) (head : UInt16) :
    ChainReport × Controller × SharedMemory :=
  let h := m.descriptor c.queueSize head
  let d := m.descriptor c.queueSize h.next
  let s := m.descriptor c.queueSize d.next
  let header := m.headerAt h.address
  let preset := m.statusAt s.address
  let refusal := c.refusal? header h d s
  let (c, m) := if refusal.isSome then (c, m) else c.moveData m header d
  let status := refusal.getD RequestStatus.ok
  let m := if c.skipStatus then m else m.setStatusAt s.address status
  let m := m.report c.queueSize c.usedIndex ⟨head.toUInt32, d.length⟩
  let c := { c with usedIndex := c.usedIndex + 1 }
  (⟨head, [h, d, s], header, preset, m.statusAt s.address⟩, c.raiseCause, m)

def finishAll (c : Controller) (m : SharedMemory) :
    List UInt16 → List ChainReport × Controller × SharedMemory
  | [] => ([], c, m)
  | head :: rest =>
    let (report, c, m) := c.finish m head
    let (reports, c, m) := c.finishAll m rest
    (report :: reports, c, m)

/-- The chains held from before, and then the newly offered ones. -/
def batch (c : Controller) (m : SharedMemory) : List UInt16 :=
  let fresh := (m.rings.queue.avail.index - c.lastAvail).toNat
  c.held ++ (List.range fresh).map fun i => m.offered c.queueSize (c.lastAvail + UInt16.ofNat i)

/-- Takes the offered chains and carries out those at the chosen positions of the batch, or all of
them; the others are held. -/
def work (c : Controller) (m : SharedMemory) (order : Option (List Nat)) :
    List ChainReport × Controller × SharedMemory :=
  let batch := c.batch m
  let chosen := order.getD (List.range batch.length)
  let held := (List.range batch.length).filter fun i => !chosen.contains i
  let lastAvail := m.rings.queue.avail.index
  let c := { c with lastAvail, held := held.filterMap fun i => batch[i]? }
  c.finishAll m (chosen.filterMap fun i => batch[i]?)

def inject (c : Controller) (m : SharedMemory) (e : UsedElement) : Controller × SharedMemory :=
  let m := m.report c.queueSize c.usedIndex e
  ({ c with usedIndex := c.usedIndex + 1 }.raiseCause, m)

end Controller

end DiskStack
