import DiskStack.Controller.Basic
import DiskStack.Proofs.Orderly

/-!
# What a controller does with one chain

A controller follows the descriptors that it finds in memory. On sound rings whose headers and status
bytes lie apart from each other and from the buffers, the chain of a submission leads it to the
submission's header, buffer and status byte; it moves one block between the image and that buffer,
stores the status, and touches nothing else.
-/

namespace DiskStack

namespace RegisterWindow

theorem read_write_of_ne (w : RegisterWindow) {offset other : Nat} (h : offset / 4 ≠ other / 4)
    (v : UInt32) : (w.write offset v).read other = w.read other := by
  simp [read, write, Array.getElem?_setIfInBounds_ne h]

end RegisterWindow

namespace Controller

variable {c : Controller}

@[simp] theorem queueSize_notifyQueue (queue : UInt16) :
    (c.tell (.notifyQueue queue)).queueSize = c.queueSize := by
  rw [queueSize, tell, RegisterWindow.tell, RegisterWindow.read_write_of_ne _ (by decide), queueSize]

@[simp] theorem queueSize_ackInterrupt (causes : UInt32) :
    (c.tell (.ackInterrupt causes)).queueSize = c.queueSize := by
  simp only [queueSize, tell, RegisterWindow.tell]
  rw [RegisterWindow.read_write_of_ne _ (by decide), RegisterWindow.read_write_of_ne _ (by decide)]

@[simp] theorem queueSize_raiseCause : c.raiseCause.queueSize = c.queueSize := by
  rw [queueSize, raiseCause, RegisterWindow.read_write_of_ne _ (by decide), queueSize]

def carryOut (c : Controller) (m : SharedMemory) (head : UInt16) : Controller × SharedMemory :=
  let h := m.descriptor c.queueSize head
  let d := m.descriptor c.queueSize h.next
  let s := m.descriptor c.queueSize d.next
  let (c, m) := c.moveData m (m.headerAt h.address) d
  (c, m.setStatusAt s.address RequestStatus.ok)

theorem mode_carryOut (m : SharedMemory) (head : UInt16) : (c.carryOut m head).1.mode = c.mode := by
  simp only [carryOut, moveData]
  split <;> rfl

end Controller

namespace Rings

/-- The headers and the status bytes lie apart, and neither wraps around. -/
structure Placed (r : Rings) : Prop where
  headers : r.headers.base.toNat + r.headers.size ≤ wordLimit
  status : r.status.base.toNat + r.status.size ≤ wordLimit
  apart : r.headers.base.toNat + r.headers.size ≤ r.status.base.toNat ∨
    r.status.base.toNat + r.status.size ≤ r.headers.base.toNat

instance (r : Rings) : Decidable r.Placed :=
  decidable_of_iff
    (r.headers.base.toNat + r.headers.size ≤ wordLimit ∧
      r.status.base.toNat + r.status.size ≤ wordLimit ∧
      (r.headers.base.toNat + r.headers.size ≤ r.status.base.toNat ∨
        r.status.base.toNat + r.status.size ≤ r.headers.base.toNat))
    ⟨fun h => ⟨h.1, h.2.1, h.2.2⟩, fun h => ⟨h.headers, h.status, h.apart⟩⟩

/-- An address in neither the headers nor the status bytes. -/
def Misses (r : Rings) (address : UInt64) : Prop :=
  r.headers.offsetOf? address = none ∧ r.status.offsetOf? address = none

instance (r : Rings) (address : UInt64) : Decidable (r.Misses address) :=
  inferInstanceAs (Decidable (_ ∧ _))

variable {r q : Rings} {n : Nat} {h : UInt16} {s : Submission}

theorem Placed.congr (hp : r.Placed) (hbase : q.headers.base = r.headers.base)
    (hsize : q.headers.size = r.headers.size) (sbase : q.status.base = r.status.base)
    (ssize : q.status.size = r.status.size) : q.Placed := by
  refine ⟨?_, ?_, ?_⟩
  · rw [hbase, hsize]
    exact hp.headers
  · rw [sbase, ssize]
    exact hp.status
  · rw [hbase, hsize, sbase, ssize]
    exact hp.apart

theorem Misses.congr {address : UInt64} (hm : r.Misses address)
    (hbase : q.headers.base = r.headers.base) (hsize : q.headers.size = r.headers.size)
    (sbase : q.status.base = r.status.base) (ssize : q.status.size = r.status.size) :
    q.Misses address := by
  rw [Misses, Region.offsetOf?, Region.offsetOf?, hbase, hsize, sbase, ssize]
  exact hm

private theorem Sound.offsetOf?_headerPlace (hr : r.Sound n) (hp : r.Placed) (hh : h.toNat < n) :
    r.headers.offsetOf? (r.headerPlace h) = some (h.toNat * RequestHeader.width) := by
  refine Region.offsetOf?_base_add ?_ hp.headers
  have hfit := hr.headers
  simp only [RequestHeader.width] at hfit ⊢
  omega

private theorem Sound.offsetOf?_statusPlace (hr : r.Sound n) (hp : r.Placed) (hh : h.toNat < n) :
    r.headers.offsetOf? (r.statusPlace h) = none ∧
      r.status.offsetOf? (r.statusPlace h) = some h.toNat := by
  have hfit := hr.status
  have hsome : r.status.offsetOf? (r.statusPlace h) = some h.toNat :=
    Region.offsetOf?_base_add (by omega) hp.status
  refine ⟨?_, hsome⟩
  have hbase := r.status.base.toNat_lt
  have hlimit := hp.status
  have hapart := hp.apart
  have hword : wordLimit = 18446744073709551616 := rfl
  have hplace : (r.statusPlace h).toNat = r.status.base.toNat + h.toNat := by
    rw [statusPlace, UInt64.toNat_add, UInt64.toNat_ofNat']
    omega
  rw [Region.offsetOf?, if_neg]
  rintro ⟨hle, hlt⟩
  have hle' := UInt64.le_iff_toNat_le.1 hle
  omega

end Rings

namespace SharedMemory

variable {m : SharedMemory} {n : Nat} {h : UInt16}

private theorem descriptor_of_lt {i : UInt16} (h : i.toNat < n) :
    m.descriptor n i = m.rings.slot i.toNat := by
  rw [descriptor, Nat.mod_eq_of_lt h]
  rfl

private theorem headerAt_headerPlace (hr : m.rings.Sound n) (hp : m.rings.Placed) (hh : h.toNat < n) :
    m.headerAt (m.rings.headerPlace h) = m.rings.header h := by
  rw [headerAt, load, hr.offsetOf?_headerPlace hp hh]
  rfl

private theorem setStatusAt_statusPlace (hr : m.rings.Sound n) (hp : m.rings.Placed) (hh : h.toNat < n)
    (b : UInt8) :
    m.setStatusAt (m.rings.statusPlace h) b = { m with rings := m.rings.setStatusByte h b } := by
  obtain ⟨hnone, hsome⟩ := hr.offsetOf?_statusPlace hp hh
  rw [setStatusAt, store, hnone, hsome]
  simp only [Region.store_singleton]
  rfl

private theorem load_of_misses {address : UInt64} (hm : m.rings.Misses address) (width : Nat) :
    m.load address width = (m.requests.dataAt address).take width := by
  rw [load, hm.1, hm.2]

private theorem store_of_misses {address : UInt64} (hm : m.rings.Misses address) (bytes : Bytes) :
    m.store address bytes = { m with requests := m.requests.storeAt address bytes } := by
  rw [store, hm.1, hm.2]

end SharedMemory

namespace Controller

variable {c : Controller} {r : Rings} {n : Nat} {h : UInt16} {s : Submission}

private theorem moveData_of_submission (hm : r.Misses s.address) (hsector : s.sector < wordLimit)
    (hlen : s.length < UInt32.size) (ch : Chain) (requests : RequestTable) :
    c.moveData ⟨r, requests⟩ (Rings.headerOf s) (Rings.dataDescriptor ch s) =
      if s.write then
        ({ c with image := c.image.write s.sector ((requests.dataAt s.address).take s.length) },
          ⟨r, requests⟩)
      else
        (c, ⟨r, requests.storeAt s.address (c.image.read s.sector (s.length / sectorSize))⟩) := by
  have hfirst : (Rings.headerOf s).sector.toNat = s.sector := UInt64.toNat_ofNat_of_lt' hsector
  have hcount : (Rings.dataDescriptor ch s).length.toNat = s.length :=
    UInt32.toNat_ofNat_of_lt' hlen
  have haddress : (Rings.dataDescriptor ch s).address = s.address := rfl
  rw [moveData, hfirst, hcount, haddress, SharedMemory.load_of_misses hm]
  cases hw : s.write with
  | true =>
    have hkind : (Rings.headerOf s).kind = RequestHeader.kindWrite := by rw [Rings.headerOf, hw]; rfl
    rw [hkind, if_neg (by decide), if_pos rfl]
  | false =>
    have hkind : (Rings.headerOf s).kind = RequestHeader.kindRead := by rw [Rings.headerOf, hw]; rfl
    rw [hkind, if_pos rfl, if_neg Bool.false_ne_true]
    exact congrArg _ (SharedMemory.store_of_misses (m := ⟨r, requests⟩) hm _)

/-- The chain of a submission is carried out by moving its block and storing its status. -/
theorem carryOut_of_carries (hr : r.Sound n) (hp : r.Placed) (hn : c.queueSize = n)
    (hlt : ∀ i ∈ (r.chainAt h).slots, i.toNat < n) (hc : r.Carries (r.chainAt h) s)
    (hm : r.Misses s.address) (hsector : s.sector < wordLimit) (hlen : s.length < UInt32.size)
    (requests : RequestTable) :
    c.carryOut ⟨r, requests⟩ h =
      if s.write then
        ({ c with image := c.image.write s.sector ((requests.dataAt s.address).take s.length) },
          ⟨r.setStatusByte h RequestStatus.ok, requests⟩)
      else
        (c, ⟨r.setStatusByte h RequestStatus.ok,
          requests.storeAt s.address (c.image.read s.sector (s.length / sectorSize))⟩) := by
  have hlt' : ∀ i ∈ (r.chainAt h).slots, i.toNat < c.queueSize := by rwa [hn]
  have hhead : SharedMemory.descriptor ⟨r, requests⟩ c.queueSize h =
      Rings.headDescriptor (r.chainAt h) (r.headerPlace h) := by
    rw [SharedMemory.descriptor_of_lt (hlt' h (by simp [Chain.slots, Rings.chainAt]))]
    exact hc.head
  have hdata : SharedMemory.descriptor ⟨r, requests⟩ c.queueSize (r.chainAt h).data =
      Rings.dataDescriptor (r.chainAt h) s := by
    rw [SharedMemory.descriptor_of_lt (hlt' _ (by simp [Chain.slots]))]
    exact hc.data
  have hstatus : SharedMemory.descriptor ⟨r, requests⟩ c.queueSize (r.chainAt h).status =
      Rings.statusDescriptor (r.statusPlace h) := by
    rw [SharedMemory.descriptor_of_lt (hlt' _ (by simp [Chain.slots]))]
    exact hc.status
  have hheader : SharedMemory.headerAt ⟨r, requests⟩ (r.headerPlace h) = Rings.headerOf s := by
    rw [SharedMemory.headerAt_headerPlace (m := ⟨r, requests⟩) hr hp
      (hlt h (by simp [Chain.slots, Rings.chainAt]))]
    exact hc.header
  have hmoved := moveData_of_submission (c := c) hm hsector hlen (r.chainAt h) requests
  rw [Rings.dataDescriptor] at hmoved
  simp only [carryOut, hhead, Rings.headDescriptor, hdata, Rings.dataDescriptor, hstatus,
    Rings.statusDescriptor, hheader, hmoved]
  have hplace : (r.chainAt h).head.toNat < n := hlt h (by simp [Chain.slots, Rings.chainAt])
  split
  · exact congrArg _ (SharedMemory.setStatusAt_statusPlace hr hp hplace _)
  · exact congrArg _ (SharedMemory.setStatusAt_statusPlace hr hp hplace _)

end Controller

end DiskStack
