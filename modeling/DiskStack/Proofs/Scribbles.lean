import DiskStack.Controller.Basic
import DiskStack.Proofs.Image
import DiskStack.Proofs.Requests
import DiskStack.Proofs.Rings

/-!
# What a controller may write

A controller may write anything it likes into the memory that it shares with a drive, except for the
descriptors, and changes no buffer's length. Its own work is of that kind whatever it finds in the
rings, as long as no descriptor is longer than a buffer.
-/

namespace DiskStack

namespace RequestTable

variable {t t' t'' : RequestTable}

private theorem Rewritten.trans (h : t.Rewritten t') (h' : t'.Rewritten t'') : t.Rewritten t'' := by
  refine ⟨h'.keys.trans h.keys, fun id q hq => ?_⟩
  obtain ⟨data, hlen, hq'⟩ := h.find id q hq
  obtain ⟨data', hlen', hq''⟩ := h'.find id _ hq'
  exact ⟨data', hlen'.trans hlen, hq''⟩

theorem Rewritten.isPending_eq (h : t.Rewritten t') (id : RequestId) :
    t'.isPending id = t.isPending id := by
  rw [isPending, isPending]
  cases hq : t.find? id with
  | some q =>
    obtain ⟨data, -, hq'⟩ := h.find id q hq
    rw [hq']
    rfl
  | none =>
    cases hq' : t'.find? id with
    | none => rfl
    | some q =>
      obtain ⟨data, -, hback⟩ := h.back hq'
      rw [hq] at hback
      cases hback

private theorem rewritten_storeAt {bytes : Bytes}
    (h : ∀ id q, t.find? id = some q → bytes.length ≤ q.length)
    (address : UInt64) : t.Rewritten (t.storeAt address bytes) := by
  refine ⟨keys_storeAt address bytes, fun id q hq => ?_⟩
  rw [find?_storeAt, hq, Option.map_some]
  split
  · refine ⟨q.data.splice 0 bytes, Bytes.length_splice ?_, rfl⟩
    rw [Nat.zero_add]
    exact h id q hq
  · exact ⟨q.data, rfl, rfl⟩

/-- Whether the request of a name writes its block, if there is one. -/
def direction? (t : RequestTable) (id : RequestId) : Option Bool := (t.find? id).map (·.write)

theorem Rewritten.direction? (h : t.Rewritten t') (id : RequestId) :
    t'.direction? id = t.direction? id := by
  rw [RequestTable.direction?, RequestTable.direction?]
  cases hq : t.find? id with
  | some q =>
    obtain ⟨data, -, hq'⟩ := h.find id q hq
    rw [hq']
    rfl
  | none =>
    cases hq' : t'.find? id with
    | none => rfl
    | some q =>
      obtain ⟨data, -, hback⟩ := h.back hq'
      rw [hq] at hback
      cases hback

private theorem direction?_storeAt (address : UInt64) (bytes : Bytes) (id : RequestId) :
    (t.storeAt address bytes).direction? id = t.direction? id := by
  rw [RequestTable.direction?, RequestTable.direction?, find?_storeAt, Option.map_map]
  congr 1
  funext q
  rw [Function.comp_apply]
  split <;> rfl

theorem direction?_setPending (other id : RequestId) (pending : Bool) :
    (t.setPending other pending).direction? id = t.direction? id := by
  rw [RequestTable.direction?, RequestTable.direction?, find?_setPending]
  split
  · rw [Option.map_map]
    rfl
  · rfl

end RequestTable

/-- The same region with other bytes. -/
structure Region.Rewritten (r q : Region) : Prop where
  base : q.base = r.base
  size : q.size = r.size

namespace Region

variable {r q s : Region}

theorem Rewritten.refl (r : Region) : r.Rewritten r := ⟨rfl, rfl⟩

private theorem Rewritten.trans (h : r.Rewritten q) (h' : q.Rewritten s) : r.Rewritten s :=
  ⟨h'.base.trans h.base, h'.size.trans h.size⟩

private theorem rewritten_store (offset : Nat) (bytes : Bytes) : r.Rewritten (r.store offset bytes) :=
  ⟨base_store r offset bytes, size_store r offset bytes⟩

end Region

/-- Rings with other headers, status bytes, offers and reports. What the driver keeps to itself is as it
was. -/
structure Rings.Overwritten (r q : Rings) : Prop where
  pool : q.queue.pool = r.queue.pool
  entries : q.inFlight = r.inFlight
  headers : r.headers.Rewritten q.headers
  status : r.status.Rewritten q.status
  avail : r.queue.avail.region.Rewritten q.queue.avail.region
  availSize : q.queue.avail.size = r.queue.avail.size
  used : r.queue.used.region.Rewritten q.queue.used.region
  usedSize : q.queue.used.size = r.queue.used.size

namespace Rings

variable {r q s : Rings} {n : Nat}

private theorem Overwritten.refl (r : Rings) : r.Overwritten r :=
  ⟨rfl, rfl, .refl _, .refl _, .refl _, rfl, .refl _, rfl⟩

private theorem Overwritten.trans (h : r.Overwritten q) (h' : q.Overwritten s) : r.Overwritten s where
  pool := h'.pool.trans h.pool
  entries := h'.entries.trans h.entries
  headers := h.headers.trans h'.headers
  status := h.status.trans h'.status
  avail := h.avail.trans h'.avail
  availSize := h'.availSize.trans h.availSize
  used := h.used.trans h'.used
  usedSize := h'.usedSize.trans h.usedSize

theorem Sound.overwritten (hr : r.Sound n) (h : r.Overwritten q) : q.Sound n where
  pool := by rw [h.pool]; exact hr.pool
  poolSize := by rw [h.pool]; exact hr.poolSize
  availSize := by rw [h.availSize]; exact hr.availSize
  usedSize := by rw [h.usedSize]; exact hr.usedSize
  entries := by rw [h.entries]; exact hr.entries
  headers := by rw [h.headers.size]; exact hr.headers
  status := by rw [h.status.size]; exact hr.status
  avail := by rw [h.avail.size]; exact hr.avail
  used := by rw [h.used.size]; exact hr.used
  least := hr.least

private theorem overwritten_store (m : SharedMemory) (address : UInt64) (bytes : Bytes) :
    m.rings.Overwritten (m.store address bytes).rings := by
  rw [SharedMemory.store]
  split
  · exact { Overwritten.refl m.rings with headers := Region.rewritten_store _ _ }
  · exact { Overwritten.refl m.rings with status := Region.rewritten_store _ _ }
  · exact .refl m.rings

private theorem overwritten_report (m : SharedMemory) (queueSize : Nat) (i : UInt16) (e : UsedElement) :
    m.rings.Overwritten (m.report queueSize i e).rings :=
  { Overwritten.refl m.rings with
    used := ((Region.rewritten_store _ _).trans (Region.rewritten_store _ _)).trans
      (Region.rewritten_store _ _) }

end Rings

/-- Memory in which a controller may have changed anything but the descriptors and the lengths of the
buffers. What the driver keeps to itself is as it was. -/
structure SharedMemory.Scribbled (m m' : SharedMemory) : Prop where
  pool : m'.rings.queue.pool = m.rings.queue.pool
  entries : m'.rings.inFlight = m.rings.inFlight
  headers : m.rings.headers.Rewritten m'.rings.headers
  status : m.rings.status.Rewritten m'.rings.status
  avail : m.rings.queue.avail.region.Rewritten m'.rings.queue.avail.region
  availSize : m'.rings.queue.avail.size = m.rings.queue.avail.size
  used : m.rings.queue.used.region.Rewritten m'.rings.queue.used.region
  usedSize : m'.rings.queue.used.size = m.rings.queue.used.size
  lastSeen : m'.rings.queue.used.lastSeen = m.rings.queue.used.lastSeen
  requests : m.requests.Rewritten m'.requests

/-- Memory whose descriptors are no longer than its buffers, which are all of one size. -/
structure SharedMemory.Sized (m : SharedMemory) (size : Nat) : Prop where
  pos : 0 < size
  buffers : ∀ id q, m.requests.find? id = some q → q.length = size
  slots : ∀ j, (m.rings.slot j).length.toNat ≤ size

namespace SharedMemory

variable {m m' m'' : SharedMemory} {size : Nat}

private theorem Scribbled.refl (m : SharedMemory) : m.Scribbled m :=
  ⟨rfl, rfl, .refl _, .refl _, .refl _, rfl, .refl _, rfl, rfl, .refl _⟩

theorem Scribbled.overwritten (h : m.Scribbled m') : m.rings.Overwritten m'.rings := { h with }

private theorem Scribbled.trans (h : m.Scribbled m') (h' : m'.Scribbled m'') : m.Scribbled m'' :=
  { h.overwritten.trans h'.overwritten with
    lastSeen := h'.lastSeen.trans h.lastSeen
    requests := h.requests.trans h'.requests }

theorem Sized.scribbled (hm : m.Sized size) (h : m.Scribbled m') : m'.Sized size where
  pos := hm.pos
  buffers := fun id q hq => by
    obtain ⟨data, hlen, hq'⟩ := h.requests.back hq
    exact hlen.symm.trans (hm.buffers id _ hq')
  slots := fun j => by
    rw [Rings.slot, h.pool]
    exact hm.slots j

private theorem Sized.store (hm : m.Sized size) {bytes : Bytes} (hlen : bytes.length ≤ size)
    (address : UInt64) :
    m.Scribbled (m.store address bytes) := by
  rw [SharedMemory.store]
  split
  · exact { Scribbled.refl m with headers := Region.rewritten_store _ _ }
  · exact { Scribbled.refl m with status := Region.rewritten_store _ _ }
  · refine { Scribbled.refl m with requests := RequestTable.rewritten_storeAt (fun id q hq => ?_) _ }
    rw [hm.buffers id q hq]
    exact hlen

theorem scribbled_report (queueSize : Nat) (i : UInt16) (e : UsedElement) :
    m.Scribbled (m.report queueSize i e) :=
  { Scribbled.refl m with used := (Rings.overwritten_report m queueSize i e).used }

end SharedMemory

private theorem Image.Whole.write {image : Image} (h : image.Whole) (first : Nat) (data : Bytes) :
    (image.write first data).Whole := by
  fun_induction Image.write image first data with
  | case1 => exact h
  | case2 image first data hne sector ih =>
    apply ih
    intro i
    rw [sector_set]
    split
    · rw [← h first]
      apply Bytes.length_splice
      rw [Nat.zero_add, h first, List.length_take]
      exact Nat.min_le_left _ _
    · exact h i

namespace Controller

variable {c : Controller} {m : SharedMemory} {size : Nat}

private theorem scribbled_moveData (hw : c.image.Whole) (hm : m.Sized size) (header : RequestHeader)
    {d : Descriptor} (hd : d.length.toNat ≤ size) :
    m.Scribbled (c.moveData m header d).2 ∧ (c.moveData m header d).1.image.Whole := by
  rw [moveData]
  split
  · refine ⟨hm.store ?_ _, hw⟩
    rw [Image.length_read hw]
    exact Nat.le_trans (Nat.mul_div_le _ _) hd
  · exact ⟨.refl m, hw.write _ _⟩

private theorem scribbled_finish (hw : c.image.Whole) (hm : m.Sized size) (head : UInt16) :
    m.Scribbled (c.finish m head).2.2 ∧ (c.finish m head).2.1.image.Whole := by
  have hdata : ∀ i : UInt16, (m.descriptor c.queueSize i).length.toNat ≤ size := fun i => hm.slots _
  have hmoved : ∀ (header : RequestHeader) (i : UInt16) (refused : Bool),
      m.Scribbled (if refused then (c, m) else
        c.moveData m header (m.descriptor c.queueSize i)).2 ∧
      (if refused then (c, m) else
        c.moveData m header (m.descriptor c.queueSize i)).1.image.Whole := fun header i refused => by
    cases refused with
    | true => exact ⟨.refl m, hw⟩
    | false => exact scribbled_moveData hw hm header (hdata i)
  have hstored : ∀ {c' : Controller} {m' : SharedMemory} (address : UInt64) (b : UInt8),
      m.Scribbled m' → m.Scribbled (if c'.skipStatus then m' else m'.setStatusAt address b) :=
    fun address b h => by
      split
      · exact h
      · have hone : [b].length ≤ size := hm.pos
        exact h.trans ((hm.scribbled h).store hone address)
  rw [finish]
  exact ⟨(hstored _ _ (hmoved _ _ _).1).trans (SharedMemory.scribbled_report _ _ _), (hmoved _ _ _).2⟩

private theorem scribbled_finishAll (hw : c.image.Whole) (hm : m.Sized size) (heads : List UInt16) :
    m.Scribbled (c.finishAll m heads).2.2 ∧ (c.finishAll m heads).2.1.image.Whole := by
  induction heads generalizing c m with
  | nil => exact ⟨.refl m, hw⟩
  | cons head rest ih =>
    obtain ⟨hfirst, hwhole⟩ := scribbled_finish hw hm head
    obtain ⟨hrest, hwhole⟩ := ih hwhole (hm.scribbled hfirst)
    exact ⟨hfirst.trans hrest, hwhole⟩

/-- Whatever it finds in the rings, a controller at work writes only what it may. -/
theorem scribbled_work (hw : c.image.Whole) (hm : m.Sized size) (order : Option (List Nat)) :
    m.Scribbled (c.work m order).2.2 ∧ (c.work m order).2.1.image.Whole := by
  rw [work]
  exact scribbled_finishAll (by exact hw) hm _

/-! ### What every store and every report keeps -/

section stores

variable {P : SharedMemory → Prop} (store : ∀ m address bytes, P m → P (m.store address bytes))
  (report : ∀ m queueSize i e, P m → P (m.report queueSize i e))
include store report

private theorem finish_keeps (hm : P m) (head : UInt16) : P (c.finish m head).2.2 := by
  have hmoved : ∀ (header : RequestHeader) (d : Descriptor) (refused : Bool),
      P (if refused then (c, m) else c.moveData m header d).2 := fun header d refused => by
    cases refused with
    | true => exact hm
    | false =>
      simp only [Bool.false_eq_true, if_false, moveData]
      split
      · exact store _ _ _ hm
      · exact hm
  have hstored : ∀ {c' : Controller} {m' : SharedMemory} (address : UInt64) (b : UInt8),
      P m' → P (if c'.skipStatus then m' else m'.setStatusAt address b) := fun address b h => by
    split
    · exact h
    · exact store _ _ _ h
  rw [finish]
  exact report _ _ _ _ (hstored _ _ (hmoved _ _ _))

private theorem finishAll_keeps (hm : P m) (heads : List UInt16) : P (c.finishAll m heads).2.2 := by
  induction heads generalizing c m with
  | nil => exact hm
  | cons head rest ih => exact ih (finish_keeps store report hm head)

private theorem work_keeps (hm : P m) (order : Option (List Nat)) : P (c.work m order).2.2 := by
  rw [work]
  exact finishAll_keeps store report hm _

end stores

theorem overwritten_work (c : Controller) (m : SharedMemory) (order : Option (List Nat)) :
    m.rings.Overwritten (c.work m order).2.2.rings :=
  work_keeps (P := fun m' => m.rings.Overwritten m'.rings)
    (fun m' address bytes h => h.trans (Rings.overwritten_store m' address bytes))
    (fun m' queueSize i e h => h.trans (Rings.overwritten_report m' queueSize i e)) (.refl _) order

theorem direction?_work (c : Controller) (m : SharedMemory) (order : Option (List Nat))
    (id : RequestId) : (c.work m order).2.2.requests.direction? id = m.requests.direction? id := by
  refine work_keeps (P := fun m' => m'.requests.direction? id = m.requests.direction? id)
    (fun m' address bytes h => ?_) (fun m' queueSize i e h => h) rfl order
  rw [SharedMemory.store]
  split
  · exact h
  · exact h
  · exact (RequestTable.direction?_storeAt address bytes id).trans h

end Controller

end DiskStack
