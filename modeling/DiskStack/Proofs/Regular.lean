import DiskStack.Proofs.Orderly
import DiskStack.Proofs.Scribbles

/-!
# Order under any controller

The driver never reads the request headers that it has written. A controller that overwrites them
spoils the order of a view, but only in so far: a view is regular if it would be in order with other
headers in the place of its own. Each step of the driver keeps a view regular, and so does all that a
controller may write.
-/

namespace DiskStack

namespace Rings

variable {r q : Rings} {n : Nat} {h : Region}

def withHeaders (r : Rings) (h : Region) : Rings := { r with headers := h }

private theorem Sound.withHeaders (hr : r.Sound n) (hh : r.headers.Rewritten h) :
    (r.withHeaders h).Sound n :=
  { hr with
    headers := by
      have hfit := hr.headers
      rw [← hh.size] at hfit
      exact hfit }

private theorem offer_withHeaders {head : UInt16} (hp : r.offer head = .ok q) (h : Region) :
    q.headers = r.headers ∧ (r.withHeaders h).offer head = .ok (q.withHeaders h) := by
  cases hpush : r.queue.avail.push head with
  | error e =>
    simp only [offer, hpush, bind, Except.bind] at hp
    cases hp
  | ok avail =>
    have hpush' : (r.withHeaders h).queue.avail.push head = .ok avail := hpush
    simp only [offer, hpush, bind, Except.bind, pure, Except.pure] at hp
    cases hp
    refine ⟨rfl, ?_⟩
    simp only [offer, hpush', bind, Except.bind, pure, Except.pure]
    rfl

private theorem Sound.publish_withHeaders (hr : r.Sound n) (hh : r.headers.Rewritten h) {c : Chain}
    {s : Submission} (hlt : ∀ i ∈ c.slots, i.toNat < n) (hp : r.publish c s = .ok q) :
    ∃ h', q.headers.Rewritten h' ∧ (r.withHeaders h).publish c s = .ok (q.withHeaders h') := by
  have hhead := hlt c.head (by simp [Chain.slots])
  have hdata := hlt c.data (by simp [Chain.slots])
  have hstatus := hlt c.status (by simp [Chain.slots])
  rw [hr.publish_eq c s hhead hdata hstatus] at hp
  rw [(hr.withHeaders hh).publish_eq c s hhead hdata hstatus]
  have hplace : (r.withHeaders h).headerPlace c.head = r.headerPlace c.head := by
    rw [headerPlace, headerPlace, Rings.withHeaders, hh.base]
  have hfilled : (r.withHeaders h).filled c s = (r.filled c s).withHeaders
      (h.store (c.head.toNat * RequestHeader.width) (headerOf s).encode) := by
    rw [filled, hplace]
    rfl
  obtain ⟨hsame, hoffer⟩ := offer_withHeaders hp
    (h.store (c.head.toNat * RequestHeader.width) (headerOf s).encode)
  refine ⟨h.store (c.head.toNat * RequestHeader.width) (headerOf s).encode, ⟨?_, ?_⟩, ?_⟩
  · rw [hsame, filled, Region.base_store, Region.base_store, hh.base]
  · rw [hsame, filled, Region.size_store, Region.size_store, hh.size]
  · rw [hfilled, hoffer]

end Rings

namespace View

variable {b : BayId} {v v' : View} {t : TaskId} {s : ReadyState} {h : Region}

/-- The view with other headers in the place of those of a ready drive. -/
def withHeaders (v : View) (h : Region) : View :=
  { v with
    state :=
      match v.state with
      | .ready s => .ready { s with rings := s.rings.withHeaders h }
      | state => state }

private theorem state_withHeaders (hs : v.state = .ready s) (h : Region) :
    (v.withHeaders h).state = .ready { s with rings := s.rings.withHeaders h } := by
  rw [withHeaders, hs]

private theorem withHeaders_of_not_ready (hs : v.state.isReady = false) (h : Region) :
    v.withHeaders h = v := by
  cases hstate : v.state with
  | ready s =>
    rw [hstate] at hs
    cases hs
  | uninitialized | incompatible =>
    rw [withHeaders, hstate]
    simp only [← hstate]

private theorem withHeaders_self (hs : v.state = .ready s) : v.withHeaders s.rings.headers = v := by
  rw [withHeaders, hs]
  change { v with state := DriveState.ready s } = v
  rw [← hs]

/-- A view that is in order but for the headers, on an image of whole sectors, with buffers of one
block and no longer descriptors. -/
structure Regular (b : BayId) (v : View) : Prop where
  orderly : ∃ h, (∀ s, v.state = .ready s → s.rings.headers.Rewritten h) ∧ (v.withHeaders h).Orderly b
  image : v.controller.image.Whole
  buffers : ∀ id q, v.requests.find? id = some q → q.length = v.config.blockSize
  least : ∀ s, v.state = .ready s → sectorSize ≤ v.config.blockSize
  slots : ∀ s, v.state = .ready s → ∀ j, (s.rings.slot j).length.toNat ≤ v.config.blockSize

theorem Orderly.exists_headers (ho : v.Orderly b) :
    ∃ h, (∀ s, v.state = .ready s → s.rings.headers.Rewritten h) ∧ (v.withHeaders h).Orderly b := by
  cases hs : v.state with
  | ready s =>
    refine ⟨s.rings.headers, fun s' hs' => ?_, ?_⟩
    · cases hs'
      exact .refl _
    · rw [withHeaders_self hs]
      exact ho
  | uninitialized | incompatible =>
    refine ⟨.zeroed 0 0, fun s' hs' => (by cases hs'), ?_⟩
    rw [withHeaders_of_not_ready (by rw [hs]; rfl)]
    exact ho

/-! ### What the driver goes by -/

theorem Regular.balanced (hr : v.Regular b) (hs : v.state = .ready s) :
    s.rings.Balanced v.config.queueSize.toNat := by
  obtain ⟨h, hh, ho⟩ := hr.orderly
  have hb := (ho.kept _ (state_withHeaders hs h)).balanced
  have hback : (s.rings.withHeaders h).headers.Rewritten s.rings.headers :=
    ⟨(hh s hs).base.symm, (hh s hs).size.symm⟩
  exact hb.congr (q := s.rings) (hb.sound.withHeaders hback) rfl rfl

theorem Regular.underway (hr : v.Regular b) {p : Program Reply}
    (hp : (v.activity t).program? = some p) : p.Underway b := by
  obtain ⟨h, -, ho⟩ := hr.orderly
  exact ho.underway t p hp

theorem Regular.live (hr : v.Regular b) {g : Stage} (hg : v.stage t = some g) :
    ∃ q, v.requests.find? g.request = some q := by
  obtain ⟨h, -, ho⟩ := hr.orderly
  obtain ⟨q, hq, -⟩ := ho.live t g hg
  exact ⟨q, hq⟩

theorem Regular.own (hr : v.Regular b) {u : TaskId} {g g' : Stage} (hg : v.stage t = some g)
    (hg' : v.stage u = some g') (h : g.request = g'.request) : t = u := by
  obtain ⟨h, -, ho⟩ := hr.orderly
  exact ho.own t u g g' hg hg' ‹_›

theorem Regular.isReady (hr : v.Regular b) {g : Stage} (hg : v.stage t = some g) :
    ∃ s, v.state = .ready s := by
  obtain ⟨h, -, ho⟩ := hr.orderly
  cases hs : v.state with
  | ready s => exact ⟨s, rfl⟩
  | uninitialized | incompatible =>
    have hnot : v.state.isReady = false := by rw [hs]; rfl
    have hnone := ho.idle (by rw [withHeaders_of_not_ready hnot]; exact hnot) t
    cases hnone.symm.trans hg

theorem Regular.named (hr : v.Regular b) {g : Stage} (hg : v.stage t = some g) :
    g.request < v.nextRequest := by
  obtain ⟨h, -, ho⟩ := hr.orderly
  obtain ⟨q, hq, -⟩ := ho.live t g hg
  exact ho.named _ q hq

theorem Regular.entered (hr : v.Regular b) (hs : v.state = .ready s) {k : UInt16} {e : InFlight}
    (he : s.rings.entryAt k.toNat = some e) :
    ∃ t q, v.stage t = some (.complete e.request e.ticket) ∧
      v.requests.find? e.request = some q ∧ q.pending = true := by
  obtain ⟨h, -, ho⟩ := hr.orderly
  obtain ⟨t, q, ht, hq, hpending, -⟩ := (ho.kept _ (state_withHeaders hs h)).entered k e he
  exact ⟨t, q, ht, hq, hpending⟩

theorem Regular.pending (hr : v.Regular b) {id : RequestId} {ticket : UInt64}
    (ht : v.stage t = some (.complete id ticket)) (hpending : v.requests.isPending id = true) :
    ∃ s, v.state = .ready s ∧ ∃ k : UInt16, s.rings.entryAt k.toNat = some ⟨id, ticket⟩ := by
  obtain ⟨s, hs⟩ := hr.isReady ht
  obtain ⟨h, -, ho⟩ := hr.orderly
  obtain ⟨q, hq⟩ := hr.live ht
  rw [RequestTable.isPending, show v.requests.find? id = some q from hq] at hpending
  exact ⟨s, hs, (ho.kept _ (state_withHeaders hs h)).pending t id ticket q ht hq hpending⟩

theorem Regular.sized (hr : v.Regular b) (hs : v.state = .ready s) :
    SharedMemory.Sized ⟨s.rings, v.requests⟩ v.config.blockSize where
  pos := Nat.lt_of_lt_of_le (by decide) (hr.least s hs)
  buffers := hr.buffers
  slots := hr.slots s hs

/-! ### Steps that keep a view regular -/

theorem Regular.act (hr : v.Regular b) (t : TaskId) (a : Activity)
    (hunder : ∀ p, a.program? = some p → p.Underway b)
    (hstage : a.program?.bind Program.stage? = v.stage t) : (v.act t a).Regular b := by
  obtain ⟨h, hh, ho⟩ := hr.orderly
  exact ⟨⟨h, hh, ho.act t a hunder hstage⟩, hr.image, hr.buffers, hr.least, hr.slots⟩

/-- A task that goes on with the same program keeps a view regular, whether it runs or waits. -/
theorem Regular.act_same (hr : v.Regular b) {a : Activity}
    (ha : a.program? = (v.activity t).program?) : (v.act t a).Regular b :=
  hr.act t a (fun _ hp => hr.underway (ha ▸ hp)) (by rw [stage, ha])

theorem Regular.setArena (hr : v.Regular b) (arena : Arena) : { v with arena }.Regular b := by
  obtain ⟨h, hh, ho⟩ := hr.orderly
  exact ⟨⟨h, hh, ho.setArena arena⟩, hr.image, hr.buffers, hr.least, hr.slots⟩

theorem Regular.setScratch (hr : v.Regular b) (scratch : SleepLock Bytes) :
    { v with scratch }.Regular b := by
  obtain ⟨h, hh, ho⟩ := hr.orderly
  exact ⟨⟨h, hh, ho.congr ho.underway (fun _ => rfl) rfl rfl rfl rfl⟩, hr.image, hr.buffers, hr.least,
    hr.slots⟩

theorem Regular.setController (hr : v.Regular b) {c : Controller} (hc : c.image.Whole) :
    { v with controller := c }.Regular b := by
  obtain ⟨h, hh, ho⟩ := hr.orderly
  exact ⟨⟨h, hh, ho.congr ho.underway (fun _ => rfl) rfl rfl rfl rfl⟩, hc, hr.buffers, hr.least,
    hr.slots⟩

theorem Regular.enter (hr : v.Regular b) (hs : v.state = .ready s) (hstage : v.stage t = none)
    {a : BlockAccess} (hlen : a.data.length = v.config.blockSize)
    (hlt : a.block * v.config.sectorsPerBlock < wordLimit) {next : SubmitReply → Program Reply}
    (hnext : ∀ r, (next r).Asks b) :
    (admitted b v t a next).Regular b := by
  obtain ⟨h, hh, ho⟩ := hr.orderly
  refine ⟨⟨h, hh, ho.enter (state_withHeaders hs h) hstage hlen hlt hnext⟩, hr.image, fun id q hq => ?_,
    hr.least, hr.slots⟩
  have hfind := (find?_enter a id).symm.trans hq
  split at hfind
  · cases hfind
    exact hlen
  · exact hr.buffers id q hfind

theorem Regular.launch (hr : v.Regular b) (hs : v.state = .ready s) {id : RequestId} {sector : Nat}
    (hstage : v.stage t = some (.publish id sector)) {q : BlockRequest}
    (hq : v.requests.find? id = some q) {c : Chain} {r : Rings} (hc : s.rings.Fresh c)
    (hcount : s.rings.queue.pool.numFree = (s.rings.taking c).queue.pool.numFree + 3)
    (hp : (s.rings.taking c).publish c (s.submission id q sector) = .ok r)
    {next : SubmitReply → Program Reply} (hnext : ∀ r, (next r).Asks b) :
    (launched b v t s r id next).Regular b := by
  have hb := hr.balanced hs
  have hpub := hb.published hc hp
  obtain ⟨h, hh, ho⟩ := hr.orderly
  obtain ⟨h', hh', hp'⟩ := (hb.sound.taking c).publish_withHeaders (h := h) (hh s hs)
    (fun i hi => hb.sound.lt_of_fresh hc hi) hp
  have hlaunch := ho.launch (s := { s with rings := s.rings.withHeaders h }) (state_withHeaders hs h)
    hstage hq (c := c) (r := r.withHeaders h') ⟨hc.distinct, hc.free⟩ hcount hp' hnext
  refine ⟨⟨h', fun s' hs' => ?_, hlaunch⟩, hr.image, fun id' q' hq' => ?_, fun _ _ => hr.least s hs,
    fun s' hs' j => ?_⟩
  · cases hs'
    exact hh'
  · obtain ⟨q₀, hq₀, rfl⟩ := RequestTable.find?_of_setPending hq'
    split
    · exact hr.buffers id' q₀ hq₀
    · exact hr.buffers id' q₀ hq₀
  · cases hs'
    have hleast := hr.least s hs
    change (r.slot j).length.toNat ≤ v.config.blockSize
    rw [hpub.slot]
    split
    · exact Nat.le_trans (show (1 : UInt32).toNat ≤ sectorSize by decide) hleast
    split
    · change (UInt32.ofNat q.length).toNat ≤ v.config.blockSize
      rw [UInt32.toNat_ofNat', ← hr.buffers id q hq]
      exact Nat.mod_le _ _
    split
    · exact Nat.le_trans (show (16 : UInt32).toNat ≤ sectorSize by decide) hleast
    · rw [Rings.slot_taking]
      exact hr.slots s hs j

theorem Regular.finish (hr : v.Regular b) {id : RequestId} {ticket : UInt64}
    (hstage : v.stage t = some (.complete id ticket)) {q : BlockRequest}
    (hq : v.requests.find? id = some q) (hdone : q.pending = false) {p : Program Reply}
    (hp : p.Asks b) :
    ({ v with requests := v.requests.erase id }.act t (.running p)).Regular b := by
  obtain ⟨h, hh, ho⟩ := hr.orderly
  refine ⟨⟨h, hh, ho.finish hstage hq hdone hp⟩, hr.image, fun id' q' hq' => ?_, hr.least, hr.slots⟩
  exact hr.buffers id' q' (RequestTable.find?_of_erase hq').2

theorem Regular.complete (hr : v.Regular b) (hs : v.state = .ready s) {k : UInt16} {e : InFlight}
    (he : s.rings.entryAt k.toNat = some e) : (v.completed s k e).Regular b := by
  have hb := hr.balanced hs
  have hhead : s.rings.IsHead k := Rings.isHead_of_entryAt he
  obtain ⟨h, hh, ho⟩ := hr.orderly
  refine ⟨⟨h, fun s' hs' => ?_, ho.complete (state_withHeaders hs h) he⟩, hr.image, fun id q hq => ?_,
    fun _ _ => hr.least s hs, fun s' hs' j => ?_⟩
  · cases hs'
    exact hh s hs
  · obtain ⟨q₀, hq₀, rfl⟩ := RequestTable.find?_of_setPending hq
    split
    · exact hr.buffers id q₀ hq₀
    · exact hr.buffers id q₀ hq₀
  · cases hs'
    change ((s.rings.queue.pool.giveBackAll (s.rings.chainAt k).slots).slot j).length.toNat ≤
      v.config.blockSize
    rw [DescriptorPool.slot_giveBackAll hb.sound.pool fun i hi =>
      hb.sound.poolSize.symm ▸ hb.lt_of_mem hhead hi]
    split
    · exact Nat.zero_le _
    · exact hr.slots s hs j

theorem Regular.starts (hr : v.Regular b) (h : v.Starts v') (hw : v'.controller.image.Whole) :
    v'.Regular b := by
  have horderly : v.state = .uninitialized → v.Orderly b := fun hs => by
    obtain ⟨h, -, ho⟩ := hr.orderly
    rwa [withHeaders_of_not_ready (by rw [hs]; rfl)] at ho
  cases h with
  | refused => exact hr
  | invalid hs hc =>
    exact ⟨((horderly hs).starts (.invalid hs hc)).exists_headers, hw, hr.buffers,
      fun _ hs' => (by cases hs'), fun _ hs' => (by cases hs')⟩
  | failed hs hc e he =>
    exact ⟨((horderly hs).starts (.failed hs hc e he)).exists_headers, hw, hr.buffers,
      fun _ hs' => (by cases hs'), fun _ hs' => (by cases hs')⟩
  | started hs hc s arena hok =>
    obtain ⟨⟨p, -, hrings⟩, -⟩ := rings_of_started hc hok
    refine ⟨((horderly hs).starts (.started hs hc s arena hok)).exists_headers, hw, hr.buffers,
      fun _ _ => ?_, fun s' hs' j => ?_⟩
    · obtain ⟨hsize, hpos, -⟩ := DriveConfig.block_of_isValid hc
      change sectorSize ≤ v.config.blockSize
      rw [hsize]
      exact Nat.le_mul_of_pos_right _ hpos
    · cases hs'
      rw [hrings, Rings.slot_unused]
      exact Nat.zero_le _

theorem Regular.scribble (hr : v.Regular b) (hs : v.state = .ready s) {m : SharedMemory}
    (hm : SharedMemory.Scribbled ⟨s.rings, v.requests⟩ m) {c : Controller} (hc : c.image.Whole) :
    { v with
      state := .ready { s with rings := m.rings }
      requests := m.requests
      controller := c }.Regular b := by
  have hsound := (hr.balanced hs).sound
  obtain ⟨h, hh, ho⟩ := hr.orderly
  have hheaders : m.rings.headers.Rewritten h :=
    ⟨(hh s hs).base.trans hm.headers.base.symm, (hh s hs).size.trans hm.headers.size.symm⟩
  have hsized := (hr.sized hs).scribbled hm
  have hnew := hsound.overwritten hm.overwritten
  refine ⟨⟨h, fun s' hs' => ?_, ho.overwrite (state_withHeaders hs h) (r := m.rings.withHeaders h)
    (hnew.withHeaders hheaders) hm.pool hm.entries rfl hm.status.base hm.requests c⟩, hc, hsized.buffers,
    fun _ _ => hr.least s hs, fun s' hs' => ?_⟩
  · cases hs'
    exact hheaders
  · cases hs'
    exact hsized.slots

end View

end DiskStack
