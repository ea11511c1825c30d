import DiskStack.Proofs.Serving

/-!
# A controller that does what a chain asks

The controller takes the offered chains in the order of the ring, carries those it holds out in any
order, following the descriptors in memory, and reports them in any order. To the callers, carrying
out a chain is to carry out the access of its owner at once, and the other steps are nothing.
-/

namespace DiskStack

namespace Image

variable {image : Image} {spb : Nat} {a : BlockAccess}

private theorem length_perform (h : image.Whole) (hlen : a.data.length = sectorSize * spb) :
    (image.perform spb a).1.length = a.data.length := by
  rw [perform]
  split
  · rfl
  · rw [block, length_read h, hlen]

theorem whole_perform (h : image.Whole) (hpos : 0 < spb)
    (hlen : a.data.length = sectorSize * spb) : (image.perform spb a).2.Whole := by
  rw [perform]
  split
  · exact whole_setBlock h hpos hlen a.block
  · exact h

end Image

namespace Rings

/-- Of the chains that are not carried out, the one whose status byte is written is left out. -/
private theorem isUndone_done {r : Rings} {n : Nat} (hr : r.Sound n) {h : UInt16} {e : InFlight}
    (hq : (r.setStatusByte h RequestStatus.ok).Sound n) (he : r.entryAt h.toNat = some e)
    (unique : ∀ (k : UInt16) (e' : InFlight), r.entryAt k.toNat = some e' →
      e'.request = e.request → k = h) (id : RequestId) :
    (r.setStatusByte h RequestStatus.ok).isUndone id =
      if e.request = id then false else r.isUndone id := by
  have hfit : h.toNat < r.status.size := by
    have hlt := hr.lt_of_entryAt he
    have hsize := hr.status
    omega
  have hstatus := fun k => statusByte_setStatusByte (r := r) k h RequestStatus.ok hfit
  split
  · next hid =>
    rw [Bool.eq_false_iff, ne_eq, isUndone_iff hq]
    rintro ⟨k, e', he', hsame, hne⟩
    rw [hstatus, if_pos (unique k e' he' (hsame.trans hid.symm))] at hne
    exact hne rfl
  · next hid =>
    apply isUndone_congr hr hq
    intro k e' hsame
    by_cases hk : k = h
    · subst hk
      have hother : r.entryAt k.toNat ≠ some e' := fun he' => by
        cases he.symm.trans he'
        exact hid hsame
      exact ⟨fun x => absurd x.1 hother, fun x => absurd x.1 hother⟩
    · rw [hstatus, if_neg hk]
      exact Iff.rfl

end Rings

namespace View

variable {b : BayId} {v : View} {s : ReadyState} {unreported : List UInt16}
  {handler : Option Run.CompletionPoint} {h : UInt16} {e : InFlight} {q : BlockRequest}

private theorem Serving.carryOut (hv : v.Serving b s unreported handler)
    (he : s.rings.entryAt h.toNat = some e) (hq : v.requests.find? e.request = some q)
    (hc : s.rings.Carries (s.rings.chainAt h) (v.submissionOf e q))
    (hlen : q.length = v.config.blockSize)
    (hlt : q.block * v.config.sectorsPerBlock < wordLimit) {c : Controller}
    (hqueue : c.queueSize = v.controller.queueSize) (himage : c.image = v.controller.image) :
    ∃ requests : RequestTable, requests.keys = v.requests.keys ∧
      (∀ other, requests.find? other = if e.request = other then
        some { q with data := (v.controller.image.perform v.config.sectorsPerBlock q.access).1 }
        else v.requests.find? other) ∧
      c.carryOut ⟨s.rings, v.requests⟩ h =
        ({ c with image := (v.controller.image.perform v.config.sectorsPerBlock q.access).2 },
          ⟨s.rings.setStatusByte h RequestStatus.ok, requests⟩) := by
  have ho := hv.orderly
  have hb := (ho.kept s hv.ready).balanced
  obtain ⟨hblock, hpos, hpage⟩ := DriveConfig.block_of_isValid hv.valid
  obtain ⟨offered, reported, hcustody, -⟩ := hv.custody
  have hshort : q.length < UInt32.size := by
    have hsize : UInt32.size = 4294967296 := rfl
    simp only [pageSize] at hpage
    omega
  have hdata : v.requests.dataAt q.address = q.data :=
    RequestTable.dataAt_of_find? hv.apart ho.keyed hq
  have hcarried := Controller.carryOut_of_carries hb.sound hv.placed (hqueue.trans hcustody.queue)
    (fun i hi => hb.lt_of_mem (Rings.isHead_of_entryAt he) hi) hc (hv.misses _ q hq) hlt hshort
    v.requests
  have hcount : q.length / sectorSize = v.config.sectorsPerBlock := by
    rw [hlen]
    rfl
  by_cases hw : q.write = true
  · have hsub : (v.submissionOf e q).write = true := hw
    have hperform : v.controller.image.perform v.config.sectorsPerBlock q.access =
        (q.data, v.controller.image.setBlock v.config.sectorsPerBlock q.block q.data) := if_pos hw
    rw [if_pos hsub] at hcarried
    refine ⟨v.requests, rfl, fun other => ?_, ?_⟩
    · rw [hperform]
      split
      · next hid => exact hid ▸ hq
      · rfl
    · rw [hcarried, hperform, himage]
      have htaken : (v.requests.dataAt (v.submissionOf e q).address).take
          (v.submissionOf e q).length = q.data := by
        change (v.requests.dataAt q.address).take q.data.length = q.data
        rw [hdata, List.take_length]
      rw [htaken]
      change ({ c with image := v.controller.image.write (q.block * _) q.data }, _) = _
      rw [Image.write_block hv.whole hpos (hlen.trans hblock)]
  · have hsub : (v.submissionOf e q).write = false := Bool.eq_false_iff.2 hw
    have hperform : v.controller.image.perform v.config.sectorsPerBlock q.access =
        (v.controller.image.block v.config.sectorsPerBlock q.block, v.controller.image) :=
      if_neg hw
    rw [hsub, if_neg Bool.false_ne_true] at hcarried
    have hread : c.image.read (v.submissionOf e q).sector
        ((v.submissionOf e q).length / sectorSize) =
        v.controller.image.block v.config.sectorsPerBlock q.block := by
      change c.image.read _ (q.length / sectorSize) = _
      rw [himage, hcount]
      rfl
    rw [hread] at hcarried
    refine ⟨v.requests.storeAt q.address
      (v.controller.image.block v.config.sectorsPerBlock q.block),
      RequestTable.keys_storeAt .., fun other => ?_, ?_⟩
    · rw [hperform]
      refine RequestTable.find?_storeAt_of_find? hv.apart hq ?_
      rw [Image.block, Image.length_read hv.whole, ← hblock]
      exact hlen
    · rw [hcarried, hperform, ← himage]
      rfl

private theorem atomic_served {v' : View} {s' : ReadyState} {t : TaskId} {id : RequestId} {ticket : UInt64}
    {next : SubmitReply → Program Reply} (hactivity : v'.activity = v.activity)
    (hscratch : v'.scratch = v.scratch)
    (hprogram : (v.activity t).program? = some (.complete b id ticket next))
    (own : ∀ u g, u ≠ t → v.stage u = some g → g.request ≠ id)
    (hself : v'.requests.find? id = some q)
    (hothers : ∀ other, id ≠ other → v'.requests.find? other = v.requests.find? other)
    (hserved : s'.rings.isUndone id = false)
    (hrest : ∀ other, id ≠ other → s'.rings.isUndone other = s.rings.isUndone other) :
    v'.atomic s' = AtomicDrive.move { v.atomic s with image := v'.controller.image } t
      (.inside (.served q.data) next) := by
  refine AtomicDrive.ext rfl hscratch fun u => ?_
  rw [AtomicDrive.point_move]
  by_cases hu : u = t
  · rw [if_pos hu, hu]
    change v'.point s' t = _
    rw [point_of_complete (by rw [hactivity]; exact hprogram), standingOf, hserved,
      if_neg Bool.false_ne_true, accessOf_of_find? hself]
    rfl
  · rw [if_neg hu]
    apply point_congr (by rw [hactivity])
    · intro g hg
      rw [accessOf, hothers _ (own u g hu hg).symm]
      rfl
    · intro g hg
      exact hrest _ (own u g hu hg).symm

variable {γ : Type} (program : γ → Program Reply)

theorem Serving.take (hv : v.Serving b s unreported handler)
    (hmore : v.controller.lastAvail ≠ s.rings.queue.avail.index) {v' : View}
    (hv' : v' = { v with
      controller := { v.controller with
        held := v.controller.held ++
          [SharedMemory.offered ⟨s.rings, v.requests⟩ v.controller.queueSize v.controller.lastAvail]
        lastAvail := v.controller.lastAvail + 1 } }) :
    v'.Serving b s unreported handler ∧ v'.atomic s = v.atomic s := by
  subst hv'
  have ho := hv.orderly
  have hb := (ho.kept s hv.ready).balanced
  obtain ⟨offered, reported, hcustody, htaking⟩ := hv.custody
  cases offered with
  | nil => exact absurd (hcustody.offers.index.trans (UInt16.add_zero _)).symm hmore
  | cons h offered =>
    obtain ⟨hentry, htaken⟩ := hcustody.take
    have hoffered := SharedMemory.offered_eq_entry (m := ⟨s.rings, v.requests⟩)
      (hb.sound.availSize.trans hcustody.queue.symm) v.controller.lastAvail
    rw [hoffered, hentry]
    exact ⟨⟨ho.congr ho.underway (fun _ => rfl) rfl rfl rfl rfl, hv.ready, hv.valid, hv.placed,
      hv.misses, hv.apart, hv.whole, offered, reported, htaken, htaking⟩, rfl⟩

theorem Serving.report (hv : v.Serving b s unreported handler) (hh : h ∈ unreported)
    {length : UInt32} {v' : View} {s' : ReadyState} {c : Controller} {m : SharedMemory}
    (hinject : v.controller.inject ⟨s.rings, v.requests⟩ ⟨h.toUInt32, length⟩ = (c, m))
    (hs' : s' = { s with rings := m.rings })
    (hv' : v' = { v with state := .ready s', controller := c, requests := m.requests }) :
    v'.Serving b s' (unreported.erase h) handler ∧ v'.atomic s' = v.atomic s := by
  have ho := hv.orderly
  have hb := (ho.kept s hv.ready).balanced
  obtain ⟨offered, reported, hcustody, htaking⟩ := hv.custody
  have hreported := SharedMemory.report_eq_reported (m := ⟨s.rings, v.requests⟩)
    (hb.sound.usedSize.trans hcustody.queue.symm) ⟨h.toUInt32, length⟩
  rw [Controller.inject, hcustody.usedIndex, hreported] at hinject
  cases hinject
  subst hv' hs'
  have hsound : Rings.Sound { s.rings with
      queue.used := s.rings.queue.used.reported ⟨h.toUInt32, length⟩ }
      v.config.queueSize.toNat :=
    { hb.sound with
      used := by
        simp only [UsedRing.reported, Region.size_store16, Region.size_store32]
        exact hb.sound.used }
  refine ⟨⟨ho.overwrite hv.ready hsound rfl rfl rfl rfl (.refl _) _, rfl, hv.valid,
    hv.placed.congr rfl rfl rfl rfl, fun id q hq => (hv.misses id q hq).congr rfl rfl rfl rfl,
    hv.apart, hv.whole, offered, reported ++ [h], ?_, fun _ => by simp⟩, ?_⟩
  · exact (hcustody.report hb.sound hh length).congr Controller.queueSize_raiseCause rfl rfl
      (by rw [hcustody.usedIndex]; rfl)
  · rfl

theorem Serving.execute (hv : v.Serving b s unreported handler) (hh : h ∈ v.controller.held)
    {v' : View} {s' : ReadyState} {c : Controller} {m : SharedMemory}
    (hcarry : Controller.carryOut { v.controller with held := v.controller.held.erase h }
      ⟨s.rings, v.requests⟩ h = (c, m))
    (hs' : s' = { s with rings := m.rings })
    (hv' : v' = { v with state := .ready s', controller := c, requests := m.requests }) :
    v'.Serving b s' (h :: unreported) handler ∧
      ∃ t e, s.rings.entryAt h.toNat = some e ∧ v.stage t = some (.complete e.request e.ticket) ∧
        AtomicDrive.Step program (v.parameters b s) (v.atomic s) [.execute t] (v'.atomic s') := by
  have ho := hv.orderly
  have hk := ho.kept s hv.ready
  have hb := hk.balanced
  obtain ⟨hblock, hpos, -⟩ := DriveConfig.block_of_isValid hv.valid
  obtain ⟨offered, reported, hcustody, htaking⟩ := hv.custody
  obtain ⟨e, he⟩ := Option.isSome_iff_exists.1 ((hcustody.tracks.heads h).2 (by simp [hh]))
  obtain ⟨t, q, ht, hq, hpending, hcarries⟩ := hk.entered h e he
  obtain ⟨q', hq', hlen, hlt⟩ := ho.live t _ ht
  cases hq.symm.trans hq'
  obtain ⟨requests, hkeys, hfind, hcarried⟩ := hv.carryOut he hq hcarries hlen hlt
    (c := { v.controller with held := v.controller.held.erase h }) rfl rfl
  cases hcarry.symm.trans hcarried
  obtain ⟨next, hprogram⟩ := ho.program_of_stage ht
  have hlength : q.access.data.length = sectorSize * v.config.sectorsPerBlock := hlen.trans hblock
  have hsound : (s.rings.setStatusByte h RequestStatus.ok).Sound v.config.queueSize.toNat :=
    { hb.sound with
      status := by
        rw [Rings.setStatusByte, Region.size_storeByte]
        exact hb.sound.status }
  have hrewritten : v.requests.Rewritten requests := by
    refine ⟨hkeys, fun id q₀ hq₀ => ?_⟩
    rw [hfind]
    split
    · next hid =>
      cases hq.symm.trans (hid ▸ hq₀)
      exact ⟨_, Image.length_perform hv.whole hlength, rfl⟩
    · exact ⟨q₀.data, rfl, hq₀⟩
  have hback : ∀ id q₀, requests.find? id = some q₀ →
      ∃ q₁, v.requests.find? id = some q₁ ∧ q₁.address = q₀.address := fun id q₀ hq₀ => by
    obtain ⟨data, -, hq₁⟩ := hrewritten.back hq₀
    exact ⟨_, hq₁, rfl⟩
  have hstep : AtomicDrive.Step program (v.parameters b s) (v.atomic s) [.execute t] (v'.atomic s') := by
    have hwaits : v.point s t = .inside (.waiting q.access) next := by
      have hundone : s.rings.isUndone e.request = true :=
        (Rings.isUndone_iff hb.sound).2 ⟨h, e, he, rfl, hcustody.undone h (by simp [hh])⟩
      rw [point_of_complete hprogram, standingOf, hundone, if_pos rfl, accessOf_of_find? hq]
    have hdone := Rings.isUndone_done hb.sound hsound he fun k e' he' hid =>
      hk.unique k h e' e he' he hid
    have hrings : s'.rings = s.rings.setStatusByte h RequestStatus.ok := by rw [hs']
    have hrequests : v'.requests = requests := by rw [hv']
    have himage : v'.controller.image =
        (v.controller.image.perform v.config.sectorsPerBlock q.access).2 := by rw [hv']
    have hself : v'.requests.find? e.request = _ := hrequests ▸ (hfind e.request).trans (if_pos rfl)
    have hmoved : v'.atomic s' = AtomicDrive.move { v.atomic s with image := v'.controller.image } t _ :=
      atomic_served (by rw [hv']) (by rw [hv']) hprogram
        (fun u g hu hg hid => hu (ho.own u t g _ hg ht hid)) hself
        (fun other hne => hrequests ▸ (hfind other).trans (if_neg hne))
        (hrings ▸ (hdone e.request).trans (if_pos rfl))
        fun other hne => hrings ▸ (hdone other).trans (if_neg hne)
    rw [hmoved, himage]
    exact .execute t q.access next hwaits
  subst hs' hv'
  refine ⟨⟨ho.overwrite hv.ready hsound rfl rfl rfl rfl hrewritten _, rfl, hv.valid,
    hv.placed.congr rfl rfl rfl (Region.size_storeByte _ _ _), ?_, ?_,
    Image.whole_perform hv.whole hpos hlength, offered, reported, hcustody.execute hb.sound hh _,
    htaking⟩, t, e, he, ht, hstep⟩
  · intro id q₀ hq₀
    obtain ⟨q₁, hq₁, haddress⟩ := hback id q₀ hq₀
    rw [← haddress]
    exact (hv.misses id q₁ hq₁).congr rfl rfl rfl (Region.size_storeByte _ _ _)
  · intro id id' q₀ q₀' hq₀ hq₀' haddress
    obtain ⟨q₁, hq₁, h₁⟩ := hback id q₀ hq₀
    obtain ⟨q₁', hq₁', h₁'⟩ := hback id' q₀' hq₀'
    exact hv.apart id id' q₁ q₁' hq₁ hq₁' (by rw [h₁, h₁', haddress])

end View

end DiskStack
