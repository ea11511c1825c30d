import DiskStack.Proofs.Custody
import DiskStack.Proofs.AtomicDrive
import DiskStack.Proofs.Turns

/-!
# A drive that serves its callers

As long as the controller does what a chain asks of it, a ready drive is an atomic one: every step of its
tasks, of the completion handler and of the controller is one step of that drive or none. The chains in
flight are in custody, the buffers lie apart from each other and from the shared regions, and the
status bytes tell which accesses have been carried out.
-/

namespace DiskStack

namespace Rings

/-- Whether a chain of a request is in flight and has not been carried out. -/
def isUndone (r : Rings) (id : RequestId) : Bool :=
  (List.range r.inFlight.size).any fun i =>
    (r.entryAt i).any (·.request == id) && r.statusByte (UInt16.ofNat i) != RequestStatus.ok

theorem isUndone_iff {r : Rings} {n : Nat} (hr : r.Sound n) {id : RequestId} :
    r.isUndone id = true ↔
      ∃ (h : UInt16) (e : InFlight), r.entryAt h.toNat = some e ∧ e.request = id ∧
        r.statusByte h ≠ RequestStatus.ok := by
  simp only [isUndone, List.any_eq_true, List.mem_range, Bool.and_eq_true, Option.any_eq_true,
    beq_iff_eq, bne_iff_ne, ne_eq]
  constructor
  · rintro ⟨i, hi, ⟨e, he, hid⟩, hs⟩
    have hmost := hr.most
    have hsize := hr.entries
    have hnat : (UInt16.ofNat i).toNat = i := by
      rw [UInt16.toNat_ofNat']
      omega
    exact ⟨UInt16.ofNat i, e, by rw [hnat]; exact he, hid, hs⟩
  · rintro ⟨h, e, he, hid, hs⟩
    refine ⟨h.toNat, ?_, ⟨e, he, hid⟩, by rwa [UInt16.ofNat_toNat]⟩
    rw [hr.entries]
    exact hr.lt_of_entryAt he

theorem isUndone_congr {r q : Rings} {n : Nat} (hr : r.Sound n) (hq : q.Sound n) {id : RequestId}
    (h : ∀ (h : UInt16) (e : InFlight), e.request = id →
      ((q.entryAt h.toNat = some e ∧ q.statusByte h ≠ RequestStatus.ok) ↔
        (r.entryAt h.toNat = some e ∧ r.statusByte h ≠ RequestStatus.ok))) :
    q.isUndone id = r.isUndone id := by
  rw [Bool.eq_iff_iff, isUndone_iff hq, isUndone_iff hr]
  constructor
  · rintro ⟨k, e, he, hid, hs⟩
    obtain ⟨he', hs'⟩ := (h k e hid).1 ⟨he, hs⟩
    exact ⟨k, e, he', hid, hs'⟩
  · rintro ⟨k, e, he, hid, hs⟩
    obtain ⟨he', hs'⟩ := (h k e hid).2 ⟨he, hs⟩
    exact ⟨k, e, he', hid, hs'⟩

end Rings

namespace View

variable {b : BayId} {v v' : View} {s s' : ReadyState} {t u : TaskId}

def accessOf (v : View) (id : RequestId) : BlockAccess :=
  ((v.requests.find? id).map BlockRequest.access).getD ⟨0, false, []⟩

/-- How far the access of a published request has come. -/
def standingOf (v : View) (s : ReadyState) (id : RequestId) : Standing :=
  if s.rings.isUndone id then .waiting (v.accessOf id) else .served (v.accessOf id).data

def point (v : View) (s : ReadyState) (t : TaskId) : TaskPoint :=
  match (v.activity t).program? with
  | none => .idle
  | some (.publish _ id _ next) => .inside (.waiting (v.accessOf id)) next
  | some (.complete _ id _ next) => .inside (v.standingOf s id) next
  | some p => .between p

def atomic (v : View) (s : ReadyState) : AtomicDrive := ⟨v.controller.image, v.scratch, v.point s⟩

theorem point_of_asks {p : Program Reply} (hp : p.Asks b) (h : (v.activity t).program? = some p) :
    v.point s t = .between p := by
  rw [point, h]
  cases hp <;> rfl

theorem point_of_idle (h : (v.activity t).program? = none) : v.point s t = .idle := by
  rw [point, h]

theorem point_of_publish {id : RequestId} {sector : Nat} {next : SubmitReply → Program Reply}
    (h : (v.activity t).program? = some (.publish b id sector next)) :
    v.point s t = .inside (.waiting (v.accessOf id)) next := by
  rw [point, h]

theorem point_of_complete {id : RequestId} {ticket : UInt64} {next : SubmitReply → Program Reply}
    (h : (v.activity t).program? = some (.complete b id ticket next)) :
    v.point s t = .inside (v.standingOf s id) next := by
  rw [point, h]

theorem accessOf_of_find? {id : RequestId} {q : BlockRequest} (h : v.requests.find? id = some q) :
    v.accessOf id = q.access := by
  rw [accessOf, h]
  rfl

theorem point_congr (hact : (v'.activity t).program? = (v.activity t).program?)
    (haccess : ∀ g, v.stage t = some g → v'.accessOf g.request = v.accessOf g.request)
    (hundone : ∀ g, v.stage t = some g →
      s'.rings.isUndone g.request = s.rings.isUndone g.request) :
    v'.point s' t = v.point s t := by
  rw [point, point, hact]
  cases hp : (v.activity t).program? with
  | none => rfl
  | some p =>
    have hstage : v.stage t = p.stage? := by rw [stage, hp]; rfl
    cases p with
    | publish bay id sector next =>
      have hid : id = (Stage.publish id sector).request := rfl
      simp only
      rw [hid, haccess _ hstage]
    | complete bay id ticket next =>
      have hid : id = (Stage.complete id ticket).request := rfl
      simp only [standingOf]
      rw [hid, haccess _ hstage, hundone _ hstage]
    | _ => rfl

/-- A ready drive whose controller has done what the chains asked for so far. -/
structure Serving (b : BayId) (v : View) (s : ReadyState) (unreported : List UInt16)
    (handler : Option Run.CompletionPoint) : Prop where
  orderly : v.Orderly b
  ready : v.state = .ready s
  valid : v.config.isValid = true
  placed : s.rings.Placed
  misses : ∀ id q, v.requests.find? id = some q → s.rings.Misses q.address
  apart : v.requests.Apart
  whole : v.controller.image.Whole
  custody : ∃ offered reported,
    s.rings.Custody v.controller v.config.queueSize.toNat offered unreported reported ∧
      (handler = some .taking → reported ≠ [])

/-- Memory for a buffer that is not in use for anything else. -/
def Spares (v : View) (arena : Arena) : Prop :=
  ∀ s, v.state = .ready s → s.rings.Misses (arena.reserve 0).1 ∧
    ∀ id q, v.requests.find? id = some q → q.address ≠ (arena.reserve 0).1

def parameters (b : BayId) (v : View) (s : ReadyState) : DriveParameters :=
  ⟨b, v.config, s.capacity, s.readOnly⟩

private theorem verdict_eq (hs : v.state = .ready s) (a : BlockAccess) :
    (v.parameters b s).verdict a = (v.accepts a).map fun _ => () := by
  rw [accepts_eq, hs, DriveState.checkSectors, DriveParameters.verdict]
  change (v.config.firstSector a.block a.data.length >>= fun _ => _) = _
  rw [DriveConfig.firstSector]
  split
  · rfl
  · split
    · by_cases hfit : s.capacity.toNat <
          min (a.block * v.config.sectorsPerBlock + v.config.sectorsPerBlock) (wordLimit - 1)
      · rw [if_pos hfit]
        exact if_pos hfit
      · rw [if_neg hfit]
        exact if_neg hfit
    · rfl

private theorem verdict_of_accepts (hs : v.state = .ready s) {a : BlockAccess} {sector : Nat}
    {s' : ReadyState} (h : v.accepts a = .ok (sector, s')) : (v.parameters b s).verdict a = .ok () := by
  rw [verdict_eq hs, h]
  rfl

private theorem verdict_of_refuses (hs : v.state = .ready s) {a : BlockAccess} {e : BlockError}
    (h : v.accepts a = .error e) : (v.parameters b s).verdict a = .error e := by
  rw [verdict_eq hs, h]
  rfl

/-! ### The steps of the tasks -/

theorem atomic_act_asks {a : Activity} {p : Program Reply} (ha : a.program? = some p) (hp : p.Asks b) :
    (v.act t a).atomic s = (v.atomic s).move t (.between p) := by
  refine AtomicDrive.eq_move rfl rfl ?_ fun u hu => ?_
  · exact point_of_asks hp (by rw [act_self]; exact ha)
  · exact point_congr (by rw [act_of_ne _ hu]) (fun _ _ => rfl) fun _ _ => rfl

theorem atomic_act_idle {a : Activity} (ha : a.program? = none) :
    (v.act t a).atomic s = (v.atomic s).move t .idle := by
  refine AtomicDrive.eq_move rfl rfl ?_ fun u hu => ?_
  · exact point_of_idle (by rw [act_self]; exact ha)
  · exact point_congr (by rw [act_of_ne _ hu]) (fun _ _ => rfl) fun _ _ => rfl

theorem atomic_act_same {a : Activity} (ha : a.program? = (v.activity t).program?) :
    (v.act t a).atomic s = v.atomic s := by
  refine AtomicDrive.ext rfl rfl fun u => ?_
  refine point_congr ?_ (fun _ _ => rfl) fun _ _ => rfl
  by_cases hu : u = t
  · rw [hu, act_self]
    exact ha
  · rw [act_of_ne _ hu]

variable {unreported : List UInt16} {handler : Option Run.CompletionPoint}

theorem Serving.congr (hv : v.Serving b s unreported handler) (ho : v'.Orderly b)
    (hconfig : v'.config = v.config) (hstate : v'.state = v.state)
    (hrequests : v'.requests = v.requests) (hcontroller : v'.controller = v.controller) :
    v'.Serving b s unreported handler where
  orderly := ho
  ready := hstate.trans hv.ready
  valid := by rw [hconfig]; exact hv.valid
  placed := hv.placed
  misses := by rw [hrequests]; exact hv.misses
  apart := by rw [hrequests]; exact hv.apart
  whole := by rw [hcontroller]; exact hv.whole
  custody := by rw [hconfig, hcontroller]; exact hv.custody

theorem Serving.setArena (hv : v.Serving b s unreported handler) (arena : Arena) :
    { v with arena }.Serving b s unreported handler :=
  hv.congr (hv.orderly.setArena arena) rfl rfl rfl rfl

private theorem Serving.enter (hv : v.Serving b s unreported handler) (hstage : v.stage t = none)
    (hspares : v.Spares v.arena) {a : BlockAccess} {sector : Nat} {s₁ : ReadyState}
    (haccept : v.accepts a = .ok (sector, s₁)) {next : SubmitReply → Program Reply}
    (hnext : ∀ r, (next r).Asks b) :
    (admitted b v t a next).Serving b s unreported handler ∧
      (admitted b v t a next).atomic s = (v.atomic s).move t (.inside (.waiting a) next) := by
  obtain ⟨-, hlen, -, hlt⟩ := ready_of_accepts haccept
  have ho := hv.orderly
  obtain ⟨hmiss, hother⟩ := hspares s hv.ready
  refine ⟨⟨ho.enter hv.ready hstage hlen hlt hnext, hv.ready, hv.valid, hv.placed, ?_, ?_, hv.whole,
    hv.custody⟩, ?_⟩
  · intro id q hq
    have hfind := (find?_enter a id).symm.trans hq
    split at hfind
    · cases hfind
      exact hmiss
    · exact hv.misses id q hfind
  · intro id id' q q' hq hq' haddress
    have hfind := (find?_enter a id).symm.trans hq
    have hfind' := (find?_enter a id').symm.trans hq'
    split at hfind <;> split at hfind'
    · next h h' => exact h.symm.trans h'
    · cases hfind
      exact absurd haddress.symm (hother id' q' hfind')
    · cases hfind'
      exact absurd haddress (hother id q hfind)
    · exact hv.apart id id' q q' hfind hfind' haddress
  · refine AtomicDrive.eq_move rfl rfl ?_ fun u hu => ?_
    · have hpoint := point_of_publish (b := b) (v := admitted b v t a next) (s := s) (t := t)
        (by rw [admitted, act_self]; rfl)
      rw [accessOf_of_find? (v := admitted b v t a next) (find?_enter_next a)] at hpoint
      exact hpoint
    · refine point_congr (by rw [admitted, act_of_ne _ hu]; rfl) (fun g hg => ?_) fun _ _ => rfl
      rw [accessOf, accessOf, ho.find?_admitted hg]

private theorem accessOf_setPending {p : Bool} {id other : RequestId}
    (h : v'.requests = v.requests.setPending id p) : v'.accessOf other = v.accessOf other := by
  rw [accessOf, accessOf, h, RequestTable.find?_setPending]
  split
  · cases v.requests.find? other <;> rfl
  · rfl

private theorem apart_setPending {requests : RequestTable} (h : requests.Apart) {p : Bool}
    {id : RequestId} :
    (requests.setPending id p).Apart := by
  have hold : ∀ other q, (requests.setPending id p).find? other = some q →
      ∃ q', requests.find? other = some q' ∧ q'.address = q.address := fun other q hq => by
    obtain ⟨q', hq', rfl⟩ := RequestTable.find?_of_setPending hq
    exact ⟨q', hq', by split <;> rfl⟩
  intro other other' q q' hq hq' haddress
  obtain ⟨x, hx, hxa⟩ := hold other q hq
  obtain ⟨y, hy, hya⟩ := hold other' q' hq'
  exact h other other' x y hx hy (by rw [hxa, hya, haddress])

private theorem misses_setPending {requests : RequestTable} {r : Rings}
    (h : ∀ id q, requests.find? id = some q → r.Misses q.address) {p : Bool} {id : RequestId} :
    ∀ other q, (requests.setPending id p).find? other = some q → r.Misses q.address := by
  intro other q hq
  obtain ⟨q', hq', rfl⟩ := RequestTable.find?_of_setPending hq
  split
  · exact h other q' hq'
  · exact h other q' hq'

private theorem Serving.launch (hv : v.Serving b s unreported handler) {id : RequestId} {sector : Nat}
    {next : SubmitReply → Program Reply}
    (hprogram : (v.activity t).program? = some (.publish b id sector next))
    (hnext : ∀ r, (next r).Asks b) {q : BlockRequest} (hq : v.requests.find? id = some q)
    {c : Chain} {r : Rings} (hc : s.rings.Fresh c)
    (hcount : s.rings.queue.pool.numFree = (s.rings.taking c).queue.pool.numFree + 3)
    (hp : (s.rings.taking c).publish c (s.submission id q sector) = .ok r)
    (room : v.config.queueSize.toNat ∣ 65536 ∨ ∀ h, ¬s.rings.IsHead h) :
    (launched b v t s r id next).Serving b (s.published r) unreported handler ∧
      (launched b v t s r id next).atomic (s.published r) = v.atomic s := by
  have ho := hv.orderly
  have hk := ho.kept s hv.ready
  have hb := hk.balanced
  have hpub := hk.published hc hp
  have hstage : v.stage t = some (.publish id sector) := stage_eq hprogram
  obtain ⟨offered, reported, hcustody, htaking⟩ := hv.custody
  refine ⟨⟨ho.launch hv.ready hstage hq hc hcount hp hnext, rfl, hv.valid, ?_, ?_, ?_, hv.whole, ?_⟩,
    ?_⟩
  · exact hv.placed.congr hpub.headersBase hpub.headersSize hpub.statusBase hpub.statusSize
  · apply misses_setPending
    intro other q hq
    exact (hv.misses other q hq).congr hpub.headersBase hpub.headersSize hpub.statusBase
      hpub.statusSize
  · exact apart_setPending hv.apart
  · refine ⟨_, reported, (hcustody.publish hb hc hpub room).congr ?_ rfl rfl rfl, htaking⟩
    exact Controller.queueSize_notifyQueue 0
  · have hentry : ∀ h : UInt16, r.entryAt h.toNat =
        if h.toNat = c.head.toNat then some ⟨id, s.nextTicket⟩ else s.rings.entryAt h.toNat :=
      fun h => hpub.entry h.toNat
    have haccess : ∀ other, (launched b v t s r id next).accessOf other = v.accessOf other :=
      fun other => accessOf_setPending rfl
    refine AtomicDrive.ext rfl rfl fun u => ?_
    by_cases hu : u = t
    · have hundone : r.isUndone id = true := by
        refine (Rings.isUndone_iff hpub.sound).2 ⟨c.head, ⟨id, s.nextTicket⟩, ?_, rfl, ?_⟩
        · rw [hentry, if_pos rfl]
        · rw [hpub.statusByte, if_pos rfl]
          decide
      have hpoint := point_of_complete (b := b) (v := launched b v t s r id next) (s := s.published r)
        (t := t) (by rw [launched, act_self]; rfl)
      have hwaits : (launched b v t s r id next).standingOf (s.published r) id =
          .waiting (v.accessOf id) := by
        rw [standingOf, haccess]
        exact if_pos hundone
      rw [hwaits] at hpoint
      rw [hu]
      exact hpoint.trans (point_of_publish hprogram).symm
    · apply point_congr (by rw [launched, act_of_ne _ hu]) (fun g _ => haccess _)
      intro g hg
      have hne : id ≠ g.request := fun he => hu (ho.own u t g _ hg hstage he.symm)
      apply Rings.isUndone_congr hb.sound hpub.sound
      intro h e he
      rw [hentry]
      by_cases hh : h = c.head
      · rw [if_pos (by rw [hh]), hh, hb.entryAt_fresh hc]
        constructor
        · rintro ⟨he', -⟩
          cases he'
          exact absurd he hne
        · rintro ⟨he', -⟩
          cases he'
      · rw [if_neg (fun hc => hh (UInt16.toNat_inj.1 hc)), hpub.statusByte, if_neg hh]
        exact Iff.rfl

/-- Where nobody else is inside of a submission, nothing is in flight when a task publishes. -/
theorem Serving.not_isHead (hv : v.Serving b s unreported handler)
    (alone : (v.atomic s).Alone (v.parameters b s))
    (hp : (∃ a next, v.point s t = .between (.submit b a next)) ∨
      ∃ id sector next, (v.activity t).program? = some (.publish b id sector next)) :
    ∀ h, ¬s.rings.IsHead h := by
  intro h hh
  obtain ⟨e, he⟩ := Option.isSome_iff_exists.1 hh
  obtain ⟨u, q, hu, -⟩ := (hv.orderly.kept s hv.ready).entered h e he
  obtain ⟨next, hprogram⟩ := hv.orderly.program_of_stage hu
  have hinside := point_of_complete (s := s) hprogram
  rcases hp with ⟨a, next', hpoint⟩ | ⟨id, sector, next', hpublish⟩
  · have hut := alone u t _ _ hinside (.inr ⟨a, next', hpoint⟩)
    rw [hut, hpoint] at hinside
    cases hinside
  · have hut := alone u t _ _ hinside (.inl ⟨_, _, point_of_publish hpublish⟩)
    rw [hut, hpublish] at hprogram
    cases hprogram

private theorem Serving.not_undone (hv : v.Serving b s unreported handler) {id : RequestId}
    {q : BlockRequest} (hq : v.requests.find? id = some q) (hdone : q.pending = false) :
    s.rings.isUndone id = false := by
  have hk := hv.orderly.kept s hv.ready
  cases hu : s.rings.isUndone id with
  | false => rfl
  | true =>
    obtain ⟨h, e, he, rfl, -⟩ := (Rings.isUndone_iff hk.balanced.sound).1 hu
    obtain ⟨t, q', -, hq', hpending, -⟩ := hk.entered h e he
    rw [hq, Option.some.injEq] at hq'
    rw [← hq', hdone] at hpending
    cases hpending

private theorem Serving.finish (hv : v.Serving b s unreported handler) {id : RequestId} {ticket : UInt64}
    {next : SubmitReply → Program Reply}
    (hprogram : (v.activity t).program? = some (.complete b id ticket next)) {q : BlockRequest}
    (hq : v.requests.find? id = some q) (hdone : q.pending = false) {p : Program Reply}
    (hp : p.Asks b) :
    v.point s t = .inside (.served q.data) next ∧
      ({ v with requests := v.requests.erase id }.act t (.running p)).Serving b s unreported handler ∧
        ({ v with requests := v.requests.erase id }.act t (.running p)).atomic s =
          (v.atomic s).move t (.between p) := by
  have ho := hv.orderly
  have hstage : v.stage t = some (.complete id ticket) := stage_eq hprogram
  have hlost : ∀ other q', (v.requests.erase id).find? other = some q' →
      v.requests.find? other = some q' := fun _ _ hq' => (RequestTable.find?_of_erase hq').2
  refine ⟨?_, ⟨ho.finish hstage hq hdone hp, hv.ready, hv.valid, hv.placed,
    fun other q' hq' => hv.misses other q' (hlost other q' hq'),
    fun other other' q' q'' hq' hq'' =>
      hv.apart other other' q' q'' (hlost other q' hq') (hlost other' q'' hq''),
    hv.whole, hv.custody⟩, ?_⟩
  · rw [point_of_complete hprogram, standingOf, hv.not_undone hq hdone, accessOf_of_find? hq]
    rfl
  · refine AtomicDrive.eq_move rfl rfl ?_ fun u hu => ?_
    · exact point_of_asks hp (by rw [act_self]; rfl)
    · refine point_congr (by rw [act_of_ne _ hu]) (fun g hg => ?_) fun _ _ => rfl
      have hne : id ≠ g.request := fun he => hu (ho.own u t g _ hg hstage he.symm)
      have hsame : (v.requests.erase id).find? g.request = v.requests.find? g.request :=
        (RequestTable.find?_erase ..).trans (if_neg hne)
      change ((({ v with requests := v.requests.erase id } : View).requests.find? g.request).map
        BlockRequest.access).getD _ = _
      rw [accessOf, hsame]

private theorem Serving.complete (hv : v.Serving b s unreported (some .taking)) {head : UInt16}
    {e : InFlight} {q r : Rings} (hc : s.rings.collect = (.ok (head, e), q))
    (hr : q.release head = .ok r) {v' : View}
    (hv' : v' = { v with
      state := .ready { s with rings := r }
      requests := v.requests.setPending e.request false }) :
    v'.Serving b { s with rings := r } unreported (some .looking) ∧
      v'.atomic { s with rings := r } = v.atomic s := by
  subst hv'
  have ho := hv.orderly
  have hk := ho.kept s hv.ready
  have hb := hk.balanced
  obtain ⟨hid, he, hok, rfl⟩ := hk.take hc hr
  obtain ⟨offered, reported, hcustody, htaking⟩ := hv.custody
  obtain ⟨k, reported, rfl⟩ := List.exists_cons_of_ne_nil (htaking rfl)
  obtain ⟨hreport, hsettled⟩ := hcustody.settle hb
  -- the handler takes the oldest head reported
  have hhead : k = head := by
    rw [hreport, UInt16.toNat_toUInt32] at hid
    exact UInt16.toNat_inj.1 hid
  subst hhead
  have hh := Rings.isHead_of_entryAt he
  refine ⟨⟨ho.complete hv.ready he, rfl, hv.valid, hv.placed.congr rfl rfl rfl rfl,
    misses_setPending fun id q hq => (hv.misses id q hq).congr rfl rfl rfl rfl,
    apart_setPending hv.apart, hv.whole, offered, reported, hsettled, fun h => by cases h⟩, ?_⟩
  refine AtomicDrive.ext rfl rfl fun u => point_congr rfl (fun g _ => accessOf_setPending rfl) fun g _ => ?_
  apply Rings.isUndone_congr hb.sound (hb.sound_settled hh)
  intro h e' _
  change (s.rings.settled k).entryAt h.toNat = some e' ∧ s.rings.statusByte h ≠ _ ↔ _
  rw [hb.entryAt_settled hh]
  by_cases hk' : h = k
  · rw [if_pos (by rw [hk']), hk', hok]
    constructor
    · rintro ⟨-, hne⟩
      exact absurd rfl hne
    · rintro ⟨-, hne⟩
      exact absurd rfl hne
  · rw [if_neg fun he => hk' (UInt16.toNat_inj.1 he)]

theorem Serving.not_takeHalts (hv : v.Serving b s unreported (some .taking)) : ¬v.TakeHalts := by
  have hk := hv.orderly.kept s hv.ready
  have hb := hk.balanced
  obtain ⟨offered, reported, hcustody, htaking⟩ := hv.custody
  obtain ⟨k, reported, rfl⟩ := List.exists_cons_of_ne_nil (htaking rfl)
  obtain ⟨hreport, -⟩ := hcustody.settle hb
  obtain ⟨e, he⟩ := Option.isSome_iff_exists.1 ((hcustody.tracks.heads k).2 (by simp))
  have hcollect := (hb.sound.collect_iff (e := e) (q := s.rings.collected k)).2
    ⟨by rw [hreport, UInt16.toNat_toUInt32], he, hcustody.done k (by simp), rfl⟩
  intro h
  cases h with
  | collect s' err hs herr =>
    cases hv.ready.symm.trans hs
    rw [hcollect] at herr
    cases herr
  | release s' head entry q err hs hc herr =>
    cases hv.ready.symm.trans hs
    cases hcollect.symm.trans hc
    rw [hb.release (Rings.isHead_of_entryAt he)] at herr
    cases herr

variable {γ : Type} {program : γ → Program Reply}

/-- A submission that is accepted waits, whether it is published at once or not. -/
private theorem Serving.submit (hv : v.Serving b s unreported handler) (hspares : v.Spares v.arena)
    {a : BlockAccess} {next : SubmitReply → Program Reply}
    (hprogram : (v.activity t).program? = some (.submit b a next)) (hnext : ∀ r, (next r).Asks b)
    {sector : Nat} {s₁ : ReadyState} (haccept : v.accepts a = .ok (sector, s₁))
    (room : v.config.queueSize.toNat ∣ 65536 ∨ (v.atomic s).Alone (v.parameters b s))
    {activity : Activity} {v₁ : View}
    (hpub : (v.enter a).Publishes b s₁ v.nextRequest
      (.fresh a.block a.write a.data (v.arena.reserve a.data.length).1) sector next activity v₁) :
    ∃ s', (v₁.act t activity).Serving b s' unreported handler ∧
      (v₁.act t activity).parameters b s' = v.parameters b s ∧
      (v₁.act t activity).atomic s' = (v.atomic s).move t (.inside (.waiting a) next) := by
  obtain ⟨hready, -, rfl, -⟩ := ready_of_accepts haccept
  cases hv.ready.symm.trans hready
  have hstage : v.stage t = none := stage_eq hprogram
  have hasks : Program.Asks b (.submit b a next) := .submit a next hnext
  obtain ⟨hentered, hatomic⟩ := hv.enter hstage hspares haccept hnext
  cases hpub with
  | wait => exact ⟨s, hentered, rfl, hatomic⟩
  | publish c r hc hcount hp =>
    obtain ⟨hserving, hsame⟩ := hentered.launch (t := t) (by rw [admitted, act_self]; rfl) hnext
      (find?_enter_next a) hc hcount hp (room.imp_right fun alone =>
        hv.not_isHead alone (.inl ⟨a, next, point_of_asks hasks hprogram⟩))
    rw [admitted, launched_act] at hserving hsame
    exact ⟨s.published r, hserving, rfl, hsame.trans hatomic⟩

private theorem Serving.keep (hv : v.Serving b s unreported handler) {a : Activity}
    (ha : a.program? = (v.activity t).program?) :
    (v.act t a).Serving b s unreported handler ∧ (v.act t a).atomic s = v.atomic s := by
  have ho := hv.orderly
  have hact := ho.act t a (fun p hp => ho.underway t p (ha ▸ hp)) (by rw [ha]; rfl)
  exact ⟨hv.congr hact rfl rfl rfl rfl, atomic_act_same ha⟩

/-- A task that is inside of no submission goes on, and may take or give back the scratch block. -/
private theorem Serving.goOn (hv : v.Serving b s unreported handler) {p p' : Program Reply}
    (hprogram : (v.activity t).program? = some p) (hp : p.Asks b) (hp' : p'.Asks b)
    (scratch : SleepLock Bytes) :
    ({ v with scratch }.act t (.running p')).Serving b s unreported handler ∧
      ({ v with scratch }.act t (.running p')).atomic s =
        { v.atomic s with scratch }.move t (.between p') := by
  have hact : ({ v with scratch }.act t (.running p')).Orderly b :=
    (hv.orderly.setScratch scratch).goOn hprogram rfl (.asks _ hp') (hp'.stage?.trans hp.stage?.symm)
  exact ⟨hv.congr hact rfl rfl rfl rfl, atomic_act_asks rfl hp'⟩

/-- What a step of a task comes to at the atomic drive, which records who takes the scratch block. -/
def Proceeds (program : γ → Program Reply) (b : BayId) (v : View) (s : ReadyState)
    (unreported : List UInt16) (handler : Option Run.CompletionPoint) (t : TaskId) (v' : View) : Prop :=
  ∃ s', v'.Serving b s' unreported handler ∧ v'.parameters b s' = v.parameters b s ∧
    AtomicDrive.Step program (v.parameters b s) (v.atomic s)
      (if !v.scratch.isHeldBy t && v'.scratch.isHeldBy t then [.scratch t] else []) (v'.atomic s')

private theorem proceeds_of_step (hserving : v'.Serving b s' unreported handler)
    (hparameters : v'.parameters b s' = v.parameters b s) (hscratch : v'.scratch = v.scratch)
    (hstep : AtomicDrive.Step program (v.parameters b s) (v.atomic s) [] (v'.atomic s')) :
    Proceeds program b v s unreported handler t v' := by
  refine ⟨s', hserving, hparameters, ?_⟩
  rw [hscratch, Bool.not_and_self]
  exact hstep

private theorem Serving.proceeds_keep (hv : v.Serving b s unreported handler) {a : Activity}
    (ha : a.program? = (v.activity t).program?) :
    Proceeds program b v s unreported handler t (v.act t a) := by
  obtain ⟨hserving, hatomic⟩ := hv.keep ha
  exact proceeds_of_step hserving rfl rfl (hatomic ▸ .still)

private theorem Serving.proceeds_goOn (hv : v.Serving b s unreported handler) {p p' : Program Reply}
    (hprogram : (v.activity t).program? = some p) (hp : p.Asks b) (hp' : p'.Asks b)
    (hstep : AtomicDrive.Step program (v.parameters b s) (v.atomic s) []
      ((v.atomic s).move t (.between p'))) :
    Proceeds program b v s unreported handler t (v.act t (.running p')) := by
  obtain ⟨hserving, hatomic⟩ := hv.goOn hprogram hp hp' v.scratch
  exact proceeds_of_step hserving rfl rfl (hatomic ▸ hstep)

private theorem Serving.does (hv : v.Serving b s unreported handler) (hspares : v.Spares v.arena)
    {p : Program Reply} {a : Activity} {v₁ : View} (hrunning : v.activity t = .running p)
    (does : v.Does b t p a v₁)
    (room : v.config.queueSize.toNat ∣ 65536 ∨ (v.atomic s).Alone (v.parameters b s)) :
    Proceeds program b v s unreported handler t (v₁.act t a) := by
  have hprogram : (v.activity t).program? = some p := by rw [hrunning]; rfl
  have hunder := hv.orderly.underway t p hprogram
  cases does with
  | done r => exact hv.proceeds_keep (by rw [hrunning])
  | inspect next =>
    have hasks := hunder.asks_of_stage? rfl
    refine hv.proceeds_goOn hprogram hasks (hunder.of_inspect _) ?_
    rw [hv.ready]
    exact .inspect t next s ⟨rfl, rfl⟩ (point_of_asks hasks hprogram)
  | refuse acc next e hrefuse =>
    have hasks := hunder.asks_of_stage? rfl
    exact hv.proceeds_goOn hprogram hasks (hunder.of_submit _)
      (.refuse t acc next e (point_of_asks hasks hprogram) (verdict_of_refuses hv.ready hrefuse))
  | submit acc next sector s₁ _ v₂ haccept hpub =>
    have hasks := hunder.asks_of_stage? rfl
    obtain ⟨s', hserving, hparameters, hatomic⟩ :=
      hv.submit hspares hprogram hunder.of_submit haccept room hpub
    refine proceeds_of_step hserving hparameters (by cases hpub <;> rfl) ?_
    rw [hatomic]
    exact .submit t acc next (point_of_asks hasks hprogram) (verdict_of_accepts hv.ready haccept)
  | publish id sector next s₁ q _ v₂ hs hq hpub =>
    cases hv.ready.symm.trans hs
    cases hpub with
    | wait => exact hv.proceeds_keep (by rw [hrunning]; rfl)
    | publish c r hc hcount hpublish =>
      obtain ⟨hserving, hsame⟩ := hv.launch hprogram hunder.of_publish hq hc hcount hpublish
        (room.imp_right fun alone => hv.not_isHead alone (.inr ⟨id, sector, next, hprogram⟩))
      exact proceeds_of_step hserving rfl rfl (hsame ▸ .still)
  | unready id sector next hidle =>
    rw [hv.ready] at hidle
    cases hidle
  | wait id ticket next _ => exact hv.proceeds_keep (by rw [hrunning]; rfl)
  | finish id ticket next q hq hdone =>
    obtain ⟨hpoint, hserving, hatomic⟩ := hv.finish hprogram hq hdone (hunder.of_complete _)
    exact proceeds_of_step hserving rfl rfl (hatomic ▸ .finish t q.data next hpoint)
  | takeScratch next hfree =>
    have hasks := hunder.asks_of_stage? rfl
    obtain ⟨hserving, hatomic⟩ := hv.goOn hprogram hasks (hunder.of_takeScratch v.scratch.value)
      (v.scratch.acquire t)
    have htook : (!v.scratch.isHeldBy t && (v.scratch.acquire t).isHeldBy t) = true := by
      simp [SleepLock.isHeldBy, SleepLock.acquire, hfree]
    refine ⟨s, hserving, rfl, ?_⟩
    rw [hatomic, View.act, htook]
    exact .takeScratch t next (point_of_asks hasks hprogram) hfree
  | awaitScratch next _ => exact hv.proceeds_keep (by rw [hrunning]; rfl)
  | giveScratch value next =>
    have hasks := hunder.asks_of_stage? rfl
    obtain ⟨hserving, hatomic⟩ := hv.goOn hprogram hasks hunder.of_giveScratch
      { v.scratch.release with value }
    have hgave : (!v.scratch.isHeldBy t &&
        SleepLock.isHeldBy { v.scratch.release with value } t) = false := by
      simp [SleepLock.isHeldBy, SleepLock.release]
    refine ⟨s, hserving, rfl, ?_⟩
    rw [hatomic, View.act, hgave]
    exact .giveScratch t value next (point_of_asks hasks hprogram)

variable (program) in
theorem Serving.advances (hv : v.Serving b s unreported handler) (hspares : v.Spares v.arena)
    (h : v.Advances b t v')
    (room : v.config.queueSize.toNat ∣ 65536 ∨ (v.atomic s).Alone (v.parameters b s)) :
    Proceeds program b v s unreported handler t v' := by
  cases h with
  | rest => exact proceeds_of_step hv rfl rfl .still
  | sleep p hp => exact hv.proceeds_keep (by rw [hp]; rfl)
  | stayUp p hp => exact hv.proceeds_keep (by rw [hp]; rfl)
  | run p a v₁ hp does => exact hv.does hspares hp does room

/-! ### The accesses of the handler -/

theorem Serving.setHandler {handler' : Option Run.CompletionPoint}
    (hv : v.Serving b s unreported handler)
    (h : handler' = some .taking → handler = some .taking) : v.Serving b s unreported handler' := by
  obtain ⟨offered, reported, hcustody, htaking⟩ := hv.custody
  exact { hv with custody := ⟨offered, reported, hcustody, fun ht => htaking (h ht)⟩ }

private theorem Serving.more (hv : v.Serving b s unreported handler)
    (h : s.rings.queue.used.isDrained = false) : v.Serving b s unreported (some .taking) := by
  have hb := (hv.orderly.kept s hv.ready).balanced
  obtain ⟨offered, reported, hcustody, -⟩ := hv.custody
  refine { hv with custody := ⟨offered, reported, hcustody, fun _ hnil => ?_⟩ }
  rw [(hcustody.isDrained_iff hb.sound).2 hnil] at h
  cases h

theorem Serving.not_drained (hv : v.Serving b s unreported (some .taking)) :
    s.rings.queue.used.isDrained = false := by
  have hb := (hv.orderly.kept s hv.ready).balanced
  obtain ⟨offered, reported, hcustody, htaking⟩ := hv.custody
  rw [← Bool.not_eq_true, hcustody.isDrained_iff hb.sound]
  exact htaking rfl

theorem Serving.handles {point next : Run.CompletionPoint}
    (hv : v.Serving b s unreported (some point)) (h : v.Handles point next v') :
    ∃ s', v'.Serving b s' unreported (some next) ∧ v'.parameters b s' = v.parameters b s ∧
      v'.atomic s' = v.atomic s := by
  have ho' := hv.orderly.handles h
  cases h with
  | read s' causes hs => exact ⟨s, hv.setHandler (fun h => by cases h), rfl, rfl⟩
  | acknowledge s' causes hs =>
    obtain ⟨offered, reported, hcustody, -⟩ := hv.custody
    refine ⟨s, ⟨ho', hv.ready, hv.valid, hv.placed, hv.misses, hv.apart, hv.whole, offered, reported,
      hcustody.congr ?_ rfl rfl rfl, fun h => by cases h⟩, rfl, rfl⟩
    exact Controller.queueSize_ackInterrupt _
  | drained s' hs hd => exact ⟨s, hv.setHandler (fun h => by cases h), rfl, rfl⟩
  | more s' hs hd =>
    cases hv.ready.symm.trans hs
    exact ⟨s, hv.more hd, rfl, rfl⟩
  | take s' head e q r hs hc hr =>
    cases hv.ready.symm.trans hs
    obtain ⟨hserving, hatomic⟩ := hv.complete hc hr rfl
    exact ⟨_, hserving, rfl, hatomic⟩
  | leave _ hleave => exact ⟨s, hv.setHandler (fun h => by cases h), rfl, rfl⟩

end View

end DiskStack
