import DiskStack.Proofs.Submissions

/-!
# The way of a submission

A request enters the table, is published, is completed by the handler and leaves the table when its
task returns. Each of these four moves keeps a view orderly.
-/

namespace DiskStack

namespace View

variable {b : BayId} {v v' : View} {t u : TaskId}

/-! ### Entering -/

/-- The view in which a task has entered its request and is about to publish it. -/
def admitted (b : BayId) (v : View) (t : TaskId) (a : BlockAccess)
    (next : SubmitReply → Program Reply) : View :=
  (v.enter a).act t (.parking (.publish b v.nextRequest (a.block * v.config.sectorsPerBlock) next))

section

variable {a : BlockAccess} {next : SubmitReply → Program Reply}

theorem stage_admitted (u : TaskId) :
    (admitted b v t a next).stage u =
      if u = t then some (.publish v.nextRequest (a.block * v.config.sectorsPerBlock))
      else v.stage u := by
  rw [admitted, stage_act]
  rfl

theorem Orderly.find?_admitted (ho : v.Orderly b) {g : Stage} (hg : v.stage u = some g) :
    (admitted b v t a next).requests.find? g.request = v.requests.find? g.request :=
  (find?_enter a _).trans (if_neg (ho.ne_next hg))

private theorem Kept.enter (ho : v.Orderly b) {s : ReadyState} (hs : v.state = .ready s)
    (hstage : v.stage t = none) : (admitted b v t a next).Kept s := by
  have hk := ho.kept s hs
  obtain ⟨base, log, hlog⟩ := hk.ticketed
  constructor
  case balanced => exact hk.balanced
  case unpublished =>
    intro u id sector q hu hq
    rw [stage_admitted] at hu
    split at hu
    · cases hu
      cases (find?_enter_next a).symm.trans hq
      exact ⟨rfl, rfl⟩
    · exact hk.unpublished u id sector q hu ((ho.find?_admitted hu).symm.trans hq)
  case entered =>
    intro h e he
    obtain ⟨u, q, hu, hq, hp, hc⟩ := hk.entered h e he
    have hne : u ≠ t := fun hut => by
      rw [hut, hstage] at hu
      cases hu
    exact ⟨u, q, by rw [stage_admitted, if_neg hne]; exact hu, (ho.find?_admitted hu).trans hq, hp, hc⟩
  case pending =>
    intro u id ticket q hu hq hp
    rw [stage_admitted] at hu
    split at hu
    · cases hu
    · exact hk.pending u id ticket q hu ((ho.find?_admitted hu).symm.trans hq) hp
  case unique => exact hk.unique
  case ticketed =>
    refine ⟨base, log, hlog.nodup, fun id hid => Nat.lt_succ_of_lt (hlog.named id hid), hlog.next, ?_,
      hlog.place⟩
    intro u id sector hu hid
    rw [stage_admitted] at hu
    split at hu
    · cases hu
      exact Nat.lt_irrefl _ (hlog.named _ hid)
    · exact hlog.fresh u id sector hu hid

/-- A submission that enters the table, at a task that was inside of none, keeps the order. -/
theorem Orderly.enter (ho : v.Orderly b) {s : ReadyState} (hs : v.state = .ready s)
    (hstage : v.stage t = none) (hlen : a.data.length = v.config.blockSize)
    (hlt : a.block * v.config.sectorsPerBlock < wordLimit) (hnext : ∀ r, (next r).Asks b) :
    (admitted b v t a next).Orderly b := by
  constructor
  case underway =>
    intro u p hp
    simp only [admitted, View.act] at hp
    split at hp
    · cases hp
      exact .publish _ _ next hnext
    · exact ho.underway u p hp
  case keyed =>
    refine List.nodup_cons.2 ⟨fun h => ?_, ho.keyed⟩
    obtain ⟨q, hq⟩ := RequestTable.mem_keys_iff.1 h
    exact absurd (ho.named _ q hq) (Nat.lt_irrefl _)
  case named =>
    intro id q hq
    have hfind := (find?_enter a id).symm.trans hq
    change id < v.nextRequest + 1
    split at hfind
    · next h => exact h ▸ Nat.lt_succ_self _
    · exact Nat.lt_succ_of_lt (ho.named id q hfind)
  case live =>
    intro u g hg
    rw [stage_admitted] at hg
    split at hg
    · cases hg
      exact ⟨_, find?_enter_next a, hlen, hlt⟩
    · rw [ho.find?_admitted hg]
      exact ho.live u g hg
  case own =>
    intro u w g g' hu hw hgg
    rw [stage_admitted] at hu hw
    split at hu <;> split at hw
    · next h₁ h₂ => rw [h₁, h₂]
    · cases hu
      exact absurd hgg (ho.ne_next hw)
    · cases hw
      exact absurd hgg.symm (ho.ne_next hu)
    · exact ho.own u w g g' hu hw hgg
  case idle =>
    intro h
    change v.state.isReady = false at h
    rw [hs] at h
    cases h
  case kept =>
    intro s' hs'
    exact Kept.enter ho hs' hstage

end

/-! ### Publishing -/

theorem Kept.published {s : ReadyState} (hk : v.Kept s) {c : Chain} {sub : Submission} {r : Rings}
    (hc : s.rings.Fresh c) (hp : (s.rings.taking c).publish c sub = .ok r) :
    Rings.Published (s.rings.taking c) v.config.queueSize.toNat c sub r :=
  hk.balanced.published hc hp

/-- The view in which a task has published its request and is about to wait for it. -/
def launched (b : BayId) (v : View) (t : TaskId) (s : ReadyState) (r : Rings) (id : RequestId)
    (next : SubmitReply → Program Reply) : View :=
  { v with
    state := .ready (s.published r)
    controller := v.controller.tell (.notifyQueue 0)
    requests := v.requests.setPending id true }.act t (.parking (.complete b id s.nextTicket next))

section

variable {s : ReadyState} {r : Rings} {id : RequestId} {next : SubmitReply → Program Reply}

theorem launched_act (v : View) (t : TaskId) (a : Activity) (s : ReadyState) (r : Rings)
    (id : RequestId) (next : SubmitReply → Program Reply) :
    launched b (v.act t a) t s r id next = launched b v t s r id next := by
  simp only [launched, act]
  congr 1
  funext u
  by_cases h : u = t <;> simp [h]

private theorem stage_launched (u : TaskId) :
    (launched b v t s r id next).stage u =
      if u = t then some (.complete id s.nextTicket) else v.stage u := by
  rw [launched, stage_act]
  rfl

private theorem find?_launched (other : RequestId) :
    (launched b v t s r id next).requests.find? other =
      if id = other then (v.requests.find? other).map fun q => { q with pending := true }
      else v.requests.find? other := RequestTable.find?_setPending true

/-- A published request takes the place after the last one, with the ticket counted up to it. -/
private theorem Ticketed.launch (ho : v.Orderly b) {base : UInt64} {log : List RequestId}
    (hlog : v.Ticketed s base log) {sector : Nat} (hstage : v.stage t = some (.publish id sector))
    (hentry : ∀ (h : UInt16) e, r.entryAt h.toNat = some e →
      e = ⟨id, s.nextTicket⟩ ∨ s.rings.entryAt h.toNat = some e) :
    (launched b v t s r id next).Ticketed (s.published r) base (log ++ [id]) := by
  constructor
  case nodup =>
    rw [List.nodup_append]
    refine ⟨hlog.nodup, by simp, fun x hx y hy hxy => ?_⟩
    rw [List.mem_singleton] at hy
    exact hlog.fresh t id sector hstage (hy ▸ hxy ▸ hx)
  case named =>
    intro x hx
    rcases List.mem_append.1 hx with hx | hx
    · exact hlog.named x hx
    · rw [List.mem_singleton] at hx
      obtain ⟨q, hq, -⟩ := ho.live t _ hstage
      exact hx ▸ ho.named id q hq
  case next =>
    rw [ReadyState.published, hlog.next, List.length_append, List.length_singleton,
      UInt64.ofNat_add, ← UInt64.add_assoc]
    rfl
  case fresh =>
    intro u id' sector' hu hmem
    rw [stage_launched] at hu
    split at hu
    · cases hu
    · next hne =>
      rcases List.mem_append.1 hmem with hmem | hmem
      · exact hlog.fresh u id' sector' hu hmem
      · rw [List.mem_singleton] at hmem
        exact hne (ho.own u t _ _ hu hstage hmem)
  case place =>
    intro h e he
    rcases hentry h e he with rfl | he
    · exact ⟨log.length, by rw [List.getElem?_concat_length], hlog.next⟩
    · obtain ⟨i, hi, hticket⟩ := hlog.place h e he
      have hlt : i < log.length := (List.getElem?_eq_some_iff.1 hi).1
      exact ⟨i, by rw [List.getElem?_append_left hlt]; exact hi, hticket⟩

/-- Publication ties the new entry to the publishing task and leaves the other entries alone. -/
private theorem Kept.launch (ho : v.Orderly b) (hs : v.state = .ready s) {sector : Nat}
    (hstage : v.stage t = some (.publish id sector)) {q : BlockRequest}
    (hq : v.requests.find? id = some q) {c : Chain} (hc : s.rings.Fresh c)
    (hcount : s.rings.queue.pool.numFree = (s.rings.taking c).queue.pool.numFree + 3)
    (hpub : Rings.Published (s.rings.taking c) v.config.queueSize.toNat c
      (s.submission id q sector) r) (next : SubmitReply → Program Reply) :
    (launched b v t s r id next).Kept (s.published r) := by
  have hk := ho.kept s hs
  obtain ⟨-, hsector⟩ := hk.unpublished t id sector q hstage hq
  obtain ⟨base, log, hlog⟩ := hk.ticketed
  have hentry : ∀ h : UInt16, (s.published r).rings.entryAt h.toNat =
      if h.toNat = c.head.toNat then some ⟨id, s.nextTicket⟩ else s.rings.entryAt h.toNat :=
    fun h => hpub.entry h.toNat
  -- no other task is inside of the submission with this name
  have hother : ∀ u g, v.stage u = some g → u ≠ t → id ≠ g.request := fun u g hu hne he =>
    hne (ho.own u t g _ hu hstage he.symm)
  have howner : ∀ (h : UInt16) e, s.rings.entryAt h.toNat = some e →
      ∃ u q, u ≠ t ∧ v.stage u = some (.complete e.request e.ticket) ∧ id ≠ e.request ∧
        v.requests.find? e.request = some q ∧ q.pending = true ∧
        s.rings.Carries (s.rings.chainAt h) (v.submissionOf e q) := fun h e he => by
    obtain ⟨u, q', hu, hrest⟩ := hk.entered h e he
    have hne : u ≠ t := fun hut => by
      rw [hut, hstage] at hu
      cases hu
    exact ⟨u, q', hne, hu, hother u _ hu hne, hrest⟩
  constructor
  case balanced => exact hk.balanced.publish hc hcount hpub
  case unpublished =>
    intro u id' sector' q' hu hq'
    rw [stage_launched] at hu
    split at hu
    · cases hu
    · next hne =>
      rw [find?_launched, if_neg (show id ≠ id' from hother u _ hu hne)] at hq'
      exact hk.unpublished u id' sector' q' hu hq'
  case entered =>
    intro h e he
    rw [hentry] at he
    split at he
    · next hh =>
      cases he
      have hhead : h = c.head := UInt16.toNat_inj.1 hh
      refine ⟨t, { q with pending := true }, by rw [stage_launched, if_pos rfl], ?_, rfl, ?_⟩
      · rw [find?_launched, if_pos rfl, hq]
        rfl
      · have hcarries := hpub.carries hc.distinct
        rw [ReadyState.submission, hsector] at hcarries
        rw [hhead, ReadyState.published, hpub.chainAt_head hc.distinct]
        exact hcarries
    · obtain ⟨u, q', hne, hu, hid, hq', hp, hcarries⟩ := howner h e he
      exact ⟨u, q', by rw [stage_launched, if_neg hne]; exact hu,
        by rw [find?_launched, if_neg hid]; exact hq', hp,
        hcarries.keeps (hpub.keeps hk.balanced hc (Rings.isHead_of_entryAt he))⟩
  case pending =>
    intro u id' ticket' q' hu hq' hp
    rw [stage_launched] at hu
    split at hu
    · cases hu
      exact ⟨c.head, by rw [hentry, if_pos rfl]⟩
    · next hne =>
      rw [find?_launched, if_neg (show id ≠ id' from hother u _ hu hne)] at hq'
      obtain ⟨h, he⟩ := hk.pending u id' ticket' q' hu hq' hp
      refine ⟨h, ?_⟩
      rw [hentry, if_neg]
      · exact he
      · intro hh
        rw [hh, hk.balanced.entryAt_fresh hc] at he
        cases he
  case unique =>
    intro h k e e' he he' hsame
    rw [hentry] at he he'
    split at he <;> split at he'
    · next h₁ h₂ => exact UInt16.toNat_inj.1 (h₁.trans h₂.symm)
    · cases he
      obtain ⟨-, -, -, -, hid, -⟩ := howner k e' he'
      exact absurd hsame hid
    · cases he'
      obtain ⟨-, -, -, -, hid, -⟩ := howner h e he
      exact absurd hsame.symm hid
    · exact hk.unique h k e e' he he' hsame
  case ticketed =>
    refine ⟨base, _, hlog.launch ho hstage fun h e he => ?_⟩
    rw [show r.entryAt h.toNat = _ from hentry h] at he
    split at he
    · cases he
      exact .inl rfl
    · exact .inr he

theorem Orderly.launch (ho : v.Orderly b) (hs : v.state = .ready s) {sector : Nat}
    (hstage : v.stage t = some (.publish id sector)) {q : BlockRequest}
    (hq : v.requests.find? id = some q) {c : Chain} (hc : s.rings.Fresh c)
    (hcount : s.rings.queue.pool.numFree = (s.rings.taking c).queue.pool.numFree + 3)
    (hp : (s.rings.taking c).publish c (s.submission id q sector) = .ok r)
    (hnext : ∀ r, (next r).Asks b) : (launched b v t s r id next).Orderly b := by
  -- the task stays inside of the submission with the same name
  have hold : ∀ u g, (launched b v t s r id next).stage u = some g →
      ∃ g', v.stage u = some g' ∧ g.request = g'.request := fun u g hu => by
    rw [stage_launched] at hu
    split at hu
    · next h =>
      cases hu
      exact ⟨.publish id sector, by rw [h]; exact hstage, rfl⟩
    · exact ⟨g, hu, rfl⟩
  constructor
  case underway =>
    intro u p hu
    simp only [launched, View.act] at hu
    split at hu
    · cases hu
      exact .complete _ _ next hnext
    · exact ho.underway u p hu
  case keyed =>
    rw [launched, View.act, RequestTable.keys_setPending]
    exact ho.keyed
  case named =>
    intro other q' hq'
    obtain ⟨q₀, hq₀, -⟩ := RequestTable.find?_of_setPending hq'
    exact ho.named other q₀ hq₀
  case live =>
    intro u g hu
    obtain ⟨g', hg', hsame⟩ := hold u g hu
    obtain ⟨q', hq', hlen, hlt⟩ := ho.live u g' hg'
    rw [hsame, find?_launched, hq']
    split
    · exact ⟨_, rfl, hlen, hlt⟩
    · exact ⟨_, rfl, hlen, hlt⟩
  case own =>
    intro u w g g' hu hw hsame
    obtain ⟨x, hx, hgx⟩ := hold u g hu
    obtain ⟨y, hy, hgy⟩ := hold w g' hw
    exact ho.own u w x y hx hy (by rw [← hgx, ← hgy, hsame])
  case idle =>
    intro h
    cases h
  case kept =>
    intro s' hs'
    cases hs'
    exact Kept.launch ho hs hstage hq hc hcount ((ho.kept s hs).published hc hp) next

end

/-! ### Completing -/

/-- The view after the handler has taken the request of a head off the used ring. -/
def completed (v : View) (s : ReadyState) (h : UInt16) (e : InFlight) : View :=
  { v with
    state := .ready { s with rings := s.rings.settled h }
    requests := v.requests.setPending e.request false }

private theorem find?_completed {s : ReadyState} {h : UInt16} {e : InFlight} (other : RequestId) :
    (v.completed s h e).requests.find? other =
      if e.request = other then (v.requests.find? other).map fun q => { q with pending := false }
      else v.requests.find? other := RequestTable.find?_setPending false

private theorem Kept.complete {s : ReadyState} (hk : v.Kept s) {h : UInt16} {e : InFlight}
    (he : s.rings.entryAt h.toNat = some e) :
    (v.completed s h e).Kept { s with rings := s.rings.settled h } := by
  have hb := hk.balanced
  have hh : s.rings.IsHead h := Rings.isHead_of_entryAt he
  obtain ⟨base, log, hlog⟩ := hk.ticketed
  have hlater : ∀ (k : UInt16) e', (s.rings.settled h).entryAt k.toNat = some e' →
      k ≠ h ∧ s.rings.entryAt k.toNat = some e' := fun k e' hk' => by
    rw [hb.entryAt_settled hh] at hk'
    split at hk'
    · cases hk'
    · next hne => exact ⟨fun hkh => hne (by rw [hkh]), hk'⟩
  constructor
  case balanced => exact hb.settle hh
  case unpublished =>
    intro u id sector q' hu hq'
    rw [find?_completed] at hq'
    split at hq'
    · obtain ⟨q, hq, rfl⟩ := Option.map_eq_some_iff.1 hq'
      exact ⟨rfl, (hk.unpublished u id sector q hu hq).2⟩
    · exact hk.unpublished u id sector q' hu hq'
  case entered =>
    intro k e' hk'
    obtain ⟨hne, hk'⟩ := hlater k e' hk'
    obtain ⟨u, q, hu, hq, hp, hcarries⟩ := hk.entered k e' hk'
    have hid : e.request ≠ e'.request := fun hsame => hne (hk.unique h k e e' he hk' hsame).symm
    exact ⟨u, q, hu, by rw [find?_completed, if_neg hid]; exact hq, hp,
      hcarries.keeps (hb.keeps_settled hh (Rings.isHead_of_entryAt hk') hne)⟩
  case pending =>
    intro u id ticket q' hu hq' hp
    rw [find?_completed] at hq'
    split at hq'
    · obtain ⟨q, -, rfl⟩ := Option.map_eq_some_iff.1 hq'
      cases hp
    · next hid =>
      obtain ⟨k, hk'⟩ := hk.pending u id ticket q' hu hq' hp
      refine ⟨k, ?_⟩
      rw [hb.entryAt_settled hh, if_neg]
      · exact hk'
      · intro hkh
        rw [hkh, he] at hk'
        cases hk'
        exact hid rfl
  case unique =>
    intro k l e₁ e₂ h₁ h₂
    exact hk.unique k l e₁ e₂ (hlater k e₁ h₁).2 (hlater l e₂ h₂).2
  case ticketed =>
    exact ⟨base, log, hlog.nodup, hlog.named, hlog.next, hlog.fresh,
      fun k e' hk' => hlog.place k e' (hlater k e' hk').2⟩

theorem Orderly.complete (ho : v.Orderly b) {s : ReadyState} (hs : v.state = .ready s) {h : UInt16}
    {e : InFlight} (he : s.rings.entryAt h.toNat = some e) : (v.completed s h e).Orderly b := by
  constructor
  case underway => exact ho.underway
  case keyed =>
    rw [completed, RequestTable.keys_setPending]
    exact ho.keyed
  case named =>
    intro other q' hq'
    obtain ⟨q, hq, -⟩ := RequestTable.find?_of_setPending hq'
    exact ho.named other q hq
  case live =>
    intro u g hu
    obtain ⟨q, hq, hlen, hlt⟩ := ho.live u g hu
    rw [find?_completed, hq]
    split
    · exact ⟨_, rfl, hlen, hlt⟩
    · exact ⟨_, rfl, hlen, hlt⟩
  case own => exact ho.own
  case idle =>
    intro h
    cases h
  case kept =>
    intro s' hs'
    cases hs'
    exact (ho.kept s hs).complete he

/-! ### Returning -/

theorem Orderly.finish (ho : v.Orderly b) {id : RequestId} {ticket : UInt64}
    (hstage : v.stage t = some (.complete id ticket)) {q : BlockRequest}
    (hq : v.requests.find? id = some q) (hdone : q.pending = false) {p : Program Reply}
    (hp : p.Asks b) :
    ({ v with requests := v.requests.erase id }.act t (.running p)).Orderly b := by
  have hst : ∀ u, ({ v with requests := v.requests.erase id }.act t (.running p)).stage u =
      if u = t then none else v.stage u := fun u => by
    rw [stage_act, show (Activity.running p).program?.bind Program.stage? = none from hp.stage?]
    rfl
  have hfind : ∀ g : Stage, id ≠ g.request →
      (v.requests.erase id).find? g.request = v.requests.find? g.request := fun g hne =>
    (RequestTable.find?_erase ..).trans (if_neg hne)
  have hold : ∀ u g, ({ v with requests := v.requests.erase id }.act t (.running p)).stage u =
      some g → v.stage u = some g ∧ id ≠ g.request := fun u g hu => by
    rw [hst] at hu
    split at hu
    · cases hu
    · next hne => exact ⟨hu, fun he => hne (ho.own u t g _ hu hstage he.symm)⟩
  constructor
  case underway =>
    intro u p' hu
    simp only [View.act] at hu
    split at hu
    · cases hu
      exact .asks p hp
    · exact ho.underway u p' hu
  case keyed => exact RequestTable.nodup_keys_erase ho.keyed
  case named =>
    intro other q' hq'
    exact ho.named other q' (RequestTable.find?_of_erase hq').2
  case live =>
    intro u g hu
    obtain ⟨hu, hne⟩ := hold u g hu
    obtain ⟨q', hq', hrest⟩ := ho.live u g hu
    exact ⟨q', (hfind g hne).trans hq', hrest⟩
  case own => exact fun u w g g' hu hw => ho.own u w g g' (hold u g hu).1 (hold w g' hw).1
  case idle =>
    intro h u
    rw [hst]
    split
    · rfl
    · exact ho.idle h u
  case kept =>
    intro s hs
    have hk := ho.kept s hs
    obtain ⟨base, log, hlog⟩ := hk.ticketed
    constructor
    case balanced => exact hk.balanced
    case unpublished =>
      intro u id' sector q' hu hq'
      exact hk.unpublished u id' sector q' (hold u _ hu).1 (RequestTable.find?_of_erase hq').2
    case entered =>
      intro h e he
      obtain ⟨u, q', hu, hq', hpending, hc⟩ := hk.entered h e he
      -- the returning task's request is not pending, so no entry is its own
      have hne : u ≠ t := fun hut => by
        rw [hut, hstage] at hu
        cases hu
        rw [hq, Option.some.injEq] at hq'
        rw [← hq', hdone] at hpending
        cases hpending
      have hid : id ≠ e.request := fun he => hne (ho.own u t _ _ hu hstage he.symm)
      exact ⟨u, q', by rw [hst, if_neg hne]; exact hu,
        (hfind (.complete e.request e.ticket) hid).trans hq', hpending, hc⟩
    case pending =>
      intro u id' ticket' q' hu hq'
      exact hk.pending u id' ticket' q' (hold u _ hu).1 (RequestTable.find?_of_erase hq').2
    case unique => exact hk.unique
    case ticketed =>
      exact ⟨base, log, hlog.nodup, hlog.named, hlog.next,
        fun u id' sector hu => hlog.fresh u id' sector (hold u _ hu).1, hlog.place⟩

end View

end DiskStack
