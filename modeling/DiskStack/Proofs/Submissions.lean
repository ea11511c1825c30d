import DiskStack.Proofs.Advance
import DiskStack.Proofs.Completion
import DiskStack.Proofs.Handshake
import DiskStack.Proofs.Requests
import DiskStack.Proofs.Scene

/-!
# Submissions and their chains

A task inside of a submission is either waiting for descriptors or for its completion. An orderly
view ties these tasks to the request table, to the in-flight entries and to the chains: an entry
belongs to one waiting task, whose request is pending, and its chain leads to that request's
buffer.
-/

namespace DiskStack

inductive Stage
  | publish (id : RequestId) (sector : Nat)
  | complete (id : RequestId) (ticket : UInt64)

def Stage.request : Stage → RequestId
  | .publish id _ | .complete id _ => id

def Program.stage? {α : Type} : Program α → Option Stage
  | .publish _ id sector _ => some (.publish id sector)
  | .complete _ id ticket _ => some (.complete id ticket)
  | _ => none

theorem Program.Asks.stage? {α : Type} {b : BayId} {p : Program α} (h : p.Asks b) :
    p.stage? = none := by
  cases h <;> rfl

theorem Program.Underway.asks_of_stage? {α : Type} {b : BayId} {p : Program α} (h : p.Underway b)
    (hs : p.stage? = none) : p.Asks b := by
  cases h with
  | asks _ h => exact h
  | publish => cases hs
  | complete => cases hs

namespace Rings

/-- A chain whose descriptors and header stand for a submission. -/
structure Carries (r : Rings) (c : Chain) (s : Submission) : Prop where
  head : r.slot c.head.toNat = headDescriptor c (r.headerPlace c.head)
  data : r.slot c.data.toNat = dataDescriptor c s
  status : r.slot c.status.toNat = statusDescriptor (r.statusPlace c.head)
  header : r.header c.head = headerOf s

theorem Carries.keeps {r q : Rings} {h : UInt16} {s : Submission} (hc : r.Carries (r.chainAt h) s)
    (hk : r.Keeps q h) : q.Carries (q.chainAt h) s := by
  rw [hk.chainAt]
  constructor
  case head =>
    rw [hk.slots _ (by simp [Chain.slots]), hc.head, headerPlace, headerPlace, hk.headersBase]
  case data => rw [hk.slots _ (by simp [Chain.slots]), hc.data]
  case status =>
    rw [hk.slots _ (by simp [Chain.slots]), hc.status, statusPlace, statusPlace, hk.statusBase]
  case header => exact hk.header.trans hc.header

theorem Published.carries {r q : Rings} {n : Nat} {c : Chain} {s : Submission}
    (hq : Published r n c s q) (hc : c.slots.Nodup) : q.Carries c s where
  head := by rw [hq.slot_head hc, headerPlace, headerPlace, hq.headersBase]
  data := hq.slot_data hc
  status := by rw [hq.slot_status, statusPlace, statusPlace, hq.statusBase]
  header := by rw [hq.header, if_pos rfl]

end Rings

namespace View

variable {b : BayId} {v v' : View} {t u : TaskId}

def stage (v : View) (t : TaskId) : Option Stage := (v.activity t).program?.bind Program.stage?

theorem stage_eq {p : Program Reply} (h : (v.activity t).program? = some p) :
    v.stage t = p.stage? := by
  rw [stage, h]
  rfl

theorem stage_act (a : Activity) (u : TaskId) :
    (v.act t a).stage u = if u = t then a.program?.bind Program.stage? else v.stage u := by
  simp only [stage, act]
  split <;> rfl

def submissionOf (v : View) (e : InFlight) (q : BlockRequest) : Submission :=
  ⟨e.request, e.ticket, q.write, q.block * v.config.sectorsPerBlock, q.address, q.length⟩

/-- The tickets of the entries, counted from a first one, are the places of their requests in the
list of those published. -/
structure Ticketed (v : View) (s : ReadyState) (base : UInt64) (log : List RequestId) : Prop where
  nodup : log.Nodup
  named : ∀ id ∈ log, id < v.nextRequest
  next : s.nextTicket = base + UInt64.ofNat log.length
  fresh : ∀ t id sector, v.stage t = some (.publish id sector) → id ∉ log
  place : ∀ (h : UInt16) e, s.rings.entryAt h.toNat = some e →
    ∃ i, log[i]? = some e.request ∧ e.ticket = base + UInt64.ofNat i

/-- The entries, the chains and the requests of a ready drive fit together. -/
structure Kept (v : View) (s : ReadyState) : Prop where
  balanced : s.rings.Balanced v.config.queueSize.toNat
  unpublished : ∀ t id sector q, v.stage t = some (.publish id sector) →
    v.requests.find? id = some q →
    q.pending = false ∧ sector = q.block * v.config.sectorsPerBlock
  entered : ∀ (h : UInt16) e, s.rings.entryAt h.toNat = some e →
    ∃ t q, v.stage t = some (.complete e.request e.ticket) ∧
      v.requests.find? e.request = some q ∧ q.pending = true ∧
      s.rings.Carries (s.rings.chainAt h) (v.submissionOf e q)
  pending : ∀ t id ticket q, v.stage t = some (.complete id ticket) →
    v.requests.find? id = some q → q.pending = true →
    ∃ h : UInt16, s.rings.entryAt h.toNat = some ⟨id, ticket⟩
  unique : ∀ (h k : UInt16) e e', s.rings.entryAt h.toNat = some e →
    s.rings.entryAt k.toNat = some e' → e.request = e'.request → h = k
  ticketed : ∃ base log, v.Ticketed s base log

/-- The tasks inside of submissions, their requests and the drive fit together. -/
structure Orderly (b : BayId) (v : View) : Prop where
  underway : ∀ t p, (v.activity t).program? = some p → p.Underway b
  keyed : v.requests.keys.Nodup
  named : ∀ id q, v.requests.find? id = some q → id < v.nextRequest
  live : ∀ t g, v.stage t = some g → ∃ q, v.requests.find? g.request = some q ∧
    q.length = v.config.blockSize ∧ q.block * v.config.sectorsPerBlock < wordLimit
  own : ∀ t u g g', v.stage t = some g → v.stage u = some g' → g.request = g'.request → t = u
  idle : v.state.isReady = false → ∀ t, v.stage t = none
  kept : ∀ s, v.state = .ready s → v.Kept s

/-! ### Steps that touch no request -/

theorem Orderly.congr (ho : v.Orderly b)
    (hunder : ∀ t p, (v'.activity t).program? = some p → p.Underway b)
    (hstage : ∀ t, v'.stage t = v.stage t) (hconfig : v'.config = v.config)
    (hstate : v'.state = v.state) (hrequests : v'.requests = v.requests)
    (hnext : v'.nextRequest = v.nextRequest) : v'.Orderly b := by
  have hsub : v'.submissionOf = v.submissionOf := by
    funext e q
    simp only [submissionOf, hconfig]
  constructor
  case underway => exact hunder
  case keyed => rw [hrequests]; exact ho.keyed
  case named =>
    rw [hrequests, hnext]
    exact ho.named
  case live =>
    intro t g hg
    rw [hstage] at hg
    rw [hrequests, hconfig]
    exact ho.live t g hg
  case own =>
    intro t u g g' ht hu
    rw [hstage] at ht hu
    exact ho.own t u g g' ht hu
  case idle =>
    intro h t
    rw [hstate] at h
    rw [hstage]
    exact ho.idle h t
  case kept =>
    intro s hs
    rw [hstate] at hs
    have hk := ho.kept s hs
    obtain ⟨base, log, hlog⟩ := hk.ticketed
    constructor
    case balanced => rw [hconfig]; exact hk.balanced
    case unpublished =>
      intro t id sector q ht hq
      rw [hstage] at ht
      rw [hrequests] at hq
      rw [hconfig]
      exact hk.unpublished t id sector q ht hq
    case entered =>
      intro h e he
      obtain ⟨t, q, ht, hq, hrest⟩ := hk.entered h e he
      rw [hsub, hrequests]
      exact ⟨t, q, by rw [hstage]; exact ht, hq, hrest⟩
    case pending =>
      intro t id ticket q ht hq
      rw [hstage] at ht
      rw [hrequests] at hq
      exact hk.pending t id ticket q ht hq
    case unique => exact hk.unique
    case ticketed =>
      refine ⟨base, log, hlog.nodup, by rw [hnext]; exact hlog.named, hlog.next, ?_, hlog.place⟩
      intro t id sector ht
      rw [hstage] at ht
      exact hlog.fresh t id sector ht

theorem stage_of_idle (h : v.activity t = .idle) : v.stage t = none := by
  rw [stage, h]
  rfl

theorem Orderly.of_idle (hidle : ∀ t, v.activity t = .idle) (hrequests : v.requests.entries = [])
    (hkept : ∀ s, v.state = .ready s → v.Kept s) : v.Orderly b := by
  have hstage : ∀ {t g}, v.stage t ≠ some g := fun {t g} h => by
    rw [stage_of_idle (hidle t)] at h
    cases h
  constructor
  case underway =>
    intro t p hp
    rw [hidle t] at hp
    cases hp
  case keyed =>
    rw [RequestTable.keys, hrequests]
    exact List.nodup_nil
  case named =>
    intro id q hq
    rw [RequestTable.find?, hrequests] at hq
    cases hq
  case live => exact fun t g hg => absurd hg hstage
  case own => exact fun t u g g' hg => absurd hg hstage
  case idle => exact fun _ t => stage_of_idle (hidle t)
  case kept => exact hkept

theorem Orderly.setArena (ho : v.Orderly b) (arena : Arena) : { v with arena }.Orderly b :=
  ho.congr ho.underway (fun _ => rfl) rfl rfl rfl rfl

theorem Orderly.setScratch (ho : v.Orderly b) (scratch : SleepLock Bytes) :
    { v with scratch }.Orderly b :=
  ho.congr ho.underway (fun _ => rfl) rfl rfl rfl rfl

theorem Orderly.act (ho : v.Orderly b) (t : TaskId) (a : Activity)
    (hunder : ∀ p, a.program? = some p → p.Underway b)
    (hstage : a.program?.bind Program.stage? = v.stage t) : (v.act t a).Orderly b := by
  refine ho.congr ?_ ?_ rfl rfl rfl rfl
  · intro u p hp
    simp only [View.act] at hp
    split at hp
    · exact hunder p hp
    · exact ho.underway u p hp
  · intro u
    rw [stage_act]
    split
    · next h => rw [h, hstage]
    · rfl

theorem Orderly.goOn (ho : v.Orderly b) {p p' : Program Reply} {a : Activity}
    (hprogram : (v.activity t).program? = some p) (ha : a.program? = some p')
    (hunder : p'.Underway b) (hstage : p'.stage? = p.stage?) : (v.act t a).Orderly b := by
  refine ho.act t a (fun x hx => ?_) ?_
  · cases ha.symm.trans hx
    exact hunder
  · rw [stage, hprogram, ha]
    exact hstage

theorem Orderly.ne_next (ho : v.Orderly b) {g : Stage} (hg : v.stage t = some g) :
    v.nextRequest ≠ g.request := by
  obtain ⟨q, hq, -⟩ := ho.live t g hg
  exact Nat.ne_of_gt (ho.named _ q hq)


/-! ### Bringing up -/

theorem Orderly.starts (ho : v.Orderly b) (h : v.Starts v') : v'.Orderly b := by
  cases h with
  | refused => exact ho
  | invalid hs _ | failed hs _ _ _ =>
    have hidle := ho.idle (by rw [hs]; rfl)
    exact ⟨ho.underway, ho.keyed, ho.named, ho.live, ho.own, fun _ => hidle,
      fun s hs' => by cases hs'⟩
  | started hs hc s arena hr =>
    have hidle := ho.idle (by rw [hs]; rfl)
    obtain ⟨⟨p, -, hrings⟩, -, hticket⟩ := View.rings_of_started hc hr
    obtain ⟨hleast, hmost⟩ := DriveConfig.queue_of_isValid hc
    have hnone : ∀ j, s.rings.entryAt j = none := fun j => by
      rw [hrings]
      exact Rings.entryAt_unused ..
    refine ⟨ho.underway, ho.keyed, ho.named, ho.live, ho.own, fun _ => hidle, ?_⟩
    intro s' hs'
    cases hs'
    constructor
    case balanced =>
      rw [hrings]
      exact Rings.unused_balanced _ _ hleast hmost
    case unpublished =>
      intro t id sector q ht
      have hnot : v.stage t = some (.publish id sector) := ht
      rw [hidle t] at hnot
      cases hnot
    case entered =>
      intro h e he
      rw [hnone] at he
      cases he
    case pending =>
      intro t id ticket q ht
      have hnot : v.stage t = some (.complete id ticket) := ht
      rw [hidle t] at hnot
      cases hnot
    case unique =>
      intro h k e e' he
      rw [hnone] at he
      cases he
    case ticketed =>
      refine ⟨0, [], List.nodup_nil, by simp, hticket, fun _ _ _ _ => List.not_mem_nil, ?_⟩
      intro h e he
      rw [hnone] at he
      cases he

/-! ### What a controller writes -/

/-- What a controller may write leaves the order: the used ring, the status bytes and the bytes in
the buffers, but no descriptor and no header. -/
theorem Orderly.overwrite (ho : v.Orderly b) {s : ReadyState} (hs : v.state = .ready s) {r : Rings}
    (hsound : r.Sound v.config.queueSize.toNat) (hpool : r.queue.pool = s.rings.queue.pool)
    (hentries : r.inFlight = s.rings.inFlight) (hheaders : r.headers = s.rings.headers)
    (hstatus : r.status.base = s.rings.status.base) {requests : RequestTable}
    (hrequests : v.requests.Rewritten requests) (c : Controller) :
    { v with state := .ready { s with rings := r }, requests, controller := c }.Orderly b := by
  have hk := ho.kept s hs
  have hentry : ∀ i, r.entryAt i = s.rings.entryAt i := fun i => by
    rw [Rings.entryAt, Rings.entryAt, hentries]
  constructor
  case underway => exact ho.underway
  case keyed =>
    change requests.keys.Nodup
    rw [hrequests.keys]
    exact ho.keyed
  case named =>
    intro id q hq
    obtain ⟨data, -, hq'⟩ := hrequests.back hq
    exact ho.named id _ hq'
  case live =>
    intro t g hg
    obtain ⟨q, hq, hlen, hlt⟩ := ho.live t g hg
    obtain ⟨data, hdata, hq'⟩ := hrequests.find _ q hq
    exact ⟨_, hq', hdata.trans hlen, hlt⟩
  case own => exact ho.own
  case idle =>
    intro h
    cases h
  case kept =>
    intro s' hs'
    cases hs'
    obtain ⟨base, log, hlog⟩ := hk.ticketed
    constructor
    case balanced => exact hk.balanced.congr hsound hpool hentries
    case unpublished =>
      intro t id sector q ht hq
      obtain ⟨data, -, hq'⟩ := hrequests.back hq
      have hold := hk.unpublished t id sector _ ht hq'
      exact hold
    case entered =>
      intro h e he
      rw [hentry] at he
      obtain ⟨t, q, ht, hq, hp, hc⟩ := hk.entered h e he
      obtain ⟨data, hdata, hq'⟩ := hrequests.find _ q hq
      have hsame : submissionOf v e { q with data } = submissionOf v e q := by
        rw [submissionOf, submissionOf, BlockRequest.length, BlockRequest.length, hdata]
      have hcarries := hc.keeps (Rings.Keeps.of_pool hpool hentries hheaders hstatus h)
      rw [← hsame] at hcarries
      exact ⟨t, _, ht, hq', hp, hcarries⟩
    case pending =>
      intro t id ticket q ht hq hp
      obtain ⟨data, -, hq'⟩ := hrequests.back hq
      obtain ⟨h, he⟩ := hk.pending t id ticket _ ht hq' hp
      exact ⟨h, by rw [hentry]; exact he⟩
    case unique =>
      intro h k e e' he he'
      rw [hentry] at he he'
      exact hk.unique h k e e' he he'
    case ticketed =>
      refine ⟨base, log, hlog.nodup, hlog.named, hlog.next, hlog.fresh, ?_⟩
      intro h e he
      rw [hentry] at he
      exact hlog.place h e he

end View

end DiskStack
