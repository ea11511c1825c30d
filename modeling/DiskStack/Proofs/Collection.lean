import DiskStack.Proofs.InFlight
import DiskStack.Proofs.Interrupts
import DiskStack.Proofs.Offers

/-!
# What the completion handler makes of the used ring

Whatever the used ring says, the handler takes its elements one by one from the cursor on. It halts at
the first one that names no request in flight, or whose status byte is not zero, and returns when the
cursor has come up with the controller's index. Each request that it takes until then loses its entry,
its pending flag and its chain, its caller is woken and then those who wait for descriptors, and it is
counted; the other requests in flight are not touched. By the time it halts the cursor is past the
element, and the entry of a request that has failed is gone.
-/

namespace DiskStack

open Run (CompletionPoint)

namespace Rings

/-- What taking the request of a head does to the rings. -/
structure Releases (r : Rings) (h : UInt16) (q : Rings) : Prop where
  used : q.queue.used = { r.queue.used with lastSeen := r.queue.used.lastSeen + 1 }
  entry : ∀ i, q.entryAt i = if i = h.toNat then none else r.entryAt i
  linked : r.Linked h
  taken : ∀ i : UInt16, q.queue.pool.IsTaken i.toNat ↔
    r.queue.pool.IsTaken i.toNat ∧ i ∉ (r.chainAt h).slots
  slot : ∀ i : UInt16, q.slot i.toNat =
    if i ∈ (r.chainAt h).slots then .empty else r.slot i.toNat
  others : ∀ k, r.IsHead k → k ≠ h → r.Keeps q k
  avail : q.queue.avail = r.queue.avail
  headers : q.headers = r.headers
  status : q.status = r.status

variable {r : Rings} {n : Nat} {h : UInt16} {e : InFlight}

private theorem Balanced.releases (hb : r.Balanced n) (hh : r.IsHead h) : r.Releases h (r.settled h) where
  used := rfl
  entry := hb.entryAt_settled hh
  linked := hb.linked h hh
  taken := hb.isTaken_settled hh
  slot := hb.slot_settled hh
  others _ hk hne := hb.keeps_settled hh hk hne
  avail := rfl
  headers := rfl
  status := rfl

section releases

variable {q : Rings} {k : UInt16}

private theorem Releases.entryAt_self (hq : r.Releases h q) : q.entryAt h.toNat = none :=
  (hq.entry _).trans (if_pos rfl)

private theorem Releases.entryAt_of_ne (hq : r.Releases h q) (hk : k ≠ h) :
    q.entryAt k.toNat = r.entryAt k.toNat :=
  (hq.entry _).trans (if_neg fun hc => hk (UInt16.toNat_inj.1 hc))

private theorem Releases.of_entryAt (hq : r.Releases h q) (he : q.entryAt k.toNat = some e) :
    k ≠ h ∧ r.entryAt k.toNat = some e := by
  have hne : k ≠ h := by
    rintro rfl
    cases hq.entryAt_self.symm.trans he
  exact ⟨hne, (hq.entryAt_of_ne hne).symm.trans he⟩

private theorem Releases.isHead_iff (hq : r.Releases h q) : q.IsHead k ↔ r.IsHead k ∧ k ≠ h := by
  rw [IsHead, IsHead]
  constructor
  · intro hk
    obtain ⟨e, he⟩ := Option.isSome_iff_exists.1 hk
    obtain ⟨hne, he'⟩ := hq.of_entryAt he
    exact ⟨Option.isSome_iff_exists.2 ⟨e, he'⟩, hne⟩
  · rintro ⟨hk, hne⟩
    rw [hq.entryAt_of_ne hne]
    exact hk

private theorem Releases.statusByte_eq (hq : r.Releases h q) (k : UInt16) :
    q.statusByte k = r.statusByte k := by
  rw [statusByte, hq.status]
  rfl

end releases

/-- The element under the cursor of the used ring. -/
def underCursor (r : Rings) : UsedElement := r.queue.used.report r.queue.used.lastSeen

/-- What the element under the cursor stands for: a request that has succeeded or failed, or none. -/
theorem Sound.collect_cases (hr : r.Sound n) :
    (∃ h e, r.underCursor.id.toNat = h.toNat ∧ r.entryAt h.toNat = some e ∧
      r.statusByte h = RequestStatus.ok ∧ r.collect = (.ok (h, e), r.collected h)) ∨
    (∃ h e, r.underCursor.id.toNat = h.toNat ∧ r.entryAt h.toNat = some e ∧
      r.statusByte h ≠ RequestStatus.ok ∧
      r.collect = (.error (.failedStatus h (r.statusByte h)), r.collected h)) ∨
    (r.entryAt r.underCursor.id.toNat = none ∧
      r.collect = (.error (.unknownHead r.underCursor.id), r.advanced)) := by
  have hcollect : r.collect = r.advanced.claim r.underCursor := hr.collect_eq
  cases he : r.entryAt r.underCursor.id.toNat with
  | none => exact .inr (.inr ⟨rfl, hcollect.trans (claim_of_entryAt_none (r := r.advanced) he)⟩)
  | some e =>
    have hid := (hr.toNat_toUInt16 he).symm
    have hclaim := hcollect.trans (claim_of_entryAt (r := r.advanced) he)
    by_cases hok : r.statusByte r.underCursor.id.toUInt16 = RequestStatus.ok
    · exact .inl ⟨_, e, hid, hid ▸ he, hok, hr.collect_iff.2 ⟨hid, hid ▸ he, hok, rfl⟩⟩
    · have hstatus : r.advanced.statusByte r.underCursor.id.toUInt16 ≠ RequestStatus.ok := hok
      refine .inr (.inl ⟨_, e, hid, hid ▸ he, hok, ?_⟩)
      rw [hclaim, if_pos hstatus, collected, ← hid]
      rfl

private theorem entryAt_collected (he : r.entryAt h.toNat = some e) (i : Nat) :
    (r.collected h).entryAt i = if i = h.toNat then none else r.entryAt i :=
  entryAt_join_set (lt_size_of_entryAt he) none i

end Rings

namespace Machine

variable {m m' : Machine} {b : BayId} {s : ReadyState} {h : UInt16} {e : InFlight}

/-- What the handler does with a request that has succeeded: the caller of its ticket is woken before
its chain is released, and those who wait for descriptors after that. -/
structure Settles (b : BayId) (h : UInt16) (e : InFlight) (m m' : Machine) : Prop where
  drive : ∃ s r, (m.bay b).drive.state = .ready s ∧ s.rings.Releases h r ∧
    m'.bay b = { m.bay b with drive := { (m.bay b).drive with
      state := .ready { s with rings := r }
      stats := (m.bay b).drive.stats.countCompletion } }
  pending : m.requests.isPending e.request = true
  requests : ∀ id, m'.requests.find? id =
    if e.request = id then (m.requests.find? id).map fun q => { q with pending := false }
    else m.requests.find? id
  waiting : m'.waiting = (m.waiting.wake ((m.bay b).drive.completionChannel e.ticket)).wake
    (m.bay b).drive.descriptorChannel
  events : m'.events =
    .wake (m.bay b).drive.descriptorChannel
        ((m.waiting.wake ((m.bay b).drive.completionChannel e.ticket)).waitersOf
          (m.bay b).drive.descriptorChannel) ::
      .wake ((m.bay b).drive.completionChannel e.ticket)
        (m.waiting.waitersOf ((m.bay b).drive.completionChannel e.ticket)) :: m.events
  tasks : m'.tasks = m.tasks
  others : ∀ k, k ≠ b → m'.bay k = m.bay k

section frames

variable (level : LogLevel) (source text : String)

@[simp] theorem bay_log : (m.log level source text).bay b = m.bay b := by
  rw [log]
  split <;> rfl

@[simp] theorem tasks_log : (m.log level source text).tasks = m.tasks := by
  rw [log]
  split <;> rfl

@[simp] theorem requests_log : (m.log level source text).requests = m.requests := by
  rw [log]
  split <;> rfl

@[simp] theorem waiting_log : (m.log level source text).waiting = m.waiting := by
  rw [log]
  split <;> rfl

@[simp] theorem events_log : (m.log level source text).events = m.events := by
  rw [log]
  split <;> rfl

@[simp] theorem view_log : (m.log level source text).view b = m.view b := by
  rw [log]
  split <;> rfl

@[simp] theorem size_bays_log : (m.log level source text).bays.size = m.bays.size := by
  rw [log]
  split <;> rfl

end frames

/-- The machine after the handler has taken the request of a head. -/
def settle (m : Machine) (b : BayId) (s : ReadyState) (h : UInt16) (e : InFlight) : Machine :=
  ((m.complete b s e (s.rings.collected h) (s.rings.settled h)).counted b).log .debug driveSource
    s!"virtio-blk: completed head {h}"

theorem bay_settle (hb : b < m.bays.size) :
    (m.settle b s h e).bay b = { m.bay b with drive := { (m.bay b).drive with
      state := .ready { s with rings := s.rings.settled h }
      stats := (m.bay b).drive.stats.countCompletion } } := by
  rw [settle, bay_log, bay_counted (by rwa [size_bays_complete]), bay_complete hb]

@[simp] theorem size_bays_settle : (m.settle b s h e).bays.size = m.bays.size := by
  rw [settle, size_bays_log, size_bays_counted, size_bays_complete]

private theorem view_settle (hb : b < m.bays.size) :
    (m.settle b s h e).view b = (m.view b).completed s h e := by
  rw [settle, view_log, view_counted (by rwa [size_bays_complete]), view_complete hb]
  rfl

private theorem settles_settle (hb : b < m.bays.size) (ho : (m.view b).Orderly b)
    (hs : (m.bay b).drive.state = .ready s) (he : s.rings.entryAt h.toNat = some e) :
    m.Settles b h e (m.settle b s h e) := by
  have hk := ho.kept s hs
  have hreleases := hk.balanced.releases (Rings.isHead_of_entryAt he)
  obtain ⟨t, q, -, hq, hpending, -⟩ := hk.entered h e he
  constructor
  case drive => exact ⟨s, _, hs, hreleases, bay_settle hb⟩
  case pending =>
    have hfind : m.requests.find? e.request = some q := hq
    rw [RequestTable.isPending, hfind]
    exact hpending
  case requests =>
    intro id
    rw [settle, requests_log]
    exact RequestTable.find?_setPending false
  case waiting =>
    rw [settle, waiting_log]
    rfl
  case events =>
    rw [settle, events_log]
    rfl
  case tasks =>
    rw [settle, tasks_log, tasks_counted, tasks_complete]
  case others =>
    intro k hk
    rw [settle, bay_log, counted, mapDrive, bay_mapBay_of_ne hk, complete_of_ne hk]

/-- The machine that a handler leaves that halts with some rings collected from. -/
def stopped (m : Machine) (b : BayId) (s : ReadyState) (q : Rings) (text : String) : Machine :=
  (m.setState b (.ready { s with rings := q })).log .error driveSource text

theorem bay_stopped (hb : b < m.bays.size) (q : Rings) (text : String) :
    (m.stopped b s q text).bay b = { m.bay b with drive.state := .ready { s with rings := q } } := by
  rw [stopped, bay_log, bay_setState _ hb]

private theorem requests_stopped (q : Rings) (text : String) :
    (m.stopped b s q text).requests = m.requests := by
  rw [stopped, requests_log]
  rfl

end Machine

/-- How a handler deals with the elements from the cursor on: the requests that it takes, and how it
ends. -/
inductive Machine.Drains (b : BayId) :
    Machine → List (UInt16 × InFlight) → Except Halt Unit → Machine → Prop
  | drained (m : Machine) (s : ReadyState) (hs : (m.bay b).drive.state = .ready s)
    (h : s.rings.queue.used.lastSeen = s.rings.queue.used.deviceIndex) : Drains b m [] (.ok ()) m
  | unknown (m : Machine) (s : ReadyState) (hs : (m.bay b).drive.state = .ready s)
    (hmore : s.rings.queue.used.lastSeen ≠ s.rings.queue.used.deviceIndex)
    (hnone : s.rings.entryAt s.rings.underCursor.id.toNat = none) :
    Drains b m [] (.error (.unknownHead s.rings.underCursor.id))
      (m.stopped b s s.rings.advanced
        s!"virtio-blk: completion for unknown head {s.rings.underCursor.id}")
  | failed (m : Machine) (s : ReadyState) (h : UInt16) (e : InFlight)
    (hs : (m.bay b).drive.state = .ready s)
    (hmore : s.rings.queue.used.lastSeen ≠ s.rings.queue.used.deviceIndex)
    (hid : s.rings.underCursor.id.toNat = h.toNat) (he : s.rings.entryAt h.toNat = some e)
    (hstatus : s.rings.statusByte h ≠ 0) :
    Drains b m [] (.error (.failedStatus h (s.rings.statusByte h)))
      (m.stopped b s (s.rings.collected h)
        s!"virtio-blk: request at head {h} failed with status {s.rings.statusByte h}")
  | settle (m m' m'' : Machine) (s : ReadyState) (h : UInt16) (e : InFlight)
    (l : List (UInt16 × InFlight)) (r : Except Halt Unit) (hs : (m.bay b).drive.state = .ready s)
    (hmore : s.rings.queue.used.lastSeen ≠ s.rings.queue.used.deviceIndex)
    (hid : s.rings.underCursor.id.toNat = h.toNat) (he : s.rings.entryAt h.toNat = some e)
    (hstatus : s.rings.statusByte h = 0) (hsettles : m.Settles b h e m')
    (rest : Drains b m' l r m'') : Drains b m ((h, e) :: l) r m''

namespace Machine

variable {m m' : Machine} {b : BayId} {s s' : ReadyState} {h : UInt16} {e : InFlight}
  {table table' table'' : RequestTable} {l : List (UInt16 × InFlight)} {r : Except Halt Unit}

/-- Why a handler goes no further than some requests: the cursor has come up with the index, or the next
element names no request that is still in flight, or one that has failed. -/
inductive Stops (s : ReadyState) (l : List (UInt16 × InFlight)) : Except Halt Unit → Prop
  | drained (h : s.rings.queue.used.lastSeen + UInt16.ofNat l.length =
      s.rings.queue.used.deviceIndex) : Stops s l (.ok ())
  | unknown (id : UInt32)
    (hmore : s.rings.queue.used.lastSeen + UInt16.ofNat l.length ≠ s.rings.queue.used.deviceIndex)
    (hid : (s.rings.queue.used.report
      (s.rings.queue.used.lastSeen + UInt16.ofNat l.length)).id = id)
    (hnone : s.rings.entryAt id.toNat = none ∨ ∃ p ∈ l, p.1.toNat = id.toNat) :
    Stops s l (.error (.unknownHead id))
  | failed (h : UInt16)
    (hmore : s.rings.queue.used.lastSeen + UInt16.ofNat l.length ≠ s.rings.queue.used.deviceIndex)
    (hid : (s.rings.queue.used.report
      (s.rings.queue.used.lastSeen + UInt16.ofNat l.length)).id.toNat = h.toNat)
    (hhead : s.rings.IsHead h) (hfirst : h ∉ l.map Prod.fst) (hstatus : s.rings.statusByte h ≠ 0) :
    Stops s l (.error (.failedStatus h (s.rings.statusByte h)))

/-- The number of elements that a handler gets past: one for each request that it takes, and the one
that it halts at. -/
def passed (l : List (UInt16 × InFlight)) : Except Halt Unit → Nat
  | .ok _ => l.length
  | .error _ => l.length + 1

/-- The heads whose entries a handler empties: those that it takes, and one whose request has failed. -/
def emptied (l : List (UInt16 × InFlight)) : Except Halt Unit → List UInt16
  | .error (.failedStatus h _) => l.map Prod.fst ++ [h]
  | _ => l.map Prod.fst

private theorem passed_cons (p : UInt16 × InFlight) (l : List (UInt16 × InFlight)) (r : Except Halt Unit) :
    passed (p :: l) r = passed l r + 1 := by
  cases r <;> rfl

private theorem emptied_cons (p : UInt16 × InFlight) (l : List (UInt16 × InFlight)) (r : Except Halt Unit) :
    emptied (p :: l) r = p.1 :: emptied l r := by
  rw [emptied.eq_def, emptied.eq_def]
  split <;> rfl

/-- What a handler that has taken the given requests, and has ended in some way, has made of a ready
drive and of the requests. -/
structure Sweeps (s : ReadyState) (table : RequestTable) (l : List (UInt16 × InFlight))
    (r : Except Halt Unit) (s' : ReadyState) (table' : RequestTable) : Prop where
  used : s'.rings.queue.used = { s.rings.queue.used with
    lastSeen := s.rings.queue.used.lastSeen + UInt16.ofNat (passed l r) }
  named : ∀ i (hi : i < l.length),
    (s.rings.queue.used.report (s.rings.queue.used.lastSeen + UInt16.ofNat i)).id.toNat =
      l[i].1.toNat
  entered : ∀ p ∈ l, s.rings.entryAt p.1.toNat = some p.2 ∧ s.rings.statusByte p.1 = 0
  once : (l.map Prod.fst).Nodup
  stops : Stops s l r
  entry : ∀ h : UInt16, s'.rings.entryAt h.toNat =
    if h ∈ emptied l r then none else s.rings.entryAt h.toNat
  kept : ∀ h, s.rings.IsHead h → h ∉ emptied l r → s.rings.Keeps s'.rings h
  chains : ∀ h, s.rings.IsHead h → h ∉ l.map Prod.fst → ∀ i ∈ (s.rings.chainAt h).slots,
    s'.rings.slot i.toNat = s.rings.slot i.toNat
  taken : ∀ i : UInt16, s'.rings.queue.pool.IsTaken i.toNat ↔ s.rings.queue.pool.IsTaken i.toNat ∧
    ∀ p ∈ l, i ∉ (s.rings.chainAt p.1).slots
  requests : ∀ id, table'.find? id =
    if id ∈ l.map (·.2.request) then (table.find? id).map fun q => { q with pending := false }
    else table.find? id

/-- A handler that takes no request and goes past an element, or past none, with the entry of a failed
request emptied. -/
private theorem sweeps_nil {q : Rings} (hused : q.queue.used = { s.rings.queue.used with
      lastSeen := s.rings.queue.used.lastSeen + UInt16.ofNat (passed [] r) })
    (hstops : Stops s [] r)
    (hentry : ∀ i : Nat, q.entryAt i =
      if ∃ k ∈ emptied [] r, k.toNat = i then none else s.rings.entryAt i)
    (hpool : q.queue.pool = s.rings.queue.pool) (hheaders : q.headers = s.rings.headers)
    (hstatus : q.status = s.rings.status) :
    Sweeps s table [] r { s with rings := q } table where
  used := hused
  named _ hi := absurd hi (Nat.not_lt_zero _)
  entered _ hp := absurd hp List.not_mem_nil
  once := List.nodup_nil
  stops := hstops
  entry h := by
    simp only [hentry, UInt16.toNat_inj, exists_eq_right]
  kept h _ hmem := by
    have hsame : q.entryAt h.toNat = s.rings.entryAt h.toNat := by
      rw [hentry, if_neg]
      rintro ⟨k, hk, hkh⟩
      exact hmem (UInt16.toNat_inj.1 hkh ▸ hk)
    refine ⟨hsame, fun i _ => ?_, ?_, ?_, ?_⟩
    · change q.slot i.toNat = _
      rw [Rings.slot, Rings.slot, hpool]
    · rw [Rings.header, hheaders]
      rfl
    · rw [hheaders]
    · rw [hstatus]
  chains h _ _ i _ := by
    change q.slot i.toNat = _
    rw [Rings.slot, Rings.slot, hpool]
  taken i := by
    change q.queue.pool.IsTaken i.toNat ↔ _
    simp [hpool]
  requests _ := by rw [List.map_nil, if_neg List.not_mem_nil]

private theorem Stops.cons {q : Rings} (hq : s.rings.Releases h q) (hs : Stops { s with rings := q } l r) :
    Stops s ((h, e) :: l) r := by
  have hindex : q.queue.used.deviceIndex = s.rings.queue.used.deviceIndex := by rw [hq.used]; rfl
  have hcursor : q.queue.used.lastSeen + UInt16.ofNat l.length =
      s.rings.queue.used.lastSeen + UInt16.ofNat ((h, e) :: l).length := by
    rw [hq.used, List.length_cons, running_succ]
  have hreport : ∀ i, q.queue.used.report i = s.rings.queue.used.report i := fun i => by
    rw [hq.used]
    rfl
  cases hs with
  | drained hsame =>
    refine .drained ?_
    rw [← hcursor, ← hindex]
    exact hsame
  | unknown id hmore hid hnone =>
    refine .unknown id ?_ ?_ ?_
    · rw [← hcursor, ← hindex]
      exact hmore
    · rw [← hcursor, ← hreport]
      exact hid
    · have hentry := hq.entry id.toNat
      by_cases hh : id.toNat = h.toNat
      · exact .inr ⟨(h, e), List.mem_cons_self .., hh.symm⟩
      · rw [if_neg hh] at hentry
        rcases hnone with hnone | ⟨p, hp, hpid⟩
        · exact .inl (hentry.symm.trans hnone)
        · exact .inr ⟨p, List.mem_cons_of_mem _ hp, hpid⟩
  | failed k hmore hid hhead hfirst hbad =>
    obtain ⟨hhead, hne⟩ := hq.isHead_iff.1 hhead
    have hstatus := hq.statusByte_eq k
    change Stops s _ (.error (.failedStatus k (q.statusByte k)))
    rw [hstatus]
    refine .failed k ?_ ?_ ?_ ?_ ?_
    · rw [← hcursor, ← hindex]
      exact hmore
    · rw [← hcursor, ← hreport]
      exact hid
    · exact hhead
    · rw [List.map_cons, List.mem_cons, not_or]
      exact ⟨hne, hfirst⟩
    · rw [← hstatus]
      exact hbad

private theorem Sweeps.cons {q : Rings} (hq : s.rings.Releases h q)
    (hid : s.rings.underCursor.id.toNat = h.toNat) (he : s.rings.entryAt h.toNat = some e)
    (hstatus : s.rings.statusByte h = 0)
    (hrequests : ∀ id, table'.find? id =
      if e.request = id then (table.find? id).map fun q => { q with pending := false }
      else table.find? id)
    (hs : Sweeps { s with rings := q } table' l r s' table'') :
    Sweeps s table ((h, e) :: l) r s' table'' := by
  have hentered : ∀ p ∈ l, p.1 ≠ h ∧ s.rings.entryAt p.1.toNat = some p.2 ∧
      s.rings.statusByte p.1 = 0 := fun p hp => by
    obtain ⟨hentry, hok⟩ := hs.entered p hp
    obtain ⟨hne, hentry⟩ := hq.of_entryAt hentry
    exact ⟨hne, hentry, (hq.statusByte_eq p.1).symm.trans hok⟩
  have hfirst : h ∉ l.map Prod.fst := fun hmem => by
    obtain ⟨p, hp, hph⟩ := List.mem_map.1 hmem
    exact (hentered p hp).1 hph
  constructor
  case used =>
    rw [hs.used]
    change { q.queue.used with lastSeen := q.queue.used.lastSeen + UInt16.ofNat (passed l r) } = _
    rw [hq.used, passed_cons, running_succ]
  case named =>
    intro i hi
    cases i with
    | zero =>
      have hcursor : s.rings.queue.used.lastSeen + UInt16.ofNat 0 = s.rings.queue.used.lastSeen :=
        UInt16.add_zero _
      rw [hcursor]
      exact hid
    | succ i =>
      have hnamed := hs.named i (Nat.lt_of_succ_lt_succ hi)
      change (q.queue.used.report (q.queue.used.lastSeen + UInt16.ofNat i)).id.toNat = _ at hnamed
      rw [hq.used] at hnamed
      rw [running_succ]
      exact hnamed
  case entered =>
    intro p hp
    rcases List.mem_cons.1 hp with rfl | hp
    · exact ⟨he, hstatus⟩
    · exact (hentered p hp).2
  case once => exact List.nodup_cons.2 ⟨hfirst, hs.once⟩
  case stops => exact hs.stops.cons hq
  case entry =>
    intro k
    rw [hs.entry k, emptied_cons]
    by_cases hk : k = h
    · rw [hk, if_pos (List.mem_cons_self ..)]
      split
      · rfl
      · exact hq.entryAt_self
    · simp only [List.mem_cons, hk, false_or]
      split
      · rfl
      · exact hq.entryAt_of_ne hk
  case kept =>
    intro k hk hmem
    rw [emptied_cons, List.mem_cons, not_or] at hmem
    obtain ⟨hne, hmem⟩ := hmem
    exact (hq.others k hk hne).trans (hs.kept k (hq.isHead_iff.2 ⟨hk, hne⟩) hmem)
  case chains =>
    intro k hk hmem i hi
    rw [List.map_cons, List.mem_cons, not_or] at hmem
    obtain ⟨hne, hmem⟩ := hmem
    have hkeeps := hq.others k hk hne
    have hslot := hs.chains k (hq.isHead_iff.2 ⟨hk, hne⟩) hmem i (hkeeps.chainAt ▸ hi)
    exact hslot.trans (hkeeps.slots i hi)
  case taken =>
    intro i
    rw [hs.taken i]
    change q.queue.pool.IsTaken i.toNat ∧ (∀ p ∈ l, i ∉ (q.chainAt p.1).slots) ↔ _
    rw [hq.taken i, List.forall_mem_cons, and_assoc]
    refine and_congr_right fun _ => and_congr_right fun _ => forall₂_congr fun p hp => ?_
    obtain ⟨hne, hentry, -⟩ := hentered p hp
    rw [(hq.others p.1 (Rings.isHead_of_entryAt hentry) hne).chainAt]
  case requests =>
    intro id
    rw [hs.requests id, hrequests id, List.map_cons]
    by_cases hid' : e.request = id
    · rw [if_pos hid', if_pos (List.mem_cons.2 (.inl hid'.symm))]
      split
      · rw [Option.map_map]
        rfl
      · rfl
    · simp only [List.mem_cons, Ne.symm hid', false_or, if_neg hid']

/-- The requests taken are what the used ring names from the cursor on, each of them in flight and
successful. Their entries are gone and nobody waits for them any more; the other chains are kept. A
handler that returns leaves nothing in the ring. -/
private theorem Drains.sweeps (h : m.Drains b l r m') (hs : (m.bay b).drive.state = .ready s) :
    ∃ s', (m'.bay b).drive.state = .ready s' ∧ Sweeps s m.requests l r s' m'.requests ∧
      (m'.bay b).drive.stats.completions =
        (m.bay b).drive.stats.completions + UInt64.ofNat l.length ∧
      (r = .ok () → s'.rings.queue.used.lastSeen = s'.rings.queue.used.deviceIndex) := by
  have hcursor : ∀ s : ReadyState, s.rings.queue.used.lastSeen + UInt16.ofNat 0 =
      s.rings.queue.used.lastSeen := fun s => UInt16.add_zero _
  induction h generalizing s with
  | drained m s₀ hs₀ hdrained =>
    cases hs.symm.trans hs₀
    refine ⟨s₀, hs₀, ?_, (UInt64.add_zero _).symm, fun _ => hdrained⟩
    exact sweeps_nil (q := s₀.rings) (by rw [passed, List.length_nil, hcursor])
      (.drained (by rw [List.length_nil, hcursor]; exact hdrained)) (fun i => by simp [emptied]) rfl rfl rfl
  | unknown m s₀ hs₀ hmore hnone =>
    cases hs.symm.trans hs₀
    have hb := lt_of_ready hs
    refine ⟨_, by rw [bay_stopped hb], ?_, ?_, fun h => by cases h⟩
    · rw [requests_stopped]
      exact sweeps_nil rfl (.unknown _ (by rw [List.length_nil, hcursor]; exact hmore)
        (by rw [List.length_nil, hcursor]; rfl) (.inl hnone)) (fun i => by simp [emptied]; rfl) rfl rfl rfl
    · rw [bay_stopped hb]
      exact (UInt64.add_zero _).symm
  | failed m s₀ h e hs₀ hmore hid he hbad =>
    cases hs.symm.trans hs₀
    have hb := lt_of_ready hs
    refine ⟨_, by rw [bay_stopped hb], ?_, ?_, fun h => by cases h⟩
    · rw [requests_stopped]
      exact sweeps_nil rfl (.failed h (by rw [List.length_nil, hcursor]; exact hmore)
        (by rw [List.length_nil, hcursor]; exact hid) (Rings.isHead_of_entryAt he) (by simp) hbad)
        (fun i => by rw [Rings.entryAt_collected he]; simp [emptied, eq_comm]) rfl rfl rfl
    · rw [bay_stopped hb]
      exact (UInt64.add_zero _).symm
  | settle m m' m'' s₀ h e l r hs₀ hmore hid he hstatus hsettles rest ih =>
    cases hs.symm.trans hs₀
    obtain ⟨s₁, q, hs₁, hq, hbay⟩ := hsettles.drive
    cases hs₀.symm.trans hs₁
    have hs' : (m'.bay b).drive.state = .ready { s₀ with rings := q } := by rw [hbay]
    obtain ⟨s', hfinal, hsweeps, hcount, hend⟩ := ih hs'
    refine ⟨s', hfinal, hsweeps.cons hq hid he hstatus hsettles.requests, ?_, hend⟩
    rw [hcount, hbay, List.length_cons, UInt64.ofNat_add, UInt64.add_comm (UInt64.ofNat l.length),
      ← UInt64.add_assoc]
    rfl

end Machine

namespace Run

variable {m : Machine} {b : BayId} {s : ReadyState}

theorem ends_completeNext_settle {h : UInt16} {e : InFlight} {n : Nat} (hb : s.rings.Balanced n)
    (he : s.rings.entryAt h.toNat = some e)
    (hc : s.rings.collect = (.ok (h, e), s.rings.collected h)) :
    Ends (completeNext b s) m fun r m' => r = .ok () ∧ m' = m.settle b s h e := by
  have hr := hb.release (Rings.isHead_of_entryAt he)
  rw [completeNext, hc]
  refine ends_get (ends_modify (ends_modify ?_))
  rw [hr]
  exact ends_bind (ends_pure (ends_modify (ends_modify (ends_modify ⟨rfl, rfl⟩))))

theorem ends_completeNext_stop {h : Halt} {q : Rings} {text : String}
    (hc : s.rings.collect = (.error h, q)) (hlog : logFailure h = log .error driveSource text) :
    Ends (completeNext b s) m fun r m' => r = .error h ∧ m' = m.stopped b s q text := by
  rw [completeNext, hc]
  refine ends_modify ?_
  rw [hlog]
  exact ends_modify (ends_throw ⟨rfl, rfl⟩)

private theorem ends_more {n : Nat} {Q : Except Halt Unit → Machine → Prop}
    (hs : (m.bay b).drive.state = .ready s)
    (hmore : s.rings.queue.used.lastSeen ≠ s.rings.queue.used.deviceIndex)
    (h : Ends (completeNext b s) m fun r m' =>
      match r with
      | .ok _ => Ends (completionSteps b n .looking) m' Q
      | .error e => Q (.error e) m') : Ends (completionSteps b (n + 2) .looking) m Q := by
  have hnot : s.rings.queue.used.isDrained = false := by
    rw [UsedRing.isDrained, beq_eq_false_iff_ne]
    exact hmore
  refine ends_bind (ends_get ?_)
  rw [hs]
  refine ends_pure ?_
  rw [hnot]
  refine ends_bind (ends_get ?_)
  rw [hs]
  refine ends_bind (h.mono ?_)
  rintro (e | _) m' hm'
  · exact hm'
  · exact ends_pure hm'

/-- The handler looks, takes and looks again until the used ring is drained or it halts. -/
private theorem ends_drain (n : Nat) (hb : b < m.bays.size) (ho : (m.view b).Orderly b)
    (hs : (m.bay b).drive.state = .ready s) (hn : 2 * s.rings.queue.used.backlog + 1 ≤ n) :
    Ends (completionSteps b n .looking) m fun r m' => ∃ l, m.Drains b l r m' := by
  induction hk : s.rings.queue.used.backlog generalizing n m s with
  | zero =>
    obtain ⟨n, rfl⟩ : ∃ k, n = k + 1 := ⟨n - 1, by omega⟩
    have hdrained := UsedRing.backlog_eq_zero_iff.1 hk
    refine ends_bind (ends_get ?_)
    rw [hs]
    refine ends_pure ?_
    have hnone : s.rings.queue.used.isDrained = true := by
      rw [UsedRing.isDrained, beq_iff_eq]
      exact hdrained
    rw [hnone]
    cases n <;> exact ends_pure ⟨[], .drained m s hs hdrained⟩
  | succ k ih =>
    obtain ⟨n, rfl⟩ : ∃ k, n = k + 2 := ⟨n - 2, by omega⟩
    have hmore : s.rings.queue.used.lastSeen ≠ s.rings.queue.used.deviceIndex := fun h => by
      rw [UsedRing.backlog_eq_zero_iff.2 h] at hk
      cases hk
    have hbalanced := (ho.kept s hs).balanced
    apply ends_more hs hmore
    rcases hbalanced.sound.collect_cases with ⟨h, e, hid, he, hok, hc⟩ | ⟨h, e, hid, he, hok, hc⟩ |
      ⟨hnone, hc⟩
    · -- the machine with the request taken has one element less to go
      apply (ends_completeNext_settle hbalanced he hc).mono
      rintro _ m' ⟨rfl, rfl⟩
      have hsettles := Machine.settles_settle hb ho hs he
      have ho' : ((m.settle b s h e).view b).Orderly b := by
        rw [Machine.view_settle hb]
        exact ho.complete hs he
      have hbacklog : (s.rings.settled h).queue.used.backlog = k :=
        Nat.succ.inj ((UsedRing.backlog_succ hmore).trans hk)
      have hs' : ((m.settle b s h e).bay b).drive.state =
          .ready { s with rings := s.rings.settled h } := by rw [Machine.bay_settle hb]
      have hless : 2 * (s.rings.settled h).queue.used.backlog + 1 ≤ n := by omega
      have hrest := ih n (by rwa [Machine.size_bays_settle]) ho' hs' hless hbacklog
      apply hrest.mono
      rintro r m' ⟨l, hl⟩
      exact ⟨(h, e) :: l, .settle m _ m' s h e l r hs hmore hid he hok hsettles hl⟩
    · apply (ends_completeNext_stop hc rfl).mono
      rintro _ _ ⟨rfl, rfl⟩
      exact ⟨[], .failed m s h e hs hmore hid he hok⟩
    · apply (ends_completeNext_stop hc rfl).mono
      rintro _ _ ⟨rfl, rfl⟩
      exact ⟨[], .unknown m s hs hmore hnone⟩

end Run

namespace Machine

variable {m m' m'' : Machine} {b : BayId} {evs evs' : List Event}

/-- Whether a short lock that is taken on a core will have the flag to put back. -/
def saves (m : Machine) (t : TaskId) : Bool := m.interruptControl && (m.task t).core.enabled

/-- The machine with the flag of a core put back. -/
def putBack (m : Machine) (t : TaskId) (saved : Bool) : Machine :=
  if saved then (m.emit (.unmask t)).mapCore t Core.enable else m

/-- The machine that is left where some work is done under a short lock. If the work halts, the flag is
not put back. -/
def leftBy (m : Machine) (t : TaskId) (saved : Bool) : Except Halt Unit → Machine
  | .ok _ => m.putBack t saved
  | .error _ => m

@[simp] theorem bay_leftBy (t : TaskId) (saved : Bool) (r : Except Halt Unit) :
    (m.leftBy t saved r).bay b = m.bay b := by
  cases r <;> cases saved <;> rfl

@[simp] theorem requests_leftBy (t : TaskId) (saved : Bool) (r : Except Halt Unit) :
    (m.leftBy t saved r).requests = m.requests := by
  cases r <;> cases saved <;> rfl

/-- What masking the interrupts and accesses to the registers of a controller change: what is seen, the
flag of the core and the controller. -/
structure Accesses (b : BayId) (evs : List Event) (m m' : Machine) : Prop where
  size : m'.bays.size = m.bays.size
  number : (m'.bay b).number = (m.bay b).number
  drive : (m'.bay b).drive = (m.bay b).drive
  requests : m'.requests = m.requests
  waiting : m'.waiting = m.waiting
  events : m'.events = evs ++ m.events
  view : m'.view b = { m.view b with controller := (m'.bay b).controller }

private theorem Accesses.trans (h : m.Accesses b evs m') (h' : m'.Accesses b evs' m'') :
    m.Accesses b (evs' ++ evs) m'' where
  size := h'.size.trans h.size
  number := h'.number.trans h.number
  drive := h'.drive.trans h.drive
  requests := h'.requests.trans h.requests
  waiting := h'.waiting.trans h.waiting
  events := by rw [h'.events, h.events, List.append_assoc]
  view := by rw [h'.view, h.view]

private theorem Accesses.orderly (h : m.Accesses b evs m') (ho : (m.view b).Orderly b) :
    (m'.view b).Orderly b := by
  rw [h.view]
  exact ho.congr ho.underway (fun _ => rfl) rfl rfl rfl rfl

private theorem accesses_mask (m : Machine) (b : BayId) (t : TaskId) :
    m.Accesses b [.mask t] ((m.emit (.mask t)).mapCore t Core.disable) := by
  have halike := (alike_emit (m := m) (b := b) (.mask t)).trans
    (alike_mapCore t (f := Core.disable) fun _ _ hi => .inl hi)
  exact ⟨halike.size, halike.number, rfl, rfl, rfl, rfl, halike.view⟩

private theorem accesses_mapController (hb : b < m.bays.size) (f : Controller → Controller)
    (hf : (f (m.bay b).controller).image = (m.bay b).controller.image) (e : Event) :
    m.Accesses b [e] ((m.mapController b f).emit e) := by
  have halike := (alike_mapController hb hf).trans (alike_emit e)
  have hdrive : ((m.mapController b f).bay b).drive = (m.bay b).drive := by
    rw [bay_mapController hb f]
  exact ⟨halike.size, halike.number, hdrive, rfl, rfl, rfl, halike.view⟩

end Machine

namespace Run

variable {m : Machine} {b : BayId} {s : ReadyState}

private theorem ends_mask (t : TaskId) (b : BayId) (m : Machine) :
    Ends (mask t) m fun r m' => r = .ok (m.saves t) ∧
      m.Accesses b (if m.interruptControl then [.mask t] else []) m' := by
  apply ends_get
  rw [Machine.saves]
  cases m.interruptControl with
  | true => exact ends_set (ends_pure ⟨rfl, m.accesses_mask b t⟩)
  | false => exact ends_pure ⟨rfl, rfl, rfl, rfl, rfl, rfl, rfl, rfl⟩

private theorem ends_putBack (t : TaskId) (saved : Bool) (m : Machine) :
    Ends (putBack t saved) m fun r m' => r = .ok () ∧ m' = m.putBack t saved := by
  cases saved with
  | true => exact ⟨rfl, rfl⟩
  | false => exact ends_pure ⟨rfl, rfl⟩

theorem ends_reading (hb : b < m.bays.size) (hs : (m.bay b).drive.state = .ready s) :
    Ends (completionStep b .reading) m fun r m' => ∃ causes, r = .ok (.acknowledging causes) ∧
      m.Accesses b [.query (m.bay b).number .interruptStatus causes] m' := by
  apply ends_get
  rw [hs]
  refine ends_bind (ends_get (ends_set (ends_pure ?_)))
  exact ends_pure ⟨_, rfl, Machine.accesses_mapController hb
    (fun _ => ((m.bay b).controller.ask .interruptStatus).2) rfl _⟩

theorem ends_acknowledging (hb : b < m.bays.size) (hs : (m.bay b).drive.state = .ready s)
    (causes : UInt32) : Ends (completionStep b (.acknowledging causes)) m fun r m' =>
      r = .ok .looking ∧
        m.Accesses b [.command (m.bay b).number (.ackInterrupt (causes &&& interruptMask))] m' := by
  apply ends_get
  rw [hs]
  exact ends_modify (ends_pure ⟨rfl, Machine.accesses_mapController hb _
    (Controller.image_tell _ _) _⟩)

/-- What is seen of a handler before it looks at the used ring. -/
def prelude (m : Machine) (t : TaskId) (b : BayId) (causes : UInt32) : List Event :=
  [.command (m.bay b).number (.ackInterrupt (causes &&& interruptMask))] ++
    ([.query (m.bay b).number .interruptStatus causes] ++
      if m.interruptControl then [.mask t] else [])

/-- Under its short lock the handler reads the causes of the interrupt, acknowledges them and then drains
the used ring. -/
private theorem ends_completeAll (hb : b < m.bays.size) (ho : (m.view b).Orderly b)
    (hs : (m.bay b).drive.state = .ready s) :
    Ends (completeAll b) m fun r m' => ∃ m₁ causes l,
      m.Accesses b [.command (m.bay b).number (.ackInterrupt (causes &&& interruptMask)),
        .query (m.bay b).number .interruptStatus causes] m₁ ∧ m₁.Drains b l r m' := by
  refine ends_get ?_
  rw [hs]
  have hbound : completionBound s = 2 * s.rings.queue.used.backlog + 1 + 1 + 1 := by
    rw [completionBound]
    omega
  change Ends (completionSteps b (completionBound s) .reading) m _
  rw [hbound]
  refine ends_bind ((ends_reading hb hs).mono ?_)
  rintro _ m₁ ⟨causes, rfl, hasked⟩
  have hs₁ : (m₁.bay b).drive.state = .ready s := by rw [hasked.drive, hs]
  have hb₁ : b < m₁.bays.size := by rwa [hasked.size]
  refine ends_bind ((ends_acknowledging hb₁ hs₁ causes).mono ?_)
  rintro _ m₂ ⟨rfl, htold⟩
  rw [hasked.number] at htold
  have hall := hasked.trans htold
  have hs₂ : (m₂.bay b).drive.state = .ready s := by rw [hall.drive, hs]
  have hb₂ : b < m₂.bays.size := by rwa [hall.size]
  apply (ends_drain _ hb₂ (hall.orderly ho) hs₂ (Nat.le_refl _)).mono
  rintro r m' ⟨l, hl⟩
  exact ⟨m₂, causes, l, hall, hl⟩

private theorem ends_handleCompletion (t : TaskId) (hb : b < m.bays.size) (ho : (m.view b).Orderly b)
    (hs : (m.bay b).drive.state = .ready s) :
    Ends (handleCompletion t b) m fun r m' => ∃ m₁ m₂ causes l,
      m.Accesses b (prelude m t b causes) m₁ ∧ m₁.Drains b l r m₂ ∧ m' = m₂.leftBy t (m.saves t) r := by
  refine ends_bind ((ends_mask t b m).mono ?_)
  rintro _ m₁ ⟨rfl, hmasked⟩
  have hs₁ : (m₁.bay b).drive.state = .ready s := by rw [hmasked.drive, hs]
  have hb₁ : b < m₁.bays.size := by rwa [hmasked.size]
  refine ends_bind ((ends_completeAll hb₁ (hmasked.orderly ho) hs₁).mono ?_)
  rintro r m₃ ⟨m₂, causes, l, haccessed, hdrains⟩
  rw [hmasked.number] at haccessed
  have hall := hmasked.trans haccessed
  cases r with
  | error e => exact ⟨m₂, m₃, causes, l, hall, hdrains, rfl⟩
  | ok _ =>
    apply (ends_putBack t _ m₃).mono
    rintro _ _ ⟨rfl, rfl⟩
    exact ⟨m₂, m₃, causes, l, hall, hdrains, rfl⟩

end Run

namespace Scene

variable {b : BayId} {m : Machine} {s : Scene}

/-- In every scene of a run from a fresh drive with a controller that writes what it likes, the handler
takes the elements of the used ring in order, and halts exactly at the first that names no request in
flight then, or whose status byte is not zero. -/
theorem drains_of_run (fresh : m.Fresh b) {trace : List (Incident BlockAccess)}
    (run : Run (adversarial b) { machine := m } trace s) {st : ReadyState}
    (ready : (s.machine.bay b).drive.state = .ready st) (t : TaskId) :
    ∃ m₁ m₂ causes l r m' st', (Run.handleCompletion t b).run.run s.machine = (r, m') ∧
      s.machine.Accesses b (Run.prelude s.machine t b causes) m₁ ∧ m₁.Drains b l r m₂ ∧
      m' = m₂.leftBy t (s.machine.saves t) r ∧
      (m'.bay b).drive.state = .ready st' ∧
      Machine.Sweeps st s.machine.requests l r st' m'.requests ∧
      (m'.bay b).drive.stats.completions =
        (s.machine.bay b).drive.stats.completions + UInt64.ofNat l.length ∧
      (r = .ok () → st'.rings.queue.used.lastSeen = st'.rings.queue.used.deviceIndex) := by
  have hs := inOrder_of_run fresh run
  have hends := Run.ends_handleCompletion t hs.steady.present hs.orderly ready
  rw [Run.Ends] at hends
  rcases hrun : (Run.handleCompletion t b).run.run s.machine with ⟨r, m'⟩
  simp only [hrun] at hends
  obtain ⟨m₁, m₂, causes, l, hfirst, hdrains, hleft⟩ := hends
  obtain ⟨st', hst', hsweeps, hcount, hend⟩ := hdrains.sweeps (by rw [hfirst.drive, ready])
  rw [hfirst.requests] at hsweeps
  rw [hfirst.drive] at hcount
  have hbay : m'.bay b = m₂.bay b := by rw [hleft, Machine.bay_leftBy]
  have hrequests : m'.requests = m₂.requests := by rw [hleft, Machine.requests_leftBy]
  rw [← hbay] at hst' hcount
  rw [← hrequests] at hsweeps
  exact ⟨m₁, m₂, causes, l, r, m', st', rfl, hfirst, hdrains, hleft, hst', hsweeps, hcount, hend⟩

/-- The second request of two has been reported as done, and then the first one as failed. -/
def failure_sample : List (Choice BlockAccess Forgery) :=
  twoCalls ++ [.device ⟨0, ⟨3, 1024⟩, 0⟩, .device ⟨1, ⟨0, 1024⟩, 1⟩]

private theorem sweeps_failure {st st' : ReadyState} {table table' : RequestTable}
    {l : List (UInt16 × InFlight)} {r : Except Halt Unit} (hsweeps : Machine.Sweeps st table l r st' table')
    (hcursor : st.rings.queue.used.lastSeen = 0) (hindex : st.rings.queue.used.deviceIndex = 2)
    (hfirst : (st.rings.queue.used.report 0).id.toNat = UInt16.toNat 3)
    (hsecond : (st.rings.queue.used.report 1).id.toNat = UInt16.toNat 0)
    (hdone : st.rings.statusByte 3 = 0) (hfailed : st.rings.statusByte 0 = 1)
    (hentry : st.rings.entryAt (UInt16.toNat 0) = some ⟨0, 0⟩)
    (hentry' : st.rings.entryAt (UInt16.toNat 3) = some ⟨1, 1⟩) :
    l = [(3, ⟨1, 1⟩)] ∧ r = .error (.failedStatus 0 1) := by
  have hnamed := hsweeps.named
  have hstops := hsweeps.stops
  rw [hcursor] at hnamed
  -- the second element is never taken, as its status byte is not zero
  have hshort : l.length ≤ 1 := by
    refine Nat.le_of_not_lt fun hlt => ?_
    have hhead : l[1].1 = 0 := UInt16.toNat_inj.1 ((hnamed 1 hlt).symm.trans hsecond)
    have hzero := (hsweeps.entered _ (List.getElem_mem hlt)).2
    rw [hhead, hfailed] at hzero
    cases hzero
  rcases l with _ | ⟨⟨h, e⟩, _ | ⟨p, l⟩⟩
  · have hnext : st.rings.queue.used.lastSeen + UInt16.ofNat ([] : List (UInt16 × InFlight)).length = 0 := by
      rw [hcursor]
      rfl
    cases hstops with
    | drained h =>
      rw [hnext, hindex] at h
      cases h
    | unknown id hmore hid hnone =>
      rw [hnext] at hid
      rw [← hid, hfirst, hentry'] at hnone
      simp at hnone
    | failed h hmore hid hhead hnew hstatus =>
      rw [hnext, hfirst] at hid
      rw [← UInt16.toNat_inj.1 hid] at hstatus
      exact absurd hdone hstatus
  · obtain rfl : 3 = h := UInt16.toNat_inj.1 (hfirst.symm.trans (hnamed 0 Nat.one_pos))
    obtain ⟨he, -⟩ := hsweeps.entered _ (List.mem_singleton_self _)
    cases hentry'.symm.trans he
    refine ⟨rfl, ?_⟩
    have hnext : st.rings.queue.used.lastSeen +
        UInt16.ofNat [((3 : UInt16), (⟨1, 1⟩ : InFlight))].length = 1 := by
      rw [hcursor]
      rfl
    cases hstops with
    | drained h =>
      rw [hnext, hindex] at h
      cases h
    | unknown id hmore hid hnone =>
      rw [hnext] at hid
      rw [← hid, hsecond, hentry] at hnone
      simp at hnone
    | failed h hmore hid hhead hnew hstatus =>
      rw [hnext, hsecond] at hid
      rw [← UInt16.toNat_inj.1 hid, hfailed]
  · exact absurd hshort (by simp)

/-- With both requests in flight on the sample machine, the handler takes the second one, which is reported
first, and halts at the first one, whose status byte is 1. By then the cursor is past both elements
and both entries are gone. -/
theorem drains_of_run_sample :
    ∃ trace s st m₁ m₂ causes m' st', Run (adversarial 0) { machine := .sample } trace s ∧
      (s.machine.bay 0).drive.state = .ready st ∧ st.rings.inFlightCount = 2 ∧
      (Run.handleCompletion controlTask 0).run.run s.machine = (.error (.failedStatus 0 1), m') ∧
      s.machine.Accesses 0 (Run.prelude s.machine controlTask 0 causes) m₁ ∧
      m₁.Drains 0 [(3, ⟨1, 1⟩)] (.error (.failedStatus 0 1)) m₂ ∧
      (m'.bay 0).drive.state = .ready st' ∧ st'.rings.queue.used.lastSeen = 2 ∧
      st'.rings.entryAt 0 = none ∧ st'.rings.entryAt 3 = none ∧
      ∀ id, m'.requests.find? id = if id = 1 then
        (s.machine.requests.find? id).map fun q => { q with pending := false }
        else s.machine.requests.find? id := by
  obtain ⟨trace, s, st, run, ready, count, hcursor, hindex, hfirst, hsecond, hdone, hfailed, hentry,
    hentry'⟩ :=
    exists_run_of_play (forger 0) { machine := .sample } failure_sample
      (fun _ _ st => st.rings.inFlightCount = 2 ∧ st.rings.queue.used.lastSeen = 0 ∧
        st.rings.queue.used.deviceIndex = 2 ∧
        (st.rings.queue.used.report 0).id.toNat = UInt16.toNat 3 ∧
        (st.rings.queue.used.report 1).id.toNat = UInt16.toNat 0 ∧
        st.rings.statusByte 3 = 0 ∧ st.rings.statusByte 0 = 1 ∧
        st.rings.entryAt (UInt16.toNat 0) = some ⟨0, 0⟩ ∧
        st.rings.entryAt (UInt16.toNat 3) = some ⟨1, 1⟩) (by decide +kernel)
  obtain ⟨m₁, m₂, causes, l, r, m', st', hrun, hfirst', hdrains, -, hst', hsweeps, -⟩ :=
    drains_of_run Machine.fresh_sample run ready controlTask
  obtain ⟨rfl, rfl⟩ := sweeps_failure hsweeps hcursor hindex hfirst hsecond hdone hfailed hentry hentry'
  refine ⟨trace, s, st, m₁, m₂, causes, m', st', run, ready, count, hrun, hfirst', hdrains, hst', ?_,
    hsweeps.entry 0, hsweeps.entry 3, fun id => ?_⟩
  · rw [hsweeps.used, hcursor]
    rfl
  · rw [hsweeps.requests]
    simp only [List.map_cons, List.map_nil, List.mem_singleton]

end Scene

end DiskStack
