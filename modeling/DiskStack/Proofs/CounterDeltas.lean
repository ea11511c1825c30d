import DiskStack.Proofs.Nodes
import DiskStack.Proofs.Regular

/-!
# What a step adds to the counters

A drive gives each request that it publishes a ticket, counts those that have been completed, and, when
their submissions return, those of each direction. What goes on around a task leaves all three accounts
as they are, where a request that is completed leaves the in-flight table for the counter. What a node
does to them goes by how far it gets its task's submission: a ticket when the request is published, and
an entry on one side when the submission returns.
-/

namespace DiskStack

open Run (Leads)

namespace Rings

variable {r q : Rings} {n : Nat} {head : UInt16} {e : InFlight}

private theorem Balanced.overwritten (hb : r.Balanced n) (h : r.Overwritten q) : q.Balanced n :=
  hb.congr (hb.sound.overwritten h) h.pool h.entries

/-- Whatever is collected has had an entry, and has none any more. -/
private theorem inFlightCount_of_collect (h : r.collect = (.ok (head, e), q)) :
    q.inFlightCount + 1 = r.inFlightCount := by
  obtain ⟨element, used, -, hclaim⟩ := exists_take_of_collect h
  have hcount : ({ r with queue.used := used } : Rings).inFlightCount = r.inFlightCount := rfl
  rw [← hcount]
  generalize { r with queue.used := used } = r at hclaim
  cases hentry : r.entryAt element.id.toNat with
  | none =>
    rw [claim_of_entryAt_none hentry] at hclaim
    cases hclaim
  | some entry =>
    have hlt := lt_size_of_entryAt hentry
    have hpos : 0 < r.inFlightCount := inFlightCount_pos hentry
    rw [claim_of_entryAt hentry] at hclaim
    rw [← (Prod.mk.inj hclaim).2, inFlightCount, count_setIfInBounds hlt,
      show (r.inFlight[element.id.toNat]?).join = some entry from hentry]
    exact Nat.sub_add_cancel hpos

private theorem inFlight_release (h : q.release head = .ok r) : r.inFlight = q.inFlight := by
  obtain ⟨⟨count, pool⟩, -, h⟩ := Checked.exists_of_bind h
  cases h
  rfl

private theorem Balanced.taken (hb : r.Balanced n) {q' : Rings} (hc : r.collect = (.ok (head, e), q))
    (hr : q.release head = .ok q') : q'.Balanced n := by
  obtain ⟨-, he, -, rfl⟩ := hb.sound.collect_iff.1 hc
  rw [hb.release (isHead_of_entryAt he)] at hr
  cases hr
  exact hb.settle (isHead_of_entryAt he)

end Rings

private theorem ReadyState.publish?_spec {s s' : ReadyState} {n : Nat} (hb : s.rings.Balanced n)
    {id : RequestId}
    {q : BlockRequest} {sector : Nat} {submission : Submission} {chain : Chain}
    (h : s.publish? id q.write sector q.address q.data.length = .ok (some (submission, chain, s'))) :
    s'.nextTicket = s.nextTicket + 1 ∧ s'.rings.inFlightCount = s.rings.inFlightCount + 1 ∧
      s'.rings.Balanced n := by
  rw [publish?_eq] at h
  rcases s.rings.reserve_cases with ⟨-, hnone⟩ | ⟨c, hsome, hc, hcount⟩
  · rw [hnone] at h
    cases h
  · rw [hsome] at h
    replace h : (s.rings.taking c).publish c (s.submission id q sector) >>= _ = _ := h
    obtain ⟨r, hp, h⟩ := Checked.exists_of_bind h
    have hpub := hb.published hc hp
    cases h
    exact ⟨rfl, hpub.count (hb.entryAt_fresh hc), hb.publish hc hcount hpub⟩

namespace Program

/-- Whether a program has published a request on a drive and has not been answered yet. -/
def isPublished (b : BayId) : Program Reply → Bool
  | .complete b' _ _ _ => b' == b
  | _ => false

@[simp] theorem isPublished_complete (b : BayId) (id : RequestId) (ticket : UInt64)
    (next : SubmitReply → Program Reply) : (complete b id ticket next).isPublished b = true :=
  beq_self_eq_true b

theorem isPublished_of_stage? {p : Program Reply} (h : p.stage? = none) (b : BayId) :
    p.isPublished b = false := by
  cases p <;> first | rfl | cases h

end Program

namespace Activity

def isPublished (b : BayId) (a : Activity) : Bool := a.program?.any (·.isPublished b)

def stage? (a : Activity) : Option Stage := a.program?.bind Program.stage?

end Activity

namespace Machine

def tickets (m : Machine) (b : BayId) : UInt64 :=
  ((m.bay b).drive.state.ready?.map (·.nextTicket)).getD 0

def inFlight (m : Machine) (b : BayId) : Nat :=
  ((m.bay b).drive.state.ready?.map (·.rings.inFlightCount)).getD 0

/-- How many requests of a drive have been completed or are in flight. -/
def launched (m : Machine) (b : BayId) : UInt64 :=
  (m.bay b).drive.stats.completions + UInt64.ofNat (m.inFlight b)

/-- The in-flight table of a ready drive accounts for its descriptors. -/
def Poised (m : Machine) (b : BayId) : Prop :=
  ∀ s, (m.bay b).drive.state = .ready s → s.rings.Balanced (m.bay b).drive.config.queueSize.toNat

/-- No task is elsewhere with a submission than it was, and none that runs one goes on. -/
structure Still (b : BayId) (m m' : Machine) : Prop where
  size : m'.tasks.size = m.tasks.size
  stage : ∀ t, (m'.task t).activity.stage? = (m.task t).activity.stage?
  published : ∀ t, (m'.task t).activity.isPublished b = (m.task t).activity.isPublished b
  runs : ∀ t p, (m.task t).activity = .running p → p.next? ≠ none → (m'.task t).activity = .running p

/-- What is done to the counters of a drive: the number of tickets given out, the directions of the
submissions that return, and the requests that leave the table. -/
structure CounterDelta (b : BayId) (n : Nat) (returned : List Bool) (left : List RequestId)
    (m m' : Machine) :
    Prop where
  tickets : m'.tickets b = m.tickets b + UInt64.ofNat n
  launched : m'.launched b = m.launched b + UInt64.ofNat n
  reads : (m'.bay b).drive.stats.reads =
    (m.bay b).drive.stats.reads + UInt64.ofNat (returned.count false)
  writes : (m'.bay b).drive.stats.writes =
    (m.bay b).drive.stats.writes + UInt64.ofNat (returned.count true)
  poised : m.Poised b → m'.Poised b
  ready : (m.bay b).drive.state.isReady = true → (m'.bay b).drive.state.isReady = true
  still : m.Still b m'
  next : m.nextRequest ≤ m'.nextRequest
  directions : ∀ id < m.nextRequest, id ∉ left →
    m'.requests.direction? id = m.requests.direction? id

variable {m m' m'' : Machine} {b k : BayId} {n n' : Nat} {l l' : List Bool} {x x' : List RequestId}
  {t : TaskId}

private theorem Still.of_activity (size : m'.tasks.size = m.tasks.size)
    (h : ∀ t, (m'.task t).activity = (m.task t).activity) : m.Still b m' :=
  ⟨size, fun t => by rw [h], fun t => by rw [h], fun t p hp _ => (h t).trans hp⟩

theorem Still.of_tasks (h : m'.tasks = m.tasks) : m.Still b m' :=
  .of_activity (by rw [h]) fun t => by rw [task, task, h]

theorem Still.trans (h : m.Still b m') (h' : m'.Still b m'') : m.Still b m'' where
  size := h'.size.trans h.size
  stage := fun t => (h'.stage t).trans (h.stage t)
  published := fun t => (h'.published t).trans (h.published t)
  runs := fun t p hp hn => h'.runs t p (h.runs t p hp hn) hn

theorem CounterDelta.of_drive (hstate : (m'.bay b).drive.state = (m.bay b).drive.state)
    (hconfig : (m'.bay b).drive.config = (m.bay b).drive.config)
    (hstats : (m'.bay b).drive.stats = (m.bay b).drive.stats) (still : m.Still b m')
    (next : m.nextRequest ≤ m'.nextRequest)
    (directions : ∀ id < m.nextRequest, m'.requests.direction? id = m.requests.direction? id) :
    m.CounterDelta b 0 [] [] m' where
  tickets := by rw [Machine.tickets, hstate]; exact (UInt64.add_zero _).symm
  launched := by rw [Machine.launched, Machine.inFlight, hstate, hstats]; exact (UInt64.add_zero _).symm
  reads := by rw [hstats]; exact (UInt64.add_zero _).symm
  writes := by rw [hstats]; exact (UInt64.add_zero _).symm
  poised := by rw [Poised, Poised, hstate, hconfig]; exact id
  ready := by rw [hstate]; exact id
  still := still
  next := next
  directions := fun id hid _ => directions id hid

theorem CounterDelta.refl (b : BayId) (m : Machine) : m.CounterDelta b 0 [] [] m :=
  .of_drive rfl rfl rfl (.of_tasks rfl) (Nat.le_refl _) fun _ _ => rfl

theorem CounterDelta.trans (h : m.CounterDelta b n l x m') (h' : m'.CounterDelta b n' l' x' m'') :
    m.CounterDelta b (n + n') (l ++ l') (x ++ x') m'' where
  tickets := by rw [h'.tickets, h.tickets, UInt64.add_assoc, UInt64.ofNat_add]
  launched := by rw [h'.launched, h.launched, UInt64.add_assoc, UInt64.ofNat_add]
  reads := by rw [h'.reads, h.reads, UInt64.add_assoc, List.count_append, UInt64.ofNat_add]
  writes := by rw [h'.writes, h.writes, UInt64.add_assoc, List.count_append, UInt64.ofNat_add]
  poised := fun hm => h'.poised (h.poised hm)
  ready := fun hm => h'.ready (h.ready hm)
  still := h.still.trans h'.still
  next := Nat.le_trans h.next h'.next
  directions := fun id hid hx => by
    rw [List.mem_append, not_or] at hx
    rw [h'.directions id (Nat.lt_of_lt_of_le hid h.next) hx.2, h.directions id hid hx.1]

theorem counterDelta_mapBay (k : BayId) {f : Bay → Bay}
    (hf : (f (m.bay k)).drive.state = (m.bay k).drive.state ∧
      (f (m.bay k)).drive.config = (m.bay k).drive.config ∧
      (f (m.bay k)).drive.stats = (m.bay k).drive.stats) : m.CounterDelta b 0 [] [] (m.mapBay k f) := by
  by_cases hk : b = k
  · subst hk
    rcases Nat.lt_or_ge b m.bays.size with hlt | hge
    · refine .of_drive ?_ ?_ ?_ (.of_tasks rfl) (Nat.le_refl _) fun _ _ => rfl
      · rw [bay_mapBay hlt, hf.1]
      · rw [bay_mapBay hlt, hf.2.1]
      · rw [bay_mapBay hlt, hf.2.2]
    · rw [mapBay_of_le hge]
      exact .refl b m
  · have hsame := bay_mapBay_of_ne hk f (m := m)
    exact .of_drive (by rw [hsame]) (by rw [hsame]) (by rw [hsame]) (.of_tasks rfl) (Nat.le_refl _)
      fun _ _ => rfl

theorem counterDelta_log (level : LogLevel) (source text : String) :
    m.CounterDelta b 0 [] [] (m.log level source text) := by
  rw [log]
  split <;> exact .of_drive rfl rfl rfl (.of_tasks rfl) (Nat.le_refl _) fun _ _ => rfl

theorem counterDelta_mapCore (t : TaskId) (f : Core Interrupt → Core Interrupt) :
    m.CounterDelta b 0 [] [] (m.mapCore t f) := by
  have hactivity : ∀ u, ((m.mapCore t f).task u).activity = (m.task u).activity := fun u => by
    rw [mapCore, task_mapTask]
    split <;> rfl
  exact .of_drive rfl rfl rfl (.of_activity Array.size_modify hactivity) (Nat.le_refl _) fun _ _ => rfl

private theorem CounterDelta.of_ready {s : ReadyState} (hs : (m.bay b).drive.state = .ready s)
    (s' : ReadyState)
    (hs' : (m'.bay b).drive.state = .ready s') (ticket : s'.nextTicket = s.nextTicket + UInt64.ofNat n)
    (launched : (m'.bay b).drive.stats.completions + UInt64.ofNat s'.rings.inFlightCount =
      (m.bay b).drive.stats.completions + UInt64.ofNat s.rings.inFlightCount + UInt64.ofNat n)
    (reads : (m'.bay b).drive.stats.reads = (m.bay b).drive.stats.reads)
    (writes : (m'.bay b).drive.stats.writes = (m.bay b).drive.stats.writes)
    (config : (m'.bay b).drive.config = (m.bay b).drive.config)
    (balanced : ∀ k, s.rings.Balanced k → s'.rings.Balanced k) (still : m.Still b m')
    (next : m'.nextRequest = m.nextRequest)
    (directions : ∀ id, m'.requests.direction? id = m.requests.direction? id) :
    m.CounterDelta b n [] [] m' where
  tickets := by rw [Machine.tickets, Machine.tickets, hs, hs']; exact ticket
  launched := by
    rw [Machine.launched, Machine.launched, Machine.inFlight, Machine.inFlight, hs, hs']
    exact launched
  reads := reads.trans (UInt64.add_zero _).symm
  writes := writes.trans (UInt64.add_zero _).symm
  poised := fun hm s'' hs'' => by
    cases hs'.symm.trans hs''
    rw [config]
    exact balanced _ (hm s hs)
  ready := fun _ => by rw [hs']; rfl
  still := still
  next := Nat.le_of_eq next.symm
  directions := fun id _ _ => directions id

private theorem counterDelta_complete {s : ReadyState} {head : UInt16} {e : InFlight} {q r : Rings}
    (hs : (m.bay k).drive.state = .ready s) (hc : s.rings.collect = (.ok (head, e), q))
    (hr : q.release head = .ok r) : m.CounterDelta b 0 [] [] ((m.complete k s e q r).counted k) := by
  have hcounted : ((m.complete k s e q r).counted k).bay k = { m.bay k with drive :=
      { (m.bay k).drive with
        state := .ready { s with rings := r }
        stats := (m.bay k).drive.stats.countCompletion } } := by
    rw [bay_counted (by rw [size_bays_complete]; exact lt_of_ready hs), bay_complete (lt_of_ready hs)]
  have hsame : b ≠ k → ((m.complete k s e q r).counted k).bay b = m.bay b := fun hk => by
    rw [counted, mapDrive, bay_mapBay_of_ne hk, complete_of_ne hk]
  have htasks : ((m.complete k s e q r).counted k).tasks = m.tasks := by
    rw [tasks_counted, tasks_complete]
  have hdirections : ∀ id, ((m.complete k s e q r).counted k).requests.direction? id =
      m.requests.direction? id := fun id => by
    rw [requests_counted, requests_complete, RequestTable.direction?_setPending]
  have hnext : ((m.complete k s e q r).counted k).nextRequest = m.nextRequest := by
    rw [nextRequest_counted, nextRequest_complete]
  generalize (m.complete k s e q r).counted k = m' at *
  by_cases hk : b = k
  · subst hk
    have hcount : r.inFlightCount + 1 = s.rings.inFlightCount := by
      rw [← Rings.inFlightCount_of_collect hc, Rings.inFlightCount, Rings.inFlightCount,
        Rings.inFlight_release hr]
    refine .of_ready hs { s with rings := r } ?_ (UInt64.add_zero s.nextTicket).symm ?_ ?_ ?_ ?_
      (fun n hb => hb.taken hc hr) (.of_tasks htasks) hnext hdirections
    · rw [hcounted]
    · rw [hcounted, ← hcount, UInt64.ofNat_add]
      change _ + 1 + _ = _ + (_ + 1) + 0
      rw [UInt64.add_zero, UInt64.add_assoc, UInt64.add_comm 1]
    · rw [hcounted]
      rfl
    · rw [hcounted]
      rfl
    · rw [hcounted]
  · rw [forall_prop_of_true hk] at hsame
    exact .of_drive (by rw [hsame]) (by rw [hsame]) (by rw [hsame]) (.of_tasks htasks)
      (Nat.le_of_eq hnext.symm) fun id _ => hdirections id

theorem counterDelta_putShared {s : ReadyState} (hs : (m.bay k).drive.state = .ready s) (c : Controller)
    {shared : SharedMemory} (hrings : s.rings.Overwritten shared.rings)
    (hdirections : ∀ id, shared.requests.direction? id = m.requests.direction? id) :
    m.CounterDelta b 0 [] [] (m.putShared k s c shared) := by
  by_cases hk : b = k
  · subst hk
    have hbay := bay_putShared (lt_of_ready hs) s c shared
    refine .of_ready hs { s with rings := shared.rings } ?_ (UInt64.add_zero s.nextTicket).symm ?_ ?_ ?_ ?_
      (fun n hb => hb.overwritten hrings) (.of_tasks rfl) rfl hdirections
    · rw [hbay]
    · rw [hbay, Rings.inFlightCount, Rings.inFlightCount, hrings.entries]
      exact (UInt64.add_zero _).symm
    · rw [hbay]
    · rw [hbay]
    · rw [hbay]
  · have hsame : (m.putShared k s c shared).bay b = m.bay b := bay_mapBay_of_ne hk _
    exact .of_drive (by rw [hsame]) (by rw [hsame]) (by rw [hsame]) (.of_tasks rfl) (Nat.le_refl _)
      fun id _ => hdirections id

theorem overlooks_counterDelta (b : BayId) (t : TaskId) :
    Overlooks t (fun _ => True) (CounterDelta b 0 [] []) where
  refl := .refl b
  trans := .trans
  emit _ _ _ := .of_drive rfl rfl rfl (.of_tasks rfl) (Nat.le_refl _) fun _ _ => rfl
  log _ := counterDelta_log
  controller _ k _ _ := counterDelta_mapBay k ⟨rfl, rfl, rfl⟩
  disable _ := counterDelta_mapCore t _
  complete _ _ _ _ _ _ _ _ hs hc hr := counterDelta_complete hs hc hr
  probe _ _ _ _ _ _ _ := .of_drive rfl rfl rfl (.of_tasks rfl) (Nat.le_refl _) fun _ _ => rfl

theorem tolerates_counterDelta (b : BayId) (t : TaskId) :
    Tolerates t (fun _ => True) (CounterDelta b 0 [] []) :=
  (overlooks_counterDelta b t).tolerates (fun _ => counterDelta_mapCore t) fun m k s shared order _ h => by
    obtain ⟨hs, rfl⟩ := of_shared? h
    exact counterDelta_putShared hs _
      (Controller.overwritten_work (m.bay k).controller ⟨s.rings, m.requests⟩ order)
      (Controller.direction?_work (m.bay k).controller ⟨s.rings, m.requests⟩ order)

end Machine

/-! ### What a node does to the counters -/

/-- The direction that a reply adds to the counters, if the submission went well. -/
def SubmitReply.served (r : SubmitReply) (write : Bool) : List Bool :=
  match r.result with
  | .ok _ => [write]
  | .error _ => []

namespace Machine

/-- A request that has been entered for one direction. -/
def Records (m : Machine) (id : RequestId) (write : Bool) : Prop :=
  id < m.nextRequest ∧ m.requests.direction? id = some write

/-- The request that a node submits, publishes or waits for goes in one direction. -/
def Directs (m : Machine) (write : Bool) : Program Reply → Prop
  | .submit _ a _ => a.write = write
  | .publish _ id _ _ | .complete _ id _ _ => m.Records id write
  | _ => True

variable {m m' m₁ m₂ : Machine} {b : BayId} {n n' : Nat} {l l' : List Bool} {left left' : List RequestId}
  {t : TaskId} {write : Bool} {id : RequestId} {p p' : Program Reply} {a : Activity}

theorem Records.counterDelta (h : m.Records id write) (hdelta : m.CounterDelta b n l left m')
    (hid : id ∉ left) :
    m'.Records id write :=
  ⟨Nat.lt_of_lt_of_le h.1 hdelta.next, (hdelta.directions id h.1 hid).trans h.2⟩

private theorem counterDelta_prepare (t : TaskId) (c : Channel) :
    m.CounterDelta b 0 [] [] (m.prepare t c) :=
  .of_drive rfl rfl rfl (.of_tasks rfl) (Nat.le_refl _) fun _ _ => rfl

theorem counterDelta_wake (c : Channel) : m.CounterDelta b 0 [] [] (m.wake c) :=
  .of_drive rfl rfl rfl (.of_tasks rfl) (Nat.le_refl _) fun _ _ => rfl

private theorem counterDelta_enter (a : BlockAccess) : m.CounterDelta b 0 [] [] (m.enter a) := by
  refine .of_drive rfl rfl rfl (.of_tasks rfl) (Nat.le_succ _) fun id hid => ?_
  change (RequestTable.insert _ _ _).direction? id = _
  rw [RequestTable.direction?, RequestTable.find?_insert, if_neg (Nat.ne_of_gt hid)]
  rfl

private theorem records_enter (a : BlockAccess) : (m.enter a).Records m.nextRequest a.write := by
  refine ⟨Nat.lt_succ_self _, ?_⟩
  change (RequestTable.insert _ _ _).direction? m.nextRequest = _
  rw [RequestTable.direction?, RequestTable.find?_insert, if_pos rfl]
  rfl

private theorem counterDelta_publish {s s' : ReadyState} (hm : m.Poised b)
    (hs : (m.bay b).drive.state = .ready s)
    {q : BlockRequest} {sector : Nat} {submission : Submission} {chain : Chain}
    (h : s.publish? id q.write sector q.address q.data.length = .ok (some (submission, chain, s'))) :
    m.CounterDelta b 1 [] [] (m.publish b id s') := by
  obtain ⟨hticket, hcount, -⟩ := ReadyState.publish?_spec (hm s hs) h
  have hbay : (m.publish b id s').bay b = { m.bay b with drive.state := .ready s' } := by
    rw [publish, bay_setRequests, bay_setState _ (lt_of_ready hs)]
  refine .of_ready hs s' ?_ hticket ?_ ?_ ?_ ?_ (fun k hk => (ReadyState.publish?_spec hk h).2.2)
    (.of_tasks rfl) rfl fun id' => RequestTable.direction?_setPending id id' true
  · rw [hbay]
  · rw [hbay, hcount, UInt64.ofNat_add, UInt64.add_assoc]
  · rw [hbay]
  · rw [hbay]
  · rw [hbay]

private theorem counterDelta_retire (hb : b < m.bays.size) (h : m.Records id write) :
    m.CounterDelta b 0 [write] [id] (m.retire b id) := by
  have hwrite : (m.requestOf id).write = write := by
    obtain ⟨q, hq, rfl⟩ := Option.map_eq_some_iff.1 h.2
    rw [requestOf, hq, Option.getD_some]
  have hbay : (m.retire b id).bay b =
      { m.bay b with drive.stats := (m.bay b).drive.stats.countRequest write } := by
    rw [retire, bay_setRequests, bay_mapDrive hb, hwrite]
  constructor
  case tickets =>
    rw [Machine.tickets, hbay]
    exact (UInt64.add_zero _).symm
  case launched =>
    rw [Machine.launched, Machine.inFlight, hbay]
    cases write <;> exact (UInt64.add_zero _).symm
  case reads =>
    rw [hbay]
    cases write
    · rfl
    · exact (UInt64.add_zero _).symm
  case writes =>
    rw [hbay]
    cases write
    · exact (UInt64.add_zero _).symm
    · rfl
  case poised => rw [Poised, Poised, hbay]; exact fun h => h
  case ready => rw [hbay]; exact fun h => h
  case still => exact .of_tasks rfl
  case next => exact Nat.le_refl _
  case directions =>
    intro id' _ hid
    change (m.requests.erase id).direction? id' = _
    rw [RequestTable.direction?, RequestTable.find?_erase,
      if_neg fun he => hid (List.mem_singleton.2 he.symm)]
    rfl

/-- What a step of a task does to the counters, from a node on: whatever is published is answered now or
later, and whatever is answered is counted. -/
structure Serves (b : BayId) (write : Bool) (n : Nat) (l : List Bool) (left : List RequestId) (m : Machine)
    (p : Program Reply) (a : Activity) (m' : Machine) : Prop where
  counterDelta : m.CounterDelta b n l left m'
  count : n + (p.isPublished b).toNat = (a.isPublished b).toNat + l.length
  left : ∀ id ∈ left, m.nextRequest ≤ id ∨ p.stage?.map Stage.request = some id
  records : ∀ g, a.stage? = some g → m'.Records g.request write
  replies : ∀ next, p.next? = some next →
    (∃ r, a = .running (next r) ∧ l = r.served write) ∨ (∃ p', a = .parking p') ∧ l = []
  quiet : p.next? = none → l = []

/-- A task that goes on with something that is no submission, for what it was told if it was in one. -/
private theorem Serves.run (h : m.CounterDelta b 0 [] [] m') (hp : p.isPublished b = false)
    (hp' : p'.stage? = none)
    (hreply : ∀ next, p.next? = some next → ∃ r, p' = next r ∧ r.served write = []) :
    m.Serves b write 0 [] [] p (.running p') m' where
  counterDelta := h
  count := by
    rw [hp]
    exact congrArg (fun c : Bool => c.toNat + 0) (Program.isPublished_of_stage? hp' b).symm
  left := fun _ hid => absurd hid List.not_mem_nil
  records := fun g hg => by
    rw [show p'.stage? = some g from hg] at hp'
    cases hp'
  replies := fun next hn => by
    obtain ⟨r, rfl, hr⟩ := hreply next hn
    exact .inl ⟨r, rfl, hr.symm⟩
  quiet := fun _ => rfl

private theorem Serves.park (h : m.CounterDelta b 0 [] [] m') (hcount : p'.isPublished b = p.isPublished b)
    (hrecords : ∀ g, p'.stage? = some g → m.Records g.request write) :
    m.Serves b write 0 [] [] p (.parking p') m' where
  counterDelta := h
  count := by
    rw [← hcount, Nat.zero_add]
    rfl
  left := fun _ hid => absurd hid List.not_mem_nil
  records := fun g hg => (hrecords g hg).counterDelta h List.not_mem_nil
  replies := fun _ _ => .inr ⟨⟨p', rfl⟩, rfl⟩
  quiet := fun _ => rfl

private theorem Serves.after (h : m₁.Serves b write n' l left p' a m') (hm : m.CounterDelta b n [] [] m₁)
    (hcount : n + (p.isPublished b).toNat = (p'.isPublished b).toNat) (hnext : p'.next? = p.next?)
    (hstage : ∀ id, p'.stage?.map Stage.request = some id →
      m.nextRequest ≤ id ∨ p.stage?.map Stage.request = some id) :
    m.Serves b write (n + n') l left p a m' where
  counterDelta := hm.trans h.counterDelta
  count := by
    have h' := h.count
    omega
  left := fun id hid => (h.left id hid).elim (fun hle => .inl (Nat.le_trans hm.next hle)) (hstage id)
  records := h.records
  replies := fun next hn => h.replies next (hnext.trans hn)
  quiet := fun hn => h.quiet (hnext.trans hn)

theorem serves_of_performs (h : Performs (CounterDelta b 0 [] []) t m p a m') (hp : p.Underway b)
    (poised : m.Poised b) (hready : p.stage? ≠ none → (m.bay b).drive.state.isReady = true)
    (hd : m.Directs write p) : ∃ n l left, m.Serves b write n l left p a m' := by
  induction h with
  | done m r => exact ⟨0, [], [], .run (.refl b m) rfl rfl fun _ hn => by cases hn⟩
  | inspect m m' k next state h =>
    have hasks := hp.asks_of_stage? rfl
    cases hasks with
    | inspect _ hnext => exact ⟨0, [], [], .run h rfl (hnext _).stage? fun _ hn => by cases hn⟩
  | refuse m m' k acc next e h =>
    cases hp.asks_of_stage? rfl with
    | submit _ _ hnext =>
      exact ⟨0, [], [], .run h rfl (hnext _).stage? fun _ hn => by cases hn; exact ⟨_, rfl, rfl⟩⟩
  | submit m m₁ m' k acc next sector s act before ready rest ih =>
    cases hp.asks_of_stage? rfl with
    | submit _ _ hnext =>
      have hentered : m.CounterDelta b 0 [] [] (m₁.enter acc) := before.trans (counterDelta_enter acc)
      have hrecords : (m₁.enter acc).Records m₁.nextRequest write :=
        (show acc.write = write from hd) ▸ records_enter acc
      have hisReady : ((m₁.enter acc).bay b).drive.state.isReady = true := by
        change (m₁.bay b).drive.state.isReady = true
        rw [ready]
        rfl
      obtain ⟨n, l, left, hrest⟩ := ih (.publish _ sector next hnext) (hentered.poised poised)
        (fun _ => hisReady) hrecords
      exact ⟨_, l, left, hrest.after hentered rfl rfl fun id hid => by
        cases hid
        exact .inl before.next⟩
  | unready m m₁ m' k id sector next before state after =>
    cases hp with
    | asks _ h => cases h
    | publish =>
      have hisReady := before.ready (hready (by simp [Program.stage?]))
      rw [hisReady] at state
      cases state
  | awaitDescriptors m m₁ m' k id sector next before after =>
    exact ⟨0, [], [], .park (before.trans ((counterDelta_prepare t _).trans after)) rfl fun g hg => by
      cases hg
      exact hd⟩
  | publish m m₁ m₂ m' k id sector next s s' submission chain act before ready published between rest
      ih =>
    cases hp with
    | asks _ h => cases h
    | publish _ _ _ hnext =>
      have hpublished : m.CounterDelta b 1 [] [] m₂ :=
        before.trans ((counterDelta_publish (before.poised poised) ready published).trans between)
      have hrecords : m₂.Records id write := Records.counterDelta hd hpublished List.not_mem_nil
      obtain ⟨n, l, left, hrest⟩ := ih (.complete id submission.ticket next hnext)
        (hpublished.poised poised) (fun _ => hpublished.ready (hready (by simp [Program.stage?])))
        hrecords
      refine ⟨_, l, left, hrest.after hpublished ?_ rfl fun _ => .inr⟩
      rw [Program.isPublished_complete]
      rfl
  | awaitCompletion m m₁ m' k id ticket next before after =>
    exact ⟨0, [], [], .park (before.trans ((counterDelta_prepare t _).trans after)) rfl fun g hg => by
      cases hg
      exact hd⟩
  | retire m m₁ k id ticket next before =>
    cases hp with
    | asks _ h => cases h
    | complete _ _ _ hnext =>
      obtain ⟨s, hs⟩ := DriveState.ready_of_isReady (before.ready (hready (by simp [Program.stage?])))
      have hretired :=
        before.trans (counterDelta_retire (lt_of_ready hs) (Records.counterDelta hd before List.not_mem_nil))
      refine ⟨_, _, _, hretired, ?_, fun id' hid => ?_, fun g hg => ?_, fun next' hn => ?_, fun hn => ?_⟩
      · have hafter : (Activity.running (next ⟨⟨.ok (), (m₁.requestOf id).data⟩,
            (m₁.requestOf id).pending⟩)).isPublished b = false :=
          Program.isPublished_of_stage? (hnext _).stage? b
        rw [Program.isPublished_complete, hafter]
        rfl
      · cases List.mem_singleton.1 hid
        exact .inr rfl
      · cases (hnext _).stage?.symm.trans hg
      · cases hn
        exact .inl ⟨_, rfl, rfl⟩
      · cases hn
  | awaitScratch m m₁ m' k next before after =>
    exact ⟨0, [], [], .park (before.trans ((counterDelta_prepare t _).trans after)) rfl fun g hg => by cases hg⟩
  | takeScratch m m₁ m' k next lock before taken after =>
    cases hp.asks_of_stage? rfl with
    | takeScratch _ hnext =>
      have htaken : m₁.CounterDelta b 0 [] [] (m₁.setScratch b lock) := counterDelta_mapBay b ⟨rfl, rfl, rfl⟩
      exact ⟨0, [], [], .run (before.trans (htaken.trans after)) rfl (hnext _).stage? fun _ hn => by
        cases hn⟩
  | giveScratch m m₁ m' k value next before after =>
    cases hp.asks_of_stage? rfl with
    | giveScratch _ _ hnext =>
      have hgiven : m₁.CounterDelta b 0 [] []
          (m₁.setScratch b { (m₁.bay b).drive.scratch.release with value }) :=
        counterDelta_mapBay b ⟨rfl, rfl, rfl⟩
      have hwoken := hgiven.trans ((counterDelta_wake _).trans after)
      exact ⟨0, [], [], .run (before.trans hwoken) rfl hnext.stage? fun _ hn => by cases hn⟩
  | awaitLock | takeLock | awaitGate | passGate => cases hp.asks_of_stage? rfl

end Machine

end DiskStack
