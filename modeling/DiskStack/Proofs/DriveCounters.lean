import DiskStack.Proofs.CounterDeltas
import DiskStack.Proofs.Wakeups
import Mathlib.Data.Bool.Count

/-!
# The counters of a drive

The counters of a drive agree with each other and with what its tasks are at. To tell what a step returns
without looking into the caller, the submission that the step is in is made to hand its reply over: a node
does the same whatever becomes of the reply. A step of a task counts what it returns, and nothing else that
happens at the drive touches them.
-/

namespace DiskStack

open Run (Leads Ends)
open Machine (plain)

namespace Program

/-- The program that is at the same node and does something else with the reply of its submission. -/
def withNext (next : SubmitReply → Program Reply) : Program Reply → Program Reply
  | .submit b a _ => .submit b a next
  | .publish b id sector _ => .publish b id sector next
  | .complete b id ticket _ => .complete b id ticket next
  | p => p

/-- What hands the reply of a submission to the caller. -/
def handOver (r : SubmitReply) : Program Reply := .done (.block r)

variable {p : Program Reply} {b : BayId} {next : SubmitReply → Program Reply}

@[simp] theorem stage?_withNext : (p.withNext next).stage? = p.stage? := by cases p <;> rfl

@[simp] theorem isPublished_withNext : (p.withNext next).isPublished b = p.isPublished b := by
  cases p <;> rfl

private theorem next?_withNext (h : p.next? ≠ none) : (p.withNext next).next? = some next := by
  cases p <;> first | rfl | exact absurd rfl h

private theorem Underway.of_next? (h : p.Underway b) (hn : p.next? = some next) (r : SubmitReply) :
    (next r).Asks b := by
  cases h with
  | publish _ _ _ hnext | complete _ _ _ hnext =>
    cases hn
    exact hnext r
  | asks _ h =>
    cases h with
    | submit _ _ hnext =>
      cases hn
      exact hnext r
    | _ => cases hn

private theorem Underway.withNext (h : p.Underway b) (hnext : ∀ r, (next r).Asks b) :
    (p.withNext next).Underway b := by
  cases h with
  | publish id sector => exact .publish id sector next hnext
  | complete id ticket => exact .complete id ticket next hnext
  | asks _ h =>
    cases h with
    | submit a => exact .asks _ (.submit a next hnext)
    | done a => exact .asks _ (.done a)
    | halt e => exact .asks _ (.halt e)
    | inspect k h => exact .asks _ (.inspect k h)
    | takeScratch k h => exact .asks _ (.takeScratch k h)
    | giveScratch x k h => exact .asks _ (.giveScratch x k h)

end Program

/-- The access that the next step of a task submits. -/
def Activity.access? : Activity → Option BlockAccess
  | .running (.submit _ a _) => some a
  | _ => none

/-- What a task goes on to with the reply that was to be handed over. -/
def Activity.graft (next : SubmitReply → Program Reply) : Activity → Activity
  | .running (.done (.block r)) => .running (next r)
  | .parking p => .parking (p.withNext next)
  | a => a

namespace Run
open Program (handOver)

variable {t : TaskId} {b : BayId} {saved : Bool} {id : RequestId} {next : SubmitReply → Program Reply}

private theorem finishOrPark_graft (ticket : UInt64) : finishOrPark t saved b id ticket next =
    Activity.graft next <$> finishOrPark t saved b id ticket handOver := by
  simp only [finishOrPark, park, map_bind]
  congr
  funext m
  split <;> simp [Activity.graft, handOver, Program.withNext]

private theorem publishOrPark_graft (s : ReadyState) (sector : Nat) :
    publishOrPark t saved b s id sector next =
    Activity.graft next <$> publishOrPark t saved b s id sector handOver := by
  simp only [publishOrPark, park, map_bind]
  congr
  funext m
  split
  · simp
  · simp [Activity.graft, Program.withNext]
  · simp only [map_bind]
    rw [finishOrPark_graft]

private theorem submit_graft (a : BlockAccess) :
    submit t b a next = Activity.graft next <$> submit t b a handOver := by
  simp only [submit, map_bind]
  congr
  funext m
  cases (m.bay b).drive.config.firstSector a.block a.data.length with
  | error e => simp [Activity.graft, handOver]
  | ok sector =>
    simp only [map_bind]
    congr
    funext saved
    congr
    funext m
    split
    · simp [proceed, Activity.graft, handOver]
    · simp only [map_bind]
      congr
      funext id
      exact publishOrPark_graft _ _


private theorem node_graft {p : Program Reply} (h : p.next? = some next) :
    node t p = Activity.graft next <$> node t (p.withNext handOver) := by
  cases p with
  | submit b a next' =>
    cases h
    exact submit_graft a
  | publish b id sector next' =>
    cases h
    simp only [node, Program.withNext, publishAgain, map_bind]
    congr
    funext saved
    congr
    funext m
    split
    · exact publishOrPark_graft _ _
    · simp [proceed, Activity.graft, handOver]
  | complete b id ticket next' =>
    cases h
    simp only [node, Program.withNext, map_bind]
    congr
    funext saved
    exact finishOrPark_graft ticket
  | _ => cases h

end Run

namespace Machine

open Program (handOver)

private theorem directs_withNext {m : Machine} {write : Bool} {p : Program Reply}
    {next : SubmitReply → Program Reply} : m.Directs write (p.withNext next) ↔ m.Directs write p := by
  cases p <;> exact Iff.rfl

/-- The reply that a submission gets in the next step of its task, if the step ends it. -/
def reply? (m : Machine) (t : TaskId) : Option SubmitReply :=
  match (m.task t).activity with
  | .running p =>
    if p.next?.isSome then
      match ((Run.node t (p.withNext handOver)).run.run m).1 with
      | .ok (.running (.done (.block r))) => some r
      | _ => none
    else none
  | _ => none

/-- The direction of the submission that returns, and went well, in the next step of a task. -/
def returned (m : Machine) (t : TaskId) (write : Bool) : List Bool :=
  match m.reply? t with
  | some r => r.served write
  | none => []

/-- The directions that the tasks' submissions were made in, when a task takes its next step. -/
def noting (m : Machine) (asked : TaskId → Bool) (t : TaskId) : TaskId → Bool :=
  Function.update asked t (((m.task t).activity.access?.map BlockAccess.write).getD (asked t))

/-- How many submissions have published a request on a drive and have not returned. -/
def unreturned (m : Machine) (b : BayId) : Nat :=
  (List.range m.tasks.size).countP fun t => (m.task t).activity.isPublished b

/-- The accounts of a drive agree with each other, with the requests that its tasks have published, and
with the submissions that have returned. -/
structure CountersAgree (m : Machine) (b : BayId) (asked : TaskId → Bool) (trace : List Bool) : Prop where
  tickets : m.tickets b = m.launched b
  answered : m.tickets b = (m.bay b).drive.stats.reads + (m.bay b).drive.stats.writes +
    UInt64.ofNat (m.unreturned b)
  reads : (m.bay b).drive.stats.reads = UInt64.ofNat (trace.count false)
  writes : (m.bay b).drive.stats.writes = UInt64.ofNat (trace.count true)
  records : ∀ t g, (m.task t).activity.stage? = some g → m.Records g.request (asked t)

variable {m m' m₁ : Machine} {b : BayId} {asked asked' : TaskId → Bool} {trace l : List Bool} {n : Nat}
  {left : List RequestId} {t : TaskId} {p q : Program Reply} {a a' : Activity}

private theorem Still.unreturned (h : m.Still b m') : m'.unreturned b = m.unreturned b := by
  rw [Machine.unreturned, Machine.unreturned, h.size]
  exact List.countP_congr fun t _ => by rw [h.published t]

private theorem unreturned_setActivity (ht : t < m.tasks.size) (a : Activity) :
    (m.setActivity t a).unreturned b + ((m.task t).activity.isPublished b).toNat =
      m.unreturned b + (a.isPublished b).toNat := by
  have hsize : (m.setActivity t a).tasks.size = m.tasks.size := Array.size_modify
  have hself : ((m.setActivity t a).task t).activity = a := by
    rw [task_setActivity ht, if_pos rfl]
  rw [unreturned, unreturned, hsize]
  have h := countP_range_update (f := fun u => (m.task u).activity.isPublished b)
    (g := fun u => ((m.setActivity t a).task u).activity.isPublished b) ht fun u _ hu => by
      rw [task_setActivity ht, if_neg hu]
  rw [hself] at h
  exact h.symm

theorem CountersAgree.counterDelta (h : m.CountersAgree b asked trace) (hp : m.CounterDelta b 0 [] [] m') :
    m'.CountersAgree b asked trace where
  tickets := by rw [hp.tickets, hp.launched, h.tickets]
  answered := by
    rw [hp.tickets, hp.reads, hp.writes, hp.still.unreturned, h.answered]
    simp
  reads := hp.reads.trans ((UInt64.add_zero _).trans h.reads)
  writes := hp.writes.trans ((UInt64.add_zero _).trans h.writes)
  records := fun t g hg =>
    (h.records t g ((hp.still.stage t).symm.trans hg)).counterDelta hp List.not_mem_nil

/-- What a node does for its task, and what the task does then, keeps the counters in step, in which the
submission that returns is counted. -/
private theorem CountersAgree.serves (h : m.CountersAgree b asked trace)
    (hact : (m.task t).activity = .running p)
    (hstage : q.stage? = p.stage?) (hpublished : q.isPublished b = p.isPublished b)
    (hs : m.Serves b (asked' t) n l left q a m₁) (hstage' : a'.stage? = a.stage?)
    (hpublished' : a'.isPublished b = a.isPublished b) (hasked : ∀ u, u ≠ t → asked' u = asked u)
    (hown : ∀ u g g', (m.task u).activity.stage? = some g → p.stage? = some g' →
      g.request = g'.request → u = t) :
    (m₁.setActivity t a').CountersAgree b asked' (trace ++ l) := by
  have hp := hs.counterDelta
  have ht : t < m₁.tasks.size := by
    rw [hp.still.size]
    exact lt_of_activity fun hidle => by cases hact.symm.trans hidle
  have hsame : (m₁.task t).activity.isPublished b = q.isPublished b := by
    rw [hp.still.published, hact, hpublished]
    rfl
  have hcount := unreturned_setActivity (b := b) ht a'
  rw [hsame, hpublished', hp.still.unreturned] at hcount
  have hserved := hs.count
  constructor
  case tickets =>
    change m₁.tickets b = m₁.launched b
    rw [hp.tickets, hp.launched, h.tickets]
  case answered =>
    have htotal : m.unreturned b + n = l.count false + l.count true +
        (m₁.setActivity t a').unreturned b := by
      have hlen := List.count_true_add_count_false l
      omega
    change m₁.tickets b = (m₁.bay b).drive.stats.reads + (m₁.bay b).drive.stats.writes + _
    rw [hp.tickets, hp.reads, hp.writes, h.answered, UInt64.add_assoc, ← UInt64.ofNat_add, htotal,
      UInt64.ofNat_add, UInt64.ofNat_add]
    ac_rfl
  case reads =>
    change (m₁.bay b).drive.stats.reads = _
    rw [hp.reads, h.reads, List.count_append, UInt64.ofNat_add]
  case writes =>
    change (m₁.bay b).drive.stats.writes = _
    rw [hp.writes, h.writes, List.count_append, UInt64.ofNat_add]
  case records =>
    intro u g hg
    rw [task_setActivity ht] at hg
    split at hg
    · next hut =>
      subst hut
      exact hs.records g (hstage'.symm.trans hg)
    · next hut =>
      have hrecords := h.records u g ((hp.still.stage u).symm.trans hg)
      rw [hasked u hut]
      change m₁.Records g.request (asked u)
      refine hrecords.counterDelta hp fun hleft => ?_
      rcases hs.left _ hleft with hle | hid
      · exact absurd hrecords.1 (Nat.not_lt.2 hle)
      · rw [hstage, Option.map_eq_some_iff] at hid
        obtain ⟨g', hg', hid⟩ := hid
        exact hut (hown u g g' ((hp.still.stage u).symm.trans hg) hg' hid.symm)

/-- A task may go on with something else in the same stage, unless it is in a submission. -/
theorem still_setActivity (ht : t < m.tasks.size) (hstage : a.stage? = (m.task t).activity.stage?)
    (hpublished : a.isPublished b = (m.task t).activity.isPublished b)
    (hruns : ∀ p, (m.task t).activity = .running p → p.next? = none) : m.Still b (m.setActivity t a) := by
  refine ⟨Array.size_modify, fun u => ?_, fun u => ?_, fun u p hp hn => ?_⟩
  · rw [task_setActivity ht]
    split
    · next hut => rw [hut, hstage]
    · rfl
  · rw [task_setActivity ht]
    split
    · next hut => rw [hut, hpublished]
    · rfl
  · rw [task_setActivity ht]
    split
    · next hut => exact absurd (hruns p (hut ▸ hp)) hn
    · exact hp

theorem counterDelta_of_still (h : m.Still b m') (hbays : m'.bays = m.bays)
    (hrequests : m'.requests = m.requests)
    (hnext : m'.nextRequest = m.nextRequest) : m.CounterDelta b 0 [] [] m' := by
  have hbay : m'.bay b = m.bay b := by rw [bay, bay, hbays]
  exact .of_drive (by rw [hbay]) (by rw [hbay]) (by rw [hbay]) h (Nat.le_of_eq hnext.symm) fun id _ => by
    rw [hrequests]

theorem quiet_of_next? (asked : TaskId → Bool)
    (h : ∀ p, (m.task t).activity = .running p → p.next? = none) :
    m.noting asked t = asked ∧ ∀ write, m.returned t write = [] := by
  have hnone : (m.task t).activity.access? = none ∧ m.reply? t = none := by
    rw [reply?]
    cases hact : (m.task t).activity with
    | running p =>
      have hp := h p hact
      refine ⟨?_, by simp [hp]⟩
      cases p <;> first | rfl | cases hp
    | _ => exact ⟨rfl, rfl⟩
  refine ⟨?_, fun write => ?_⟩
  · rw [noting, hnone.1]
    exact Function.update_eq_self t asked
  · rw [returned, hnone.2]

private theorem CountersAgree.directs (h : m.CountersAgree b asked trace)
    (hact : (m.task t).activity = .running p) :
    m.Directs (m.noting asked t t) p := by
  have hself : m.noting asked t t = (((m.task t).activity.access?.map BlockAccess.write).getD (asked t)) :=
    Function.update_self ..
  rw [hself, hact]
  cases p with
  | submit k acc next => exact rfl
  | publish k id sector next => exact h.records t (.publish id sector) (by rw [hact]; rfl)
  | complete k id ticket next => exact h.records t (.complete id ticket) (by rw [hact]; rfl)
  | _ => trivial

private theorem CountersAgree.leads_node (h : m.CountersAgree b asked trace) (hm : m.DriveInvariant b plain)
    (hact : (m.task t).activity = .running p) :
    Leads (Run.node t p) m fun a m' =>
      (m'.setActivity t a).CountersAgree b (m.noting asked t)
        (trace ++ m.returned t (m.noting asked t t)) := by
  have hregular := hm.watched.regular
  have hunder : p.Underway b := hregular.underway (t := t) (congrArg Activity.program? hact)
  have hpoised : m.Poised b := fun s hs => hregular.balanced hs
  have hstage : (m.view b).stage t = p.stage? := View.stage_of_running hact
  have hready : p.stage? ≠ none → (m.bay b).drive.state.isReady = true := fun hp => by
    obtain ⟨g, hg⟩ := Option.ne_none_iff_exists'.1 hp
    obtain ⟨s, hs⟩ := hregular.isReady (hstage.trans hg)
    rw [show (m.bay b).drive.state = .ready s from hs]
    rfl
  have hown : ∀ u g g', (m.task u).activity.stage? = some g → p.stage? = some g' →
      g.request = g'.request → u = t := fun u g g' hg hg' hsame =>
    hregular.own hg (hstage.trans hg') hsame
  have hasked : ∀ u, u ≠ t → m.noting asked t u = asked u := fun u hu => Function.update_of_ne hu ..
  have hdirects := h.directs hact
  have hperforms := fun q => (tolerates_counterDelta b t).performs_node (m := m) (Program.at_any q)
  cases hn : p.next? with
  | none =>
    refine (hperforms p).mono fun a m₁ hp => ?_
    obtain ⟨n, l, left, hs⟩ := serves_of_performs hp hunder hpoised hready hdirects
    obtain ⟨-, hnil⟩ := quiet_of_next? asked fun p' hp' => by
      cases hact.symm.trans hp'
      exact hn
    rw [hnil, ← hs.quiet hn]
    exact h.serves hact rfl rfl hs rfl rfl hasked hown
  | some next =>
    have hnext := hunder.of_next? hn
    rw [Run.node_graft hn]
    refine Run.leads_map (((hperforms (p.withNext handOver)).and (Run.leads_self _ m)).mono
      fun a m₁ hp => ?_)
    obtain ⟨hp, hrun⟩ := hp
    obtain ⟨n, l, left, hs⟩ := serves_of_performs hp (hunder.withNext fun r => .done _) hpoised
      (by rwa [Program.stage?_withNext]) (directs_withNext.2 hdirects)
    have hreturned : m.returned t (m.noting asked t t) = l ∧
        (Activity.graft next a).stage? = a.stage? ∧
        (Activity.graft next a).isPublished b = a.isPublished b := by
      rw [returned, reply?, hact]
      simp only [hn, Option.isSome_some, if_true, hrun]
      rcases hs.replies handOver (Program.next?_withNext (by rw [hn]; simp)) with
        ⟨r, rfl, rfl⟩ | ⟨⟨p', rfl⟩, rfl⟩
      · exact ⟨rfl, (hnext r).stage?, Program.isPublished_of_stage? (hnext r).stage? b⟩
      · exact ⟨rfl, Program.stage?_withNext, Program.isPublished_withNext⟩
    rw [hreturned.1]
    exact h.serves hact Program.stage?_withNext Program.isPublished_withNext hs hreturned.2.1
      hreturned.2.2 hasked hown

/-- A step of a task keeps the counters in step, in which the submission that the step ends is counted. -/
theorem CountersAgree.leads_advance (h : m.CountersAgree b asked trace) (hm : m.DriveInvariant b plain) :
    Leads (Run.advance t) m fun _ m' =>
      m'.CountersAgree b (m.noting asked t) (trace ++ m.returned t (m.noting asked t t)) := by
  apply Run.leads_get
  cases hact : (m.task t).activity with
  | idle | asleep p =>
    obtain ⟨hsame, hnil⟩ := quiet_of_next? asked fun p hp => by cases hact.symm.trans hp
    rw [hsame, hnil, List.append_nil]
    exact Run.leads_pure h
  | parking p =>
    obtain ⟨hsame, hnil⟩ := quiet_of_next? asked fun p hp => by cases hact.symm.trans hp
    rw [hsame, hnil, List.append_nil]
    have ht : t < m.tasks.size := lt_of_activity fun hidle => by cases hact.symm.trans hidle
    have hsettled : ∀ e a, a.program? = some p →
        ((m.emit e).setActivity t a).CountersAgree b asked trace := fun e a ha => by
      have hstill : (m.emit e).Still b ((m.emit e).setActivity t a) := by
        refine still_setActivity ht ?_ ?_ fun p' hp' => by cases hact.symm.trans hp'
        · rw [Activity.stage?, ha, show ((m.emit e).task t).activity = _ from hact]
          rfl
        · rw [Activity.isPublished, ha, show ((m.emit e).task t).activity = _ from hact]
          rfl
      have hlogged : m.Still b (m.emit e) := .of_tasks rfl
      exact h.counterDelta (counterDelta_of_still (hlogged.trans hstill) rfl rfl rfl)
    refine Run.Leads.bind (x := Run.settle t p) (Run.leads_get ?_) fun _ _ h => Run.leads_change h
    split
    · exact Run.leads_modify (Run.leads_pure (hsettled _ _ rfl))
    · exact Run.leads_modify (Run.leads_pure (hsettled _ _ rfl))
  | running p => exact (h.leads_node hm hact).bind fun _ _ h => Run.leads_change h

private theorem counterDelta_starts (hb : b < m.bays.size) {v : View} (hv : v.state = (m.bay b).drive.state)
    (hconfig : v.config = (m.bay b).drive.config) {c : Controller} {state : DriveState} {arena : Arena}
    (h : v.Starts { v with controller := c, state, arena }) :
    m.CounterDelta b 0 [] [] ((m.setState b state).setArena arena) := by
  have hbay : ((m.setState b state).setArena arena).bay b = { m.bay b with drive.state := state } :=
    bay_setState state hb
  -- a drive that has not been brought up has given out no ticket, and has none in flight
  have hopen : v.state = .uninitialized →
      (∀ s, state = .ready s → s.nextTicket = 0 ∧ s.rings.inFlightCount = 0 ∧
        s.rings.Balanced v.config.queueSize.toNat) →
      m.CounterDelta b 0 [] [] ((m.setState b state).setArena arena) := fun hu hfresh => by
    have hnone : (m.bay b).drive.state.ready? = none := by rw [← hv, hu]; rfl
    constructor
    case tickets =>
      rw [Machine.tickets, Machine.tickets, hbay, hnone]
      cases state with
      | ready s => exact (hfresh s rfl).1
      | uninitialized | incompatible => rfl
    case launched =>
      rw [Machine.launched, Machine.launched, Machine.inFlight, Machine.inFlight, hbay, hnone]
      refine Eq.trans ?_ (UInt64.add_zero _).symm
      congr 2
      cases state with
      | ready s => exact (hfresh s rfl).2.1
      | uninitialized | incompatible => rfl
    case reads => rw [hbay]; exact (UInt64.add_zero _).symm
    case writes => rw [hbay]; exact (UInt64.add_zero _).symm
    case poised =>
      intro _ s hs
      rw [hbay] at hs ⊢
      rw [← hconfig]
      exact (hfresh s hs).2.2
    case ready =>
      intro hready
      rw [DriveState.isReady, hnone] at hready
      cases hready
    case still => exact .of_tasks rfl
    case next => exact Nat.le_refl _
    case directions => exact fun _ _ _ => rfl
  generalize hv' : { v with controller := c, state, arena } = v' at h
  cases h with
  | refused =>
    have hstate : state = (m.bay b).drive.state := (congrArg View.state hv').trans hv
    refine .of_drive ?_ ?_ ?_ (.of_tasks rfl) (Nat.le_refl _) fun _ _ => rfl
    · rw [hbay, hstate]
    · rw [hbay]
    · rw [hbay]
  | invalid hu | failed hu =>
    refine hopen hu fun s hs => ?_
    cases (show state = .incompatible from congrArg View.state hv').symm.trans hs
  | started hu hc s arena' hok =>
    refine hopen hu fun s' hs' => ?_
    cases (show state = .ready s from congrArg View.state hv').symm.trans hs'
    obtain ⟨⟨p, -, hrings⟩, -, hticket⟩ := View.rings_of_started hc hok
    obtain ⟨hleast, hmost⟩ := DriveConfig.queue_of_isValid hc
    rw [hrings]
    exact ⟨hticket, Rings.inFlightCount_unused _ _, Rings.unused_balanced _ _ hleast hmost⟩

theorem counterDelta_bringUp (hb : b < m.bays.size) :
    Leads (Run.bringUp b) m fun _ m' => m.CounterDelta b 0 [] [] m' := by
  have hR := tolerates_counterDelta b controlTask
  refine ((hR.mask m).and (Run.leads_mask (b := b) controlTask m)).bind fun saved m₁ h₁ =>
    Run.leads_get ?_
  have hlog : ∀ level source text, Run.Keeps (fun m' => m.CounterDelta b 0 [] [] m' ∧ m₁.Alike b m')
      (Run.log level source text) := fun level source text m' h =>
    Run.leads_change ⟨h.1.trans (counterDelta_log level source text), h.2.trans (alike_log level source text)⟩
  have hfirst : m.CounterDelta b 0 [] [] m₁ ∧ m₁.Alike b m₁ := ⟨h₁.1, .refl m₁⟩
  refine Run.leads_when (hlog _ _ _ m₁ hfirst) hfirst fun m₂ h₂ => ?_
  obtain ⟨hdelta, halike⟩ := h₂
  have hpresent : b < m₂.bays.size := halike.size ▸ h₁.2.size ▸ hb
  have hconfig : (m₁.bay b).drive.config = (m₂.view b).config :=
    (congrArg View.config halike.view).symm
  have hstate : (m₁.bay b).drive.state = (m₂.view b).state := (congrArg View.state halike.view).symm
  have harena : m₁.arena = (m₂.view b).arena := (congrArg View.arena halike.view).symm
  have hstarts := Run.starts_of_bringUp (m₂.view b) (m₁.bay b).drive hconfig hstate
  rw [harena]
  refine ((hR.within_dialogue trivial _ m₂).and (Run.leads_dialogue hpresent _)).bind fun r m₃ h₃ => ?_
  obtain ⟨hdialogue, hr, halike', -⟩ := h₃
  change r = (((m₁.bay b).drive.bringUp (m₂.view b).arena).hold (m₂.view b).controller).1 at hr
  rw [← hr] at hstarts
  have hsame : (m₃.bay b).drive.state = (m₂.view b).state ∧ (m₃.bay b).drive.config = (m₂.view b).config :=
    ⟨congrArg View.state halike'.view, congrArg View.config halike'.view⟩
  have hopened := (hdelta.trans hdialogue).trans
    (counterDelta_starts (halike'.size ▸ hpresent) hsame.1.symm hsame.2.symm hstarts)
  refine Run.leads_modify (Run.leads_when (P := fun m' => m.CounterDelta b 0 [] [] m')
    (hR.leads (hR.within_logNegotiation _ _ _) hopened) hopened fun m₄ h₄ => ?_)
  exact (hR.leads (hR.restore saved) h₄).bind fun _ _ h => Run.leads_pure h

end Machine

end DiskStack
