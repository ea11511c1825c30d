import DiskStack.Proofs.Interrupts
import DiskStack.Proofs.Watch

/-!
# The invariant of a machine in the middle of steps

A task in the middle of a step has a status of its own: it may have published its request, or be
registered on a channel, while it still runs the node that it began with. To interrupts it has to look
as if it had gone on already. So a machine is watched under a guise, which says what each task is taken
to do. No handler breaks that, every node of a task leads from one guise to the next, and at the end
of a step the guise is what the tasks do.
-/

namespace DiskStack

/-- The view in which each task is taken to do something other than it does. -/
def View.guise (v : View) (g : TaskId → Activity → Activity) : View :=
  { v with activity := fun t => g t (v.activity t) }

namespace Machine

/-- The guise in which each task does what it does. -/
def plain : TaskId → Activity → Activity := fun _ a => a

/-- The guise in which one task has gone on to something else. -/
def posing (t : TaskId) (a : Activity) : TaskId → Activity → Activity :=
  fun u a' => if u = t then a else a'

/-- A machine on which a drive is watched under a guise, and on which the drive's number and every
kept interrupt lead to that drive alone. -/
structure DriveInvariant (m : Machine) (b : BayId) (g : TaskId → Activity → Activity) : Prop where
  present : b < m.bays.size
  wired : m.Concerns b (.completion (m.bay b).number)
  heard : ∀ t, ∀ i ∈ (m.task t).core.pending, m.Concerns b i
  asleep : ∀ t, (g t (m.task t).activity).isAsleep = m.isAsleep t
  watched : ((m.view b).guise g).Watched b (m.bay b).drive.key m.waiting m.runnable

/-- A machine in the middle of a step of a task, which is taken to have gone on to an activity. -/
def Midway (m : Machine) (b : BayId) (t : TaskId) (a : Activity) : Prop :=
  m.DriveInvariant b (posing t a) ∧ t < m.tasks.size

/-- What a step at a drive leaves as it was. -/
structure Frames (b : BayId) (m m' : Machine) : Prop where
  tasks : m'.tasks = m.tasks
  registry : m'.registry = m.registry
  size : m'.bays.size = m.bays.size
  number : (m'.bay b).number = (m.bay b).number
  key : (m'.bay b).drive.key = (m.bay b).drive.key

variable {m m' : Machine} {b : BayId} {g : TaskId → Activity → Activity} {t : TaskId}
  {p p' : Program Reply}

private theorem Frames.refl (m : Machine) : m.Frames b m := ⟨rfl, rfl, rfl, rfl, rfl⟩

private theorem Frames.trans {m'' : Machine} (h : m.Frames b m') (h' : m'.Frames b m'') :
    m.Frames b m'' where
  tasks := h'.tasks.trans h.tasks
  registry := h'.registry.trans h.registry
  size := h'.size.trans h.size
  number := h'.number.trans h.number
  key := h'.key.trans h.key

private theorem frames_setRequests (r : RequestTable) : m.Frames b (m.setRequests r) :=
  ⟨rfl, rfl, rfl, rfl, rfl⟩

private theorem frames_setArena (arena : Arena) : m.Frames b (m.setArena arena) := ⟨rfl, rfl, rfl, rfl, rfl⟩

theorem frames_wake (c : Channel) : m.Frames b (m.wake c) := ⟨rfl, rfl, rfl, rfl, rfl⟩

private theorem frames_mapDrive (hb : b < m.bays.size) {f : Drive → Drive}
    (hf : (f (m.bay b).drive).key = (m.bay b).drive.key) : m.Frames b (m.mapDrive b f) := by
  have hbay := bay_mapDrive hb f
  refine ⟨rfl, rfl, size_bays_mapBay _, ?_, ?_⟩
  · rw [hbay]
  · rw [hbay]
    exact hf

theorem DriveInvariant.frame (hm : m.DriveInvariant b g) (hf : m.Frames b m')
    {g' : TaskId → Activity → Activity}
    (hasleep : ∀ t a, (g' t a).isAsleep = (g t a).isAsleep)
    (hw : ((m'.view b).guise g').Watched b (m.bay b).drive.key m'.waiting m'.runnable) :
    m'.DriveInvariant b g' := by
  have htask : ∀ t, m'.task t = m.task t := fun t => by rw [task, task, hf.tasks]
  have hconcerns : ∀ i, m'.Concerns b i ↔ m.Concerns b i := concerns_congr hf.registry
  refine ⟨hf.size ▸ hm.present, ?_, fun t i hi => ?_, fun t => ?_, ?_⟩
  · rw [hf.number, hconcerns]
    exact hm.wired
  · rw [htask] at hi
    exact (hconcerns i).2 (hm.heard t i hi)
  · rw [isAsleep, htask, hasleep]
    exact hm.asleep t
  · rw [hf.key]
    exact hw

/-! ### Interrupts -/

private theorem frames_complete (hb : b < m.bays.size) (s : ReadyState) (e : InFlight) (q r : Rings) :
    m.Frames b (m.complete b s e q r) := by
  have hbay := bay_complete hb s e q r
  constructor
  case tasks => exact tasks_complete s e q r
  case registry => simp only [complete, setState, setRequests, wake, emit, mapDrive, mapBay]
  case size => simp [complete]
  case number => rw [hbay]
  case key => rw [hbay]

private theorem DriveInvariant.complete (hm : m.DriveInvariant b g) {s : ReadyState}
    (hs : (m.bay b).drive.state = .ready s)
    {head : UInt16} {e : InFlight} {q r : Rings} (hc : s.rings.collect = (.ok (head, e), q))
    (hr : q.release head = .ok r) : (m.complete b s e q r).DriveInvariant b g := by
  have hbalanced := hm.watched.regular.balanced hs
  obtain ⟨-, he, -, rfl⟩ := hbalanced.sound.collect_iff.1 hc
  rw [hbalanced.release (Rings.isHead_of_entryAt he)] at hr
  cases hr
  refine hm.frame (frames_complete hm.present s e _ _) (fun _ _ => rfl) ?_
  rw [view_complete hm.present]
  exact hm.watched.complete hs he fun t => (hm.asleep t).symm

/-- No handler breaks the watch, whatever guise the tasks are under. -/
theorem robust_driveInvariant (b : BayId) (g : TaskId → Activity → Activity) :
    Robust b fun m => m.DriveInvariant b g where
  present := fun m hm => hm.present
  heard := fun m hm => hm.heard
  complete := fun m s head e q r hm hs hc hr => hm.complete hs hc hr
  alike := fun m m' hm h => by
    have hactivity : ∀ t, (m'.task t).activity = (m.task t).activity :=
      congrFun (congrArg View.activity h.view)
    refine ⟨h.size ▸ hm.present, ?_, fun t i hi => ?_, fun t => ?_, ?_⟩
    · rw [h.number, h.concerns]
      exact hm.wired
    · rcases h.heard t i hi with hi | hi
      · exact h.concerns.2 (hm.heard t i hi)
      · exact h.concerns.2 hi
    · rw [isAsleep, hactivity]
      exact hm.asleep t
    · rw [h.key, h.waiting, h.runnable, h.view]
      exact hm.watched.setController (by rw [h.image]; exact hm.watched.regular.image)

theorem robust_midway (b : BayId) (t : TaskId) (a : Activity) : Robust b fun m => m.Midway b t a :=
  (robust_driveInvariant b (posing t a)).and (fun _ _ hm h => h.tasks ▸ hm) fun m s e q r hm => by
    rw [tasks_complete]
    exact hm

private theorem robust_done (b : BayId) (t : TaskId) (a : Activity) (id : RequestId) :
    Robust b fun m => m.Midway b t a ∧ m.requests.isPending id = false := by
  refine (robust_midway b t a).and (fun m m' hm h => ?_) fun m s e q r hm => ?_
  · have hsame : m'.requests = m.requests := congrArg View.requests h.view
    rw [hsame]
    exact hm
  · change (m.requests.setPending e.request false).isPending id = false
    rw [RequestTable.isPending_setPending, hm, Bool.and_false, ite_self]

/-! ### The guises of a task in its step -/

private theorem Midway.step (hm : m.Midway b t (.running p)) (hf : m.Frames b m') {a : Activity}
    (ha : a.isAsleep = false)
    (hw : ((m'.view b).act t a).Watched b (m.bay b).drive.key m'.waiting m'.runnable) :
    m'.Midway b t a := by
  refine ⟨hm.1.frame hf (fun u a' => ?_) hw, hf.tasks ▸ hm.2⟩
  rw [posing, posing]
  split
  · exact ha
  · rfl

theorem Midway.watched (hm : m.Midway b t (.running p)) :
    ((m.view b).act t (.running p)).Watched b (m.bay b).drive.key m.waiting m.runnable :=
  hm.1.watched

theorem Midway.underway (hm : m.Midway b t (.running p)) : p.Underway b :=
  hm.watched.regular.underway (t := t) (by rw [View.act_self]; rfl)

private theorem Midway.go (hm : m.Midway b t (.running p)) (hunder : p'.Underway b)
    (hstage : p'.stage? = p.stage?) : m.Midway b t (.running p') := by
  have hw := hm.watched.go (View.act_self _) hunder hstage
  rw [View.act_act] at hw
  exact hm.step (.refl m) rfl hw

theorem Midway.park (hm : m.Midway b t (.running p)) (hunder : p'.Underway b)
    (hstage : p'.stage? = p.stage?) {c : Channel}
    (hc : p'.channel? (m.bay b).drive.key (m.bay b).drive.scratch.key = some c)
    (hb : (m.view b).Blocks p') : (m.prepare t c).Midway b t (.parking p') := by
  have hw := hm.watched.park (View.act_self _) hunder hstage hc ((View.blocks_act _ t _ p').2 hb)
  rw [View.act_act] at hw
  have hf : m.Frames b (m.prepare t c) := ⟨rfl, rfl, rfl, rfl, rfl⟩
  exact hm.step hf rfl hw

private theorem Midway.live (hm : m.Midway b t (.running p)) {stage : Stage} (hp : p.stage? = some stage) :
    ∃ q, m.requests.find? stage.request = some q :=
  hm.watched.regular.live ((View.stage_of_running (View.act_self _)).trans hp)

private theorem Midway.finish {id : RequestId} {ticket : UInt64} {next : SubmitReply → Program Reply}
    (hm : m.Midway b t (.running (.complete b id ticket next))) {q : BlockRequest}
    (hq : m.requests.find? id = some q) (hdone : q.pending = false) (hp : p.Asks b) :
    (m.setRequests (m.requests.erase id)).Midway b t (.running p) := by
  have hw := hm.watched.finish (View.act_self _) hq hdone hp
  refine hm.step (frames_setRequests _) rfl ?_
  rw [view_setRequests, ← View.act_act (.running (.complete b id ticket next))]
  exact hw

private theorem Midway.launch {id : RequestId} {sector : Nat} {next : SubmitReply → Program Reply}
    (hm : m.Midway b t (.running (.publish b id sector next))) {s : ReadyState}
    (hs : (m.bay b).drive.state = .ready s) {q : BlockRequest} (hq : m.requests.find? id = some q)
    {chain : Chain} {r : Rings} (hc : s.rings.Fresh chain)
    (hcount : s.rings.queue.pool.numFree = (s.rings.taking chain).queue.pool.numFree + 3)
    (hp : (s.rings.taking chain).publish chain (s.submission id q sector) = .ok r)
    (hnext : ∀ r, (next r).Asks b) :
    ((m.setState b (.ready (s.published r))).setRequests (m.requests.setPending id true)).Midway b t
      (.running (.complete b id s.nextTicket next)) := by
  have hw := hm.watched.launch (View.act_self _) hs hq hc hcount hp hnext
  have hf : m.Frames b (m.setState b (.ready (s.published r))) := frames_mapDrive hm.1.present rfl
  refine hm.step (hf.trans (frames_setRequests _)) rfl ?_
  rw [view_setRequests, view_setState _ hm.1.present,
    ← View.act_act (.running (.publish b id sector next))]
  exact hw

/-- An attempt to publish finds too few descriptors, or leaves the task waiting for its completion. -/
theorem Midway.publish_cases {id : RequestId} {sector : Nat} {next : SubmitReply → Program Reply}
    (hm : m.Midway b t (.running (.publish b id sector next))) {s : ReadyState}
    (hs : (m.bay b).drive.state = .ready s) :
    ∃ q, m.requests.find? id = some q ∧
      ((s.rings.queue.pool.numFree < 3 ∧
          s.publish? id q.write sector q.address q.data.length = .ok none) ∨
        ∃ chain r, s.publish? id q.write sector q.address q.data.length =
            .ok (some (s.submission id q sector, chain, s.published r)) ∧
          ((m.setState b (.ready (s.published r))).setRequests (m.requests.setPending id true)).Midway
            b t (.running (.complete b id s.nextTicket next))) := by
  obtain ⟨q, hq⟩ := hm.live rfl
  have hnext : ∀ r, (next r).Asks b := hm.underway.of_publish
  refine ⟨q, hq, ?_⟩
  rw [s.publish?_eq]
  rcases s.rings.reserve_cases with ⟨hfew, hnone⟩ | ⟨chain, hsome, hc, hcount⟩
  · rw [hnone]
    exact .inl ⟨hfew, rfl⟩
  · have hb := hm.watched.regular.balanced hs
    obtain ⟨r, hp, -⟩ := hb.sound.exists_published hc (s.submission id q sector)
    refine .inr ⟨chain, r, ?_, hm.launch hs hq hc hcount hp hnext⟩
    simp only [hsome, bind, Except.bind, hp]

private theorem Midway.takeScratch (hm : m.Midway b t (.running p)) :
    (m.mapDrive b fun d =>
      { d with scratch := (m.bay b).drive.scratch.acquire t }).Midway b t
        (.running p) := by
  refine hm.step (frames_mapDrive hm.1.present rfl) rfl ?_
  rw [mapDrive, view_mapBay hm.1.present]
  exact hm.watched.takeScratch t

private theorem Midway.giveScratch (hm : m.Midway b t (.running p)) (value : Bytes) :
    ((m.mapDrive b fun d =>
      { d with scratch := { (m.bay b).drive.scratch.release with value } }).wake
        (m.bay b).drive.scratch.channel).Midway b t (.running p) := by
  have hf := frames_mapDrive hm.1.present (f := fun d =>
    { d with scratch := { (m.bay b).drive.scratch.release with value } }) rfl
  refine hm.step (hf.trans (frames_wake _)) rfl ?_
  rw [view_wake, mapDrive, view_mapBay hm.1.present]
  exact hm.watched.giveScratch value fun u => (hm.1.asleep u).symm

theorem DriveInvariant.act (hm : m.DriveInvariant b g) (ht : t < m.tasks.size) {a : Activity}
    {waiting : WaitQueue}
    {runnable : List TaskId}
    (hw : ((m.view b).act t a).Watched b (m.bay b).drive.key waiting runnable) :
    DriveInvariant { m.setActivity t a with waiting, runnable } b plain := by
  refine ⟨hm.present, hm.wired, fun u i hi => ?_, fun _ => rfl, ?_⟩
  · change i ∈ ((m.setActivity t a).task u).core.pending at hi
    rw [task_setActivity ht] at hi
    split at hi
    · exact hm.heard u i hi
    · exact hm.heard u i hi
  · change ((m.setActivity t a).view b).Watched b (m.bay b).drive.key waiting runnable
    rw [view_setActivity ht]
    exact hw

theorem DriveInvariant.setActivity (hm : m.DriveInvariant b g) (ht : t < m.tasks.size) {a : Activity}
    (hw : ((m.view b).act t a).Watched b (m.bay b).drive.key m.waiting m.runnable) :
    (m.setActivity t a).DriveInvariant b plain := hm.act ht hw

theorem DriveInvariant.midway (hm : m.DriveInvariant b plain) (hact : (m.task t).activity = .running p) :
    m.Midway b t (.running p) := by
  have hpose : ∀ u, posing t (.running p) u (m.task u).activity = (m.task u).activity := fun u => by
    rw [posing]
    split
    · next hut => rw [hut, hact]
    · rfl
  have hview : (m.view b).guise (posing t (.running p)) = (m.view b).guise plain :=
    congrArg (fun activity => { m.view b with activity }) (funext hpose)
  refine ⟨⟨hm.present, hm.wired, hm.heard, fun u => ?_, ?_⟩, lt_of_activity fun h => ?_⟩
  · rw [hpose]
    rfl
  · rw [hview]
    exact hm.watched
  · rw [hact] at h
    cases h

private theorem view_putShared (hb : b < m.bays.size) (s : ReadyState) (c : Controller)
    (shared : SharedMemory) :
    (m.putShared b s c shared).view b =
      { m.view b with
        state := .ready { s with rings := shared.rings }
        requests := shared.requests
        controller := c } := by
  simp only [Machine.view, bay_putShared hb]
  rfl

private theorem frames_putShared (hb : b < m.bays.size) (s : ReadyState) (c : Controller)
    (shared : SharedMemory) : m.Frames b (m.putShared b s c shared) := by
  have hbay := bay_putShared hb s c shared
  constructor
  case tasks => rfl
  case registry => rfl
  case size => exact size_bays_mapBay _
  case number => rw [hbay]
  case key => rw [hbay]

theorem DriveInvariant.putShared (hm : m.DriveInvariant b g) {s : ReadyState}
    (hs : (m.bay b).drive.state = .ready s)
    {c : Controller} (hc : c.image.Whole) {shared : SharedMemory}
    (hshared : SharedMemory.Scribbled ⟨s.rings, m.requests⟩ shared) :
    (m.putShared b s c shared).DriveInvariant b g := by
  refine hm.frame (frames_putShared hm.present s c shared) (fun _ _ => rfl) ?_
  rw [view_putShared hm.present]
  exact hm.watched.scribble hs hshared hc

theorem DriveInvariant.setController (hm : m.DriveInvariant b g) {c : Controller} (hc : c.image.Whole) :
    (m.mapController b fun _ => c).DriveInvariant b g := by
  have hbay := bay_mapController hm.present fun _ => c
  have hview : (m.mapController b fun _ => c).view b = { m.view b with controller := c } := by
    simp only [Machine.view, hbay]
    rfl
  have hf : m.Frames b (m.mapController b fun _ => c) := by
    refine ⟨rfl, rfl, size_bays_mapBay _, ?_, ?_⟩
    · rw [hbay]
    · rw [hbay]
  refine hm.frame hf (fun _ _ => rfl) ?_
  rw [hview]
  exact hm.watched.setController hc

private theorem DriveInvariant.starts (hm : m.DriveInvariant b plain) (h : m.Alike b m')
    {state : DriveState}
    {arena : Arena}
    (hstarts : (m.view b).Starts { m.view b with controller := (m'.bay b).controller, state, arena }) :
    ((m'.setState b state).setArena arena).DriveInvariant b plain := by
  have hm' := (robust_driveInvariant b plain).alike m m' hm h
  have hw := hm.watched.starts hstarts hm'.watched.regular.image
  have hf : m'.Frames b (m'.setState b state) := frames_mapDrive hm'.present rfl
  refine hm'.frame (hf.trans (frames_setArena arena)) (fun _ _ => rfl) ?_
  rw [view_setArena, view_setState _ hm'.present, h.view, h.key]
  change View.Watched b _ m'.waiting m'.runnable _
  rw [h.waiting, h.runnable]
  exact hw

theorem DriveInvariant.setArena (hm : m.DriveInvariant b g) (arena : Arena) :
    (m.setArena arena).DriveInvariant b g :=
  hm.frame (frames_setArena arena) (fun _ _ => rfl) (hm.watched.setArena arena)

end Machine

namespace Run

open Machine

variable {m : Machine} {b : BayId} {t : TaskId} {p p' : Program Reply} {a : Activity}
  {id : RequestId} {sector : Nat} {ticket : UInt64} {next : SubmitReply → Program Reply}

private theorem leads_proceed (hm : m.Midway b t (.running p)) (saved : Bool) (hp' : p'.Asks b)
    (hstage : p.stage? = none) :
    Leads (proceed t saved p') m fun a m' => m'.Midway b t a := by
  have hgone := hm.go (.asks p' hp') (hp'.stage?.trans hstage.symm)
  exact ((robust_midway b t _).keeps_restore t saved m hgone).bind fun _ _ hm' => leads_pure hm'

private theorem leads_park (hm : m.Midway b t (.running p)) (saved : Bool) {c : Channel}
    (hunder : p'.Underway b) (hstage : p'.stage? = p.stage?)
    (hc : p'.channel? (m.bay b).drive.key (m.bay b).drive.scratch.key = some c)
    (hb : (m.view b).Blocks p') :
    Leads (park t saved c p') m fun a m' => m'.Midway b t a := by
  have hparked := hm.park hunder hstage hc hb
  exact leads_modify (((robust_midway b t _).keeps_restore t saved _ hparked).bind
    fun _ _ hm' => leads_pure hm')

private theorem keeps_inspect : Keeps (fun m => m.Midway b t a) (inspect t b) :=
  ((robust_midway b t a).keeps_mask t).bind fun saved m hm => leads_get
    (((robust_midway b t a).keeps_restore t saved m hm).bind fun _ _ hm' => leads_pure hm')

theorem leads_work {g : TaskId → Activity → Activity} (hm : m.DriveInvariant b g)
    (order : Option (List Nat)) :
    Leads (work b order) m fun _ m' =>
      m'.DriveInvariant b g ∧ m'.tasks = m.tasks ∧ m'.registry = m.registry := by
  have halike := alike_mapController hm.present (f := fun c => { c with notified := false }) rfl
  have htold := (robust_driveInvariant b g).alike m _ hm halike
  have htasks : (m.mapController b fun c => { c with notified := false }).tasks = m.tasks := rfl
  have hregistry := halike.registry
  apply leads_modify
  generalize m.mapController b (fun c => { c with notified := false }) = m₁ at htold htasks hregistry ⊢
  apply leads_get
  cases hshared : m₁.shared? b with
  | none => exact leads_pure ⟨htold, htasks, hregistry⟩
  | some p =>
    obtain ⟨s, shared⟩ := p
    obtain ⟨hs, rfl⟩ := of_shared? hshared
    have hregular := htold.watched.regular
    obtain ⟨hscribbled, hwhole⟩ :=
      Controller.scribbled_work hregular.image (hregular.sized hs) order
    refine leads_set (leads_pure ⟨htold.putShared hs hwhole hscribbled, ?_, ?_⟩)
    · exact (frames_putShared htold.present s _ _).tasks.trans htasks
    · exact (frames_putShared htold.present s _ _).registry.trans hregistry

theorem keeps_notify : Keeps (fun m => m.Midway b t a) (notify t b) := by
  have hrobust := robust_midway b t a
  refine (hrobust.keeps_command _).bind fun _ m hm => leads_get ?_
  by_cases hmode : (m.bay b).controller.mode = .sameCore
  · rw [if_pos hmode]
    refine (leads_work hm.1 none).bind fun _ m' ⟨hdrive, htasks, hregistry⟩ => ?_
    exact hrobust.leads_raise ⟨hdrive, htasks ▸ hm.2⟩ t ((concerns_congr hregistry _).2 hm.1.wired)
  · rw [if_neg hmode]
    exact leads_pure hm

/-! ### The nodes of a program -/

private theorem leads_finishOrPark (hm : m.Midway b t (.running (.complete b id ticket next)))
    (saved : Bool) :
    Leads (finishOrPark t saved b id ticket next) m fun a m' => m'.Midway b t a := by
  apply leads_get
  by_cases hpending : m.requests.isPending id = true
  · rw [if_pos hpending]
    exact leads_park hm saved hm.underway rfl rfl hpending
  · rw [if_neg hpending]
    have hdone := (robust_done b t _ id).keeps_restore t saved m ⟨hm, by simpa using hpending⟩
    refine hdone.bind fun _ m' ⟨hm', hdone⟩ => leads_get (leads_set (leads_pure ?_))
    obtain ⟨q, hq⟩ := hm'.live rfl
    have hq' : m'.requests.find? id = some q := hq
    have hnot : q.pending = false := by
      rw [RequestTable.isPending, hq', Option.any_some] at hdone
      exact hdone
    rw [hq']
    have hcounted := (robust_midway b t _).alike _ _ hm'
      (alike_setStats hm'.1.present (·.countRequest q.write))
    exact hcounted.finish hq' hnot (hm'.underway.of_complete _)

private theorem leads_publishOrPark (hm : m.Midway b t (.running (.publish b id sector next)))
    (saved : Bool)
    {s : ReadyState} (hs : (m.bay b).drive.state = .ready s) :
    Leads (publishOrPark t saved b s id sector next) m fun a m' => m'.Midway b t a := by
  apply leads_get
  obtain ⟨q, hq, hcases⟩ := hm.publish_cases hs
  rw [hq]
  rcases hcases with ⟨hfew, hp⟩ | ⟨chain, r, hp, hlaunched⟩
  · simp only [Option.getD_some, hp]
    exact leads_park hm saved hm.underway rfl rfl ⟨s, hs, hfew⟩
  · simp only [Option.getD_some, hp]
    refine leads_set ((keeps_notify _ hlaunched).bind fun _ m₁ hm₁ => ?_)
    refine ((robust_midway b t _).keeps_log _ _ _ m₁ hm₁).bind fun _ m₂ hm₂ => ?_
    exact leads_finishOrPark hm₂ saved

private theorem leads_publishAgain (hm : m.Midway b t (.running (.publish b id sector next))) :
    Leads (publishAgain t b id sector next) m fun a m' => m'.Midway b t a := by
  refine ((robust_midway b t _).keeps_mask t m hm).bind fun saved m₁ hm₁ => leads_get ?_
  obtain ⟨s, hs⟩ := hm₁.watched.regular.isReady (View.stage_of_running (View.act_self _))
  have hs' : (m₁.bay b).drive.state = .ready s := hs
  rw [hs']
  exact leads_publishOrPark hm₁ saved hs'

theorem leads_enterRequest {a : BlockAccess} (hm : m.Midway b t (.running (.submit b a next)))
    {s : ReadyState} (hs : (m.bay b).drive.state = .ready s)
    (hlen : a.data.length = (m.bay b).drive.config.blockSize)
    (hlt : a.block * (m.bay b).drive.config.sectorsPerBlock < wordLimit)
    (hnext : ∀ r, (next r).Asks b) :
    Leads (enterRequest a) m fun id m' =>
      m'.Midway b t (.running (.publish b id (a.block * (m.bay b).drive.config.sectorsPerBlock) next)) ∧
        (m'.bay b).drive.state = .ready s := by
  have hw := hm.watched.enter (View.act_self _) hs hlen hlt hnext
  refine leads_get (leads_set (leads_pure ⟨hm.step ?_ rfl ?_, hs⟩))
  · exact ⟨rfl, rfl, rfl, rfl, rfl⟩
  rw [← View.act_act (.running (.submit b a next))]
  exact hw

private theorem leads_submit {a : BlockAccess} (hm : m.Midway b t (.running (.submit b a next))) :
    Leads (submit t b a next) m fun a m' => m'.Midway b t a := by
  have hnext := hm.underway.of_submit
  apply leads_get
  cases hfirst : (m.bay b).drive.config.firstSector a.block a.data.length with
  | error e =>
    simp only [hfirst]
    exact leads_pure (hm.go (.asks _ (hnext _)) (hnext _).stage?)
  | ok sector =>
    obtain ⟨hlen, rfl, hlt⟩ := View.firstSector_ok hfirst
    simp only [hfirst]
    refine (leads_mask (b := b) t m).bind fun saved m₁ halike => leads_get ?_
    have hm₁ := (robust_midway b t _).alike m m₁ hm halike
    have hconfig : (m.bay b).drive.config = (m₁.bay b).drive.config :=
      (congrArg View.config halike.view).symm
    rw [hconfig] at hlen hlt ⊢
    split
    · exact leads_proceed hm₁ saved (hnext _) rfl
    · next s hcheck =>
      have hs := View.checkSectors_ok hcheck
      refine (leads_enterRequest hm₁ hs hlen hlt hnext).bind fun id m₂ ⟨hm₂, hs₂⟩ => ?_
      exact leads_publishOrPark hm₂ saved hs₂

private theorem leads_takeScratch {next : Bytes → Program Reply}
    (hm : m.Midway b t (.running (.takeScratch b next))) :
    Leads (takeScratch t b next) m fun a m' => m'.Midway b t a := by
  refine ((robust_midway b t _).keeps_mask t m hm).bind fun saved m₁ hm₁ => leads_get ?_
  cases hh : (m₁.bay b).drive.scratch.held with
  | true =>
    simp only [SleepLock.tryAcquire_of_held hh]
    exact leads_park hm₁ saved hm₁.underway rfl rfl hh
  | false =>
    simp only [SleepLock.tryAcquire_of_free hh]
    exact leads_modify (leads_proceed hm₁.takeScratch saved (hm.underway.of_takeScratch _) rfl)

private theorem leads_giveScratch {value : Bytes} {rest : Program Reply}
    (hm : m.Midway b t (.running (.giveScratch b value rest))) :
    Leads (giveScratch t b value) m fun _ m' => m'.Midway b t (.running rest) := by
  have hrest := hm.underway.of_giveScratch
  refine ((robust_midway b t _).keeps_mask t m hm).bind fun saved m₁ hm₁ => leads_get ?_
  refine leads_modify (leads_modify ?_)
  have hgiven := (hm₁.giveScratch value).go (.asks rest hrest) hrest.stage?
  exact (robust_midway b t _).keeps_restore t saved _ hgiven

private theorem leads_node (hm : m.Midway b t (.running p)) :
    Leads (node t p) m fun a m' => m'.Midway b t a := by
  cases hm.underway with
  | publish id sector next _ => exact leads_publishAgain hm
  | complete id ticket next _ =>
    exact ((robust_midway b t _).keeps_mask t m hm).bind fun saved _ hm₁ => leads_finishOrPark hm₁ saved
  | asks _ h =>
    cases h with
    | done a => exact leads_pure hm
    | halt h => exact leads_throw
    | inspect next h =>
      refine (keeps_inspect m hm).bind fun s _ hm' => leads_pure ?_
      exact hm'.go (.asks _ (h s)) (h s).stage?
    | submit a next _ => exact leads_submit hm
    | takeScratch next _ => exact leads_takeScratch hm
    | giveScratch value next _ => exact (leads_giveScratch hm).bind fun _ _ hm' => leads_pure hm'

/-! ### Steps -/

private theorem leads_settle (hm : m.DriveInvariant b plain) (hact : (m.task t).activity = .parking p) :
    Leads (settle t p) m fun a m' => (m'.setActivity t a).DriveInvariant b plain := by
  have ht : t < m.tasks.size := lt_of_activity fun h => by cases hact.symm.trans h
  have hemit : ∀ e, (m.emit e).DriveInvariant b plain := fun e =>
    (robust_driveInvariant b plain).alike m _ hm (alike_emit e)
  apply leads_get
  by_cases hreg : m.waiting.isRegistered t = true
  · rw [if_pos hreg]
    refine leads_modify (leads_pure ((hemit _).setActivity ht ?_))
    exact hm.watched.sleep hact (WaitQueue.isRegistered_iff.1 hreg)
  · rw [if_neg hreg]
    refine leads_modify (leads_pure ((hemit _).setActivity ht ?_))
    exact hm.watched.stayUp hact fun c hc => hreg (WaitQueue.isRegistered_iff.2 ⟨c, hc⟩)

theorem keeps_advance (t : TaskId) : Keeps (fun m => m.DriveInvariant b plain) (advance t) := by
  intro m hm
  apply leads_get
  cases hact : (m.task t).activity with
  | idle | asleep p => exact leads_pure hm
  | running p =>
    refine (leads_node (hm.midway hact)).bind fun a m' hm' => leads_change ?_
    exact hm'.1.setActivity hm'.2 hm'.1.watched
  | parking p => exact (leads_settle hm hact).bind fun a m' hm' => leads_change hm'

private theorem keeps_logNegotiation {P : Machine → Prop} (hP : Robust b P) (config : DriveConfig)
    (state : DriveState) (r : Except InitError Unit) : Keeps P (logNegotiation config state r) := by
  cases r with
  | ok _ => exact hP.keeps_log _ _ _
  | error e => exact hP.keeps_log _ _ _

theorem keeps_bringUp : Keeps (fun m => m.DriveInvariant b plain) (bringUp b) := by
  have hrobust := robust_driveInvariant b plain
  refine (hrobust.keeps_mask controlTask).bind fun saved m hm => leads_get ?_
  have hlog : ∀ level source text, Keeps (fun m' => m.Alike b m') (log level source text) :=
    fun level source text m' h => leads_change (h.trans (alike_log level source text))
  refine leads_when (hlog _ _ _ m (.refl m)) (.refl m) fun m₁ halike => ?_
  have hm₁ := hrobust.alike m m₁ hm halike
  have hconfig : (m.bay b).drive.config = (m₁.view b).config := (congrArg View.config halike.view).symm
  have hstate : (m.bay b).drive.state = (m₁.view b).state := (congrArg View.state halike.view).symm
  have harena : m.arena = (m₁.view b).arena := (congrArg View.arena halike.view).symm
  have hstarts := starts_of_bringUp (m₁.view b) (m.bay b).drive hconfig hstate
  rw [harena]
  refine (leads_dialogue hm₁.present _).bind fun r m₂ ⟨hr, halike', hcontroller⟩ => ?_
  change r = (((m.bay b).drive.bringUp (m₁.view b).arena).hold (m₁.view b).controller).1 at hr
  change _ = (((m.bay b).drive.bringUp (m₁.view b).arena).hold (m₁.view b).controller).2 at hcontroller
  rw [← hr, ← hcontroller] at hstarts
  obtain ⟨result, state, arena⟩ := r
  have hstarted := hm₁.starts halike' hstarts
  refine leads_modify (leads_when (P := fun m => m.DriveInvariant b plain)
    (keeps_logNegotiation hrobust _ _ _ _ hstarted) hstarted fun m₃ hm₃ => ?_)
  exact (hrobust.keeps_restore controlTask saved m₃ hm₃).bind fun _ _ hm => leads_pure hm

end Run

end DiskStack
