import DiskStack.Proofs.Handshake
import DiskStack.Proofs.View

/-!
# What interrupts leave alone

An interrupt may come in wherever a core's flag goes on, so whoever puts the flag on has to rely on a
condition that no handler breaks. Apart from taking finished requests off the used ring, a handler
does nothing that a drive's users or the wait queue could tell. So a condition that does not depend on
that, and that is kept when a request is completed, is kept by every run of every handler.
-/

namespace DiskStack

namespace Run

variable {α β : Type} {m : Machine} {Q : α → Machine → Prop} {R : β → Machine → Prop}

/-- What holds of the value of a run and of the machine then reached, unless the run halts. -/
def Leads (x : Run α) (m : Machine) (Q : α → Machine → Prop) : Prop :=
  Ends x m fun r m' => ∀ a, r = .ok a → Q a m'

theorem leads_pure {a : α} (h : Q a m) : Leads (pure a) m Q := fun _ ha => by cases ha; exact h

theorem leads_throw {e : Halt} : Leads (throw e) m Q := fun _ ha => by cases ha

theorem leads_get {f : Machine → Run α} (h : Leads (f m) m Q) : Leads (get >>= f) m Q := h

theorem leads_set {m' : Machine} {f : PUnit → Run α} (h : Leads (f ⟨⟩) m' Q) :
    Leads (set m' >>= f) m Q := h

theorem leads_modify {g : Machine → Machine} {f : PUnit → Run α} (h : Leads (f ⟨⟩) (g m) Q) :
    Leads (modify g >>= f) m Q := h

theorem leads_change {g : Machine → Machine} {Q : PUnit → Machine → Prop} (h : Q ⟨⟩ (g m)) :
    Leads (modify g) m Q := fun _ _ => h

theorem leads_any (x : Run α) : Leads x m fun _ _ => True := fun _ _ => trivial

theorem leads_self (x : Run α) (m : Machine) : Leads x m fun a m' => x.run.run m = (.ok a, m') :=
  fun _ ha => Prod.ext ha rfl

theorem Leads.of_ok {x : Run α} (h : Leads x m Q) {a : α} {m' : Machine}
    (hx : x.run.run m = (.ok a, m')) : Q a m' := by
  rw [Leads, Ends, hx] at h
  exact h a rfl

theorem ok_of_toBool {p : Except Halt α × Machine} (h : p.1.toBool = true) : ∃ a, p = (.ok a, p.2) := by
  obtain ⟨r, m⟩ := p
  cases r with
  | ok a => exact ⟨a, rfl⟩
  | error e => cases h

theorem ok_of_toOption {p : Except Halt α × Machine} {a : α} (h : p.1.toOption = some a) :
    p = (.ok a, p.2) := by
  obtain ⟨r, m⟩ := p
  cases r with
  | ok a' =>
    cases h
    rfl
  | error e => cases h

theorem Leads.mono {P : α → Machine → Prop} {x : Run α} (h : Leads x m P)
    (hPQ : ∀ a m', P a m' → Q a m') : Leads x m Q := fun a ha => hPQ a _ (h a ha)

theorem Leads.bind {x : Run α} {f : α → Run β} (hx : Leads x m Q)
    (h : ∀ a m', Q a m' → Leads (f a) m' R) : Leads (x >>= f) m R := by
  refine ends_bind (Ends.mono hx ?_)
  rintro (e | a) m' hm'
  · intro b hb
    cases hb
  · exact h a m' (hm' a rfl)

theorem leads_throw_bind {e : Halt} {f : α → Run β} : Leads ((throw e : Run α) >>= f) m R :=
  (leads_throw (Q := fun _ _ => False)).bind fun _ _ h => h.elim

theorem leads_map {x : Run α} {f : α → β} (h : Leads x m fun a m' => R (f a) m') :
    Leads (f <$> x) m R := by
  rw [← bind_pure_comp]
  exact h.bind fun _ _ h => leads_pure h

theorem Leads.and {P : α → Machine → Prop} {x : Run α} (h : Leads x m P) (h' : Leads x m Q) :
    Leads x m fun a m' => P a m' ∧ Q a m' := fun a ha => ⟨h a ha, h' a ha⟩

theorem leads_when {P : Machine → Prop} {c : Prop} [Decidable c] {x : Run Unit} {f : Unit → Run α}
    (hx : Leads x m fun _ => P) (hm : P m) (h : ∀ m', P m' → Leads (f ()) m' Q) :
    Leads (if c then x >>= f else f ()) m Q := by
  split
  · exact hx.bind fun _ => h
  · exact h m hm

theorem leads_ofChecked {x : Except Halt α} {f : α → Run β}
    (h : ∀ a, x = .ok a → Leads (f a) m R) : Leads (ofChecked x >>= f) m R := by
  cases x with
  | error e => exact leads_throw_bind
  | ok a => exact h a rfl

/-- A run that keeps a condition, unless it halts. -/
def Keeps (P : Machine → Prop) (x : Run α) : Prop := ∀ m, P m → Leads x m fun _ => P

variable {P : Machine → Prop}

private theorem keeps_pure (a : α) : Keeps P (pure a) := fun _ hm => leads_pure hm

theorem Keeps.bind {x : Run α} {f : α → Run β} (hx : Keeps P x) (hf : ∀ a, Keeps P (f a)) :
    Keeps P (x >>= f) := fun m hm => (hx m hm).bind fun a m' hm' => hf a m' hm'

end Run

namespace Machine

variable {b : BayId} {m m' m'' : Machine}

/-- An interrupt that is no other drive's. -/
def Concerns (m : Machine) (b : BayId) (i : Interrupt) : Prop :=
  ∀ number b', i = .completion number → m.bayOf? number = some b' → b' = b

theorem concerns_congr (h : m'.registry = m.registry) (i : Interrupt) :
    m'.Concerns b i ↔ m.Concerns b i := by
  simp only [Concerns, bayOf?, h]

/-- A machine of which neither the wait queue nor a drive's users can tell the difference, but for the
registers of the controller. -/
structure Alike (b : BayId) (m m' : Machine) : Prop where
  tasks : m'.tasks.size = m.tasks.size
  size : m'.bays.size = m.bays.size
  registry : m'.registry = m.registry
  number : (m'.bay b).number = (m.bay b).number
  key : (m'.bay b).drive.key = (m.bay b).drive.key
  waiting : m'.waiting = m.waiting
  runnable : m'.runnable = m.runnable
  heard : ∀ t, ∀ i ∈ (m'.task t).core.pending, i ∈ (m.task t).core.pending ∨ m.Concerns b i
  image : (m'.bay b).controller.image = (m.bay b).controller.image
  view : m'.view b = { m.view b with controller := (m'.bay b).controller }

theorem Alike.concerns (h : m.Alike b m') {i : Interrupt} : m'.Concerns b i ↔ m.Concerns b i :=
  concerns_congr h.registry i

theorem Alike.refl (m : Machine) : m.Alike b m :=
  ⟨rfl, rfl, rfl, rfl, rfl, rfl, rfl, fun _ _ hi => .inl hi, rfl, rfl⟩

theorem Alike.trans (h : m.Alike b m') (h' : m'.Alike b m'') : m.Alike b m'' where
  tasks := h'.tasks.trans h.tasks
  size := h'.size.trans h.size
  registry := h'.registry.trans h.registry
  number := h'.number.trans h.number
  key := h'.key.trans h.key
  waiting := h'.waiting.trans h.waiting
  runnable := h'.runnable.trans h.runnable
  heard := fun t i hi => by
    rcases h'.heard t i hi with hi | hi
    · exact h.heard t i hi
    · exact .inr (h.concerns.1 hi)
  image := h'.image.trans h.image
  view := by rw [h'.view, h.view]

theorem alike_emit (e : Event) : m.Alike b (m.emit e) := { Alike.refl m with }

theorem alike_log (level : LogLevel) (source text : String) : m.Alike b (m.log level source text) := by
  rw [Machine.log]
  split
  · exact { Alike.refl m with }
  · exact .refl m

theorem alike_mapCore (t : TaskId) {f : Core Interrupt → Core Interrupt}
    (hf : ∀ c, ∀ i ∈ (f c).pending, i ∈ c.pending ∨ m.Concerns b i) : m.Alike b (m.mapCore t f) := by
  have hactivity : (fun u => ((m.mapCore t f).task u).activity) = fun u => (m.task u).activity := by
    funext u
    rw [Machine.mapCore, task_mapTask]
    split <;> rfl
  refine { Alike.refl m with tasks := ?_, heard := fun u i hi => ?_, view := ?_ }
  · exact Array.size_modify
  · rw [Machine.mapCore, task_mapTask] at hi
    split at hi
    · exact hf _ i hi
    · exact .inl hi
  · simp only [Machine.view]
    rw [hactivity]
    rfl

private theorem alike_mapBay (hb : b < m.bays.size) {f : Bay → Bay} (stats : DriveStats)
    (hnumber : (f (m.bay b)).number = (m.bay b).number)
    (hdrive : (f (m.bay b)).drive = { (m.bay b).drive with stats })
    (himage : (f (m.bay b)).controller.image = (m.bay b).controller.image) :
    m.Alike b (m.mapBay b f) := by
  have hbay := bay_mapBay hb f
  refine { Alike.refl m with
    size := size_bays_mapBay _, number := ?_, key := ?_, image := ?_, view := ?_ }
  · rw [hbay, hnumber]
  · rw [hbay, hdrive]
  · rw [hbay, himage]
  · rw [hbay, view_mapBay hb, hdrive]
    rfl

theorem alike_mapController (hb : b < m.bays.size) {f : Controller → Controller}
    (hf : (f (m.bay b).controller).image = (m.bay b).controller.image) :
    m.Alike b (m.mapController b f) := alike_mapBay hb (m.bay b).drive.stats rfl rfl hf

theorem alike_setStats (hb : b < m.bays.size) (f : DriveStats → DriveStats) :
    m.Alike b (m.mapDrive b fun d => { d with stats := f d.stats }) :=
  alike_mapBay hb (f (m.bay b).drive.stats) rfl rfl rfl

def setState (m : Machine) (b : BayId) (s : DriveState) : Machine :=
  m.mapDrive b fun d => { d with state := s }

def setRequests (m : Machine) (r : RequestTable) : Machine := { m with requests := r }

def setArena (m : Machine) (arena : Arena) : Machine := { m with arena }

section setters

variable (s : DriveState) (r : RequestTable) (c : Channel)

@[simp] theorem bay_setState (hb : b < m.bays.size) :
    (m.setState b s).bay b = { m.bay b with drive.state := s } := bay_mapDrive hb _

@[simp] theorem size_bays_setState : (m.setState b s).bays.size = m.bays.size := size_bays_mapBay _

@[simp] theorem view_setState (hb : b < m.bays.size) :
    (m.setState b s).view b = { m.view b with state := s } := by
  rw [setState, mapDrive, view_mapBay hb]
  rfl

@[simp] theorem bays_setRequests : (m.setRequests r).bays = m.bays := rfl

@[simp] theorem bay_setRequests : (m.setRequests r).bay b = m.bay b := rfl

@[simp] theorem view_setRequests : (m.setRequests r).view b = { m.view b with requests := r } := rfl

@[simp] theorem view_setArena (arena : Arena) : (m.setArena arena).view b = { m.view b with arena } := rfl

@[simp] theorem bays_wake : (m.wake c).bays = m.bays := rfl

@[simp] theorem bay_wake : (m.wake c).bay b = m.bay b := rfl

@[simp] theorem view_wake : (m.wake c).view b = m.view b := rfl

end setters

/-- The machine after a finished request has been taken off the used ring and its chain has been
freed: the one who waits for it is woken, and then those who wait for descriptors. -/
def complete (m : Machine) (b : BayId) (s : ReadyState) (e : InFlight) (q r : Rings) : Machine :=
  ((((m.setState b (.ready { s with rings := q })).setRequests
    (m.requests.setPending e.request false)).wake ((m.bay b).drive.completionChannel e.ticket)).setState
    b (.ready { s with rings := r })).wake (m.bay b).drive.descriptorChannel

theorem tasks_complete (s : ReadyState) (e : InFlight) (q r : Rings) :
    (m.complete b s e q r).tasks = m.tasks := by
  simp only [complete, setState, setRequests, wake, emit, mapDrive, mapBay]

theorem requests_complete (s : ReadyState) (e : InFlight) (q r : Rings) :
    (m.complete b s e q r).requests = m.requests.setPending e.request false := by
  simp only [complete, setState, setRequests, wake, emit, mapDrive, mapBay]

theorem nextRequest_complete (s : ReadyState) (e : InFlight) (q r : Rings) :
    (m.complete b s e q r).nextRequest = m.nextRequest := by
  simp only [complete, setState, setRequests, wake, emit, mapDrive, mapBay]

@[simp] theorem size_bays_complete (s : ReadyState)
    (e : InFlight) (q r : Rings) : (m.complete b s e q r).bays.size = m.bays.size := by
  simp [complete]

theorem bay_complete (hb : b < m.bays.size) (s : ReadyState) (e : InFlight) (q r : Rings) :
    (m.complete b s e q r).bay b =
      { m.bay b with drive.state := .ready { s with rings := r } } := by
  simp [complete, hb]

theorem view_complete (hb : b < m.bays.size) (s : ReadyState) (e : InFlight) (q r : Rings) :
    (m.complete b s e q r).view b =
      { m.view b with
        state := .ready { s with rings := r }
        requests := m.requests.setPending e.request false } := by
  simp [complete, hb]

theorem complete_of_ne {k : BayId} (hk : k ≠ b) (s : ReadyState) (e : InFlight)
    (q r : Rings) :
    (m.complete b s e q r).bay k = m.bay k := by
  rw [complete, bay_wake, setState, mapDrive, bay_mapBay_of_ne hk, bay_wake, bay_setRequests, setState,
    mapDrive, bay_mapBay_of_ne hk]

/-- The machine after one more completion has been counted. -/
def counted (m : Machine) (b : BayId) : Machine :=
  m.mapDrive b fun d => { d with stats := d.stats.countCompletion }

theorem bay_counted (hb : b < m.bays.size) :
    (m.counted b).bay b =
      { m.bay b with drive.stats := (m.bay b).drive.stats.countCompletion } := bay_mapDrive hb _

theorem view_counted (hb : b < m.bays.size) : (m.counted b).view b = m.view b := view_mapBay hb _

@[simp] theorem tasks_counted : (m.counted b).tasks = m.tasks := rfl

@[simp] theorem requests_counted : (m.counted b).requests = m.requests := rfl

@[simp] theorem nextRequest_counted : (m.counted b).nextRequest = m.nextRequest := rfl

@[simp] theorem size_bays_counted : (m.counted b).bays.size = m.bays.size := size_bays_mapBay _

end Machine

namespace Controller

@[simp] theorem image_tell (c : Controller) (command : Command) : (c.tell command).image = c.image := by
  cases command <;> rfl

end Controller

namespace Run

variable {α : Type} {m : Machine} {b : BayId}

theorem leads_mask (t : TaskId) (m : Machine) : Leads (mask t) m fun _ m' => m.Alike b m' := by
  apply leads_get
  split
  · exact leads_set (leads_pure ((Machine.alike_emit _).trans
      (Machine.alike_mapCore t fun _ _ hi => .inl hi)))
  · exact leads_pure (.refl m)

theorem leads_ask (hb : b < m.bays.size) (q : Query) :
    Leads (ask b q) m fun answer m' =>
      answer = ((m.bay b).controller.ask q).1 ∧ m.Alike b m' ∧
        (m'.bay b).controller = ((m.bay b).controller.ask q).2 := by
  refine leads_get (leads_set (leads_pure ⟨rfl, ?_, ?_⟩))
  · exact (Machine.alike_mapController hb rfl).trans (Machine.alike_emit _)
  · exact congrArg Bay.controller
      (Machine.bay_mapController hb fun _ => ((m.bay b).controller.ask q).2)

theorem leads_command (hb : b < m.bays.size) (c : Command) :
    Leads (command b c) m fun _ m' =>
      m.Alike b m' ∧ (m'.bay b).controller = (m.bay b).controller.tell c := by
  refine leads_change ⟨?_, ?_⟩
  · exact (Machine.alike_mapController hb (Controller.image_tell _ c)).trans (Machine.alike_emit _)
  · exact congrArg Bay.controller (Machine.bay_mapController hb (·.tell c))

theorem leads_dialogue (hb : b < m.bays.size) (d : Dialogue α) :
    Leads (d.run (ask b) (command b)) m fun r m' =>
      r = (d.hold (m.bay b).controller).1 ∧ m.Alike b m' ∧
        (m'.bay b).controller = (d.hold (m.bay b).controller).2 := by
  induction d generalizing m with
  | done a => exact leads_pure ⟨rfl, .refl m, rfl⟩
  | ask q next ih =>
    refine (leads_ask hb q).bind fun answer m₁ ⟨hanswer, halike, hcontroller⟩ => ?_
    refine (ih answer (halike.size ▸ hb)).mono fun r m' ⟨hr, halike', hcontroller'⟩ => ?_
    rw [hcontroller, hanswer] at hr hcontroller'
    exact ⟨hr, halike.trans halike', hcontroller'⟩
  | tell c next ih =>
    refine (leads_command hb c).bind fun _ m₁ ⟨halike, hcontroller⟩ => ?_
    refine (ih (halike.size ▸ hb)).mono fun r m' ⟨hr, halike', hcontroller'⟩ => ?_
    rw [hcontroller] at hr hcontroller'
    exact ⟨hr, halike.trans halike', hcontroller'⟩

/-- The handler halts at an element, or completes the request that it names, counts that and logs it. -/
theorem leads_completeNext {s : ReadyState} {Q : Unit → Machine → Prop}
    (h : ∀ head e q r, s.rings.collect = (.ok (head, e), q) → q.release head = .ok r →
      Q () (((m.complete b s e q r).counted b).log .debug driveSource
        s!"virtio-blk: completed head {head}")) : Leads (completeNext b s) m Q := by
  rw [completeNext]
  rcases hc : s.rings.collect with ⟨result, q⟩
  cases result with
  | error e => exact leads_modify ((leads_any _).bind fun _ _ _ => leads_throw)
  | ok p =>
    obtain ⟨head, e⟩ := p
    refine leads_get (leads_modify (leads_modify ?_))
    cases hr : q.release head with
    | error e' => exact leads_throw_bind
    | ok r =>
      refine (leads_pure (Q := fun a m' => a = r ∧ Q () (((((m'.setState b (.ready
        { s with rings := r })).wake (m.bay b).drive.descriptorChannel)).counted b).log .debug
          driveSource s!"virtio-blk: completed head {head}")) ⟨rfl, h head e q r hc hr⟩).bind ?_
      rintro _ m' ⟨rfl, hm'⟩
      exact leads_modify (leads_modify (leads_modify (leads_change hm')))

end Run

/-- A condition that no handler breaks, on machines where every kept interrupt is of one drive. -/
structure Robust (b : BayId) (P : Machine → Prop) : Prop where
  present : ∀ m, P m → b < m.bays.size
  heard : ∀ m, P m → ∀ t, ∀ i ∈ (m.task t).core.pending, m.Concerns b i
  alike : ∀ m m', P m → m.Alike b m' → P m'
  complete : ∀ m s head e q r, P m → (m.bay b).drive.state = .ready s →
    s.rings.collect = (.ok (head, e), q) → q.release head = .ok r → P (m.complete b s e q r)

theorem Robust.and {b : BayId} {P Q : Machine → Prop} (hP : Robust b P)
    (alike : ∀ m m', Q m → m.Alike b m' → Q m')
    (complete : ∀ m s e q r, Q m → Q (m.complete b s e q r)) : Robust b fun m => P m ∧ Q m where
  present := fun m hm => hP.present m hm.1
  heard := fun m hm => hP.heard m hm.1
  alike := fun m m' hm h => ⟨hP.alike m m' hm.1 h, alike m m' hm.2 h⟩
  complete := fun m s head e q r hm hs hc hr =>
    ⟨hP.complete m s head e q r hm.1 hs hc hr, complete m s e q r hm.2⟩

namespace Robust

open Run

variable {b : BayId} {P : Machine → Prop} (hP : Robust b P)
include hP

private theorem keeps_emit (e : Event) : Keeps P (Run.emit e) :=
  fun m hm => leads_change (hP.alike m _ hm (Machine.alike_emit e))

theorem keeps_log (level : LogLevel) (source text : String) : Keeps P (Run.log level source text) :=
  fun m hm => leads_change (hP.alike m _ hm (Machine.alike_log level source text))

private theorem keeps_mapCore (t : TaskId) {f : Core Interrupt → Core Interrupt}
    (hf : ∀ c, ∀ i ∈ (f c).pending, i ∈ c.pending) : Keeps P (modify (·.mapCore t f)) :=
  fun m hm => leads_change (hP.alike m _ hm (Machine.alike_mapCore t fun c i hi => .inl (hf c i hi)))

theorem keeps_mask (t : TaskId) : Keeps P (mask t) := fun m hm =>
  (leads_mask t m).mono fun _ m' h => hP.alike m m' hm h

private theorem keeps_ask (q : Query) : Keeps P (ask b q) := fun m hm =>
  (leads_ask (hP.present m hm) q).mono fun _ m' h => hP.alike m m' hm h.2.1

theorem keeps_command (c : Command) : Keeps P (command b c) := fun m hm =>
  (leads_command (hP.present m hm) c).mono fun _ m' h => hP.alike m m' hm h.1

private theorem leads_completeNext {m : Machine} (hm : P m) {s : ReadyState}
    (hs : (m.bay b).drive.state = .ready s) : Leads (completeNext b s) m fun _ => P :=
  Run.leads_completeNext fun head e q r hc hr => by
    have hdone := hP.complete m s head e q r hm hs hc hr
    have hcounted := hP.alike _ _ hdone (Machine.alike_setStats (hP.present _ hdone) (·.countCompletion))
    exact hP.alike _ _ hcounted (Machine.alike_log _ _ _)

theorem keeps_completionStep (point : CompletionPoint) : Keeps P (completionStep b point) := by
  intro m hm
  apply leads_get
  cases hs : (m.bay b).drive.state with
  | uninitialized | incompatible => exact leads_pure hm
  | ready s =>
    cases point with
    | reading => exact (hP.keeps_ask _ m hm).bind fun _ _ hm => leads_pure hm
    | acknowledging causes => exact (hP.keeps_command _ m hm).bind fun _ _ hm => leads_pure hm
    | looking | finished => exact leads_pure hm
    | taking => exact (hP.leads_completeNext hm hs).bind fun _ _ hm => leads_pure hm

private theorem keeps_completionSteps (n : Nat) (point : CompletionPoint) :
    Keeps P (completionSteps b n point) := by
  induction n generalizing point with
  | zero => exact keeps_pure _
  | succ n ih =>
    cases point with
    | finished => exact keeps_pure _
    | _ => exact (hP.keeps_completionStep _).bind ih

private theorem keeps_putBack (t : TaskId) (saved : Bool) : Keeps P (putBack t saved) := fun m hm => by
  rw [putBack]
  split
  · exact leads_change (hP.alike m _ hm ((Machine.alike_emit _).trans
      (Machine.alike_mapCore t fun _ _ hi => .inl hi)))
  · exact leads_pure hm

private theorem keeps_completeAll : Keeps P (completeAll b) := fun m hm => leads_get (by
  split
  · exact hP.keeps_completionSteps _ _ m hm
  · exact hP.keeps_log _ _ _ m hm)

private theorem keeps_handleCompletion (t : TaskId) : Keeps P (handleCompletion t b) :=
  (hP.keeps_mask t).bind fun saved => hP.keeps_completeAll.bind fun _ => hP.keeps_putBack t saved

private theorem keeps_addToMutex (mutex : Nat) : Keeps P (addToMutex mutex) := fun m hm => leads_get (by
  split
  · exact leads_pure hm
  · exact leads_set (leads_pure (hP.alike m _ hm { Machine.Alike.refl m with })))

private theorem keeps_probeMutex (t : TaskId) (mutex : Nat) : Keeps P (probeMutex t mutex) :=
  (hP.keeps_mask t).bind fun saved => (hP.keeps_addToMutex mutex).bind fun _ =>
    (hP.keeps_putBack t saved).bind fun _ => keeps_pure _

private theorem leads_handler {m : Machine} (hm : P m) (t : TaskId) {i : Interrupt} (hi : m.Concerns b i) :
    Leads (handler t i) m fun _ => P := by
  cases i with
  | completion number =>
    apply leads_get
    cases hb : m.bayOf? number with
    | some b' =>
      cases hi number b' rfl hb
      exact hP.keeps_handleCompletion t m hm
    | none => exact hP.keeps_log _ _ _ m hm
  | probe name mutex =>
    have hemit : ∀ value, Keeps P (do
        let m ← get
        Run.emit (.probe name t (m.task t).core.enabled value)) := fun value m hm =>
      leads_get (hP.keeps_emit _ m hm)
    cases mutex with
    | some i => exact (hP.keeps_probeMutex t i m hm).bind fun _ m' hm' => hemit _ m' hm'
    | none => exact hemit none m hm

/-- Whatever a handler does on its core, the condition holds when it has returned. -/
theorem leads_handle {m : Machine} (hm : P m) (t : TaskId) {i : Interrupt} (hi : m.Concerns b i) :
    Leads (handle t i) m fun _ => P := by
  have hmasked := Machine.alike_mapCore (m := m) (b := b) t (f := Core.disable) fun _ _ hj => .inl hj
  refine leads_modify ((hP.leads_handler (hP.alike m _ hm hmasked) t (hmasked.concerns.2 hi)).bind ?_)
  exact fun _ m' hm' => hP.keeps_mapCore t (f := Core.enable) (fun _ _ hj => hj) m' hm'

private theorem keeps_deliver (t : TaskId) (n : Nat) : Keeps P (deliver t n) := by
  induction n with
  | zero => exact keeps_pure _
  | succ n ih =>
    intro m hm
    apply leads_get
    cases hpending : (m.task t).core.pending with
    | nil => exact leads_pure hm
    | cons i rest =>
      have hi : m.Concerns b i := hP.heard m hm t i (by rw [hpending]; exact List.mem_cons_self ..)
      have hdropped := Machine.alike_mapCore (m := m) (b := b) t (f := Core.dropPending)
        fun _ _ hj => .inl (List.mem_of_mem_tail hj)
      refine leads_modify ((hP.leads_handle (hP.alike m _ hm hdropped) t
        (hdropped.concerns.2 hi)).bind ?_)
      exact fun _ m' hm' => ih m' hm'

/-- A condition that no handler breaks holds after the flag has gone on and all the kept interrupts
have been delivered. -/
theorem keeps_restore (t : TaskId) (saved : Bool) : Keeps P (restore t saved) := by
  intro m hm
  rw [restore]
  cases saved with
  | false => exact leads_pure hm
  | true =>
    rw [if_pos rfl]
    refine leads_modify (leads_get (hP.keeps_deliver t _ _ (hP.alike m _ hm ?_)))
    exact (Machine.alike_emit _).trans (Machine.alike_mapCore t fun _ _ hi => .inl hi)

theorem leads_raise {m : Machine} (hm : P m) (t : TaskId) {i : Interrupt} (hi : m.Concerns b i) :
    Leads (raise t i) m fun _ => P := by
  apply leads_get
  split
  · exact hP.leads_handle hm t hi
  · refine leads_change (hP.alike m _ hm (Machine.alike_mapCore t fun c j hj => ?_))
    rcases List.mem_append.1 hj with hj | hj
    · exact .inl hj
    · cases List.mem_singleton.1 hj
      exact .inr hi

end Robust

end DiskStack
