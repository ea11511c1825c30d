import DiskStack.Machine.Interrupt

/-!
# What a drive's users see of a machine

The view of a drive leaves out the journal, the wait queue, the interrupt flags and everything that
belongs to other drives. On a steady machine, where no interrupt is kept for later and the
controller does not interrupt by itself, masking, logging and waking leave the view alone.
-/

namespace DiskStack

theorem DriveState.ready_of_isReady {d : DriveState} (h : d.isReady = true) : ∃ s, d = .ready s := by
  cases d with
  | ready s => exact ⟨s, rfl⟩
  | uninitialized | incompatible => cases h

/-- What the tasks and the completion handler of one drive work on. -/
structure View where
  config : DriveConfig
  state : DriveState
  scratch : SleepLock Bytes
  controller : Controller
  requests : RequestTable
  nextRequest : RequestId
  arena : Arena
  activity : TaskId → Activity

def View.act (v : View) (t : TaskId) (a : Activity) : View :=
  { v with activity := fun u => if u = t then a else v.activity u }

namespace View

variable {v : View} {t u : TaskId}

theorem act_of_ne (a : Activity) (h : u ≠ t) : (v.act t a).activity u = v.activity u := by
  simp only [View.act, if_neg h]

theorem act_self (a : Activity) : (v.act t a).activity t = a := by
  simp only [View.act, if_true]

theorem act_act (a a' : Activity) : (v.act t a).act t a' = v.act t a' := by
  simp only [View.act]
  congr
  funext u
  split <;> rfl

end View

namespace Machine

def view (m : Machine) (b : BayId) : View where
  config := (m.bay b).drive.config
  state := (m.bay b).drive.state
  scratch := (m.bay b).drive.scratch
  controller := (m.bay b).controller
  requests := m.requests
  nextRequest := m.nextRequest
  arena := m.arena
  activity t := (m.task t).activity

/-- No interrupt comes out of the machine's own steps: none is kept, and the controller raises none
on the core that notifies it. -/
structure Steady (m : Machine) (b : BayId) : Prop where
  present : b < m.bays.size
  quiet : ∀ t, (m.task t).core.pending = []
  separate : (m.bay b).controller.mode ≠ .sameCore

variable {m : Machine} {b : BayId}

theorem bay_mapBay (hb : b < m.bays.size) (f : Bay → Bay) : (m.mapBay b f).bay b = f (m.bay b) := by
  simp [bay, mapBay, hb, Array.getElem_modify]

theorem bay_mapBay_of_ne {k : BayId} (hk : k ≠ b) (f : Bay → Bay) :
    (m.mapBay b f).bay k = m.bay k := by
  simp [bay, mapBay, Array.getElem?_modify, hk.symm]

theorem mapBay_of_le (hb : m.bays.size ≤ b) (f : Bay → Bay) : m.mapBay b f = m := by
  have hbays : m.bays.modify b f = m.bays := by
    ext i hi hi'
    · simp
    · rw [Array.getElem_modify, if_neg (Nat.ne_of_gt (Nat.lt_of_lt_of_le hi' hb))]
  rw [mapBay, hbays]

theorem bay_mapDrive (hb : b < m.bays.size) (f : Drive → Drive) :
    (m.mapDrive b f).bay b = { m.bay b with drive := f (m.bay b).drive } := bay_mapBay hb _

theorem bay_mapController (hb : b < m.bays.size) (f : Controller → Controller) :
    (m.mapController b f).bay b = { m.bay b with controller := f (m.bay b).controller } :=
  bay_mapBay hb _

theorem bay_putShared (hb : b < m.bays.size) (s : ReadyState) (c : Controller)
    (shared : SharedMemory) :
    (m.putShared b s c shared).bay b =
      { m.bay b with controller := c, drive.state := .ready { s with rings := shared.rings } } :=
  bay_mapBay hb _

@[simp] theorem size_bays_mapBay (f : Bay → Bay) : (m.mapBay b f).bays.size = m.bays.size := by
  simp [mapBay]

theorem mapBay_mapBay (f g : Bay → Bay) : (m.mapBay b f).mapBay b g = m.mapBay b (g ∘ f) := by
  have hbays : (m.bays.modify b f).modify b g = m.bays.modify b (g ∘ f) := by
    ext i hi hi'
    · simp
    · simp only [Array.getElem_modify]
      split <;> rfl
  simp only [mapBay, hbays]

theorem view_mapBay (hb : b < m.bays.size) (f : Bay → Bay) :
    (m.mapBay b f).view b =
      { m.view b with
        config := (f (m.bay b)).drive.config
        state := (f (m.bay b)).drive.state
        scratch := (f (m.bay b)).drive.scratch
        controller := (f (m.bay b)).controller } := by
  simp only [Machine.view, bay_mapBay hb]
  rfl

theorem task_mapTask (t u : TaskId) (f : Task → Task) :
    (m.mapTask t f).task u = if t = u ∧ u < m.tasks.size then f (m.task u) else m.task u := by
  simp only [task, mapTask, Array.getD_eq_getD_getElem?, Array.getElem?_modify]
  by_cases h : t = u
  · subst h
    by_cases hlt : t < m.tasks.size <;> simp [hlt]
  · simp [h]

theorem mapTask_mapTask (t : TaskId) (f g : Task → Task) :
    (m.mapTask t f).mapTask t g = m.mapTask t (g ∘ f) := by
  have htasks : (m.tasks.modify t f).modify t g = m.tasks.modify t (g ∘ f) := by
    ext i hi hi'
    · simp
    · simp only [Array.getElem_modify]
      split <;> rfl
  simp only [mapTask, htasks]

theorem mapTask_eq_self {t : TaskId} {f : Task → Task} (h : f (m.task t) = m.task t) :
    m.mapTask t f = m := by
  have htasks : m.tasks.modify t f = m.tasks := by
    ext i hi hi'
    · simp
    · rw [Array.getElem_modify]
      split
      · next hti =>
        subst hti
        have htask : m.task t = m.tasks[t] := (Array.getElem_eq_getD default).symm
        rwa [htask] at h
      · rfl
  rw [mapTask, htasks]

theorem task_setActivity {t : TaskId} (ht : t < m.tasks.size) (a : Activity) (u : TaskId) :
    (m.setActivity t a).task u = if u = t then { m.task u with activity := a } else m.task u := by
  rw [Machine.setActivity, task_mapTask]
  by_cases h : u = t
  · subst h
    rw [if_pos ⟨rfl, ht⟩, if_pos rfl]
  · rw [if_neg fun hc => h hc.1.symm, if_neg h]

theorem view_setActivity {t : TaskId} (ht : t < m.tasks.size) (a : Activity) :
    (m.setActivity t a).view b = (m.view b).act t a := by
  have hactivity : (fun u => ((m.setActivity t a).task u).activity) =
      fun u => if u = t then a else (m.task u).activity := funext fun u => by
    rw [task_setActivity ht]
    split <;> rfl
  simp only [Machine.view, View.act]
  rw [hactivity]
  rfl

theorem lt_of_activity {t : TaskId} (h : (m.task t).activity ≠ .idle) : t < m.tasks.size := by
  rcases Nat.lt_or_ge t m.tasks.size with hlt | hge
  · exact hlt
  · exact absurd (by simp [task, Array.getElem?_eq_none hge, default]) h

theorem lt_of_ready {s : ReadyState} (h : (m.bay b).drive.state = .ready s) : b < m.bays.size := by
  rcases Nat.lt_or_ge b m.bays.size with hlt | hge
  · exact hlt
  · rw [bay, Array.getD_eq_getD_getElem?, Array.getElem?_eq_none hge] at h
    cases h

theorem of_shared? {s : ReadyState} {shared : SharedMemory} (h : m.shared? b = some (s, shared)) :
    (m.bay b).drive.state = .ready s ∧ shared = ⟨s.rings, m.requests⟩ := by
  rw [shared?] at h
  split at h
  · next hs =>
    split at h
    · cases h
      exact ⟨hs, rfl⟩
    · cases h
  · cases h

structure Shows (m : Machine) (b : BayId) (v : View) : Prop where
  steady : m.Steady b
  view : m.view b = v

variable {v : View}

theorem Steady.shows (hm : m.Steady b) : m.Shows b (m.view b) := ⟨hm, rfl⟩

theorem Shows.emit (hm : m.Shows b v) (e : Event) : (m.emit e).Shows b v :=
  ⟨⟨hm.steady.present, hm.steady.quiet, hm.steady.separate⟩, hm.view⟩

private theorem Shows.log (hm : m.Shows b v) (level : LogLevel) (source text : String) :
    (m.log level source text).Shows b v := by
  rw [Machine.log]
  split
  · exact ⟨⟨hm.steady.present, hm.steady.quiet, hm.steady.separate⟩, hm.view⟩
  · exact hm

private theorem Shows.wake (hm : m.Shows b v) (c : Channel) : (m.wake c).Shows b v :=
  ⟨⟨hm.steady.present, hm.steady.quiet, hm.steady.separate⟩, hm.view⟩

private theorem Shows.prepare (hm : m.Shows b v) (t : TaskId) (c : Channel) :
    (m.prepare t c).Shows b v :=
  ⟨⟨hm.steady.present, hm.steady.quiet, hm.steady.separate⟩, hm.view⟩

theorem Shows.requests (hm : m.Shows b v) (r : RequestTable) :
    { m with requests := r }.Shows b { v with requests := r } :=
  ⟨⟨hm.steady.present, hm.steady.quiet, hm.steady.separate⟩, by rw [← hm.view]; rfl⟩

theorem Shows.arena (hm : m.Shows b v) (a : Arena) :
    { m with arena := a }.Shows b { v with arena := a } :=
  ⟨⟨hm.steady.present, hm.steady.quiet, hm.steady.separate⟩, by rw [← hm.view]; rfl⟩

private theorem Shows.mapBay (hm : m.Shows b v) (f : Bay → Bay)
    (hmode : (f (m.bay b)).controller.mode ≠ .sameCore) :
    (m.mapBay b f).Shows b
      { v with
        config := (f (m.bay b)).drive.config
        state := (f (m.bay b)).drive.state
        scratch := (f (m.bay b)).drive.scratch
        controller := (f (m.bay b)).controller } := by
  refine ⟨⟨by rw [size_bays_mapBay]; exact hm.steady.present, hm.steady.quiet, ?_⟩, ?_⟩
  · rw [bay_mapBay hm.steady.present f]
    exact hmode
  · rw [← hm.view]
    exact view_mapBay hm.steady.present f

theorem Shows.setState (hm : m.Shows b v) (s : DriveState) :
    (m.mapDrive b fun d => { d with state := s }).Shows b { v with state := s } := by
  have hbay := hm.mapBay (fun bay => { bay with drive := { bay.drive with state := s } })
    hm.steady.separate
  rw [← hm.view] at hbay ⊢
  exact hbay

theorem Shows.setStats (hm : m.Shows b v) (f : DriveStats → DriveStats) :
    (m.mapDrive b fun d => { d with stats := f d.stats }).Shows b v := by
  have hbay := hm.mapBay (fun bay => { bay with drive := { bay.drive with stats := f bay.drive.stats } })
    hm.steady.separate
  rw [← hm.view] at hbay ⊢
  exact hbay

theorem Shows.setScratch (hm : m.Shows b v) (l : SleepLock Bytes) :
    (m.mapDrive b fun d => { d with scratch := l }).Shows b { v with scratch := l } := by
  have hbay := hm.mapBay (fun bay => { bay with drive := { bay.drive with scratch := l } })
    hm.steady.separate
  rw [← hm.view] at hbay ⊢
  exact hbay

theorem Shows.setController (hm : m.Shows b v) {f : Controller → Controller}
    (hmode : (f v.controller).mode = v.controller.mode) :
    (m.mapController b f).Shows b { v with controller := f v.controller } := by
  have hcontroller : (m.bay b).controller = v.controller := by rw [← hm.view]; rfl
  have hbay := hm.mapBay (fun bay => { bay with controller := f bay.controller }) (by
    have hseparate := hm.steady.separate
    rw [hcontroller] at hseparate
    change (f (m.bay b).controller).mode ≠ .sameCore
    rw [hcontroller, hmode]
    exact hseparate)
  rw [← hm.view] at hbay ⊢
  exact hbay

/-- What a controller does to itself and to the shared memory shows, and nothing else. -/
theorem Shows.putShared (hm : m.Shows b v) (s : ReadyState) (shared : SharedMemory) {c : Controller}
    (hmode : c.mode = v.controller.mode) :
    (m.putShared b s c shared).Shows b
      { v with
        state := .ready { s with rings := shared.rings }
        controller := c
        requests := shared.requests } := by
  have hcontroller : (m.bay b).controller = v.controller := by rw [← hm.view]; rfl
  have hbay := (hm.mapBay (fun bay =>
    { bay with controller := c, drive.state := .ready { s with rings := shared.rings } }) (by
      change c.mode ≠ .sameCore
      rw [hmode, ← hcontroller]
      exact hm.steady.separate)).requests shared.requests
  rw [← hm.view] at hbay ⊢
  exact hbay

private theorem Shows.mapCore (hm : m.Shows b v) (t : TaskId) {f : Core Interrupt → Core Interrupt}
    (hf : ∀ c, (f c).pending = c.pending) : (m.mapCore t f).Shows b v := by
  have htask : ∀ u, ((m.mapCore t f).task u).core.pending = (m.task u).core.pending ∧
      ((m.mapCore t f).task u).activity = (m.task u).activity := fun u => by
    rw [Machine.mapCore, task_mapTask]
    split
    · exact ⟨hf _, rfl⟩
    · exact ⟨rfl, rfl⟩
  refine ⟨⟨hm.steady.present, fun u => by rw [(htask u).1, hm.steady.quiet], hm.steady.separate⟩, ?_⟩
  have hactivity : (fun u => ((m.mapCore t f).task u).activity) = fun u => (m.task u).activity :=
    funext fun u => (htask u).2
  rw [← hm.view]
  simp only [Machine.view]
  rw [hactivity]
  rfl

theorem Shows.setActivity (hm : m.Shows b v) {t : TaskId} (ht : t < m.tasks.size) (a : Activity) :
    (m.setActivity t a).Shows b (v.act t a) := by
  refine ⟨⟨hm.steady.present, fun u => ?_, hm.steady.separate⟩, ?_⟩
  · rw [task_setActivity ht]
    split
    · exact hm.steady.quiet u
    · exact hm.steady.quiet u
  · rw [← hm.view]
    exact view_setActivity ht a

end Machine

namespace Run

variable {α β : Type} {m : Machine} {b : BayId} {v : View} {Q : Except Halt β → Machine → Prop}

/-- What a run leads to from a machine, a halt or a value with the machine then reached. -/
def Ends (x : Run α) (m : Machine) (Q : Except Halt α → Machine → Prop) : Prop :=
  Q (x.run.run m).1 (x.run.run m).2

theorem Ends.mono {x : Run α} {P Q : Except Halt α → Machine → Prop} (h : Ends x m P)
    (hPQ : ∀ r m', P r m' → Q r m') : Ends x m Q := hPQ _ _ h

theorem ends_pure {a : β} (h : Q (.ok a) m) : Ends (pure a) m Q := h

theorem ends_throw {e : Halt} (h : Q (.error e) m) : Ends (throw e) m Q := h

theorem ends_get {f : Machine → Run β} (h : Ends (f m) m Q) : Ends (get >>= f) m Q := h

theorem ends_set {m' : Machine} {f : PUnit → Run β} (h : Ends (f ⟨⟩) m' Q) :
    Ends (set m' >>= f) m Q := h

theorem ends_modify {g : Machine → Machine} {f : PUnit → Run β} (h : Ends (f ⟨⟩) (g m) Q) :
    Ends (modify g >>= f) m Q := h

theorem ends_bind {x : Run α} {f : α → Run β}
    (h : Ends x m fun r m' =>
      match r with
      | .ok a => Ends (f a) m' Q
      | .error e => Q (.error e) m') : Ends (x >>= f) m Q := by
  have hrun : (x >>= f).run.run m =
      (ExceptT.bindCont f (x.run.run m).1 : StateM Machine _).run (x.run.run m).2 := rfl
  rw [Ends] at h ⊢
  rw [hrun]
  generalize x.run.run m = p at h ⊢
  rcases p with ⟨r, m'⟩
  cases r with
  | ok a => exact h
  | error e => exact h

/-- A run that always comes to an end and leaves the view alone. -/
def Hides (b : BayId) (x : Run α) : Prop :=
  ∀ (m : Machine) (v : View), m.Shows b v → Ends x m fun r m' => (∃ a, r = .ok a) ∧ m'.Shows b v

theorem Hides.bind {x : Run α} {f : α → Run β} (hx : Hides b x) (hm : m.Shows b v)
    (h : ∀ a m', m'.Shows b v → Ends (f a) m' Q) : Ends (x >>= f) m Q := by
  refine ends_bind ((hx m v hm).mono ?_)
  rintro r m' ⟨⟨a, rfl⟩, hidden⟩
  exact h a m' hidden

theorem hides_mask (t : TaskId) : Hides b (mask t) := by
  intro m v hm
  apply ends_get
  by_cases hc : m.interruptControl
  · rw [if_pos hc]
    exact ends_set (ends_pure ⟨⟨_, rfl⟩, (hm.emit (.mask t)).mapCore t fun _ => rfl⟩)
  · rw [if_neg hc]
    exact ends_pure ⟨⟨_, rfl⟩, hm⟩

theorem hides_restore (t : TaskId) (saved : Bool) : Hides b (restore t saved) := by
  intro m v hm
  rw [restore]
  cases saved with
  | false => exact ends_pure ⟨⟨_, rfl⟩, hm⟩
  | true =>
    rw [if_pos rfl]
    refine ends_modify (ends_get ?_)
    have hidden := (hm.emit (.unmask t)).mapCore t (f := Core.enable) fun _ => rfl
    rw [hidden.steady.quiet]
    exact ends_pure ⟨⟨_, rfl⟩, hidden⟩

theorem hides_log (level : LogLevel) (source text : String) : Hides b (log level source text) :=
  fun _ _ hm => ⟨⟨_, rfl⟩, hm.log level source text⟩

theorem hides_emit (e : Event) : Hides b (emit e) := fun _ _ hm => ⟨⟨_, rfl⟩, hm.emit e⟩

theorem hides_wake (c : Channel) : Hides b (wake c) := fun _ _ hm => ⟨⟨_, rfl⟩, hm.wake c⟩

theorem hides_prepare (t : TaskId) (c : Channel) : Hides b (modify (·.prepare t c)) :=
  fun _ _ hm => ⟨⟨_, rfl⟩, hm.prepare t c⟩

end Run

end DiskStack
