import DiskStack.Proofs.Orderly

/-!
# Runs in order

Each step of a run is a turn: it changes the view of the drive in one of the known ways and leaves the
machine steady. So a scene that is in order stays so, whatever the schedule, as long as the
controller writes no more than it may.
-/

namespace DiskStack

namespace Scene

variable {γ : Type}

/-- A scene whose machine is steady and whose view is in order. -/
structure InOrder (s : Scene) (b : BayId) : Prop where
  steady : s.machine.Steady b
  orderly : (s.machine.view b).Orderly b

inductive Turn (w : Setting γ) (s s' : Scene) (v v' : View) : List (Incident γ) → Prop
  | call (t : TaskId) (c : γ) (h : v.activity t = .idle)
    (hv : v' = v.act t (.running (w.program c))) (hh : s'.handler = s.handler)
    (hu : s'.unreported = s.unreported) : Turn w s s' v v' [.call t c]
  | advance (t : TaskId) (arena : Arena) (ha : w.admits s.machine arena)
    (h : { v with arena }.Advances w.bay t v') (hh : s'.handler = s.handler)
    (hu : s'.unreported = s.unreported) :
    Turn w s s' v v' (if s.machine.tookScratch s'.machine w.bay t then [.scratch t] else [])
  | rouse (t : TaskId) (p : Program Reply) (h : v.activity t = .asleep p)
    (hv : v' = v.act t (.running p)) (hh : s'.handler = s.handler)
    (hu : s'.unreported = s.unreported) : Turn w s s' v v' []
  | reply (t : TaskId) (r : Reply) (h : v.activity t = .running (.done r))
    (hv : v' = v.act t .idle) (hh : s'.handler = s.handler)
    (hu : s'.unreported = s.unreported) : Turn w s s' v v' [.reply t r]
  | bringUp (h : v.Starts v') (hh : s'.handler = s.handler) (hu : s'.unreported = s.unreported) :
    Turn w s s' v v' []
  | enter (hv : v' = v) (hh : s.handler = none) (hh' : s'.handler = some .reading)
    (hu : s'.unreported = s.unreported) : Turn w s s' v v' []
  | handle (point next : Run.CompletionPoint) (h : v.Handles point next v')
    (hh : s.handler = some point) (hh' : s'.handler = some next)
    (hu : s'.unreported = s.unreported) : Turn w s s' v v' []
  | leave (hv : v' = v) (hh : s.handler = some .finished) (hh' : s'.handler = none)
    (hu : s'.unreported = s.unreported) : Turn w s s' v v' []
  | device (heads : List UInt16) (l : List (Incident γ)) (hl : Shown s.machine w.bay heads l)
    (h : w.device s heads s') : Turn w s s' v v' l

/-! A task is seen to call in its own calls only. -/

theorem call_not_mem_call {t u : TaskId} {c c' : γ} (h : t ≠ u) :
    Incident.call t c ∉ [Incident.call u c'] := fun hc => by
  cases List.mem_singleton.1 hc
  exact h rfl

theorem call_not_mem_reply {t u : TaskId} {c : γ} {r : Reply} :
    Incident.call t c ∉ [Incident.reply u r] := fun hc => by
  cases List.mem_singleton.1 hc

theorem call_not_mem_scratch {t u : TaskId} {c : γ} {took : Bool} :
    Incident.call t c ∉ (if took then [Incident.scratch u] else []) := fun hc => by
  split at hc
  · cases List.mem_singleton.1 hc
  · cases hc

theorem call_not_mem_shown {t : TaskId} {c : γ} {m : Machine} {b : BayId} {heads : List UInt16}
    {l : List (Incident γ)} (hl : Shown m b heads l) : Incident.call t c ∉ l := fun hc => by
  obtain ⟨u, hu⟩ := hl.execute _ hc
  cases hu

variable {w : Setting γ} {s s' : Scene} {l : List (Incident γ)}

/-- Every step is a turn, and unless the controller takes it the machine stays steady. -/
theorem Step.turn (hs : s.InOrder w.bay) (h : Step w s l s') :
    Turn w s s' (s.machine.view w.bay) (s'.machine.view w.bay) l ∧
      ((∃ heads, w.device s heads s') ∨ s'.machine.Steady w.bay) := by
  have hshows := hs.steady.shows
  cases h with
  | call t c ht h =>
    have hset := hshows.setActivity ht (.running (w.program c))
    exact ⟨.call t c h hset.view rfl rfl, .inr hset.steady⟩
  | advance t arena m ha hl h =>
    have hin := hshows.arena arena
    have horder := hs.orderly.setArena arena
    have hends := Run.ends_advance (t := t) hin fun p hp => horder.running hp
    rw [Run.Ends, h] at hends
    obtain ⟨v', hadv, hm⟩ := hends
    refine ⟨.advance t arena ha ?_ rfl rfl, .inr hm.steady⟩
    rw [hm.view]
    exact hadv
  | rouse t p waiting runnable h =>
    have ht : t < s.machine.tasks.size := Machine.lt_of_activity (by rw [h]; exact Activity.noConfusion)
    have hset := hshows.setActivity ht (.running p)
    have hsteady : Machine.Steady { s.machine.setActivity t (.running p) with waiting, runnable } w.bay :=
      ⟨hset.steady.present, hset.steady.quiet, hset.steady.separate⟩
    exact ⟨.rouse t p h hset.view rfl rfl, .inr hsteady⟩
  | reply t r h =>
    have ht : t < s.machine.tasks.size := Machine.lt_of_activity (by rw [h]; exact Activity.noConfusion)
    have hset := hshows.setActivity ht .idle
    exact ⟨.reply t r h hset.view rfl rfl, .inr hset.steady⟩
  | bringUp r m hl h =>
    have hends := Run.ends_bringUp hshows
    rw [Run.Ends, h] at hends
    obtain ⟨-, v', hstarts, hm⟩ := hends
    refine ⟨.bringUp ?_ rfl rfl, .inr hm.steady⟩
    rw [hm.view]
    exact hstarts
  | interrupt hl => exact ⟨.enter rfl hl rfl rfl, .inr hs.steady⟩
  | handle point next m hl h =>
    have hends := Run.ends_completionStep hshows point
    rw [Run.Ends, h] at hends
    obtain ⟨v', hhandles, hm⟩ := hends
    refine ⟨.handle point next ?_ hl rfl rfl, .inr hm.steady⟩
    rw [hm.view]
    exact hhandles
  | leave hl => exact ⟨.leave rfl hl rfl rfl, .inr hs.steady⟩
  | device heads l s' hl h => exact ⟨.device heads _ hl h, .inl ⟨heads, h⟩⟩

/-- A step keeps a scene in order, if calls start asking programs and the controller keeps to what it
may write. -/
theorem InOrder.step (hs : s.InOrder w.bay) (hasks : ∀ c, (w.program c).Asks w.bay)
    (hdevice : ∀ heads, w.device s heads s' → s'.InOrder w.bay) (h : Step w s l s') :
    s'.InOrder w.bay := by
  obtain ⟨turn, hor⟩ := h.turn hs
  rcases hor with ⟨heads, hd⟩ | hsteady
  · exact hdevice heads hd
  refine ⟨hsteady, ?_⟩
  have ho := hs.orderly
  cases turn with
  | call t c hidle hv =>
    rw [hv]
    apply ho.act t _
    · intro p hp
      cases hp
      exact .asks _ (hasks c)
    · rw [View.stage, hidle]
      exact (hasks c).stage?
  | advance t arena ha hadv =>
    exact (ho.setArena arena).advances hadv
  | rouse t p hasleep hv =>
    have hprogram : ((s.machine.view w.bay).activity t).program? = some p := by rw [hasleep]; rfl
    rw [hv]
    exact ho.goOn hprogram rfl (ho.underway t p hprogram) rfl
  | reply t r hdone hv =>
    rw [hv]
    apply ho.act t _ (fun p hp => by cases hp)
    rw [View.stage, hdone]
    rfl
  | bringUp hstarts => exact ho.starts hstarts
  | enter hv | leave hv =>
    rw [hv]
    exact ho
  | handle point next hhandles => exact ho.handles hhandles
  | device heads _ hl hd => exact (hdevice heads hd).orderly

/-! ### Runs that exist -/

theorem InOrder.exists_advance (hs : s.InOrder w.bay) (hidle : s.handler = none) {t : TaskId}
    (hgoes : ∀ e, (s.machine.view w.bay).activity t ≠ .running (.halt e)) {arena : Arena}
    (hadmits : w.admits s.machine arena) :
    ∃ m v', Step w s (if s.machine.tookScratch m w.bay t then [.scratch t] else [])
        { s with machine := m } ∧
      { s.machine.view w.bay with arena }.Advances w.bay t v' ∧ m.Shows w.bay v' := by
  have horder := hs.orderly.setArena arena
  have hends := Run.ends_advance (t := t) (hs.steady.shows.arena arena) fun p hp => horder.running hp
  rw [Run.Ends] at hends
  generalize hr : (Run.advance t).run.run { s.machine with arena } = r at hends
  obtain ⟨r, m⟩ := r
  cases r with
  | error e =>
    obtain ⟨p, hp, hhalts⟩ := hends
    obtain ⟨e, rfl⟩ := horder.halts hhalts
    exact absurd hp (hgoes e)
  | ok _ =>
    obtain ⟨v', hadv, hm⟩ := hends
    exact ⟨m, v', .advance t arena m hadmits (.inl hidle) hr, hadv, hm⟩

theorem InOrder.exists_step (hs : s.InOrder w.bay) (hidle : s.handler = none) {t : TaskId}
    {p : Program Reply} (hact : (s.machine.view w.bay).activity t = .running p)
    (hgoes : ∀ e, p ≠ .halt e) {arena : Arena} (hadmits : w.admits s.machine arena) :
    ∃ m a v', Step w s (if s.machine.tookScratch m w.bay t then [.scratch t] else [])
        { s with machine := m } ∧
      { s.machine.view w.bay with arena }.Does w.bay t p a v' ∧ m.Shows w.bay (v'.act t a) := by
  obtain ⟨m, v', hstep, hadv, hm⟩ := hs.exists_advance hidle (t := t) (fun e he => by
    cases hact.symm.trans he
    exact hgoes e rfl) hadmits
  cases hadv with
  | rest h => exact absurd hact (h p).1
  | sleep p' h | stayUp p' h => cases hact.symm.trans h
  | run p' a v₁ h does =>
    cases hact.symm.trans h
    exact ⟨m, a, v₁, hstep, does, hm⟩

end Scene

end DiskStack
