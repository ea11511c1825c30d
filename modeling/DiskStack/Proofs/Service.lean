import DiskStack.Proofs.Device
import DiskStack.Proofs.Replay

/-!
# Runs of a drive that is served

In a served run the controller does what the chains ask of it, and every buffer is memory of its own.
Step by step such a run is a run of an atomic drive, with the same calls, executions and replies.
-/

namespace DiskStack

namespace Scene

/-- A controller that does what the chains ask of it. It takes them in the order of the ring, and
carries out and reports those it has taken in any order. -/
inductive Serves (b : BayId) (s : Scene) : List UInt16 → Scene → Prop
  | take (st : ReadyState) (hst : (s.machine.bay b).drive.state = .ready st)
    (hmore : (s.machine.bay b).controller.lastAvail ≠ st.rings.queue.avail.index) :
    Serves b s []
      { s with
        machine := s.machine.mapController b fun c =>
          { c with
            held := c.held ++
              [SharedMemory.offered ⟨st.rings, s.machine.requests⟩ c.queueSize c.lastAvail]
            lastAvail := c.lastAvail + 1 } }
  | execute (st : ReadyState) (head : UInt16) (c : Controller) (shared : SharedMemory)
    (hst : (s.machine.bay b).drive.state = .ready st)
    (hheld : head ∈ (s.machine.bay b).controller.held)
    (h : Controller.carryOut
      { (s.machine.bay b).controller with held := (s.machine.bay b).controller.held.erase head }
      ⟨st.rings, s.machine.requests⟩ head = (c, shared)) :
    Serves b s [head]
      { s with machine := s.machine.putShared b st c shared, unreported := head :: s.unreported }
  | report (st : ReadyState) (head : UInt16) (length : UInt32) (c : Controller)
    (shared : SharedMemory) (hst : (s.machine.bay b).drive.state = .ready st)
    (hdone : head ∈ s.unreported)
    (h : (s.machine.bay b).controller.inject ⟨st.rings, s.machine.requests⟩
      ⟨head.toUInt32, length⟩ = (c, shared)) :
    Serves b s []
      { s with machine := s.machine.putShared b st c shared, unreported := s.unreported.erase head }

def served {γ : Type} (b : BayId) (program : γ → Program Reply) : Setting γ where
  bay := b
  program
  admits m arena := (m.view b).Spares arena
  device := Serves b

/-- A step of a controller that serves a drive. -/
inductive Service
  | take
  | execute (head : UInt16)
  | report (head : UInt16) (length : UInt32)

/-- A player for drives that are served, while the memory of the machine is not in use for anything else. -/
def server {γ : Type} (b : BayId) (program : γ → Program Reply) : Player (served b program) Service where
  admits m := (m.bay b).drive.state.ready?.all fun st =>
    decide (st.rings.Misses (m.arena.reserve 0).1) &&
      m.requests.entries.all fun e => e.2.address != (m.arena.reserve 0).1
  device s
    | .take => do
      let st ← (s.machine.bay b).drive.state.ready?
      if (s.machine.bay b).controller.lastAvail ≠ st.rings.queue.avail.index then
        some ([], { s with
          machine := s.machine.mapController b fun c =>
            { c with
              held := c.held ++
                [SharedMemory.offered ⟨st.rings, s.machine.requests⟩ c.queueSize c.lastAvail]
              lastAvail := c.lastAvail + 1 } })
      else none
    | .execute head => do
      let st ← (s.machine.bay b).drive.state.ready?
      if head ∈ (s.machine.bay b).controller.held then
        let c := (s.machine.bay b).controller
        let done := Controller.carryOut { c with held := c.held.erase head }
          ⟨st.rings, s.machine.requests⟩ head
        some ([head], { s with
          machine := s.machine.putShared b st done.1 done.2, unreported := head :: s.unreported })
      else none
    | .report head length => do
      let st ← (s.machine.bay b).drive.state.ready?
      if head ∈ s.unreported then
        let done := (s.machine.bay b).controller.inject ⟨st.rings, s.machine.requests⟩
          ⟨head.toUInt32, length⟩
        some ([], { s with
          machine := s.machine.putShared b st done.1 done.2, unreported := s.unreported.erase head })
      else none
  admits_sound m h := by
    intro st hst
    have hready : (m.bay b).drive.state.ready? = some st := by
      rw [show (m.bay b).drive.state = .ready st from hst]
      rfl
    rw [hready, Option.all_some, Bool.and_eq_true, decide_eq_true_eq, List.all_eq_true] at h
    exact ⟨h.1, fun id q hq => by simpa using h.2 _ (RequestTable.mem_of_find? hq)⟩
  device_sound s d heads s' h := by
    cases d with
    | take =>
      simp only [Option.bind_eq_bind, Option.bind_eq_some_iff] at h
      obtain ⟨st, hst, h⟩ := h
      split at h
      · next hmore =>
        cases h
        exact .take st (DriveState.ready_of_ready? hst) hmore
      · cases h
    | execute head =>
      simp only [Option.bind_eq_bind, Option.bind_eq_some_iff] at h
      obtain ⟨st, hst, h⟩ := h
      split at h
      · next hheld =>
        cases h
        exact .execute st head _ _ (DriveState.ready_of_ready? hst) hheld rfl
      · cases h
    | report head length =>
      simp only [Option.bind_eq_bind, Option.bind_eq_some_iff] at h
      obtain ⟨st, hst, h⟩ := h
      split at h
      · next hdone =>
        cases h
        exact .report st head length _ _ (DriveState.ready_of_ready? hst) hdone rfl
      · cases h

structure Attended (s : Scene) (b : BayId) (st : ReadyState) : Prop where
  steady : s.machine.Steady b
  serving : (s.machine.view b).Serving b st s.unreported s.handler

def atomic (s : Scene) (b : BayId) (st : ReadyState) : AtomicDrive := (s.machine.view b).atomic st

def parameters (s : Scene) (b : BayId) (st : ReadyState) : DriveParameters :=
  (s.machine.view b).parameters b st

variable {γ : Type} {b : BayId} {program : γ → Program Reply} {s s' : Scene} {st : ReadyState}
  {l : List (Incident γ)}

theorem Serves.still {heads : List UInt16} (h : Serves b s heads s') :
    (s'.machine.view b).activity = (s.machine.view b).activity ∧ s'.handler = s.handler := by
  cases h <;> exact ⟨rfl, rfl⟩

theorem Attended.inOrder (hs : s.Attended b st) : s.InOrder b := ⟨hs.steady, hs.serving.orderly⟩

/-- What is seen of one execution: that of the task whose submission published the chain. -/
private theorem Attended.shown (hs : s.Attended b st) {head : UInt16} {t : TaskId} {e : InFlight}
    (he : st.rings.entryAt head.toNat = some e)
    (ht : (s.machine.view b).stage t = some (.complete e.request e.ticket))
    (hl : Shown s.machine b [head] l) : l = [.execute t] := by
  have ho := hs.serving.orderly
  cases hl with
  | owned _ _ u l howns rest =>
    cases rest
    obtain ⟨st', e', next, hst', he', hprogram⟩ := howns
    cases hs.serving.ready.symm.trans hst'
    cases he.symm.trans he'
    have hu : (s.machine.view b).stage u = some (.complete e.request e.ticket) :=
      View.stage_eq (v := s.machine.view b) hprogram
    rw [ho.own u t _ _ hu ht rfl]
  | stray _ _ _ hnone _ =>
    obtain ⟨next, hprogram⟩ := ho.program_of_stage ht
    exact absurd ⟨st, e, next, hs.serving.ready, he, hprogram⟩ (hnone t)

theorem Attended.serves (program : γ → Program Reply) (hs : s.Attended b st) {heads : List UInt16}
    (h : Serves b s heads s') :
    ∃ st', s'.Attended b st' ∧ s'.parameters b st' = s.parameters b st ∧
      ∀ l, Shown s.machine b heads l →
        AtomicDrive.Step program (s.parameters b st) (s.atomic b st) l (s'.atomic b st') := by
  have hshows := hs.steady.shows
  cases h with
  | take st₁ hst hmore =>
    cases hs.serving.ready.symm.trans hst
    have hset := hshows.setController (f := fun c =>
      { c with
        held := c.held ++
          [SharedMemory.offered ⟨st.rings, s.machine.requests⟩ c.queueSize c.lastAvail]
        lastAvail := c.lastAvail + 1 }) rfl
    obtain ⟨hserving, hatomic⟩ := hs.serving.take hmore hset.view
    refine ⟨st, ⟨hset.steady, hserving⟩, by rw [parameters, hset.view]; rfl, fun l hl => ?_⟩
    cases hl
    simp only [atomic, hatomic]
    exact .still
  | execute st₁ head c shared hst hheld hcarry =>
    cases hs.serving.ready.symm.trans hst
    have hmode : c.mode = (s.machine.view b).controller.mode := by
      have hkept := Controller.mode_carryOut (c := { (s.machine.bay b).controller with
        held := (s.machine.bay b).controller.held.erase head }) ⟨st.rings, s.machine.requests⟩ head
      rw [hcarry] at hkept
      exact hkept
    have hset := hshows.putShared st shared hmode
    obtain ⟨hserving, t, e, he, ht, hstep⟩ := hs.serving.execute program hheld hcarry rfl
      hset.view
    refine ⟨_, ⟨hset.steady, hserving⟩, by rw [parameters, hset.view]; rfl, fun l hl => ?_⟩
    cases hs.shown he ht hl
    exact hstep
  | report st₁ head length c shared hst hdone hinject =>
    cases hs.serving.ready.symm.trans hst
    have hmode : c.mode = (s.machine.view b).controller.mode := by
      rw [Controller.inject, Prod.mk.injEq] at hinject
      rw [← hinject.1]
      rfl
    have hset := hshows.putShared st shared hmode
    obtain ⟨hserving, hatomic⟩ := hs.serving.report hdone hinject rfl hset.view
    refine ⟨_, ⟨hset.steady, hserving⟩, by rw [parameters, hset.view]; rfl, fun l hl => ?_⟩
    cases hl
    simp only [atomic, hatomic]
    exact .still

private theorem Attended.turn (hs : s.Attended b st) (hsteady : s'.machine.Steady b) {t : TaskId}
    {a : Activity} (hv : s'.machine.view b = (s.machine.view b).act t a)
    (hunder : ∀ p, a.program? = some p → p.Underway b)
    (hstage : a.program?.bind Program.stage? = (s.machine.view b).stage t)
    (hh : s'.handler = s.handler) (hu : s'.unreported = s.unreported) :
    s'.Attended b st ∧ s'.parameters b st = s.parameters b st := by
  refine ⟨⟨hsteady, ?_⟩, by rw [parameters, hv]; rfl⟩
  rw [hv, hh, hu]
  exact hs.serving.congr (hs.serving.orderly.act t a hunder hstage) rfl rfl rfl rfl

private theorem Attended.same (hs : s.Attended b st) (hsteady : s'.machine.Steady b)
    (hv : s'.machine.view b = s.machine.view b)
    (hh : s'.handler = some .taking → s.handler = some .taking)
    (hu : s'.unreported = s.unreported) :
    s'.Attended b st ∧ s'.parameters b st = s.parameters b st ∧
      AtomicDrive.Step program (s.parameters b st) (s.atomic b st) [] (s'.atomic b st) := by
  refine ⟨⟨hsteady, ?_⟩, by rw [parameters, hv]; rfl, ?_⟩
  · rw [hv, hu]
    exact hs.serving.setHandler hh
  · rw [atomic, atomic, hv]
    exact .still

theorem Attended.step (hs : s.Attended b st) (hasks : ∀ c, (program c).Asks b)
    (room : (s.parameters b st).config.queueSize.toNat ∣ 65536 ∨ (s.atomic b st).Alone (s.parameters b st))
    (h : Step (served b program) s l s') :
    ∃ st', s'.Attended b st' ∧ s'.parameters b st' = s.parameters b st ∧
      AtomicDrive.Step program (s.parameters b st) (s.atomic b st) l (s'.atomic b st') := by
  obtain ⟨turn, hor⟩ := h.turn hs.inOrder
  have hv := hs.serving
  have hsteady : s'.machine.Steady b := by
    rcases hor with ⟨heads, hd⟩ | hsteady
    · obtain ⟨st', hs', -⟩ := hs.serves program hd
      exact hs'.steady
    · exact hsteady
  replace turn : Turn (served b program) s s' (s.machine.view b) (s'.machine.view b) l := turn
  cases turn with
  | call t c hidle hview hh hu =>
    obtain ⟨hs', hparameters⟩ := hs.turn hsteady hview (fun p hp => by
      cases hp
      exact .asks _ (hasks c)) (by
      rw [View.stage, hidle]
      exact (hasks c).stage?) hh hu
    refine ⟨st, hs', hparameters, ?_⟩
    have hatomic : s'.atomic b st = (s.atomic b st).move t (.between (program c)) := by
      rw [atomic, hview]
      exact View.atomic_act_asks rfl (hasks c)
    rw [hatomic]
    exact .call t c (View.point_of_idle (by rw [hidle]; rfl))
  | advance t arena hspares hadv hh hu =>
    obtain ⟨st', hserving, hparameters, hstep⟩ := (hv.setArena arena).advances program hspares hadv room
    refine ⟨st', ⟨hsteady, ?_⟩, hparameters, hstep⟩
    rw [hh, hu]
    exact hserving
  | rouse t p hasleep hview hh hu =>
    have hprogram : ((s.machine.view b).activity t).program? = some p := by rw [hasleep]; rfl
    obtain ⟨hs', hparameters⟩ := hs.turn hsteady hview (fun p' hp => by
      cases hp
      exact hv.orderly.underway t p hprogram) (by
      rw [View.stage, hprogram]
      rfl) hh hu
    refine ⟨st, hs', hparameters, ?_⟩
    have hatomic : s'.atomic b st = s.atomic b st := by
      rw [atomic, hview]
      exact View.atomic_act_same hprogram.symm
    rw [hatomic]
    exact .still
  | reply t r hdone hview hh hu =>
    obtain ⟨hs', hparameters⟩ := hs.turn hsteady hview (fun p' hp => by cases hp) (by
      rw [View.stage, hdone]
      rfl) hh hu
    refine ⟨st, hs', hparameters, ?_⟩
    have hatomic : s'.atomic b st = (s.atomic b st).move t .idle := by
      rw [atomic, hview]
      exact View.atomic_act_idle rfl
    rw [hatomic]
    exact .reply t r (View.point_of_asks (b := b) (.done r) (by rw [hdone]; rfl))
  | bringUp hstarts hh hu =>
    have hview : s'.machine.view b = s.machine.view b := by
      generalize s'.machine.view b = v' at hstarts
      cases hstarts with
      | refused => rfl
      | invalid h | failed h | started h => cases hv.ready.symm.trans h
    exact ⟨st, hs.same hsteady hview (fun h => hh ▸ h) hu⟩
  | enter hview hh hh' hu =>
    exact ⟨st, hs.same hsteady hview (fun h => by rw [hh'] at h; cases h) hu⟩
  | handle point next hhandles hh hh' hu =>
    have hin : (s.machine.view b).Serving b st s.unreported (some point) := hh ▸ hv
    obtain ⟨st', hserving, hparameters, hatomic⟩ := hin.handles hhandles
    refine ⟨st', ⟨hsteady, ?_⟩, hparameters, ?_⟩
    · rw [hh', hu]
      exact hserving
    · rw [atomic, atomic, hatomic]
      exact .still
  | leave hview hh hh' hu =>
    exact ⟨st, hs.same hsteady hview (fun h => by rw [hh'] at h; cases h) hu⟩
  | device heads _ hl hd =>
    obtain ⟨st', hs', hparameters, hstep⟩ := hs.serves program hd
    exact ⟨st', hs', hparameters, hstep _ hl⟩

theorem Attended.run (hs : s.Attended b st) (hasks : ∀ c, (program c).Asks b)
    (power : (s.parameters b st).config.queueSize.toNat ∣ 65536) {trace : List (Incident γ)}
    (run : Run (served b program) s trace s') :
    ∃ st', s'.Attended b st' ∧ s'.parameters b st' = s.parameters b st ∧
      AtomicDrive.Run program (s.parameters b st) (s.atomic b st) trace (s'.atomic b st') := by
  generalize hk : s.parameters b st = k at power ⊢
  obtain ⟨_, hrun, st', hs', hparameters, rfl⟩ := run.simulated (AtomicDrive.Step program k)
    (fun s x => ∃ st', s.Attended b st' ∧ s.parameters b st' = k ∧ x = s.atomic b st')
    ⟨st, hs, hk, rfl⟩ fun u l u' x hx step => by
      obtain ⟨st₁, hs₁, rfl, rfl⟩ := hx
      obtain ⟨st₂, hs₂, hparameters₂, hstep⟩ := hs₁.step hasks (.inl power) step
      exact ⟨u'.atomic b st₂, hstep, st₂, hs₂, hparameters₂, rfl⟩
  exact ⟨st', hs', hparameters, hrun⟩

/-! ### Steps that do not halt -/

theorem Attended.halts (hs : s.Attended b st) {t : TaskId} {arena : Arena} {e : Halt} {m : Machine}
    (h : (DiskStack.Run.advance t).run.run { s.machine with arena } = (.error e, m)) :
    ∃ e', (s.atomic b st).point t = .between (.halt e') := by
  have hin := hs.steady.shows.arena arena
  have horder := hs.serving.orderly.setArena arena
  have hends := DiskStack.Run.ends_advance (t := t) hin fun p hp => horder.running hp
  rw [DiskStack.Run.Ends, h] at hends
  obtain ⟨p, hp, hhalts⟩ := hends
  obtain ⟨e', rfl⟩ := horder.halts hhalts
  exact ⟨e', View.point_of_asks (b := b) (.halt e') (congrArg Activity.program? hp)⟩

theorem Attended.handler_ok (hs : s.Attended b st) {point : DiskStack.Run.CompletionPoint}
    (hpoint : s.handler = some point) :
    ∃ next m, (DiskStack.Run.completionStep b point).run.run s.machine = (.ok next, m) := by
  have hends := DiskStack.Run.ends_completionStep hs.steady.shows point
  rw [DiskStack.Run.Ends] at hends
  generalize (DiskStack.Run.completionStep b point).run.run s.machine = r at hends ⊢
  obtain ⟨r, m⟩ := r
  cases r with
  | ok next => exact ⟨next, m, rfl⟩
  | error e =>
    obtain ⟨rfl, hhalts⟩ := hends
    have hin : (s.machine.view b).Serving b st s.unreported (some .taking) := hpoint ▸ hs.serving
    exact absurd hhalts hin.not_takeHalts

end Scene

end DiskStack
