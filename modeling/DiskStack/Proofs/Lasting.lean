import DiskStack.Proofs.MachineSteps

/-!
# What lasts once a drive is ready

A drive that is ready stays so, with the configuration that it was registered with and with the capacity
and the protection that its controller told when it was brought up. Requests come and go, its controller
may do anything to the memory that they share, and bringing it up again is refused.
-/

namespace DiskStack

open Run (Within Leads Calms leads_get leads_set leads_modify leads_change leads_pure leads_throw within_get
  within_modify)

/-- What is settled when a drive gets ready. -/
structure Settlement where
  config : DriveConfig
  capacity : UInt64
  readOnly : Bool

def Bay.settlement? (y : Bay) : Option Settlement :=
  y.drive.state.ready?.map fun s => ⟨y.drive.config, s.capacity, s.readOnly⟩

theorem Bay.settlement?_of_ready {y : Bay} {s : ReadyState} (h : y.drive.state = .ready s) :
    y.settlement? = some ⟨y.drive.config, s.capacity, s.readOnly⟩ := by
  rw [settlement?, h]
  rfl

private theorem Bay.ready_of_settlement? {y : Bay} {x : Settlement} (h : y.settlement? = some x) :
    ∃ s, y.drive.state = .ready s ∧ x = ⟨y.drive.config, s.capacity, s.readOnly⟩ := by
  obtain ⟨s, hs, hx⟩ := Option.map_eq_some_iff.1 h
  cases hstate : y.drive.state with
  | ready s' =>
    rw [hstate] at hs
    cases hs
    exact ⟨s, rfl, hx.symm⟩
  | uninitialized | incompatible =>
    rw [hstate] at hs
    cases hs

private theorem ReadyState.of_publish? {s s' : ReadyState} {id : RequestId} {write : Bool}
    {sector length : Nat}
    {address : UInt64} {submission : Submission} {chain : Chain}
    (h : s.publish? id write sector address length = .ok (some (submission, chain, s'))) :
    s'.capacity = s.capacity ∧ s'.readOnly = s.readOnly := by
  obtain ⟨r, -, h⟩ := Checked.exists_of_bind h
  cases r with
  | none => cases h
  | some p =>
    obtain ⟨q, -, h⟩ := Checked.exists_of_bind h
    cases h
    exact ⟨rfl, rfl⟩

namespace Machine

variable {m m' m₁ m₂ : Machine} {b : BayId} {t : TaskId}

/-- What was settled for a drive still is. -/
def Lasting (m m' : Machine) : Prop :=
  ∀ b x, (m.bay b).settlement? = some x → (m'.bay b).settlement? = some x

theorem Lasting.refl (m : Machine) : m.Lasting m := fun _ _ h => h

theorem Lasting.trans (h : m.Lasting m₁) (h' : m₁.Lasting m₂) : m.Lasting m₂ :=
  fun b x hx => h' b x (h b x hx)

theorem Lasting.ready (h : m.Lasting m') {s : ReadyState} (hs : (m.bay b).drive.state = .ready s) :
    ∃ s', (m'.bay b).drive.state = .ready s' ∧ s'.capacity = s.capacity ∧ s'.readOnly = s.readOnly ∧
      (m'.bay b).drive.config = (m.bay b).drive.config := by
  obtain ⟨s', hs', hx⟩ := Bay.ready_of_settlement? (h b _ (Bay.settlement?_of_ready hs))
  obtain ⟨hconfig, hcapacity, hprotected⟩ := Settlement.mk.inj hx
  exact ⟨s', hs', hcapacity.symm, hprotected.symm, hconfig.symm⟩

theorem lasting_of_bays (h : m'.bays = m.bays) : m.Lasting m' := fun b x hx => by
  rwa [bay, h]

private theorem lasting_of_others (others : ∀ k, k ≠ b → m'.bay k = m.bay k)
    (stands : ∀ x, (m.bay b).settlement? = some x → (m'.bay b).settlement? = some x) : m.Lasting m' := by
  intro k x hx
  by_cases hk : k = b
  · subst hk
    exact stands x hx
  · rwa [others k hk]

private theorem lasting_mapBay (b : BayId) {f : Bay → Bay}
    (hf : ∀ x, (m.bay b).settlement? = some x → (f (m.bay b)).settlement? = some x) :
    m.Lasting (m.mapBay b f) := by
  by_cases hb : b < m.bays.size
  · refine lasting_of_others (fun k hk => bay_mapBay_of_ne hk f) fun x hx => ?_
    rw [bay_mapBay hb]
    exact hf x hx
  · rw [mapBay_of_le (Nat.le_of_not_lt hb)]
    exact .refl m

private theorem lasting_log (level : LogLevel) (source text : String) :
    m.Lasting (m.log level source text) := by
  rw [Machine.log]
  split <;> exact .refl m

private theorem lasting_counted (b : BayId) : m.Lasting (m.counted b) := lasting_mapBay b fun _ hx => hx

private theorem lasting_complete {s : ReadyState} (hs : (m.bay b).drive.state = .ready s) (e : InFlight)
    (q r : Rings) : m.Lasting ((m.complete b s e q r).counted b) := by
  have hb := lt_of_ready hs
  refine Lasting.trans (lasting_of_others (b := b) (fun k hk => complete_of_ne hk s e q r) fun x hx => ?_)
    (lasting_counted b)
  rw [bay_complete hb, ← hx, Bay.settlement?_of_ready hs]
  rfl

theorem lasting_putShared {s : ReadyState} (hs : (m.bay b).drive.state = .ready s) (c : Controller)
    (shared : SharedMemory) : m.Lasting (m.putShared b s c shared) := by
  have hmap : m.Lasting (m.mapBay b fun bay =>
      { bay with controller := c, drive.state := .ready { s with rings := shared.rings } }) :=
    lasting_mapBay b fun x hx => by
      rw [← hx, Bay.settlement?_of_ready hs]
      rfl
  exact hmap.trans (lasting_of_bays rfl)

private theorem lasting_setState {s s' : ReadyState} (hs : (m.bay b).drive.state = .ready s)
    (hcapacity : s'.capacity = s.capacity) (hprotected : s'.readOnly = s.readOnly) :
    m.Lasting (m.setState b (.ready s')) := lasting_mapBay b fun x hx => by
  rw [← hx, Bay.settlement?_of_ready hs, Bay.settlement?_of_ready (s := s') rfl, hcapacity, hprotected]

private theorem overlooks_lasting (t : TaskId) : Overlooks t (fun _ => True) Lasting where
  refl := .refl
  trans := .trans
  emit _ _ _ := lasting_of_bays rfl
  log _ := lasting_log
  controller _ b _ _ := lasting_mapBay b fun _ hx => hx
  disable _ := lasting_of_bays rfl
  complete _ _ _ _ e q r _ hs _ _ := lasting_complete hs e q r
  probe _ _ _ _ _ _ _ := lasting_of_bays rfl

private theorem overlooksWork_lasting : OverlooksWork (fun _ => True) Lasting := fun _ _ _ _ _ _ h =>
  lasting_putShared (of_shared? h).1 _ _

theorem tolerates_lasting (t : TaskId) : Tolerates t (fun _ => True) Lasting :=
  (overlooks_lasting t).tolerates (fun _ _ => lasting_of_bays rfl) overlooksWork_lasting

private theorem lasting_setScratch (b : BayId) (l : SleepLock Bytes) : m.Lasting (m.setScratch b l) :=
  lasting_mapBay b fun _ hx => hx

theorem lasting_of_performs {p : Program Reply} {a : Activity} (h : Performs Lasting t m p a m') :
    m.Lasting m' := by
  have hsame : ∀ {m m' : Machine}, m'.bays = m.bays → m.Lasting m' := lasting_of_bays
  induction h with
  | done m => exact .refl m
  | inspect _ _ _ _ _ h | refuse _ _ _ _ _ _ h => exact h
  | submit m m₁ m' b acc next sector s act before ready rest ih =>
    exact before.trans (Lasting.trans (hsame rfl) ih)
  | unready _ _ _ _ _ _ _ before _ after => exact before.trans after
  | awaitDescriptors _ _ _ _ _ _ _ before after | awaitCompletion _ _ _ _ _ _ _ before after
  | awaitScratch _ _ _ _ _ before after | awaitLock _ _ _ _ _ before after
  | awaitGate _ _ _ _ _ _ before after | takeLock _ _ _ _ _ _ before _ after
  | passGate _ _ _ _ _ _ before after => exact before.trans (Lasting.trans (hsame rfl) after)
  | publish m m₁ m₂ m' b id sector next s s' submission chain act before ready published between rest
      ih =>
    obtain ⟨hcapacity, hprotected⟩ := ReadyState.of_publish? published
    have hset := lasting_setState ready hcapacity hprotected
    exact before.trans (hset.trans (Lasting.trans (hsame rfl) (between.trans ih)))
  | retire m m₁ b id ticket next before =>
    have hcounted : m₁.Lasting (m₁.mapDrive b fun d =>
        { d with stats := d.stats.countRequest (m₁.requestOf id).write }) := lasting_mapBay b fun _ hx => hx
    exact before.trans (hcounted.trans (hsame rfl))
  | takeScratch m m₁ m' b next l before taken after =>
    exact before.trans ((lasting_setScratch b l).trans after)
  | giveScratch m m₁ m' b value next before after =>
    exact before.trans ((lasting_setScratch b _).trans (Lasting.trans (hsame rfl) after))

/-- A machine whose drives are the same, but for what their controllers have been told. -/
def SameDrives (m m' : Machine) : Prop :=
  m'.bays.size = m.bays.size ∧ ∀ b, (m'.bay b).drive = (m.bay b).drive

private theorem SameDrives.refl (m : Machine) : m.SameDrives m := ⟨rfl, fun _ => rfl⟩

private theorem SameDrives.lasting (h : m.SameDrives m') : m.Lasting m' := fun b x hx => by
  rwa [Bay.settlement?, h.2 b]

private theorem lenient_sameDrives : Lenient (fun _ => True) SameDrives where
  refl := .refl
  trans h h' := ⟨h'.1.trans h.1, fun b => (h'.2 b).trans (h.2 b)⟩
  emit m _ _ := .refl m
  log m _ _ _ := by
    rw [Machine.log]
    split <;> exact .refl m
  controller m b f _ := by
    refine ⟨size_bays_mapBay _, fun k => ?_⟩
    by_cases hk : k = b
    · subst hk
      by_cases hlt : k < m.bays.size
      · rw [bay_mapController hlt]
      · rw [mapController, mapBay_of_le (Nat.le_of_not_lt hlt)]
    · rw [mapController, bay_mapBay_of_ne hk]

end Machine

open Machine (Lasting SameDrives tolerates_lasting lasting_of_bays lasting_mapBay)

private theorem Dialogue.all_of_forall {α : Type} {P : α → Prop} (h : ∀ a, P a) (d : Dialogue α) :
    d.All P := by
  induction d with
  | done a => exact h a
  | ask q next ih => exact ih
  | tell c next ih => exact ih

/-- Bringing up a drive ends well only with the drive ready, and a drive that is ready is left so. -/
private theorem Drive.all_bringUp (d : Drive) (arena : Arena) :
    (d.bringUp arena).All fun r => (r.1 = .ok () → r.2.1.isReady = true) ∧
      ∀ s, d.state = .ready s → r.2.1 = .ready s := by
  rw [bringUp]
  cases hstate : d.state with
  | ready s =>
    refine ⟨fun h => ?_, fun _ h => h⟩
    cases h
  | incompatible => refine ⟨fun h => ?_, fun _ h => ?_⟩ <;> cases h
  | uninitialized =>
    dsimp only
    split
    · refine Dialogue.all_bind (Dialogue.all_of_forall ?_ _)
      rintro (e | ⟨s, arena⟩)
      · refine ⟨fun h => ?_, fun _ h => ?_⟩ <;> cases h
      · refine ⟨fun _ => rfl, fun _ h => ?_⟩
        cases h
    · refine ⟨fun h => ?_, fun _ h => ?_⟩ <;> cases h

namespace Run

variable {α : Type} {m m' : Machine} {b : BayId} {t : TaskId}

private theorem leads_dialogue_all {P : α → Prop} {d : Dialogue α} (h : d.All P) (m : Machine) :
    Leads (d.run (ask b) (command b)) m fun a _ => P a := by
  induction d generalizing m with
  | done a => exact leads_pure h
  | ask q next ih => exact (leads_any _).bind fun answer m' _ => ih answer (h answer) m'
  | tell c next ih => exact (leads_any _).bind fun _ m' _ => ih h m'

theorem leads_mask_bays (t : TaskId) (m : Machine) : Leads (mask t) m fun _ m' => m'.bays = m.bays := by
  apply leads_get
  split
  · exact leads_set (leads_pure rfl)
  · exact leads_pure rfl

/-- Bringing up a drive leaves the ones that are ready as they are, and ends well only with the drive
ready. -/
theorem leads_bringUp_ready (b : BayId) (m : Machine) :
    Leads (bringUp b) m fun r m' => m.Lasting m' ∧
      (r = .ok () → b < m.bays.size → (m'.bay b).drive.state.isReady = true) := by
  have hR := tolerates_lasting controlTask
  have hsame := Machine.lenient_sameDrives
  refine (leads_mask_bays controlTask m).bind fun saved m₁ hm₁ => leads_get ?_
  refine leads_when (P := m₁.SameDrives) (hsame.within_log _ _ _ m₁) (.refl m₁) fun m₂ hm₂ => ?_
  have hdialogue := leads_dialogue_all (b := b) ((m₁.bay b).drive.all_bringUp m₁.arena) m₂
  refine (hdialogue.and (hsame.within_dialogue trivial _ m₂)).bind ?_
  rintro ⟨r, state, arena⟩ m₃ ⟨⟨hok, hready⟩, hm₃⟩
  have hdrives := hsame.trans hm₂ hm₃
  have hset : m₃.Lasting (m₃.setState b state) := lasting_mapBay b fun x hx => by
    obtain ⟨s, hs, rfl⟩ := Bay.ready_of_settlement? hx
    exact Bay.settlement?_of_ready (hready s (by rwa [← hdrives.2 b]))
  refine leads_modify (leads_when (P := (m₃.setState b state).Lasting) ?_ (lasting_of_bays rfl) ?_)
  · exact (hR.within_logNegotiation _ _ _ _).mono fun _ _ h => Lasting.trans (lasting_of_bays rfl) h
  · refine fun m₄ hm₄ => (hR.restore saved m₄).bind fun _ m₅ hm₅ => leads_pure ⟨?_, fun hr hb => ?_⟩
    · have hbefore : m.Lasting m₃ := Lasting.trans (lasting_of_bays hm₁) hdrives.lasting
      exact hbefore.trans (hset.trans (hm₄.trans hm₅))
    · have hb₃ : b < m₃.bays.size := by rwa [hdrives.1, hm₁]
      obtain ⟨s, hs⟩ := DriveState.ready_of_isReady (hok hr)
      have hthere : ((m₃.setState b state).bay b).drive.state = .ready s := by
        rw [Machine.bay_setState state hb₃]
        exact hs
      obtain ⟨s', hs', -⟩ := (hm₄.trans hm₅).ready hthere
      rw [hs']
      rfl

private theorem lasting_initializeDrive (number : UInt8) : Within Lasting (initializeDrive number) := by
  have hR := tolerates_lasting controlTask
  refine within_get fun m => ?_
  cases m.bayOf? number with
  | none => exact hR.within_pure _
  | some b =>
    refine hR.within_bind hR.within_inspect fun state => ?_
    split
    · exact hR.within_pure _
    · refine hR.within_bind (fun m => (leads_bringUp_ready b m).mono fun _ _ h => h.1) fun r => ?_
      cases r with
      | ok => exact hR.within_status number
      | error e => exact hR.within_bind (hR.within_log _ _ _) fun _ m => leads_throw

private theorem lasting_advance (t : TaskId) : Within Lasting (advance t) := by
  intro m
  apply leads_get
  cases hact : (m.task t).activity with
  | idle | asleep p => exact leads_pure (.refl m)
  | running p =>
    exact ((tolerates_lasting t).performs_node p.at_any).bind fun a m₁ h =>
      leads_change ((Machine.lasting_of_performs h).trans (lasting_of_bays rfl))
  | parking p =>
    refine Leads.bind (x := settle t p) (Q := fun _ m' => m.Lasting m') (leads_get ?_) fun a m₁ h =>
      leads_change (h.trans (lasting_of_bays rfl))
    split <;> exact leads_modify (leads_pure (lasting_of_bays rfl))

end Run

namespace Machine

variable {m m' : Machine}

private theorem lasting_addDrive (m : Machine) (r : Registration) : m.Lasting (m.addDrive r) :=
  fun b x hx => by
  obtain ⟨s, hs, -⟩ := Bay.ready_of_settlement? hx
  rwa [bay_addDrive_of_lt (lt_of_ready hs)]

private theorem EnvironmentStep.lasting (h : m.EnvironmentStep m') : m.Lasting m' := by
  have hR := fun t => tolerates_lasting t
  cases h with
  | wake c => exact lasting_of_bays rfl
  | bringUp b r m' h => exact ((Run.leads_bringUp_ready b m).of_ok h).1
  | status number s m' h => exact ((hR controlTask).within_status number m).of_ok h
  | initDrive number s m' h => exact (Run.lasting_initializeDrive number m).of_ok h
  | raise t i m' h =>
    exact ((overlooks_lasting t).within_raise (fun _ _ => lasting_of_bays rfl) i m).of_ok h
  | handle b point next m' h =>
    exact ((overlooks_lasting controlTask).within_completionStep (b := b) trivial point m).of_ok h
  | work b order r m' h =>
    exact ((hR controlTask).within_work overlooksWork_lasting (b := b) trivial order m).of_ok h
  | control b f => exact lasting_mapBay b fun _ hx => hx
  | tryLock t lock r m' h =>
    exact ((hR t).within_tryLock lock (fun _ _ _ => lasting_of_bays rfl) m).of_ok h
  | unlock t lock m' h => exact ((hR t).within_unlock lock (fun _ => lasting_of_bays rfl) m).of_ok h
  | openGate gate waking m' h =>
    exact ((hR controlTask).within_openGate gate waking (fun _ => lasting_of_bays rfl)
      (fun _ _ => lasting_of_bays rfl) m).of_ok h

/-- What is settled for a drive lasts whatever goes on. -/
theorem Transition.lasting (h : m.Transition m') : m.Lasting m' := by
  cases h with
  | register r n m' h =>
    rw [(Run.leads_register r m).of_ok h]
    exact lasting_addDrive m r
  | newSleepLock name value lock m' h =>
    rw [Run.run_newSleepLock] at h
    cases h
    exact lasting_of_bays rfl
  | newGate gate m' h =>
    cases h
    exact lasting_of_bays rfl
  | call t p h | reply t r h | rouse t p h => exact lasting_of_bays rfl
  | advance t m' h => exact (Run.lasting_advance t m).of_ok h
  | environment m' h => exact h.lasting

end Machine

end DiskStack
