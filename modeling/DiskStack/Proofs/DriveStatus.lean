import DiskStack.Proofs.Exclusion
import DiskStack.Proofs.Lasting

/-!
# The status of a drive number

To ask for the status of a number changes nothing, and the answer depends on the drive that is registered
under it: whether there is one, whether it is ready, and whether its media are protected. Main result: to
initialise a number ends with that status, unless its drive was ready before. Then the answer says that the
drive is ready and leaves its protection out.
-/

namespace DiskStack

open Run (Leads Leaves leads_get leads_pure leads_throw leaves_pure leaves_get)

/-- What there is to tell of a drive number. Media are protected by the build or by their controller. -/
def Machine.statusOf (m : Machine) (number : UInt8) : DiskStatus :=
  match m.bayOf? number with
  | none => DiskStatus.noInit ||| DiskStatus.noDisk
  | some b =>
    match (m.bay b).settlement? with
    | none => DiskStatus.noInit
    | some x => if m.build.readOnly || x.readOnly then DiskStatus.protect else 0

/-- What initialising a number answers where there is nothing left to initialise. -/
def DiskStatus.unprotected (s : DiskStatus) : DiskStatus := if s = DiskStatus.protect then 0 else s

namespace DiskStatus

variable {s : DiskStatus}

private theorem unprotected_of_ne (h : s ≠ protect) : s.unprotected = s := if_neg h

private theorem unprotected_protect : protect.unprotected = 0 := if_pos rfl

private theorem unprotected_eq_iff : s.unprotected = s ↔ s ≠ protect := by
  refine ⟨fun h hs => ?_, unprotected_of_ne⟩
  rw [hs, unprotected_protect] at h
  cases h

private theorem unprotected_unprotected (s : DiskStatus) : s.unprotected.unprotected = s.unprotected := by
  by_cases hs : s = protect
  · rw [hs]
    rfl
  · rw [unprotected_of_ne hs, unprotected_of_ne hs]

end DiskStatus

namespace Machine

variable {m m' : Machine} {number : UInt8} {b : BayId}

private theorem statusOf_of_unknown (h : m.bayOf? number = none) :
    m.statusOf number = DiskStatus.noInit ||| DiskStatus.noDisk := by
  rw [statusOf, h]

private theorem statusOf_of_unready (h : m.bayOf? number = some b)
    (hstate : (m.bay b).drive.state.isReady = false) : m.statusOf number = DiskStatus.noInit := by
  rw [statusOf, h]
  cases hs : (m.bay b).drive.state with
  | ready s =>
    rw [hs] at hstate
    cases hstate
  | uninitialized | incompatible => simp only [Bay.settlement?, hs, DriveState.ready?, Option.map_none]

private theorem statusOf_of_ready (h : m.bayOf? number = some b) {s : ReadyState}
    (hs : (m.bay b).drive.state = .ready s) :
    m.statusOf number = if m.build.readOnly || s.readOnly then DiskStatus.protect else 0 := by
  rw [statusOf, h]
  simp only [Bay.settlement?_of_ready hs]

private theorem unprotected_of_ready (h : m.bayOf? number = some b) {s : ReadyState}
    (hs : (m.bay b).drive.state = .ready s) : (m.statusOf number).unprotected = 0 := by
  rw [statusOf_of_ready h hs]
  split <;> rfl

end Machine

namespace Run

variable {m : Machine} {t : TaskId} {b : BayId} {number : UInt8}

private theorem leaves_inspect (hm : m.Calm) : Leaves (inspect t b) m (m.bay b).drive.state m :=
  Returns.leaves (returns_masked hm fun _ _ _ hback => ends_get ((hback _ rfl).bind fun _ _ hm' =>
    returns_pure ⟨rfl, hm'⟩))

private theorem leaves_status (hm : m.Calm) (number : UInt8) :
    Leaves (status number) m (m.statusOf number) m := by
  refine leaves_get ?_
  cases hb : m.bayOf? number with
  | none =>
    rw [Machine.statusOf_of_unknown hb]
    exact leaves_pure _ _
  | some b =>
    have hinspect : ∀ events,
        Leaves (inspect controlTask b) { m with events } (m.bay b).drive.state { m with events } :=
      fun events => leaves_inspect (m := { m with events }) hm
    refine (hinspect m.events).bind fun events => ?_
    cases hs : (m.bay b).drive.state with
    | ready s =>
      rw [Machine.statusOf_of_ready hb hs]
      refine leaves_get ?_
      change Leaves (if m.build.readOnly then _ else _) _ _ _
      split
      · next hbuild =>
        rw [hbuild]
        exact leaves_pure _ _
      · next hbuild =>
        rw [Bool.eq_false_iff.2 hbuild]
        rw [hs] at hinspect
        exact (hinspect events).bind fun _ => leaves_pure _ _
    | uninitialized | incompatible =>
      rw [Machine.statusOf_of_unready hb (by rw [hs]; rfl)]
      exact leaves_pure _ _

private theorem leaves_initializeDrive (hm : m.Calm) (h : m.statusOf number ≠ DiskStatus.noInit) :
    Leaves (initializeDrive number) m (m.statusOf number).unprotected m := by
  refine leaves_get ?_
  cases hb : m.bayOf? number with
  | none =>
    rw [Machine.statusOf_of_unknown hb]
    exact leaves_pure _ _
  | some b =>
    refine (leaves_inspect hm).bind fun events => ?_
    cases hs : (m.bay b).drive.state with
    | ready s =>
      rw [Machine.unprotected_of_ready hb hs]
      exact leaves_pure _ _
    | uninitialized | incompatible => exact absurd (Machine.statusOf_of_unready hb (by rw [hs]; rfl)) h

private theorem leads_bringUp_status (hm : m.Calm) (hlt : b < m.bays.size) (hb : m.bayOf? number = some b) :
    Leads (bringUp b) m fun r m' => m'.Calm ∧ (r = .ok () → m'.statusOf number ≠ DiskStatus.noInit) := by
  have hfixed : Within Machine.Fixed (bringUp b) :=
    (Machine.tolerates_fixed controlTask).within_bringUp trivial (fun _ => Machine.fixed_setState b)
      fun _ _ => .of_same rfl rfl rfl rfl rfl
  refine (((calms_bringUp b m).and (hfixed m)).and (leads_bringUp_ready b m)).mono ?_
  refine fun r m' ⟨⟨hcalm, hm'⟩, _, hready⟩ => ⟨hcalm hm, fun hr => ?_⟩
  obtain ⟨s, hs⟩ := DriveState.ready_of_isReady (hready hr hlt)
  rw [Machine.statusOf_of_ready ((hm'.bayOf? number).trans hb) hs]
  split <;> decide

/-- A number with a drive to bring up is initialised with the status that it then has. -/
private theorem leads_initializeDrive_first (hm : m.Calm) (hd : m.Distinct)
    (h : m.statusOf number = DiskStatus.noInit) :
    Leads (initializeDrive number) m fun r m' =>
      m'.Calm ∧ m'.statusOf number ≠ DiskStatus.noInit ∧ r = m'.statusOf number := by
  refine leads_get ?_
  cases hb : m.bayOf? number with
  | none =>
    rw [Machine.statusOf_of_unknown hb] at h
    cases h
  | some b =>
    refine (leaves_inspect hm).leads.bind fun _ _ ⟨hstate, events, hm'⟩ => ?_
    subst hstate hm'
    cases hs : (m.bay b).drive.state with
    | ready s =>
      rw [Machine.statusOf_of_ready hb hs] at h
      split at h <;> cases h
    | uninitialized | incompatible =>
      refine (leads_bringUp_status (m := { m with events }) hm (hd.of_bayOf? hb).1 hb).bind ?_
      rintro (e | ⟨⟩) m₁ ⟨hcalm, hup⟩
      · exact (leads_any _).bind fun _ _ _ => leads_throw
      · refine (leaves_status hcalm number).leads.mono fun r m' ⟨hr, events, hm'⟩ => ?_
        subst hr hm'
        exact ⟨hcalm, hup rfl, rfl⟩

end Run

namespace Machine

variable {m₀ m m' : Machine} {number : UInt8} {r : DiskStatus}

/-- What an initialisation that began with `m`, answered `r` and left `m'` comes to. -/
structure Initializes (m : Machine) (number : UInt8) (r : DiskStatus) (m' : Machine) : Prop where
  /-- To ask for the status right afterwards tells it and changes nothing. -/
  asked : Run.Leaves (Run.status number) m' (m'.statusOf number) m'
  /-- The answer was that status, unless there was nothing to do for a protected drive. -/
  agrees : r = m'.statusOf number ↔ m.statusOf number ≠ DiskStatus.protect
  /-- Then the protection is still there, and the answer has left it out. -/
  understates : m.statusOf number = DiskStatus.protect → r = 0 ∧ m'.statusOf number = DiskStatus.protect
  /-- To initialise the number again leaves out the protection of the first answer and changes nothing. -/
  again : Run.Leaves (Run.initializeDrive number) m' r.unprotected m'

/-- From whatever has gone on, an initialisation that returns answers with the status that it leaves if
the drive was not ready or its media are not protected. -/
theorem initializes_of_run (start : m₀.Bare) (calm : m₀.Calm) (run : Relation.ReflTransGen Transition m₀ m)
    (h : (Run.initializeDrive number).run.run m = (.ok r, m')) : m.Initializes number r m' := by
  have hm := calm.of_steps run
  by_cases hfirst : m.statusOf number = DiskStatus.noInit
  · obtain ⟨hm', hup, rfl⟩ :=
      (Run.leads_initializeDrive_first hm (start.distinct.of_steps run) hfirst).of_ok h
    have hopen : m.statusOf number ≠ DiskStatus.protect := by
      rw [hfirst]
      decide
    exact ⟨Run.leaves_status hm' number, ⟨fun _ => hopen, fun _ => rfl⟩, fun h => absurd h hopen,
      Run.leaves_initializeDrive hm' hup⟩
  · obtain ⟨rfl, events, rfl⟩ := (Run.leaves_initializeDrive hm hfirst).leads.of_ok h
    have hafter : ({ m with events } : Machine).Calm := hm
    refine ⟨Run.leaves_status hafter number, DiskStatus.unprotected_eq_iff, fun h => ⟨?_, h⟩, ?_⟩
    · rw [h, DiskStatus.unprotected_protect]
    · rw [DiskStatus.unprotected_unprotected]
      exact Run.leaves_initializeDrive hafter hfirst

/-! ### A protected drive -/

/-- A drive whose controller offers protected media and nothing else. -/
def protectedMedia : Registration :=
  ⟨0, {}, { window := Controller.windowOf 128 [(Register.deviceFeatures, Features.readOnly)] }⟩

def protectedDrive : Machine := ({} : Machine).addDrive protectedMedia

def initialized (m : Machine) : Machine := ((Run.initializeDrive 0).run.run m).2

private theorem run_protectedDrive : Relation.ReflTransGen Transition {} protectedDrive :=
  .single (.register protectedMedia _ _ rfl)

theorem initializes_of_run_sample :
    Bare {} ∧ Calm {} ∧ Relation.ReflTransGen Transition {} protectedDrive ∧
      (Run.initializeDrive 0).run.run protectedDrive = (.ok DiskStatus.protect, protectedDrive.initialized) ∧
      protectedDrive.Initializes 0 DiskStatus.protect protectedDrive.initialized := by
  have hstart : Bare {} := ⟨Nat.one_pos, rfl, rfl, rfl, rfl, rfl⟩
  have hcalm : Calm {} := fun t _ => by rcases t with _ | t <;> rfl
  have hfirst : (Run.initializeDrive 0).run.run protectedDrive =
      (.ok DiskStatus.protect, protectedDrive.initialized) := Run.ok_of_toOption (by decide +kernel)
  exact ⟨hstart, hcalm, run_protectedDrive, hfirst,
    initializes_of_run hstart hcalm run_protectedDrive hfirst⟩

/-- The second initialisation of a protected drive answers 0, and the status is still that it is
protected. -/
theorem initializeDrive_again_sample :
    Relation.ReflTransGen Transition {} protectedDrive.initialized ∧
      (Run.initializeDrive 0).run.run protectedDrive.initialized =
        (.ok 0, protectedDrive.initialized.initialized) ∧
      ((Run.status 0).run.run protectedDrive.initialized.initialized).1.toOption =
        some DiskStatus.protect := by
  have hfirst : (Run.initializeDrive 0).run.run protectedDrive =
      (.ok DiskStatus.protect, protectedDrive.initialized) := Run.ok_of_toOption (by decide +kernel)
  exact ⟨run_protectedDrive.tail (.environment _ (.initDrive 0 _ _ hfirst)),
    Run.ok_of_toOption (by decide +kernel), by decide +kernel⟩

end Machine

end DiskStack
