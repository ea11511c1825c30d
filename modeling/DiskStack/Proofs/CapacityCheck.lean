import DiskStack.Proofs.Publications
import DiskStack.Proofs.Refusals

/-!
# The check against the capacity

A drive that is ready compares the end of a block with the number of its sectors. The sum that it compares
saturates at the greatest number of 64 bits, and a controller may tell just that number for its capacity.
Then no end is too great, and a block passes that ends with the last sector that has a number. With every
other capacity the check is exact, and so what reaches a controller lies on its drive.
-/

namespace DiskStack

/-- Whether the check lets a block pass: it ends within the capacity, or it begins at a sector that has a
number while the capacity is the greatest that there is. -/
def ReadyState.Passes (s : ReadyState) (spb block : Nat) : Prop :=
  block * spb + spb ≤ s.capacity.toNat ∨ s.capacity.toNat = wordLimit - 1 ∧ block * spb < wordLimit

namespace View

variable {v : View} {s : ReadyState} {a : BlockAccess}

private theorem accepts_of_passes (hs : v.state = .ready s) (hlen : a.data.length = v.config.blockSize)
    (h : s.Passes v.config.sectorsPerBlock a.block) :
    v.accepts a = .ok (a.block * v.config.sectorsPerBlock, s) := by
  have hcap : s.capacity.toNat < wordLimit := s.capacity.toNat_lt
  rw [ReadyState.Passes] at h
  rw [accepts_eq, if_neg (fun h => h hlen), if_pos (by omega), hs, DriveState.checkSectors,
    if_neg (by omega)]
  rfl

private theorem accepts_of_not_passes (hs : v.state = .ready s) (hlen : a.data.length = v.config.blockSize)
    (h : ¬s.Passes v.config.sectorsPerBlock a.block) : v.accepts a = .error .invalidBlock := by
  have hcap : s.capacity.toNat < wordLimit := s.capacity.toNat_lt
  rw [ReadyState.Passes] at h
  rw [accepts_eq, if_neg (fun h => h hlen), hs, DriveState.checkSectors]
  split
  · rw [if_pos (by omega)]
    rfl
  · rfl

private theorem passes_of_accepts {sector : Nat} (h : v.accepts a = .ok (sector, s)) :
    s.Passes v.config.sectorsPerBlock a.block := by
  obtain ⟨hs, hlen, -⟩ := ready_of_accepts h
  refine Classical.byContradiction fun hnot => ?_
  cases h.symm.trans (accepts_of_not_passes hs hlen hnot)

private theorem Advances.stage_cases {b : BayId} {v' : View} {t : TaskId} {g : Stage} (hp : v.Plain b)
    (h : v.Advances b t v') (hg : v'.stage t = some g) :
    (∃ g', v.stage t = some g') ∨ ∃ a sector s, (v.activity t).program? = some (.submit b a .answer) ∧
      v.accepts a = .ok (sector, s) := by
  cases h with
  | rest => exact .inl ⟨g, hg⟩
  | sleep p ha | stayUp p ha =>
    rw [stage_act, if_pos rfl] at hg
    rw [stage, ha]
    exact .inl ⟨g, hg⟩
  | run p act v₁ ha does =>
    have hprogram : (v.activity t).program? = some p := by rw [ha]; rfl
    rw [stage_act, if_pos rfl] at hg
    cases hp.submits t p hprogram with
    | submit a =>
      cases does with
      | refuse => cases hg
      | submit _ _ sector s _ _ haccept => exact .inr ⟨a, sector, s, hprogram, haccept⟩
    | publish | complete => exact .inl ⟨_, stage_eq hprogram⟩
    | done r =>
      cases does
      cases hg

end View

namespace Scene

variable {b : BayId} {m : Machine} {s s' : Scene} {t : TaskId} {a a' : BlockAccess}
  {l trace : List (Incident BlockAccess)} {st st' : ReadyState}

private theorem LastCall.unique (h : LastCall trace t a) (h' : LastCall trace t a') : a = a' := by
  obtain ⟨before, after, rfl, hnone⟩ := h
  obtain ⟨before', after', heq, hnone'⟩ := h'
  rcases List.append_eq_append_iff.1 heq with ⟨c, rfl, hc⟩ | ⟨c, rfl, hc⟩
  · cases c with
    | nil =>
      cases hc
      rfl
    | cons x c =>
      obtain ⟨-, rfl⟩ := List.cons.inj hc
      exact absurd (List.mem_append_right _ (List.mem_cons_self ..)) (hnone a')
  · cases c with
    | nil =>
      cases hc
      rfl
    | cons x c =>
      obtain ⟨-, rfl⟩ := List.cons.inj hc
      exact absurd (List.mem_append_right _ (List.mem_cons_self ..)) (hnone' a)

private theorem Shifts.capacity_eq {d : DriveState} (h : Shifts b s s' d (.ready st')) :
    d.isReady = false ∨ ∃ st, d = .ready st ∧ st.capacity = st'.capacity := by
  cases h with
  | still => exact .inr ⟨st', rfl, rfl⟩
  | start _ _ hd => exact .inl hd
  | publish st | settle st | tamper st => exact .inr ⟨st, rfl, rfl⟩

/-- Whoever is inside of a submission after a step was so before, or has been accepted in it. -/
theorem Step.stage_cases {g : Stage} (hs : s.InOrder b) (hp : (s.machine.view b).Plain b)
    (step : Step (adversarial b) s l s') (hg : (s'.machine.view b).stage t = some g) :
    (∀ c, .call t c ∉ l) ∧ ((∃ g', (s.machine.view b).stage t = some g') ∨
      ∃ a sector st, ((s.machine.view b).activity t).program? = some (.submit b a .answer) ∧
        (s.machine.view b).accepts a = .ok (sector, st)) := by
  have hstill : (s'.machine.view b).activity = (s.machine.view b).activity →
      ∃ g', (s.machine.view b).stage t = some g' := fun h => ⟨g, by rwa [View.stage, ← h]⟩
  obtain ⟨turn, -⟩ := step.turn hs
  cases turn with
  | call u c _ hv =>
    have hview : s'.machine.view b = (s.machine.view b).act u (.running (.submit b c .answer)) := hv
    rw [hview, View.stage_act] at hg
    split at hg
    · cases hg
    · next htu => exact ⟨fun _ => call_not_mem_call htu, .inl ⟨g, hg⟩⟩
  | advance u arena _ hadv =>
    have hadv : ({ s.machine.view b with arena } : View).Advances b u (s'.machine.view b) := hadv
    refine ⟨fun _ => call_not_mem_scratch, ?_⟩
    by_cases htu : t = u
    · subst htu
      have hplain : ({ s.machine.view b with arena } : View).Plain b := hp.congr rfl
      exact View.Advances.stage_cases (v := { s.machine.view b with arena }) hplain hadv hg
    · refine .inl ⟨g, ?_⟩
      rwa [View.stage, hadv.activity_of_ne htu] at hg
  | rouse u p hasleep hv =>
    have hview : s'.machine.view b = (s.machine.view b).act u (.running p) := hv
    refine ⟨fun _ => List.not_mem_nil, .inl ⟨g, ?_⟩⟩
    rw [hview, View.stage_act] at hg
    split at hg
    · next htu =>
      rw [htu, View.stage, show (s.machine.view b).activity u = .asleep p from hasleep]
      exact hg
    · exact hg
  | reply u r hdone hv =>
    have hview : s'.machine.view b = (s.machine.view b).act u .idle := hv
    rw [hview, View.stage_act] at hg
    split at hg
    · cases hg
    · exact ⟨fun _ => call_not_mem_reply, .inl ⟨g, hg⟩⟩
  | bringUp hstarts =>
    have hstarts : (s.machine.view b).Starts (s'.machine.view b) := hstarts
    exact ⟨fun _ => List.not_mem_nil, .inl (hstill hstarts.still.1)⟩
  | enter hv | leave hv => exact ⟨fun _ => List.not_mem_nil, .inl (hstill (congrArg View.activity hv))⟩
  | handle point next hhandles =>
    have hhandles : (s.machine.view b).Handles point next (s'.machine.view b) := hhandles
    exact ⟨fun _ => List.not_mem_nil, .inl (hstill hhandles.activity_eq)⟩
  | device heads _ hl hd =>
    exact ⟨fun _ => call_not_mem_shown hl, .inl (hstill (Tampers.still hs hd).1)⟩

/-- A task inside of a submission has called for a block that has passed. -/
theorem passes_of_run (fresh : m.Fresh b) (run : Run (adversarial b) { machine := m } trace s)
    (ready : (s.machine.bay b).drive.state = .ready st) {g : Stage}
    (hg : (s.machine.view b).stage t = some g) :
    ∃ a, LastCall trace t a ∧ st.Passes (s.machine.bay b).drive.config.sectorsPerBlock a.block := by
  induction run generalizing st g with
  | refl => cases fresh.uninitialized.symm.trans ready
  | @step trace l s s' run step ih =>
    have hs := inOrder_of_run fresh run
    obtain ⟨hplain, hcurrent⟩ := currentCall_of_run fresh run t
    obtain ⟨quiet, hbefore⟩ := step.stage_cases hs hplain hg
    rw [step.config_eq hs]
    have hshifts := step.shifts hs
    rw [ready] at hshifts
    -- either the task was inside before and the capacity is what it was, or the step has checked its block
    rcases hbefore with ⟨g', hg'⟩ | ⟨a, sector, st₀, hprogram, haccept⟩
    · rcases hshifts.capacity_eq with hidle | ⟨st₀, hst₀, hcapacity⟩
      · cases hg'.symm.trans (hs.orderly.idle hidle t)
      · obtain ⟨a, hcall, hpasses⟩ := ih hst₀ hg'
        refine ⟨a, hcall.append quiet, ?_⟩
        rwa [ReadyState.Passes, ← hcapacity]
    · have hst₀ : (s.machine.bay b).drive.state = .ready st₀ := (View.ready_of_accepts haccept).1
      rcases hshifts.capacity_eq with hidle | ⟨st₁, hst₁, hcapacity⟩
      · rw [hst₀] at hidle
        cases hidle
      · cases hst₀.symm.trans hst₁
        refine ⟨a, (hcurrent.asked a _ hprogram).append quiet, ?_⟩
        rw [ReadyState.Passes, ← hcapacity]
        exact View.passes_of_accepts haccept

/-- The header of a request in flight names the first sector of a block that has passed. -/
theorem exists_passes_of_run (fresh : m.Fresh b) (run : Run (adversarial b) { machine := m } trace s)
    (ready : (s.machine.bay b).drive.state = .ready st) {h : UInt16} {e : InFlight}
    (he : st.rings.entryAt h.toNat = some e) :
    ∃ block, (st.rings.header h).sector.toNat = block * (s.machine.bay b).drive.config.sectorsPerBlock ∧
      st.Passes (s.machine.bay b).drive.config.sectorsPerBlock block := by
  obtain ⟨t, a, q, hstage, hcall, -, hposes⟩ := exists_poses_of_run fresh run ready he
  obtain ⟨a', hcall', hpasses⟩ := passes_of_run fresh run ready hstage
  cases hcall.unique hcall'
  exact ⟨a.block, hposes.sector, hpasses⟩

end Scene

namespace Machine

variable {b : BayId}

/-- What tasks that submit accesses of one block may count on at a drive that is ready. -/
structure ChecksCapacity (m : Machine) (b : BayId) (st : ReadyState) : Prop where
  /-- A block that does not pass is refused in one step, which changes nothing but the task. -/
  refused : ∀ t a next, (m.task t).activity = .running (.submit b a next) →
    a.data.length = (m.bay b).drive.config.blockSize →
    ¬st.Passes (m.bay b).drive.config.sectorsPerBlock a.block →
    Run.Leaves (Run.advance t) m ()
      (m.setActivity t (.running (next ⟨⟨.error .invalidBlock, a.data⟩, false⟩)))
  /-- For a block that passes there is no other answer than that all went well, and nothing but its first
  sector to publish until then. -/
  passed : ∀ t a next, (m.task t).activity = .running (.submit b a next) →
    a.data.length = (m.bay b).drive.config.blockSize →
    st.Passes (m.bay b).drive.config.sectorsPerBlock a.block →
    ∀ sector, sector = a.block * (m.bay b).drive.config.sectorsPerBlock → ∀ m₁ m',
    (Run.advance t).run.run m = (.ok (), m₁) →
    Relation.ReflTransGen (fun m m' => (m.task t).activity.Inside b sector next ∧ m.AdversarialStep m')
      m₁ m' →
    (m'.task t).activity.Inside b sector next ∨ (m'.task t).activity.Served next

/-- A drive that is ready refuses the blocks that do not pass and no others, and nothing reaches its
controller that lies beyond the capacity, unless that is the greatest number of 64 bits. -/
theorem capacity_checked (b : BayId) :
    (∀ (m : Machine) (st : ReadyState), m.Calm → (m.bay b).drive.state = .ready st →
      m.ChecksCapacity b st) ∧
    ∀ (m : Machine) (trace : List (Incident BlockAccess)) (s : Scene) (st : ReadyState) (h : UInt16)
      (e : InFlight), m.Fresh b → Scene.Run (Scene.adversarial b) { machine := m } trace s →
      (s.machine.bay b).drive.state = .ready st → st.rings.entryAt h.toNat = some e →
      (st.rings.header h).sector.toNat + (s.machine.bay b).drive.config.sectorsPerBlock ≤
          st.capacity.toNat ∨
        st.capacity.toNat = wordLimit - 1 := by
  refine ⟨fun m st hm hs => ⟨fun t a next hact hlen hnot => ?_, fun t a next hact hlen hpasses => ?_⟩, ?_⟩
  · exact leaves_advance_refused hm hact (View.accepts_of_not_passes (v := m.view b) hs hlen hnot)
  · rintro sector rfl m₁ m' hadvance hsteps
    have haccept := View.accepts_of_passes (v := m.view b) hs hlen hpasses
    obtain ⟨hact₁, hready⟩ := (leads_advance_accepted hact haccept).of_ok hadvance
    exact (inside_or_served_of_adversarial hact₁ hready hsteps).1
  · intro m trace s st h e fresh run ready he
    obtain ⟨block, hsector, hpasses⟩ := Scene.exists_passes_of_run fresh run ready he
    rw [hsector]
    exact hpasses.imp_right fun hpasses => hpasses.1

theorem capacity_checked_sample :
    (∃ st, ((shelved {} 128).calledFor firstWrite).Calm ∧
      (((shelved {} 128).calledFor firstWrite).bay 0).drive.state = .ready st ∧
      ((shelved {} 128).calledFor firstWrite).ChecksCapacity 0 st) ∧
    ∃ trace s st h e, Scene.Run (Scene.adversarial 0) { machine := .sample } trace s ∧
      (s.machine.bay 0).drive.state = .ready st ∧ st.rings.entryAt (UInt16.toNat h) = some e ∧
      ((st.rings.header h).sector.toNat + (s.machine.bay 0).drive.config.sectorsPerBlock ≤
          st.capacity.toNat ∨
        st.capacity.toNat = wordLimit - 1) := by
  constructor
  · obtain ⟨st, hst⟩ : ∃ st, (((shelved {} 128).calledFor firstWrite).bay 0).drive.state = .ready st :=
      DriveState.ready_of_isReady (by decide +kernel)
    have hcalm := calm_of_adversarial (calm_shelved {} 128)
      (adversarial_calledFor firstWrite rfl (by decide +kernel))
    exact ⟨st, hcalm, hst, (capacity_checked 0).1 _ st hcalm hst⟩
  · obtain ⟨trace, s, st, run, ready, -, -, -, he⟩ := Scene.exists_twoCalls
    have hbound := (capacity_checked 0).2 _ _ _ _ 3 _ fresh_sample run ready he
    exact ⟨trace, s, st, 3, _, run, ready, he, hbound⟩

/-! ### A drive with the greatest capacity -/

/-- The block of one sector whose sector has the greatest number. -/
def lastWrite : BlockAccess := ⟨wordLimit - 1, true, List.replicate 512 7⟩

/-- A task is about to write the sector of the greatest number to a drive with that many sectors. -/
def brimming : Machine := (shelved { blockSize := 512 } (wordLimit - 1)).calledFor lastWrite

/-- The access is published, although the last sector of the drive lies just before it. -/
theorem published_beyond_capacity :
    Relation.ReflTransGen AdversarialStep (shelved { blockSize := 512 } (wordLimit - 1)) brimming ∧
      ((Run.advance 1).run.run brimming).1.toBool = true ∧
      ∃ st, (((Run.advance 1).run.run brimming).2.bay 0).drive.state = .ready st ∧
        (st.rings.entryAt 0).isSome = true ∧ st.capacity.toNat ≤ (st.rings.header 0).sector.toNat := by
  obtain ⟨st, hst⟩ : ∃ st, (((Run.advance 1).run.run brimming).2.bay 0).drive.state = .ready st :=
    DriveState.ready_of_isReady (by decide +kernel)
  have hfacts : (((Run.advance 1).run.run brimming).2.bay 0).drive.state.ready?.map (fun st =>
      ((st.rings.entryAt 0).isSome, decide (st.capacity.toNat ≤ (st.rings.header 0).sector.toNat))) =
        some (true, true) := by decide +kernel
  rw [hst] at hfacts
  obtain ⟨hentry, hbeyond⟩ := Prod.mk.inj (Option.some.inj hfacts)
  exact ⟨adversarial_calledFor lastWrite rfl (by decide +kernel), by decide +kernel, st, hst, hentry,
    of_decide_eq_true hbeyond⟩

end Machine

end DiskStack
