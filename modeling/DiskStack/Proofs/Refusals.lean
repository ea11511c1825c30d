import DiskStack.Proofs.Exclusion
import DiskStack.Proofs.Lasting
import DiskStack.Proofs.Orderly

/-!
# Refused and accepted submissions

A submission is checked once, before anything is done for it. If it is refused then its task goes on with
the error at once, and the machine is as it was. If it is accepted then its drive is ready, and since that
lasts, every later try to publish it finds the rings: it waits for descriptors and for its completion, and
the only answer that it ever gets is that all went well.
-/

namespace DiskStack

open Run (Leads Leaves leads_get leads_modify leads_change leads_pure leaves_get leaves_pure)

namespace View

variable {v : View} {a : BlockAccess}

private theorem accepts_eq_invalidBufferSize_iff :
    v.accepts a = .error .invalidBufferSize ↔ a.data.length ≠ v.config.blockSize := by
  rw [accepts_eq]
  split
  · next h => exact ⟨fun _ => h, fun _ => rfl⟩
  · next h =>
    refine ⟨fun hsize => ?_, fun h' => absurd h' h⟩
    split at hsize
    · cases hs : v.state with
      | ready s =>
        rw [hs, DriveState.checkSectors] at hsize
        split at hsize <;> cases hsize
      | uninitialized | incompatible =>
        rw [hs] at hsize
        cases hsize
    · cases hsize

end View

/-- Where an accepted submission waits that goes on with `next`: before its publication, for which the
sector is settled, or after it. -/
inductive Program.Inside (b : BayId) (sector : Nat) (next : SubmitReply → Program Reply) :
    Program Reply → Prop
  | publish (id : RequestId) : Inside b sector next (.publish b id sector next)
  | complete (id : RequestId) (ticket : UInt64) : Inside b sector next (.complete b id ticket next)

/-- A task inside of an accepted submission. -/
def Activity.Inside (b : BayId) (sector : Nat) (next : SubmitReply → Program Reply) (a : Activity) : Prop :=
  ∃ p, a.program? = some p ∧ p.Inside b sector next

/-- A task that has been told that its submission went well. -/
def Activity.Served (next : SubmitReply → Program Reply) (a : Activity) : Prop :=
  ∃ r, a = .running (next r) ∧ r.result = .ok ()

namespace Machine

variable {m m' m₁ : Machine} {t u : TaskId} {b : BayId} {a : BlockAccess}
  {next : SubmitReply → Program Reply}
  {act : Activity} {s : ReadyState} {sector : Nat}

/-! ### What a node of a submission comes to -/

private theorem inside_or_served_of_complete {id : RequestId} {ticket : UInt64}
    {R : Machine → Machine → Prop}
    (h : Performs R t m (.complete b id ticket next) act m') :
    act.Inside b sector next ∨ act.Served next := by
  cases h with
  | awaitCompletion => exact .inl ⟨_, rfl, .complete id ticket⟩
  | retire => exact .inr ⟨_, rfl, rfl⟩

private theorem inside_or_served_of_publish {id : RequestId} (hs : (m.bay b).drive.state = .ready s)
    (h : Performs Lasting t m (.publish b id sector next) act m') :
    act.Inside b sector next ∨ act.Served next := by
  cases h with
  | unready _ m₁ _ _ _ _ _ before state after =>
    obtain ⟨s', hs', -⟩ := before.ready hs
    rw [hs'] at state
    cases state
  | awaitDescriptors => exact .inl ⟨_, rfl, .publish id⟩
  | publish _ _ _ _ _ _ _ _ _ _ _ _ _ before ready published between rest =>
    exact inside_or_served_of_complete rest

private theorem inside_or_served_of_performs {p : Program Reply} (hp : p.Inside b sector next)
    (hs : (m.bay b).drive.state = .ready s) (h : Performs Lasting t m p act m') :
    act.Inside b sector next ∨ act.Served next := by
  cases hp with
  | publish => exact inside_or_served_of_publish hs h
  | complete => exact inside_or_served_of_complete h

/-- A machine after a step of one task, in which the others have stayed where they are. -/
private theorem leads_advance_others (t : TaskId) (m : Machine) :
    Leads (Run.advance t) m fun _ m' => ∀ u, u ≠ t → (m'.task u).activity = (m.task u).activity := by
  have hset : ∀ {m' : Machine} {act : Activity}, (∀ u, (m'.task u).activity = (m.task u).activity) →
      ∀ u, u ≠ t → ((m'.setActivity t act).task u).activity = (m.task u).activity := fun h u hu =>
    (activity_setActivity_of_ne hu _).trans (h u)
  apply leads_get
  cases hact : (m.task t).activity with
  | idle | asleep p => exact leads_pure fun _ _ => rfl
  | running p =>
    exact ((tolerates_unmoved t).performs_node p.at_any).bind fun act m₁ h =>
      leads_change (hset (registers_of_performs h).activity)
  | parking p =>
    have hsettle : Leads (Run.settle t p) m fun _ m' => ∀ u, (m'.task u).activity = (m.task u).activity := by
      apply leads_get
      split <;> exact leads_modify (leads_pure fun _ => rfl)
    exact hsettle.bind fun act m₁ h => leads_change (hset h)

private theorem leads_advance_inside (hin : (m.task t).activity.Inside b sector next)
    (hs : (m.bay b).drive.state = .ready s) :
    Leads (Run.advance t) m fun _ m' =>
      (m'.task t).activity.Inside b sector next ∨ (m'.task t).activity.Served next := by
  obtain ⟨p, hp, hsub⟩ := hin
  have ht : t < m.tasks.size := lt_of_activity fun hidle => by
    rw [hidle] at hp
    cases hp
  apply leads_get
  cases hact : (m.task t).activity with
  | idle =>
    rw [hact] at hp
    cases hp
  | asleep p' => exact leads_pure (.inl ⟨p, hp, hsub⟩)
  | running p' =>
    rw [hact] at hp
    cases hp
    have hnode := (tolerates_unmoved t).performs_node (m := m) p.at_any
    refine (((tolerates_lasting t).performs_node p.at_any).and hnode).bind fun act m₁ ⟨h, h'⟩ =>
      leads_change ?_
    rw [activity_setActivity ((registers_of_performs h').lt hact), if_pos rfl]
    exact inside_or_served_of_performs hsub hs h
  | parking p' =>
    rw [hact] at hp
    cases hp
    have hsettle : Leads (Run.settle t p) m fun act m' =>
        act.program? = some p ∧ m'.tasks.size = m.tasks.size := by
      apply leads_get
      split <;> exact leads_modify (leads_pure ⟨rfl, rfl⟩)
    refine hsettle.bind fun act m₁ ⟨hp, hsize⟩ => leads_change (.inl ⟨p, ?_, hsub⟩)
    rwa [activity_setActivity (hsize ▸ ht), if_pos rfl]

/-! ### Refusals and acceptance -/

private theorem leaves_submit_of_refused (hm : m.Calm) {e : BlockError}
    (h : (m.view b).accepts a = .error e) :
    Leaves (Run.submit t b a next) m (.running (next ⟨⟨.error e, a.data⟩, false⟩)) m := by
  refine leaves_get ?_
  rcases View.fails_of_refuses h with hfirst | ⟨sector, hfirst, hcheck⟩
  · simp only [show (m.bay b).drive.config.firstSector a.block a.data.length = _ from hfirst]
    exact leaves_pure _ m
  · simp only [show (m.bay b).drive.config.firstSector a.block a.data.length = _ from hfirst]
    refine Run.Returns.leaves (Run.returns_masked hm fun saved tasks events hback => Run.ends_get ?_)
    have hcheck' : ((({ m with tasks, events } : Machine).bay b).drive.state.checkSectors sector
        (m.bay b).drive.config.sectorsPerBlock) = .error e := hcheck
    simp only [hcheck']
    exact (hback _ rfl).bind fun _ _ hm' => Run.returns_pure ⟨rfl, hm'⟩

/-- An accepted submission is published or waits for descriptors, and its drive is ready. -/
private theorem leads_submit_of_accepted (h : (m.view b).accepts a = .ok (sector, s)) :
    Leads (Run.submit t b a next) m fun act m' =>
      (act.Inside b sector next ∨ act.Served next) ∧ (m'.bay b).drive.state.isReady = true := by
  obtain ⟨hfirst, hcheck⟩ := View.checks_of_accepts h
  have hs : (m.bay b).drive.state = .ready s := View.checkSectors_ok hcheck
  refine leads_get ?_
  simp only [show (m.bay b).drive.config.firstSector a.block a.data.length = _ from hfirst]
  refine (Run.leads_mask_bays t m).bind fun saved m₁ hm₁ => leads_get ?_
  -- masking delivers nothing, so the drive that is looked at is still the one that has accepted
  have hbay : m₁.bay b = m.bay b := by rw [bay, hm₁, bay]
  rw [hbay]
  simp only [show (m.bay b).drive.state.checkSectors sector (m.bay b).drive.config.sectorsPerBlock = _
    from hcheck]
  refine (leads_enterRequest a m₁).bind ?_
  rintro id m₂ ⟨-, rfl⟩
  have hs₂ : ((m₁.enter a).bay b).drive.state = .ready s :=
    (congrArg (fun y : Bay => y.drive.state) hbay).trans hs
  refine ((tolerates_lasting t).performs_publishOrPark trivial (.refl _) hs₂).mono fun act m' h => ?_
  obtain ⟨s', hs', -⟩ := (lasting_of_performs h).ready hs₂
  exact ⟨inside_or_served_of_publish hs₂ h, by rw [hs']; rfl⟩

theorem leads_advance_accepted (hact : (m.task t).activity = .running (.submit b a next))
    (h : (m.view b).accepts a = .ok (sector, s)) :
    Leads (Run.advance t) m fun _ m' =>
      ((m'.task t).activity.Inside b sector next ∨ (m'.task t).activity.Served next) ∧
        (m'.bay b).drive.state.isReady = true := by
  refine leads_get ?_
  rw [hact]
  have hnode : Leads (Run.submit t b a next) m (Performs Unmoved t m (.submit b a next)) :=
    (tolerates_unmoved t).performs_submit trivial
  refine Leads.bind (x := Run.submit t b a next) ((leads_submit_of_accepted h).and hnode) ?_
  intro act m₁ ⟨⟨hact₁, hready⟩, h'⟩
  refine leads_change ⟨?_, hready⟩
  rwa [activity_setActivity ((registers_of_performs h').lt hact), if_pos rfl]

theorem leaves_advance_refused (hm : m.Calm) (hact : (m.task t).activity = .running (.submit b a next))
    {e : BlockError} (h : (m.view b).accepts a = .error e) :
    Leaves (Run.advance t) m () (m.setActivity t (.running (next ⟨⟨.error e, a.data⟩, false⟩))) := by
  refine leaves_get ?_
  rw [hact]
  exact Leaves.bind (x := Run.submit t b a next) (leaves_submit_of_refused hm h) fun events =>
    ⟨events, rfl⟩

/-! ### Whatever goes on meanwhile -/

/-- One step of anything that may go on at a machine. Controllers may write anything into the memory that
they share with their drives, memory may get used up, and tasks may be woken without a reason. -/
inductive AdversarialStep (m : Machine) : Machine → Prop
  | step (m' : Machine) (h : m.Transition m') : AdversarialStep m m'
  | scribble (b : BayId) (s : ReadyState) (c : Controller) (shared : SharedMemory)
    (h : (m.bay b).drive.state = .ready s) : AdversarialStep m (m.putShared b s c shared)
  | stray (arena : Arena) (waiting : WaitQueue) (runnable : List TaskId) :
    AdversarialStep m { m with arena, waiting, runnable }

private theorem AdversarialStep.lasting (h : m.AdversarialStep m') : m.Lasting m' := by
  cases h with
  | step m' h => exact h.lasting
  | scribble b s c shared h => exact lasting_putShared h c shared
  | stray => exact lasting_of_bays rfl

private theorem AdversarialStep.calm (h : m.AdversarialStep m') (hm : m.Calm) : m'.Calm := by
  cases h with
  | step m' h => exact h.calm hm
  | scribble | stray => exact hm

theorem calm_of_adversarial (hm : m.Calm) (run : Relation.ReflTransGen AdversarialStep m m') : m'.Calm := by
  induction run with
  | refl => exact hm
  | tail _ h ih => exact h.calm ih

private theorem AdversarialStep.inside_or_served (h : m.AdversarialStep m')
    (hin : (m.task t).activity.Inside b sector next)
    (hs : (m.bay b).drive.state = .ready s) :
    (m'.task t).activity.Inside b sector next ∨ (m'.task t).activity.Served next := by
  have hstill : ∀ {m' : Machine}, (m'.task t).activity = (m.task t).activity →
      (m'.task t).activity.Inside b sector next ∨ (m'.task t).activity.Served next := fun h => .inl (h ▸ hin)
  have hset : ∀ {u act}, u ≠ t → ((m.setActivity u act).task t).activity = (m.task t).activity :=
    fun hu => activity_setActivity_of_ne hu.symm _
  have hne : ∀ {u p}, (m.task u).activity.program? = p →
      (∀ q, p = some q → ¬q.Inside b sector next) → u ≠ t := by
    rintro u p hp hnot rfl
    obtain ⟨q, hq, hsub⟩ := hin
    exact hnot q (hp.symm.trans hq) hsub
  cases h with
  | scribble | stray => exact hstill rfl
  | step m' h =>
    cases h with
    | register r n m' h =>
      rw [(Run.leads_register r m).of_ok h]
      exact hstill rfl
    | newSleepLock name value lock m' h =>
      rw [Run.run_newSleepLock] at h
      cases h
      exact hstill rfl
    | newGate gate m' h =>
      cases h
      exact hstill rfl
    -- a task that calls or is told a reply is not inside of a submission
    | call u p h => exact hstill (hset (hne (congrArg Activity.program? h) nofun))
    | reply u r h =>
      refine hstill (hset (hne (congrArg Activity.program? h) fun q hq hsub => ?_))
      cases hq
      cases hsub
    | rouse u p h =>
      by_cases hu : u = t
      · subst hu
        obtain ⟨q, hq, hsub⟩ := hin
        rw [h] at hq
        cases hq
        have ht : u < m.tasks.size := lt_of_activity fun hidle => by cases hidle.symm.trans h
        refine .inl ⟨p, ?_, hsub⟩
        change ((m.setActivity u (.running p)).task u).activity.program? = some p
        rw [activity_setActivity ht, if_pos rfl]
        rfl
      · exact hstill (hset hu)
    | advance u m' h =>
      by_cases hu : u = t
      · subst hu
        exact (leads_advance_inside hin hs).of_ok h
      · exact hstill ((leads_advance_others u m).of_ok h t fun htu => hu htu.symm)
    | environment m' h => exact hstill (h.unmoved.activity t)

/-- A submission that has been accepted by a drive that is ready stays inside until it is served. -/
theorem inside_or_served_of_adversarial
    (hact : (m.task t).activity.Inside b sector next ∨ (m.task t).activity.Served next)
    (hready : (m.bay b).drive.state.isReady = true)
    (run : Relation.ReflTransGen
      (fun m m' => (m.task t).activity.Inside b sector next ∧ m.AdversarialStep m') m m') :
    ((m'.task t).activity.Inside b sector next ∨ (m'.task t).activity.Served next) ∧
      (m'.bay b).drive.state.isReady = true := by
  induction run with
  | refl => exact ⟨hact, hready⟩
  | tail _ h ih =>
    obtain ⟨s, hs⟩ := DriveState.ready_of_isReady ih.2
    obtain ⟨s', hs', -⟩ := h.2.lasting.ready hs
    exact ⟨h.2.inside_or_served h.1 hs, by rw [hs']; rfl⟩

/-- What a task that is about to submit an access may count on. -/
structure SubmitsCleanly (m : Machine) (t : TaskId) (b : BayId) (a : BlockAccess)
    (next : SubmitReply → Program Reply) : Prop where
  /-- A buffer of another size than one block is refused for its size, and no other is. -/
  size : (m.view b).accepts a = .error .invalidBufferSize ↔
    a.data.length ≠ (m.bay b).drive.config.blockSize
  /-- A refusal is the reply of one step of the task, which changes nothing else. -/
  refused : ∀ e, (m.view b).accepts a = .error e →
    Run.Leaves (Run.advance t) m () (m.setActivity t (.running (next ⟨⟨.error e, a.data⟩, false⟩)))
  /-- Once the drive has accepted, the task stays inside of the submission, for the sector that has been
  checked, until it is told that all went well. -/
  accepted : ∀ sector s, (m.view b).accepts a = .ok (sector, s) → ∀ m₁ m',
    (Run.advance t).run.run m = (.ok (), m₁) →
    Relation.ReflTransGen (fun m m' => (m.task t).activity.Inside b sector next ∧ m.AdversarialStep m')
      m₁ m' →
    (m'.task t).activity.Inside b sector next ∨ (m'.task t).activity.Served next

/-- Whatever has gone on at a machine, a submission fails without a trace or not at all. -/
theorem submitsCleanly_of_run {m₀ : Machine} (calm : m₀.Calm)
    (run : Relation.ReflTransGen AdversarialStep m₀ m)
    (hact : (m.task t).activity = .running (.submit b a next)) : m.SubmitsCleanly t b a next where
  size := View.accepts_eq_invalidBufferSize_iff
  refused _ h := leaves_advance_refused (calm_of_adversarial calm run) hact h
  accepted _ _ h m₁ m' hadvance hsteps := by
    obtain ⟨hact₁, hready⟩ := (leads_advance_accepted hact h).of_ok hadvance
    exact (inside_or_served_of_adversarial hact₁ hready hsteps).1

/-! ### One submission -/

/-- Two tasks and a drive that has not been brought up. -/
def shelved (config : DriveConfig) (capacity : Nat) : Machine :=
  ({ tasks := #[{ name := "ctl" }, { name := "first" }] } : Machine).addDrive
    ⟨0, config, { window := Controller.windowOf capacity [], mode := .manual }⟩

/-- The drive has been brought up, and a task is about to submit an access. -/
def calledFor (m : Machine) (a : BlockAccess) : Machine :=
  ((Run.bringUp 0).run.run m).2.setActivity 1 (.running (.submit 0 a fun r => .done (.block r)))

theorem calm_shelved (config : DriveConfig) (capacity : Nat) :
    (shelved config capacity).Calm := fun t _ => by
  rcases t with _ | _ | t <;> rfl

theorem adversarial_calledFor (a : BlockAccess) (hidle : (m.task 1).activity = .idle)
    (hup : ((Run.bringUp 0).run.run m).1.toBool = true) :
    Relation.ReflTransGen AdversarialStep m (m.calledFor a) := by
  obtain ⟨r, hr⟩ := Run.ok_of_toBool hup
  have hstir : m.EnvironmentStep ((Run.bringUp 0).run.run m).2 := .bringUp 0 r _ hr
  exact (Relation.ReflTransGen.single (.step _ (.environment _ hstir))).tail
    (.step _ (.call 1 _ ((hstir.unmoved.activity 1).trans hidle)))

private theorem activity_calledFor (a : BlockAccess) (ht : 1 < ((Run.bringUp 0).run.run m).2.tasks.size) :
    ((m.calledFor a).task 1).activity = .running (.submit 0 a fun r => .done (.block r)) := by
  rw [calledFor, activity_setActivity ht, if_pos rfl]

def firstWrite : BlockAccess := ⟨0, true, List.replicate 1024 7⟩

theorem submitsCleanly_of_run_sample :
    (shelved {} 128).Calm ∧
      Relation.ReflTransGen AdversarialStep (shelved {} 128) ((shelved {} 128).calledFor firstWrite) ∧
      (((shelved {} 128).calledFor firstWrite).task 1).activity =
        .running (.submit 0 firstWrite fun r => .done (.block r)) ∧
      ((Run.advance 1).run.run ((shelved {} 128).calledFor firstWrite)).1.toBool = true ∧
      ((shelved {} 128).calledFor firstWrite).SubmitsCleanly 1 0 firstWrite fun r => .done (.block r) := by
  have hcalm := calm_shelved {} 128
  have hrun : Relation.ReflTransGen AdversarialStep (shelved {} 128)
      ((shelved {} 128).calledFor firstWrite) :=
    adversarial_calledFor firstWrite rfl (by decide +kernel)
  have hact := activity_calledFor (m := shelved {} 128) firstWrite (by decide +kernel)
  exact ⟨hcalm, hrun, hact, by decide +kernel, submitsCleanly_of_run hcalm hrun hact⟩

end Machine

end DiskStack
