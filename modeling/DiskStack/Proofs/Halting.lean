import DiskStack.Proofs.Places
import DiskStack.Proofs.DriveInvariant

/-!
# What halts a submission

A step of a task may halt in an interrupt that comes in, at a reported head that nobody waits for or
whose request has failed. On a machine that is watched nothing else in a submission, in a handler or
in what they do to the rings halts, whatever the controller has written to the shared memory; and the
rings change by the turns that are known of them, also up to a halt.
-/

namespace DiskStack

/-- Whether a program is inside of a submission, or about to begin one. -/
def Program.isSubmission {α : Type} : Program α → Bool
  | .submit .. | .publish .. | .complete .. => true
  | _ => false

namespace Machine

variable {m m' m'' : Machine} {b : BayId}

/-- Whether turns lead from the rings of a drive on one machine to those on another. -/
def Evolves (m : Machine) (b : BayId) (m' : Machine) : Prop :=
  ∀ s, (m.bay b).drive.state = .ready s →
    ∃ s', (m'.bay b).drive.state = .ready s' ∧ Relation.ReflTransGen Rings.Turn s.rings s'.rings

private theorem Evolves.refl (m : Machine) (b : BayId) : m.Evolves b m := fun s hs => ⟨s, hs, .refl⟩

private theorem Evolves.trans (h : m.Evolves b m') (h' : m'.Evolves b m'') : m.Evolves b m'' :=
  fun s hs => by
  obtain ⟨s', hs', hturns⟩ := h s hs
  obtain ⟨s'', hs'', hturns'⟩ := h' s' hs'
  exact ⟨s'', hs'', hturns.trans hturns'⟩

private theorem evolves_of_state (h : (m'.bay b).drive.state = (m.bay b).drive.state) : m.Evolves b m' :=
  fun s hs => ⟨s, h.trans hs, .refl⟩

private theorem Alike.evolves (h : m.Alike b m') : m.Evolves b m' :=
  evolves_of_state (congrArg View.state h.view)

private theorem Evolves.setRequests (h : m.Evolves b m') (r : RequestTable) :
    m.Evolves b (m'.setRequests r) := h

private theorem evolves_of_turn {s s' : ReadyState} {bay : Bay} (hs : (m.bay b).drive.state = .ready s)
    (h : s.rings.Turn s'.rings) (hbay : m'.bay b = bay) (hs' : bay.drive.state = .ready s') :
    m.Evolves b m' := by
  intro s₀ hs₀
  cases hs.symm.trans hs₀
  exact ⟨s', hbay ▸ hs', .single h⟩

/-- Whether the rings of a drive, as turns have left them, are those of another machine up to the element
that halts the handler. -/
def Breaks (m : Machine) (b : BayId) (e : Halt) (m' : Machine) : Prop :=
  ∀ s, (m.bay b).drive.state = .ready s →
    ∃ q s', Relation.ReflTransGen Rings.Turn s.rings q ∧ q.collect = (.error e, s'.rings) ∧
      (m'.bay b).drive.state = .ready s'

private theorem Evolves.breaks {e : Halt} (h : m.Evolves b m') (h' : m'.Breaks b e m'') :
    m.Breaks b e m'' :=
  fun s hs => by
    obtain ⟨s', hs', hturns⟩ := h s hs
    obtain ⟨q, s'', hturns', hc, hs''⟩ := h' s' hs'
    exact ⟨q, s'', hturns.trans hturns', hc, hs''⟩

end Machine

namespace Run

open Machine

variable {α β : Type} {m : Machine} {b : BayId} {Q : α → Machine → Prop}

/-- A run that changes the rings by turns, and that halts, if at all, at what the controller has
reported. -/
def Safe (b : BayId) (x : Run α) (m : Machine) : Prop :=
  Ends x m fun r m' =>
    match r with
    | .ok _ => m.Evolves b m'
    | .error e => e.isReport = true ∧ m.Breaks b e m'

private theorem safe_pure (a : α) : Safe b (pure a) m := Evolves.refl m b

private theorem safe_change {g : Machine → Machine} (h : m.Evolves b (g m)) : Safe b (modify g) m := h

private theorem safe_get {f : Machine → Run α} (h : Safe b (f m) m) : Safe b (get >>= f) m := h

private theorem Safe.after {m' : Machine} {x : Run α} (h : Safe b x m') (hm : m.Evolves b m') :
    Ends x m' fun r m'' =>
      match r with
      | .ok _ => m.Evolves b m''
      | .error e => e.isReport = true ∧ m.Breaks b e m'' := by
  rw [Safe] at h
  refine h.mono ?_
  rintro (e | _) m'' hr
  · exact ⟨hr.1, hm.breaks hr.2⟩
  · exact hm.trans hr

private theorem safe_set {m' : Machine} {f : PUnit → Run α} (hm : m.Evolves b m') (h : Safe b (f ⟨⟩) m') :
    Safe b (set m' >>= f) m := h.after hm

private theorem safe_modify {g : Machine → Machine} {f : PUnit → Run α} (hm : m.Evolves b (g m))
    (h : Safe b (f ⟨⟩) (g m)) : Safe b (modify g >>= f) m := safe_set hm h

private theorem Safe.bind {x : Run α} {f : α → Run β} (hx : Safe b x m) (hl : Leads x m Q)
    (h : ∀ a m', Q a m' → Safe b (f a) m') : Safe b (x >>= f) m := by
  apply ends_bind
  rw [Safe, Ends] at hx
  rw [Leads, Ends] at hl
  rw [Ends]
  split
  · next a ha =>
    rw [ha] at hx
    exact (h a _ (hl a ha)).after hx
  · next e he =>
    rw [he] at hx
    exact hx

private theorem Safe.seq {x : Run α} {f : α → Run β} (hx : Safe b x m) (h : ∀ a m', Safe b (f a) m') :
    Safe b (x >>= f) m := hx.bind (leads_any x) fun a m' _ => h a m'

private theorem safe_mask (t : TaskId) : Safe b (mask t) m := by
  apply safe_get
  split
  · exact safe_set (evolves_of_state rfl) (safe_pure _)
  · exact safe_pure _

private theorem safe_log (level : LogLevel) (source text : String) : Safe b (log level source text) m :=
  safe_change (alike_log level source text).evolves

private theorem exists_logFailure {e : Halt} (h : e.isReport = true) :
    ∃ text, logFailure e = log .error driveSource text := by
  cases e with
  | unknownHead _ | failedStatus _ _ => exact ⟨_, rfl⟩
  | _ => cases h

private theorem safe_ask (hb : b < m.bays.size) (q : Query) : Safe b (ask b q) m :=
  safe_get (safe_set ((alike_mapController hb rfl).trans (alike_emit _)).evolves (safe_pure _))

private theorem safe_command (hb : b < m.bays.size) (c : Command) : Safe b (command b c) m :=
  safe_change ((alike_mapController hb (Controller.image_tell _ c)).trans (alike_emit _)).evolves

/-! ### Handlers -/

section handlers

variable {b : BayId} {g : TaskId → Activity → Activity}

private theorem safe_completeNext (hm : m.DriveInvariant b g) {s : ReadyState}
    (hs : (m.bay b).drive.state = .ready s) :
    Safe b (completeNext b s) m := by
  have hbalanced := hm.watched.regular.balanced hs
  rcases hbalanced.complete_cases with ⟨h, e, he, hc, hcomplete⟩ | ⟨e, q, hreport, hc, -⟩
  · refine (ends_completeNext_settle hbalanced he hc).mono ?_
    rintro _ _ ⟨rfl, rfl⟩
    have hturn := Rings.Turn.complete _ _ hcomplete
    exact evolves_of_turn hs hturn (bay_settle hm.present) rfl
  · obtain ⟨text, hlog⟩ := exists_logFailure hreport
    refine (ends_completeNext_stop hc hlog).mono ?_
    rintro _ _ ⟨rfl, rfl⟩
    refine ⟨hreport, fun s' hs' => ?_⟩
    cases hs.symm.trans hs'
    exact ⟨s.rings, { s with rings := q }, .refl, hc, by rw [bay_stopped hm.present]⟩

theorem safe_completionStep (hm : m.DriveInvariant b g) (point : CompletionPoint) :
    Safe b (completionStep b point) m := by
  apply safe_get
  cases hs : (m.bay b).drive.state with
  | uninitialized | incompatible => exact safe_pure _
  | ready s =>
    cases point with
    | reading => exact (safe_ask hm.present _).seq fun _ _ => safe_pure _
    | acknowledging causes => exact (safe_command hm.present _).seq fun _ _ => safe_pure _
    | looking | finished => exact safe_pure _
    | taking => exact (safe_completeNext hm hs).seq fun _ _ => safe_pure _

private theorem safe_completionSteps (k : Nat) (hm : m.DriveInvariant b g) (point : CompletionPoint) :
    Safe b (completionSteps b k point) m := by
  induction k generalizing m point with
  | zero => exact safe_pure _
  | succ k ih =>
    have hnext := (robust_driveInvariant b g).keeps_completionStep point m hm
    cases point with
    | finished => exact safe_pure _
    | _ => exact (safe_completionStep hm _).bind hnext fun next _ hm' => ih hm' next

private theorem safe_putBack (t : TaskId) (saved : Bool) : Safe b (putBack t saved) m := by
  rw [putBack]
  split
  · exact safe_change (evolves_of_state rfl)
  · exact safe_pure _

private theorem safe_completeAll (hm : m.DriveInvariant b g) : Safe b (completeAll b) m := safe_get (by
  split
  · exact safe_completionSteps _ hm _
  · exact safe_log _ _ _)

theorem safe_handleCompletion (hm : m.DriveInvariant b g) (t : TaskId) :
    Safe b (handleCompletion t b) m := by
  refine (safe_mask t).bind ((robust_driveInvariant b g).keeps_mask t m hm) fun saved m' hm' => ?_
  exact (safe_completeAll hm').seq fun _ _ => safe_putBack t saved

private theorem safe_addToMutex (mutex : Nat) : Safe b (addToMutex mutex) m := safe_get (by
  split
  · exact safe_pure _
  · exact safe_set (evolves_of_state rfl) (safe_pure _))

private theorem safe_probeMutex (t : TaskId) (mutex : Nat) : Safe b (probeMutex t mutex) m :=
  (safe_mask t).seq fun saved _ => (safe_addToMutex mutex).seq fun _ _ =>
    (safe_putBack t saved).seq fun _ _ => safe_pure _

private theorem safe_handler (hm : m.DriveInvariant b g) (t : TaskId) {i : Interrupt}
    (hi : m.Concerns b i) :
    Safe b (handler t i) m := by
  cases i with
  | completion number =>
    apply safe_get
    cases hb : m.bayOf? number with
    | some b' =>
      cases hi number b' rfl hb
      exact safe_handleCompletion hm t
    | none => exact safe_log _ _ _
  | probe name mutex =>
    cases mutex with
    | some i =>
      refine (safe_probeMutex t i).seq fun _ _ => ?_
      exact safe_get (safe_change (evolves_of_state rfl))
    | none => exact safe_get (safe_change (evolves_of_state rfl))

private theorem safe_handle (hm : m.DriveInvariant b g) (t : TaskId) {i : Interrupt} (hi : m.Concerns b i) :
    Safe b (handle t i) m := by
  have hmasked := alike_mapCore (m := m) (b := b) t (f := Core.disable) fun _ _ hj => .inl hj
  have hm' := (robust_driveInvariant b g).alike m _ hm hmasked
  refine safe_modify hmasked.evolves ?_
  refine (safe_handler hm' t (hmasked.concerns.2 hi)).seq fun _ _ => ?_
  exact safe_change (evolves_of_state rfl)

private theorem safe_deliver (hm : m.DriveInvariant b g) (t : TaskId) (k : Nat) :
    Safe b (deliver t k) m := by
  have hrobust := robust_driveInvariant b g
  induction k generalizing m with
  | zero => exact safe_pure _
  | succ k ih =>
    apply safe_get
    cases hpending : (m.task t).core.pending with
    | nil => exact safe_pure _
    | cons i rest =>
      have hi : m.Concerns b i := hm.heard t i (by rw [hpending]; exact List.mem_cons_self ..)
      have hdropped := alike_mapCore (m := m) (b := b) t (f := Core.dropPending)
        fun _ _ hj => .inl (List.mem_of_mem_tail hj)
      have hm' := hrobust.alike m _ hm hdropped
      have hi' := hdropped.concerns.2 hi
      refine safe_modify hdropped.evolves ?_
      exact (safe_handle hm' t hi').bind (hrobust.leads_handle hm' t hi') fun _ _ hm'' => ih hm''

private theorem safe_restore (hm : m.DriveInvariant b g) (t : TaskId) (saved : Bool) :
    Safe b (restore t saved) m := by
  rw [restore]
  cases saved with
  | false => exact safe_pure _
  | true =>
    have halike := (alike_emit (m := m) (b := b) (.unmask t)).trans
      (alike_mapCore t (f := Core.enable) fun _ _ hi => .inl hi)
    rw [if_pos rfl]
    have hm' := (robust_driveInvariant b g).alike m _ hm halike
    exact safe_modify halike.evolves (safe_get (safe_deliver hm' t _))

private theorem safe_raise (hm : m.DriveInvariant b g) (t : TaskId) {i : Interrupt} (hi : m.Concerns b i) :
    Safe b (raise t i) m := by
  apply safe_get
  split
  · exact safe_handle hm t hi
  · exact safe_change (evolves_of_state rfl)

private theorem safe_work (hm : m.DriveInvariant b g) (order : Option (List Nat)) :
    Safe b (work b order) m := by
  have halike := alike_mapController hm.present (f := fun c => { c with notified := false }) rfl
  have hb : b < (m.mapController b fun c => { c with notified := false }).bays.size :=
    halike.size ▸ hm.present
  refine safe_modify halike.evolves ?_
  generalize m.mapController b (fun c => { c with notified := false }) = m₁ at hb ⊢
  apply safe_get
  cases hshared : m₁.shared? b with
  | none => exact safe_pure _
  | some p =>
    obtain ⟨s, shared⟩ := p
    obtain ⟨hs, rfl⟩ := of_shared? hshared
    have hturn := Rings.Turn.overwrite _
      (Controller.overwritten_work (m₁.bay b).controller ⟨s.rings, m₁.requests⟩ order)
    exact safe_set (evolves_of_turn hs hturn (bay_putShared hb s _ _) rfl) (safe_pure _)

end handlers

/-! ### Submissions -/

section submissions

variable {b : BayId} {t : TaskId} {p p' : Program Reply} {a : Activity} {id : RequestId}
  {sector : Nat} {ticket : UInt64} {next : SubmitReply → Program Reply}

private theorem safe_park (saved : Bool) {c : Channel} (hm : (m.prepare t c).Midway b t a) :
    Safe b (park t saved c p) m :=
  safe_modify (evolves_of_state rfl)
    ((safe_restore hm.1 t saved).seq fun _ _ => safe_pure _)

private theorem safe_proceed (hm : m.Midway b t a) (saved : Bool) : Safe b (proceed t saved p) m :=
  (safe_restore hm.1 t saved).seq fun _ _ => safe_pure _

private theorem safe_notify (hm : m.Midway b t a) : Safe b (notify t b) m := by
  have htold := (robust_midway b t a).keeps_command (.notifyQueue 0) m hm
  refine (safe_command hm.1.present _).bind htold fun _ m' hm' => safe_get ?_
  by_cases hmode : (m'.bay b).controller.mode = .sameCore
  · rw [if_pos hmode]
    refine (safe_work hm'.1 none).bind (leads_work hm'.1 none) fun _ m'' ⟨hdrive, _, hregistry⟩ => ?_
    exact safe_raise hdrive t ((concerns_congr hregistry _).2 hm'.1.wired)
  · rw [if_neg hmode]
    exact safe_pure _

private theorem safe_finishOrPark (hm : m.Midway b t (.running (.complete b id ticket next)))
    (saved : Bool) :
    Safe b (finishOrPark t saved b id ticket next) m := by
  apply safe_get
  by_cases hpending : m.requests.isPending id = true
  · rw [if_pos hpending]
    exact safe_park saved (hm.park hm.underway rfl rfl hpending)
  · rw [if_neg hpending]
    have hrestored := (robust_midway b t _).keeps_restore t saved m hm
    refine (safe_restore hm.1 t saved).bind hrestored fun _ m' hm' => safe_get ?_
    generalize (m'.requests.find? id).getD (.fresh 0 false [] 0) = request
    have hcounted := (alike_setStats hm'.1.present (·.countRequest request.write)).evolves
    exact safe_set (hcounted.setRequests (m'.requests.erase id)) (safe_pure _)

private theorem safe_publishOrPark (hm : m.Midway b t (.running (.publish b id sector next))) (saved : Bool)
    {s : ReadyState} (hs : (m.bay b).drive.state = .ready s) :
    Safe b (publishOrPark t saved b s id sector next) m := by
  apply safe_get
  obtain ⟨q, hq, hcases⟩ := hm.publish_cases hs
  rw [hq]
  rcases hcases with ⟨hfew, hp⟩ | ⟨chain, r, hp, hlaunched⟩
  · simp only [Option.getD_some, hp]
    exact safe_park saved (hm.park hm.underway rfl rfl ⟨s, hs, hfew⟩)
  · simp only [Option.getD_some, hp]
    have hsubmit := s.left_publish? id q.write sector q.address q.data.length
    rw [hp] at hsubmit
    have hbay := bay_setState (.ready (s.published r)) hm.1.present
    refine safe_set (evolves_of_turn hs (.submit _ _ _ hsubmit.symm) hbay rfl) ?_
    refine (safe_notify hlaunched).bind (keeps_notify _ hlaunched) fun _ m₁ hm₁ => ?_
    refine (safe_log _ _ _).bind ((robust_midway b t _).keeps_log _ _ _ m₁ hm₁) fun _ m₂ hm₂ => ?_
    exact safe_finishOrPark hm₂ saved

private theorem safe_publishAgain (hm : m.Midway b t (.running (.publish b id sector next))) :
    Safe b (publishAgain t b id sector next) m := by
  refine (safe_mask t).bind ((robust_midway b t _).keeps_mask t m hm) fun saved m₁ hm₁ => safe_get ?_
  obtain ⟨s, hs⟩ := hm₁.watched.regular.isReady (View.stage_of_running (View.act_self _))
  have hs' : (m₁.bay b).drive.state = .ready s := hs
  rw [hs']
  exact safe_publishOrPark hm₁ saved hs'

private theorem safe_submit {a : BlockAccess} (hm : m.Midway b t (.running (.submit b a next))) :
    Safe b (submit t b a next) m := by
  have hnext := hm.underway.of_submit
  apply safe_get
  cases hfirst : (m.bay b).drive.config.firstSector a.block a.data.length with
  | error e =>
    simp only [hfirst]
    exact safe_pure _
  | ok sector =>
    obtain ⟨hlen, rfl, hlt⟩ := View.firstSector_ok hfirst
    simp only [hfirst]
    refine (safe_mask t).bind (leads_mask (b := b) t m) fun saved m₁ halike => safe_get ?_
    have hm₁ := (robust_midway b t _).alike m m₁ hm halike
    have hconfig : (m.bay b).drive.config = (m₁.bay b).drive.config :=
      (congrArg View.config halike.view).symm
    rw [hconfig] at hlen hlt ⊢
    split
    · exact safe_proceed hm₁ saved
    · next s hcheck =>
      have hs := View.checkSectors_ok hcheck
      have hentered := leads_enterRequest hm₁ hs hlen hlt hnext
      have hsafe : Safe b (enterRequest a) m₁ :=
        safe_get (safe_set (evolves_of_state rfl) (safe_pure _))
      refine hsafe.bind hentered fun id m₂ ⟨hm₂, hs₂⟩ => ?_
      exact safe_publishOrPark hm₂ saved hs₂

private theorem safe_settle : Safe b (settle t p) m := by
  apply safe_get
  split
  · exact safe_modify (evolves_of_state rfl) (safe_pure _)
  · exact safe_modify (evolves_of_state rfl) (safe_pure _)

/-- A step of a task inside of a submission halts, if at all, at what the controller has reported. -/
theorem safe_advance (hm : m.DriveInvariant b plain) (hp : (m.task t).activity.program? = some p)
    (hsubmission : p.isSubmission = true) : Safe b (advance t) m := by
  have hunder := hm.watched.regular.underway (t := t) hp
  apply safe_get
  cases hact : (m.task t).activity with
  | idle | asleep p => exact safe_pure _
  | parking p => exact safe_settle.seq fun _ _ => safe_change (evolves_of_state rfl)
  | running p' =>
    rw [hact] at hp
    cases hp
    have hm' := hm.midway hact
    have hnode : Safe b (node t p) m := by
      cases hunder with
      | publish id sector next _ => exact safe_publishAgain hm'
      | complete id ticket next _ =>
        refine (safe_mask t).bind ((robust_midway b t _).keeps_mask t m hm') fun saved _ hm₁ => ?_
        exact safe_finishOrPark hm₁ saved
      | asks _ h =>
        cases h with
        | submit a next _ => exact safe_submit hm'
        | _ => cases hsubmission
    exact hnode.seq fun _ _ => safe_change (evolves_of_state rfl)

end submissions

end Run

/-! ### Submissions that are not interrupted -/

section steady

variable {b : BayId} {v : View} {m : Machine} {t : TaskId} {p : Program Reply}

private theorem View.Regular.halts (hr : v.Regular b) (h : v.Halts b p) : ∃ e, p = .halt e := by
  cases h with
  | halt e => exact ⟨e, rfl⟩
  | submit _ _ s _ c sub e ha hc hp =>
    obtain ⟨hs, -⟩ := View.ready_of_accepts ha
    obtain ⟨q, hq, -⟩ := (hr.balanced hs).sound.exists_published hc sub
    cases hp.symm.trans hq
  | publish _ _ _ s c sub e hs hc hp =>
    obtain ⟨q, hq, -⟩ := (hr.balanced hs).sound.exists_published hc sub
    cases hp.symm.trans hq

private theorem View.Regular.running (hr : v.Regular b) (h : v.activity t = .running p) :
    p.Underway b ∧ v.Live p := by
  have hunder := hr.underway (t := t) (by rw [h]; rfl)
  have hstage := View.stage_of_running h
  refine ⟨hunder, ?_⟩
  cases hunder with
  | asks _ hasks => cases hasks <;> trivial
  | publish | complete => exact hr.live hstage

/-- Where no interrupt comes in, a step of a task inside of a submission does not halt. -/
theorem Machine.DriveInvariant.exists_advance (hm : m.DriveInvariant b Machine.plain) (hsteady : m.Steady b)
    (hp : (m.task t).activity.program? = some p) (hsubmission : p.isSubmission = true) :
    ∃ m', (Run.advance t).run.run m = (.ok (), m') := by
  have hr : (m.view b).Regular b := hm.watched.regular
  have hlive : ∀ p', (m.view b).activity t = .running p' → p'.Underway b ∧ (m.view b).Live p' :=
    fun p' hact => hr.running hact
  have hends := Run.ends_advance hsteady.shows hlive
  rw [Run.Ends] at hends
  split at hends
  · next hok => exact ⟨_, Prod.ext hok rfl⟩
  · next e _ =>
    obtain ⟨p', hact, hhalts⟩ := hends
    obtain ⟨e', rfl⟩ := hr.halts hhalts
    have hsame : (m.task t).activity = .running (.halt e') := hact
    rw [hsame] at hp
    cases hp
    cases hsubmission

end steady

end DiskStack
