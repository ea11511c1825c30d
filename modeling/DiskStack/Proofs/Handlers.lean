import DiskStack.Proofs.Interrupts

/-!
# What handlers change

A handler masks its core, asks and tells a controller, takes finished requests off the used ring of a
drive, wakes those who wait for the drive, and takes a short lock only to free it again. A relation between
machines that overlooks these changes holds between the machines before and after a handler.
-/

namespace DiskStack

namespace Machine

theorem enabled_mapCore_disable (m : Machine) (t : TaskId) :
    ((m.mapCore t Core.disable).task t).core.enabled = false := by
  rw [mapCore, task_mapTask]
  split
  · rfl
  · next h =>
    have hsize : m.tasks.size ≤ t := Nat.le_of_not_lt fun ht => h ⟨rfl, ht⟩
    rw [task, Array.getD_eq_getD_getElem?, Array.getElem?_eq_none hsize]
    rfl

end Machine

namespace Run

variable {α β : Type} {R : Machine → Machine → Prop}

/-- A run whose changes a relation overlooks, unless the run halts. -/
def Within (R : Machine → Machine → Prop) (x : Run α) : Prop := ∀ m, Leads x m fun _ m' => R m m'

theorem within_get {f : Machine → Run α} (h : ∀ m, Within R (f m)) : Within R (get >>= f) :=
  fun m => leads_get (h m m)

theorem within_modify {g : Machine → Machine} (h : ∀ m, R m (g m)) : Within R (modify g) :=
  fun m => leads_change (h m)

/-- Masking tells whether the flag was on, and puts it off if short locks mask at all. -/
theorem ends_masked (t : TaskId) (m : Machine) : Ends (mask t) m fun r m' =>
    r = .ok (m.interruptControl && (m.task t).core.enabled) ∧
      m' = if m.interruptControl then (m.emit (.mask t)).mapCore t Core.disable else m := by
  apply ends_get
  cases m.interruptControl with
  | false => exact ends_pure ⟨rfl, rfl⟩
  | true => exact ends_set (ends_pure ⟨rfl, rfl⟩)

private theorem leads_mask_off {t : TaskId} {m : Machine} (off : (m.task t).core.enabled = false) :
    Leads (mask t) m fun saved _ => saved = false :=
  (ends_masked t m).mono fun r _ h a ha => by
    rw [off, Bool.and_false] at h
    cases h.1.symm.trans ha
    rfl

end Run

/-- A reflexive and transitive relation that overlooks the journal, the log and the registers of some
drives' controllers. -/
structure Lenient (D : BayId → Prop) (R : Machine → Machine → Prop) : Prop where
  refl : ∀ m, R m m
  trans : ∀ {m m' m''}, R m m' → R m' m'' → R m m''
  emit : ∀ m e, e.kind ≠ .scheduling → R m (m.emit e)
  log : ∀ m level source text, R m (m.log level source text)
  controller : ∀ m b f, D b → R m (m.mapController b f)

/-- One that also overlooks what a handler on a core changes, if it is one of these drives'. -/
structure Overlooks (t : TaskId) (D : BayId → Prop) (R : Machine → Machine → Prop) : Prop
    extends Lenient D R where
  disable : ∀ m, R m (m.mapCore t Core.disable)
  complete : ∀ m b s head e q r, D b → (m.bay b).drive.state = .ready s →
    s.rings.collect = (.ok (head, e), q) → q.release head = .ok r → R m ((m.complete b s e q r).counted b)
  probe : ∀ (m : Machine) i l l' value, m.mutexes[i]? = some l → l.tryLock = some l' →
    R m { m with mutexes := m.mutexes.setIfInBounds i { l' with value }.unlock }

/-- One that overlooks each single change that a handler makes, whichever drive's it is. -/
structure OverlooksEach (t : TaskId) (R : Machine → Machine → Prop) : Prop where
  refl : ∀ m, R m m
  trans : ∀ {m m' m''}, R m m' → R m' m'' → R m m''
  emit : ∀ m e, R m (m.emit e)
  log : ∀ m level source text, R m (m.log level source text)
  disable : ∀ m, R m (m.mapCore t Core.disable)
  controller : ∀ m b f, R m (m.mapController b f)
  state : ∀ m b s, R m (m.setState b s)
  stats : ∀ m b (f : DriveStats → DriveStats), R m (m.mapDrive b fun d => { d with stats := f d.stats })
  requests : ∀ m r, R m (m.setRequests r)
  wake : ∀ m c, (∀ key, c ≠ .lock key) → R m (m.wake c)
  probe : ∀ (m : Machine) i l l' value, m.mutexes[i]? = some l → l.tryLock = some l' →
    R m { m with mutexes := m.mutexes.setIfInBounds i { l' with value }.unlock }

namespace OverlooksEach

variable {t : TaskId} {R : Machine → Machine → Prop}

private theorem complete (hR : OverlooksEach t R) (m : Machine) (b : BayId) (s : ReadyState) (e : InFlight)
    (q r : Rings) : R m ((m.complete b s e q r).counted b) := by
  have hcompletion : ∀ key, (m.bay b).drive.completionChannel e.ticket ≠ .lock key := fun key => by
    simp [Drive.completionChannel]
  have hdescriptors : ∀ key, (m.bay b).drive.descriptorChannel ≠ .lock key := fun key => by
    simp [Drive.descriptorChannel]
  have hcollected := hR.trans (hR.state m b (.ready { s with rings := q }))
    (hR.requests _ (m.requests.setPending e.request false))
  have hreleased := hR.trans (hR.trans hcollected (hR.wake _ _ hcompletion))
    (hR.state _ b (.ready { s with rings := r }))
  exact hR.trans (hR.trans hreleased (hR.wake _ _ hdescriptors)) (hR.stats _ b DriveStats.countCompletion)

theorem overlooks (hR : OverlooksEach t R) (D : BayId → Prop) : Overlooks t D R where
  refl := hR.refl
  trans := hR.trans
  emit m e _ := hR.emit m e
  log := hR.log
  controller m b f _ := hR.controller m b f
  disable := hR.disable
  complete m b s _ e q r _ _ _ _ := hR.complete m b s e q r
  probe := hR.probe

end OverlooksEach

namespace Lenient

open Run

variable {α β : Type} {D : BayId → Prop} {R : Machine → Machine → Prop} {b : BayId}

variable (hR : Lenient D R)
include hR

theorem within_pure (a : α) : Within R (pure a) := fun m => leads_pure (hR.refl m)

theorem within_bind {x : Run α} {f : α → Run β} (hx : Within R x) (hf : ∀ a, Within R (f a)) :
    Within R (x >>= f) := fun m =>
  (hx m).bind fun a m' h => (hf a m').mono fun _ _ h' => hR.trans h h'

theorem within_when {c : Prop} [Decidable c] {x : Run PUnit} {f : PUnit → Run α}
    (hx : Within R x) (hf : Within R (f ⟨⟩)) : Within R (if c then x >>= f else f ⟨⟩) := by
  split
  · exact hR.within_bind hx fun _ => hf
  · exact hf

theorem within_log (level : LogLevel) (source text : String) : Within R (Run.log level source text) :=
  within_modify fun m => hR.log m level source text

private theorem within_ask (hb : D b) (q : Query) : Within R (ask b q) := fun m =>
  leads_get (leads_set (leads_pure (hR.trans (hR.controller m b _ hb)
    (hR.emit _ _ EventKind.noConfusion))))

theorem within_command (hb : D b) (c : Command) : Within R (command b c) :=
  within_modify fun m => hR.trans (hR.controller m b _ hb) (hR.emit _ _ EventKind.noConfusion)

theorem within_dialogue (hb : D b) (d : Dialogue α) : Within R (d.run (ask b) (command b)) := by
  induction d with
  | done a => exact hR.within_pure a
  | ask q next ih => exact hR.within_bind (hR.within_ask hb q) ih
  | tell c next ih => exact hR.within_bind (hR.within_command hb c) fun _ => ih

theorem within_logNegotiation (config : DriveConfig) (state : DriveState)
    (result : Except InitError Unit) : Within R (logNegotiation config state result) := by
  cases result <;> exact hR.within_log _ _ _

end Lenient

namespace Overlooks

open Run

variable {t : TaskId} {D : BayId → Prop} {R : Machine → Machine → Prop} {b : BayId}

variable (hR : Overlooks t D R)
include hR

theorem within_mask : Within R (mask t) := by
  intro m
  apply leads_get
  split
  · exact leads_set (leads_pure (hR.trans (hR.emit m _ EventKind.noConfusion) (hR.disable _)))
  · exact leads_pure (hR.refl m)

/-- What a section that found the flag off does is overlooked if what it does before it puts the flag
back is. -/
private theorem leads_section {m : Machine} (off : (m.task t).core.enabled = false) {f : Bool → Run α}
    (hf : Within R (f false)) : Leads (mask t >>= f) m fun _ m' => R m m' := by
  refine ((hR.within_mask m).and (leads_mask_off off)).bind ?_
  rintro _ m' ⟨h, rfl⟩
  exact (hf m').mono fun _ _ h' => hR.trans h h'

theorem within_completionStep (hb : D b) (point : CompletionPoint) :
    Within R (completionStep b point) := by
  intro m
  apply leads_get
  split
  · exact hR.within_bind (hR.within_ask hb _) (fun _ => hR.within_pure _) m
  · exact hR.within_bind (hR.within_command hb _) (fun _ => hR.within_pure _) m
  · exact leads_pure (hR.refl m)
  · next s hs =>
    refine (leads_completeNext (Q := fun _ m' => R m m') fun head e q r hc hr => ?_).bind
      fun _ _ h => leads_pure h
    exact hR.trans (hR.complete m b s head e q r hb hs hc hr) (hR.log _ _ _ _)
  · exact leads_pure (hR.refl m)

private theorem within_completionSteps (hb : D b) (n : Nat) (point : CompletionPoint) :
    Within R (completionSteps b n point) := by
  induction n generalizing point with
  | zero => exact hR.within_pure _
  | succ n ih =>
    cases point with
    | finished => exact hR.within_pure _
    | _ => exact hR.within_bind (hR.within_completionStep hb _) ih

private theorem within_completeAll (hb : D b) : Within R (completeAll b) := within_get fun m => by
  split
  · exact hR.within_completionSteps hb _ _
  · exact hR.within_log _ _ _

private theorem within_addToMutex (i : Nat) : Within R (addToMutex i) := fun m => leads_get (by
  split
  · exact leads_pure (hR.refl m)
  · next l' hl =>
    obtain ⟨l, hl, htry⟩ := Option.bind_eq_some_iff.1 hl
    exact leads_set (leads_pure (hR.probe m i l l' _ hl htry)))

private theorem leads_handleCompletion {m : Machine} (off : (m.task t).core.enabled = false) (hb : D b) :
    Leads (handleCompletion t b) m fun _ m' => R m m' :=
  hR.leads_section off (hR.within_bind (hR.within_completeAll hb) fun _ => hR.within_pure ())

private theorem leads_probeMutex {m : Machine} (off : (m.task t).core.enabled = false) (i : Nat) :
    Leads (probeMutex t i) m fun _ m' => R m m' :=
  hR.leads_section off (hR.within_bind (hR.within_addToMutex i) fun value =>
    hR.within_bind (hR.within_pure ()) fun _ => hR.within_pure value)

theorem leads_handler {m : Machine} {i : Interrupt} (off : (m.task t).core.enabled = false)
    (hi : ∀ number b, i = .completion number → m.bayOf? number = some b → D b) :
    Leads (handler t i) m fun _ m' => R m m' := by
  cases i with
  | completion number =>
    apply leads_get
    cases hb : m.bayOf? number with
    | some b => exact hR.leads_handleCompletion off (hi number b rfl hb)
    | none => exact hR.within_log _ _ _ m
  | probe name mutex =>
    have hemit : ∀ value, Within R (do
        let m ← get
        Run.emit (.probe name t (m.task t).core.enabled value)) := fun value =>
      within_get fun m => within_modify fun m' => hR.emit m' _ EventKind.noConfusion
    cases mutex with
    | some i =>
      refine (hR.leads_probeMutex off i).bind fun value m' h => ?_
      exact (hemit value m').mono fun _ _ h' => hR.trans h h'
    | none => exact hR.within_bind (hR.within_pure none) hemit m

end Overlooks

theorem OverlooksEach.leads_handler {t : TaskId} {R : Machine → Machine → Prop} (hR : OverlooksEach t R)
    {m : Machine} (off : (m.task t).core.enabled = false) (i : Interrupt) :
    Run.Leads (Run.handler t i) m fun _ m' => R m m' :=
  (hR.overlooks fun _ => True).leads_handler off fun _ _ _ _ => trivial

end DiskStack
