import DiskStack.Proofs.Sections

/-!
# Operations as runs of their accesses

The machine tries and drops a short lock, puts the flag back, raises an interrupt and takes a task through a
node of its program in one go. Each of these is a run of the accesses that it consists of, with nothing
coming in between: the delivered handlers begin and finish in their turn, and what they do to drives leaves
cores and short locks alone. So what a core may count on in every run of accesses, it may count on in every
run of these operations.
-/

namespace DiskStack

namespace Machine

variable {m m' m'' : Machine} {t : TaskId}

private theorem Untouched.symm (h : m.Untouched m') : m'.Untouched m :=
  ⟨h.control.symm, h.tasks.symm, fun t => (h.core t).symm, h.mutexes.symm, fun i => (h.locked i).symm⟩

private theorem untouched_mapGuards (own : Bool) (t : TaskId) (f : List (Nat × Bool) → List (Nat × Bool)) :
    m.Untouched (m.mapGuards own t f) where
  control := by
    rw [mapGuards]
    split <;> rfl
  tasks := by
    rw [mapGuards]
    split
    · exact Array.size_modify
    · rfl
  core u := by
    rw [mapGuards]
    split
    · rw [task_mapTask]
      split <;> rfl
    · rfl
  mutexes := by rw [mutexes_mapGuards]
  locked i := by rw [mutexAt, mutexes_mapGuards, mutexAt]

/-- A machine with one more short lock held. -/
def hold (m : Machine) (i : Nat) : Machine := m.putMutex i { m.mutexAt i with locked := true }

private theorem untouched_hold {i : Nat} (hi : i < m.mutexes.size) {l : ShortLock UInt64}
    (hl : l.locked = true) :
    (m.putMutex i l).Untouched (m.hold i) := by
  refine ⟨rfl, rfl, fun _ => rfl, ?_, fun j => ?_⟩
  · exact Array.size_setIfInBounds.trans Array.size_setIfInBounds.symm
  · rw [hold, locked_putMutex hi, locked_putMutex hi, hl]

private theorem untouched_unlock {i : Nat} (hi : i < m.mutexes.size)
    (hfree : (m.mutexAt i).locked = false) :
    ((m.hold i).putMutex i ((m.hold i).mutexAt i).unlock).Untouched m := by
  have hsize : (m.hold i).mutexes.size = m.mutexes.size := Array.size_setIfInBounds
  refine ⟨rfl, rfl, fun _ => rfl, ?_, fun j => ?_⟩
  · exact hsize.symm.trans Array.size_setIfInBounds.symm
  · rw [locked_putMutex (hsize.symm ▸ hi)]
    split
    · next hji =>
      rw [hji, hfree]
      rfl
    · next hji => rw [hold, locked_putMutex hi, if_neg hji]

end Machine

private theorem Run.leads_mutex {α : Type} {Q : α → Machine → Prop} {m : Machine} {i : Nat}
    {f : ShortLock UInt64 → Run α} (h : Leads (f (m.mutexAt i)) m Q) : Leads (mutex i >>= f) m Q := h

namespace Cores

open Run (Leads leads_get leads_modify leads_change leads_pure leads_mutex)

variable {s : Cores} {t : TaskId} {fr : Frame} {rest : List Frame} {sleeps : Option Nat}

/-- A core reaches other frames, with the machine that a run has then reached. -/
def Reaches (s : Cores) (t : TaskId) (l : List Frame) (m : Machine) : Prop :=
  Relation.ReflTransGen Step s (s.put t m l)

private theorem put_put (m m' : Machine) (l l' : List Frame) :
    (s.put t m l).put t m' l' = s.put t m' l' := by
  simp only [put]
  congr 1
  funext u
  split <;> rfl

private theorem put_same {l : List Frame} (h : s.frames t = l) (m : Machine) :
    s.put t m l = { s with machine := m } := by
  rw [put, ← h]
  congr 1
  funext u
  split
  · next hut => rw [hut]
  · rfl

private theorem frames_put (m : Machine) (l : List Frame) : (s.put t m l).frames t = l := if_pos rfl

private theorem Reaches.trans {l l' : List Frame} {m m' : Machine} (h : s.Reaches t l m)
    (h' : (s.put t m l).Reaches t l' m') : s.Reaches t l' m' := by
  rw [Reaches, put_put] at h'
  exact Relation.ReflTransGen.trans h h'

private theorem Reaches.move {fr' : Frame} {m m' : Machine} (h : s.Reaches t (fr :: rest) m)
    (hm : fr.Moves t rest.isEmpty m m' fr') : s.Reaches t (fr' :: rest) m' :=
  h.trans (.single (.move t fr fr' rest m' (frames_put _ _) hm))

private theorem reaches_move {fr' : Frame} {m : Machine} (h : s.frames t = fr :: rest)
    (hm : fr.Moves t rest.isEmpty s.machine m fr') : s.Reaches t (fr' :: rest) m :=
  .single (.move t fr fr' rest m h hm)

private theorem Reaches.work {l : List Frame} {m m' : Machine} (h : s.Reaches t l m) (hm : m.Untouched m') :
    s.Reaches t l m' :=
  h.tail (.work m' hm)

private theorem leads_handle {m : Machine} (i : Interrupt)
    (hs : s.Reaches t (.handler :: fr :: rest) (m.mapCore t Core.disable)) :
    Leads (Run.handle t i) m fun _ m' => s.Reaches t (fr :: rest) m' := by
  have hoff : (m.mapCore t Core.disable).enabled t = false := m.enabled_mapCore_disable t
  refine leads_modify (((Machine.overlooks_untouched t).leads_handler hoff i).bind fun _ m₁ h => ?_)
  refine leads_change ?_
  exact (hs.work (h hoff)).trans (.single (.finish t .handler fr rest (frames_put _ _) rfl rfl))

private theorem leads_deliver (n : Nat) {m : Machine}
    (hs : s.Reaches t ({ fr with point := .delivering n sleeps } :: rest) m) :
    Leads (Run.deliver t n) m fun _ m' =>
      s.Reaches t ({ fr with point := .resumed sleeps } :: rest) m' := by
  induction n generalizing m with
  | zero => exact leads_pure (hs.move (.resume 0 sleeps rfl (.inl rfl)))
  | succ n ih =>
    apply leads_get
    cases hpending : (m.task t).core.pending with
    | nil => exact leads_pure (hs.move (.resume (n + 1) sleeps rfl (.inr hpending)))
    | cons i later =>
      have hbegun : s.Reaches t (.handler :: { fr with point := .delivering n sleeps } :: rest)
          ((m.mapCore t Core.dropPending).mapCore t Core.disable) :=
        hs.trans (.single (.deliver t { fr with point := .delivering (n + 1) sleeps } rest n sleeps i
          later (frames_put _ _) rfl hpending))
      exact leads_modify ((leads_handle i hbegun).bind fun _ m₁ h => ih h)

private theorem leads_restore {m : Machine} {saved : Bool}
    (hs : s.Reaches t ({ fr with point := .restoring saved sleeps } :: rest) m) :
    Leads (Run.restore t saved) m fun _ m' =>
      s.Reaches t ({ fr with point := .resumed sleeps } :: rest) m' := by
  rw [Run.restore]
  cases saved with
  | false => exact leads_pure (hs.move (.stay sleeps rfl))
  | true =>
    rw [if_pos rfl]
    exact leads_modify (leads_get (leads_deliver _ (hs.move (.enable sleeps rfl))))

private theorem leads_raise (h : s.frames t = fr :: rest) (i : Interrupt) :
    Leads (Run.raise t i) s.machine fun _ m' => s.Reaches t (fr :: rest) m' := by
  apply leads_get
  cases hflag : (s.machine.task t).core.enabled with
  | true => exact leads_handle i (.single (.interrupt t fr rest h hflag))
  | false =>
    refine leads_change ?_
    rw [Reaches, put_same h]
    exact .single (.defer t i hflag)

/-! ### Sections -/

/-- A core whose flag is off keeps any interrupts that come in, one after another. -/
private theorem Reaches.exists_kept (kept : List Interrupt) {l : List Frame} {m : Machine}
    (h : s.Reaches t l m) (ht : t < m.tasks.size) (hoff : m.enabled t = false) :
    ∃ m', s.Reaches t l m' ∧ m'.interruptControl = m.interruptControl ∧
      m'.tasks.size = m.tasks.size ∧ (m'.task t).core = kept.foldl Core.defer (m.task t).core ∧
      (∀ u, u ≠ t → (m'.task u).core = (m.task u).core) ∧ m'.mutexes = m.mutexes := by
  induction kept generalizing m with
  | nil => exact ⟨m, h, rfl, rfl, rfl, fun _ _ => rfl, rfl⟩
  | cons i kept ih =>
    have hsize : (m.mapCore t (·.defer i)).tasks.size = m.tasks.size := Array.size_modify
    have hcore : ((m.mapCore t (·.defer i)).task t).core = (m.task t).core.defer i := by
      rw [Machine.mapCore, Machine.task_mapTask, if_pos ⟨rfl, ht⟩]
    have hnext : s.Reaches t l (m.mapCore t (·.defer i)) := h.tail (.defer t i hoff)
    obtain ⟨m', hreaches, hcontrol, htasks, hkept, hothers, hmutexes⟩ :=
      ih hnext (hsize.symm ▸ ht) ((congrArg Core.enabled hcore).trans hoff)
    refine ⟨m', hreaches, hcontrol, htasks.trans hsize, ?_, fun u hu => ?_, hmutexes⟩
    · rw [hkept, hcore]
      rfl
    · rw [hothers u hu, Machine.mapCore, Machine.task_mapTask, if_neg fun h => hu h.1.symm]

/-- What is done in a section is a row of steps of the core's surroundings: interrupts that are kept, and
work that leaves cores and short locks alone. -/
private theorem Reaches.defers {l : List Frame} {m m' : Machine} {i : Nat} (h : s.Reaches t l (m.hold i))
    (ht : t < m.tasks.size) (hi : i < m.mutexes.size) (hoff : m.enabled t = false)
    (hm : m.Defers t m') : s.Reaches t l (m'.hold i) := by
  obtain ⟨kept, hkept⟩ := hm.kept
  obtain ⟨m₂, hreaches, hcontrol, htasks, hcore, hothers, hmutexes⟩ :=
    h.exists_kept kept ht hoff
  refine hreaches.work ⟨?_, ?_, fun u => ?_, ?_, fun j => ?_⟩
  · exact hm.control.trans hcontrol.symm
  · exact hm.tasks.trans htasks.symm
  · by_cases hu : u = t
    · rw [hu, hcore]
      exact hkept
    · rw [hothers u hu]
      exact hm.others u hu
  · rw [hmutexes]
    exact Array.size_setIfInBounds.trans (hm.mutexes.trans Array.size_setIfInBounds.symm)
  · rw [Machine.mutexAt, Machine.mutexAt, hmutexes, ← Machine.mutexAt, ← Machine.mutexAt, Machine.hold,
      Machine.hold, Machine.locked_putMutex hi, Machine.locked_putMutex (hm.mutexes.symm ▸ hi)]
    split
    · rfl
    · exact hm.locked j

/-- A section that has begun closes: the guard is dropped, and a task that has registered sleeps. -/
private theorem leads_closes {α : Type} {parks : α → Bool} {f : Bool → Run α} {m : Machine} {i : Nat}
    {saved : Bool}
    (hf : Run.Closes t parks m f) (hg : fr.guards = [])
    (hs : s.Reaches t [{ fr with guards := [(i, saved)], point := .between }] (m.hold i))
    (ht : t < m.tasks.size) (hi : i < m.mutexes.size) (hfree : (m.mutexAt i).locked = false)
    (hoff : m.enabled t = false) :
    Leads (f saved) m fun a m' =>
      s.Reaches t [{ fr with point := if parks a then .sleeping i else .between }] m' := by
  have hdropped : ∀ m₁ : Machine, ∀ sleeps, i < m₁.mutexes.size → (m₁.mutexAt i).locked = false →
      s.Reaches t [{ fr with guards := [(i, saved)], point := .releasing sleeps }] (m₁.hold i) →
      s.Reaches t [{ fr with point := .restoring saved sleeps }] m₁ := fun m₁ sleeps hi hfree h => by
    have hreleased := h.move (.release i saved [] sleeps rfl rfl)
    rw [← hg] at hreleased
    exact hreleased.work ((Machine.untouched_mapGuards ..).symm.trans (Machine.untouched_unlock hi hfree))
  induction hf with
  | park m c a ha =>
    have hparked := hdropped (m.prepare t c) (some i) hi hfree (hs.move (.sleepOn i saved c rfl rfl rfl))
    refine leads_modify ((leads_restore hparked).bind fun _ m₁ h => leads_pure ?_)
    rw [ha]
    exact h
  | leave m x hx =>
    have hleft := hdropped m none hi hfree (hs.move (.drop rfl (List.cons_ne_nil _ _)))
    refine (leads_restore hleft).bind fun _ m₁ h => (hx m₁).mono fun a m₂ hx => ?_
    rw [hx.1]
    exact h.work hx.2.1
  | work m y f hy hf ih =>
    refine ((Run.leads_self y m).and hy).bind fun b m₁ h => ?_
    have hdefers := h.2 hoff
    exact ih b m₁ h.1 (hs.defers ht hi hoff hdefers) (hdefers.tasks.symm ▸ ht) (hdefers.mutexes.symm ▸ hi)
      ((hdefers.locked i).trans hfree) (hdefers.enabled.trans hoff)

/-- A section whose code is about to read the flag takes the lock, which is free, and closes. -/
private theorem leads_section {α : Type} {parks : α → Bool} {f : Bool → Run α} {m : Machine} {i : Nat}
    (hf : ∀ m, Run.Closes t parks m f) (hg : fr.guards = [])
    (hs : s.Reaches t [{ fr with point := .saving i true }] m) (hc : m.interruptControl = true)
    (ht : t < m.tasks.size) (hi : i < m.mutexes.size) (hfree : (m.mutexAt i).locked = false) :
    Leads (do f (← Run.mask t)) m fun a m' =>
      s.Reaches t [{ fr with point := if parks a then .sleeping i else .between }] m' := by
  refine Run.ends_bind ((Run.ends_masked t m).mono ?_)
  rintro _ _ ⟨rfl, rfl⟩
  have hsize : (m.maskCore t).tasks.size = m.tasks.size := (Machine.onCore_maskCore ht).tasks
  have hmutexes : (m.maskCore t).mutexes = m.mutexes := m.mutexes_maskCore t
  have hi' : i < (m.maskCore t).mutexes.size := hmutexes ▸ hi
  have hfree' : ((m.maskCore t).mutexAt i).locked = false := by
    rw [Machine.mutexAt, hmutexes]
    exact hfree
  have hmasked := (hs.move (.save i true rfl)).move (.mask i true _ rfl)
  have htaken := hmasked.move (.take i true _ _ rfl hi' (if_neg (Bool.eq_false_iff.1 hfree')))
  rw [hg] at htaken
  have hheld := htaken.work ((Machine.untouched_mapGuards ..).symm.trans (Machine.untouched_hold hi' rfl))
  exact leads_closes (hf _) hg hheld (hsize ▸ ht) hi' hfree' (Machine.enabled_maskCore ht hc)

/-- The core's own code holds no short lock, and one is free. -/
structure Open (s : Cores) (t : TaskId) (fr : Frame) (i : Nat) : Prop where
  frames : s.frames t = [fr]
  guards : fr.guards = []
  within : i < s.machine.mutexes.size
  free : (s.machine.mutexAt i).locked = false

/-- A run of one section at most is a run of the core's own code, which sleeps then or is where it was. -/
private theorem leads_sectioned {α : Type} {parks : α → Bool} {x : Run α} {i : Nat}
    (hx : Run.Sectioned t parks x) (hopen : s.Open t fr i) (hp : fr.point = .between)
    (hc : s.machine.interruptControl = true) (ht : t < s.machine.tasks.size) :
    Leads x s.machine fun a m' =>
      s.Reaches t [{ fr with point := if parks a then .sleeping i else .between }] m' := by
  have hself : s.Reaches t [{ fr with point := .between }] s.machine := by
    rw [← hp, Reaches, put_same hopen.frames]
  induction hx with
  | none x hx =>
    refine (hx s.machine).mono fun a m' h => ?_
    rw [h.1]
    exact hself.work h.2.1
  | configured f hf hsame ih => exact leads_get (ih s.machine)
  | one f hf =>
    exact leads_section hf hopen.guards (hself.move (.enter i true rfl)) hc ht hopen.within hopen.free

/-- An attempt to take a short lock is a run of the core's own code, which has the guard then or is where it
was. -/
private theorem leads_tryMutex (h : s.frames t = [fr]) (hp : fr.point = .between) {i : Nat}
    (hi : i < s.machine.mutexes.size) :
    Leads (Run.tryMutex t i) s.machine fun r m' => s.Reaches t
      [{ fr with
        guards := if r.isSome then (i, s.machine.interruptControl && s.machine.enabled t) :: fr.guards
          else fr.guards
        point := .between }] m' := by
  refine Run.ends_bind ((Run.ends_masked t s.machine).mono ?_)
  rintro _ _ ⟨rfl, rfl⟩
  have hmasked := ((reaches_move h (.enter i false hp)).move (.save i false rfl)).move
    (.mask i false _ rfl)
  have hi' : i < (s.machine.maskCore t).mutexes.size := by rwa [Machine.mutexes_maskCore]
  change Leads (Run.claimMutex t i _) (s.machine.maskCore t) _
  rw [Run.claimMutex]
  refine leads_mutex ?_
  cases hl : ((s.machine.maskCore t).mutexAt i).tryLock with
  | none =>
    refine (leads_restore (hmasked.move (.fail i _ rfl hl))).bind fun _ m' h' => ?_
    exact leads_pure h'
  | some l =>
    refine leads_modify (leads_modify (leads_pure ?_))
    exact hmasked.move (.take i false _ l rfl hi' hl)

private theorem leads_dropMutex (h : s.frames t = [fr]) (hp : fr.point = .between) {i : Nat} {saved : Bool}
    {guards : List (Nat × Bool)}
    (hg : fr.guards = (i, saved) :: guards) :
    Leads (Run.dropMutex t i saved) s.machine fun _ m' =>
      s.Reaches t [{ fr with guards, point := .between }] m' := by
  have hbegun : s.Reaches t [{ fr with point := .releasing none }] s.machine :=
    reaches_move h (.drop hp (by rw [hg]; exact List.cons_ne_nil _ _))
  let freed := (s.machine.putMutex i (s.machine.mutexAt i).unlock).mapGuards true t
    (·.filter fun g => g.1 != i)
  have hfreed : s.Reaches t [{ { fr with guards } with point := .restoring saved none }] freed :=
    hbegun.move (.release i saved guards none rfl hg)
  refine leads_mutex (leads_modify (leads_modify ?_))
  exact leads_restore hfreed

/-! ### What a core may count on -/

/-- What the machine does in one go, from where a core's own code stands between two operations or sleeps, a
run of accesses does. -/
structure Performs (s : Cores) (t : TaskId) : Prop where
  tries : ∀ fr i, s.frames t = [fr] → fr.point = .between → i < s.machine.mutexes.size →
    Leads (Run.tryMutex t i) s.machine fun r m' => s.Reaches t
      [{ fr with
        guards := if r.isSome then (i, s.machine.enabled t) :: fr.guards else fr.guards
        point := .between }] m'
  drops : ∀ fr i saved guards, s.frames t = [fr] → fr.point = .between →
    fr.guards = (i, saved) :: guards →
    Leads (Run.dropMutex t i saved) s.machine fun _ m' =>
      s.Reaches t [{ fr with guards, point := .between }] m'
  raises : ∀ fr rest i, s.frames t = fr :: rest →
    Leads (Run.raise t i) s.machine fun _ m' => s.Reaches t (fr :: rest) m'
  /-- A node takes a free lock for its section, and a task that has to wait is left sleeping on it. -/
  nodes : ∀ fr i p, s.Open t fr i → fr.point = .between →
    Leads (Run.node t p) s.machine fun a m' =>
      s.Reaches t [{ fr with point := if a.waits then .sleeping i else .between }] m'
  /-- Falling asleep, or finding a wake-up that has come already, takes no access. -/
  settles : ∀ fr i p, s.frames t = [fr] → fr.point = .sleeping i →
    Leads (Run.settle t p) s.machine fun _ m' => s.Reaches t [fr] m'
  /-- A task that runs its node again after a sleep locks again first. -/
  retries : ∀ fr i p, s.Open t fr i → fr.point = .sleeping i → p.mayWait = true →
    Leads (Run.node t p) s.machine fun a m' =>
      s.Reaches t [{ fr with point := if a.waits then .sleeping i else .between }] m'
  /-- While a lock is held, code that has to have it stays where it is. -/
  spins : ∀ fr rest i saved m fr', s.frames t = fr :: rest → fr.point = .claiming i true saved →
    (s.machine.mutexAt i).locked = true → fr.Moves t rest.isEmpty s.machine m fr' →
    m = s.machine ∧ fr' = fr
  calls : ∀ fr i lock, s.Open t fr i → fr.point = .between →
    Leads (Run.inspectLock t lock) s.machine (fun _ => s.Reaches t [fr]) ∧
      Leads (Run.tryLock t lock) s.machine (fun _ => s.Reaches t [fr]) ∧
      Leads (Run.unlock t lock) s.machine (fun _ => s.Reaches t [fr])
  starts : ∀ fr i b, t = controlTask → s.Open t fr i → fr.point = .between →
    Leads (Run.bringUp b) s.machine fun _ => s.Reaches t [fr]

private theorem leads_settle (h : s.frames t = [fr]) (p : Program Reply) :
    Leads (Run.settle t p) s.machine fun _ m' => s.Reaches t [fr] m' := by
  have hself : s.Reaches t [fr] s.machine := by rw [Reaches, put_same h]
  refine leads_get ?_
  split
  · exact leads_modify (leads_pure (hself.work (.of_same rfl rfl rfl)))
  · exact leads_modify (leads_pure (hself.work (.of_same rfl rfl rfl)))

private theorem stays_of_held {fr' : Frame} {own saved : Bool} {i : Nat} {m m' : Machine}
    (hp : fr.point = .claiming i true saved) (hheld : (m.mutexAt i).locked = true)
    (h : fr.Moves t own m m' fr') : m' = m ∧ fr' = fr := by
  cases h with
  | spin => exact ⟨rfl, rfl⟩
  | take _ _ _ _ h _ hl =>
    cases hp.symm.trans h
    cases hheld.symm.trans (ShortLock.of_tryLock hl).1
  | _ => cases hp.symm.trans ‹fr.point = _›

private theorem Masked.performs {first : TaskId → Bool} (h : s.Masked first) (t : TaskId) :
    s.Performs t where
  tries := fun fr i hframes hp hi => by
    have htry := leads_tryMutex hframes hp hi
    rw [h.control, Bool.true_and] at htry
    exact htry
  drops := fun fr i saved guards hframes hp hg => leads_dropMutex hframes hp hg
  raises := fun fr rest i hframes => leads_raise hframes i
  nodes := fun fr i p hopen hp =>
    leads_sectioned (Run.sectioned_node t p) hopen hp h.control (h.of_cons hopen.frames).1
  settles := fun fr i p hframes _ => leads_settle hframes p
  retries := fun fr i p hopen hp hwaits => by
    obtain ⟨f, hnode, hf⟩ := Run.exists_closes_node t hwaits
    rw [hnode]
    exact leads_section hf hopen.guards (reaches_move hopen.frames (.wake i hp)) h.control
      (h.of_cons hopen.frames).1 hopen.within hopen.free
  spins := fun fr rest i saved m fr' _ hp hheld hm => stays_of_held hp hheld hm
  calls := fun fr i lock hopen hp => by
    have ht := (h.of_cons hopen.frames).1
    have hcall {α : Type} {x : Run α} (hx : Run.Sectioned t (fun _ => false) x) :
        Leads x s.machine fun _ => s.Reaches t [fr] := by
      have hx := leads_sectioned hx hopen hp h.control ht
      rw [← hp] at hx
      exact hx
    exact ⟨hcall (Run.sectioned_inspectLock t lock), hcall (Run.sectioned_tryLock t lock),
      hcall (Run.sectioned_unlock t lock)⟩
  starts := fun fr i b ht hopen hp => by
    subst ht
    have hup := leads_sectioned (Run.sectioned_bringUp b) hopen hp h.control (h.of_cons hopen.frames).1
    rw [← hp] at hup
    exact hup

variable {s' : Cores}

/-- Whatever the cores and their handlers take and drop, and wherever interrupts come in, each core keeps
the discipline; a core that is again where it was has the same flag again, be it after a failed attempt, a
section or a sleep; and the machine's own operations do nothing else. -/
theorem disciplined_of_run (start : s.Quiet) (run : Relation.ReflTransGen Step s s') (t : TaskId) :
    s'.Disciplined t (s.machine.enabled t) ∧ s'.Performs t ∧
      ∀ s'', Relation.ReflTransGen Step s' s'' → ∀ fr below, s'.frames t = fr :: below →
        fr.point = .between → s''.frames t = s'.frames t →
        s''.machine.enabled t = s'.machine.enabled t := by
  have hs' := keeps_of_steps ⟨start.masked, start.guarded⟩ run
  have hd := hs'.1.disciplined hs'.2 t
  refine ⟨hd, hs'.1.performs t, fun s'' run' fr below ht hp hsame => ?_⟩
  have hs'' := keeps_of_steps hs' run'
  have hd'' := hs''.1.disciplined hs''.2 t
  rw [hd.between fr below ht hp, hd''.between fr below (hsame.trans ht) hp]

/-! ### A lock, an interrupt and its handler -/

/-- One core with its flag on, and one short lock. -/
def oneCore : Cores where
  machine := { mutexes := #[{ value := 0 }] }
  frames := fun t => if t < 1 then [{ start := true }] else []

private theorem quiet_oneCore : oneCore.Quiet where
  control := rfl
  frames := fun t => by
    rcases t with _ | t
    · rfl
    · rfl
  free := fun i => by
    rcases i with _ | i
    · rfl
    · rfl

/-- An access of the code on top of the only core. -/
theorem Step.next {fr fr' : Frame} {rest : List Frame} {m : Machine} (h : s.frames 0 = fr :: rest)
    (hm : fr.Moves 0 rest.isEmpty s.machine m fr') : Step s (s.put 0 m (fr' :: rest)) :=
  .move 0 fr fr' rest m h hm

/-- The core takes the lock, an interrupt is kept meanwhile, another attempt fails, and when the lock is
dropped the handler begins and takes it. -/
private theorem exists_run_oneCore : ∃ s', Relation.ReflTransGen Step oneCore s' ∧
    s'.frames 0 = [{ start := false, guards := [(0, false)] },
      { start := true, point := .delivering 0 none }] ∧
    s'.machine.enabled 0 = false := by
  have hrun : Relation.ReflTransGen Step oneCore oneCore := .refl
  have hrun := hrun.tail (.next rfl (.enter 0 true rfl))
  have hrun := hrun.tail (.next rfl (.save 0 true rfl))
  have hrun := hrun.tail (.next rfl (.mask 0 true true rfl))
  have hrun := hrun.tail (.next rfl (.take 0 true true _ rfl Nat.one_pos rfl))
  have hrun := hrun.tail (.defer 0 (.probe "probe" (some 0)) rfl)
  have hrun := hrun.tail (.next rfl (.enter 0 false rfl))
  have hrun := hrun.tail (.next rfl (.save 0 false rfl))
  have hrun := hrun.tail (.next rfl (.mask 0 false false rfl))
  have hrun := hrun.tail (.next rfl (.fail 0 false rfl rfl))
  have hrun := hrun.tail (.next rfl (.stay none rfl))
  have hrun := hrun.tail (.next rfl (.drop rfl (List.cons_ne_nil _ _)))
  have hrun := hrun.tail (.next rfl (.release 0 true [] none rfl rfl))
  have hrun := hrun.tail (.next rfl (.enable none rfl))
  have hrun := hrun.tail (.deliver 0 _ _ 0 none (.probe "probe" (some 0)) [] rfl rfl rfl)
  have hrun := hrun.tail (.next rfl (.enter 0 true rfl))
  have hrun := hrun.tail (.next rfl (.save 0 true rfl))
  have hrun := hrun.tail (.next rfl (.mask 0 true false rfl))
  have hrun := hrun.tail (.next rfl (.take 0 true false _ rfl Nat.one_pos rfl))
  exact ⟨_, hrun, rfl, rfl⟩

theorem disciplined_of_run_oneCore : ∃ s', oneCore.Quiet ∧ Relation.ReflTransGen Step oneCore s' ∧
    s'.held 0 = [0] ∧ (s'.frames 0).length = 2 ∧ s'.Disciplined 0 true := by
  obtain ⟨s', hrun, hframes, -⟩ := exists_run_oneCore
  refine ⟨s', quiet_oneCore, hrun, ?_, ?_, (disciplined_of_run quiet_oneCore hrun 0).1⟩
  · rw [held, hframes]
    rfl
  · rw [hframes]
    rfl

end Cores

end DiskStack
