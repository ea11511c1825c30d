import DiskStack.Proofs.Keys
import DiskStack.Proofs.KeptInterrupts

/-!
# What goes on at a machine

Drives, locks and gates are added, tasks call programs and take their steps, and all the while interrupts
come in, controllers work and locks are released from outside. Whatever goes on, keys and numbers stay
apart, whoever is registered on a channel parks or sleeps at a node of that channel, and no core whose flag
is on keeps an interrupt.
-/

namespace DiskStack

open Run (Leads Within leads_get leads_set leads_modify leads_change leads_pure leads_throw)
open Machine (fixed_emit fixed_log fixed_mapTask fixed_mapController fixed_mapDrive fixed_setState fixed_wake
  fixed_putShared fixed_putLock fixed_putGate fixed_setScratch overlooksSteps_fixed tolerates_fixed)

/-- What a task waits for at a node of its program. -/
def Program.owner? : Program Reply → Option Owner
  | .publish b _ _ _ | .complete b _ _ _ => some (.drive b)
  | .takeScratch b _ => some (.scratch b)
  | .takeLock lock _ => some (.lock lock)
  | .passGate gate _ _ => some (.gate gate)
  | _ => none

namespace Machine

/-- A channel of the owner that a task waits for at a node. What is not there has no key that is given out. -/
def WaitsOn (m : Machine) (p : Program Reply) (c : Channel) : Prop :=
  ∃ o, p.owner? = some o ∧ (m.HasChannel o c ∨ c.key = 0)

/-- Whoever is registered on a channel parks or sleeps at a node of that channel. -/
def Seated (m : Machine) : Prop :=
  ∀ t c, (t, c) ∈ m.waiting.waiters →
    ∃ p, ((m.task t).activity = .parking p ∨ (m.task t).activity = .asleep p) ∧ m.WaitsOn p c

/-- A machine after something in which no task has moved and nobody has registered. -/
structure Unmoved (m m' : Machine) : Prop where
  fixed : m.Fixed m'
  activity : ∀ t, (m'.task t).activity = (m.task t).activity
  fewer : ∀ t c, (t, c) ∈ m'.waiting.waiters → (t, c) ∈ m.waiting.waiters

variable {m m' m₁ m₂ : Machine} {t : TaskId} {o : Owner} {c : Channel} {p : Program Reply} {a : Activity}

private theorem Unmoved.refl (m : Machine) : m.Unmoved m := ⟨.refl m, fun _ => rfl, fun _ _ h => h⟩

private theorem Unmoved.trans (h : m.Unmoved m₁) (h' : m₁.Unmoved m₂) : m.Unmoved m₂ where
  fixed := h.fixed.trans h'.fixed
  activity := fun t => (h'.activity t).trans (h.activity t)
  fewer := fun t c hc => h.fewer t c (h'.fewer t c hc)

private theorem Fixed.unmoved (h : m.Fixed m') (tasks : m'.tasks = m.tasks)
    (waiting : m'.waiting = m.waiting) :
    m.Unmoved m' where
  fixed := h
  activity := fun t => by rw [task, tasks, task]
  fewer := fun t c hc => waiting ▸ hc

private theorem Unmoved.of_same (hbays : m'.bays = m.bays) (hlocks : m'.locks = m.locks)
    (hgates : m'.gates = m.gates)
    (hkey : m'.nextKey = m.nextKey) (hregistry : m'.registry = m.registry) (tasks : m'.tasks = m.tasks)
    (waiting : m'.waiting = m.waiting) : m.Unmoved m' :=
  (Fixed.of_same hbays hlocks hgates hkey hregistry).unmoved tasks waiting

private theorem unmoved_log (level : LogLevel) (source text : String) :
    m.Unmoved (m.log level source text) := by
  have hfixed := fixed_log (m := m) level source text
  rw [Machine.log] at hfixed ⊢
  split at hfixed <;> exact hfixed.unmoved rfl rfl

private theorem unmoved_mapCore (t : TaskId) (f : Core Interrupt → Core Interrupt) :
    m.Unmoved (m.mapCore t f) where
  fixed := fixed_mapTask t _
  activity := fun u => by
    rw [mapCore, task_mapTask]
    split <;> rfl
  fewer := fun _ _ h => h

private theorem unmoved_wake (c : Channel) : m.Unmoved (m.wake c) where
  fixed := fixed_wake c
  activity := fun _ => rfl
  fewer := fun _ _ h => (WaitQueue.mem_wake_iff.1 h).1

private theorem overlooksEach_unmoved (t : TaskId) : OverlooksEach t Unmoved where
  refl := .refl
  trans := .trans
  emit _ e := (fixed_emit e).unmoved rfl rfl
  log _ := unmoved_log
  disable _ := unmoved_mapCore t _
  controller _ b f := (fixed_mapController b f).unmoved rfl rfl
  state _ b s := (fixed_setState b s).unmoved rfl rfl
  stats _ b _ := (fixed_mapDrive b rfl rfl).unmoved rfl rfl
  requests _ _ := .of_same rfl rfl rfl rfl rfl rfl rfl
  wake _ c _ := unmoved_wake c
  probe _ _ _ _ _ _ _ := .of_same rfl rfl rfl rfl rfl rfl rfl

private theorem overlooksWork_unmoved : OverlooksWork (fun _ => True) Unmoved := fun _ b s _ _ _ _ =>
  (fixed_putShared b s _ _).unmoved rfl rfl

theorem tolerates_unmoved (t : TaskId) : Tolerates t (fun _ => True) Unmoved :=
  ((overlooksEach_unmoved t).overlooks _).tolerates (fun _ => unmoved_mapCore t) overlooksWork_unmoved

private theorem HasChannel.of_holds (h : m.HasChannel o c) (hold : m.Holds m') :
    m'.HasChannel o c := by
  obtain ⟨hhas, hkey⟩ := hold o h.has
  cases h with
  | descriptors b =>
    change m'.HasChannel _ (.descriptors (m.keyOf (.drive b)))
    exact hkey ▸ .descriptors b hhas
  | completion b ticket =>
    change m'.HasChannel _ (.completion (m.keyOf (.drive b)) ticket)
    exact hkey ▸ .completion b ticket hhas
  | scratch b =>
    change m'.HasChannel _ (.lock (m.keyOf (.scratch b)))
    exact hkey ▸ .scratch b hhas
  | lock lock =>
    change m'.HasChannel _ (.lock (m.keyOf (.lock lock)))
    exact hkey ▸ .lock lock hhas
  | gate gate =>
    change m'.HasChannel _ (.lock (m.keyOf (.gate gate)))
    exact hkey ▸ .gate gate hhas

private theorem WaitsOn.of_holds (h : m.WaitsOn p c) (hold : m.Holds m') :
    m'.WaitsOn p c := by
  obtain ⟨o, ho, h⟩ := h
  exact ⟨o, ho, h.imp_left fun h => h.of_holds hold⟩

/-- A machine after a node of a task: nobody else has registered, and the task only where it parks. -/
structure Registers (t : TaskId) (m : Machine) (a : Activity) (m' : Machine) : Prop where
  fixed : m.Fixed m'
  activity : ∀ u, (m'.task u).activity = (m.task u).activity
  registered : ∀ u c, (u, c) ∈ m'.waiting.waiters →
    (u, c) ∈ m.waiting.waiters ∨ u = t ∧ ∃ p, a = .parking p ∧ m.WaitsOn p c

private theorem Unmoved.registers (h : m.Unmoved m') : m'.Registers t a m₂ → m.Registers t a m₂ := fun h' =>
  { fixed := h.fixed.trans h'.fixed
    activity := fun u => (h'.activity u).trans (h.activity u)
    registered := fun u c hc => by
      rcases h'.registered u c hc with hc | ⟨hu, p, ha, hp⟩
      · exact .inl (h.fewer u c hc)
      · exact .inr ⟨hu, p, ha, hp.of_holds h.fixed.holds_symm⟩ }

private theorem Registers.of_unmoved (h : m.Unmoved m') : m.Registers t a m' :=
  ⟨h.fixed, h.activity, fun u c hc => .inl (h.fewer u c hc)⟩

theorem Registers.lt (h : m.Registers t a m') (hrun : (m.task t).activity = .running p) :
    t < m'.tasks.size := lt_of_activity fun hidle => by
  rw [h.activity, hrun] at hidle
  cases hidle

private theorem Registers.park (before : m.Unmoved m₁) (hc : m₁.WaitsOn p c)
    (after : (m₁.prepare t c).Unmoved m') :
    m.Registers t (.parking p) m' := by
  have hprepared : m₁.Fixed (m₁.prepare t c) := .of_same rfl rfl rfl rfl rfl
  refine before.registers ⟨hprepared.trans after.fixed, after.activity, fun u d hd => ?_⟩
  rcases WaitQueue.mem_register_iff.1 (after.fewer u d hd) with hd | ⟨rfl, rfl⟩
  · exact .inl hd
  · exact .inr ⟨rfl, p, rfl, hc⟩

private theorem waitsOn_of_owner? (h : p.owner? = some o) (hkey : c.key = m.keyOf o)
    (hc : m.Has o → m.HasChannel o c) : m.WaitsOn p c := by
  by_cases ho : m.Has o
  · exact ⟨o, h, .inl (hc ho)⟩
  · exact ⟨o, h, .inr (hkey.trans (keyOf_eq_zero ho))⟩

theorem registers_of_performs (h : Performs Unmoved t m p a m') : m.Registers t a m' := by
  have hS := overlooksSteps_fixed t
  induction h with
  | done m => exact .of_unmoved (.refl m)
  | inspect _ _ _ _ _ h | refuse _ _ _ _ _ _ h => exact .of_unmoved h
  | submit m m₁ m' b acc next sector s act before ready rest ih =>
    exact before.registers (((hS.enter m₁ acc).unmoved rfl rfl).registers ih)
  | unready _ _ _ _ _ _ _ before _ after => exact .of_unmoved (before.trans after)
  | awaitDescriptors m m₁ m' b id sector next before after =>
    exact .park before (waitsOn_of_owner? rfl rfl (.descriptors b)) after
  | publish m m₁ m₂ m' b id sector next s s' submission chain act before ready published between rest
      ih =>
    have hpublished := (hS.publish m₁ b id s' trivial).unmoved rfl rfl
    exact (before.trans (hpublished.trans between)).registers ih
  | awaitCompletion m m₁ m' b id ticket next before after =>
    exact .park before (waitsOn_of_owner? rfl rfl (.completion b ticket)) after
  | retire m m₁ b id ticket next before =>
    exact .of_unmoved (before.trans ((hS.retire m₁ b id trivial).unmoved rfl rfl))
  | awaitScratch m m₁ m' b next before after =>
    exact .park before (waitsOn_of_owner? rfl rfl (.scratch b)) after
  | takeScratch m m₁ m' b next l before taken after =>
    have htaken := (hS.takeScratch m₁ b l trivial taken).unmoved rfl rfl
    exact .of_unmoved (before.trans (htaken.trans after))
  | giveScratch m m₁ m' b value next before after =>
    have hgiven : m₁.Fixed (m₁.setScratch b { (m₁.bay b).drive.scratch.release with value }) :=
      fixed_setScratch rfl
    exact .of_unmoved (before.trans ((hgiven.unmoved rfl rfl).trans ((unmoved_wake _).trans after)))
  | awaitLock m m₁ m' lock next before after =>
    exact .park before (waitsOn_of_owner? rfl rfl (.lock lock)) after
  | takeLock m m₁ m' lock next l before taken after =>
    have htaken := (hS.takeLock m₁ lock l taken).unmoved rfl rfl
    exact .of_unmoved (before.trans (htaken.trans after))
  | awaitGate m m₁ m' gate waits next before after =>
    exact .park before (waitsOn_of_owner? rfl rfl (.gate gate)) after
  | passGate m m₁ m' gate waits next before after =>
    exact .of_unmoved (before.trans (((hS.passGate m₁ gate).unmoved rfl rfl).trans after))

namespace Seated

private theorem of_holds (h : m.Seated) (hold : m.Holds m')
    (activity : ∀ t, (m'.task t).activity = (m.task t).activity)
    (fewer : ∀ t c, (t, c) ∈ m'.waiting.waiters → (t, c) ∈ m.waiting.waiters) : m'.Seated :=
  fun t c hc => by
    obtain ⟨p, hp, hwaits⟩ := h t c (fewer t c hc)
    exact ⟨p, by rwa [activity], hwaits.of_holds hold⟩

private theorem unmoved (h : m.Seated) (hm : m.Unmoved m') : m'.Seated :=
  h.of_holds hm.fixed.holds hm.activity hm.fewer

private theorem not_registered (h : m.Seated) (ht : (m.task t).activity.waits = false) (c : Channel) :
    (t, c) ∉ m.waiting.waiters := fun hc => by
  obtain ⟨p, hp | hp, -⟩ := h t c hc <;> rw [hp] at ht <;> cases ht

private theorem setActivity (h : m.Seated) (hnot : ∀ c, (t, c) ∉ m.waiting.waiters) (a : Activity) :
    (m.setActivity t a).Seated := fun u c hc => by
  obtain ⟨p, hp, hwaits⟩ := h u c hc
  have hne : u ≠ t := fun hut => hnot c (hut ▸ hc)
  refine ⟨p, ?_, hwaits.of_holds fun o ho => ⟨ho, rfl⟩⟩
  rwa [activity_setActivity_of_ne hne]

private theorem rouse (h : m.Seated) (p : Program Reply) : (m.rouse t p).Seated := by
  have hwithdrawn : Seated { m with waiting := m.waiting.withdraw t, runnable := m.runnable.erase t } :=
    h.of_holds (fun _ ho => ⟨ho, rfl⟩) (fun _ => rfl) fun _ _ hc => (WaitQueue.mem_withdraw_iff.1 hc).1
  exact hwithdrawn.setActivity (fun _ hc => (WaitQueue.mem_withdraw_iff.1 hc).2 rfl) _

private theorem of_registers (h : m.Seated) (hrun : (m.task t).activity = .running p)
    (hm : m.Registers t a m') :
    (m'.setActivity t a).Seated := fun u c hc => by
  rw [activity_setActivity (hm.lt hrun)]
  rcases hm.registered u c hc with hc | ⟨rfl, p', rfl, hwaits⟩
  · obtain ⟨p', hp', hwaits⟩ := h u c hc
    have hne : u ≠ t := fun hut => h.not_registered (by rw [hut, hrun]; rfl) c hc
    rw [if_neg hne, hm.activity]
    exact ⟨p', hp', hwaits.of_holds hm.fixed.holds⟩
  · rw [if_pos rfl]
    exact ⟨p', .inl rfl, hwaits.of_holds hm.fixed.holds⟩

private theorem asleep (h : m.Seated) (hpark : (m.task t).activity = .parking p) :
    (m.setActivity t (.asleep p)).Seated := fun u c hc => by
  have ht : t < m.tasks.size := lt_of_activity fun hidle => by cases hpark.symm.trans hidle
  obtain ⟨p', hp', hwaits⟩ := h u c hc
  refine ⟨p', ?_, hwaits.of_holds fun o ho => ⟨ho, rfl⟩⟩
  rw [activity_setActivity ht]
  split
  · next hut =>
    rw [hut, hpark] at hp'
    rcases hp' with hp' | hp' <;> cases hp'
    exact .inr rfl
  · exact hp'

end Seated

end Machine

namespace Run

open Machine (Seated Unmoved tolerates_unmoved registers_of_performs unmoved_wake)

variable {m : Machine} {t : TaskId}

private theorem leads_settle_seated (hm : m.Seated) {p : Program Reply}
    (hpark : (m.task t).activity = .parking p) :
    Leads (settle t p) m fun a m' => (m'.setActivity t a).Seated := by
  apply leads_get
  cases hreg : m.waiting.isRegistered t with
  | true =>
    have hslept : (m.emit (.sleep t)).Seated := hm.unmoved ((fixed_emit _).unmoved rfl rfl)
    exact leads_modify (leads_pure (hslept.asleep hpark))
  | false =>
    have hup : (m.emit (.noSleep t)).Seated := hm.unmoved ((fixed_emit _).unmoved rfl rfl)
    refine leads_modify (leads_pure (hup.setActivity (fun c hc => ?_) _))
    have hregistered : m.waiting.isRegistered t = true := WaitQueue.isRegistered_iff.2 ⟨c, hc⟩
    rw [hregistered] at hreg
    cases hreg

private theorem keeps_seated_advance (t : TaskId) : Keeps Seated (advance t) := fun m hm => by
  apply leads_get
  cases hact : (m.task t).activity with
  | idle | asleep p => exact leads_pure hm
  | running p =>
    exact ((tolerates_unmoved t).performs_node p.at_any).bind fun a m₁ h =>
      leads_change (hm.of_registers hact (registers_of_performs h))
  | parking p => exact (leads_settle_seated hm hact).bind fun a m₁ h => leads_change h

private theorem unmoved_tryLock (t : TaskId) (lock : Nat) : Within Unmoved (tryLock t lock) :=
  (tolerates_unmoved t).within_tryLock lock fun m l hl =>
    ((overlooksSteps_fixed t).takeLock m lock l hl).unmoved rfl rfl

private theorem unmoved_unlock (t : TaskId) (lock : Nat) : Within Unmoved (unlock t lock) := by
  refine (tolerates_unmoved t).within_unlock lock fun m => ?_
  have hput : m.Fixed (m.putLock lock (m.lockAt lock).release) := fixed_putLock rfl
  exact (hput.unmoved rfl rfl).trans (unmoved_wake _)

private theorem unmoved_openGate (gate : Nat) (waking : Bool) : Within Unmoved (openGate gate waking) := by
  refine (tolerates_unmoved controlTask).within_openGate gate waking (fun m => ?_) fun _ => unmoved_wake
  have hput : m.Fixed (m.putGate gate { m.gateAt gate with isOpen := true }) := fixed_putGate rfl
  exact hput.unmoved rfl rfl

theorem leads_register (r : Registration) (m : Machine) :
    Leads (register r) m fun _ m' => m' = m.addDrive r := by
  rw [register]
  cases Checked.capacity r.config.blockSize with
  | error h => exact leads_throw_bind
  | ok c =>
    refine (leads_pure (Q := fun _ m' => m' = m) rfl).bind fun _ m' hm' => ?_
    exact leads_get (leads_set (leads_pure (by rw [hm']; rfl)))

end Run

namespace Machine

variable {m m' : Machine}

/-- A machine on which nothing has been registered yet. -/
structure Bare (m : Machine) : Prop where
  started : 0 < m.nextKey
  bays : m.bays = #[]
  registry : m.registry = []
  locks : m.locks = #[]
  gates : m.gates = #[]
  waiting : m.waiting.waiters = []

/-- What goes on around the tasks: channels are woken, drives are asked about and brought up, interrupts come
in on any core, controllers work and do anything to themselves, and locks and gates are used from outside. -/
inductive EnvironmentStep (m : Machine) : Machine → Prop
  | wake (c : Channel) : EnvironmentStep m (m.wake c)
  | bringUp (b : BayId) (r : Except InitError Unit) (m' : Machine)
    (h : (Run.bringUp b).run.run m = (.ok r, m')) : EnvironmentStep m m'
  | status (number : UInt8) (s : DiskStatus) (m' : Machine)
    (h : (Run.status number).run.run m = (.ok s, m')) : EnvironmentStep m m'
  | initDrive (number : UInt8) (s : DiskStatus) (m' : Machine)
    (h : (Run.initializeDrive number).run.run m = (.ok s, m')) : EnvironmentStep m m'
  | raise (t : TaskId) (i : Interrupt) (m' : Machine) (h : (Run.raise t i).run.run m = (.ok (), m')) :
    EnvironmentStep m m'
  | handle (b : BayId) (point next : Run.CompletionPoint) (m' : Machine)
    (h : (Run.completionStep b point).run.run m = (.ok next, m')) : EnvironmentStep m m'
  | work (b : BayId) (order : Option (List Nat)) (r : Option (List ChainReport)) (m' : Machine)
    (h : (Run.work b order).run.run m = (.ok r, m')) : EnvironmentStep m m'
  | control (b : BayId) (f : Controller → Controller) : EnvironmentStep m (m.mapController b f)
  | tryLock (t : TaskId) (lock : Nat) (r : Option UInt64) (m' : Machine)
    (h : (Run.tryLock t lock).run.run m = (.ok r, m')) : EnvironmentStep m m'
  | unlock (t : TaskId) (lock : Nat) (m' : Machine) (h : (Run.unlock t lock).run.run m = (.ok (), m')) :
    EnvironmentStep m m'
  | openGate (gate : Nat) (waking : Bool) (m' : Machine)
    (h : (Run.openGate gate waking).run.run m = (.ok (), m')) : EnvironmentStep m m'

/-- One step of all that goes on at a machine. Drives, locks and gates may be added at any time, and tasks
may call any program. A step that halts has no successor. -/
inductive Transition (m : Machine) : Machine → Prop
  | register (r : Registration) (n : Nat) (m' : Machine)
    (h : (Run.register r).run.run m = (.ok n, m')) : Transition m m'
  | newSleepLock (name : String) (value : UInt64) (lock : Nat) (m' : Machine)
    (h : (Run.newSleepLock name value).run.run m = (.ok lock, m')) : Transition m m'
  | newGate (gate : Nat) (m' : Machine) (h : Run.newGate.run.run m = (.ok gate, m')) : Transition m m'
  | call (t : TaskId) (p : Program Reply) (h : (m.task t).activity = .idle) :
    Transition m (m.setActivity t (.running p))
  | advance (t : TaskId) (m' : Machine) (h : (Run.advance t).run.run m = (.ok (), m')) : Transition m m'
  | reply (t : TaskId) (r : Reply) (h : (m.task t).activity = .running (.done r)) :
    Transition m (m.setActivity t .idle)
  | rouse (t : TaskId) (p : Program Reply) (h : (m.task t).activity = .asleep p) : Transition m (m.rouse t p)
  | environment (m' : Machine) (h : m.EnvironmentStep m') : Transition m m'

theorem EnvironmentStep.unmoved (h : m.EnvironmentStep m') : m.Unmoved m' := by
  have hR := fun t => tolerates_unmoved t
  cases h with
  | wake c => exact unmoved_wake c
  | bringUp b r m' h =>
    have hup := (hR controlTask).within_bringUp (b := b) trivial
      (fun m s => (fixed_setState (m := m) b s).unmoved rfl rfl)
      fun _ _ => .of_same rfl rfl rfl rfl rfl rfl rfl
    exact (hup m).of_ok h
  | status number s m' h => exact ((hR controlTask).within_status number m).of_ok h
  | initDrive number s m' h =>
    have hinit : Leads (Run.initializeDrive number) m fun _ m' => m.Unmoved m' :=
      (hR controlTask).leads_initializeDrive (fun m b s _ => (fixed_setState b s).unmoved rfl rfl)
        (fun _ _ => .of_same rfl rfl rfl rfl rfl rfl rfl) fun _ _ => trivial
    exact hinit.of_ok h
  | raise t i m' h =>
    have hraise := ((overlooksEach_unmoved t).overlooks fun _ => True).within_raise
      (fun _ => unmoved_mapCore t) i
    exact (hraise m).of_ok h
  | handle b point next m' h =>
    have hstep := ((overlooksEach_unmoved controlTask).overlooks fun _ => True).within_completionStep
      (b := b) trivial point
    exact (hstep m).of_ok h
  | work b order r m' h =>
    exact ((hR controlTask).within_work overlooksWork_unmoved (b := b) trivial order m).of_ok h
  | control b f => exact (fixed_mapController b f).unmoved rfl rfl
  | tryLock t lock r m' h => exact (Run.unmoved_tryLock t lock m).of_ok h
  | unlock t lock m' h => exact (Run.unmoved_unlock t lock m).of_ok h
  | openGate gate waking m' h => exact (Run.unmoved_openGate gate waking m).of_ok h

/-- Nothing that goes on around the tasks leaves an interrupt kept on a core whose flag is on. -/
private theorem EnvironmentStep.calm (h : m.EnvironmentStep m') (hm : m.Calm) : m'.Calm := by
  have hR := Run.tolerates_calm controlTask
  cases h with
  | wake c | control b f => exact hm
  | bringUp b r m' h => exact (Run.calms_bringUp b m).of_ok h hm
  | status number s m' h => exact (hR.within_status number m).of_ok h hm
  | initDrive number s m' h =>
    have hinit : Leads (Run.initializeDrive number) m fun _ m' => m.Calm → m'.Calm :=
      hR.leads_initializeDrive (fun _ _ _ _ => id) (fun _ _ => id) fun _ _ => trivial
    exact hinit.of_ok h hm
  | raise t i m' h => exact (Run.calms_raise t i m).of_ok h hm
  | handle b point next m' h =>
    have hstep := ((overlooks_calm controlTask).overlooks fun _ => True).within_completionStep
      (b := b) trivial point
    exact (hstep m).of_ok h hm
  | work b order r m' h => exact (Run.calms_work b order m).of_ok h hm
  | tryLock t lock r m' h => exact (Run.calms_tryLock t lock m).of_ok h hm
  | unlock t lock m' h => exact (Run.calms_unlock t lock m).of_ok h hm
  | openGate gate waking m' h => exact (Run.calms_openGate gate waking m).of_ok h hm

/-- A step gives out new keys to a drive, a lock or a gate, or it leaves all keys and numbers alone. -/
theorem Transition.fixed_or_adds (h : m.Transition m') : m.Fixed m' ∨ (∃ r, m' = m.addDrive r) ∨
    (∃ name value, m' = m.addLock name value) ∨ m' = m.addGate := by
  cases h with
  | register r n m' h => exact .inr (.inl ⟨r, (Run.leads_register r m).of_ok h⟩)
  | newSleepLock name value lock m' h =>
    rw [Run.run_newSleepLock] at h
    cases h
    exact .inr (.inr (.inl ⟨name, value, rfl⟩))
  | newGate gate m' h =>
    cases h
    exact .inr (.inr (.inr rfl))
  | call t p h | reply t r h => exact .inl (fixed_mapTask t _)
  | advance t m' h =>
    have hadvance := (tolerates_fixed t).leads_advance (overlooksSteps_fixed t) (m := m) fun p _ => p.at_any
    exact .inl (hadvance.of_ok h)
  | rouse t p h => exact .inl (.of_same rfl rfl rfl rfl rfl)
  | environment m' h => exact .inl h.unmoved.fixed

/-- Keys and numbers stay apart whatever goes on. -/
theorem Transition.distinct (h : m.Transition m') (hm : m.Distinct) : m'.Distinct := by
  obtain hfixed | ⟨r, rfl⟩ | ⟨name, value, rfl⟩ | rfl := h.fixed_or_adds
  · exact hfixed.distinct hm
  · exact hm.addDrive r
  · exact hm.addLock name value
  · exact hm.addGate

/-- Whatever has a key keeps it whatever goes on. -/
theorem Transition.holds (h : m.Transition m') : m.Holds m' := by
  obtain hfixed | ⟨r, rfl⟩ | ⟨name, value, rfl⟩ | rfl := h.fixed_or_adds
  · exact hfixed.holds
  · exact holds_addDrive r
  · exact holds_addLock name value
  · exact holds_addGate

/-- Tasks wait at their own nodes whatever goes on. -/
theorem Transition.seated (h : m.Transition m') (hm : m.Seated) : m'.Seated := by
  cases h with
  | register r n m' h =>
    rw [(Run.leads_register r m).of_ok h]
    exact hm.of_holds (holds_addDrive r) (fun _ => rfl) fun _ _ h => h
  | newSleepLock name value lock m' h =>
    rw [Run.run_newSleepLock] at h
    cases h
    exact hm.of_holds (holds_addLock name value) (fun _ => rfl) fun _ _ h => h
  | newGate gate m' h =>
    cases h
    exact hm.of_holds holds_addGate (fun _ => rfl) fun _ _ h => h
  | call t p h | reply t r h => exact hm.setActivity (hm.not_registered (by rw [h]; rfl)) _
  | advance t m' h => exact (Run.keeps_seated_advance t m hm).of_ok h
  | rouse t p h => exact hm.rouse p
  | environment m' h => exact hm.unmoved h.unmoved

theorem Transition.calm (h : m.Transition m') (hm : m.Calm) : m'.Calm := by
  cases h with
  | register r n m' h =>
    rw [(Run.leads_register r m).of_ok h]
    exact hm
  | newSleepLock name value lock m' h =>
    rw [Run.run_newSleepLock] at h
    cases h
    exact hm
  | newGate gate m' h =>
    cases h
    exact hm
  | call t p h | reply t r h | rouse t p h => exact hm.of_quiet fun u => .of_core (core_setActivity _ t u _)
  | advance t m' h => exact (Run.calms_advance t m).of_ok h hm
  | environment m' h => exact h.calm hm

/-! ### Runs -/

theorem Distinct.of_steps (hm : m.Distinct) (run : Relation.ReflTransGen Transition m m') : m'.Distinct := by
  induction run with
  | refl => exact hm
  | tail _ step ih => exact step.distinct ih

theorem Seated.of_steps (hm : m.Seated) (run : Relation.ReflTransGen Transition m m') : m'.Seated := by
  induction run with
  | refl => exact hm
  | tail _ step ih => exact step.seated ih

theorem Calm.of_steps (hm : m.Calm) (run : Relation.ReflTransGen Transition m m') : m'.Calm := by
  induction run with
  | refl => exact hm
  | tail _ step ih => exact step.calm ih

theorem holds_of_steps (run : Relation.ReflTransGen Transition m m') : m.Holds m' := by
  induction run with
  | refl => exact fun o ho => ⟨ho, rfl⟩
  | tail _ step ih =>
    intro o ho
    obtain ⟨hhas, hkey⟩ := step.holds o (ih o ho).1
    exact ⟨hhas, hkey.trans (ih o ho).2⟩

theorem Bare.distinct (hm : m.Bare) : m.Distinct := by
  have hnone : ∀ o, ¬m.Has o := fun o ho => by
    cases o <;> simp [Has, hm.bays, hm.locks, hm.gates] at ho
  refine ⟨hm.started, fun o ho => absurd ho (hnone o), fun o _ ho => absurd ho (hnone o), fun e he => ?_⟩
  rw [hm.registry] at he
  cases he

theorem Bare.seated (hm : m.Bare) : m.Seated := fun t c hc => by
  rw [hm.waiting] at hc
  cases hc

end Machine

end DiskStack
