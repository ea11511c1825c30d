import DiskStack.Machine.Locks
import DiskStack.Machine.Registry
import DiskStack.Proofs.Handlers

/-!
# What a step of a task does

Around the work that a node does for its task, the core is masked and unmasked, kept interrupts are
delivered, a controller may be notified and may work at once, and something may be logged. For a relation
that tolerates all this, each node comes down to what it does to its drive, lock or gate and to the
task's request.
-/

namespace DiskStack

open Run (Within Leads leads_get leads_set leads_modify leads_change leads_pure leads_throw leads_any
  leads_ofChecked within_get within_modify)

/-- A lenient relation that also tolerates the masking of a core, the delivery of kept interrupts, and
what comes of the notification of a controller. -/
structure Tolerates (t : TaskId) (D : BayId → Prop) (R : Machine → Machine → Prop) : Prop
    extends Lenient D R where
  mask : Within R (Run.mask t)
  restore : ∀ saved, Within R (Run.restore t saved)
  notify : ∀ b, D b → Within R (Run.notify t b)

/-- A relation that overlooks what the controllers of these drives do to themselves and to memory. -/
def OverlooksWork (D : BayId → Prop) (R : Machine → Machine → Prop) : Prop :=
  ∀ m b s shared order, D b → m.shared? b = some (s, shared) →
    R m (m.putShared b s ((m.bay b).controller.work shared order).2.1
      ((m.bay b).controller.work shared order).2.2)

namespace Lenient

variable {t : TaskId} {D : BayId → Prop} {R : Machine → Machine → Prop} {b : BayId}

theorem within_work (hR : Lenient D R) (work : OverlooksWork D R) (hb : D b) (order : Option (List Nat)) :
    Within R (Run.work b order) := by
  refine hR.within_bind (within_modify fun m => hR.controller m b _ hb) fun _ m => leads_get ?_
  split
  · exact leads_pure (hR.refl m)
  · next s shared h => exact leads_set (leads_pure (work m b s shared order hb h))

theorem within_notify (hR : Lenient D R) (work : OverlooksWork D R) (raise : ∀ i, Within R (Run.raise t i))
    (hb : D b) : Within R (Run.notify t b) := by
  refine hR.within_bind (hR.within_command hb _) fun _ => within_get fun m => ?_
  dsimp only
  split
  · exact hR.within_bind (hR.within_work work hb none) fun _ => raise _
  · exact hR.within_pure _

variable (hR : Lenient D R) (core : ∀ m f, R m (m.mapCore t f)) (handle : ∀ i, Within R (Run.handle t i))
include hR core

private theorem within_mask : Within R (Run.mask t) := by
  intro m
  apply leads_get
  split
  · exact leads_set (leads_pure (hR.trans (hR.emit m _ EventKind.noConfusion) (core _ _)))
  · exact leads_pure (hR.refl m)

include handle

private theorem within_deliver (n : Nat) : Within R (Run.deliver t n) := by
  induction n with
  | zero => exact hR.within_pure _
  | succ n ih =>
    refine within_get fun m => ?_
    split
    · exact hR.within_pure _
    · exact hR.within_bind (within_modify fun m => core m _) fun _ =>
        hR.within_bind (handle _) fun _ => ih

private theorem within_restore (saved : Bool) : Within R (Run.restore t saved) := by
  rw [Run.restore]
  cases saved with
  | false => exact hR.within_pure _
  | true =>
    rw [if_pos rfl]
    refine hR.within_bind (within_modify fun m => ?_) fun _ =>
      within_get fun m => hR.within_deliver core handle _
    exact hR.trans (hR.emit m _ EventKind.noConfusion) (core _ _)

omit hR in
private theorem within_raise (i : Interrupt) : Within R (Run.raise t i) := within_get fun m => by
  split
  · exact handle i
  · exact within_modify fun m => core m _

/-- What leaves cores out of account and overlooks handlers and controllers tolerates a core's interrupts. -/
private theorem tolerates (work : OverlooksWork D R) : Tolerates t D R where
  toLenient := hR
  mask := hR.within_mask core
  restore := hR.within_restore core handle
  notify _ := hR.within_notify work (within_raise core handle)

end Lenient

namespace Overlooks

variable {t : TaskId} {R : Machine → Machine → Prop}

variable (hR : Overlooks t (fun _ => True) R) (core : ∀ m f, R m (m.mapCore t f))
include hR core

theorem within_handle (i : Interrupt) : Within R (Run.handle t i) := fun m =>
  leads_modify ((hR.leads_handler (m.enabled_mapCore_disable t) fun _ _ _ _ => trivial).bind
    fun _ m' h => leads_change (hR.trans (core _ _) (hR.trans h (core m' _))))

theorem within_raise (i : Interrupt) : Within R (Run.raise t i) :=
  Lenient.within_raise core (hR.within_handle core) i

theorem tolerates (work : OverlooksWork (fun _ => True) R) : Tolerates t (fun _ => True) R :=
  hR.toLenient.tolerates core (hR.within_handle core) work

end Overlooks

namespace Tolerates

variable {α β : Type} {t : TaskId} {D : BayId → Prop} {R : Machine → Machine → Prop} {b : BayId}

variable (hR : Tolerates t D R)
include hR

theorem within_inspect : Within R (Run.inspect t b) :=
  hR.within_bind hR.mask fun _ => within_get fun _ =>
    hR.within_bind (hR.restore _) fun _ => hR.within_pure _

end Tolerates

theorem Tolerates.within_bringUp {D : BayId → Prop} {R : Machine → Machine → Prop} {b : BayId}
    (hR : Tolerates controlTask D R) (hb : D b) (state : ∀ m s, R m (m.setState b s))
    (arena : ∀ m a, R m (m.setArena a)) : Within R (Run.bringUp b) := by
  refine hR.within_bind hR.mask fun saved => within_get fun m => ?_
  refine hR.within_when (hR.within_log _ _ _) ?_
  refine hR.within_bind (hR.within_dialogue hb _) fun r => ?_
  refine hR.within_bind (within_modify fun m' => hR.trans (state m' r.2.1) (arena _ r.2.2)) fun _ => ?_
  refine hR.within_when (hR.within_logNegotiation _ _ _) ?_
  exact hR.within_bind (hR.restore saved) fun _ => hR.within_pure _

namespace Machine

/-- The request of a number, or an empty one if there is none. -/
def requestOf (m : Machine) (id : RequestId) : BlockRequest :=
  (m.requests.find? id).getD (.fresh 0 false [] 0)

/-- The machine after a task has entered a request. -/
def enter (m : Machine) (a : BlockAccess) : Machine :=
  { m with
    arena := (m.arena.reserve a.data.length).2
    nextRequest := m.nextRequest + 1
    requests := m.requests.insert m.nextRequest
      (.fresh a.block a.write a.data (m.arena.reserve a.data.length).1) }

/-- The machine after a request has been published on the rings of a drive. -/
def publish (m : Machine) (b : BayId) (id : RequestId) (s : ReadyState) : Machine :=
  (m.setState b (.ready s)).setRequests (m.requests.setPending id true)

/-- The machine after a request has been counted and its submission has returned. -/
def retire (m : Machine) (b : BayId) (id : RequestId) : Machine :=
  (m.mapDrive b fun d => { d with stats := d.stats.countRequest (m.requestOf id).write }).setRequests
    (m.requests.erase id)

def setScratch (m : Machine) (b : BayId) (l : SleepLock Bytes) : Machine :=
  m.mapDrive b fun d => { d with scratch := l }

def lockAt (m : Machine) (lock : Nat) : SleepLock UInt64 :=
  m.locks.getD lock { name := "", key := 0, value := 0 }

def putLock (m : Machine) (lock : Nat) (l : SleepLock UInt64) : Machine :=
  { m with locks := m.locks.setIfInBounds lock l }

def gateAt (m : Machine) (gate : Nat) : Gate := m.gates.getD gate { key := 0 }

def putGate (m : Machine) (gate : Nat) (g : Gate) : Machine :=
  { m with gates := m.gates.setIfInBounds gate g }

end Machine

/-- Whether the node of a program works on no other drives than these. A task at another lock or gate
works on none. -/
def Program.At (D : BayId → Prop) : Program Reply → Prop
  | .inspect b _ | .submit b _ _ | .publish b _ _ _ | .complete b _ _ _ | .takeScratch b _
  | .giveScratch b _ _ => D b
  | _ => True

theorem Program.at_any (p : Program Reply) : p.At fun _ => True := by
  cases p <;> trivial

/-- What a program does with the reply of the submission that it is at. -/
def Program.next? : Program Reply → Option (SubmitReply → Program Reply)
  | .submit _ _ next | .publish _ _ _ next | .complete _ _ _ next => some next
  | _ => none

/-- What the node of a program does for a task, between changes that a relation tolerates: what the task
does then, and the machine. A submission goes on to its publication, and a publication to its completion,
as far as they get in one step. -/
inductive Performs (R : Machine → Machine → Prop) (t : TaskId) :
    Machine → Program Reply → Activity → Machine → Prop
  | done (m : Machine) (a : Reply) : Performs R t m (.done a) (.running (.done a)) m
  | inspect (m m' : Machine) (b : BayId) (next : DriveState → Program Reply) (state : DriveState)
    (h : R m m') : Performs R t m (.inspect b next) (.running (next state)) m'
  | refuse (m m' : Machine) (b : BayId) (a : BlockAccess) (next : SubmitReply → Program Reply)
    (e : BlockError) (h : R m m') :
    Performs R t m (.submit b a next) (.running (next ⟨⟨.error e, a.data⟩, false⟩)) m'
  | submit (m m₁ m' : Machine) (b : BayId) (a : BlockAccess) (next : SubmitReply → Program Reply)
    (sector : Nat) (s : ReadyState) (act : Activity) (before : R m m₁)
    (ready : (m₁.bay b).drive.state = .ready s)
    (rest : Performs R t (m₁.enter a) (.publish b m₁.nextRequest sector next) act m') :
    Performs R t m (.submit b a next) act m'
  | unready (m m₁ m' : Machine) (b : BayId) (id : RequestId) (sector : Nat)
    (next : SubmitReply → Program Reply) (before : R m m₁)
    (state : (m₁.bay b).drive.state.isReady = false) (after : R m₁ m') :
    Performs R t m (.publish b id sector next) (.running (next ⟨⟨.error .notReady, []⟩, false⟩)) m'
  | awaitDescriptors (m m₁ m' : Machine) (b : BayId) (id : RequestId) (sector : Nat)
    (next : SubmitReply → Program Reply) (before : R m m₁)
    (after : R (m₁.prepare t (m₁.bay b).drive.descriptorChannel) m') :
    Performs R t m (.publish b id sector next) (.parking (.publish b id sector next)) m'
  | publish (m m₁ m₂ m' : Machine) (b : BayId) (id : RequestId) (sector : Nat)
    (next : SubmitReply → Program Reply) (s s' : ReadyState) (submission : Submission) (chain : Chain)
    (act : Activity) (before : R m m₁) (ready : (m₁.bay b).drive.state = .ready s)
    (published : s.publish? id (m₁.requestOf id).write sector (m₁.requestOf id).address
      (m₁.requestOf id).data.length = .ok (some (submission, chain, s')))
    (between : R (m₁.publish b id s') m₂)
    (rest : Performs R t m₂ (.complete b id submission.ticket next) act m') :
    Performs R t m (.publish b id sector next) act m'
  | awaitCompletion (m m₁ m' : Machine) (b : BayId) (id : RequestId) (ticket : UInt64)
    (next : SubmitReply → Program Reply) (before : R m m₁)
    (after : R (m₁.prepare t ((m₁.bay b).drive.completionChannel ticket)) m') :
    Performs R t m (.complete b id ticket next) (.parking (.complete b id ticket next)) m'
  | retire (m m₁ : Machine) (b : BayId) (id : RequestId) (ticket : UInt64)
    (next : SubmitReply → Program Reply) (before : R m m₁) :
    Performs R t m (.complete b id ticket next)
      (.running (next ⟨⟨.ok (), (m₁.requestOf id).data⟩, (m₁.requestOf id).pending⟩)) (m₁.retire b id)
  | awaitScratch (m m₁ m' : Machine) (b : BayId) (next : Bytes → Program Reply) (before : R m m₁)
    (after : R (m₁.prepare t (m₁.bay b).drive.scratch.channel) m') :
    Performs R t m (.takeScratch b next) (.parking (.takeScratch b next)) m'
  | takeScratch (m m₁ m' : Machine) (b : BayId) (next : Bytes → Program Reply) (l : SleepLock Bytes)
    (before : R m m₁) (taken : (m₁.bay b).drive.scratch.tryAcquire t = some l)
    (after : R (m₁.setScratch b l) m') :
    Performs R t m (.takeScratch b next) (.running (next l.value)) m'
  | giveScratch (m m₁ m' : Machine) (b : BayId) (value : Bytes) (next : Program Reply) (before : R m m₁)
    (after : R ((m₁.setScratch b { (m₁.bay b).drive.scratch.release with value }).wake
      (m₁.bay b).drive.scratch.channel) m') :
    Performs R t m (.giveScratch b value next) (.running next) m'
  | awaitLock (m m₁ m' : Machine) (lock : Nat) (next : UInt64 → Program Reply) (before : R m m₁)
    (after : R (m₁.prepare t (m₁.lockAt lock).channel) m') :
    Performs R t m (.takeLock lock next) (.parking (.takeLock lock next)) m'
  | takeLock (m m₁ m' : Machine) (lock : Nat) (next : UInt64 → Program Reply) (l : SleepLock UInt64)
    (before : R m m₁) (taken : (m₁.lockAt lock).tryAcquire t = some l)
    (after : R (m₁.putLock lock l) m') :
    Performs R t m (.takeLock lock next) (.running (next l.value)) m'
  | awaitGate (m m₁ m' : Machine) (gate waits : Nat) (next : Nat → Program Reply) (before : R m m₁)
    (after : R (m₁.prepare t (.lock (m₁.gateAt gate).key)) m') :
    Performs R t m (.passGate gate waits next) (.parking (.passGate gate (waits + 1) next)) m'
  | passGate (m m₁ m' : Machine) (gate waits : Nat) (next : Nat → Program Reply) (before : R m m₁)
    (after : R (m₁.putGate gate { m₁.gateAt gate with isOpen := false }) m') :
    Performs R t m (.passGate gate waits next) (.running (next waits)) m'

/-- The channels on which tasks wait for a drive or its scratch block. -/
inductive Drive.HasChannel (d : Drive) : Channel → Prop
  | descriptors : HasChannel d d.descriptorChannel
  | completion (ticket : UInt64) : HasChannel d (d.completionChannel ticket)
  | scratch : HasChannel d d.scratch.channel

/-- A relation that overlooks what the steps of a task do to these drives, to locks and gates, and to the
task itself. -/
structure OverlooksSteps (t : TaskId) (D : BayId → Prop) (R : Machine → Machine → Prop) : Prop where
  trans : ∀ {m m' m''}, R m m' → R m' m'' → R m m''
  act : ∀ m a, R m (m.setActivity t a)
  sleep : ∀ m, R m (m.emit (.sleep t))
  stayUp : ∀ m, R m (m.emit (.noSleep t))
  enter : ∀ m a, R m (m.enter a)
  publish : ∀ m b id s, D b → R m (m.publish b id s)
  retire : ∀ m b id, D b → R m (m.retire b id)
  awaitDrive : ∀ m b c, D b → (m.bay b).drive.HasChannel c → R m (m.prepare t c)
  takeScratch : ∀ m b l, D b → (m.bay b).drive.scratch.tryAcquire t = some l → R m (m.setScratch b l)
  giveScratch : ∀ m b value, D b → R m ((m.setScratch b
    { (m.bay b).drive.scratch.release with value }).wake (m.bay b).drive.scratch.channel)
  awaitLock : ∀ m lock, R m (m.prepare t (m.lockAt lock).channel)
  takeLock : ∀ m lock l, (m.lockAt lock).tryAcquire t = some l → R m (m.putLock lock l)
  awaitGate : ∀ m gate, R m (m.prepare t (.lock (m.gateAt gate).key))
  passGate : ∀ m gate, R m (m.putGate gate { m.gateAt gate with isOpen := false })

/-- A relation that overlooks all that a node does holds between the machines before and after. -/
private theorem OverlooksSteps.of_performs {t : TaskId} {D : BayId → Prop} {R : Machine → Machine → Prop}
    {m m' : Machine} {p : Program Reply} {a : Activity} (hS : OverlooksSteps t D R) (hR : ∀ m, R m m)
    (h : Performs R t m p a m') (hp : p.At D) : R m m' := by
  induction h with
  | done m => exact hR m
  | inspect _ _ _ _ _ h | refuse _ _ _ _ _ _ h => exact h
  | submit m m₁ m' b acc next sector s act before ready rest ih =>
    exact hS.trans (hS.trans before (hS.enter m₁ acc)) (ih hp)
  | unready _ _ _ _ _ _ _ before _ after => exact hS.trans before after
  | awaitDescriptors m m₁ m' b id sector next before after =>
    exact hS.trans (hS.trans before (hS.awaitDrive m₁ b _ hp .descriptors)) after
  | publish m m₁ m₂ m' b id sector next s s' submission chain act before ready published between rest
      ih =>
    exact hS.trans (hS.trans before (hS.publish m₁ b id s' hp)) (hS.trans between (ih hp))
  | awaitCompletion m m₁ m' b id ticket next before after =>
    exact hS.trans (hS.trans before (hS.awaitDrive m₁ b _ hp (.completion ticket))) after
  | retire m m₁ b id ticket next before => exact hS.trans before (hS.retire m₁ b id hp)
  | awaitScratch m m₁ m' b next before after =>
    exact hS.trans (hS.trans before (hS.awaitDrive m₁ b _ hp .scratch)) after
  | takeScratch m m₁ m' b next l before taken after =>
    exact hS.trans (hS.trans before (hS.takeScratch m₁ b l hp taken)) after
  | giveScratch m m₁ m' b value next before after =>
    exact hS.trans (hS.trans before (hS.giveScratch m₁ b value hp)) after
  | awaitLock m m₁ m' lock next before after =>
    exact hS.trans (hS.trans before (hS.awaitLock m₁ lock)) after
  | takeLock m m₁ m' lock next l before taken after =>
    exact hS.trans (hS.trans before (hS.takeLock m₁ lock l taken)) after
  | awaitGate m m₁ m' gate waits next before after =>
    exact hS.trans (hS.trans before (hS.awaitGate m₁ gate)) after
  | passGate m m₁ m' gate waits next before after =>
    exact hS.trans (hS.trans before (hS.passGate m₁ gate)) after

/-- A task does not stay at the node of a submission: it goes on with the reply, or waits. -/
theorem Performs.goes_on {R : Machine → Machine → Prop} {t : TaskId} {m m' : Machine} {p : Program Reply}
    {a : Activity} (h : Performs R t m p a m') {next : SubmitReply → Program Reply}
    (hn : p.next? = some next) : (∃ r, a = .running (next r)) ∨ ∃ p', a = .parking p' := by
  induction h with
  | submit _ _ _ _ _ _ _ _ _ _ _ _ ih | publish _ _ _ _ _ _ _ _ _ _ _ _ _ _ _ _ _ _ ih =>
    cases hn
    exact ih rfl
  | refuse | unready | retire =>
    cases hn
    exact .inl ⟨_, rfl⟩
  | awaitDescriptors | awaitCompletion => exact .inr ⟨_, rfl⟩
  | _ => cases hn

theorem Run.leads_sleepLock {α : Type} {Q : α → Machine → Prop} {m : Machine} {lock : Nat}
    {f : SleepLock UInt64 → Run α} (h : Leads (f (m.lockAt lock)) m Q) : Leads (sleepLock lock >>= f) m Q := h

theorem leads_enterRequest (a : BlockAccess) (m : Machine) :
    Leads (Run.enterRequest a) m fun id m' => id = m.nextRequest ∧ m' = m.enter a :=
  leads_get (leads_set (leads_pure ⟨rfl, rfl⟩))

namespace Tolerates

variable {t : TaskId} {D : BayId → Prop} {R : Machine → Machine → Prop} {m m₁ : Machine} {b : BayId}
  {saved : Bool} {p : Program Reply} {id : RequestId} {next : SubmitReply → Program Reply}

variable (hR : Tolerates t D R)
include hR

/-- After a run that a relation tolerates the machine is still related to one before it. -/
theorem leads {α : Type} {x : Run α} (hx : Within R x) (h : R m m₁) : Leads x m₁ fun _ m' => R m m' :=
  (hx m₁).mono fun _ _ h' => hR.trans h h'

theorem leads_masked {α : Type} {Q : α → Machine → Prop} {f : Bool → Run α}
    (h : ∀ saved m₁, R m m₁ → Leads (f saved) m₁ Q) : Leads (Run.mask t >>= f) m Q :=
  (hR.mask m).bind fun saved m₁ hm => h saved m₁ hm

private theorem leads_proceed {Q : Activity → Machine → Prop} (h : ∀ m', R m₁ m' → Q (.running p) m') :
    Leads (Run.proceed t saved p) m₁ Q :=
  (hR.restore saved m₁).bind fun _ m' hm => leads_pure (h m' hm)

private theorem leads_park {Q : Activity → Machine → Prop} {c : Channel}
    (h : ∀ m', R (m₁.prepare t c) m' → Q (.parking p) m') : Leads (Run.park t saved c p) m₁ Q :=
  leads_modify ((hR.restore saved _).bind fun _ m' hm => leads_pure (h m' hm))

private theorem performs_finishOrPark {ticket : UInt64} (h : R m m₁) :
    Leads (Run.finishOrPark t saved b id ticket next) m₁ (Performs R t m (.complete b id ticket next)) := by
  apply leads_get
  split
  · exact hR.leads_park fun m' hm => .awaitCompletion m m₁ m' b id ticket next h hm
  · refine (hR.leads (hR.restore saved) h).bind fun _ m₂ hm => leads_get (leads_set (leads_pure ?_))
    exact .retire m m₂ b id ticket next hm

theorem performs_publishOrPark (hb : D b) {s : ReadyState} {sector : Nat} (h : R m m₁)
    (hs : (m₁.bay b).drive.state = .ready s) :
    Leads (Run.publishOrPark t saved b s id sector next) m₁
      (Performs R t m (.publish b id sector next)) := by
  apply leads_get
  dsimp only
  split
  · exact (leads_any _).bind fun _ _ _ => leads_throw
  · exact hR.leads_park fun m' hm => .awaitDescriptors m m₁ m' b id sector next h hm
  · next submission chain s' hpublish =>
    refine leads_set ((hR.notify b hb _).bind fun _ m₂ hm₂ => ?_)
    refine (hR.leads (hR.within_log _ _ _) hm₂).bind fun _ m₃ hm₃ => ?_
    exact (hR.performs_finishOrPark (hR.refl m₃)).mono fun act m' hrest =>
      .publish m m₁ m₃ m' b id sector next s s' submission chain act h hs hpublish hm₃ hrest

theorem performs_submit (hb : D b) {a : BlockAccess} :
    Leads (Run.submit t b a next) m (Performs R t m (.submit b a next)) := by
  apply leads_get
  dsimp only
  split
  · exact leads_pure (.refuse m m b a next _ (hR.refl m))
  · next sector _ =>
    refine hR.leads_masked fun saved m₁ hm₁ => leads_get ?_
    split
    · exact hR.leads_proceed fun m' hm => .refuse m m' b a next _ (hR.trans hm₁ hm)
    · next s hs =>
      have hready : (m₁.bay b).drive.state = .ready s := by
        cases hstate : (m₁.bay b).drive.state with
        | ready r =>
          rw [hstate, DriveState.checkSectors] at hs
          split at hs <;> cases hs
          rfl
        | uninitialized | incompatible =>
          rw [hstate] at hs
          cases hs
      refine (leads_enterRequest a m₁).bind fun id m₂ ⟨hid, hm₂⟩ => ?_
      subst hid hm₂
      have hentered : ((m₁.enter a).bay b).drive.state = .ready s := hready
      refine (hR.performs_publishOrPark hb (hR.refl _) hentered).mono fun act m' hrest => ?_
      exact .submit m m₁ m' b a next sector s act hm₁ hready hrest

private theorem performs_publishAgain (hb : D b) {sector : Nat} :
    Leads (Run.publishAgain t b id sector next) m (Performs R t m (.publish b id sector next)) := by
  refine hR.leads_masked fun saved m₁ hm₁ => leads_get ?_
  split
  · next s hs => exact hR.performs_publishOrPark hb hm₁ hs
  · next hne =>
    refine hR.leads_proceed fun m' hm => .unready m m₁ m' b id sector next hm₁ ?_ hm
    cases hstate : (m₁.bay b).drive.state with
    | ready s => exact absurd hstate (hne s)
    | uninitialized | incompatible => rfl

private theorem performs_takeScratch {next : Bytes → Program Reply} :
    Leads (Run.takeScratch t b next) m (Performs R t m (.takeScratch b next)) := by
  refine hR.leads_masked fun saved m₁ hm₁ => leads_get ?_
  dsimp only
  split
  · exact hR.leads_park fun m' hm => .awaitScratch m m₁ m' b next hm₁ hm
  · next l hl => exact leads_modify (hR.leads_proceed fun m' hm => .takeScratch m m₁ m' b next l hm₁ hl hm)

private theorem performs_giveScratch {value : Bytes} {p : Program Reply} :
    Leads (Run.giveScratch t b value) m fun _ => Performs R t m (.giveScratch b value p) (.running p) := by
  refine hR.leads_masked fun saved m₁ hm₁ => leads_get (leads_modify (leads_modify ?_))
  exact (hR.restore saved _).mono fun _ m' hm => .giveScratch m m₁ m' b value p hm₁ hm

private theorem performs_takeLock {lock : Nat} {next : UInt64 → Program Reply} :
    Leads (Run.takeLock t lock next) m (Performs R t m (.takeLock lock next)) := by
  refine hR.leads_masked fun saved m₁ hm₁ => Run.leads_sleepLock ?_
  split
  · exact hR.leads_park fun m' hm => .awaitLock m m₁ m' lock next hm₁ hm
  · next l hl => exact leads_modify (hR.leads_proceed fun m' hm => .takeLock m m₁ m' lock next l hm₁ hl hm)

private theorem performs_passGate {gate waits : Nat} {next : Nat → Program Reply} :
    Leads (Run.passGate t gate waits next) m (Performs R t m (.passGate gate waits next)) := by
  refine hR.leads_masked fun saved m₁ hm₁ => leads_get ?_
  dsimp only
  split
  · exact leads_modify (hR.leads_proceed fun m' hm => .passGate m m₁ m' gate waits next hm₁ hm)
  · exact hR.leads_park fun m' hm => .awaitGate m m₁ m' gate waits next hm₁ hm

theorem performs_node (hp : p.At D) : Leads (Run.node t p) m (Performs R t m p) := by
  cases p with
  | done a => exact leads_pure (.done m a)
  | halt h => exact leads_throw
  | inspect b next =>
    exact (hR.within_inspect m).bind fun state m' h => leads_pure (.inspect m m' b next state h)
  | submit b a next => exact hR.performs_submit hp
  | publish b id sector next => exact hR.performs_publishAgain hp
  | complete b id ticket next => exact hR.leads_masked fun saved m₁ h => hR.performs_finishOrPark h
  | takeScratch b next => exact hR.performs_takeScratch
  | giveScratch b value next =>
    exact hR.performs_giveScratch.bind fun _ m' h => leads_pure h
  | takeLock lock next => exact hR.performs_takeLock
  | passGate gate waits next => exact hR.performs_passGate

theorem leads_advance (hS : OverlooksSteps t D R)
    (hp : ∀ p, (m.task t).activity = .running p → p.At D) :
    Leads (Run.advance t) m fun _ m' => R m m' := by
  apply leads_get
  cases hact : (m.task t).activity with
  | idle | asleep p => exact leads_pure (hR.refl m)
  | running p =>
    exact (hR.performs_node (hp p hact)).bind fun a m₁ h =>
      leads_change (hS.trans (hS.of_performs hR.refl h (hp p hact)) (hS.act m₁ a))
  | parking p =>
    refine Leads.bind (x := Run.settle t p) (Q := fun _ m' => R m m') (leads_get ?_) fun a m₁ h =>
      leads_change (hS.trans h (hS.act m₁ a))
    split
    · exact leads_modify (leads_pure (hS.sleep m))
    · exact leads_modify (leads_pure (hS.stayUp m))

end Tolerates

/-! ### Operations on a number -/

namespace Tolerates

variable {D : BayId → Prop} {R : Machine → Machine → Prop} {m : Machine}

theorem within_status (hR : Tolerates controlTask D R) (number : UInt8) : Within R (Run.status number) := by
  refine within_get fun m => ?_
  cases m.bayOf? number with
  | none => exact hR.within_pure _
  | some b =>
    refine hR.within_bind hR.within_inspect fun state => ?_
    split
    · exact hR.within_pure _
    · refine within_get fun m => ?_
      split
      · exact hR.within_pure _
      · exact hR.within_bind hR.within_inspect fun state => hR.within_pure _

theorem leads_initializeDrive (hR : Tolerates controlTask D R) (state : ∀ m b s, D b → R m (m.setState b s))
    (arena : ∀ m a, R m (m.setArena a)) {number : UInt8} (hb : ∀ b, m.bayOf? number = some b → D b) :
    Leads (Run.initializeDrive number) m fun _ m' => R m m' := by
  apply leads_get
  cases hnumber : m.bayOf? number with
  | none => exact leads_pure (hR.refl m)
  | some b =>
    have hD := hb b hnumber
    refine hR.within_bind hR.within_inspect (fun s => ?_) m
    split
    · exact hR.within_pure _
    · refine hR.within_bind (hR.within_bringUp hD (fun m s => state m b s hD) arena) fun r => ?_
      cases r with
      | ok => exact hR.within_status number
      | error e => exact hR.within_bind (hR.within_log _ _ _) fun _ m => leads_throw

end Tolerates

/-! ### Locks and gates used from outside -/

namespace Tolerates

variable {t : TaskId} {D : BayId → Prop} {R : Machine → Machine → Prop}

theorem within_tryLock (hR : Tolerates t D R) (lock : Nat)
    (put : ∀ m l, (m.lockAt lock).tryAcquire t = some l → R m (m.putLock lock l)) :
    Within R (Run.tryLock t lock) := by
  refine hR.within_bind hR.mask fun saved m => Run.leads_sleepLock ?_
  cases hl : (m.lockAt lock).tryAcquire t with
  | none => exact (hR.restore saved m).bind fun _ _ h => leads_pure h
  | some l => exact leads_modify ((hR.leads (hR.restore saved) (put m l hl)).bind fun _ _ h => leads_pure h)

theorem within_unlock (hR : Tolerates t D R) (lock : Nat)
    (put : ∀ m : Machine, R m ((m.putLock lock (m.lockAt lock).release).wake (m.lockAt lock).channel)) :
    Within R (Run.unlock t lock) := by
  refine hR.within_bind hR.mask fun saved m => Run.leads_sleepLock (leads_modify (leads_modify ?_))
  exact hR.leads (hR.restore saved) (put m)

theorem within_openGate (hR : Tolerates controlTask D R) (gate : Nat) (waking : Bool)
    (put : ∀ m : Machine, R m (m.putGate gate { m.gateAt gate with isOpen := true }))
    (wake : ∀ m c, R m (m.wake c)) : Within R (Run.openGate gate waking) := by
  refine hR.within_bind hR.mask fun saved m => leads_get (leads_modify ?_)
  refine (hR.leads (hR.restore saved) (put m)).bind fun _ m' h => ?_
  split
  · exact leads_change (hR.trans h (wake m' _))
  · exact leads_pure h

end Tolerates

end DiskStack
