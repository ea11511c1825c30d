import DiskStack.Proofs.InFlight
import DiskStack.Proofs.Service

/-!
# Ready drives that nobody uses

A drive at rest is ready, with all tasks idle, all chains back and nothing offered or reported. A
drive that has just been brought up is at rest, if its controller has done nothing yet.
-/

namespace DiskStack

namespace Dialogue

variable {α : Type}

private theorem frame_hold (d : Dialogue α) (c : Controller) :
    (d.hold c).2.image = c.image ∧ (d.hold c).2.held = c.held ∧
      (d.hold c).2.lastAvail = c.lastAvail ∧ (d.hold c).2.usedIndex = c.usedIndex := by
  induction d generalizing c with
  | done a => exact ⟨rfl, rfl, rfl, rfl⟩
  | ask q next ih => exact ih _ _
  | tell command next ih =>
    have hframe : (c.tell command).image = c.image ∧ (c.tell command).held = c.held ∧
        (c.tell command).lastAvail = c.lastAvail ∧ (c.tell command).usedIndex = c.usedIndex := by
      cases command <;> exact ⟨rfl, rfl, rfl, rfl⟩
    obtain ⟨himage, hheld, havail, hused⟩ := ih (c.tell command)
    exact ⟨himage.trans hframe.1, hheld.trans hframe.2.1, havail.trans hframe.2.2.1,
      hused.trans hframe.2.2.2⟩

end Dialogue

namespace RegisterWindow

theorem size_write (w : RegisterWindow) (offset : Nat) (v : UInt32) :
    (w.write offset v).words.size = w.words.size := Array.size_setIfInBounds

theorem read_write_self (w : RegisterWindow) {offset : Nat} (h : offset / 4 < w.words.size)
    (v : UInt32) : (w.write offset v).read offset = v := by
  simp [read, write, h]

end RegisterWindow

namespace Controller

/-- A controller whose window has the register of the queue size. -/
def HasQueue (c : Controller) : Prop := Register.queueNum / 4 < c.window.words.size

private theorem hasQueue_tell {c : Controller} (h : c.HasQueue) (command : Command) :
    (c.tell command).HasQueue := by
  cases command <;>
    simpa [HasQueue, tell, RegisterWindow.tell, RegisterWindow.writeAddress,
      RegisterWindow.size_write] using h

private theorem hasQueue_ask {c : Controller} (h : c.HasQueue) (q : Query) : (c.ask q).2.HasQueue := by
  cases q <;>
    simpa [HasQueue, ask, RegisterWindow.ask, RegisterWindow.size_write] using h

private theorem queueSize_ask (c : Controller) (q : Query) : (c.ask q).2.queueSize = c.queueSize := by
  cases q with
  | deviceFeatures =>
    rw [queueSize, ask, RegisterWindow.ask, RegisterWindow.read_write_of_ne _ (by decide), queueSize]
  | _ => rfl

private theorem queueSize_setQueueSize {c : Controller} (h : c.HasQueue) (size : UInt16) :
    (c.tell (.setQueueSize size)).queueSize = size.toNat := by
  rw [queueSize, tell, RegisterWindow.tell, RegisterWindow.read_write_self _ h]
  · simp
  · exact fun _ => Command.noConfusion
  · exact fun _ => Command.noConfusion
  · exact fun _ => Command.noConfusion

private theorem queueSize_tell (c : Controller) {command : Command}
    (h : ∀ size, command ≠ .setQueueSize size) : (c.tell command).queueSize = c.queueSize := by
  cases command with
  | setQueueSize size => exact absurd rfl (h size)
  | _ =>
    simp only [queueSize, tell, RegisterWindow.tell, RegisterWindow.writeAddress]
    repeat rw [RegisterWindow.read_write_of_ne _ (by decide)]

end Controller

private theorem Dialogue.hasQueue_hold {α : Type} (d : Dialogue α) (c : Controller) (hc : c.HasQueue) :
    (d.hold c).2.HasQueue := by
  induction d generalizing c with
  | done a => exact hc
  | ask q next ih => exact ih _ _ (Controller.hasQueue_ask hc q)
  | tell command next ih => exact ih _ (Controller.hasQueue_tell hc command)

namespace Negotiation

variable {α β : Type}

/-- A negotiation that takes controllers from one condition to another, if it does not fail. -/
def Steers (x : Negotiation α) (P Q : Controller → Prop) : Prop :=
  ∀ c, P c → ∀ a, (x.run.hold c).1 = .ok a → Q (x.run.hold c).2

variable {P Q R : Controller → Prop} {x : Negotiation α} {f : α → Negotiation β}

private theorem Steers.bind (hx : Steers x P Q) (hf : ∀ a, Steers (f a) Q R) : Steers (x >>= f) P R := by
  intro c hc a ha
  have hrun : (x >>= f).run.hold c =
      (ExceptT.bindCont f (x.run.hold c).1 : Dialogue _).hold (x.run.hold c).2 :=
    Dialogue.hold_bind x.run _ c
  rw [hrun] at ha ⊢
  cases hr : (x.run.hold c).1 with
  | ok y =>
    rw [hr] at ha
    exact hf y _ (hx c hc y hr) a ha
  | error e =>
    rw [hr] at ha
    cases ha

private theorem steers_tell {command : Command} (h : ∀ c, P c → Q (c.tell command)) :
    Steers (tell command) P Q := fun c hc _ _ => h c hc

private theorem steers_hasQueue (x : Negotiation α) : Steers x Controller.HasQueue Controller.HasQueue :=
  fun c hc _ _ => Dialogue.hasQueue_hold x.run c hc

private theorem steers_keep {n : Nat} {command : Command} (h : ∀ size, command ≠ .setQueueSize size) :
    Steers (tell command) (·.queueSize = n) (·.queueSize = n) :=
  steers_tell fun c hc => (c.queueSize_tell h).trans hc

private theorem steers_setUpQueue (size : UInt16) (rings : Rings) :
    Steers (setUpQueue size rings) Controller.HasQueue (·.queueSize = size.toNat) := by
  have hset : Steers (tell (.setQueueSize size)) Controller.HasQueue (·.queueSize = size.toNat) :=
    steers_tell fun c hc => Controller.queueSize_setQueueSize hc size
  unfold setUpQueue
  refine hset.bind fun _ => ?_
  refine (steers_keep fun _ => Command.noConfusion).bind fun _ => ?_
  refine (steers_keep fun _ => Command.noConfusion).bind fun _ => ?_
  refine (steers_keep fun _ => Command.noConfusion).bind fun _ => ?_
  exact steers_keep fun _ => Command.noConfusion

private theorem steers_config64 {n : Nat} (offset : Nat) :
    Steers (ExceptT.lift (Dialogue.config64 offset)) (·.queueSize = n) (·.queueSize = n) := by
  intro c hc _ _
  have hlift : (ExceptT.lift (Dialogue.config64 offset) : Negotiation UInt64).run.hold c =
      (.ok ((Dialogue.config64 offset).hold c).1, ((Dialogue.config64 offset).hold c).2) :=
    Dialogue.hold_bind (Dialogue.config64 offset) (fun a => .done (Except.ok a)) c
  rw [hlift]
  change (((c.ask (.config offset)).2.ask (.config (offset + 4))).2).queueSize = n
  rw [Controller.queueSize_ask, Controller.queueSize_ask, hc]

private theorem steers_handshake (size : UInt16) (arena : Arena) :
    Steers (handshake size arena) Controller.HasQueue (·.queueSize = size.toNat) := by
  unfold handshake
  refine (steers_hasQueue _).bind fun _ => (steers_hasQueue _).bind fun _ =>
    (steers_hasQueue _).bind fun _ => (steers_hasQueue _).bind fun _ =>
    (steers_hasQueue _).bind fun _ => (steers_hasQueue _).bind fun _ =>
    (steers_hasQueue _).bind fun _ => (steers_hasQueue _).bind fun _ =>
    (steers_hasQueue _).bind fun _ => (steers_hasQueue _).bind fun _ => ?_
  refine (steers_setUpQueue size _).bind fun _ => ?_
  refine (steers_keep fun _ => Command.noConfusion).bind fun _ => ?_
  exact (steers_config64 0).bind fun _ => fun c hc _ _ => hc

end Negotiation

/-- A controller that has done nothing yet, with a whole image. -/
structure Controller.Untouched (c : Controller) : Prop where
  hasQueue : c.HasQueue
  held : c.held = []
  taken : c.lastAvail = 0
  reported : c.usedIndex = 0
  whole : c.image.Whole

/-- A ready drive that nobody uses: all tasks are idle, and no chain is in flight, offered, held or
reported. -/
structure Machine.AtRest (m : Machine) (b : BayId) (st : ReadyState) : Prop where
  steady : m.Steady b
  idle : ∀ t, (m.task t).activity = .idle
  requests : m.requests.entries = []
  ready : (m.bay b).drive.state = .ready st
  valid : (m.bay b).drive.config.isValid = true
  free : (m.bay b).drive.scratch.held = false
  unowned : (m.bay b).drive.scratch.owner = none
  block : (m.bay b).drive.scratch.value.length = (m.bay b).drive.config.blockSize
  balanced : st.rings.Balanced (m.bay b).drive.config.queueSize.toNat
  vacant : ∀ h, ¬st.rings.IsHead h
  placed : st.rings.Placed
  queue : (m.bay b).controller.queueSize = (m.bay b).drive.config.queueSize.toNat
  held : (m.bay b).controller.held = []
  taken : (m.bay b).controller.lastAvail = st.rings.queue.avail.index
  reported : (m.bay b).controller.usedIndex = st.rings.queue.used.deviceIndex
  drained : st.rings.queue.used.isDrained = true
  whole : (m.bay b).controller.image.Whole

namespace Rings

private theorem unused_drained (size : UInt16) (p : RingPages) :
    (unused size p).queue.used.isDrained = true ∧ (unused size p).queue.used.deviceIndex = 0 ∧
      (unused size p).queue.avail.index = 0 := by
  have hused : (unused size p).queue.used.deviceIndex = 0 := Region.load16_page ..
  refine ⟨?_, hused, Region.load16_page ..⟩
  rw [UsedRing.isDrained, hused]
  rfl

end Rings

/-- A drive that has been brought up with a controller that had done nothing is at rest. -/
private theorem Machine.Fresh.atRest {m m' : Machine} {b : BayId} {st : ReadyState} (fresh : m.Fresh b)
    (valid : (m.bay b).drive.config.isValid = true)
    (free : (m.bay b).drive.scratch.held = false) (unowned : (m.bay b).drive.scratch.owner = none)
    (block : (m.bay b).drive.scratch.value.length = (m.bay b).drive.config.blockSize)
    (untouched : (m.bay b).controller.Untouched)
    {r : Except Halt (Except InitError Unit)} (h : (Run.bringUp b).run.run m = (r, m'))
    (ready : (m'.bay b).drive.state = .ready st) (placed : st.rings.Placed) : m'.AtRest b st := by
  have hends := Run.ends_bringUp (Steady.shows ⟨fresh.present, fresh.quiet, fresh.separate⟩)
  rw [Run.Ends, h] at hends
  obtain ⟨-, v', hstarts, hm⟩ := hends
  have hview := hm.view
  have hstate : v'.state = .ready st := by rw [← hview]; exact ready
  cases hstarts with
  | refused hne => exact absurd fresh.uninitialized hne
  | invalid _ _ => cases hstate
  | failed _ _ e _ => cases hstate
  | started _ _ s arena hok =>
    cases hstate
    obtain ⟨⟨p, -, hrings⟩, -⟩ := View.rings_of_started (v := m.view b) valid hok
    obtain ⟨hleast, hmost⟩ := DriveConfig.queue_of_isValid valid
    obtain ⟨himage, hheld, htaken, hused⟩ := Dialogue.frame_hold
      (handshake (m.bay b).drive.config.queueSize m.arena).run (m.bay b).controller
    have hqueue := Negotiation.steers_handshake (m.bay b).drive.config.queueSize m.arena
      (m.bay b).controller untouched.hasQueue _ hok
    have hconfig : (m'.bay b).drive.config = (m.bay b).drive.config := congrArg View.config hview
    have hscratch : (m'.bay b).drive.scratch = (m.bay b).drive.scratch :=
      congrArg View.scratch hview
    have hcontroller : (m'.bay b).controller =
        ((handshake (m.bay b).drive.config.queueSize m.arena).run.hold (m.bay b).controller).2 :=
      congrArg View.controller hview
    have hrequests : m'.requests = m.requests := congrArg View.requests hview
    have hnone : ∀ h, ¬st.rings.IsHead h := fun h hh => by
      rw [hrings, Rings.IsHead, Rings.entryAt_unused] at hh
      cases hh
    obtain ⟨hdrained, hdevice, havail⟩ :=
      Rings.unused_drained (m.view b).config.queueSize p
    rw [← hrings] at hdrained hdevice havail
    exact
      { steady := hm.steady
        idle := fun t => (congrFun (congrArg View.activity hview) t).trans (fresh.idle t)
        requests := by rw [hrequests, fresh.requests]
        ready
        valid := by rw [hconfig, valid]
        free := by rw [hscratch, free]
        unowned := by rw [hscratch, unowned]
        block := by rw [hscratch, hconfig, block]
        balanced := by
          rw [hconfig, hrings]
          exact Rings.unused_balanced _ _ hleast hmost
        vacant := hnone
        placed
        queue := by rw [hcontroller, hconfig, hqueue]
        held := by rw [hcontroller, hheld, untouched.held]
        taken := by rw [hcontroller, htaken, untouched.taken, havail]
        reported := by rw [hcontroller, hused, untouched.reported, hdevice]
        drained := hdrained
        whole := by
          rw [hcontroller, himage]
          exact untouched.whole }

namespace Scene

variable {b : BayId} {m : Machine} {st : ReadyState}

theorem attended_of_atRest (rest : m.AtRest b st) : Attended { machine := m } b st := by
  have hlost : ∀ {t : TaskId} {g : Stage}, (m.view b).stage t ≠ some g := fun {t g} h => by
    rw [View.stage_of_idle (rest.idle t)] at h
    cases h
  have hgone : ∀ {id : RequestId} {q : BlockRequest}, (m.view b).requests.find? id ≠ some q :=
    fun {id q} h => by
      rw [RequestTable.find?, show (m.view b).requests.entries = [] from rest.requests] at h
      cases h
  have hfree : ∀ {h : UInt16} {e : InFlight}, st.rings.entryAt h.toNat ≠ some e := fun he =>
    rest.vacant _ (Rings.isHead_of_entryAt he)
  have hkept : (m.view b).Kept st :=
    { balanced := rest.balanced
      unpublished := fun _ _ _ _ h => absurd h hlost
      entered := fun _ _ h => absurd h hfree
      pending := fun _ _ _ _ h => absurd h hlost
      unique := fun _ _ _ _ h => absurd h hfree
      ticketed := ⟨st.nextTicket, [], List.nodup_nil, fun _ h => absurd h List.not_mem_nil,
        (UInt64.add_zero _).symm, fun _ _ _ h => absurd h hlost, fun _ _ h => absurd h hfree⟩ }
  have horderly : (m.view b).Orderly b := by
    apply View.Orderly.of_idle rest.idle rest.requests
    intro s hs
    cases hs.symm.trans rest.ready
    exact hkept
  have hcustody : st.rings.Custody (m.bay b).controller (m.bay b).drive.config.queueSize.toNat
      [] [] [] :=
    { queue := rest.queue
      tracks := by
        rw [rest.held]
        exact ⟨List.nodup_nil, fun h => iff_of_false (rest.vacant h) List.not_mem_nil,
          .inr (Nat.zero_le _)⟩
      offers := ⟨by rw [rest.taken]; exact (UInt16.add_zero _).symm, fun _ h => absurd h (Nat.not_lt_zero _)⟩
      reports := ⟨by
        have hdrained := rest.drained
        rw [UsedRing.isDrained, beq_iff_eq] at hdrained
        rw [← hdrained]
        exact (UInt16.add_zero _).symm, fun _ h => absurd h (Nat.not_lt_zero _)⟩
      usedIndex := rest.reported
      undone := fun h hh => by
        rw [rest.held] at hh
        cases hh
      done := fun h hh => by cases hh }
  exact ⟨rest.steady, horderly, rest.ready, rest.valid, rest.placed, fun _ _ h => absurd h hgone,
    fun _ _ _ _ h => absurd h hgone, rest.whole, [], [], hcustody, fun h => by cases h⟩

theorem atomic_of_atRest (rest : m.AtRest b st) :
    atomic { machine := m } b st =
      ⟨(m.bay b).controller.image, (m.bay b).drive.scratch, fun _ => .idle⟩ :=
  AtomicDrive.ext rfl rfl fun t => View.point_of_idle (congrArg Activity.program? (rest.idle t))

end Scene

namespace Machine

private theorem untouched_sample : (sample.bay 0).controller.Untouched where
  hasQueue := by
    unfold Controller.HasQueue
    decide +kernel
  held := rfl
  taken := rfl
  reported := rfl
  whole _ := List.length_replicate ..

/-- The sample machine with its drive brought up. -/
def readySample : Machine := ((Run.bringUp 0).run.run sample).2

theorem exists_atRest_sample :
    ∃ st, readySample.AtRest 0 st ∧ (readySample.view 0).parameters 0 st = ⟨0, {}, 128, false⟩ ∧
      ∀ n ∈ [6, 7], st.rings.Misses ((Arena.mk n).reserve 0).1 := by
  have hup : (readySample.bay 0).drive.config = {} ∧
      ((readySample.bay 0).drive.state.ready?.any fun st => decide
        (st.capacity = 128 ∧ st.readOnly = false ∧ st.rings.Placed ∧
          st.rings.Misses ((Arena.mk 6).reserve 0).1 ∧ st.rings.Misses ((Arena.mk 7).reserve 0).1)) =
        true := by
    decide +kernel
  obtain ⟨r, hrun⟩ : ∃ r, (Run.bringUp 0).run.run sample = (r, readySample) := ⟨_, (Prod.eta _).symm⟩
  -- from here on the machine is known by what has been computed
  generalize readySample = m at *
  obtain ⟨hconfig, hready⟩ := hup
  rw [Option.any_eq_true] at hready
  obtain ⟨st, hst, hfacts⟩ := hready
  obtain ⟨hcapacity, hopen, hplaced, hsix, hseven⟩ := of_decide_eq_true hfacts
  refine ⟨st, ?_, ?_, ?_⟩
  · exact fresh_sample.atRest (by decide) rfl rfl (by decide +kernel) untouched_sample hrun
      (DriveState.ready_of_ready? hst) hplaced
  · rw [View.parameters, hcapacity, hopen]
    exact congrArg (fun config => (⟨0, config, 128, false⟩ : DriveParameters)) hconfig
  · simp only [List.forall_mem_cons, List.not_mem_nil, false_imp_iff, implies_true, and_true]
    exact ⟨hsix, hseven⟩

end Machine

end DiskStack
