import DiskStack.Proofs.Deliveries
import DiskStack.Proofs.Scribbles

/-!
# No completion is stranded

The completion handler acknowledges the causes of the interrupt before it looks at the used ring, and
looks again before each element that it takes. A controller may write into the memory that it shares with
the drive, move its index on and set the flag of the interrupt at any point between the handler's accesses
to registers and memory. Main result: whenever the handler does not run and the controller owes no flag,
the cursor has caught up with the index or the flag is set, so the interrupt is still asserted; and
each handler acknowledges the causes that it has read.
-/

namespace DiskStack

open Run (CompletionPoint Leads)

/-! ### The handler's accesses one by one -/

namespace Rings

/-- The rings whose used ring has been replaced. -/
def withUsed (r : Rings) (used : UsedRing) : Rings := { r with queue := { r.queue with used } }

end Rings

namespace DescriptorPool

/-- Gives back one slot of a chain and tells which slot follows it. -/
def freeNext (p : DescriptorPool) (i : UInt16) : Except Halt (Option UInt16 × DescriptorPool) := do
  let d ← p.get i
  let p ← p.freeOne i
  return (if d.hasNext then some d.next else none, p)

private theorem freeLinked_succ (head : UInt16) (bound freed : Nat) (i : UInt16) (p : DescriptorPool) :
    freeLinked head (bound + 1) freed i p = p.freeNext i >>= fun q =>
      match q.1 with
      | some j => freeLinked head bound (freed + 1) j q.2
      | none => .ok (freed + 1, q.2) := by
  simp only [freeLinked, freeNext, bind, Except.bind, pure, Except.pure]
  cases p.get i with
  | error e => rfl
  | ok d =>
    cases p.freeOne i with
    | error e => rfl
    | ok q => cases h : d.hasNext <;> simp [h]

end DescriptorPool

/-- How far a completion handler has come, down to its single accesses to registers and memory. -/
inductive AccessPoint
  | between (point : CompletionPoint)
  /-- An element has been read, and the cursor moved past it. -/
  | claiming (element : UsedElement)
  /-- The slots of a chain go back one by one, from the given one on. -/
  | freeing (head : UInt16) (bound : Nat) (i : UInt16)
  | counting (head : UInt16)
  deriving DecidableEq, Repr

/-- Whether the handler has read the causes of its interrupt and has not yet found the ring drained. -/
def AccessPoint.working : AccessPoint → Bool
  | .between .reading | .between .finished => false
  | _ => true

/-- One access of the completion handler, with the taking of an element in its single accesses. -/
def Run.access (b : BayId) (point : AccessPoint) : Run AccessPoint := do
  match ((← get).bay b).drive.state, point with
  | .ready s, .between .taking =>
    let (element, used) ← ofChecked s.rings.queue.used.take
    modify (·.setState b (.ready { s with rings := s.rings.withUsed used }))
    return .claiming element
  | .ready s, .claiming element =>
    match s.rings.claim element with
    | (.error h, rings) =>
      modify (·.setState b (.ready { s with rings }))
      logFailure h
      throw h
    | (.ok (head, entry), rings) =>
      let drive := ((← get).bay b).drive
      modify fun m => (m.setState b (.ready { s with rings })).setRequests
        (m.requests.setPending entry.request false)
      wake (drive.completionChannel entry.ticket)
      return .freeing head rings.queue.pool.size.toNat head
  | .ready _, .freeing head 0 _ => throw (.endlessChain head)
  | .ready s, .freeing head (bound + 1) i =>
    let (next, pool) ← ofChecked (s.rings.queue.pool.freeNext i)
    modify (·.setState b (.ready { s with rings := s.rings.withPool pool }))
    match next with
    | some j => return .freeing head bound j
    | none => return .counting head
  | .ready _, .counting head =>
    wake ((← get).bay b).drive.descriptorChannel
    modify (·.counted b)
    log .debug driveSource s!"virtio-blk: completed head {head}"
    return .between .looking
  | _, .between point => return .between (← completionStep b point)
  | _, _ => return .between .finished

namespace Machine

variable {m : Machine} {b : BayId}

private theorem setState_setState (s s' : DriveState) :
    (m.setState b s).setState b s' = m.setState b s' := mapBay_mapBay _ _

end Machine

namespace Run

variable {b : BayId} {m m' : Machine}

/-- One access with nothing coming in between. -/
def AccessStep (b : BayId) (x y : Machine × AccessPoint) : Prop :=
  (access b x.2).run.run x.1 = (.ok y.2, y.1)

abbrev Reaches (b : BayId) : Machine × AccessPoint → Machine × AccessPoint → Prop :=
  Relation.ReflTransGen (AccessStep b)

private theorem accessStep_of_ends {p q : AccessPoint}
    (h : Ends (access b p) m fun r x => r = .ok q ∧ x = m') : AccessStep b (m, p) (m', q) :=
  Prod.ext h.1 h.2

private theorem reaches_freeing {s : ReadyState} {head i : UInt16} {bound freed k : Nat}
    {pool : DescriptorPool}
    (hs : (m.bay b).drive.state = .ready s)
    (h : DescriptorPool.freeLinked head bound freed i s.rings.queue.pool = .ok (k, pool)) :
    Reaches b (m, .freeing head bound i)
      (m.setState b (.ready { s with rings := s.rings.withPool pool }), .counting head) := by
  induction bound generalizing m s i freed with
  | zero => cases h
  | succ bound ih =>
    rw [DescriptorPool.freeLinked_succ] at h
    cases hfree : s.rings.queue.pool.freeNext i with
    | error e =>
      rw [hfree] at h
      cases h
    | ok p =>
      obtain ⟨next, pool₁⟩ := p
      rw [hfree] at h
      have hb := Machine.lt_of_ready hs
      cases next with
      | none =>
        cases h
        refine .single (accessStep_of_ends (ends_get ?_))
        rw [hs]
        change Ends (ofChecked (s.rings.queue.pool.freeNext i) >>= _) m _
        rw [hfree]
        exact ends_bind (ends_pure (ends_modify (ends_pure ⟨rfl, rfl⟩)))
      | some j =>
        have hstep : AccessStep b (m, .freeing head (bound + 1) i)
            (m.setState b (.ready { s with rings := s.rings.withPool pool₁ }), .freeing head bound j) := by
          refine accessStep_of_ends (ends_get ?_)
          rw [hs]
          change Ends (ofChecked (s.rings.queue.pool.freeNext i) >>= _) m _
          rw [hfree]
          exact ends_bind (ends_pure (ends_modify (ends_pure ⟨rfl, rfl⟩)))
        have hready := congrArg (·.drive.state) (Machine.bay_setState (m := m)
          (.ready { s with rings := s.rings.withPool pool₁ }) hb)
        have hlinked : DescriptorPool.freeLinked head bound (freed + 1) j pool₁ = .ok (k, pool) := h
        have hrest := ih (s := { s with rings := s.rings.withPool pool₁ }) hready hlinked
        rw [Machine.setState_setState] at hrest
        exact .head hstep hrest

theorem leads_reaches (m : Machine) : Leads (completionStep b .taking) m fun point m' =>
    Reaches b (m, .between .taking) (m', .between point) := by
  apply leads_get
  cases hs : (m.bay b).drive.state with
  | uninitialized | incompatible =>
    refine leads_pure (.single (accessStep_of_ends (ends_get ?_)))
    rw [hs]
    refine ends_bind (ends_get ?_)
    rw [hs]
    exact ends_pure (ends_pure ⟨rfl, rfl⟩)
  | ready s =>
    have hb := Machine.lt_of_ready hs
    refine (leads_completeNext (Q := fun _ m' => Reaches b (m, .between .taking) (m', .between .looking))
      fun head e q r hc hr => ?_).bind fun _ m' h => leads_pure h
    obtain ⟨element, used, htake, hclaim⟩ := Rings.exists_take_of_collect hc
    obtain ⟨⟨k, pool⟩, hfree, hr⟩ := Checked.exists_of_bind hr
    cases hr
    have htaken : AccessStep b (m, .between .taking)
        (m.setState b (.ready { s with rings := s.rings.withUsed used }), .claiming element) := by
      refine accessStep_of_ends (ends_get ?_)
      rw [hs]
      change Ends (ofChecked s.rings.queue.used.take >>= _) m _
      rw [htake]
      exact ends_bind (ends_pure (ends_modify (ends_pure ⟨rfl, rfl⟩)))
    have hstate := congrArg (·.drive.state) (Machine.bay_setState (m := m)
      (.ready { s with rings := s.rings.withUsed used }) hb)
    have hclaimed : AccessStep b
        (m.setState b (.ready { s with rings := s.rings.withUsed used }), .claiming element)
        (((m.setState b (.ready { s with rings := q })).setRequests
          (m.requests.setPending e.request false)).wake ((m.bay b).drive.completionChannel e.ticket),
          .freeing head q.queue.pool.size.toNat head) := by
      refine accessStep_of_ends (ends_get ?_)
      rw [hstate]
      change Ends (match (s.rings.withUsed used).claim element with
        | (.error h, rings) => _
        | (.ok (head, entry), rings) => _) _ _
      rw [show (s.rings.withUsed used).claim element = _ from hclaim]
      refine ends_get (ends_modify (ends_modify (ends_pure ⟨rfl, ?_⟩)))
      rw [Machine.setState_setState, Machine.bay_setState _ hb]
      rfl
    have hready : ((((m.setState b (.ready { s with rings := q })).setRequests
        (m.requests.setPending e.request false)).wake
          ((m.bay b).drive.completionChannel e.ticket)).bay b).drive.state =
        .ready { s with rings := q } := by
      rw [Machine.bay_wake, Machine.bay_setRequests, Machine.bay_setState _ hb]
    have hfreed := reaches_freeing hready hfree
    refine .tail (.trans (.tail (.single htaken) hclaimed) hfreed) (accessStep_of_ends (ends_get ?_))
    rw [Machine.bay_setState _ (Machine.lt_of_ready hready)]
    refine ends_get (ends_modify (ends_modify (ends_modify (ends_pure ⟨rfl, ?_⟩))))
    rw [Machine.bay_setState _ (Machine.lt_of_ready hready), Machine.bay_wake, Machine.bay_setRequests,
      Machine.bay_setState _ hb]
    rfl

end Run

namespace AccessPoint

/-- The causes that have been read and not yet acknowledged. -/
def causes? : AccessPoint → Option UInt32
  | .between (.acknowledging causes) => some causes
  | _ => none

private theorem causes?_of_idle {point : AccessPoint} (h : point.working = false) :
    point.causes? = none := by
  cases point with
  | between point => cases point <;> first | rfl | cases h
  | _ => rfl

end AccessPoint

namespace Machine

/-- What an access of the handler does, as far as the registers and the used ring go. -/
inductive Handled (b : BayId) (m : Machine) : AccessPoint → AccessPoint → Machine → Prop
  | off (point : AccessPoint) (h : (m.bay b).drive.state.isReady = false) :
    Handled b m point (.between .finished) m
  | finished : Handled b m (.between .finished) (.between .finished) m
  | read (causes : UInt32) (m' : Machine) (ready : (m.bay b).drive.state.isReady = true)
    (h : m.Accesses b [.query (m.bay b).number .interruptStatus causes] m') :
    Handled b m (.between .reading) (.between (.acknowledging causes)) m'
  | acknowledge (causes : UInt32) (m' : Machine) (ready : (m.bay b).drive.state.isReady = true)
    (h : m.Accesses b [.command (m.bay b).number (.ackInterrupt (causes &&& interruptMask))] m') :
    Handled b m (.between (.acknowledging causes)) (.between .looking) m'
  | drained (s : ReadyState) (hs : (m.bay b).drive.state = .ready s)
    (h : s.rings.queue.used.lastSeen = s.rings.queue.used.deviceIndex) :
    Handled b m (.between .looking) (.between .finished) m
  | work (point next : AccessPoint) (m' : Machine) (evs : List Event)
    (busy : point.working = true) (stays : next.working = true)
    (told : point.causes? = none) (unread : next.causes? = none)
    (ready : (m'.bay b).drive.state.isReady = true) (number : (m'.bay b).number = (m.bay b).number)
    (events : m'.events = evs ++ m.events) (quiet : ∀ e ∈ evs, e.kind ≠ .registers) :
    Handled b m point next m'

variable {m : Machine} {b : BayId}

private theorem handled_setState (hb : b < m.bays.size) (s : ReadyState) {point next : AccessPoint}
    (busy : point.working = true) (stays : next.working = true)
    (told : point.causes? = none) (unread : next.causes? = none) :
    m.Handled b point next (m.setState b (.ready s)) :=
  .work point next _ [] busy stays told unread (by rw [bay_setState _ hb]; rfl)
    (by rw [bay_setState _ hb]) rfl fun e he => by cases he

end Machine

namespace Run

variable {m : Machine} {b : BayId} {s : ReadyState}

private theorem leads_access_between (hs : (m.bay b).drive.state = .ready s) {point : CompletionPoint}
    (hpoint : point ≠ .taking) :
    Leads (completionStep b point) m fun next m' => m.Handled b (.between point) (.between next) m' := by
  have hb := Machine.lt_of_ready hs
  have hready : (m.bay b).drive.state.isReady = true := by rw [hs]; rfl
  cases point with
  | reading =>
    apply (ends_reading hb hs).mono
    rintro _ m' ⟨causes, rfl, h⟩ _ ⟨⟩
    exact .read causes m' hready h
  | acknowledging causes =>
    apply (ends_acknowledging hb hs causes).mono
    rintro _ m' ⟨rfl, h⟩ _ ⟨⟩
    exact .acknowledge causes m' hready h
  | looking =>
    apply leads_get
    rw [hs]
    refine leads_pure ?_
    cases hd : s.rings.queue.used.isDrained with
    | true => exact .drained s hs (beq_iff_eq.1 hd)
    | false => exact .work _ _ m [] rfl rfl rfl rfl hready rfl rfl fun e he => by cases he
  | taking => exact absurd rfl hpoint
  | finished =>
    apply leads_get
    rw [hs]
    exact leads_pure .finished

private theorem leads_access_taking (hs : (m.bay b).drive.state = .ready s) :
    Leads (access b (.between .taking)) m fun next m' => m.Handled b (.between .taking) next m' := by
  apply leads_get
  rw [hs]
  refine leads_ofChecked fun p _ => leads_modify (leads_pure ?_)
  exact Machine.handled_setState (Machine.lt_of_ready hs) _ rfl rfl rfl rfl

private theorem leads_access_claiming (hs : (m.bay b).drive.state = .ready s) (element : UsedElement) :
    Leads (access b (.claiming element)) m fun next m' => m.Handled b (.claiming element) next m' := by
  have hb := Machine.lt_of_ready hs
  apply leads_get
  rw [hs]
  dsimp only
  split
  · exact leads_modify ((leads_any _).bind fun _ _ _ => leads_throw)
  · next head e q _ =>
    refine leads_get (leads_modify (leads_modify (leads_pure ?_)))
    have hbay := Machine.bay_setState (m := m) (.ready { s with rings := q }) hb
    refine .work _ _ _ [_] rfl rfl rfl rfl ?_ ?_ rfl ?_
    · rw [Machine.bay_wake, Machine.bay_setRequests, hbay]
      rfl
    · rw [Machine.bay_wake, Machine.bay_setRequests, hbay]
    · intro e he
      cases List.mem_singleton.1 he
      exact EventKind.noConfusion

private theorem leads_access_freeing (hs : (m.bay b).drive.state = .ready s) (head : UInt16) (bound : Nat)
    (i : UInt16) : Leads (access b (.freeing head bound i)) m fun next m' =>
      m.Handled b (.freeing head bound i) next m' := by
  apply leads_get
  rw [hs]
  cases bound with
  | zero => exact leads_throw
  | succ bound =>
    have hb := Machine.lt_of_ready hs
    refine leads_ofChecked fun ⟨next, pool⟩ _ => leads_modify ?_
    cases next with
    | none => exact leads_pure (Machine.handled_setState hb _ rfl rfl rfl rfl)
    | some j => exact leads_pure (Machine.handled_setState hb _ rfl rfl rfl rfl)

private theorem leads_access_counting (hs : (m.bay b).drive.state = .ready s) (head : UInt16) :
    Leads (access b (.counting head)) m fun next m' => m.Handled b (.counting head) next m' := by
  apply leads_get
  rw [hs]
  refine leads_get (leads_modify (leads_modify (leads_modify (leads_pure ?_))))
  have hbay := Machine.bay_counted (m := m.wake (m.bay b).drive.descriptorChannel)
    (Machine.lt_of_ready hs)
  rw [Machine.bay_wake] at hbay
  refine .work _ _ _ [.wake (m.bay b).drive.descriptorChannel
    (m.waiting.waitersOf (m.bay b).drive.descriptorChannel)] rfl rfl rfl rfl ?_ ?_ ?_ ?_
  · rw [Machine.bay_log, hbay, hs]
    rfl
  · rw [Machine.bay_log, hbay]
  · rw [Machine.events_log]
    rfl
  · intro e he
    cases List.mem_singleton.1 he
    exact EventKind.noConfusion

private theorem leads_access (m : Machine) (b : BayId) (point : AccessPoint) :
    Leads (access b point) m fun next m' => m.Handled b point next m' := by
  cases hs : (m.bay b).drive.state with
  | uninitialized | incompatible =>
    have hoff : ∀ p, m.Handled b p (.between .finished) m := fun p => .off p (by rw [hs]; rfl)
    apply leads_get
    rw [hs]
    cases point with
    | between point =>
      refine (leads_get (Q := fun next m' => next = .finished ∧ m' = m) ?_).bind ?_
      · rw [hs]
        exact leads_pure ⟨rfl, rfl⟩
      · rintro _ _ ⟨rfl, rfl⟩
        exact leads_pure (hoff _)
    | _ => exact leads_pure (hoff _)
  | ready s =>
    cases point with
    | between point =>
      by_cases hpoint : point = .taking
      · subst hpoint
        exact leads_access_taking hs
      · have haccess : Leads (completionStep b point >>= fun next => pure (.between next)) m
            fun next m' => m.Handled b (.between point) next m' :=
          (leads_access_between hs hpoint).bind fun next m' h => leads_pure h
        apply leads_get
        rw [hs]
        cases point with
        | taking => exact absurd rfl hpoint
        | _ => exact haccess
    | claiming element => exact leads_access_claiming hs element
    | freeing head bound i => exact leads_access_freeing hs head bound i
    | counting head => exact leads_access_counting hs head

end Run

/-! ### Handler and controller -/

/-- Whether the flag of the used ring is set among the causes of the interrupt. -/
def Controller.isRaised (c : Controller) : Bool := c.window.read Register.interruptStatus &&& 1 != 0

namespace Machine

/-- The cursor has caught up with the index, or the interrupt is asserted. -/
def Answered (m : Machine) (b : BayId) : Prop :=
  ∀ s, (m.bay b).drive.state = .ready s →
    s.rings.queue.used.lastSeen = s.rings.queue.used.deviceIndex ∨
      (m.bay b).controller.isRaised = true

theorem answered_of_ofSize {m : Machine} {b : BayId} {s : ReadyState} {size : UInt16} {arena rest : Arena}
    (hs : (m.bay b).drive.state = .ready s) (fresh : Rings.ofSize size arena = .ok (s.rings, rest)) :
    m.Answered b := by
  intro s' hs'
  cases hs.symm.trans hs'
  obtain ⟨arena', rest', hused⟩ := Rings.used_ofSize fresh
  obtain ⟨-, -, hseen, hindex⟩ := UsedRing.of_ofSize hused
  exact .inl (hseen.trans hindex.symm)

/-- What others do who neither use the used ring of a drive nor acknowledge its interrupts. -/
structure Avoids (b : BayId) (m m' : Machine) : Prop where
  number : (m'.bay b).number = (m.bay b).number
  ready : (m'.bay b).drive.state.isReady = (m.bay b).drive.state.isReady
  used : ∀ s s', (m.bay b).drive.state = .ready s → (m'.bay b).drive.state = .ready s' →
    s'.rings.queue.used = s.rings.queue.used
  raised : (m.bay b).controller.isRaised = true → (m'.bay b).controller.isRaised = true

end Machine

/-- A machine whose completion handler and controller take turns. -/
structure Attendance where
  machine : Machine
  /-- How far the handler has come, while it runs and keeps the drive's short lock. -/
  handler : Option AccessPoint := none
  /-- Whether the controller has moved its index on and not yet set the flag. -/
  untold : Bool := false

namespace Attendance

/-- One access of the handler, a step of the controller or of somebody else, and what is added to the
journal. The controller may write anything it likes and change any of its registers, but clears no
flag that it has set; when it has moved its index on it owes a flag. -/
inductive Step (b : BayId) (s : Attendance) : List Event → Attendance → Prop
  | interrupt (hl : s.handler = none) : Step b s [] { s with handler := some (.between .reading) }
  | handle (point next : AccessPoint) (m : Machine) (l : List Event) (hl : s.handler = some point)
    (h : (Run.access b point).run.run s.machine = (.ok next, m))
    (seen : m.events = l.reverse ++ s.machine.events) :
    Step b s l { s with machine := m, handler := some next }
  | leave (hl : s.handler = some (.between .finished)) : Step b s [] { s with handler := none }
  | write (st : ReadyState) (c : Controller) (shared : SharedMemory)
    (hst : (s.machine.bay b).drive.state = .ready st)
    (h : SharedMemory.Scribbled ⟨st.rings, s.machine.requests⟩ shared)
    (index : shared.rings.queue.used.deviceIndex = st.rings.queue.used.deviceIndex)
    (raised : (s.machine.bay b).controller.isRaised = true → c.isRaised = true) :
    Step b s [] { s with machine := s.machine.putShared b st c shared }
  | publish (st : ReadyState) (shared : SharedMemory)
    (hst : (s.machine.bay b).drive.state = .ready st)
    (h : SharedMemory.Scribbled ⟨st.rings, s.machine.requests⟩ shared) :
    Step b s []
      { s with
        machine := s.machine.putShared b st (s.machine.bay b).controller shared
        untold := true }
  | tell (st : ReadyState) (c : Controller) (hst : (s.machine.bay b).drive.state = .ready st)
    (raised : c.isRaised = true) :
    Step b s [] { s with machine := s.machine.mapController b fun _ => c, untold := false }
  | other (m : Machine) (h : s.machine.Avoids b m) : Step b s [] { s with machine := m }

abbrev Run (b : BayId) (s : Attendance) : List Event → Attendance → Prop := Runs (Step b) s

/-- A handler's accesses to registers: it reads the causes of the interrupt and acknowledges those of
them that there are. -/
def exchange (number : UInt8) (causes : UInt32) : List Event :=
  [.query number .interruptStatus causes, .command number (.ackInterrupt (causes &&& interruptMask))]

/-- What has been read and not yet acknowledged. -/
def outstanding (number : UInt8) (handler : Option AccessPoint) : List Event :=
  match handler.bind AccessPoint.causes? with
  | some causes => [.query number .interruptStatus causes]
  | none => []

/-- The accesses to registers among the events of a run. -/
def registers (trace : List Event) : List Event := trace.filter fun e => e.kind == .registers

/-- Whether the handler does not run, or has not read anything yet or nothing more to do. -/
def Idle (handler : Option AccessPoint) : Prop := ∀ point, handler = some point → point.working = false

structure Sound (b : BayId) (n : UInt8) (s : Attendance) (trace : List Event) : Prop where
  number : (s.machine.bay b).number = n
  ready : ∀ point, s.handler = some point → point.working = true →
    (s.machine.bay b).drive.state.isReady = true
  answered : Idle s.handler → s.untold = false → s.machine.Answered b
  seen : ∃ causes : List UInt32,
    registers trace = causes.flatMap (exchange n) ++ outstanding n s.handler

variable {b : BayId} {n : UInt8} {s s' : Attendance} {trace l : List Event}

private theorem idle_none : Idle none := fun _ h => by cases h

private theorem idle_some {point : AccessPoint} (h : point.working = false) : Idle (some point) :=
  fun _ hp => by
  cases hp
  exact h

private theorem not_idle_some {point : AccessPoint} (h : point.working = true) : ¬Idle (some point) :=
  fun hidle =>
  Bool.false_ne_true ((hidle point rfl).symm.trans h)

private theorem outstanding_of_told {point : AccessPoint} (h : point.causes? = none) :
    outstanding n (some point) = [] := by
  rw [outstanding, Option.bind_some, h]

private theorem outstanding_of_idle {handler : Option AccessPoint} (h : Idle handler) :
    outstanding n handler = [] := by
  cases handler with
  | none => rfl
  | some point => exact outstanding_of_told (AccessPoint.causes?_of_idle (h point rfl))

private theorem registers_append (l l' : List Event) : registers (l ++ l') = registers l ++ registers l' :=
  List.filter_append ..

private theorem Sound.stay (hs : s.Sound b n trace) {m : Machine} {untold : Bool}
    (hnumber : (m.bay b).number = (s.machine.bay b).number)
    (hready : (m.bay b).drive.state.isReady = (s.machine.bay b).drive.state.isReady)
    (hanswered : (s.untold = false → s.machine.Answered b) → untold = false → m.Answered b) :
    Sound b n { s with machine := m, untold } trace where
  number := hnumber.trans hs.number
  ready := fun point hp hw => hready.trans (hs.ready point hp hw)
  answered := fun hidle hu => hanswered (hs.answered hidle) hu
  seen := hs.seen

private theorem Sound.idle (hs : s.Sound b n trace) (hidle : Idle s.handler) {handler : Option AccessPoint}
    (hhandler : Idle handler) : Sound b n { s with handler } trace where
  number := hs.number
  ready := fun point hp hw => by
    rw [hhandler point hp] at hw
    cases hw
  answered := fun _ hu => hs.answered hidle hu
  seen := by
    obtain ⟨causes, h⟩ := hs.seen
    rw [outstanding_of_idle hidle] at h
    exact ⟨causes, by rw [h, outstanding_of_idle hhandler]⟩

/-- What the handler reads it acknowledges next, and it is done only when it has caught up. -/
private theorem Sound.handled (hs : s.Sound b n trace) {point next : AccessPoint} {m : Machine}
    (hl : s.handler = some point) (h : s.machine.Handled b point next m)
    (seen : m.events = l.reverse ++ s.machine.events) :
    Sound b n { s with machine := m, handler := some next } (trace ++ l) := by
  obtain ⟨causes, hcauses⟩ := hs.seen
  rw [hl] at hcauses
  have hnumber := hs.number
  have hadded : ∀ evs : List Event, m.events = evs ++ s.machine.events → l = evs.reverse :=
    fun _ h => List.reverse_eq_iff.1 (List.append_cancel_right (seen.symm.trans h))
  cases h with
  | off _ hoff =>
    have hidle : point.working = false := by
      cases hw : point.working with
      | false => rfl
      | true => exact absurd (hoff.symm.trans (hs.ready point hl hw)) Bool.false_ne_true
    rw [hadded [] rfl, List.reverse_nil, List.append_nil]
    exact hs.idle (hl ▸ idle_some hidle) (idle_some rfl)
  | finished =>
    rw [hadded [] rfl, List.reverse_nil, List.append_nil]
    exact hs.idle (hl ▸ idle_some rfl) (idle_some rfl)
  | read causes' _ ready h =>
    rw [hadded _ h.events, List.reverse_singleton]
    refine ⟨h.number.trans hnumber, fun _ _ _ => ?_, fun hidle => absurd hidle (not_idle_some rfl),
      causes, ?_⟩
    · rw [h.drive]
      exact ready
    · rw [registers_append, hcauses, outstanding_of_told rfl, List.append_nil, hnumber]
      rfl
  | acknowledge causes' _ ready h =>
    rw [hadded _ h.events, List.reverse_singleton]
    refine ⟨h.number.trans hnumber, fun _ _ _ => ?_, fun hidle => absurd hidle (not_idle_some rfl),
      causes ++ [causes'], ?_⟩
    · rw [h.drive]
      exact ready
    · have htold : outstanding n (some (.between .looking)) = [] := outstanding_of_told rfl
      rw [registers_append, hcauses, htold, List.append_nil, List.flatMap_append, List.append_assoc,
        hnumber, List.flatMap_singleton]
      rfl
  | drained st hst h =>
    rw [hadded [] rfl, List.reverse_nil, List.append_nil]
    refine ⟨hnumber, fun point hp hw => ?_, fun _ _ st' hst' => ?_, causes, hcauses⟩
    · cases hp
      cases hw
    · cases hst.symm.trans hst'
      exact .inl h
  | work _ _ _ evs busy stays told unread ready number events quiet =>
    refine ⟨number.trans hnumber, fun _ _ _ => ready, fun hidle => absurd hidle (not_idle_some stays),
      causes, ?_⟩
    have hquiet : registers l = [] := by
      rw [hadded _ events, registers, List.filter_eq_nil_iff]
      intro e he
      rw [beq_iff_eq]
      exact quiet e (List.mem_reverse.1 he)
    rw [registers_append, hcauses, hquiet, outstanding_of_told told, outstanding_of_told unread,
      List.append_nil]

private theorem Sound.step (hs : s.Sound b n trace) (h : Step b s l s') : s'.Sound b n (trace ++ l) := by
  cases h with
  | handle point next m l hl h seen => exact hs.handled hl (Leads.of_ok (Run.leads_access _ b point) h) seen
  | interrupt hl =>
    rw [List.append_nil]
    exact hs.idle (hl ▸ idle_none) (idle_some rfl)
  | leave hl =>
    rw [List.append_nil]
    exact hs.idle (hl ▸ idle_some rfl) idle_none
  | write st c shared hst h index raised =>
    rw [List.append_nil]
    have hbay := Machine.bay_putShared (Machine.lt_of_ready hst) st c shared
    refine hs.stay ?_ ?_ fun hanswered hu st' hst' => ?_
    · rw [hbay]
    · rw [hbay, hst]
      rfl
    · rw [hbay] at hst' ⊢
      cases hst'
      refine (hanswered hu st hst).imp (fun hcaught => ?_) raised
      exact h.lastSeen.trans (hcaught.trans index.symm)
  | publish st shared hst h =>
    rw [List.append_nil]
    have hbay := Machine.bay_putShared (Machine.lt_of_ready hst) st (s.machine.bay b).controller shared
    refine hs.stay ?_ ?_ fun _ hu => by cases hu
    · rw [hbay]
    · rw [hbay, hst]
      rfl
  | tell st c hst raised =>
    rw [List.append_nil]
    have hbay := Machine.bay_mapController (Machine.lt_of_ready hst) fun _ => c
    refine hs.stay ?_ ?_ fun _ _ st' _ => ?_
    · rw [hbay]
    · rw [hbay]
    · rw [hbay]
      exact .inr raised
  | other m h =>
    rw [List.append_nil]
    refine hs.stay h.number h.ready fun hanswered hu st' hst' => ?_
    obtain ⟨st, hst⟩ : ∃ st, (s.machine.bay b).drive.state = .ready st := by
      have hready := h.ready
      rw [hst'] at hready
      cases hst : (s.machine.bay b).drive.state with
      | ready st => exact ⟨st, rfl⟩
      | uninitialized | incompatible => rw [hst] at hready; cases hready
    rw [h.used st st' hst hst']
    exact (hanswered hu st hst).imp id h.raised

/-- Whatever a controller writes between the accesses of the completion handler, when the handler does not
run and the controller owes no flag, either the cursor has caught up with the index or the interrupt is
asserted. Each handler reads the causes of the interrupt and acknowledges just those. -/
theorem answered_of_run {m : Machine} (start : m.Answered b) (run : Run b { machine := m } trace s) :
    (s.handler = none → s.untold = false → s.machine.Answered b) ∧
      ∃ causes : List UInt32, registers trace =
        causes.flatMap (exchange (m.bay b).number) ++ outstanding (m.bay b).number s.handler := by
  have hs : s.Sound b (m.bay b).number trace := by
    induction run with
    | refl => exact ⟨rfl, fun _ h => (by cases h), fun _ _ => start, [], rfl⟩
    | step _ next ih => exact ih.step next
  exact ⟨fun hnone => hs.answered (hnone ▸ idle_none), hs.seen⟩

/-! ### An element that comes too late for the handler -/

/-- The sample machine with its drive ready and an interrupt asserted for no reason. -/
def asserted : Machine :=
  let m := ((DiskStack.Run.bringUp 0).run.run Machine.sample).2
  m.mapController 0 fun _ => (m.bay 0).controller.raiseCause

def causesRead : Machine :=
  ((DiskStack.Run.access 0 (.between .reading)).run.run asserted).2

def acknowledged : Machine :=
  ((DiskStack.Run.access 0 (.between (.acknowledging 1))).run.run causesRead).2

def looked : Machine :=
  ((DiskStack.Run.access 0 (.between .looking)).run.run acknowledged).2

/-- A machine whose controller has reported an element that nobody has asked for. -/
def reporting (m : Machine) : Machine :=
  match m.shared? 0 with
  | some (st, shared) => m.putShared 0 st (m.bay 0).controller (shared.report 8 0 ⟨0, 512⟩)
  | none => m

private theorem reporting_eq {m : Machine} {st : ReadyState} (hst : (m.bay 0).drive.state = .ready st)
    (h : (m.bay 0).controller.isSetUp = true) :
    reporting m = m.putShared 0 st (m.bay 0).controller
      (SharedMemory.report ⟨st.rings, m.requests⟩ 8 0 ⟨0, 512⟩) := by
  rw [reporting, Machine.shared?, hst]
  simp only [h, if_true]

/-- Whether there is nothing to take for the handler of a drive. -/
private def caughtUp (m : Machine) (b : BayId) : Bool :=
  match (m.bay b).drive.state with
  | .ready s => s.rings.queue.used.isDrained
  | _ => true

private theorem lastSeen_eq_iff {m : Machine} {st : ReadyState} (hst : (m.bay b).drive.state = .ready st) :
    caughtUp m b = true ↔ st.rings.queue.used.lastSeen = st.rings.queue.used.deviceIndex := by
  rw [caughtUp, hst]
  exact beq_iff_eq

private theorem run_access (m m' : Machine) {point next : AccessPoint}
    (hm : m' = ((DiskStack.Run.access 0 point).run.run m).2)
    (h : ((DiskStack.Run.access 0 point).run.run m).1.toOption = some next) :
    (DiskStack.Run.access 0 point).run.run m = (.ok next, m') := by
  rw [hm]
  exact DiskStack.Run.ok_of_toOption h

/-- A handler looks at the used ring, and only then the controller reports an element: when the handler
has gone, the cursor is behind the index and the interrupt is asserted. -/
theorem answered_of_run_late :
    ∃ trace s st, asserted.Answered 0 ∧ Run 0 { machine := asserted } trace s ∧ s.handler = none ∧
      s.untold = false ∧ registers trace = exchange 0 1 ∧
      (s.machine.bay 0).drive.state = .ready st ∧
      st.rings.queue.used.lastSeen ≠ st.rings.queue.used.deviceIndex ∧ s.machine.Answered 0 := by
  have hread : ((DiskStack.Run.access 0 (.between .reading)).run.run asserted).1.toOption =
        some (.between (.acknowledging 1)) ∧
      causesRead.events = [.query 0 .interruptStatus 1].reverse ++ asserted.events := by
    decide +kernel
  have hack : ((DiskStack.Run.access 0 (.between (.acknowledging 1))).run.run causesRead).1.toOption =
        some (.between .looking) ∧
      acknowledged.events = [.command 0 (.ackInterrupt 1)].reverse ++ causesRead.events := by
    decide +kernel
  have hlook : ((DiskStack.Run.access 0 (.between .looking)).run.run acknowledged).1.toOption =
        some (.between .finished) ∧
      looked.events = [].reverse ++ acknowledged.events := by
    decide +kernel
  have hfirst : (asserted.bay 0).drive.state.isReady = true ∧ caughtUp asserted 0 = true := by
    decide +kernel
  have hlooked : (looked.bay 0).drive.state.isReady = true ∧
      (looked.bay 0).controller.isSetUp = true := by
    decide +kernel
  have hlast : ((reporting looked).bay 0).drive.state.isReady = true ∧
      caughtUp (reporting looked) 0 = false ∧
      ((reporting looked).bay 0).controller.raiseCause.isRaised = true := by
    decide +kernel
  have hstart : asserted.Answered 0 := fun s hs => .inl ((lastSeen_eq_iff hs).1 hfirst.2)
  have hreading := run_access asserted causesRead rfl hread.1
  have hacking := run_access causesRead acknowledged rfl hack.1
  have hlooking := run_access acknowledged looked rfl hlook.1
  -- from here on the machines are known by what has been computed
  generalize asserted = m₀ at *
  generalize causesRead = m₁ at *
  generalize acknowledged = m₂ at *
  generalize looked = m₃ at *
  obtain ⟨st, hst⟩ := DriveState.ready_of_isReady hlooked.1
  obtain ⟨st', hst'⟩ := DriveState.ready_of_isReady hlast.1
  have hbehind : st'.rings.queue.used.lastSeen ≠ st'.rings.queue.used.deviceIndex := fun h => by
    rw [(lastSeen_eq_iff hst').2 h] at hlast
    exact Bool.noConfusion hlast.2.1
  have hreported := reporting_eq hst hlooked.2
  have h₁ : Run 0 { machine := m₀ } _ { machine := m₀, handler := some (.between .reading) } :=
    Runs.refl.step (.interrupt rfl)
  have h₂ := h₁.step (.handle _ _ m₁ [.query 0 .interruptStatus 1] rfl hreading hread.2)
  have h₃ := h₂.step (.handle _ _ m₂ [.command 0 (.ackInterrupt 1)] rfl hacking hack.2)
  have h₄ := h₃.step (.handle _ _ m₃ [] rfl hlooking hlook.2)
  have h₅ := h₄.step (.publish st _ hst (SharedMemory.scribbled_report 8 0 ⟨0, 512⟩))
  dsimp only at h₅
  rw [← hreported] at h₅
  have h₆ := h₅.step (.tell st' ((reporting m₃).bay 0).controller.raiseCause hst' hlast.2.2)
  have h₇ := h₆.step (.leave rfl)
  refine ⟨_, _, st', hstart, h₇, rfl, rfl, rfl, ?_, hbehind, (answered_of_run hstart h₇).1 rfl rfl⟩
  rw [Machine.bay_mapController (Machine.lt_of_ready hst')]
  exact hst'

end Attendance

end DiskStack
