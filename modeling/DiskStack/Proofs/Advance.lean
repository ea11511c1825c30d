import DiskStack.Machine.Advance
import DiskStack.Proofs.Chains
import DiskStack.Proofs.View

/-!
# What one step of a task does

A task runs one node of its program, or goes to sleep, or finds that it need not. Each possibility is
one case of `View.Does`, with the condition under which it is taken and the view that it leaves.
The step of a task whose program works on one drive only is always one of these, unless it halts.
-/

namespace DiskStack

/-- A program that works on one drive and has published nothing itself. -/
inductive Program.Asks {α : Type} (b : BayId) : Program α → Prop
  | done (a : α) : Asks b (.done a)
  | halt (h : Halt) : Asks b (.halt h)
  | inspect (next : DriveState → Program α) (h : ∀ s, Asks b (next s)) : Asks b (.inspect b next)
  | submit (a : BlockAccess) (next : SubmitReply → Program α) (h : ∀ r, Asks b (next r)) :
    Asks b (.submit b a next)
  | takeScratch (next : Bytes → Program α) (h : ∀ s, Asks b (next s)) :
    Asks b (.takeScratch b next)
  | giveScratch (scratch : Bytes) (next : Program α) (h : Asks b next) :
    Asks b (.giveScratch b scratch next)

/-- A program under way: before or between its submissions, or inside of one. -/
inductive Program.Underway {α : Type} (b : BayId) : Program α → Prop
  | asks (p : Program α) (h : p.Asks b) : Underway b p
  | publish (id : RequestId) (sector : Nat) (next : SubmitReply → Program α)
    (h : ∀ r, (next r).Asks b) : Underway b (.publish b id sector next)
  | complete (id : RequestId) (ticket : UInt64) (next : SubmitReply → Program α)
    (h : ∀ r, (next r).Asks b) : Underway b (.complete b id ticket next)

/-! What a program under way goes on to asks again, whatever it is told. -/

namespace Program.Underway

variable {α : Type} {b : BayId}

theorem of_inspect {next : DriveState → Program α} (h : (Program.inspect b next).Underway b)
    (s : DriveState) : (next s).Asks b := by
  cases h with
  | asks _ h =>
    cases h with
    | inspect _ h => exact h s

theorem of_submit {a : BlockAccess} {next : SubmitReply → Program α}
    (h : (Program.submit b a next).Underway b) (r : SubmitReply) : (next r).Asks b := by
  cases h with
  | asks _ h =>
    cases h with
    | submit _ _ h => exact h r

theorem of_publish {id : RequestId} {sector : Nat} {next : SubmitReply → Program α}
    (h : (Program.publish b id sector next).Underway b) (r : SubmitReply) : (next r).Asks b := by
  cases h with
  | asks _ h => cases h
  | publish _ _ _ h => exact h r

theorem of_complete {id : RequestId} {ticket : UInt64} {next : SubmitReply → Program α}
    (h : (Program.complete b id ticket next).Underway b) (r : SubmitReply) : (next r).Asks b := by
  cases h with
  | asks _ h => cases h
  | complete _ _ _ h => exact h r

theorem of_takeScratch {next : Bytes → Program α} (h : (Program.takeScratch b next).Underway b)
    (scratch : Bytes) : (next scratch).Asks b := by
  cases h with
  | asks _ h =>
    cases h with
    | takeScratch _ h => exact h scratch

theorem of_giveScratch {value : Bytes} {next : Program α}
    (h : (Program.giveScratch b value next).Underway b) : next.Asks b := by
  cases h with
  | asks _ h =>
    cases h with
    | giveScratch _ _ h => exact h

end Program.Underway

namespace ReadyState

def submission (s : ReadyState) (id : RequestId) (q : BlockRequest) (sector : Nat) : Submission :=
  ⟨id, s.nextTicket, q.write, sector, q.address, q.length⟩

def published (s : ReadyState) (r : Rings) : ReadyState :=
  { s with rings := r, nextTicket := s.nextTicket + 1 }

theorem publish?_eq (s : ReadyState) (id : RequestId) (q : BlockRequest) (sector : Nat) :
    s.publish? id q.write sector q.address q.data.length =
      s.rings.reserve >>= fun
        | none => .ok none
        | some (c, r) => r.publish c (s.submission id q sector) >>= fun r =>
          .ok (some (s.submission id q sector, c, s.published r)) := rfl

end ReadyState

namespace View

/-- A view in which a submitted request has got a name and an address. -/
def enter (v : View) (a : BlockAccess) : View :=
  { v with
    arena := (v.arena.reserve a.data.length).2
    nextRequest := v.nextRequest + 1
    requests := v.requests.insert v.nextRequest
      (.fresh a.block a.write a.data (v.arena.reserve a.data.length).1) }

theorem find?_enter {v : View} (a : BlockAccess) (id : RequestId) :
    (v.enter a).requests.find? id =
      if v.nextRequest = id then
        some (.fresh a.block a.write a.data (v.arena.reserve a.data.length).1)
      else v.requests.find? id := RequestTable.find?_insert ..

theorem find?_enter_next {v : View} (a : BlockAccess) :
    (v.enter a).requests.find? v.nextRequest =
      some (.fresh a.block a.write a.data (v.arena.reserve a.data.length).1) :=
  (find?_enter a _).trans (if_pos rfl)

def accepts (v : View) (a : BlockAccess) : Except BlockError (Nat × ReadyState) := do
  let sector ← v.config.firstSector a.block a.data.length
  return (sector, ← v.state.checkSectors sector v.config.sectorsPerBlock)

theorem accepts_eq (v : View) (a : BlockAccess) :
    v.accepts a =
      if a.data.length ≠ v.config.blockSize then .error .invalidBufferSize
      else if a.block * v.config.sectorsPerBlock < wordLimit then
        (v.state.checkSectors (a.block * v.config.sectorsPerBlock) v.config.sectorsPerBlock).map
          (Prod.mk (a.block * v.config.sectorsPerBlock))
      else .error .invalidBlock := by
  rw [accepts, DriveConfig.firstSector]
  split
  · rfl
  · split
    · change (v.state.checkSectors _ _ >>= fun _ => _) = _
      cases v.state.checkSectors (a.block * v.config.sectorsPerBlock) v.config.sectorsPerBlock <;> rfl
    · rfl

/-- Publishes a request of the table, or waits for descriptors. -/
inductive Publishes (b : BayId) (v : View) (s : ReadyState) (id : RequestId) (q : BlockRequest)
    (sector : Nat) (next : SubmitReply → Program Reply) : Activity → View → Prop
  | wait (h : s.rings.queue.pool.numFree < 3) :
    Publishes b v s id q sector next (.parking (.publish b id sector next)) v
  | publish (c : Chain) (r : Rings) (hc : s.rings.Fresh c)
    (hcount : s.rings.queue.pool.numFree = (s.rings.taking c).queue.pool.numFree + 3)
    (h : (s.rings.taking c).publish c (s.submission id q sector) = .ok r) :
    Publishes b v s id q sector next (.parking (.complete b id s.nextTicket next))
      { v with
        state := .ready (s.published r)
        controller := v.controller.tell (.notifyQueue 0)
        requests := v.requests.setPending id true }

/-- What a task does with one node of its program: its next activity and the view it leaves. -/
inductive Does (b : BayId) (t : TaskId) (v : View) : Program Reply → Activity → View → Prop
  | done (a : Reply) : Does b t v (.done a) (.running (.done a)) v
  | inspect (next : DriveState → Program Reply) :
    Does b t v (.inspect b next) (.running (next v.state)) v
  | refuse (a : BlockAccess) (next : SubmitReply → Program Reply) (e : BlockError)
    (h : v.accepts a = .error e) :
    Does b t v (.submit b a next) (.running (next ⟨⟨.error e, a.data⟩, false⟩)) v
  | submit (a : BlockAccess) (next : SubmitReply → Program Reply) (sector : Nat) (s : ReadyState)
    (activity : Activity) (v' : View) (h : v.accepts a = .ok (sector, s))
    (hp : Publishes b (v.enter a) s v.nextRequest
      (.fresh a.block a.write a.data (v.arena.reserve a.data.length).1) sector next activity v') :
    Does b t v (.submit b a next) activity v'
  | publish (id : RequestId) (sector : Nat) (next : SubmitReply → Program Reply) (s : ReadyState)
    (q : BlockRequest) (activity : Activity) (v' : View) (hs : v.state = .ready s)
    (hq : v.requests.find? id = some q)
    (hp : Publishes b v s id q sector next activity v') :
    Does b t v (.publish b id sector next) activity v'
  | unready (id : RequestId) (sector : Nat) (next : SubmitReply → Program Reply)
    (h : v.state.isReady = false) :
    Does b t v (.publish b id sector next) (.running (next ⟨⟨.error .notReady, []⟩, false⟩)) v
  | wait (id : RequestId) (ticket : UInt64) (next : SubmitReply → Program Reply)
    (h : v.requests.isPending id = true) :
    Does b t v (.complete b id ticket next) (.parking (.complete b id ticket next)) v
  | finish (id : RequestId) (ticket : UInt64) (next : SubmitReply → Program Reply)
    (q : BlockRequest) (hq : v.requests.find? id = some q) (h : q.pending = false) :
    Does b t v (.complete b id ticket next) (.running (next ⟨⟨.ok (), q.data⟩, false⟩))
      { v with requests := v.requests.erase id }
  | takeScratch (next : Bytes → Program Reply) (h : v.scratch.held = false) :
    Does b t v (.takeScratch b next) (.running (next v.scratch.value))
      { v with scratch := v.scratch.acquire t }
  | awaitScratch (next : Bytes → Program Reply) (h : v.scratch.held = true) :
    Does b t v (.takeScratch b next) (.parking (.takeScratch b next)) v
  | giveScratch (value : Bytes) (next : Program Reply) :
    Does b t v (.giveScratch b value next) (.running next)
      { v with scratch := { v.scratch.release with value } }

inductive Halts (b : BayId) (v : View) : Program Reply → Prop
  | halt (h : Halt) : Halts b v (.halt h)
  | submit (a : BlockAccess) (next : SubmitReply → Program Reply) (s : ReadyState) (sector : Nat)
    (c : Chain) (sub : Submission) (e : Halt) (ha : v.accepts a = .ok (sector, s))
    (hc : s.rings.Fresh c) (h : (s.rings.taking c).publish c sub = .error e) :
    Halts b v (.submit b a next)
  | publish (id : RequestId) (sector : Nat) (next : SubmitReply → Program Reply) (s : ReadyState)
    (c : Chain) (sub : Submission) (e : Halt) (hs : v.state = .ready s)
    (hc : s.rings.Fresh c) (h : (s.rings.taking c).publish c sub = .error e) :
    Halts b v (.publish b id sector next)

/-- Whether a program inside of a submission finds its request in the table. -/
def Live (v : View) : Program Reply → Prop
  | .publish _ id _ _ | .complete _ id _ _ => ∃ q, v.requests.find? id = some q
  | _ => True

end View

namespace Run

variable {m : Machine} {b : BayId} {v : View} {t : TaskId}

/-- A node that was run: what the task did, or why the machine halted. -/
def Ran (b : BayId) (t : TaskId) (v : View) (p : Program Reply) (r : Except Halt Activity)
    (m' : Machine) : Prop :=
  match r with
  | .ok a => ∃ v', v.Does b t p a v' ∧ m'.Shows b v'
  | .error _ => v.Halts b p

private theorem ends_proceed (hm : m.Shows b v) (saved : Bool) (p : Program Reply) :
    Ends (proceed t saved p) m fun r m' => r = .ok (.running p) ∧ m'.Shows b v :=
  (hides_restore t saved).bind hm fun _ _ hm => ends_pure ⟨rfl, hm⟩

private theorem ends_park (hm : m.Shows b v) (saved : Bool) (c : Channel) (p : Program Reply) :
    Ends (park t saved c p) m fun r m' => r = .ok (.parking p) ∧ m'.Shows b v :=
  (hides_prepare t c).bind hm fun _ _ hm =>
    (hides_restore t saved).bind hm fun _ _ hm => ends_pure ⟨rfl, hm⟩

private theorem ends_inspect (hm : m.Shows b v) :
    Ends (inspect t b) m fun r m' => r = .ok v.state ∧ m'.Shows b v := by
  refine (hides_mask t).bind hm fun saved m₁ hm₁ => ends_get ?_
  have hstate : (m₁.bay b).drive.state = v.state := by rw [← hm₁.view]; rfl
  rw [hstate]
  exact (hides_restore t saved).bind hm₁ fun _ _ hm => ends_pure ⟨rfl, hm⟩

private theorem ends_notify (hm : m.Shows b v) :
    Ends (notify t b) m fun r m' =>
      r = .ok () ∧ m'.Shows b { v with controller := v.controller.tell (.notifyQueue 0) } := by
  have htold := (hm.setController (f := (·.tell (.notifyQueue 0))) rfl).emit
    (.command (m.bay b).number (.notifyQueue 0))
  refine ends_modify (ends_get ?_)
  rw [if_neg htold.steady.separate]
  exact ends_pure ⟨rfl, htold⟩

private theorem ends_finishOrPark_pending (hm : m.Shows b v) (saved : Bool) (id : RequestId)
    (ticket : UInt64) (next : SubmitReply → Program Reply)
    (hpending : v.requests.isPending id = true) :
    Ends (finishOrPark t saved b id ticket next) m fun r m' =>
      r = .ok (.parking (.complete b id ticket next)) ∧ m'.Shows b v := by
  apply ends_get
  have hreq : m.requests = v.requests := by rw [← hm.view]; rfl
  rw [hreq, if_pos hpending]
  exact ends_park hm saved _ _

private theorem ends_finishOrPark_done (hm : m.Shows b v) (saved : Bool) (id : RequestId)
    (ticket : UInt64) (next : SubmitReply → Program Reply) {q : BlockRequest}
    (hq : v.requests.find? id = some q) (hdone : q.pending = false) :
    Ends (finishOrPark t saved b id ticket next) m fun r m' =>
      r = .ok (.running (next ⟨⟨.ok (), q.data⟩, false⟩)) ∧
        m'.Shows b { v with requests := v.requests.erase id } := by
  apply ends_get
  have hreq : m.requests = v.requests := by rw [← hm.view]; rfl
  have hnot : v.requests.isPending id = false := by
    rw [RequestTable.isPending, hq]
    exact hdone
  rw [hreq, hnot, if_neg Bool.false_ne_true]
  refine (hides_restore t saved).bind hm fun _ m₁ hm₁ => ends_get ?_
  have hreq₁ : m₁.requests = v.requests := by rw [← hm₁.view]; rfl
  refine ends_set (ends_pure ?_)
  rw [hreq₁, hq]
  refine ⟨by rw [← hdone]; rfl, ?_⟩
  exact (hm₁.setStats fun d => d.countRequest q.write).requests _

/-- What publication or waiting for descriptors leads to. -/
def Issued (b : BayId) (v : View) (s : ReadyState) (id : RequestId) (q : BlockRequest)
    (sector : Nat) (next : SubmitReply → Program Reply) (r : Except Halt Activity)
    (m' : Machine) : Prop :=
  match r with
  | .ok a => ∃ v', View.Publishes b v s id q sector next a v' ∧ m'.Shows b v'
  | .error _ => ∃ c e, s.rings.Fresh c ∧
      (s.rings.taking c).publish c (s.submission id q sector) = .error e

private theorem ends_publishOrPark (hm : m.Shows b v) (saved : Bool) (s : ReadyState) (id : RequestId)
    (sector : Nat) (next : SubmitReply → Program Reply) {q : BlockRequest}
    (hq : v.requests.find? id = some q) :
    Ends (publishOrPark t saved b s id sector next) m (Issued b v s id q sector next) := by
  apply ends_get
  have hreq : m.requests = v.requests := by rw [← hm.view]; rfl
  have heq := s.publish?_eq id q sector
  rw [hreq, hq]
  rcases s.rings.reserve_cases with ⟨hfew, hnone⟩ | ⟨c, hsome, hc, hcount⟩
  · rw [hnone] at heq
    simp only [Option.getD_some, heq, bind, Except.bind]
    apply (ends_park hm saved _ _).mono
    rintro _ m' ⟨rfl, hm'⟩
    exact ⟨v, .wait hfew, hm'⟩
  · cases hp : (s.rings.taking c).publish c (s.submission id q sector) with
    | error e =>
      simp only [hsome, bind, Except.bind, hp] at heq
      simp only [Option.getD_some, heq]
      refine (hides_restore t saved).bind hm fun _ m' _ => ends_throw ?_
      exact ⟨c, e, hc, hp⟩
    | ok r =>
      simp only [hsome, bind, Except.bind, hp] at heq
      simp only [Option.getD_some, heq]
      have hset := (hm.setState (.ready (s.published r))).requests (v.requests.setPending id true)
      refine ends_set (ends_bind ((ends_notify hset).mono ?_))
      rintro _ m₁ ⟨rfl, hm₁⟩
      apply (hides_log _ _ _).bind hm₁
      intro _ m₂ hm₂
      have hpending : (v.requests.setPending id true).isPending id = true := by
        rw [RequestTable.isPending, RequestTable.setPending, RequestTable.find?_modify, if_pos rfl, hq]
        rfl
      apply (ends_finishOrPark_pending hm₂ saved id s.nextTicket next hpending).mono
      rintro _ m' ⟨rfl, hm'⟩
      exact ⟨_, .publish c r hc hcount hp, hm'⟩

private theorem ends_enterRequest (hm : m.Shows b v) (a : BlockAccess) :
    Ends (enterRequest a) m fun r m' => r = .ok v.nextRequest ∧ m'.Shows b (v.enter a) := by
  refine ends_get (ends_set (ends_pure ?_))
  have hnext : m.nextRequest = v.nextRequest := by rw [← hm.view]; rfl
  refine ⟨by rw [hnext], ⟨hm.steady.present, hm.steady.quiet, hm.steady.separate⟩, ?_⟩
  rw [← hm.view]
  rfl

private theorem ends_submit (hm : m.Shows b v) (a : BlockAccess) (next : SubmitReply → Program Reply) :
    Ends (submit t b a next) m (Ran b t v (.submit b a next)) := by
  apply ends_get
  have hconfig : (m.bay b).drive.config = v.config := by rw [← hm.view]; rfl
  rw [hconfig]
  cases hfirst : v.config.firstSector a.block a.data.length with
  | error e =>
    simp only [hfirst]
    refine ends_pure ⟨v, .refuse a next e ?_, hm⟩
    rw [View.accepts, hfirst]
    rfl
  | ok sector =>
    simp only [hfirst]
    refine (hides_mask t).bind hm fun saved m₁ hm₁ => ends_get ?_
    have hstate : (m₁.bay b).drive.state = v.state := by rw [← hm₁.view]; rfl
    rw [hstate]
    cases hcheck : v.state.checkSectors sector v.config.sectorsPerBlock with
    | error e =>
      apply (ends_proceed hm₁ saved _).mono
      rintro _ m' ⟨rfl, hm'⟩
      refine ⟨v, .refuse a next e ?_, hm'⟩
      rw [View.accepts, hfirst]
      change (v.state.checkSectors sector v.config.sectorsPerBlock >>= fun _ => _) = _
      rw [hcheck]
      rfl
    | ok s =>
      have haccept : v.accepts a = .ok (sector, s) := by
        rw [View.accepts, hfirst]
        change (v.state.checkSectors sector v.config.sectorsPerBlock >>= fun _ => _) = _
        rw [hcheck]
        rfl
      refine ends_bind ((ends_enterRequest hm₁ a).mono ?_)
      rintro _ m₂ ⟨rfl, hm₂⟩
      apply (ends_publishOrPark hm₂ saved s v.nextRequest sector next (View.find?_enter_next a)).mono
      rintro (e | activity) m' h
      · obtain ⟨c, e, hc, hp⟩ := h
        exact .submit a next s sector c _ e haccept hc hp
      · obtain ⟨v', hp, hm'⟩ := h
        exact ⟨v', .submit a next sector s activity v' haccept hp, hm'⟩

private theorem ends_publishAgain (hm : m.Shows b v) (id : RequestId) (sector : Nat)
    (next : SubmitReply → Program Reply) {q : BlockRequest} (hq : v.requests.find? id = some q) :
    Ends (publishAgain t b id sector next) m (Ran b t v (.publish b id sector next)) := by
  refine (hides_mask t).bind hm fun saved m₁ hm₁ => ends_get ?_
  have hstate : (m₁.bay b).drive.state = v.state := by rw [← hm₁.view]; rfl
  rw [hstate]
  cases hs : v.state with
  | ready s =>
    apply (ends_publishOrPark hm₁ saved s id sector next hq).mono
    rintro (e | activity) m' h
    · obtain ⟨c, e, hc, hp⟩ := h
      exact .publish id sector next s c _ e hs hc hp
    · obtain ⟨v', hp, hm'⟩ := h
      exact ⟨v', .publish id sector next s q activity v' hs hq hp, hm'⟩
  | uninitialized | incompatible =>
    apply (ends_proceed hm₁ saved _).mono
    rintro _ m' ⟨rfl, hm'⟩
    exact ⟨v, .unready id sector next (by rw [hs]; rfl), hm'⟩

private theorem ends_takeScratch (hm : m.Shows b v) (next : Bytes → Program Reply) :
    Ends (takeScratch t b next) m (Ran b t v (.takeScratch b next)) := by
  refine (hides_mask t).bind hm fun saved m₁ hm₁ => ends_get ?_
  have hscratch : (m₁.bay b).drive.scratch = v.scratch := by rw [← hm₁.view]; rfl
  rw [hscratch]
  cases hh : v.scratch.held with
  | false =>
    simp only [SleepLock.tryAcquire_of_free hh]
    refine ends_modify ((ends_proceed (hm₁.setScratch _) saved _).mono ?_)
    rintro _ m' ⟨rfl, hm'⟩
    exact ⟨_, .takeScratch next hh, hm'⟩
  | true =>
    simp only [SleepLock.tryAcquire_of_held hh]
    apply (ends_park hm₁ saved _ _).mono
    rintro _ m' ⟨rfl, hm'⟩
    exact ⟨v, .awaitScratch next hh, hm'⟩

private theorem ends_giveScratch (hm : m.Shows b v) (value : Bytes) :
    Ends (giveScratch t b value) m fun r m' =>
      r = .ok () ∧ m'.Shows b { v with scratch := { v.scratch.release with value } } := by
  refine (hides_mask t).bind hm fun saved m₁ hm₁ => ends_get ?_
  have hscratch : (m₁.bay b).drive.scratch = v.scratch := by rw [← hm₁.view]; rfl
  rw [hscratch]
  refine ends_modify ((hides_wake _).bind (hm₁.setScratch _) fun _ m₂ hm₂ => ?_)
  apply (hides_restore t saved m₂ _ hm₂).mono
  rintro _ m' ⟨⟨_, rfl⟩, hm'⟩
  exact ⟨rfl, hm'⟩

/-- One node of a program under way does one of the listed things, or halts for a listed reason. -/
private theorem ends_node (hm : m.Shows b v) {p : Program Reply} (hp : p.Underway b) (live : v.Live p) :
    Ends (node t p) m (Ran b t v p) := by
  cases hp with
  | publish id sector next _ =>
    obtain ⟨q, hq⟩ := live
    exact ends_publishAgain hm id sector next hq
  | complete id ticket next _ =>
    obtain ⟨q, hq⟩ := live
    apply (hides_mask t).bind hm
    intro saved m₁ hm₁
    cases hdone : q.pending with
    | true =>
      have hpending : v.requests.isPending id = true := by
        rw [RequestTable.isPending, hq]
        exact hdone
      apply (ends_finishOrPark_pending hm₁ saved id ticket next hpending).mono
      rintro _ m' ⟨rfl, hm'⟩
      exact ⟨v, .wait id ticket next hpending, hm'⟩
    | false =>
      apply (ends_finishOrPark_done hm₁ saved id ticket next hq hdone).mono
      rintro _ m' ⟨rfl, hm'⟩
      exact ⟨_, .finish id ticket next q hq hdone, hm'⟩
  | asks _ h =>
    cases h with
    | done a => exact ends_pure ⟨v, .done a, hm⟩
    | halt h => exact ends_throw (.halt h)
    | inspect next _ =>
      refine ends_bind ((ends_inspect hm).mono ?_)
      rintro _ m' ⟨rfl, hm'⟩
      exact ends_pure ⟨v, .inspect next, hm'⟩
    | submit a next _ => exact ends_submit hm a next
    | takeScratch next _ => exact ends_takeScratch hm next
    | giveScratch value next _ =>
      refine ends_bind ((ends_giveScratch hm value).mono ?_)
      rintro _ m' ⟨rfl, hm'⟩
      exact ends_pure ⟨_, .giveScratch value next, hm'⟩

end Run

namespace View

theorem Does.activity_eq {b : BayId} {t : TaskId} {v v' : View} {p : Program Reply} {a : Activity}
    (does : v.Does b t p a v') : v'.activity = v.activity := by
  cases does with
  | submit _ _ _ _ _ _ _ hp => cases hp <;> rfl
  | publish _ _ _ _ _ _ _ _ _ hp => cases hp <;> rfl
  | _ => rfl

/-- One step of a task, by what it is doing. -/
inductive Advances (b : BayId) (t : TaskId) (v : View) : View → Prop
  | rest (h : ∀ p, v.activity t ≠ .running p ∧ v.activity t ≠ .parking p) : Advances b t v v
  | sleep (p : Program Reply) (h : v.activity t = .parking p) : Advances b t v (v.act t (.asleep p))
  | stayUp (p : Program Reply) (h : v.activity t = .parking p) :
    Advances b t v (v.act t (.running p))
  | run (p : Program Reply) (a : Activity) (v' : View) (h : v.activity t = .running p)
    (does : v.Does b t p a v') : Advances b t v (v'.act t a)

end View

namespace Run

variable {m : Machine} {b : BayId} {v : View} {t : TaskId}

private theorem lt_of_shows (hm : m.Shows b v) (h : v.activity t ≠ .idle) : t < m.tasks.size :=
  Machine.lt_of_activity fun hc => h (by rw [← hm.view]; exact hc)

private theorem ends_settle (hm : m.Shows b v) (p : Program Reply) :
    Ends (settle t p) m fun r m' =>
      ∃ a, r = .ok a ∧ (a = .asleep p ∨ a = .running p) ∧ m'.Shows b v := by
  apply ends_get
  by_cases h : m.waiting.isRegistered t
  · rw [if_pos h]
    exact (hides_emit (.sleep t)).bind hm fun _ _ hm => ends_pure ⟨_, rfl, .inl rfl, hm⟩
  · rw [if_neg h]
    exact (hides_emit (.noSleep t)).bind hm fun _ _ hm => ends_pure ⟨_, rfl, .inr rfl, hm⟩

/-- A step of a task whose program works on one drive is one of the listed ones, unless it halts for
a listed reason. -/
theorem ends_advance (hm : m.Shows b v) (hp : ∀ p, v.activity t = .running p → p.Underway b ∧ v.Live p) :
    Ends (advance t) m fun r m' =>
      match r with
      | .ok () => ∃ v', v.Advances b t v' ∧ m'.Shows b v'
      | .error _ => ∃ p, v.activity t = .running p ∧ v.Halts b p := by
  apply ends_get
  have hact : (m.task t).activity = v.activity t := by rw [← hm.view]; rfl
  rw [hact]
  cases ha : v.activity t with
  | idle => exact ends_pure ⟨v, .rest (by simp [ha]), hm⟩
  | asleep p => exact ends_pure ⟨v, .rest (by simp [ha]), hm⟩
  | parking p =>
    refine ends_bind ((ends_settle hm p).mono ?_)
    rintro _ m' ⟨a, rfl, ha', hm'⟩
    have ht : t < m'.tasks.size := lt_of_shows hm' (by rw [ha]; exact Activity.noConfusion)
    refine ⟨v.act t a, ?_, hm'.setActivity ht a⟩
    rcases ha' with rfl | rfl
    · exact .sleep p ha
    · exact .stayUp p ha
  | running p =>
    obtain ⟨hunder, live⟩ := hp p ha
    refine ends_bind ((ends_node hm hunder live).mono ?_)
    rintro (e | a) m' h
    · exact ⟨p, rfl, h⟩
    · obtain ⟨v', does, hm'⟩ := h
      have ht : t < m'.tasks.size := lt_of_shows hm' (by
        rw [does.activity_eq, ha]
        exact Activity.noConfusion)
      exact ⟨v'.act t a, .run p a v' ha does, hm'.setActivity ht a⟩

end Run

end DiskStack
