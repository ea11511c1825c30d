import DiskStack.Proofs.Chains
import DiskStack.Proofs.View

/-!
# What one access of the completion handler does

The handler reads the interrupt causes, acknowledges them, and then takes finished requests off the
used ring one at a time. Between two accesses the controller may act. Each access is one case of
`View.Handles`; only the taking of a request can halt the machine.
-/

namespace DiskStack

open Run (CompletionPoint)

namespace Run.CompletionPoint

/-- The accesses that are left to a handler with some elements to take. -/
def left (elements : Nat) : CompletionPoint → Nat
  | .reading => 2 * elements + 3
  | .acknowledging _ => 2 * elements + 2
  | .looking => 2 * elements + 1
  | .taking => 2 * elements
  | .finished => 0

end Run.CompletionPoint

namespace View

/-- One access of a completion handler: where it goes on and the view that it leaves. -/
inductive Handles (v : View) : CompletionPoint → CompletionPoint → View → Prop
  | read (s : ReadyState) (causes : UInt32) (hs : v.state = .ready s) :
    Handles v .reading (.acknowledging causes) v
  | acknowledge (s : ReadyState) (causes : UInt32) (hs : v.state = .ready s) :
    Handles v (.acknowledging causes) .looking
      { v with controller := v.controller.tell (.ackInterrupt (causes &&& interruptMask)) }
  | drained (s : ReadyState) (hs : v.state = .ready s)
    (h : s.rings.queue.used.isDrained = true) : Handles v .looking .finished v
  | more (s : ReadyState) (hs : v.state = .ready s)
    (h : s.rings.queue.used.isDrained = false) : Handles v .looking .taking v
  | take (s : ReadyState) (head : UInt16) (e : InFlight) (q r : Rings) (hs : v.state = .ready s)
    (hc : s.rings.collect = (.ok (head, e), q)) (hr : q.release head = .ok r) :
    Handles v .taking .looking
      { v with
        state := .ready { s with rings := r }
        requests := v.requests.setPending e.request false }
  | leave (point : CompletionPoint) (h : v.state.isReady = false ∨ point = .finished) :
    Handles v point .finished v

theorem Handles.activity_eq {v v' : View} {point next : CompletionPoint} (h : v.Handles point next v') :
    v'.activity = v.activity := by
  cases h <;> rfl

inductive TakeHalts (v : View) : Prop
  | collect (s : ReadyState) (e : Halt) (hs : v.state = .ready s)
    (h : s.rings.collect.1 = .error e) : TakeHalts v
  | release (s : ReadyState) (head : UInt16) (entry : InFlight) (q : Rings) (e : Halt)
    (hs : v.state = .ready s) (hc : s.rings.collect = (.ok (head, entry), q))
    (h : q.release head = .error e) : TakeHalts v

end View

namespace Run

variable {m : Machine} {b : BayId} {v : View}

private theorem ends_logFailure (hm : m.Shows b v) (e : Halt) {Q : Except Halt Unit → Machine → Prop}
    (h : ∀ m', m'.Shows b v → Q (.error e) m') : Ends (do logFailure e; throw e) m Q := by
  have hlog : Hides b (logFailure e) := fun m v hm => by
    cases e with
    | unknownHead id => exact hides_log _ _ _ m v hm
    | failedStatus head status => exact hides_log _ _ _ m v hm
    | _ => exact ends_pure ⟨⟨_, rfl⟩, hm⟩
  exact hlog.bind hm fun _ m' hm' => ends_throw (h m' hm')

private theorem ends_completeNext (hm : m.Shows b v) {s : ReadyState} (hs : v.state = .ready s) :
    Ends (completeNext b s) m fun r m' =>
      match r with
      | .ok () => ∃ v', v.Handles .taking .looking v' ∧ m'.Shows b v'
      | .error _ => v.TakeHalts := by
  rw [completeNext]
  rcases hc : s.rings.collect with ⟨result, q⟩
  cases result with
  | error e =>
    refine ends_modify (ends_logFailure (hm.setState (.ready { s with rings := q })) e fun _ _ => ?_)
    exact .collect s e hs (congrArg Prod.fst hc)
  | ok p =>
    obtain ⟨head, e⟩ := p
    refine ends_get (ends_modify ?_)
    have hreq : m.requests = v.requests := by rw [← hm.view]; rfl
    have hset := (hm.setState (.ready { s with rings := q })).requests
      (v.requests.setPending e.request false)
    rw [← hreq] at hset
    apply (hides_wake _).bind hset
    intro _ m₁ hm₁
    cases hr : q.release head with
    | error e' => exact ends_bind (ends_throw (.release s head e q e' hs hc hr))
    | ok r =>
      refine ends_bind (ends_pure (ends_modify ?_))
      have hset₁ := hm₁.setState (.ready { s with rings := r })
      refine (hides_wake _).bind hset₁ fun _ m₂ hm₂ => ends_modify ?_
      apply (hides_log _ _ _ _ _ (hm₂.setStats _)).mono
      rintro _ m' ⟨⟨_, rfl⟩, hm'⟩
      refine ⟨_, .take s head e q r hs hc hr, ?_⟩
      rw [hreq] at hm'
      exact hm'

theorem ends_completionStep (hm : m.Shows b v) (point : CompletionPoint) :
    Ends (completionStep b point) m fun r m' =>
      match r with
      | .ok next => ∃ v', v.Handles point next v' ∧ m'.Shows b v'
      | .error _ => point = .taking ∧ v.TakeHalts := by
  apply ends_get
  have hstate : (m.bay b).drive.state = v.state := by rw [← hm.view]; rfl
  have hcontroller : (m.bay b).controller = v.controller := by rw [← hm.view]; rfl
  rw [hstate]
  cases hs : v.state with
  | uninitialized | incompatible => exact ends_pure ⟨v, .leave point (.inl (by rw [hs]; rfl)), hm⟩
  | ready s =>
    cases point with
    | reading =>
      refine ends_bind (ends_get (ends_set (ends_pure (ends_pure ?_))))
      have hask : (v.controller.ask .interruptStatus).2 = v.controller := rfl
      have hset := (hm.setController (f := fun _ => (v.controller.ask .interruptStatus).2)
        (by rw [hask])).emit
        (.query (m.bay b).number .interruptStatus (v.controller.ask .interruptStatus).1)
      rw [hask] at hset
      rw [hcontroller]
      exact ⟨v, .read s _ hs, hset⟩
    | acknowledging causes =>
      refine ends_modify (ends_pure ?_)
      exact ⟨_, .acknowledge s causes hs, (hm.setController
        (f := (·.tell (.ackInterrupt (causes &&& interruptMask)))) rfl).emit _⟩
    | looking =>
      refine ends_pure ⟨v, ?_, hm⟩
      cases hd : s.rings.queue.used.isDrained with
      | true => exact .drained s hs hd
      | false => exact .more s hs hd
    | taking =>
      refine ends_bind ((ends_completeNext hm hs).mono ?_)
      rintro (e | _) m' h
      · exact ⟨rfl, h⟩
      · exact ends_pure h
    | finished => exact ends_pure ⟨v, .leave .finished (.inr rfl), hm⟩

end Run

end DiskStack
