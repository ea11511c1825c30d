import DiskStack.Machine.Registry

/-!
# Runs of a drive and its callers

A scene is a machine in the middle of what goes on at one drive: tasks make calls and take steps,
sleeping tasks are woken for any reason or for none, the drive may be brought up, the completion
handler makes its accesses one by one, and the controller works in between. A setting fixes the
drive, the programs that calls start, where new buffers may lie and what the controller may do.
-/

namespace DiskStack

def Activity.program? : Activity → Option (Program Reply)
  | .idle => none
  | .running p | .parking p | .asleep p => some p

/-- Whether the next step takes the short lock of a drive. -/
def Activity.locksDrive : Activity → Bool
  | .running (.inspect ..) | .running (.submit ..) | .running (.publish ..)
  | .running (.complete ..) => true
  | _ => false

/-- A run of any length, with what is seen of it in order. -/
inductive Runs {σ ι : Type} (step : σ → List ι → σ → Prop) (s : σ) : List ι → σ → Prop
  | refl : Runs step s [] s
  | step {trace l : List ι} {u u' : σ} (run : Runs step s trace u) (next : step u l u') :
    Runs step s (trace ++ l) u'

namespace Runs

variable {σ τ ι : Type} {step : σ → List ι → σ → Prop} {s u u' : σ} {l l' : List ι}

theorem trans (h : Runs step s l u) (h' : Runs step u l' u') : Runs step s (l ++ l') u' := by
  induction h' with
  | refl => rwa [List.append_nil]
  | step _ next ih =>
    rw [← List.append_assoc]
    exact ih.step next

theorem invariant (run : Runs step s l u) {P : σ → Prop} (first : P s)
    (kept : ∀ u l u', P u → step u l u' → P u') : P u := by
  induction run with
  | refl => exact first
  | step _ next ih => exact kept _ _ _ ih next

/-- Where each step is one of another system, in which the same is seen, so is each run. -/
theorem simulated (run : Runs step s l u) (step' : τ → List ι → τ → Prop) (R : σ → τ → Prop)
    {x : τ} (first : R s x)
    (simulates : ∀ u l u' y, R u y → step u l u' → ∃ y', step' y l y' ∧ R u' y') :
    ∃ y, Runs step' x l y ∧ R u y := by
  induction run with
  | refl => exact ⟨x, .refl, first⟩
  | step _ next ih =>
    obtain ⟨y, hrun, hy⟩ := ih
    obtain ⟨y', hstep, hy'⟩ := simulates _ _ _ _ hy next
    exact ⟨y', hrun.step hstep, hy'⟩

end Runs

structure Scene where
  machine : Machine
  /-- How far the completion handler has come, while it runs and keeps the drive's short lock. -/
  handler : Option Run.CompletionPoint := none
  /-- The chains that the controller has carried out and not yet reported. -/
  unreported : List UInt16 := []

/-- What is seen of a run by the callers: their calls, the executions of their requests, their turns
with the scratch block, and the replies. -/
inductive Incident (γ : Type)
  | call (t : TaskId) (c : γ)
  | execute (t : TaskId)
  | scratch (t : TaskId)
  | reply (t : TaskId) (r : Reply)

/-- What a run goes on in. The controller's steps name the chains that they execute. -/
structure Setting (γ : Type) where
  bay : BayId
  program : γ → Program Reply
  admits : Machine → Arena → Prop
  device : Scene → List UInt16 → Scene → Prop

namespace Machine

/-- The task whose submission published the chain of a head. -/
def Owns (m : Machine) (b : BayId) (t : TaskId) (head : UInt16) : Prop :=
  ∃ s e next, (m.bay b).drive.state = .ready s ∧ (s.rings.inFlight[head.toNat]?).join = some e ∧
    (m.task t).activity.program? = some (.complete b e.request e.ticket next)

/-- Whether a task has just taken the lock on the scratch block. -/
def tookScratch (before after : Machine) (b : BayId) (t : TaskId) : Bool :=
  !(before.bay b).drive.scratch.isHeldBy t && (after.bay b).drive.scratch.isHeldBy t

end Machine

namespace Scene

variable {γ : Type}

/-- The executions that a controller's step shows; that of a chain nobody owns shows nothing. -/
inductive Shown (m : Machine) (b : BayId) : List UInt16 → List (Incident γ) → Prop
  | nil : Shown m b [] []
  | owned (head : UInt16) (heads : List UInt16) (t : TaskId) (l : List (Incident γ))
    (h : m.Owns b t head) (rest : Shown m b heads l) : Shown m b (head :: heads) (.execute t :: l)
  | stray (head : UInt16) (heads : List UInt16) (l : List (Incident γ))
    (h : ∀ t, ¬m.Owns b t head) (rest : Shown m b heads l) : Shown m b (head :: heads) l

theorem Shown.execute {m : Machine} {b : BayId} {heads : List UInt16} {l : List (Incident γ)}
    (h : Shown m b heads l) : ∀ i ∈ l, ∃ t, i = .execute t := by
  induction h with
  | nil => exact fun _ hi => absurd hi List.not_mem_nil
  | owned head heads t l _ _ ih =>
    intro i hi
    rcases List.mem_cons.1 hi with rfl | hi
    · exact ⟨t, rfl⟩
    · exact ih i hi
  | stray _ _ _ _ _ ih => exact ih

/-- One step of a run and what is seen of it. A step of the machine that halts has no successor. -/
inductive Step (w : Setting γ) (s : Scene) : List (Incident γ) → Scene → Prop
  | call (t : TaskId) (c : γ) (ht : t < s.machine.tasks.size)
    (h : (s.machine.task t).activity = .idle) :
    Step w s [.call t c]
      { s with machine := s.machine.setActivity t (.running (w.program c)) }
  | advance (t : TaskId) (arena : Arena) (m : Machine) (ha : w.admits s.machine arena)
    (hl : s.handler = none ∨ (s.machine.task t).activity.locksDrive = false)
    (h : (Run.advance t).run.run { s.machine with arena } = (.ok (), m)) :
    Step w s (if s.machine.tookScratch m w.bay t then [.scratch t] else []) { s with machine := m }
  | rouse (t : TaskId) (p : Program Reply) (waiting : WaitQueue) (runnable : List TaskId)
    (h : (s.machine.task t).activity = .asleep p) :
    Step w s []
      { s with machine := { s.machine.setActivity t (.running p) with waiting, runnable } }
  | reply (t : TaskId) (r : Reply) (h : (s.machine.task t).activity = .running (.done r)) :
    Step w s [.reply t r] { s with machine := s.machine.setActivity t .idle }
  | bringUp (r : Except InitError Unit) (m : Machine) (hl : s.handler = none)
    (h : (Run.bringUp w.bay).run.run s.machine = (.ok r, m)) : Step w s [] { s with machine := m }
  | interrupt (hl : s.handler = none) : Step w s [] { s with handler := some .reading }
  | handle (point next : Run.CompletionPoint) (m : Machine) (hl : s.handler = some point)
    (h : (Run.completionStep w.bay point).run.run s.machine = (.ok next, m)) :
    Step w s [] { s with machine := m, handler := some next }
  | leave (hl : s.handler = some .finished) : Step w s [] { s with handler := none }
  | device (heads : List UInt16) (l : List (Incident γ)) (s' : Scene)
    (hl : Shown s.machine w.bay heads l) (h : w.device s heads s') : Step w s l s'

abbrev Run (w : Setting γ) (s : Scene) : List (Incident γ) → Scene → Prop := Runs (Step w) s

theorem Step.activity_of_reply {w : Setting γ} {s s' : Scene} {t : TaskId} {r : Reply}
    (h : Step w s [.reply t r] s') : (s.machine.task t).activity = .running (.done r) := by
  generalize hl : [Incident.reply t r] = l at h
  cases h with
  | reply u r' h =>
    cases hl
    exact h
  | call => cases hl
  | advance =>
    split at hl <;> cases hl
  | device heads _ _ hshown =>
    obtain ⟨u, hu⟩ := hshown.execute (.reply t r) (by rw [← hl]; exact List.mem_cons_self ..)
    cases hu
  | _ => cases hl

end Scene

end DiskStack
