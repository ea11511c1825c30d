import DiskStack.Proofs.Interrupts
import DiskStack.Proofs.Waiting

/-!
# Runs that are played

A run is played by a list of choices, each of which says whose step comes next. The player computes
what is seen and where the run ends, so that a run of many steps exists by evaluation. It knows only
some of the steps that there are: a task takes its buffer from the memory of the machine, and the
controller executes only chains that somebody owns.
-/

namespace DiskStack

/-- A choice of the step that comes next. The controller's steps are told by a type of their own. -/
inductive Choice (γ δ : Type)
  | call (t : TaskId) (c : γ)
  | advance (t : TaskId)
  | rouse (t : TaskId)
  | reply (t : TaskId)
  | bringUp
  | interrupt
  | handle
  | leave
  | device (d : δ)

/-- What a player of a setting has to know: whether the memory of the machine may be used, and what
the controller's steps do. -/
structure Player {γ : Type} (w : Setting γ) (δ : Type) where
  admits : Machine → Bool
  device : Scene → δ → Option (List UInt16 × Scene)
  admits_sound : ∀ m, admits m = true → w.admits m m.arena
  device_sound : ∀ s d heads s', device s d = some (heads, s') → w.device s heads s'

def Incident.call? {γ : Type} : Incident γ → Option (TaskId × γ)
  | .call t c => some (t, c)
  | _ => none

def Incident.execute? {γ : Type} : Incident γ → Option TaskId
  | .execute t => some t
  | _ => none

theorem Incident.call_mem_iff {γ : Type} {l : List (Incident γ)} {t : TaskId} {c : γ} :
    .call t c ∈ l ↔ (t, c) ∈ l.filterMap call? := by
  rw [List.mem_filterMap]
  refine ⟨fun h => ⟨_, h, rfl⟩, ?_⟩
  rintro ⟨i, hi, hcall⟩
  cases i with
  | call =>
    cases hcall
    exact hi
  | _ => cases hcall

theorem DriveState.ready_of_ready? {d : DriveState} {s : ReadyState} (h : d.ready? = some s) :
    d = .ready s := by
  cases d with
  | ready =>
    cases h
    rfl
  | _ => cases h

namespace Machine

theorem idle_of_isIdle {m : Machine} {t : TaskId} (h : m.isIdle t = true) :
    (m.task t).activity = .idle := by
  rw [isIdle] at h
  split at h
  · assumption
  · cases h

/-- Whether a program waits for the completion of the request of an entry. -/
def awaits (b : BayId) (e : InFlight) : Program Reply → Bool
  | .complete b' request ticket _ => b' = b && request = e.request && ticket = e.ticket
  | _ => false

/-- Some task whose submission published the chain of a head. -/
def owner? (m : Machine) (b : BayId) (head : UInt16) : Option TaskId := do
  let s ← (m.bay b).drive.state.ready?
  let e ← (s.rings.inFlight[head.toNat]?).join
  (List.range m.tasks.size).find? fun t => (m.task t).activity.program?.any (awaits b e)

private theorem owns_of_owner? {m : Machine} {b : BayId} {head : UInt16} {t : TaskId}
    (h : m.owner? b head = some t) : m.Owns b t head := by
  simp only [owner?, Option.bind_eq_bind, Option.bind_eq_some_iff] at h
  obtain ⟨s, hs, e, he, hfind⟩ := h
  have hawaits := List.find?_some hfind
  rw [Option.any_eq_true] at hawaits
  obtain ⟨p, hp, hawaits⟩ := hawaits
  cases p with
  | complete b' request ticket next =>
    simp only [awaits, Bool.and_eq_true, decide_eq_true_eq] at hawaits
    obtain ⟨⟨rfl, rfl⟩, rfl⟩ := hawaits
    exact ⟨s, e, next, DriveState.ready_of_ready? hs, he, hp⟩
  | _ => cases hawaits

end Machine

namespace Scene

variable {γ δ : Type} {w : Setting γ} {s s' : Scene} {l : List (Incident γ)}

/-- What is seen of the execution of chains that all belong to somebody. -/
def shown? (m : Machine) (b : BayId) : List UInt16 → Option (List (Incident γ))
  | [] => some []
  | head :: heads => do
    let t ← m.owner? b head
    let l ← shown? m b heads
    return .execute t :: l

private theorem shown_of_shown? {m : Machine} {b : BayId} {heads : List UInt16}
    (h : shown? m b heads = some l) : Shown m b heads l := by
  induction heads generalizing l with
  | nil =>
    cases h
    exact .nil
  | cons head heads ih =>
    simp only [shown?, Option.bind_eq_bind, Option.bind_eq_some_iff] at h
    obtain ⟨t, ht, rest, hrest, hl⟩ := h
    cases hl
    exact .owned head heads t rest (Machine.owns_of_owner? ht) (ih hrest)

/-- The step that is chosen, if there is one. -/
def step? (p : Player w δ) (s : Scene) : Choice γ δ → Option (List (Incident γ) × Scene)
  | .call t c =>
    if t < s.machine.tasks.size ∧ s.machine.isIdle t = true then
      some ([.call t c], { s with machine := s.machine.setActivity t (.running (w.program c)) })
    else none
  | .advance t =>
    if p.admits s.machine = true ∧
        (s.handler = none ∨ (s.machine.task t).activity.locksDrive = false) then
      match (Run.advance t).run.run s.machine with
      | (.ok (), m) =>
        some (if s.machine.tookScratch m w.bay t then [.scratch t] else [], { s with machine := m })
      | (.error _, _) => none
    else none
  | .rouse t =>
    match (s.machine.task t).activity with
    | .asleep p =>
      some ([],
        { s with
          machine :=
            { s.machine.setActivity t (.running p) with
              waiting := s.machine.waiting.withdraw t
              runnable := s.machine.runnable.erase t } })
    | _ => none
  | .reply t =>
    match (s.machine.task t).activity with
    | .running (.done r) => some ([.reply t r], { s with machine := s.machine.setActivity t .idle })
    | _ => none
  | .bringUp =>
    if s.handler = none then
      match (Run.bringUp w.bay).run.run s.machine with
      | (.ok _, m) => some ([], { s with machine := m })
      | (.error _, _) => none
    else none
  | .interrupt => if s.handler = none then some ([], { s with handler := some .reading }) else none
  | .handle =>
    match s.handler with
    | none => none
    | some point =>
      match (Run.completionStep w.bay point).run.run s.machine with
      | (.ok next, m) => some ([], { s with machine := m, handler := some next })
      | (.error _, _) => none
  | .leave => if s.handler = some .finished then some ([], { s with handler := none }) else none
  | .device d => do
    let (heads, s') ← p.device s d
    let l ← shown? s.machine w.bay heads
    return (l, s')

/-- The run that is chosen, if each of its steps can be taken. -/
def play (p : Player w δ) (s : Scene) : List (Choice γ δ) → Option (List (Incident γ) × Scene)
  | [] => some ([], s)
  | x :: xs => do
    let (l, s₁) ← step? p s x
    let (l', s₂) ← play p s₁ xs
    return (l ++ l', s₂)

private theorem step_of_step? {p : Player w δ} {x : Choice γ δ} (h : step? p s x = some (l, s')) :
    Step w s l s' := by
  cases x with
  | call t c =>
    rw [step?] at h
    split at h
    · next hidle =>
      cases h
      exact .call t c hidle.1 (Machine.idle_of_isIdle hidle.2)
    · cases h
  | advance t =>
    rw [step?] at h
    split at h
    · next hfree =>
      split at h
      · next m hrun =>
        cases h
        exact .advance t s.machine.arena m (p.admits_sound _ hfree.1) hfree.2 hrun
      · cases h
    · cases h
  | rouse t =>
    rw [step?] at h
    split at h
    · next p hasleep =>
      cases h
      exact .rouse t p _ _ hasleep
    · cases h
  | reply t =>
    rw [step?] at h
    split at h
    · next r hdone =>
      cases h
      exact .reply t r hdone
    · cases h
  | bringUp =>
    rw [step?] at h
    split at h
    · next hfree =>
      split at h
      · next r m hrun =>
        cases h
        exact .bringUp r m hfree hrun
      · cases h
    · cases h
  | interrupt =>
    rw [step?] at h
    split at h
    · next hfree =>
      cases h
      exact .interrupt hfree
    · cases h
  | handle =>
    rw [step?] at h
    split at h
    · cases h
    · next point hpoint =>
      split at h
      · next next m hrun =>
        cases h
        exact .handle point next m hpoint hrun
      · cases h
  | leave =>
    rw [step?] at h
    split at h
    · next hend =>
      cases h
      exact .leave hend
    · cases h
  | device d =>
    simp only [step?, Option.bind_eq_bind, Option.bind_eq_some_iff] at h
    obtain ⟨⟨heads, s₁⟩, hdevice, l₁, hshown, hl⟩ := h
    cases hl
    exact .device heads l _ (shown_of_shown? hshown) (p.device_sound _ _ _ _ hdevice)

private theorem run_of_play {p : Player w δ} {xs : List (Choice γ δ)} (h : play p s xs = some (l, s')) :
    Run w s l s' := by
  induction xs generalizing s l with
  | nil =>
    cases h
    exact .refl
  | cons x xs ih =>
    simp only [play, Option.bind_eq_bind, Option.bind_eq_some_iff] at h
    obtain ⟨⟨l₁, s₁⟩, hfirst, ⟨l₂, s₂⟩, hrest, hl⟩ := h
    cases hl
    exact Runs.trans (.step .refl (step_of_step? hfirst)) (ih hrest)

/-- A run to a scene in which the drive is ready and some condition holds, from a list of choices. -/
theorem exists_run_of_play (p : Player w δ) (s : Scene) (xs : List (Choice γ δ))
    (P : List (Incident γ) → Scene → ReadyState → Prop) [∀ l s st, Decidable (P l s st)]
    (h : ((play p s xs).any fun r => (r.2.machine.bay w.bay).drive.state.ready?.any fun st =>
      decide (P r.1 r.2 st)) = true) :
    ∃ trace s' st, Run w s trace s' ∧ (s'.machine.bay w.bay).drive.state = .ready st ∧
      P trace s' st := by
  rw [Option.any_eq_true] at h
  obtain ⟨⟨trace, s'⟩, hplay, hready⟩ := h
  rw [Option.any_eq_true] at hready
  obtain ⟨st, hst, hholds⟩ := hready
  exact ⟨trace, s', st, run_of_play hplay, DriveState.ready_of_ready? hst, of_decide_eq_true hholds⟩

end Scene

end DiskStack
