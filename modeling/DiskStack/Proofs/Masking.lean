import DiskStack.Machine.Locks
import DiskStack.Proofs.View
import Mathlib.Logic.Relation

/-!
# Interrupts and short locks

Each core runs its own code and, on top of it, the handlers that interrupt it. Any of these takes short
locks and drops them in reverse order, or tries in vain; the core's own code may also sleep with its last
guard. An interrupt may be raised between any two accesses that taking or dropping a lock consists of: it
is handled at once while the flag is on, and otherwise kept until the flag goes on again. Still, the flag is
off whenever a core holds a lock, so that no handler ever finds the core that it interrupts holding one, and
outside of all sections the flag is what it was at first.
-/

namespace DiskStack

/-- Where a core's code stands. -/
inductive Point
  | between
  /-- About to read the flag, for a lock that it takes or only tries to take. -/
  | saving (i : Nat) (spins : Bool)
  /-- About to put the flag off. -/
  | masking (i : Nat) (spins saved : Bool)
  /-- About to look whether the lock is free, and to take it if so. -/
  | claiming (i : Nat) (spins saved : Bool)
  /-- About to free the lock of the last guard, and then to go on or to sleep for a while. -/
  | releasing (sleeps : Option Nat)
  /-- About to put the flag back. -/
  | restoring (saved : Bool) (sleeps : Option Nat)
  /-- The flag is on; that many kept interrupts are still to be delivered. -/
  | delivering (n : Nat) (sleeps : Option Nat)
  | sleeping (i : Nat)
  deriving DecidableEq, Repr

/-- Where code goes on that has put the flag back. -/
def Point.resumed : Option Nat → Point
  | none => .between
  | some i => .sleeping i

/-- The core's own code or a handler: the flag when it began, its guards, the latest first, and where it
stands. A guard names its lock and the flag to restore. -/
structure Frame where
  start : Bool
  guards : List (Nat × Bool) := []
  point : Point := .between
  deriving DecidableEq, Repr

/-- A handler begins with the flag off. -/
def Frame.handler : Frame := { start := false }

namespace Machine

def enabled (m : Machine) (t : TaskId) : Bool := (m.task t).core.enabled

def mutexAt (m : Machine) (i : Nat) : ShortLock UInt64 := m.mutexes.getD i { value := 0 }

def putMutex (m : Machine) (i : Nat) (l : ShortLock UInt64) : Machine :=
  { m with mutexes := m.mutexes.setIfInBounds i l }

def maskCore (m : Machine) (t : TaskId) : Machine :=
  if m.interruptControl then (m.emit (.mask t)).mapCore t Core.disable else m

def unmaskCore (m : Machine) (t : TaskId) : Machine := (m.emit (.unmask t)).mapCore t Core.enable

/-- A task notes the guards of its own code; those of handlers nobody notes. -/
def mapGuards (m : Machine) (own : Bool) (t : TaskId) (f : List (Nat × Bool) → List (Nat × Bool)) :
    Machine :=
  if own then m.mapTask t fun task => { task with guards := f task.guards } else m

/-- A machine that differs neither in a core nor in which short locks are held. -/
structure Untouched (m m' : Machine) : Prop where
  control : m'.interruptControl = m.interruptControl
  tasks : m'.tasks.size = m.tasks.size
  core : ∀ t, (m'.task t).core = (m.task t).core
  mutexes : m'.mutexes.size = m.mutexes.size
  locked : ∀ i, (m'.mutexAt i).locked = (m.mutexAt i).locked

end Machine

/-- One access of a core's code. `own` tells the core's own code from a handler. -/
inductive Frame.Moves (t : TaskId) (own : Bool) (m : Machine) (fr : Frame) : Machine → Frame → Prop
  | enter (i : Nat) (spins : Bool) (h : fr.point = .between) :
    Moves t own m fr m { fr with point := .saving i spins }
  | save (i : Nat) (spins : Bool) (h : fr.point = .saving i spins) :
    Moves t own m fr m
      { fr with point := .masking i spins (m.interruptControl && m.enabled t) }
  | mask (i : Nat) (spins saved : Bool) (h : fr.point = .masking i spins saved) :
    Moves t own m fr (m.maskCore t) { fr with point := .claiming i spins saved }
  | take (i : Nat) (spins saved : Bool) (l : ShortLock UInt64)
    (h : fr.point = .claiming i spins saved) (hi : i < m.mutexes.size)
    (hl : (m.mutexAt i).tryLock = some l) :
    Moves t own m fr ((m.putMutex i l).mapGuards own t ((i, saved) :: ·))
      { fr with guards := (i, saved) :: fr.guards, point := .between }
  | spin (i : Nat) (saved : Bool) (h : fr.point = .claiming i true saved) : Moves t own m fr m fr
  | fail (i : Nat) (saved : Bool) (h : fr.point = .claiming i false saved)
    (hl : (m.mutexAt i).tryLock = none) :
    Moves t own m fr m { fr with point := .restoring saved none }
  | drop (h : fr.point = .between) (hg : fr.guards ≠ []) :
    Moves t own m fr m { fr with point := .releasing none }
  /-- The core's own code registers on a channel and sleeps with its last guard. -/
  | sleepOn (i : Nat) (saved : Bool) (c : Channel) (h : fr.point = .between)
    (hg : fr.guards = [(i, saved)]) (hown : own = true) :
    Moves t own m fr (m.prepare t c) { fr with point := .releasing (some i) }
  | release (i : Nat) (saved : Bool) (rest : List (Nat × Bool)) (sleeps : Option Nat)
    (h : fr.point = .releasing sleeps) (hg : fr.guards = (i, saved) :: rest) :
    Moves t own m fr
      ((m.putMutex i (m.mutexAt i).unlock).mapGuards own t (·.filter fun g => g.1 != i))
      { fr with guards := rest, point := .restoring saved sleeps }
  | stay (sleeps : Option Nat) (h : fr.point = .restoring false sleeps) :
    Moves t own m fr m { fr with point := .resumed sleeps }
  | enable (sleeps : Option Nat) (h : fr.point = .restoring true sleeps) :
    Moves t own m fr (m.unmaskCore t)
      { fr with point := .delivering ((m.unmaskCore t).task t).core.pending.length sleeps }
  | resume (n : Nat) (sleeps : Option Nat) (h : fr.point = .delivering n sleeps)
    (hn : n = 0 ∨ (m.task t).core.pending = []) :
    Moves t own m fr m { fr with point := .resumed sleeps }
  | wake (i : Nat) (h : fr.point = .sleeping i) :
    Moves t own m fr m { fr with point := .saving i true }

/-- The machine with what runs on each core: handlers first, the core's own code last. -/
structure Cores where
  machine : Machine
  frames : TaskId → List Frame

namespace Cores

def put (s : Cores) (t : TaskId) (m : Machine) (l : List Frame) : Cores :=
  ⟨m, fun u => if u = t then l else s.frames u⟩

/-- One access on some core, an interrupt on one, or anything else that leaves cores and short locks
alone. -/
inductive Step (s : Cores) : Cores → Prop
  | move (t : TaskId) (fr fr' : Frame) (rest : List Frame) (m : Machine)
    (h : s.frames t = fr :: rest) (hm : fr.Moves t rest.isEmpty s.machine m fr') :
    Step s (s.put t m (fr' :: rest))
  | deliver (t : TaskId) (fr : Frame) (rest : List Frame) (n : Nat) (sleeps : Option Nat)
    (i : Interrupt) (later : List Interrupt) (h : s.frames t = fr :: rest)
    (hp : fr.point = .delivering (n + 1) sleeps)
    (hi : (s.machine.task t).core.pending = i :: later) :
    Step s (s.put t ((s.machine.mapCore t Core.dropPending).mapCore t Core.disable)
      (.handler :: { fr with point := .delivering n sleeps } :: rest))
  | interrupt (t : TaskId) (fr : Frame) (rest : List Frame) (h : s.frames t = fr :: rest)
    (hon : s.machine.enabled t = true) :
    Step s (s.put t (s.machine.mapCore t Core.disable) (.handler :: fr :: rest))
  | defer (t : TaskId) (i : Interrupt) (hoff : s.machine.enabled t = false) :
    Step s { s with machine := s.machine.mapCore t (·.defer i) }
  | finish (t : TaskId) (fr below : Frame) (rest : List Frame) (h : s.frames t = fr :: below :: rest)
    (hp : fr.point = .between) (hg : fr.guards = []) :
    Step s (s.put t (s.machine.mapCore t Core.enable) (below :: rest))
  | work (m : Machine) (h : s.machine.Untouched m) : Step s { s with machine := m }

end Cores

/-! ### What the flag is at each point -/

namespace Frame

/-- The flag outside of taking and dropping. -/
def idle (fr : Frame) : Bool := fr.guards.isEmpty && fr.start

/-- The flag that a core has while the code on top of it stands at a point. -/
def flag (fr : Frame) : Bool :=
  match fr.point with
  | .claiming .. | .releasing _ | .restoring .. => false
  | .delivering .. => true
  | _ => fr.idle

/-- Each guard has saved the flag that it found: the outermost one that of the start, the others off. -/
def Chained (start : Bool) : List (Nat × Bool) → Prop
  | [] => True
  | g :: rest => g.2 = (rest.isEmpty && start) ∧ Chained start rest

/-- What is known of a saved flag and of the guards at each point. -/
def Fits (fr : Frame) : Prop :=
  match fr.point with
  | .between | .saving .. => True
  | .masking _ _ saved | .claiming _ _ saved => saved = fr.idle
  | .releasing sleeps => fr.guards ≠ [] ∧ (sleeps ≠ none → fr.guards.tail = [])
  | .restoring saved sleeps => saved = fr.idle ∧ (sleeps ≠ none → fr.guards = [])
  | .delivering .. => fr.idle = true
  | .sleeping _ => fr.guards = []

structure Sound (fr : Frame) : Prop where
  chained : Chained fr.start fr.guards
  fits : fr.Fits

variable {fr : Frame}

private theorem guards_of_idle (h : fr.idle = true) : fr.guards = [] :=
  List.isEmpty_iff.1 (Bool.and_eq_true_iff.1 h).1

theorem guards_of_flag (h : fr.flag = true) (hs : fr.Sound) : fr.guards = [] := by
  have hfits := hs.fits
  rw [flag] at h
  rw [Fits] at hfits
  split at h
  · cases h
  · cases h
  · cases h
  · next hp =>
    rw [hp] at hfits
    exact guards_of_idle hfits
  · exact guards_of_idle h

theorem flag_of_start (hs : fr.Sound) (h : fr.start = false) : fr.flag = false := by
  have hidle : fr.idle = false := by rw [idle, h, Bool.and_false]
  have hfits := hs.fits
  rw [Fits] at hfits
  rw [flag]
  split
  · rfl
  · rfl
  · rfl
  · next hp =>
    rw [hp, hidle] at hfits
    cases hfits
  · exact hidle

private theorem sound_handler : handler.Sound := ⟨trivial, trivial⟩

end Frame

/-! ### What an access does to a core -/

namespace Machine

/-- A machine that differs at most in one core, as far as interrupt flags go. -/
structure OnCore (t : TaskId) (m m' : Machine) : Prop where
  control : m'.interruptControl = m.interruptControl
  tasks : m'.tasks.size = m.tasks.size
  others : ∀ u, u ≠ t → m'.enabled u = m.enabled u

variable {m : Machine} {t u : TaskId}

private theorem OnCore.refl (m : Machine) : m.OnCore t m := ⟨rfl, rfl, fun _ _ => rfl⟩

private theorem enabled_mapTask (f : Task → Task) (hf : ∀ task, (f task).core = task.core) :
    (m.mapTask t f).enabled u = m.enabled u := by
  rw [enabled, task_mapTask]
  split
  · rw [hf, enabled]
  · rfl

private theorem enabled_mapCore (ht : t < m.tasks.size) (f : Core Interrupt → Core Interrupt) :
    (m.mapCore t f).enabled u = if u = t then (f (m.task t).core).enabled else m.enabled u := by
  rw [enabled, mapCore, task_mapTask]
  by_cases h : u = t
  · subst h
    rw [if_pos ⟨rfl, ht⟩, if_pos rfl]
  · rw [if_neg fun hc => h hc.1.symm, if_neg h, enabled]

private theorem enabled_mapCore_of_same {f : Core Interrupt → Core Interrupt}
    (hf : ∀ c, (f c).enabled = c.enabled) : (m.mapCore t f).enabled u = m.enabled u := by
  rw [enabled, mapCore, task_mapTask]
  split
  · exact hf _
  · rfl

private theorem onCore_mapTask (f : Task → Task) (hf : ∀ task, (f task).core = task.core) :
    m.OnCore t (m.mapTask t f) := ⟨rfl, Array.size_modify, fun _ _ => enabled_mapTask f hf⟩

private theorem onCore_mapCore (ht : t < m.tasks.size) (f : Core Interrupt → Core Interrupt) :
    m.OnCore t (m.mapCore t f) :=
  ⟨rfl, Array.size_modify, fun u hu => by rw [enabled_mapCore ht, if_neg hu]⟩

private theorem OnCore.trans {m' m'' : Machine} (h : m.OnCore t m') (h' : m'.OnCore t m'') :
    m.OnCore t m'' :=
  ⟨h'.control.trans h.control, h'.tasks.trans h.tasks,
    fun u hu => (h'.others u hu).trans (h.others u hu)⟩

private theorem onCore_emit (e : Event) : m.OnCore t (m.emit e) := ⟨rfl, rfl, fun _ _ => rfl⟩

private theorem onCore_putMutex (i : Nat) (l : ShortLock UInt64) : m.OnCore t (m.putMutex i l) :=
  ⟨rfl, rfl, fun _ _ => rfl⟩

private theorem enabled_mapGuards (own : Bool) (f : List (Nat × Bool) → List (Nat × Bool)) :
    (m.mapGuards own t f).enabled u = m.enabled u := by
  rw [mapGuards]
  split
  · exact enabled_mapTask _ fun _ => rfl
  · rfl

private theorem onCore_mapGuards (own : Bool) (f : List (Nat × Bool) → List (Nat × Bool)) :
    m.OnCore t (m.mapGuards own t f) := by
  rw [mapGuards]
  split
  · exact onCore_mapTask _ fun _ => rfl
  · exact .refl m

theorem enabled_maskCore (ht : t < m.tasks.size) (hc : m.interruptControl = true) :
    (m.maskCore t).enabled t = false := by
  rw [maskCore, if_pos hc, enabled_mapCore (m := m.emit (.mask t)) ht, if_pos rfl]
  rfl

theorem onCore_maskCore (ht : t < m.tasks.size) : m.OnCore t (m.maskCore t) := by
  rw [maskCore]
  split
  · exact (onCore_emit _).trans (onCore_mapCore (m := m.emit (.mask t)) ht _)
  · exact .refl m

private theorem enabled_unmaskCore (ht : t < m.tasks.size) : (m.unmaskCore t).enabled t = true := by
  rw [unmaskCore, enabled_mapCore (m := m.emit (.unmask t)) ht, if_pos rfl]
  rfl

private theorem onCore_unmaskCore (ht : t < m.tasks.size) : m.OnCore t (m.unmaskCore t) :=
  (onCore_emit _).trans (onCore_mapCore (m := m.emit (.unmask t)) ht _)

end Machine

namespace Frame

variable {fr fr' : Frame} {t : TaskId} {own : Bool} {m m' : Machine}

private theorem Moves.onCore (h : fr.Moves t own m m' fr') (ht : t < m.tasks.size) : m.OnCore t m' := by
  cases h with
  | mask => exact Machine.onCore_maskCore ht
  | take => exact (Machine.onCore_putMutex _ _).trans (Machine.onCore_mapGuards _ _)
  | release => exact (Machine.onCore_putMutex _ _).trans (Machine.onCore_mapGuards _ _)
  | enable => exact Machine.onCore_unmaskCore ht
  | sleepOn => exact ⟨rfl, rfl, fun _ _ => rfl⟩
  | _ => exact .refl m

private theorem Moves.start (h : fr.Moves t own m m' fr') : fr'.start = fr.start := by cases h <;> rfl

private theorem fits_resumed {sleeps : Option Nat} (hg : sleeps ≠ none → fr.guards = []) :
    Fits { fr with point := .resumed sleeps } := by
  cases sleeps with
  | none => trivial
  | some i => exact hg (Option.some_ne_none i)

private theorem flag_resumed (sleeps : Option Nat) :
    flag { fr with point := .resumed sleeps } = fr.idle := by
  cases sleeps <;> rfl

private theorem Moves.sound (h : fr.Moves t own m m' fr') (ht : t < m.tasks.size)
    (hc : m.interruptControl = true) (hs : fr.Sound) (hflag : m.enabled t = fr.flag) :
    fr'.Sound ∧ m'.enabled t = fr'.flag := by
  have hfits := hs.fits
  rw [Fits] at hfits
  rw [flag] at hflag
  -- The flag itself changes at two accesses only: it goes off at `mask` and on at `enable`. At all others
  -- the flag of the new point has to be that of the old one.
  cases h with
  | enter i spins h =>
    rw [h] at hflag
    exact ⟨⟨hs.chained, trivial⟩, hflag⟩
  | save i spins h =>
    rw [h] at hflag
    refine ⟨⟨hs.chained, ?_⟩, hflag⟩
    change (m.interruptControl && m.enabled t) = fr.idle
    rw [hc, Bool.true_and, hflag]
  | mask i spins saved h =>
    rw [h] at hfits
    exact ⟨⟨hs.chained, hfits⟩, Machine.enabled_maskCore ht hc⟩
  | take i spins saved l h hi hl =>
    rw [h] at hfits hflag
    refine ⟨⟨⟨hfits, hs.chained⟩, trivial⟩, ?_⟩
    rw [Machine.enabled_mapGuards]
    exact hflag
  | spin i saved h => exact ⟨hs, by rw [flag]; exact hflag⟩
  | fail i saved h hl =>
    rw [h] at hfits hflag
    exact ⟨⟨hs.chained, hfits, fun hne => absurd rfl hne⟩, hflag⟩
  | drop h hg =>
    rw [h] at hflag
    refine ⟨⟨hs.chained, hg, fun hne => absurd rfl hne⟩, hflag.trans ?_⟩
    rw [idle, List.isEmpty_eq_false_iff.2 hg]
    rfl
  | sleepOn i saved c h hg hown =>
    rw [h] at hflag
    refine ⟨⟨hs.chained, by simp [hg], by simp [hg]⟩, hflag.trans ?_⟩
    rw [idle, hg]
    rfl
  | release i saved rest sleeps h hg =>
    have hchained := hs.chained
    rw [hg] at hchained
    rw [h, hg] at hfits
    rw [h] at hflag
    refine ⟨⟨hchained.2, hchained.1, hfits.2⟩, ?_⟩
    rw [Machine.enabled_mapGuards]
    exact hflag
  | stay sleeps h =>
    rw [h] at hfits hflag
    refine ⟨⟨hs.chained, fits_resumed hfits.2⟩, ?_⟩
    rw [flag_resumed, ← hfits.1]
    exact hflag
  | enable sleeps h =>
    rw [h] at hfits
    exact ⟨⟨hs.chained, hfits.1.symm⟩, Machine.enabled_unmaskCore ht⟩
  | resume n sleeps h hn =>
    rw [h] at hfits hflag
    refine ⟨⟨hs.chained, fits_resumed fun _ => guards_of_idle hfits⟩, ?_⟩
    rw [flag_resumed, hflag]
    exact hfits.symm
  | wake i h =>
    rw [h] at hflag
    exact ⟨⟨hs.chained, trivial⟩, hflag⟩

end Frame

namespace Cores

/-- What runs on one core, and its flag: at most one handler, which runs with the flag off on top of code
that it could interrupt. -/
inductive Stacked (first enabled : Bool) : List Frame → Prop
  | alone (fr : Frame) (hs : fr.Sound) (hstart : fr.start = first) (hflag : enabled = fr.flag) :
    Stacked first enabled [fr]
  | handling (h fr : Frame) (hh : h.Sound) (hoff : h.start = false) (hs : fr.Sound)
    (hstart : fr.start = first) (hflag : fr.flag = true) (henabled : enabled = false) :
    Stacked first enabled [h, fr]

/-- The flags of all cores are in step with what runs on them, given the flags at first. -/
structure Masked (first : TaskId → Bool) (s : Cores) : Prop where
  control : s.machine.interruptControl = true
  stacked : ∀ t, s.frames t ≠ [] →
    t < s.machine.tasks.size ∧ Stacked (first t) (s.machine.enabled t) (s.frames t)

variable {first : TaskId → Bool} {s s' : Cores} {t : TaskId}

private theorem Masked.put (h : s.Masked first) {m : Machine} (hm : s.machine.OnCore t m) {l : List Frame}
    (ht : t < s.machine.tasks.size) (hl : Stacked (first t) (m.enabled t) l) :
    (s.put t m l).Masked first where
  control := hm.control.trans h.control
  stacked := fun u hu => by
    rw [Cores.put] at hu ⊢
    dsimp only at hu ⊢
    by_cases hut : u = t
    · subst hut
      rw [if_pos rfl]
      exact ⟨hm.tasks ▸ ht, hl⟩
    · rw [if_neg hut] at hu ⊢
      rw [hm.others u hut, hm.tasks]
      exact h.stacked u hu

private theorem Masked.same (h : s.Masked first) {m : Machine}
    (hcontrol : m.interruptControl = s.machine.interruptControl)
    (htasks : m.tasks.size = s.machine.tasks.size) (henabled : ∀ u, m.enabled u = s.machine.enabled u) :
    Masked first { s with machine := m } where
  control := hcontrol.trans h.control
  stacked := fun u hu => by
    dsimp only at hu ⊢
    rw [henabled, htasks]
    exact h.stacked u hu

theorem Masked.of_cons (h : s.Masked first) {fr : Frame} {rest : List Frame}
    (ht : s.frames t = fr :: rest) : t < s.machine.tasks.size ∧
      Stacked (first t) (s.machine.enabled t) (fr :: rest) := by
  rw [← ht]
  exact h.stacked t (by rw [ht]; exact List.cons_ne_nil fr rest)

private theorem Stacked.push {first : Bool} {fr : Frame} {rest : List Frame}
    (h : Stacked first true (fr :: rest)) : Stacked first false (.handler :: fr :: rest) := by
  cases h with
  | alone _ hs hstart hflag => exact .handling _ _ Frame.sound_handler rfl hs hstart hflag.symm rfl
  | handling _ _ _ _ _ _ _ henabled => cases henabled

theorem Step.masked (h : Step s s') (hs : s.Masked first) : s'.Masked first := by
  cases h with
  | move t fr fr' rest m h hm =>
    obtain ⟨ht, hstacked⟩ := hs.of_cons h
    refine hs.put (hm.onCore ht) ht ?_
    cases hstacked with
    | alone _ hsound hstart hflag =>
      obtain ⟨hsound', hflag'⟩ := hm.sound ht hs.control hsound hflag
      exact .alone fr' hsound' (hm.start.trans hstart) hflag'
    | handling _ below hsound hoff hbelow hstart hflag henabled =>
      -- Code that began with the flag off never puts it on, so nothing below can go on before it ends.
      have hoff' : fr'.start = false := hm.start.trans hoff
      obtain ⟨hsound', hflag'⟩ := hm.sound ht hs.control hsound
        (henabled.trans (Frame.flag_of_start hsound hoff).symm)
      exact .handling fr' below hsound' hoff' hbelow hstart hflag
        (hflag'.trans (Frame.flag_of_start hsound' hoff'))
  | deliver t fr rest n sleeps i later h hp hi =>
    obtain ⟨ht, hstacked⟩ := hs.of_cons h
    have hdropped : s.machine.tasks.size = (s.machine.mapCore t Core.dropPending).tasks.size :=
      (Machine.onCore_mapCore ht _).tasks.symm
    refine hs.put ((Machine.onCore_mapCore ht _).trans (Machine.onCore_mapCore (hdropped ▸ ht) _)) ht ?_
    rw [Machine.enabled_mapCore (hdropped ▸ ht), if_pos rfl]
    refine Stacked.push ?_
    cases hstacked with
    | alone _ hsound hstart hflag =>
      have hfits := hsound.fits
      rw [Frame.Fits, hp] at hfits
      exact .alone _ ⟨hsound.chained, hfits⟩ hstart rfl
    | handling _ _ hsound hoff =>
      have hflag := Frame.flag_of_start hsound hoff
      rw [Frame.flag, hp] at hflag
      cases hflag
  | interrupt t fr rest h hon =>
    obtain ⟨ht, hstacked⟩ := hs.of_cons h
    refine hs.put (Machine.onCore_mapCore ht _) ht ?_
    rw [hon] at hstacked
    rw [Machine.enabled_mapCore ht, if_pos rfl]
    exact hstacked.push
  | defer t i hoff =>
    exact hs.same rfl Array.size_modify fun u => Machine.enabled_mapCore_of_same fun _ => rfl
  | finish t fr below rest h hp hg =>
    obtain ⟨ht, hstacked⟩ := hs.of_cons h
    refine hs.put (Machine.onCore_mapCore ht _) ht ?_
    cases hstacked with
    | handling _ _ hsound hoff hbelow hstart hflag henabled =>
      refine .alone below hbelow hstart ?_
      rw [Machine.enabled_mapCore ht, if_pos rfl, hflag]
      rfl
  | work m h => exact hs.same h.control h.tasks fun u => congrArg Core.enabled (h.core u)

end Cores

end DiskStack
