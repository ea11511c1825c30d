import DiskStack.Proofs.Masking

/-!
# The discipline of short locks

While handlers come and go, a short lock is locked exactly as long as some core has its guard, and no two
have it at once. Together with the flag being off whenever a core holds a lock, this gives the discipline
that makes short locks safe in handlers: nobody is ever interrupted with a lock in hand, so a handler never
spins for a lock of the code below it, and a section leaves the flag as it found it.
-/

namespace DiskStack

namespace ShortLock

variable {α : Type} {l l' : ShortLock α}

theorem of_tryLock (h : l.tryLock = some l') : l.locked = false ∧ l'.locked = true := by
  rw [tryLock] at h
  split at h
  · cases h
  · cases h
    exact ⟨Bool.eq_false_iff.2 ‹_›, rfl⟩

end ShortLock

namespace Machine

variable {m : Machine}

theorem locked_putMutex {i : Nat} (hi : i < m.mutexes.size) (l : ShortLock UInt64) (j : Nat) :
    ((m.putMutex i l).mutexAt j).locked = if j = i then l.locked else (m.mutexAt j).locked := by
  by_cases h : j = i
  · subst h
    simp [mutexAt, putMutex, hi]
  · simp [mutexAt, putMutex, h, Ne.symm h]

theorem mutexes_mapGuards (own : Bool) (t : TaskId) (f : List (Nat × Bool) → List (Nat × Bool)) :
    (m.mapGuards own t f).mutexes = m.mutexes := by
  rw [mapGuards]
  split <;> rfl

theorem mutexes_maskCore (t : TaskId) : (m.maskCore t).mutexes = m.mutexes := by
  rw [maskCore]
  split <;> rfl

end Machine

namespace Frame

/-- The locks whose guards the code has. -/
def held (fr : Frame) : List Nat := fr.guards.map Prod.fst

/-- Whether each short lock but one is as it was. -/
structure Turns (i : Nat) (locked : Bool) (m m' : Machine) : Prop where
  size : m'.mutexes.size = m.mutexes.size
  locked : ∀ j, (m'.mutexAt j).locked = if j = i then locked else (m.mutexAt j).locked

private theorem Turns.congr {i : Nat} {locked : Bool} {m m' m'' : Machine} (h : Turns i locked m m')
    (hm : m''.mutexes = m'.mutexes) : Turns i locked m m'' := by
  refine ⟨hm ▸ h.size, fun j => ?_⟩
  rw [Machine.mutexAt, hm]
  exact h.locked j

private theorem turns_putMutex {m : Machine} {i : Nat} (hi : i < m.mutexes.size) (l : ShortLock UInt64) :
    Turns i l.locked m (m.putMutex i l) :=
  ⟨Array.size_setIfInBounds, fun j => Machine.locked_putMutex hi l j⟩

/-- How an access changes the guards of a core's code: it takes a free lock, frees the one of its last
guard, or does neither. -/
private theorem Moves.turns {t : TaskId} {own : Bool} {m m' : Machine} {fr fr' : Frame}
    (h : fr.Moves t own m m' fr') (hpresent : ∀ i ∈ fr.held, i < m.mutexes.size) :
    (fr'.held = fr.held ∧ m'.mutexes = m.mutexes) ∨
      (∃ i, i < m.mutexes.size ∧ (m.mutexAt i).locked = false ∧ fr'.held = i :: fr.held ∧
        Turns i true m m') ∨
      ∃ i, fr.held = i :: fr'.held ∧ Turns i false m m' := by
  cases h with
  | take i spins saved l hp hi hl =>
    obtain ⟨hfree, hlocked⟩ := ShortLock.of_tryLock hl
    refine .inr (.inl ⟨i, hi, hfree, rfl, ?_⟩)
    exact (hlocked ▸ turns_putMutex hi l).congr (Machine.mutexes_mapGuards ..)
  | release i saved rest sleeps hp hg =>
    have hheld : fr.held = i :: rest.map Prod.fst := by rw [held, hg]; rfl
    have hi : i < m.mutexes.size := hpresent i (hheld ▸ List.mem_cons_self)
    refine .inr (.inr ⟨i, hheld, ?_⟩)
    exact (turns_putMutex hi (m.mutexAt i).unlock).congr (Machine.mutexes_mapGuards ..)
  | mask => exact .inl ⟨rfl, Machine.mutexes_maskCore t⟩
  | _ => exact .inl ⟨rfl, rfl⟩

end Frame

namespace Cores

/-- The locks that a core holds. -/
def held (s : Cores) (t : TaskId) : List Nat := (s.frames t).flatMap Frame.held

/-- A short lock is locked exactly if some core has its guard, which is then the only one. -/
structure Guarded (s : Cores) : Prop where
  present : ∀ t, ∀ i ∈ s.held t, i < s.machine.mutexes.size
  locked : ∀ t, ∀ i ∈ s.held t, (s.machine.mutexAt i).locked = true
  holder : ∀ i, (s.machine.mutexAt i).locked = true → ∃ t, i ∈ s.held t
  once : ∀ t, (s.held t).Nodup
  apart : ∀ t u i, i ∈ s.held t → i ∈ s.held u → t = u

variable {s s' : Cores} {t : TaskId}

private theorem held_put (m : Machine) (l : List Frame) (u : TaskId) :
    (s.put t m l).held u = if u = t then l.flatMap Frame.held else s.held u := by
  rw [held, put]
  dsimp only
  split <;> rfl

private theorem Guarded.same (h : s.Guarded) (hheld : ∀ u, s'.held u = s.held u)
    (hsize : s'.machine.mutexes.size = s.machine.mutexes.size)
    (hlocked : ∀ i, (s'.machine.mutexAt i).locked = (s.machine.mutexAt i).locked) : s'.Guarded where
  present := fun u => by rw [hheld, hsize]; exact h.present u
  locked := fun u i hi => by
    rw [hheld] at hi
    rw [hlocked]
    exact h.locked u i hi
  holder := fun i hi => by
    rw [hlocked] at hi
    obtain ⟨u, hu⟩ := h.holder i hi
    exact ⟨u, by rw [hheld]; exact hu⟩
  once := fun u => by rw [hheld]; exact h.once u
  apart := fun t u i => by rw [hheld, hheld]; exact h.apart t u i

private theorem Guarded.take (h : s.Guarded) {i : Nat} (hi : i < s.machine.mutexes.size)
    (hfree : (s.machine.mutexAt i).locked = false)
    (hheld : ∀ u, s'.held u = if u = t then i :: s.held t else s.held u)
    (hturns : Frame.Turns i true s.machine s'.machine) : s'.Guarded := by
  -- The lock was free, so its new guard is the only one.
  have hnot : ∀ u, i ∉ s.held u := fun u hu => by cases hfree.symm.trans (h.locked u i hu)
  have hmem : ∀ u j, j ∈ s'.held u ↔ u = t ∧ j = i ∨ j ∈ s.held u := fun u j => by
    rw [hheld]
    by_cases hut : u = t
    · rw [if_pos hut, List.mem_cons, hut]
      simp
    · rw [if_neg hut]
      simp [hut]
  refine ⟨fun u j hj => ?_, fun u j hj => ?_, fun j hj => ?_, fun u => ?_, fun u v j hu hv => ?_⟩
  · rw [hturns.size]
    rcases (hmem u j).1 hj with ⟨-, rfl⟩ | hj
    · exact hi
    · exact h.present u j hj
  · rw [hturns.locked]
    split
    · rfl
    · next hne => exact h.locked u j (((hmem u j).1 hj).resolve_left fun hc => hne hc.2)
  · rw [hturns.locked] at hj
    by_cases hji : j = i
    · exact ⟨t, (hmem t j).2 (.inl ⟨rfl, hji⟩)⟩
    · rw [if_neg hji] at hj
      obtain ⟨u, hu⟩ := h.holder j hj
      exact ⟨u, (hmem u j).2 (.inr hu)⟩
  · rw [hheld]
    split
    · exact List.nodup_cons.2 ⟨hnot t, h.once t⟩
    · exact h.once u
  · rcases (hmem u j).1 hu with ⟨rfl, rfl⟩ | hu <;> rcases (hmem v j).1 hv with ⟨rfl, hji⟩ | hv
    · rfl
    · exact absurd hv (hnot v)
    · exact absurd (hji ▸ hu) (hnot u)
    · exact h.apart u v j hu hv

private theorem Guarded.release (h : s.Guarded) {i : Nat} {rest : List Nat} (ht : s.held t = i :: rest)
    (hheld : ∀ u, s'.held u = if u = t then rest else s.held u)
    (hturns : Frame.Turns i false s.machine s'.machine) : s'.Guarded := by
  have hmem : ∀ u j, j ∈ s'.held u ↔ j ∈ s.held u ∧ j ≠ i := fun u j => by
    have honce := ht ▸ h.once t
    have hit : i ∈ s.held t := ht ▸ List.mem_cons_self
    rw [hheld]
    by_cases hut : u = t
    · rw [if_pos hut, hut, ht, List.mem_cons]
      refine ⟨fun hj => ⟨.inr hj, ?_⟩, fun hj => hj.1.resolve_left hj.2⟩
      rintro rfl
      exact (List.nodup_cons.1 honce).1 hj
    · rw [if_neg hut]
      refine ⟨fun hj => ⟨hj, ?_⟩, And.left⟩
      rintro rfl
      exact hut (h.apart u t j hj hit)
  refine ⟨fun u j hj => ?_, fun u j hj => ?_, fun j hj => ?_, fun u => ?_, fun u v j hu hv => ?_⟩
  · rw [hturns.size]
    exact h.present u j ((hmem u j).1 hj).1
  · obtain ⟨hj, hne⟩ := (hmem u j).1 hj
    rw [hturns.locked, if_neg hne]
    exact h.locked u j hj
  · rw [hturns.locked] at hj
    split at hj
    · cases hj
    · next hne =>
      obtain ⟨u, hu⟩ := h.holder j hj
      exact ⟨u, (hmem u j).2 ⟨hu, hne⟩⟩
  · rw [hheld]
    split
    · exact (List.nodup_cons.1 (ht ▸ h.once t)).2
    · exact h.once u
  · exact h.apart u v j ((hmem u j).1 hu).1 ((hmem v j).1 hv).1

private theorem Guarded.put (h : s.Guarded) {l l' : List Frame} (ht : s.frames t = l)
    (hl : l'.flatMap Frame.held = l.flatMap Frame.held) {m : Machine}
    (hsize : m.mutexes.size = s.machine.mutexes.size)
    (hlocked : ∀ i, (m.mutexAt i).locked = (s.machine.mutexAt i).locked) :
    (s.put t m l').Guarded := by
  refine h.same (fun u => ?_) hsize hlocked
  rw [held_put]
  split
  · next hut => rw [hl, hut, held, ht]
  · rfl

theorem Step.guarded (h : Step s s') (hs : s.Guarded) : s'.Guarded := by
  cases h with
  | move t fr fr' rest m h hm =>
    have hold : s.held t = fr.held ++ rest.flatMap Frame.held := by
      rw [held, h, List.flatMap_cons]
    have hnew : ∀ u, (s.put t m (fr' :: rest)).held u =
        if u = t then fr'.held ++ rest.flatMap Frame.held else s.held u := fun u => by
      rw [held_put, List.flatMap_cons]
    have hpresent : ∀ i ∈ fr.held, i < s.machine.mutexes.size := fun i hi =>
      hs.present t i (hold ▸ List.mem_append_left _ hi)
    rcases hm.turns hpresent with ⟨hheld, hmutexes⟩ | ⟨i, hi, hfree, hheld, hturns⟩ | ⟨i, hheld, hturns⟩
    · refine hs.put h ?_ (congrArg Array.size hmutexes) fun i => ?_
      · rw [List.flatMap_cons, List.flatMap_cons, hheld]
      · rw [Machine.mutexAt, hmutexes, Machine.mutexAt]
    · refine hs.take (t := t) hi hfree (fun u => ?_) hturns
      rw [hnew, hold, hheld, List.cons_append]
    · refine hs.release (i := i) ?_ hnew hturns
      rw [hold, hheld, List.cons_append]
  | deliver t fr rest n sleeps i later h hp hi =>
    refine hs.put h ?_ rfl fun _ => rfl
    rfl
  | interrupt t fr rest h hon =>
    refine hs.put h ?_ rfl fun _ => rfl
    rfl
  | defer t i hoff => exact hs.same (fun _ => rfl) rfl fun _ => rfl
  | finish t fr below rest h hp hg =>
    refine hs.put h ?_ rfl fun _ => rfl
    rw [List.flatMap_cons (x := fr), Frame.held, hg]
    rfl
  | work m h => exact hs.same (fun _ => rfl) h.mutexes h.locked

/-! ### What a core may count on -/

/-- All short locks are free, and each core is about to run its own code. -/
structure Quiet (s : Cores) : Prop where
  control : s.machine.interruptControl = true
  frames : ∀ t, s.frames t =
    if t < s.machine.tasks.size then [{ start := s.machine.enabled t }] else []
  free : ∀ i, (s.machine.mutexAt i).locked = false

theorem Quiet.masked (h : s.Quiet) : s.Masked s.machine.enabled where
  control := h.control
  stacked := fun t ht => by
    rw [h.frames] at ht ⊢
    split at ht
    · next hlt =>
      rw [if_pos hlt]
      exact ⟨hlt, .alone _ ⟨trivial, trivial⟩ rfl rfl⟩
    · exact absurd rfl ht

theorem Quiet.guarded (h : s.Quiet) : s.Guarded := by
  have hnone : ∀ t, s.held t = [] := fun t => by
    rw [held, h.frames]
    split <;> rfl
  refine ⟨fun t i hi => ?_, fun t i hi => ?_, fun i hi => ?_, fun t => ?_, fun t u i hi => ?_⟩
  · rw [hnone] at hi
    cases hi
  · rw [hnone] at hi
    cases hi
  · cases (h.free i).symm.trans hi
  · rw [hnone]
    exact List.nodup_nil
  · rw [hnone] at hi
    cases hi

/-- What holds on one core, given the flag at first. Frames are listed with the handler first. -/
structure Disciplined (s : Cores) (t : TaskId) (first : Bool) : Prop where
  /-- The flag is off whenever the core holds a lock, also in the middle of taking or dropping one. -/
  masked : s.held t ≠ [] → s.machine.enabled t = false
  /-- No handler begins on a core that holds a lock. -/
  starts : ∀ s', Step s s' → (s.frames t).length < (s'.frames t).length → s.held t = []
  /-- A handler runs with the flag off, and what it has interrupted holds nothing. -/
  handling : ∀ h below, s.frames t = h :: below → below ≠ [] →
    s.machine.enabled t = false ∧ ∀ fr ∈ below, fr.held = []
  /-- A locked lock that a handler wants is another core's, unless the handler took it itself. -/
  spins : ∀ h below i saved, s.frames t = h :: below → below ≠ [] → h.point = .claiming i true saved →
    (s.machine.mutexAt i).locked = true → i ∈ h.held ∨ ∃ u, u ≠ t ∧ i ∈ s.held u
  /-- Outside of taking and dropping, the flag tells whether anything is held. -/
  between : ∀ fr below, s.frames t = fr :: below → fr.point = .between →
    s.machine.enabled t = (fr.guards.isEmpty && fr.start)
  /-- With all guards dropped, the flag of the core's own code is what it was at first. -/
  restored : ∀ fr, s.frames t = [fr] → fr.point = .between → fr.guards = [] →
    s.machine.enabled t = first
  /-- The outermost guard, be it from a lock, an attempt or a sleep, is to restore that flag. -/
  saved : ∀ fr i saved, s.frames t = [fr] → fr.guards = [(i, saved)] → saved = first
  /-- The core sleeps with that flag. -/
  asleep : ∀ fr i, s.frames t = [fr] → fr.point = .sleeping i →
    s.machine.enabled t = first ∧ fr.guards = []

variable {first : TaskId → Bool}

private theorem Stacked.held_eq_nil {first : Bool} {l : List Frame} (h : Stacked first true l) :
    l.flatMap Frame.held = [] := by
  cases h with
  | alone fr hs _ hflag =>
    rw [List.flatMap_singleton, Frame.held, Frame.guards_of_flag hflag.symm hs]
    rfl
  | handling _ _ _ _ _ _ _ henabled => cases henabled

private theorem Masked.held_eq_nil (h : s.Masked first) (ht : s.machine.enabled t = true) :
    s.held t = [] := by
  by_cases hnil : s.frames t = []
  · rw [held, hnil]
    rfl
  · have hstacked := (h.stacked t hnil).2
    rw [ht] at hstacked
    exact hstacked.held_eq_nil

/-- Only a core whose flag is on is interrupted. -/
theorem Step.enabled_of_grows (h : Step s s') (hs : s.Masked first)
    (hgrows : (s.frames t).length < (s'.frames t).length) : s.machine.enabled t = true := by
  have hlen : ∀ u m l, (s.frames t).length < ((s.put u m l).frames t).length →
      t = u ∧ (s.frames t).length < l.length := fun u m l hlt => by
    rw [put] at hlt
    dsimp only at hlt
    split at hlt
    · next htu => exact ⟨htu, hlt⟩
    · exact absurd hlt (Nat.lt_irrefl _)
  cases h with
  | move u fr fr' rest m h hm =>
    obtain ⟨rfl, hlt⟩ := hlen _ _ _ hgrows
    rw [h] at hlt
    exact absurd hlt (Nat.lt_irrefl _)
  | deliver u fr rest n sleeps i later h hp hi =>
    obtain ⟨rfl, -⟩ := hlen _ _ _ hgrows
    obtain ⟨-, hstacked⟩ := hs.of_cons h
    cases hstacked with
    | alone _ hsound hstart hflag =>
      rw [hflag, Frame.flag, hp]
    | handling _ _ hsound hoff =>
      have hflag := Frame.flag_of_start hsound hoff
      rw [Frame.flag, hp] at hflag
      cases hflag
  | interrupt u fr rest h hon =>
    obtain ⟨rfl, -⟩ := hlen _ _ _ hgrows
    exact hon
  | finish u fr below rest h hp hg =>
    obtain ⟨rfl, hlt⟩ := hlen _ _ _ hgrows
    rw [h, List.length_cons] at hlt
    exact absurd hlt (Nat.not_lt.2 (Nat.le_succ _))
  | defer | work => exact absurd hgrows (Nat.lt_irrefl _)

theorem Masked.disciplined (h : s.Masked first) (hg : s.Guarded) (t : TaskId) :
    s.Disciplined t (first t) := by
  have halone : ∀ fr, s.frames t = [fr] →
      fr.Sound ∧ fr.start = first t ∧ s.machine.enabled t = fr.flag := fun fr ht => by
    obtain ⟨-, hstacked⟩ := h.of_cons ht
    cases hstacked with
    | alone _ hs hstart hflag => exact ⟨hs, hstart, hflag⟩
  have hhandling : ∀ fr below, s.frames t = fr :: below → below ≠ [] →
      s.machine.enabled t = false ∧ fr.start = false ∧ below.flatMap Frame.held = [] :=
    fun fr below ht hne => by
      obtain ⟨-, hstacked⟩ := h.of_cons ht
      cases hstacked with
      | alone => exact absurd rfl hne
      | handling _ own hh hoff hs hstart hflag henabled =>
        refine ⟨henabled, hoff, ?_⟩
        rw [List.flatMap_singleton, Frame.held, Frame.guards_of_flag hflag hs]
        rfl
  refine ⟨fun hne => ?_, fun s' hstep hgrows => ?_, fun fr below ht hne => ?_,
    fun fr below i saved ht hne _ hlocked => ?_, fun fr below ht hp => ?_, fun fr ht hp hnil => ?_,
    fun fr i saved ht hone => ?_, fun fr i ht hp => ?_⟩
  · exact Bool.eq_false_iff.2 fun ht => hne (h.held_eq_nil ht)
  · exact h.held_eq_nil (hstep.enabled_of_grows h hgrows)
  · obtain ⟨henabled, -, hnone⟩ := hhandling fr below ht hne
    exact ⟨henabled, List.flatMap_eq_nil_iff.1 hnone⟩
  · obtain ⟨u, hu⟩ := hg.holder i hlocked
    by_cases hut : u = t
    · rw [hut, held, ht, List.flatMap_cons, (hhandling fr below ht hne).2.2, List.append_nil] at hu
      exact .inl hu
    · exact .inr ⟨u, hut, hu⟩
  · by_cases hne : below = []
    · rw [hne] at ht
      rw [(halone fr ht).2.2, Frame.flag, hp]
      rfl
    · obtain ⟨henabled, hoff, -⟩ := hhandling fr below ht hne
      rw [henabled, hoff, Bool.and_false]
  · obtain ⟨-, hstart, hflag⟩ := halone fr ht
    rw [hflag, Frame.flag, hp, ← hstart, Frame.idle, hnil]
    rfl
  · obtain ⟨hs, hstart, -⟩ := halone fr ht
    have hchained := hs.chained
    rw [hone] at hchained
    exact hchained.1.trans hstart
  · obtain ⟨hs, hstart, hflag⟩ := halone fr ht
    have hnil : fr.guards = [] := by
      have hfits := hs.fits
      rw [Frame.Fits, hp] at hfits
      exact hfits
    refine ⟨?_, hnil⟩
    rw [hflag, Frame.flag, hp, ← hstart, Frame.idle, hnil]
    rfl

theorem keeps_of_steps (h : s.Masked first ∧ s.Guarded) (run : Relation.ReflTransGen Step s s') :
    s'.Masked first ∧ s'.Guarded := by
  induction run with
  | refl => exact h
  | tail _ step ih => exact ⟨step.masked ih.1, step.guarded ih.2⟩

end Cores

end DiskStack
