import DiskStack.Proofs.Scene
import DiskStack.Proofs.View

/-!
# Who waits for what

A task that waits is registered on the channel of the node that it will try again. A wait queue agrees
with the tasks if each task is registered at most once, only while it parks or sleeps at such a node,
and if a task that sleeps is either registered or has been woken since. Waking a channel keeps that,
and so does a task that registers or goes to sleep.
-/

namespace DiskStack

def Activity.isAsleep : Activity → Bool
  | .asleep _ => true
  | _ => false

def Activity.waits : Activity → Bool
  | .parking _ | .asleep _ => true
  | _ => false

/-- The channel on which a task waits at a node, by the keys of the drive and of its scratch block. -/
def Program.channel? {α : Type} (key scratchKey : Nat) : Program α → Option Channel
  | .publish .. => some (.descriptors key)
  | .complete _ _ ticket _ => some (.completion key ticket)
  | .takeScratch .. => some (.lock scratchKey)
  | _ => none

/-- Takes a task out of the queue. -/
def WaitQueue.withdraw (q : WaitQueue) (t : TaskId) : WaitQueue := ⟨q.waiters.filter fun w => w.1 != t⟩

namespace WaitQueue

variable {q : WaitQueue} {t u : TaskId} {c d : Channel}

theorem mem_register_iff : (u, d) ∈ (q.register t c).waiters ↔ (u, d) ∈ q.waiters ∨ u = t ∧ d = c := by
  simp [register]

theorem mem_wake_iff : (u, d) ∈ (q.wake c).waiters ↔ (u, d) ∈ q.waiters ∧ d ≠ c := by
  simp [wake]

theorem mem_withdraw_iff : (u, d) ∈ (q.withdraw t).waiters ↔ (u, d) ∈ q.waiters ∧ u ≠ t := by
  simp [withdraw]

theorem waitersOf_withdraw (h : (t, c) ∉ q.waiters) : (q.withdraw t).waitersOf c = q.waitersOf c := by
  rw [waitersOf, waitersOf, withdraw, List.filter_filter]
  congr 1
  refine List.filter_congr fun w hw => ?_
  by_cases hc : w.2 = c
  · have hne : w.1 ≠ t := fun ht => h (by rwa [← hc, ← ht])
    simp [hc, hne]
  · simp [hc]

theorem mem_waitersOf_iff : u ∈ q.waitersOf c ↔ (u, c) ∈ q.waiters := by
  simp [waitersOf]

theorem isRegistered_iff : q.isRegistered t = true ↔ ∃ c, (t, c) ∈ q.waiters := by
  simp [isRegistered]

/-- The queue and the woken tasks fit what the tasks are doing. -/
structure Agrees (q : WaitQueue) (key scratchKey : Nat) (woken : List TaskId)
    (activity : TaskId → Activity) : Prop where
  once : (q.waiters.map Prod.fst).Nodup
  registered : ∀ t c, (t, c) ∈ q.waiters → ∃ p,
    (activity t = .parking p ∨ activity t = .asleep p) ∧ p.channel? key scratchKey = some c
  asleep : ∀ t p, activity t = .asleep p → t ∈ woken ∨ ∃ c, (t, c) ∈ q.waiters
  roused : ∀ t ∈ woken, (activity t).isAsleep = true ∧ ∀ c, (t, c) ∉ q.waiters
  rousedOnce : woken.Nodup

variable {key scratchKey : Nat} {woken : List TaskId} {activity : TaskId → Activity}

theorem agrees_of_idle (hq : q.waiters = []) (idle : ∀ t, activity t = .idle) :
    q.Agrees key scratchKey [] activity where
  once := by rw [hq]; exact List.nodup_nil
  registered := fun t c h => by rw [hq] at h; cases h
  asleep := fun t p h => by rw [idle t] at h; cases h
  roused := fun t h => by cases h
  rousedOnce := List.nodup_nil

private theorem Agrees.channel_unique (h : q.Agrees key scratchKey woken activity) (hc : (t, c) ∈ q.waiters)
    (hd : (t, d) ∈ q.waiters) : c = d := by
  obtain ⟨p, hp, hc⟩ := h.registered t c hc
  obtain ⟨p', hp', hd⟩ := h.registered t d hd
  have hsame : p = p' := by
    rcases hp with hp | hp <;> rcases hp' with hp' | hp' <;> rw [hp] at hp' <;> cases hp' <;> rfl
  rw [hsame, hd] at hc
  exact (Option.some.inj hc).symm

theorem Agrees.not_mem (h : q.Agrees key scratchKey woken activity) (ht : (activity t).waits = false) :
    (∀ c, (t, c) ∉ q.waiters) ∧ t ∉ woken := by
  constructor
  · intro c hc
    obtain ⟨p, hp | hp, -⟩ := h.registered t c hc <;> rw [hp] at ht <;> cases ht
  · intro hw
    have hasleep := (h.roused t hw).1
    cases hact : activity t with
    | asleep p =>
      rw [hact] at ht
      cases ht
    | idle | running p | parking p =>
      rw [hact] at hasleep
      cases hasleep

theorem Agrees.register (h : q.Agrees key scratchKey woken activity) {p : Program Reply}
    (ha : activity t = .parking p) (hc : p.channel? key scratchKey = some c)
    (hnot : ∀ c, (t, c) ∉ q.waiters) (hwoken : t ∉ woken) :
    (q.register t c).Agrees key scratchKey woken activity where
  once := by
    rw [WaitQueue.register, List.map_append, List.nodup_append]
    refine ⟨h.once, by simp, ?_⟩
    intro u hu w hw huw
    obtain ⟨⟨u', d⟩, hmem, rfl⟩ := List.mem_map.1 hu
    rw [List.map_singleton, List.mem_singleton] at hw
    have hut : u' = t := huw.trans hw
    exact hnot d (hut ▸ hmem)
  registered := fun u d hu => by
    rcases mem_register_iff.1 hu with hu | ⟨rfl, rfl⟩
    · exact h.registered u d hu
    · exact ⟨p, .inl ha, hc⟩
  asleep := fun u p' hu =>
    (h.asleep u p' hu).imp_right fun ⟨d, hd⟩ => ⟨d, mem_register_iff.2 (.inl hd)⟩
  roused := fun u hu => by
    refine ⟨(h.roused u hu).1, fun d hd => ?_⟩
    rcases mem_register_iff.1 hd with hd | ⟨rfl, rfl⟩
    · exact (h.roused u hu).2 d hd
    · exact hwoken hu
  rousedOnce := h.rousedOnce

theorem Agrees.wake (h : q.Agrees key scratchKey woken activity) (c : Channel) {sleeps : TaskId → Bool}
    (hsleeps : ∀ t, sleeps t = (activity t).isAsleep) :
    (q.wake c).Agrees key scratchKey (woken ++ (q.waitersOf c).filter sleeps) activity where
  once := h.once.sublist (List.filter_sublist.map Prod.fst)
  registered := fun t d ht => h.registered t d (mem_wake_iff.1 ht).1
  asleep := fun t p ht => by
    rcases h.asleep t p ht with hw | ⟨d, hd⟩
    · exact .inl (List.mem_append_left _ hw)
    · by_cases hdc : d = c
      · refine .inl (List.mem_append_right _ (List.mem_filter.2 ⟨?_, ?_⟩))
        · exact mem_waitersOf_iff.2 (hdc ▸ hd)
        · rw [hsleeps, ht]
          rfl
      · exact .inr ⟨d, mem_wake_iff.2 ⟨hd, hdc⟩⟩
  roused := fun t ht => by
    rcases List.mem_append.1 ht with hw | hw
    · exact ⟨(h.roused t hw).1, fun d hd => (h.roused t hw).2 d (mem_wake_iff.1 hd).1⟩
    · obtain ⟨hc, hasleep⟩ := List.mem_filter.1 hw
      rw [hsleeps] at hasleep
      refine ⟨hasleep, fun d hd => ?_⟩
      obtain ⟨hd, hne⟩ := mem_wake_iff.1 hd
      exact hne (h.channel_unique hd (mem_waitersOf_iff.1 hc))
  rousedOnce := by
    refine List.nodup_append.2 ⟨h.rousedOnce, ?_, ?_⟩
    · exact ((h.once.sublist (List.filter_sublist.map Prod.fst)).sublist List.filter_sublist)
    · intro t ht u hu htu
      exact (h.roused t ht).2 c (mem_waitersOf_iff.1 (htu ▸ (List.mem_filter.1 hu).1))

theorem Agrees.act (h : q.Agrees key scratchKey woken activity) (hnot : ∀ c, (t, c) ∉ q.waiters)
    (hwoken : t ∉ woken) {a : Activity} (ha : a.isAsleep = false) :
    q.Agrees key scratchKey woken fun u => if u = t then a else activity u where
  once := h.once
  registered := fun u c hu => by
    obtain ⟨p, hp, hc⟩ := h.registered u c hu
    have hne : u ≠ t := fun hut => hnot c (hut ▸ hu)
    exact ⟨p, by rw [if_neg hne]; exact hp, hc⟩
  asleep := fun u p hu => by
    by_cases hut : u = t
    · rw [if_pos hut] at hu
      rw [hu] at ha
      cases ha
    · rw [if_neg hut] at hu
      exact h.asleep u p hu
  roused := fun u hu => by
    have hne : u ≠ t := fun hut => hwoken (hut ▸ hu)
    rw [if_neg hne]
    exact h.roused u hu
  rousedOnce := h.rousedOnce

theorem Agrees.sleep (h : q.Agrees key scratchKey woken activity) {p : Program Reply}
    (ha : activity t = .parking p) (hreg : ∃ c, (t, c) ∈ q.waiters) :
    q.Agrees key scratchKey woken fun u => if u = t then .asleep p else activity u where
  once := h.once
  registered := fun u c hu => by
    obtain ⟨p', hp, hc⟩ := h.registered u c hu
    by_cases hut : u = t
    · subst hut
      rw [ha] at hp
      rcases hp with hp | hp <;> cases hp
      exact ⟨p, by rw [if_pos rfl]; exact .inr rfl, hc⟩
    · exact ⟨p', by rw [if_neg hut]; exact hp, hc⟩
  asleep := fun u p' hu => by
    by_cases hut : u = t
    · exact .inr (hut ▸ hreg)
    · rw [if_neg hut] at hu
      exact h.asleep u p' hu
  roused := fun u hu => by
    have hne : u ≠ t := fun hut => by
      have hasleep := (h.roused u hu).1
      rw [hut, ha] at hasleep
      cases hasleep
    rw [if_neg hne]
    exact h.roused u hu
  rousedOnce := h.rousedOnce

theorem Agrees.rouse (h : q.Agrees key scratchKey woken activity) (t : TaskId) (p : Program Reply) :
    (q.withdraw t).Agrees key scratchKey (woken.erase t)
      fun u => if u = t then .running p else activity u where
  once := h.once.sublist (List.filter_sublist.map Prod.fst)
  registered := fun u c hu => by
    obtain ⟨hu, hne⟩ := mem_withdraw_iff.1 hu
    obtain ⟨p', hp, hc⟩ := h.registered u c hu
    exact ⟨p', by rw [if_neg hne]; exact hp, hc⟩
  asleep := fun u p' hu => by
    by_cases hut : u = t
    · rw [if_pos hut] at hu
      cases hu
    · rw [if_neg hut] at hu
      rcases h.asleep u p' hu with hw | ⟨c, hc⟩
      · exact .inl ((List.mem_erase_of_ne hut).2 hw)
      · exact .inr ⟨c, mem_withdraw_iff.2 ⟨hc, hut⟩⟩
  roused := fun u hu => by
    obtain ⟨hne, hw⟩ := h.rousedOnce.mem_erase_iff.1 hu
    rw [if_neg hne]
    exact ⟨(h.roused u hw).1, fun c hc => (h.roused u hw).2 c (mem_withdraw_iff.1 hc).1⟩
  rousedOnce := h.rousedOnce.erase t

end WaitQueue

namespace View

/-- Whether a task cannot go past a node. -/
def Blocks {α : Type} (v : View) : Program α → Prop
  | .publish .. => ∃ s, v.state = .ready s ∧ s.rings.queue.pool.numFree < 3
  | .complete _ id _ _ => v.requests.isPending id = true
  | .takeScratch .. => v.scratch.held = true
  | _ => False

/-- Every registered task is at a node that it cannot go past, but for those on the channels given. -/
def Stuck (v : View) (q : WaitQueue) (woken : List Channel) : Prop :=
  ∀ t c p, (t, c) ∈ q.waiters → c ∉ woken → (v.activity t).program? = some p → v.Blocks p

variable {v v' : View} {q : WaitQueue} {c : Channel} {l : List Channel} {t : TaskId}

theorem stuck_of_nil (h : q.waiters = []) : v.Stuck q l := fun t c p hc => by rw [h] at hc; cases hc

theorem Stuck.wake (h : v.Stuck q (c :: l)) : v.Stuck (q.wake c) l := by
  intro t d p hd hl hp
  obtain ⟨hd, hne⟩ := WaitQueue.mem_wake_iff.1 hd
  refine h t d p hd (fun hmem => ?_) hp
  rcases List.mem_cons.1 hmem with hdc | hmem
  · exact hne hdc
  · exact hl hmem

theorem Stuck.register (h : v.Stuck q l) {p : Program Reply} (hp : (v.activity t).program? = some p)
    (hb : v.Blocks p) : v.Stuck (q.register t c) l := by
  intro u d p' hd hl hp'
  rcases WaitQueue.mem_register_iff.1 hd with hd | ⟨rfl, rfl⟩
  · exact h u d p' hd hl hp'
  · rw [hp] at hp'
    cases hp'
    exact hb

theorem Stuck.mono (h : v.Stuck q l) {l' : List Channel}
    (hv : ∀ t c p, (t, c) ∈ q.waiters → c ∉ l' → (v'.activity t).program? = some p →
      c ∉ l ∧ (v.activity t).program? = some p ∧ (v.Blocks p → v'.Blocks p)) : v'.Stuck q l' := by
  intro t c p hc hl hp
  obtain ⟨hc', hp', hb⟩ := hv t c p hc hl hp
  exact hb (h t c p hc hc' hp')

theorem Stuck.act (h : v.Stuck q l) (hnot : ∀ c, (t, c) ∉ q.waiters) (a : Activity) :
    (v.act t a).Stuck q l := by
  intro u c p hc hl hp
  have hne : u ≠ t := fun hut => hnot c (hut ▸ hc)
  simp only [View.act, if_neg hne] at hp
  exact h u c p hc hl hp

end View

end DiskStack
