import DiskStack.Proofs.Exclusion

/-!
# Nobody waits for a free lock

A task that finds a lock held registers on the lock's channel before it lets go of the lock's short lock,
and sleeps only later; whoever drops the guard frees the lock and wakes the channel under the same short
lock. Each step of a run is one such stretch, so between two steps the short lock is free. At any of these
moments the lock is held if anyone is registered on its channel, and a task that was woken before it went to
sleep does not sleep.
-/

namespace DiskStack

namespace LockScene

/-- Nobody is left to wait for a lock that is free. -/
structure NoStuckWaiter (s : LockScene) (lock : Nat) : Prop where
  held : ∀ t, (t, (s.machine.lockAt lock).channel) ∈ s.machine.waiting.waiters →
    (s.machine.lockAt lock).held = true
  /-- A task that sleeps at the lock's node and has not been woken waits for a live guard. -/
  asleep : ∀ t p, (s.machine.task t).activity = .asleep p → p.takes lock = true →
    t ∉ s.machine.runnable → (s.machine.lockAt lock).held = true
  /-- Dropping the guard leaves nobody registered, and all who sleep are to run. -/
  released : ∀ t, Run.Leads (Run.unlock t lock) s.machine fun _ m =>
    (m.lockAt lock).held = false ∧
      (∀ u, (u, (m.lockAt lock).channel) ∉ m.waiting.waiters) ∧
      ∀ u p, (m.task u).activity = .asleep p → p.takes lock = true → u ∈ m.runnable
  /-- A step that leaves a task registered has found the lock held, and leaves it to its holder. -/
  again : ∀ t, Run.Leads (Run.advance t) s.machine fun _ m =>
    (t, (m.lockAt lock).channel) ∈ m.waiting.waiters →
      ∃ u ∈ s.guards, (m.lockAt lock).isHeldBy u = true ∧ m.lockAt lock = s.machine.lockAt lock
  /-- A task that has been woken since it registered does not sleep. -/
  woken : ∀ t p, (s.machine.task t).activity = .parking p → p.takes lock = true →
    (t, (s.machine.lockAt lock).channel) ∉ s.machine.waiting.waiters →
    (Run.advance t).run.run s.machine =
      (.ok (), (s.machine.emit (.noSleep t)).setActivity t (.running p))

end LockScene

namespace Machine

variable {lock : Nat} {m m' : Machine} {t : TaskId} {p : Program Reply}

private theorem Awaits.held_of_asleep (h : m.Awaits lock) (ht : (m.task t).activity = .asleep p)
    (hp : p.takes lock = true) (hnot : t ∉ m.runnable) : (m.lockAt lock).held = true :=
  h.held t (h.asleep t p ht hp hnot)

/-- A step after which its task is registered on the lock's channel has left the lock alone. -/
private theorem Advances.lockAt_of_registered (h : m.Advances lock t m')
    (ht : (t, (m'.lockAt lock).channel) ∈ m'.waiting.waiters) : m'.lockAt lock = m.lockAt lock := by
  refine h.passed (Bool.eq_false_iff.2 fun htook => h.awaits.not_registered ?_ _ ht)
  rw [tookLock] at htook
  split at htook
  · next _ hafter => rw [hafter]; rfl
  · cases htook

private theorem Awaits.not_isRegistered (h : m.Awaits lock) (ht : (m.task t).activity = .parking p)
    (hp : p.takes lock = true) (hnot : (t, (m.lockAt lock).channel) ∉ m.waiting.waiters) :
    m.waiting.isRegistered t = false := by
  refine Bool.eq_false_iff.2 fun hreg => ?_
  obtain ⟨c, hc⟩ := WaitQueue.isRegistered_iff.1 hreg
  obtain ⟨p', hp' | hp', hiff⟩ := h.registered t c hc <;> rw [ht] at hp' <;> cases hp'
  exact hnot (hiff.2 hp ▸ hc)

end Machine

namespace Run

variable {lock : Nat} {m : Machine} {t : TaskId} {p : Program Reply}

private theorem leads_unlock_of_awaits (hm : m.Awaits lock) (t : TaskId) :
    Leads (unlock t lock) m fun _ m' => (m'.lockAt lock).held = false ∧
      (∀ u, (u, (m'.lockAt lock).channel) ∉ m'.waiting.waiters) ∧
      ∀ u p, (m'.task u).activity = .asleep p → p.takes lock = true → u ∈ m'.runnable := by
  refine (leads_unlock hm.sole).mono fun _ m' h => ?_
  have hlock : m'.lockAt lock = (m.lockAt lock).release :=
    h.same.trans ((Machine.lockAt_putLock hm.sole.present _ lock).trans (if_pos rfl))
  have hfree : (m'.lockAt lock).held = false := by rw [hlock]; rfl
  have hnobody : ∀ u, (u, (m'.lockAt lock).channel) ∉ m'.waiting.waiters := fun u hu => by
    rw [(hm.release.aside h).held u hu] at hfree
    cases hfree
  refine ⟨hfree, hnobody, fun u p hu hp => ?_⟩
  by_cases hw : u ∈ m'.runnable
  · exact hw
  · exact absurd ((hm.release.aside h).asleep u p hu hp hw) (hnobody u)

private theorem run_advance_of_woken (ht : (m.task t).activity = .parking p)
    (hnot : m.waiting.isRegistered t = false) :
    (advance t).run.run m = (.ok (), (m.emit (.noSleep t)).setActivity t (.running p)) := by
  have h : Ends (advance t) m fun r m' =>
      r = .ok () ∧ m' = (m.emit (.noSleep t)).setActivity t (.running p) := by
    have hsettle : Ends (settle t p) m fun r m' =>
        r = .ok (.running p) ∧ m' = m.emit (.noSleep t) := by
      apply ends_get
      rw [hnot]
      exact ⟨rfl, rfl⟩
    apply ends_get
    rw [ht]
    refine ends_bind (hsettle.mono ?_)
    rintro r m' ⟨rfl, rfl⟩
    exact ⟨rfl, rfl⟩
  exact Prod.ext h.1 h.2

end Run

namespace LockScene

variable {s s' : LockScene} {lock : Nat}

private theorem Owned.noStuckWaiter (h : s.Owned lock) (hw : s.machine.Awaits lock) :
    s.NoStuckWaiter lock where
  held := hw.held
  asleep := fun t p ht hp hnot => hw.held_of_asleep ht hp hnot
  released := Run.leads_unlock_of_awaits hw
  again := fun t => (Run.leads_advance hw t).mono fun _ m hadv ht => by
    have hsame := hadv.lockAt_of_registered ht
    have hheld : (s.machine.lockAt lock).held = true := hsame ▸ hadv.awaits.held t ht
    obtain ⟨u, rest, hguards⟩ := List.exists_cons_of_ne_nil (h.held_iff.1 hheld)
    refine ⟨u, by rw [hguards]; exact List.mem_cons_self, ?_, hsame⟩
    rw [hsame, SleepLock.isHeldBy_iff, h.owner, hguards]
    exact ⟨hheld, rfl⟩
  woken := fun t p ht hp hnot => Run.run_advance_of_woken ht (hw.not_isRegistered ht hp hnot)

/-- Whatever the tasks do with one lock and whatever goes on around them, nobody is left to wait for it
while it is free. -/
theorem noStuckWaiter_of_run (start : s.Fresh lock) (run : Relation.ReflTransGen (Step lock) s s') :
    s'.NoStuckWaiter lock := by
  obtain ⟨hw, ho⟩ := keeps_of_run start run
  exact ho.noStuckWaiter hw

/-- The first task drops its guard before the second one sleeps. -/
def contestedFree : LockScene :=
  { machine := ((Run.unlock 1 0).run.run contestedTwice.machine).2
    guards := contestedTwice.guards.erase 1
    left := (contestedTwice.machine.lockAt 0).value }

private theorem run_contestedFree : Relation.ReflTransGen (Step 0) contested contestedFree := by
  have hok : ((Run.unlock 1 0).run.run contestedTwice.machine).1 = .ok () := rfl
  exact run_contestedTwice.tail (.drop 1 1 _ (by decide +kernel) (Prod.ext hok rfl))

theorem noStuckWaiter_of_run_contested :
    contested.Fresh 0 ∧ Relation.ReflTransGen (Step 0) contested contestedFree ∧
      contestedTwice.machine.waiting.waiters = [(2, .lock 1)] ∧
      contestedFree.machine.waiting.waiters = [] ∧ contestedFree.left = 7 ∧
      contestedFree.NoStuckWaiter 0 :=
  ⟨fresh_contested, run_contestedFree, by decide +kernel, by decide +kernel, by decide +kernel,
    noStuckWaiter_of_run fresh_contested run_contestedFree⟩

end LockScene

end DiskStack
