/-!
# Wait channels

A task that cannot go on waits on a channel that names the reason: free descriptors of a drive, the
completion of one request, or the release of a lock. Waking a channel releases all who registered
on it, in the order in which they did.
-/

namespace DiskStack

/-- Names a task; zero is the control task. -/
abbrev TaskId := Nat

inductive Channel
  | descriptors (drive : Nat)
  | completion (drive : Nat) (ticket : UInt64)
  | lock (key : Nat)
  deriving DecidableEq, Repr

def Channel.render : Channel → String
  | .descriptors drive => s!"free({drive})"
  | .completion drive ticket => s!"done({drive},{ticket})"
  | .lock key => s!"lock({key})"

/-- The registered waiters, oldest first. -/
structure WaitQueue where
  waiters : List (TaskId × Channel) := []
  deriving Repr

namespace WaitQueue

def register (q : WaitQueue) (t : TaskId) (c : Channel) : WaitQueue := ⟨q.waiters ++ [(t, c)]⟩

def isRegistered (q : WaitQueue) (t : TaskId) : Bool := q.waiters.any fun w => w.1 == t

def waitersOf (q : WaitQueue) (c : Channel) : List TaskId :=
  (q.waiters.filter fun w => w.2 == c).map Prod.fst

def wake (q : WaitQueue) (c : Channel) : WaitQueue := ⟨q.waiters.filter fun w => w.2 != c⟩

theorem waitersOf_register (q : WaitQueue) (t : TaskId) (c d : Channel) :
    (q.register t c).waitersOf d = q.waitersOf d ++ (if c = d then [t] else []) := by
  by_cases h : c = d <;> simp [register, waitersOf, h]

theorem waitersOf_wake (q : WaitQueue) (c d : Channel) :
    (q.wake c).waitersOf d = if c = d then [] else q.waitersOf d := by
  by_cases h : c = d
  · subst h
    simp [wake, waitersOf, List.filter_filter]
  · rw [if_neg h, waitersOf, waitersOf, wake, List.filter_filter]
    congr 1
    apply List.filter_congr
    intro w _
    by_cases hw : w.2 = d
    · simp [hw, Ne.symm h]
    · simp [hw]

end WaitQueue

end DiskStack
