import DiskStack.Transport.Register

/-!
# Register dialogues

What a driver says to a controller is a finite dialogue of queries, each followed by an answer, and
commands. A dialogue is data, so that the commands it gives can be told for every way a controller
may answer; `run` holds it with a given controller.
-/

namespace DiskStack

inductive Query
  | magic
  | version
  | deviceId
  | vendorId
  | status
  | deviceFeatures
  | queueMaxSize
  | queueReady
  | interruptStatus
  | config (offset : Nat)
  deriving DecidableEq, Repr

inductive Command
  | setStatus (status : UInt8)
  | setDriverFeatures (features : UInt32)
  | selectQueue (queue : UInt16)
  | setQueueSize (size : UInt16)
  | setDescriptorAddress (address : UInt64)
  | setAvailAddress (address : UInt64)
  | setUsedAddress (address : UInt64)
  | enableQueue
  | notifyQueue (queue : UInt16)
  | ackInterrupt (causes : UInt32)
  deriving DecidableEq, Repr

inductive Dialogue (α : Type)
  | done (a : α)
  | ask (q : Query) (next : UInt32 → Dialogue α)
  | tell (c : Command) (next : Dialogue α)

namespace Dialogue

variable {α β : Type}

def bind : Dialogue α → (α → Dialogue β) → Dialogue β
  | .done a, f => f a
  | .ask q next, f => .ask q fun answer => (next answer).bind f
  | .tell c next, f => .tell c (next.bind f)

instance : Monad Dialogue where
  pure := .done
  bind := Dialogue.bind

def query (q : Query) : Dialogue UInt32 := .ask q .done

def command (c : Command) : Dialogue Unit := .tell c (.done ())

/-- A 64-bit field of the configuration space, read as its low and then its high word. -/
def config64 (offset : Nat) : Dialogue UInt64 := do
  let low ← query (.config offset)
  let high ← query (.config (offset + 4))
  return low.toUInt64 ||| (high.toUInt64 <<< 32)

/-- Holds a dialogue in a monad that answers queries and takes commands. -/
def run {m : Type → Type} [Monad m] (ask : Query → m UInt32) (tell : Command → m Unit) :
    Dialogue α → m α
  | .done a => pure a
  | .ask q next => do run ask tell (next (← ask q))
  | .tell c next => do
    tell c
    run ask tell next

theorem run_bind {m : Type → Type} [Monad m] [LawfulMonad m] (ask : Query → m UInt32)
    (tell : Command → m Unit) (d : Dialogue α) (f : α → Dialogue β) :
    (d.bind f).run ask tell = d.run ask tell >>= fun a => (f a).run ask tell := by
  induction d with
  | done a => simp [bind, run]
  | ask q next ih => simp [bind, run, ih]
  | tell c next ih => simp [bind, run, ih]

end Dialogue

end DiskStack
