import DiskStack.Controller.Basic
import DiskStack.Drive.Basic
import DiskStack.Registry.Access

/-!
# Replies

What a step of a script is answered, and what a call of a task returns.
-/

namespace DiskStack

inductive TaskPhase
  | idle
  | asleep
  /-- Woken up, and not yet run. -/
  | woken
  deriving DecidableEq, Repr

def TaskPhase.render : TaskPhase → String
  | .idle => "idle"
  | .asleep => "asleep"
  | .woken => "woken"

/-- What a drive tells about itself. -/
structure DriveInfo where
  state : DriveState
  config : DriveConfig
  stats : DriveStats

/-- The queue memory of a drive as its controller finds it. -/
structure RingsView where
  descriptors : List Descriptor
  availFlags : UInt16
  availIndex : UInt16
  availRing : List UInt16
  usedFlags : UInt16
  usedIndex : UInt16
  usedRing : List UsedElement

inductive Reply
  | nothing
  /-- The task is still in an earlier call. -/
  | busy
  | blocked
  /-- The build has no such operation. -/
  | absent
  /-- The lock is held, and waiting for it would never end. -/
  | wouldSpin
  | flag (b : Bool)
  | number (n : Nat)
  | count (n : Nat)
  | bytes (b : Bytes)
  | initialized (r : Except InitError Unit)
  | control (r : Except DiskError UInt32)
  | disk (r : Except DiskError Unit)
  | diskBuffer (o : DiskOutcome)
  | block (r : SubmitReply)
  | sectors (o : SectorOutcome)
  | info (i : DriveInfo)
  | reports (r : List ChainReport)
  | rings (r : RingsView)
  | tasks (t : List (String × TaskPhase))
  | lockInfo (name : String) (locked held : Bool)
  | core (enabled : Bool) (pending deferred : Nat)

def Reply.optional : Option UInt64 → Reply
  | some v => .number v.toNat
  | none => .nothing

end DiskStack
