import DiskStack.Drive.Handshake
import DiskStack.Sync.Lock

/-!
# Drives

A drive is a configured device with a scratch block of its own. Two channel keys belong to it: one
for the waits of its requests, one for the sleep lock on the scratch block.
-/

namespace DiskStack

structure Drive where
  config : DriveConfig
  key : Nat
  state : DriveState := .uninitialized
  stats : DriveStats := {}
  scratch : SleepLock Bytes

namespace Drive

/-- A drive whose controller has not been brought up. One without a valid configuration never
transfers, and so has no scratch block. -/
def ofConfig (config : DriveConfig) (key scratchKey : Nat) : Drive where
  config
  key
  scratch :=
    { name := "disk scratch"
      key := scratchKey
      value := List.replicate (if config.isValid then config.blockSize else 0) 0 }

/-- Where a request waits for three free descriptors. -/
def descriptorChannel (d : Drive) : Channel := .descriptors d.key

/-- Where the request of a ticket waits for its completion. -/
def completionChannel (d : Drive) (ticket : UInt64) : Channel := .completion d.key ticket

/-- Whether bringing the drive up gets as far as its controller. -/
def canNegotiate (d : Drive) : Bool :=
  match d.state with
  | .uninitialized => d.config.isValid
  | _ => false

/-- Brings the drive up, which can be tried once: the result, the new state and the arena. -/
def bringUp (d : Drive) (arena : Arena) :
    Dialogue (Except InitError Unit × DriveState × Arena) :=
  match d.state with
  | .uninitialized =>
    if d.config.isValid then do
      match ← (handshake d.config.queueSize arena).run with
      | .ok (s, arena) => return (.ok (), .ready s, arena)
      | .error e => return (.error e, .incompatible, arena)
    else .done (.error .invalidConfig, .incompatible, arena)
  | state => .done (.error .invalidState, state, arena)

end Drive

end DiskStack
