/-!
# Refusals

A request can be refused at three levels: bringing a controller up, transferring one native block,
and serving a filesystem's disk operation. Each level has its own causes, wording and, for disk
operations, result codes.
-/

namespace DiskStack

def hexText (n : Nat) : String := "0x" ++ String.ofList (Nat.toDigits 16 n)

inductive InitError
  | identityMismatch (register : String) (expected found : UInt32)
  | featuresRejected
  | queueAlreadyLive
  | queueUnavailable
  | queueTooShort (max : UInt32) (needed : UInt16)
  | outOfMemory
  | invalidConfig
  | invalidState
  deriving DecidableEq, Repr

def InitError.message : InitError → String
  | .identityMismatch register expected found =>
      register ++ " mismatch: expected " ++ hexText expected.toNat ++ ", found " ++
        hexText found.toNat
  | .featuresRejected => "FEATURES_OK unset"
  | .queueAlreadyLive => "queue 0 should not be ready"
  | .queueUnavailable => "no queue 0"
  | .queueTooShort max needed => s!"max queue too short ({max} < {needed})"
  | .outOfMemory => "ring allocation failed"
  | .invalidConfig => "invalid drive configuration"
  | .invalidState => "device not in an initializable state"

inductive BlockError
  | notReady
  | invalidBlock
  | invalidBufferSize
  | ioError
  deriving DecidableEq, Repr

def BlockError.message : BlockError → String
  | .notReady => "device not ready"
  | .invalidBlock => "block beyond device capacity"
  | .invalidBufferSize => "invalid buffer size"
  | .ioError => "I/O error"

inductive DiskError
  | failed
  | writeProtected
  | notReady
  | parameter
  deriving DecidableEq, Repr

def DiskError.message : DiskError → String
  | .failed => "disk I/O error"
  | .writeProtected => "write protected"
  | .notReady => "drive not ready"
  | .parameter => "invalid parameter"

def DiskError.code : DiskError → UInt8
  | .failed => 1
  | .writeProtected => 2
  | .notReady => 3
  | .parameter => 4

/-- The filesystem's result code of a disk operation; success is zero. -/
def resultCode : Except DiskError Unit → UInt8
  | .ok () => 0
  | .error e => e.code

/-- A block refusal as the filesystem sees it: only a wrong buffer is the caller's fault. -/
def BlockError.toDiskError : BlockError → DiskError
  | .invalidBufferSize => .parameter
  | .notReady | .invalidBlock | .ioError => .failed

end DiskStack
