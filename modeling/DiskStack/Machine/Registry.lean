import DiskStack.Machine.Advance

/-!
# Drive registry

Drives are registered under numbers; registering a number again replaces its drive, but calls in
progress keep the old one. Bringing a drive up happens once: whatever its outcome, a second attempt
is refused. A filesystem's initialisation of a drive that cannot be brought up halts the machine.
-/

namespace DiskStack

structure Registration where
  number : UInt8
  config : DriveConfig
  controller : Controller

namespace Run

/-- Registers a drive; the answer is the number of registered drives. A scratch block of the
configured size has to be possible, whether or not the configuration is valid. -/
def register (r : Registration) : Run Nat := do
  let _ ← ofChecked (Checked.capacity r.config.blockSize)
  let m ← get
  let drive := Drive.ofConfig r.config m.nextKey (m.nextKey + 1)
  let others := m.registry.filter fun e => e.1 != r.number
  let registry := (r.number, m.bays.size) :: others
  set { m with
    nextKey := m.nextKey + 2
    bays := m.bays.push ⟨r.number, drive, r.controller⟩
    registry }
  return registry.length

def logNegotiation (config : DriveConfig) (state : DriveState) :
    Except InitError Unit → Run Unit
  | .ok () =>
    log .info driveSource
      (s!"virtio-blk: ready, {state.capacity} sectors, queue {config.queueSize}, features " ++
        hexText state.features.toNat)
  | .error e => log .error driveSource ("virtio-blk: initialization failed: " ++ e.message)

def bringUp (b : BayId) : Run (Except InitError Unit) := do
  let saved ← mask controlTask
  let m ← get
  let drive := (m.bay b).drive
  if drive.canNegotiate ∧ !m.interruptControl then
    log .warn driveSource ("virtio-blk: no interrupt control installed, " ++
      "completions must not arrive on a submitting core")
  let (result, state, arena) ← (drive.bringUp m.arena).run (ask b) (command b)
  modify fun m => { m.mapDrive b fun d => { d with state } with arena }
  if drive.canNegotiate then logNegotiation drive.config state result
  restore controlTask saved
  return result

/-- The status of a drive number. Media are protected if the build or the drive says so. -/
def status (number : UInt8) : Run DiskStatus := do
  match (← get).bayOf? number with
  | none => return DiskStatus.noInit ||| DiskStatus.noDisk
  | some b =>
    let state ← inspect controlTask b
    if !state.isReady then return DiskStatus.noInit
    if (← get).build.readOnly then return DiskStatus.protect
    let state ← inspect controlTask b
    return if state.isReadOnly then DiskStatus.protect else 0

/-- Initialises a drive number; a drive that is ready already is only told to be so. -/
def initializeDrive (number : UInt8) : Run DiskStatus := do
  match (← get).bayOf? number with
  | none => return DiskStatus.noInit ||| DiskStatus.noDisk
  | some b =>
    let state ← inspect controlTask b
    if state.isReady then return 0
    match ← bringUp b with
    | .ok () => status number
    | .error e =>
      log .error registrySource
        (s!"disk {number}: virtio disk initialization failed: " ++ e.message)
      throw (.driveUnusable number e)

/-- What a drive tells about itself: state, capacity, features, protection and free descriptors are
each looked up on their own. -/
def info (b : BayId) : Run DriveInfo := do
  for _ in List.range 4 do
    let _ ← inspect controlTask b
  let state ← inspect controlTask b
  let drive := ((← get).bay b).drive
  return ⟨state, drive.config, drive.stats⟩

end Run

end DiskStack
