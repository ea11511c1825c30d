import DiskStack.Drive.State
import DiskStack.Transport.Dialogue

/-!
# Handshake

Bringing a controller up is a fixed dialogue: check who it is, agree on features, hand over the
queue regions, and read its capacity. The first check that fails ends it; every command given up to
then has been told.
-/

namespace DiskStack

abbrev Negotiation := ExceptT InitError Dialogue

namespace Negotiation

def ask (q : Query) : Negotiation UInt32 := ExceptT.lift (Dialogue.query q)

def tell (c : Command) : Negotiation Unit := ExceptT.lift (Dialogue.command c)

def checkIdentity (register : String) (q : Query) (expected : UInt32) : Negotiation Unit := do
  let found ← ask q
  if expected ≠ found then throw (.identityMismatch register expected found)

/-- Offers the accepted features and requires the controller to agree. -/
def agreeOnFeatures : Negotiation (Features × Bool) := do
  let status := DeviceStatus.acknowledge ||| DeviceStatus.driver
  let offered ← ask .deviceFeatures
  let features := Features.negotiate offered
  tell (.setDriverFeatures features)
  let status := status ||| DeviceStatus.featuresOk
  tell (.setStatus status)
  let answer := (← ask .status).toUInt8
  if answer &&& DeviceStatus.featuresOk = 0 then
    tell (.setStatus (status ||| DeviceStatus.failed))
    throw .featuresRejected
  return (features, offered &&& Features.readOnly != 0)

def selectQueue (size : UInt16) : Negotiation Unit := do
  tell (.selectQueue 0)
  if (← ask .queueReady) ≠ 0 then throw .queueAlreadyLive
  let max ← ask .queueMaxSize
  if max = 0 then throw .queueUnavailable
  if max < size.toUInt32 then throw (.queueTooShort max size)

def setUpQueue (size : UInt16) (rings : Rings) : Negotiation Unit := do
  tell (.setQueueSize size)
  tell (.setDescriptorAddress rings.queue.pool.table.base)
  tell (.setAvailAddress rings.queue.avail.region.base)
  tell (.setUsedAddress rings.queue.used.region.base)
  tell .enableQueue

end Negotiation

open Negotiation in
def handshake (queueSize : UInt16) (arena : Arena) : Negotiation (ReadyState × Arena) := do
  checkIdentity "magic" .magic Identity.magic
  checkIdentity "version" .version Identity.version
  checkIdentity "device id" .deviceId Identity.blockDevice
  checkIdentity "vendor id" .vendorId Identity.vendor
  tell (.setStatus 0)
  tell (.setStatus DeviceStatus.acknowledge)
  tell (.setStatus (DeviceStatus.acknowledge ||| DeviceStatus.driver))
  let (features, readOnly) ← agreeOnFeatures
  selectQueue queueSize
  let (rings, arena) ← liftExcept (Rings.ofSize queueSize arena)
  setUpQueue queueSize rings
  tell (.setStatus (DeviceStatus.acknowledge ||| DeviceStatus.driver ||| DeviceStatus.featuresOk |||
    DeviceStatus.driverOk))
  let capacity ← ExceptT.lift (Dialogue.config64 0)
  return (⟨rings, features, readOnly, capacity, 0⟩, arena)
where
  liftExcept {α : Type} (e : Except InitError α) : Negotiation α :=
    match e with
    | .ok a => pure a
    | .error e => throw e

end DiskStack
