import DiskStack.Proofs.Handshake
import DiskStack.Proofs.Rest

/-!
# What a handshake tells a controller

A transport may answer each query as it likes, and go by all that has been said before. Whatever it
answers, bringing a drive up ends, and its commands are those of one script up to the check that
fails: none before the identity has been checked, none after a failed check but the one that reports
refused features, and the queue regions only to a controller that has room for them.
-/

namespace DiskStack

/-- What is said in a dialogue at one time: a query and its answer, or a command. -/
inductive Exchange
  | query (q : Query) (answer : UInt32)
  | command (c : Command)
  deriving DecidableEq, Repr

/-- What has been said so far, in order. -/
abbrev Transcript := List Exchange

namespace Transcript

def commands (l : Transcript) : List Command :=
  l.filterMap fun e => match e with
    | .command c => some c
    | .query .. => none

def queries (l : Transcript) : List Query :=
  l.filterMap fun e => match e with
    | .query q _ => some q
    | .command _ => none

/-- The first answer to a query, if it was asked. -/
def answer? (l : Transcript) (q : Query) : Option UInt32 :=
  l.findSome? fun e => match e with
    | .query q' answer => if q' = q then some answer else none
    | .command _ => none

/-- Whether the controller has shown the identity of a block controller. -/
def Identified (l : Transcript) : Prop :=
  l.answer? .magic = some Identity.magic ∧ l.answer? .version = some Identity.version ∧
    l.answer? .deviceId = some Identity.blockDevice ∧ l.answer? .vendorId = some Identity.vendor

/-- Whether the controller has taken the agreement on features back. -/
def Refused (l : Transcript) : Prop :=
  ∃ answer, l.answer? .status = some answer ∧ answer.toUInt8 &&& DeviceStatus.featuresOk = 0

/-- Whether the controller has a queue that is not live and has room for so many entries. -/
def HasRoom (l : Transcript) (size : UInt16) : Prop :=
  l.answer? .queueReady = some 0 ∧
    ∃ max, l.answer? .queueMaxSize = some max ∧ max ≠ 0 ∧ size.toUInt32 ≤ max

/-- The features that the controller has offered. -/
def offered (l : Transcript) : Features := (l.answer? .deviceFeatures).getD 0

/-- The capacity that the controller has told. -/
def capacity (l : Transcript) : UInt64 :=
  ((l.answer? (.config 0)).getD 0).toUInt64 ||| (((l.answer? (.config 4)).getD 0).toUInt64 <<< 32)

end Transcript

/-- The status of a driver that has agreed on features. -/
def DeviceStatus.agreed : DeviceStatus :=
  DeviceStatus.acknowledge ||| DeviceStatus.driver ||| DeviceStatus.featuresOk

/-- The commands of a handshake up to the one that selects the queue. -/
def handshakeOpening (features : Features) : List Command :=
  [.setStatus 0, .setStatus DeviceStatus.acknowledge,
    .setStatus (DeviceStatus.acknowledge ||| DeviceStatus.driver), .setDriverFeatures features,
    .setStatus DeviceStatus.agreed, .selectQueue 0]

/-- The commands of a handshake that comes to its end. -/
def handshakeScript (features : Features) (size : UInt16) (rings : Rings) : List Command :=
  handshakeOpening features ++ [.setQueueSize size,
    .setDescriptorAddress rings.queue.pool.table.base, .setAvailAddress rings.queue.avail.region.base,
    .setUsedAddress rings.queue.used.region.base, .enableQueue,
    .setStatus (DeviceStatus.agreed ||| DeviceStatus.driverOk)]

/-- The queries of a handshake that comes to its end, each of another register. -/
def handshakeQueries : List Query :=
  [.magic, .version, .deviceId, .vendorId, .deviceFeatures, .status, .queueReady, .queueMaxSize,
    .config 0, .config 4]

/-- Answers a query after what has been said. -/
abbrev Transport := Transcript → Query → UInt32

namespace Dialogue

variable {α β : Type}

/-- Holds a dialogue with a transport: the outcome, and all that has been said. -/
def converse (t : Transport) : Dialogue α → Transcript → α × Transcript
  | .done a, l => (a, l)
  | .ask q next, l => (next (t l q)).converse t (l ++ [.query q (t l q)])
  | .tell c next, l => next.converse t (l ++ [.command c])

/-- What holds of the outcome and of what has been said, for all answers. -/
def Concludes (P : α → Transcript → Prop) : Dialogue α → Transcript → Prop
  | .done a, l => P a l
  | .ask q next, l => ∀ answer, Concludes P (next answer) (l ++ [.query q answer])
  | .tell c next, l => Concludes P next (l ++ [.command c])

private theorem Concludes.converse {P : α → Transcript → Prop} {d : Dialogue α} {l : Transcript}
    (h : d.Concludes P l) (t : Transport) : P (d.converse t l).1 (d.converse t l).2 := by
  induction d generalizing l with
  | done a => exact h
  | ask q next ih => exact ih _ (h _)
  | tell c next ih => exact ih h

private theorem Concludes.mono {P Q : α → Transcript → Prop} {d : Dialogue α} {l : Transcript}
    (h : d.Concludes P l) (hPQ : ∀ a l, P a l → Q a l) : d.Concludes Q l := by
  induction d generalizing l with
  | done a => exact hPQ a l h
  | ask q next ih => exact fun answer => ih answer (h answer)
  | tell c next ih => exact ih h

end Dialogue

namespace Negotiation

variable {α β : Type}

/-- What holds of the outcome of a negotiation and of what has been said, for all answers. -/
def Closes (x : Negotiation α) (l : Transcript) (P : Except InitError α → Transcript → Prop) : Prop :=
  x.run.Concludes P l

variable {x : Negotiation α} {f : α → Negotiation β} {l : Transcript} {e : InitError}
  {P : Except InitError β → Transcript → Prop}

end Negotiation

/-- How bringing up a drive goes that nobody has tried to bring up before: the outcome, and what is
said until then, with the rings that there is memory for. -/
structure Protocol (c : DriveConfig) (made : Option Rings) (r : Except InitError Unit)
    (state : DriveState) (l : Transcript) : Prop where
  /-- No register is read twice. -/
  asked : l.queries <+: handshakeQueries
  ends : (r = .ok () ∧ state.isReady = true) ∨ (∃ e, r = .error e) ∧ state = .incompatible
  stranger : ¬(c.isValid = true ∧ l.Identified) → l.commands = [] ∧ state = .incompatible
  refused : c.isValid = true → l.Identified → l.Refused →
    l.commands = (handshakeOpening (Features.negotiate l.offered)).take 5 ++
      [.setStatus (DeviceStatus.agreed ||| DeviceStatus.failed)] ∧ state = .incompatible
  cramped : c.isValid = true → l.Identified → ¬l.Refused → ¬l.HasRoom c.queueSize →
    l.commands = handshakeOpening (Features.negotiate l.offered) ∧ state = .incompatible
  starved : c.isValid = true → l.Identified → ¬l.Refused → l.HasRoom c.queueSize → made = none →
    l.commands = handshakeOpening (Features.negotiate l.offered) ∧ r = .error .outOfMemory ∧
      state = .incompatible
  complete : c.isValid = true → l.Identified → ¬l.Refused → l.HasRoom c.queueSize →
    ∀ rings, made = some rings →
      l.commands = handshakeScript (Features.negotiate l.offered) c.queueSize rings ∧ r = .ok () ∧
        state = .ready ⟨rings, Features.negotiate l.offered, l.offered &&& Features.readOnly != 0,
          l.capacity, 0⟩

namespace Protocol

variable {c : DriveConfig} {made : Option Rings} {rings : Rings} {e : InitError} {l : Transcript}

private theorem of_complete {s : ReadyState} (asked : l.queries <+: handshakeQueries)
    (hc : c.isValid = true)
    (hi : l.Identified) (hr : ¬l.Refused) (hroom : l.HasRoom c.queueSize) (hmade : made = some rings)
    (h : l.commands = handshakeScript (Features.negotiate l.offered) c.queueSize rings)
    (hs : s = ⟨rings, Features.negotiate l.offered, l.offered &&& Features.readOnly != 0,
      l.capacity, 0⟩) : Protocol c made (.ok ()) (.ready s) l where
  asked := asked
  ends := .inl ⟨rfl, rfl⟩
  stranger := fun hnot => absurd ⟨hc, hi⟩ hnot
  refused := fun _ _ hrefused => absurd hrefused hr
  cramped := fun _ _ _ hnot => absurd hroom hnot
  starved := fun _ _ _ _ hnone => by cases hmade.symm.trans hnone
  complete := fun _ _ _ _ rings' hsome => by
    cases hmade.symm.trans hsome
    exact ⟨h, rfl, congrArg _ hs⟩

end Protocol

open Negotiation

namespace Features

end Features

namespace Command

/-- The registers that a command writes. -/
def registers : Command → List Nat
  | .setStatus _ => [Register.status]
  | .setDriverFeatures _ => [Register.driverFeaturesSel, Register.driverFeatures]
  | .selectQueue _ => [Register.queueSel]
  | .setQueueSize _ => [Register.queueNum]
  | .setDescriptorAddress _ => [Register.queueDescLow, Register.queueDescHigh]
  | .setAvailAddress _ => [Register.queueAvailLow, Register.queueAvailHigh]
  | .setUsedAddress _ => [Register.queueUsedLow, Register.queueUsedHigh]
  | .enableQueue => [Register.queueReady]
  | .notifyQueue _ => [Register.queueNotify]
  | .ackInterrupt _ => [Register.interruptAck]

end Command

namespace RegisterWindow

/-- What a window holds after an exchange: its words are memory, which only writes change. -/
def hear (w : RegisterWindow) : Exchange → RegisterWindow
  | .query q _ => (w.ask q).2
  | .command c => w.tell c

/-- Answers from a window that has heard what has been said. -/
def answers (w : RegisterWindow) : Transport := fun l q => ((l.foldl hear w).ask q).1

theorem run_eq_converse {α : Type} (d : Dialogue α) (w : RegisterWindow) (l : Transcript) :
    (d.run (m := StateM RegisterWindow) (fun q => modifyGet (·.ask q))
      (fun c => modify (·.tell c))).run (l.foldl hear w) =
    ((d.converse w.answers l).1, (d.converse w.answers l).2.foldl hear w) := by
  induction d generalizing l with
  | done a => rfl
  | ask q next ih =>
    have h := ih (w.answers l q) (l ++ [.query q (w.answers l q)])
    rw [List.foldl_append] at h
    exact h
  | tell c next ih =>
    have h := ih (l ++ [.command c])
    rw [List.foldl_append] at h
    exact h

end RegisterWindow

end DiskStack
