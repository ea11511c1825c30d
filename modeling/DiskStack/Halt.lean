import DiskStack.Fault

/-!
# System halts and checked arithmetic

A halt ends the run: the machine has reached a state that it must not continue from. Sizes, block
numbers and sector numbers are 64-bit words, and arithmetic that leaves that range is a halt too, as
is asking for more memory than there can be.
-/

namespace DiskStack

inductive Halt
  | addOverflow
  | subOverflow
  | mulOverflow
  | divideByZero
  | remainderByZero
  | capacityOverflow
  | sliceBounds (stop length : Nat)
  | copyLength (source target : Nat)
  | tableIndex (index length : Nat)
  | descriptorIndex
  | regionOffset
  | freeOutOfRange (index : UInt16)
  | alreadyFree (index : UInt16)
  | endlessChain (head : UInt16)
  | unknownHead (id : UInt32)
  | failedStatus (head : UInt16) (status : UInt8)
  | driveUnusable (id : UInt8) (cause : InitError)
  deriving DecidableEq, Repr

def Halt.message : Halt → String
  | .addOverflow => "attempt to add with overflow"
  | .subOverflow => "attempt to subtract with overflow"
  | .mulOverflow => "attempt to multiply with overflow"
  | .divideByZero => "attempt to divide by zero"
  | .remainderByZero => "attempt to calculate the remainder with a divisor of zero"
  | .capacityOverflow => "capacity overflow"
  | .sliceBounds stop length =>
      s!"range end index {stop} out of range for slice of length {length}"
  | .copyLength source target =>
      s!"copy_from_slice: source slice length ({source}) does not match destination slice length ({target})"
  | .tableIndex index length =>
      s!"index out of bounds: the len is {length} but the index is {index}"
  | .descriptorIndex => "assertion failed: index < self.size"
  | .regionOffset => "assertion failed: offset < self.layout.size()"
  | .freeOutOfRange index => s!"free_desc: index {index} out of range"
  | .alreadyFree index => s!"free_desc: descriptor {index} already free"
  | .endlessChain head => s!"free_chain: chain from {head} does not terminate"
  | .unknownHead id => s!"virtio_disk_intr: no request for head {id}"
  | .failedStatus _ status => s!"virtio_disk_intr status {status}"
  | .driveUnusable id cause => s!"virtio disk {id}: " ++ cause.message

/-- The number of values of a 64-bit word. -/
def wordLimit : Nat := UInt64.size

namespace Checked

def add (a b : Nat) : Except Halt Nat :=
  if a + b < wordLimit then .ok (a + b) else .error .addOverflow

def sub (a b : Nat) : Except Halt Nat :=
  if b ≤ a then .ok (a - b) else .error .subOverflow

def mul (a b : Nat) : Except Halt Nat :=
  if a * b < wordLimit then .ok (a * b) else .error .mulOverflow

def div (a b : Nat) : Except Halt Nat :=
  if b = 0 then .error .divideByZero else .ok (a / b)

def rem (a b : Nat) : Except Halt Nat :=
  if b = 0 then .error .remainderByZero else .ok (a % b)

/-- A length to ask memory for; no buffer takes half of all addresses. -/
def capacity (length : Nat) : Except Halt Nat :=
  if length < wordLimit / 2 then .ok length else .error .capacityOverflow

theorem add_of_lt {a b : Nat} (h : a + b < wordLimit) : add a b = .ok (a + b) := if_pos h

theorem sub_of_le {a b : Nat} (h : b ≤ a) : sub a b = .ok (a - b) := if_pos h

theorem mul_of_lt {a b : Nat} (h : a * b < wordLimit) : mul a b = .ok (a * b) := if_pos h

theorem div_of_ne {a b : Nat} (h : b ≠ 0) : div a b = .ok (a / b) := if_neg h

theorem rem_of_ne {a b : Nat} (h : b ≠ 0) : rem a b = .ok (a % b) := if_neg h

theorem exists_of_bind {ε α β : Type} {x : Except ε α} {f : α → Except ε β} {y : β}
    (h : (x >>= f) = .ok y) : ∃ a, x = .ok a ∧ f a = .ok y := by
  cases x with
  | ok a => exact ⟨a, rfl, h⟩
  | error e => cases h

end Checked

end DiskStack
