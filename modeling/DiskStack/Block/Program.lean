import DiskStack.Bytes

/-!
# Block programs

A block program transfers native blocks one at a time and decides what to do next from the reply to
each. It is a finite tree, so that one program can be held with a disk in memory and, resumed reply
by reply, with a drive whose caller has to wait.
-/

namespace DiskStack

structure BlockAccess where
  block : Nat
  write : Bool
  data : Bytes
  deriving DecidableEq, Repr

/-- How a transfer ended, with the buffer as it then was. -/
structure BlockReply where
  result : Except BlockError Unit
  data : Bytes

inductive BlockProgram (α : Type)
  | done (a : α)
  | halt (h : Halt)
  | access (a : BlockAccess) (next : BlockReply → BlockProgram α)

namespace BlockProgram

variable {α β : Type}

def bind : BlockProgram α → (α → BlockProgram β) → BlockProgram β
  | .done a, f => f a
  | .halt h, _ => .halt h
  | .access a next, f => .access a fun reply => (next reply).bind f

instance : Monad BlockProgram where
  pure := .done
  bind := BlockProgram.bind

/-- Arithmetic and slicing that may halt. -/
def ofChecked : Except Halt α → BlockProgram α
  | .ok a => .done a
  | .error h => .halt h

def transfer (a : BlockAccess) : BlockProgram BlockReply := .access a .done

/-- Holds a program with a disk, given what the disk does with one access. -/
def run {σ : Type} (submit : BlockAccess → σ → BlockReply × σ) :
    BlockProgram α → σ → Except Halt α × σ
  | .done a, s => (.ok a, s)
  | .halt h, s => (.error h, s)
  | .access a next, s =>
    let (reply, s) := submit a s
    run submit (next reply) s

theorem run_bind {σ : Type} (submit : BlockAccess → σ → BlockReply × σ) (p : BlockProgram α)
    (f : α → BlockProgram β) (s : σ) :
    (p.bind f).run submit s =
      match p.run submit s with
      | (.ok a, s) => (f a).run submit s
      | (.error h, s) => (.error h, s) := by
  induction p generalizing s with
  | done a => rfl
  | halt h => rfl
  | access a next ih => exact ih (submit a s).1 (submit a s).2

end BlockProgram

end DiskStack
