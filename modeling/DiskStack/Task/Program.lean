import DiskStack.Block.Program
import DiskStack.Drive.State

/-!
# Task programs

What a task does is a program over drives, locks and gates. Each node stands for a stretch that runs
under one short lock; between two nodes any other task, any controller and any interrupt may come
in. A task that finds a node's condition unmet waits on the node's channel and tries the node again
once it is awake, so a waiting task is known by the node it waits at.
-/

namespace DiskStack

/-- Names a drive for good, also after its number has been registered anew. -/
abbrev BayId := Nat

/-- How a submission ended: the result, the buffer, and whether the request is still pending. -/
structure SubmitReply extends BlockReply where
  pending : Bool

inductive Program (α : Type)
  | done (a : α)
  | halt (h : Halt)
  | inspect (bay : BayId) (next : DriveState → Program α)
  | submit (bay : BayId) (a : BlockAccess) (next : SubmitReply → Program α)
  /-- Publishes a submitted request once three descriptors are free. -/
  | publish (bay : BayId) (request : RequestId) (sector : Nat) (next : SubmitReply → Program α)
  /-- Returns from a published request once it is no longer pending. -/
  | complete (bay : BayId) (request : RequestId) (ticket : UInt64)
      (next : SubmitReply → Program α)
  | takeScratch (bay : BayId) (next : Bytes → Program α)
  | giveScratch (bay : BayId) (scratch : Bytes) (next : Program α)
  | takeLock (lock : Nat) (next : UInt64 → Program α)
  /-- Passes a gate once it is open; `waits` counts the waits so far. -/
  | passGate (gate waits : Nat) (next : Nat → Program α)

namespace Program

variable {α β : Type}

def bind : Program α → (α → Program β) → Program β
  | .done a, f => f a
  | .halt h, _ => .halt h
  | .inspect bay next, f => .inspect bay fun s => (next s).bind f
  | .submit bay a next, f => .submit bay a fun r => (next r).bind f
  | .publish bay request sector next, f => .publish bay request sector fun r => (next r).bind f
  | .complete bay request ticket next, f => .complete bay request ticket fun r => (next r).bind f
  | .takeScratch bay next, f => .takeScratch bay fun b => (next b).bind f
  | .giveScratch bay scratch next, f => .giveScratch bay scratch (next.bind f)
  | .takeLock lock next, f => .takeLock lock fun v => (next v).bind f
  | .passGate gate waits next, f => .passGate gate waits fun n => (next n).bind f

instance : Monad Program where
  pure := .done
  bind := Program.bind

def inspectDrive (bay : BayId) : Program DriveState := .inspect bay .done

def submitAccess (bay : BayId) (a : BlockAccess) : Program SubmitReply := .submit bay a .done

def lockScratch (bay : BayId) : Program Bytes := .takeScratch bay .done

def unlockScratch (bay : BayId) (scratch : Bytes) : Program Unit :=
  .giveScratch bay scratch (.done ())

def ofBlocks (bay : BayId) : BlockProgram α → Program α
  | .done a => .done a
  | .halt h => .halt h
  | .access a next => .submit bay a fun reply => ofBlocks bay (next reply.toBlockReply)

end Program

end DiskStack
