import DiskStack.Machine.Advance

/-!
# Scheduling

Woken tasks run in the order in which they were woken, each until its call returns or it sleeps.
When none is left, a notified controller that works by itself does so and interrupts the control
task's core.
-/

namespace DiskStack

namespace Run

/-- Runs a woken task and notes how its call ended, if it did. -/
def resume (t : TaskId) : Run Unit := do
  modify fun m => { m with runnable := m.runnable.erase t }
  match ((← get).task t).activity with
  | .asleep p =>
    let reply ← tryCatch (call t p) fun h => do
      modify fun m => { m with finished := (t, none) :: m.finished }
      throw h
    if let some reply := reply then
      modify fun m => { m with finished := (t, some reply) :: m.finished }
  | _ => pure ()

/-- The registered drive with the lowest number whose controller works by itself and has been
notified. -/
def notified? : Run (Option BayId) := do
  let m ← get
  let ready := m.registry.filter fun e =>
    let c := (m.bay e.2).controller
    c.mode == .auto && c.notified
  let lowest := ready.foldl (fun best e =>
    match best with
    | none => some e
    | some b => if e.1 < b.1 then some e else some b) none
  return lowest.map Prod.snd

/-- Runs tasks and controllers until there is nothing left to do, for at most the given number of
turns. -/
def drainUpTo : Nat → Run Unit
  | 0 => pure ()
  | n + 1 => do
    match (← get).runnable with
    | t :: _ =>
      resume t
      drainUpTo n
    | [] =>
      match ← notified? with
      | none => pure ()
      | some b =>
        let _ ← work b none
        raise controlTask (.completion ((← get).bay b).number)
        drainUpTo n

/-- Runs tasks and controllers until there is nothing left to do. -/
def drain : Run Unit := drainUpTo stepLimit

end Run

end DiskStack
