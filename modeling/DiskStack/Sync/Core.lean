/-!
# Cores

A core runs one task at a time and has an interrupt flag. An interrupt raised while the flag is off
is kept until the flag goes on again; a handler runs with the flag off.
-/

namespace DiskStack

structure Core (ι : Type) where
  enabled : Bool := true
  pending : List ι := []
  deferred : Nat := 0

namespace Core

variable {ι : Type}

def disable (c : Core ι) : Core ι := { c with enabled := false }

def enable (c : Core ι) : Core ι := { c with enabled := true }

def defer (c : Core ι) (i : ι) : Core ι :=
  { c with pending := c.pending ++ [i], deferred := c.deferred + 1 }

def dropPending (c : Core ι) : Core ι := { c with pending := c.pending.tail }

end Core

end DiskStack
