import DiskStack.Queue.AvailRing
import DiskStack.Queue.Pool
import DiskStack.Queue.UsedRing

/-!
# Split queue

A queue is a descriptor pool and the two rings, each in a region of its own.
-/

namespace DiskStack

structure VirtQueue where
  pool : DescriptorPool
  avail : AvailRing
  used : UsedRing

namespace VirtQueue

def ofSize (size : UInt16) (arena : Arena) : Except InitError (VirtQueue × Arena) := do
  let (pool, arena) ← DescriptorPool.ofSize size arena
  let (avail, arena) ← AvailRing.ofSize size arena
  let (used, arena) ← UsedRing.ofSize size arena
  return (⟨pool, avail, used⟩, arena)

def size (q : VirtQueue) : UInt16 := q.pool.size

end VirtQueue

end DiskStack
