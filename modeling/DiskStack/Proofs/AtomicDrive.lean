import DiskStack.Proofs.Image
import DiskStack.Proofs.Scene

/-!
# Drives that serve one access at a time

An atomic drive is what is left of a drive once queue, controller and waiting are forgotten: an image, a
scratch block with its lock, and the tasks, some of them inside of a submission. An accepted access
is carried out at once, at some moment between the submission and its return.
-/

namespace DiskStack

def BlockRequest.access (q : BlockRequest) : BlockAccess := ⟨q.block, q.write, q.data⟩

/-- Carries out an access: the buffer afterwards and the image afterwards. -/
def Image.perform (image : Image) (sectorsPerBlock : Nat) (a : BlockAccess) : Bytes × Image :=
  if a.write then (a.data, image.setBlock sectorsPerBlock a.block a.data)
  else (image.block sectorsPerBlock a.block, image)

/-- What a drive keeps to as long as it is ready. -/
structure DriveParameters where
  bay : BayId
  config : DriveConfig
  capacity : UInt64
  readOnly : Bool

namespace DriveParameters

/-- Whether an access is accepted: its buffer has to be one block and its block on the drive. -/
def verdict (d : DriveParameters) (a : BlockAccess) : Except BlockError Unit := do
  let sector ← d.config.firstSector a.block a.data.length
  if d.capacity.toNat < min (sector + d.config.sectorsPerBlock) (wordLimit - 1) then
    .error .invalidBlock
  else .ok ()

structure Fits (d : DriveParameters) (s : ReadyState) : Prop where
  capacity : s.capacity = d.capacity
  readOnly : s.readOnly = d.readOnly

end DriveParameters

inductive Standing
  | waiting (a : BlockAccess)
  | served (data : Bytes)

/-- Where a task is: in no call, before or between its submissions, or inside of one. -/
inductive TaskPoint
  | idle
  | between (p : Program Reply)
  | inside (g : Standing) (next : SubmitReply → Program Reply)

structure AtomicDrive where
  image : Image
  scratch : SleepLock Bytes
  point : TaskId → TaskPoint

namespace AtomicDrive

variable {γ : Type}

def move (d : AtomicDrive) (t : TaskId) (x : TaskPoint) : AtomicDrive :=
  { d with point := fun u => if u = t then x else d.point u }

inductive Step (program : γ → Program Reply) (k : DriveParameters) (d : AtomicDrive) :
    List (Incident γ) → AtomicDrive → Prop
  | still : Step program k d [] d
  | call (t : TaskId) (c : γ) (h : d.point t = .idle) :
    Step program k d [.call t c] (d.move t (.between (program c)))
  | reply (t : TaskId) (r : Reply) (h : d.point t = .between (.done r)) :
    Step program k d [.reply t r] (d.move t .idle)
  | inspect (t : TaskId) (next : DriveState → Program Reply) (s : ReadyState) (hs : k.Fits s)
    (h : d.point t = .between (.inspect k.bay next)) :
    Step program k d [] (d.move t (.between (next (.ready s))))
  | refuse (t : TaskId) (a : BlockAccess) (next : SubmitReply → Program Reply) (e : BlockError)
    (h : d.point t = .between (.submit k.bay a next)) (hv : k.verdict a = .error e) :
    Step program k d [] (d.move t (.between (next ⟨⟨.error e, a.data⟩, false⟩)))
  | submit (t : TaskId) (a : BlockAccess) (next : SubmitReply → Program Reply)
    (h : d.point t = .between (.submit k.bay a next)) (hv : k.verdict a = .ok ()) :
    Step program k d [] (d.move t (.inside (.waiting a) next))
  | execute (t : TaskId) (a : BlockAccess) (next : SubmitReply → Program Reply)
    (h : d.point t = .inside (.waiting a) next) :
    Step program k d [.execute t]
      ({ d with image := (d.image.perform k.config.sectorsPerBlock a).2 }.move t
        (.inside (.served (d.image.perform k.config.sectorsPerBlock a).1) next))
  | finish (t : TaskId) (data : Bytes) (next : SubmitReply → Program Reply)
    (h : d.point t = .inside (.served data) next) :
    Step program k d [] (d.move t (.between (next ⟨⟨.ok (), data⟩, false⟩)))
  | takeScratch (t : TaskId) (next : Bytes → Program Reply)
    (h : d.point t = .between (.takeScratch k.bay next)) (hfree : d.scratch.held = false) :
    Step program k d [.scratch t]
      ({ d with scratch := d.scratch.acquire t }.move t
        (.between (next d.scratch.value)))
  | giveScratch (t : TaskId) (value : Bytes) (next : Program Reply)
    (h : d.point t = .between (.giveScratch k.bay value next)) :
    Step program k d []
      ({ d with scratch := { d.scratch.release with value } }.move t (.between next))

abbrev Run (program : γ → Program Reply) (k : DriveParameters) :
    AtomicDrive → List (Incident γ) → AtomicDrive → Prop :=
  Runs (Step program k)

/-- Nobody submits, or is inside of a submission, while another task is inside of one. -/
def Alone (k : DriveParameters) (d : AtomicDrive) : Prop :=
  ∀ t u g next, d.point t = .inside g next →
    ((∃ g' next', d.point u = .inside g' next') ∨
      ∃ a next', d.point u = .between (.submit k.bay a next')) → t = u

theorem ext {d e : AtomicDrive} (himage : d.image = e.image) (hscratch : d.scratch = e.scratch)
    (hpoint : ∀ t, d.point t = e.point t) : d = e := by
  cases d
  cases e
  cases himage
  cases hscratch
  congr
  exact funext hpoint

theorem point_move (d : AtomicDrive) (t u : TaskId) (x : TaskPoint) :
    (d.move t x).point u = if u = t then x else d.point u := rfl

/-- A task has moved if it is where it moved to and the others are where they were. -/
theorem eq_move {d d' : AtomicDrive} {t : TaskId} {x : TaskPoint} (himage : d'.image = d.image)
    (hscratch : d'.scratch = d.scratch) (hself : d'.point t = x)
    (hother : ∀ u, u ≠ t → d'.point u = d.point u) : d' = d.move t x := by
  refine ext himage hscratch fun u => ?_
  rw [point_move]
  by_cases hu : u = t
  · rw [if_pos hu, hu]
    exact hself
  · rw [if_neg hu]
    exact hother u hu

end AtomicDrive

end DiskStack
