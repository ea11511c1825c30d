import DiskStack.Drive.Request

/-!
# Requests in progress

The requests whose calls have not returned, by name. Their buffers are the memory that data
descriptors point into, so a buffer is also found by its address.
-/

namespace DiskStack

structure RequestTable where
  entries : List (RequestId × BlockRequest) := []

namespace RequestTable

def find? (t : RequestTable) (id : RequestId) : Option BlockRequest :=
  (t.entries.find? fun e => e.1 == id).map Prod.snd

def insert (t : RequestTable) (id : RequestId) (r : BlockRequest) : RequestTable :=
  ⟨(id, r) :: t.entries⟩

def modify (t : RequestTable) (id : RequestId) (f : BlockRequest → BlockRequest) : RequestTable :=
  ⟨t.entries.map fun e => if e.1 = id then (e.1, f e.2) else e⟩

def erase (t : RequestTable) (id : RequestId) : RequestTable :=
  ⟨t.entries.filter fun e => e.1 != id⟩

def setPending (t : RequestTable) (id : RequestId) (pending : Bool) : RequestTable :=
  t.modify id fun r => { r with pending }

def isPending (t : RequestTable) (id : RequestId) : Bool := (t.find? id).any (·.pending)

def dataAt (t : RequestTable) (address : UInt64) : Bytes :=
  ((t.entries.find? fun e => e.2.address == address).map (·.2.data)).getD []

def storeAt (t : RequestTable) (address : UInt64) (bytes : Bytes) : RequestTable :=
  ⟨t.entries.map fun e =>
    if e.2.address = address then (e.1, { e.2 with data := Bytes.splice e.2.data 0 bytes }) else e⟩

theorem find?_insert (t : RequestTable) (id other : RequestId) (r : BlockRequest) :
    (t.insert id r).find? other = if id = other then some r else t.find? other := by
  by_cases h : id = other <;> simp [insert, find?, h]

theorem find?_modify (t : RequestTable) (id other : RequestId) (f : BlockRequest → BlockRequest) :
    (t.modify id f).find? other = if id = other then (t.find? other).map f else t.find? other := by
  have key : ((fun e : RequestId × BlockRequest => e.1 == other) ∘
      fun e => if e.1 = id then (e.1, f e.2) else e) = fun e => e.1 == other := by
    funext e
    simp only [Function.comp_apply]
    split <;> rfl
  rw [find?, modify, List.find?_map, key, find?]
  cases h : t.entries.find? fun e => e.1 == other with
  | none => simp
  | some e =>
    have he : e.1 = other := by simpa using List.find?_some h
    by_cases hid : id = other
    · simp [he, hid]
    · simp [he, hid, Ne.symm hid]

theorem find?_erase (t : RequestTable) (id other : RequestId) :
    (t.erase id).find? other = if id = other then none else t.find? other := by
  rw [find?, erase, List.find?_filter, find?]
  by_cases hid : id = other
  · rw [if_pos hid, List.find?_eq_none.2, Option.map_none]
    intro e _
    simp [hid]
  · rw [if_neg hid]
    congr 2
    funext e
    by_cases he : e.1 = other
    · simp [he, Ne.symm hid]
    · simp [he]

end RequestTable

end DiskStack
