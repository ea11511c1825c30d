import DiskStack.Drive.RequestTable

/-!
# The request table as a finite map

A table in which no name stands twice is known by its look-ups. A buffer is found by its address when
no other request in the table has that address.
-/

namespace DiskStack

namespace RequestTable

variable {t : RequestTable} {id other : RequestId} {q : BlockRequest}

def keys (t : RequestTable) : List RequestId := t.entries.map Prod.fst

@[simp] theorem keys_modify (f : BlockRequest → BlockRequest) : (t.modify id f).keys = t.keys := by
  rw [keys, modify, List.map_map, keys]
  apply List.map_congr_left
  intro e _
  simp only [Function.comp_apply]
  split <;> rfl

@[simp] theorem keys_setPending (p : Bool) : (t.setPending id p).keys = t.keys := keys_modify _

theorem nodup_keys_erase (h : t.keys.Nodup) : (t.erase id).keys.Nodup :=
  h.sublist (List.filter_sublist.map Prod.fst)

theorem mem_keys_iff : id ∈ t.keys ↔ ∃ q, t.find? id = some q := by
  constructor
  · intro h
    obtain ⟨e, he, rfl⟩ := List.mem_map.1 h
    have hsome : (t.entries.find? fun x => x.1 == e.1).isSome :=
      List.find?_isSome.2 ⟨e, he, beq_self_eq_true _⟩
    obtain ⟨x, hx⟩ := Option.isSome_iff_exists.1 hsome
    exact ⟨x.2, by rw [find?, hx]; rfl⟩
  · rintro ⟨q, hq⟩
    rw [find?, Option.map_eq_some_iff] at hq
    obtain ⟨e, he, -⟩ := hq
    have hid : e.1 = id := by simpa using List.find?_some he
    exact List.mem_map.2 ⟨e, List.mem_of_find?_eq_some he, hid⟩

private theorem find?_eq_of_mem {l : List (RequestId × BlockRequest)}
    {e : RequestId × BlockRequest} (h : (l.map Prod.fst).Nodup) (he : e ∈ l) :
    l.find? (fun x => x.1 == e.1) = some e := by
  induction l with
  | nil => cases he
  | cons x rest ih =>
    rw [List.map_cons, List.nodup_cons] at h
    rcases List.mem_cons.1 he with rfl | he
    · exact List.find?_cons_of_pos (beq_self_eq_true _)
    · have hne : x.1 ≠ e.1 := fun hx => h.1 (hx ▸ List.mem_map_of_mem he)
      rw [List.find?_cons_of_neg (by simpa using hne)]
      exact ih h.2 he

private theorem find?_of_mem {e : RequestId × BlockRequest} (h : t.keys.Nodup) (he : e ∈ t.entries) :
    t.find? e.1 = some e.2 := by
  rw [find?, find?_eq_of_mem h he, Option.map_some]

theorem mem_of_find? (h : t.find? id = some q) : (id, q) ∈ t.entries := by
  rw [find?, Option.map_eq_some_iff] at h
  obtain ⟨e, he, rfl⟩ := h
  have hid : e.1 = id := by simpa using List.find?_some he
  have hmem := List.mem_of_find?_eq_some he
  rw [← hid]
  exact hmem

theorem find?_setPending (p : Bool) :
    (t.setPending id p).find? other =
      if id = other then (t.find? other).map fun q => { q with pending := p } else t.find? other :=
  find?_modify t id other _

/-- A request found after a change of a pending flag was there before, with the same buffer. -/
theorem find?_of_setPending {p : Bool} (h : (t.setPending id p).find? other = some q) :
    ∃ q', t.find? other = some q' ∧
      q = if id = other then { q' with pending := p } else q' := by
  rw [find?_setPending] at h
  split at h
  · next hid =>
    obtain ⟨q', hq', rfl⟩ := Option.map_eq_some_iff.1 h
    exact ⟨q', hq', by rw [if_pos hid]⟩
  · next hid => exact ⟨q, h, by rw [if_neg hid]⟩

theorem find?_of_erase (h : (t.erase id).find? other = some q) :
    id ≠ other ∧ t.find? other = some q := by
  rw [find?_erase] at h
  split at h
  · cases h
  · next hid => exact ⟨hid, h⟩

theorem isPending_setPending (p : Bool) :
    (t.setPending id p).isPending other =
      if id = other then (t.find? other).isSome && p else t.isPending other := by
  rw [isPending, find?_setPending]
  split
  · cases t.find? other <;> rfl
  · rfl

theorem isSome_of_isPending (h : t.isPending id = true) : (t.find? id).isSome = true := by
  rw [isPending] at h
  cases hq : t.find? id with
  | some q => rfl
  | none =>
    rw [hq] at h
    cases h

def Apart (t : RequestTable) : Prop :=
  ∀ id other q q', t.find? id = some q → t.find? other = some q' → q.address = q'.address →
    id = other

theorem dataAt_of_find? (ha : t.Apart) (hkeys : t.keys.Nodup) (hq : t.find? id = some q) :
    t.dataAt q.address = q.data := by
  have hsome : (t.entries.find? fun e => e.2.address == q.address).isSome :=
    List.find?_isSome.2 ⟨(id, q), mem_of_find? hq, beq_self_eq_true _⟩
  obtain ⟨e, he⟩ := Option.isSome_iff_exists.1 hsome
  have haddress : e.2.address = q.address := by simpa using List.find?_some he
  have hfind := find?_of_mem hkeys (List.mem_of_find?_eq_some he)
  have hid : e.1 = id := ha _ _ _ _ hfind hq haddress
  rw [hid, hq, Option.some.injEq] at hfind
  rw [dataAt, he, hfind]
  rfl

@[simp] theorem keys_storeAt (address : UInt64) (bytes : Bytes) :
    (t.storeAt address bytes).keys = t.keys := by
  rw [keys, storeAt, List.map_map, keys]
  apply List.map_congr_left
  intro e _
  simp only [Function.comp_apply]
  split <;> rfl

theorem find?_storeAt (address : UInt64) (bytes : Bytes) :
    (t.storeAt address bytes).find? other = (t.find? other).map fun q =>
      if q.address = address then { q with data := q.data.splice 0 bytes } else q := by
  have key : ((fun e : RequestId × BlockRequest => e.1 == other) ∘
      fun e => if e.2.address = address then
        (e.1, { e.2 with data := Bytes.splice e.2.data 0 bytes }) else e) =
      fun e => e.1 == other := by
    funext e
    simp only [Function.comp_apply]
    split <;> rfl
  rw [find?, storeAt, List.find?_map, key, find?, Option.map_map, Option.map_map]
  congr 1
  funext e
  simp only [Function.comp_apply]
  split <;> rfl

theorem find?_storeAt_of_find? (ha : t.Apart) (hq : t.find? id = some q) {bytes : Bytes}
    (hlen : q.data.length = bytes.length) :
    (t.storeAt q.address bytes).find? other =
      if id = other then some { q with data := bytes } else t.find? other := by
  rw [find?_storeAt]
  by_cases h : id = other
  · rw [if_pos h, ← h, hq, Option.map_some, if_pos rfl, Bytes.splice_zero hlen]
  · rw [if_neg h]
    cases hother : t.find? other with
    | none => rfl
    | some q' =>
      have hne : q'.address ≠ q.address := fun he => h (ha _ _ _ _ hq hother he.symm)
      rw [Option.map_some, if_neg hne]

/-- The same requests with other bytes in their buffers. -/
structure Rewritten (t t' : RequestTable) : Prop where
  keys : t'.keys = t.keys
  find : ∀ id q, t.find? id = some q → ∃ data, data.length = q.data.length ∧
    t'.find? id = some { q with data }

theorem Rewritten.refl (t : RequestTable) : Rewritten t t :=
  ⟨rfl, fun _ q hq => ⟨q.data, rfl, hq⟩⟩

theorem Rewritten.back {t' : RequestTable} (h : Rewritten t t') (hq : t'.find? id = some q) :
    ∃ data, data.length = q.data.length ∧ t.find? id = some { q with data } := by
  have hmem : id ∈ t.keys := h.keys ▸ mem_keys_iff.2 ⟨q, hq⟩
  obtain ⟨q₀, hq₀⟩ := mem_keys_iff.1 hmem
  obtain ⟨data, hlen, hq'⟩ := h.find id q₀ hq₀
  rw [hq, Option.some.injEq] at hq'
  subst hq'
  exact ⟨q₀.data, hlen.symm, hq₀⟩

end RequestTable

end DiskStack
