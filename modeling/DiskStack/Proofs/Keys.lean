import DiskStack.Proofs.SleepLocks
import Mathlib.Logic.Relation

/-!
# Channels have one owner

Drives, the sleep locks on their scratch blocks, other sleep locks and gates all draw the keys of their
channels from one counter, and a drive that is registered under a number takes the place of another one
there. A key is given out once, nothing that a machine does changes a key or a number, and so no two owners
ever wait on one channel, and no two numbers lead to one drive.
-/

namespace DiskStack

def Channel.key : Channel → Nat
  | .descriptors key | .completion key _ | .lock key => key

/-- What tasks can wait for. -/
inductive Owner
  | drive (b : BayId)
  | scratch (b : BayId)
  | lock (lock : Nat)
  | gate (gate : Nat)

namespace Machine

/-- Whether there is such an owner. -/
def Has (m : Machine) : Owner → Prop
  | .drive b | .scratch b => b < m.bays.size
  | .lock lock => lock < m.locks.size
  | .gate gate => gate < m.gates.size

def keyOf (m : Machine) : Owner → Nat
  | .drive b => (m.bay b).drive.key
  | .scratch b => (m.bay b).drive.scratch.key
  | .lock lock => (m.lockAt lock).key
  | .gate gate => (m.gateAt gate).key

/-- The channels on which tasks wait for an owner. -/
inductive HasChannel (m : Machine) : Owner → Channel → Prop
  | descriptors (b : BayId) (h : b < m.bays.size) :
    HasChannel m (.drive b) (m.bay b).drive.descriptorChannel
  | completion (b : BayId) (ticket : UInt64) (h : b < m.bays.size) :
    HasChannel m (.drive b) ((m.bay b).drive.completionChannel ticket)
  | scratch (b : BayId) (h : b < m.bays.size) : HasChannel m (.scratch b) (m.bay b).drive.scratch.channel
  | lock (lock : Nat) (h : lock < m.locks.size) : HasChannel m (.lock lock) (m.lockAt lock).channel
  | gate (gate : Nat) (h : gate < m.gates.size) : HasChannel m (.gate gate) (.lock (m.gateAt gate).key)

/-- Keys have been given out one by one, and drives are registered under their own numbers. -/
structure Distinct (m : Machine) : Prop where
  started : 0 < m.nextKey
  issued : ∀ o, m.Has o → 0 < m.keyOf o ∧ m.keyOf o < m.nextKey
  unshared : ∀ o o', m.Has o → m.Has o' → m.keyOf o = m.keyOf o' → o = o'
  registered : ∀ e ∈ m.registry, e.2 < m.bays.size ∧ (m.bay e.2).number = e.1

/-- Nothing has got a new key or number. -/
structure Fixed (m m' : Machine) : Prop where
  nextKey : m'.nextKey = m.nextKey
  registry : m'.registry = m.registry
  has : ∀ o, m'.Has o ↔ m.Has o
  keyOf : ∀ o, m'.keyOf o = m.keyOf o
  number : ∀ b, (m'.bay b).number = (m.bay b).number

/-- Whatever has a key keeps it. -/
def Holds (m m' : Machine) : Prop := ∀ o, m.Has o → m'.Has o ∧ m'.keyOf o = m.keyOf o

variable {m m' m'' : Machine} {b : BayId} {o o' : Owner} {c : Channel} {number : UInt8}

theorem HasChannel.has (h : m.HasChannel o c) : m.Has o := by
  cases h <;> assumption

theorem HasChannel.key_eq (h : m.HasChannel o c) : c.key = m.keyOf o := by
  cases h <;> rfl

theorem keyOf_eq_zero (h : ¬m.Has o) : m.keyOf o = 0 := by
  cases o <;> simp [Machine.keyOf, bay, lockAt, gateAt, Array.getElem?_eq_none (Nat.le_of_not_lt h),
    default, Drive.ofConfig]

theorem Distinct.owner_eq (hm : m.Distinct) (h : m.HasChannel o c) (h' : m.HasChannel o' c) : o = o' :=
  hm.unshared o o' h.has h'.has (h.key_eq.symm.trans h'.key_eq)

private theorem mem_registry (h : m.bayOf? number = some b) : (number, b) ∈ m.registry := by
  obtain ⟨e, he, rfl⟩ := Option.map_eq_some_iff.1 h
  have hnumber : e.1 = number := by
    have hfound := List.find?_some he
    exact eq_of_beq hfound
  exact hnumber ▸ List.mem_of_find?_eq_some he

theorem Distinct.of_bayOf? (hm : m.Distinct) (h : m.bayOf? number = some b) :
    b < m.bays.size ∧ (m.bay b).number = number := hm.registered _ (mem_registry h)

/-! ### What keeps keys and numbers -/

theorem Fixed.refl (m : Machine) : m.Fixed m := ⟨rfl, rfl, fun _ => .rfl, fun _ => rfl, fun _ => rfl⟩

theorem Fixed.trans (h : m.Fixed m') (h' : m'.Fixed m'') : m.Fixed m'' where
  nextKey := h'.nextKey.trans h.nextKey
  registry := h'.registry.trans h.registry
  has := fun o => (h'.has o).trans (h.has o)
  keyOf := fun o => (h'.keyOf o).trans (h.keyOf o)
  number := fun b => (h'.number b).trans (h.number b)

theorem Fixed.bayOf? (h : m.Fixed m') (number : UInt8) : m'.bayOf? number = m.bayOf? number := by
  rw [Machine.bayOf?, h.registry, Machine.bayOf?]

theorem Fixed.size (h : m.Fixed m') : b < m'.bays.size ↔ b < m.bays.size := h.has (.drive b)

theorem Fixed.holds (h : m.Fixed m') : m.Holds m' := fun o ho => ⟨(h.has o).2 ho, h.keyOf o⟩

theorem Fixed.holds_symm (h : m.Fixed m') : m'.Holds m := fun o ho => ⟨(h.has o).1 ho, (h.keyOf o).symm⟩

theorem Fixed.distinct (h : m.Fixed m') (hm : m.Distinct) : m'.Distinct where
  started := h.nextKey ▸ hm.started
  issued := fun o ho => by
    rw [h.keyOf, h.nextKey]
    exact hm.issued o ((h.has o).1 ho)
  unshared := fun o o' ho ho' heq => by
    rw [h.keyOf, h.keyOf] at heq
    exact hm.unshared o o' ((h.has o).1 ho) ((h.has o').1 ho') heq
  registered := fun e he => by
    rw [h.registry] at he
    rw [h.number, h.size]
    exact hm.registered e he

theorem Fixed.of_same (hbays : m'.bays = m.bays) (hlocks : m'.locks = m.locks) (hgates : m'.gates = m.gates)
    (hkey : m'.nextKey = m.nextKey) (hregistry : m'.registry = m.registry) : m.Fixed m' := by
  have hbay : ∀ b, m'.bay b = m.bay b := fun b => by rw [bay, bay, hbays]
  refine ⟨hkey, hregistry, fun o => ?_, fun o => ?_, fun b => by rw [hbay]⟩
  · cases o <;> simp only [Has, hbays, hlocks, hgates]
  · cases o <;> simp only [Machine.keyOf, hbay, lockAt, gateAt, hlocks, hgates]

theorem fixed_emit (e : Event) : m.Fixed (m.emit e) := .of_same rfl rfl rfl rfl rfl

theorem fixed_log (level : LogLevel) (source text : String) : m.Fixed (m.log level source text) := by
  rw [Machine.log]
  split
  · exact .of_same rfl rfl rfl rfl rfl
  · exact .refl m

theorem fixed_wake (c : Channel) : m.Fixed (m.wake c) := .of_same rfl rfl rfl rfl rfl

theorem fixed_mapTask (t : TaskId) (f : Task → Task) : m.Fixed (m.mapTask t f) :=
  .of_same rfl rfl rfl rfl rfl

theorem fixed_mapBay (b : BayId) {f : Bay → Bay} (hnumber : (f (m.bay b)).number = (m.bay b).number)
    (hkey : (f (m.bay b)).drive.key = (m.bay b).drive.key)
    (hscratch : (f (m.bay b)).drive.scratch.key = (m.bay b).drive.scratch.key) :
    m.Fixed (m.mapBay b f) := by
  rcases Nat.lt_or_ge b m.bays.size with hlt | hge
  · have hbay : ∀ b', (m.mapBay b f).bay b' = if b' = b then f (m.bay b) else m.bay b' := fun b' => by
      split
      · next h => rw [h, bay_mapBay hlt]
      · next h => exact bay_mapBay_of_ne h f
    refine ⟨rfl, rfl, fun o => ?_, fun o => ?_, fun b' => ?_⟩
    · cases o <;> simp only [Has, size_bays_mapBay] <;> exact .rfl
    · cases o with
      | drive b' =>
        simp only [Machine.keyOf, hbay]
        split
        · next h => rw [h, hkey]
        · rfl
      | scratch b' =>
        simp only [Machine.keyOf, hbay]
        split
        · next h => rw [h, hscratch]
        · rfl
      | lock | gate => rfl
    · rw [hbay]
      split
      · next h => rw [h, hnumber]
      · rfl
  · rw [mapBay_of_le hge]
    exact .refl m

theorem fixed_mapDrive (b : BayId) {f : Drive → Drive}
    (hkey : (f (m.bay b).drive).key = (m.bay b).drive.key)
    (hscratch : (f (m.bay b).drive).scratch.key = (m.bay b).drive.scratch.key) :
    m.Fixed (m.mapDrive b f) := fixed_mapBay b rfl hkey hscratch

theorem fixed_mapController (b : BayId) (f : Controller → Controller) : m.Fixed (m.mapController b f) :=
  fixed_mapBay b rfl rfl rfl

theorem fixed_counted (b : BayId) : m.Fixed (m.counted b) := fixed_mapDrive b rfl rfl

theorem fixed_setState (b : BayId) (s : DriveState) : m.Fixed (m.setState b s) := fixed_mapDrive b rfl rfl

theorem fixed_putLock {lock : Nat} {l : SleepLock UInt64} (hl : l.key = (m.lockAt lock).key) :
    m.Fixed (m.putLock lock l) := by
  refine ⟨rfl, rfl, fun o => ?_, fun o => ?_, fun _ => rfl⟩
  · cases o <;> simp only [Has, Machine.putLock, Array.size_setIfInBounds]
  · cases o with
    | lock j =>
      rcases Nat.lt_or_ge lock m.locks.size with hlt | hge
      · simp only [Machine.keyOf, lockAt_putLock hlt]
        split
        · next h => rw [h, hl]
        · rfl
      · rw [Machine.putLock, Array.setIfInBounds_eq_of_size_le hge]
    | drive | scratch | gate => rfl

theorem fixed_putGate {gate : Nat} {g : Gate} (hg : g.key = (m.gateAt gate).key) :
    m.Fixed (m.putGate gate g) := by
  refine ⟨rfl, rfl, fun o => ?_, fun o => ?_, fun _ => rfl⟩
  · cases o <;> simp only [Has, Machine.putGate, Array.size_setIfInBounds]
  · cases o with
    | gate j =>
      have hsame : m.Aside 0 (m.putGate gate g) := aside_putGate hg
      exact hsame.gateKeys j
    | drive | scratch | lock => rfl

theorem fixed_putShared (b : BayId) (s : ReadyState) (c : Controller) (shared : SharedMemory) :
    m.Fixed (m.putShared b s c shared) := by
  have hbay : m.Fixed (m.mapBay b fun bay =>
      { bay with controller := c, drive.state := .ready { s with rings := shared.rings } }) :=
    fixed_mapBay b rfl rfl rfl
  exact hbay.trans (.of_same rfl rfl rfl rfl rfl)

theorem overlooksEach_fixed (t : TaskId) : OverlooksEach t Fixed where
  refl := .refl
  trans := .trans
  emit _ := fixed_emit
  log _ := fixed_log
  disable _ := fixed_mapTask t _
  controller _ := fixed_mapController
  state _ := fixed_setState
  stats _ b _ := fixed_mapDrive b rfl rfl
  requests _ _ := .of_same rfl rfl rfl rfl rfl
  wake _ c _ := fixed_wake c
  probe _ _ _ _ _ _ _ := .of_same rfl rfl rfl rfl rfl

private theorem overlooksWork_fixed : OverlooksWork (fun _ => True) Fixed := fun _ b s _ _ _ _ =>
  fixed_putShared b s _ _

theorem tolerates_fixed (t : TaskId) : Tolerates t (fun _ => True) Fixed :=
  ((overlooksEach_fixed t).overlooks _).tolerates (fun _ _ => fixed_mapTask t _) overlooksWork_fixed

theorem fixed_setScratch {l : SleepLock Bytes} (hl : l.key = (m.bay b).drive.scratch.key) :
    m.Fixed (m.setScratch b l) := fixed_mapDrive b rfl hl

theorem overlooksSteps_fixed (t : TaskId) : OverlooksSteps t (fun _ => True) Fixed where
  trans := .trans
  act _ _ := fixed_mapTask t _
  sleep _ := fixed_emit _
  stayUp _ := fixed_emit _
  enter _ _ := .of_same rfl rfl rfl rfl rfl
  publish _ b _ _ _ := (fixed_setState b _).trans (.of_same rfl rfl rfl rfl rfl)
  retire m b id _ := by
    have hcounted : m.Fixed (m.mapDrive b fun d =>
        { d with stats := d.stats.countRequest (m.requestOf id).write }) := fixed_mapDrive b rfl rfl
    exact hcounted.trans (.of_same rfl rfl rfl rfl rfl)
  awaitDrive _ _ _ _ _ := .of_same rfl rfl rfl rfl rfl
  takeScratch _ _ _ _ h := fixed_setScratch (SleepLock.key_of_tryAcquire h)
  giveScratch m b value _ :=
    (fixed_setScratch (l := { (m.bay b).drive.scratch.release with value }) rfl).trans
      (.of_same rfl rfl rfl rfl rfl)
  awaitLock _ _ := .of_same rfl rfl rfl rfl rfl
  takeLock _ _ _ h := fixed_putLock (SleepLock.key_of_tryAcquire h)
  awaitGate _ _ := .of_same rfl rfl rfl rfl rfl
  passGate _ _ := fixed_putGate rfl

/-! ### Giving out keys -/

private theorem Distinct.grow (hm : m.Distinct) (hle : m.nextKey ≤ m'.nextKey)
    (hold : m.Holds m')
    (hnew : ∀ o, m'.Has o → ¬m.Has o → m.nextKey ≤ m'.keyOf o ∧ m'.keyOf o < m'.nextKey)
    (hapart : ∀ o o', m'.Has o → m'.Has o' → ¬m.Has o → ¬m.Has o' → m'.keyOf o = m'.keyOf o' → o = o')
    (hregistered : ∀ e ∈ m'.registry, e.2 < m'.bays.size ∧ (m'.bay e.2).number = e.1) : m'.Distinct where
  started := Nat.lt_of_lt_of_le hm.started hle
  issued := fun o ho => by
    by_cases h : m.Has o
    · rw [(hold o h).2]
      exact ⟨(hm.issued o h).1, Nat.lt_of_lt_of_le (hm.issued o h).2 hle⟩
    · exact ⟨Nat.lt_of_lt_of_le hm.started (hnew o ho h).1, (hnew o ho h).2⟩
  unshared := fun o o' ho ho' heq => by
    have hmixed : ∀ o o', m.Has o → m'.Has o' → ¬m.Has o' → m'.keyOf o ≠ m'.keyOf o' :=
      fun o o' h ho' h' => by
        rw [(hold o h).2]
        exact Nat.ne_of_lt (Nat.lt_of_lt_of_le (hm.issued o h).2 (hnew o' ho' h').1)
    by_cases h : m.Has o
    · by_cases h' : m.Has o'
      · rw [(hold o h).2, (hold o' h').2] at heq
        exact hm.unshared o o' h h' heq
      · exact absurd heq (hmixed o o' h ho' h')
    · by_cases h' : m.Has o'
      · exact absurd heq.symm (hmixed o' o h' ho h)
      · exact hapart o o' ho ho' h h' heq
  registered := hregistered

theorem holds_addLock (name : String) (value : UInt64) : m.Holds (m.addLock name value) := fun o ho => by
  cases o with
  | lock j =>
    refine ⟨?_, ?_⟩
    · rw [Has, Machine.addLock, Array.size_push]
      exact Nat.lt_succ_of_lt ho
    · rw [Machine.keyOf, lockAt_addLock, if_neg (Nat.ne_of_lt ho), Machine.keyOf]
  | drive | scratch | gate => exact ⟨ho, rfl⟩

theorem Distinct.addLock (hm : m.Distinct) (name : String) (value : UInt64) :
    (m.addLock name value).Distinct := by
  have hnone : ∀ o, (m.addLock name value).Has o → ¬m.Has o → o = .lock m.locks.size := fun o ho h => by
    cases o with
    | lock j =>
      have hlt : j < m.locks.size + 1 := Array.size_push .. ▸ ho
      have hge : m.locks.size ≤ j := Nat.le_of_not_lt h
      rw [show j = m.locks.size by omega]
    | drive | scratch | gate => exact absurd ho h
  refine hm.grow (Nat.le_succ _) (holds_addLock name value) (fun o ho h => ?_)
    (fun o o' ho ho' h h' _ => (hnone o ho h).trans (hnone o' ho' h').symm) hm.registered
  rw [hnone o ho h, Machine.keyOf, lockAt_addLock, if_pos rfl]
  exact ⟨Nat.le_refl _, Nat.lt_succ_self _⟩

def addGate (m : Machine) : Machine :=
  { m with nextKey := m.nextKey + 1, gates := m.gates.push { key := m.nextKey } }

private theorem gateAt_addGate (m : Machine) (j : Nat) :
    m.addGate.gateAt j = if j = m.gates.size then { key := m.nextKey } else m.gateAt j := by
  simp only [gateAt, addGate, Array.getD_eq_getD_getElem?, Array.getElem?_push]
  split <;> rfl

theorem holds_addGate : m.Holds m.addGate := fun o ho => by
  cases o with
  | gate j =>
    refine ⟨?_, ?_⟩
    · rw [Has, Machine.addGate, Array.size_push]
      exact Nat.lt_succ_of_lt ho
    · rw [Machine.keyOf, gateAt_addGate, if_neg (Nat.ne_of_lt ho), Machine.keyOf]
  | drive | scratch | lock => exact ⟨ho, rfl⟩

theorem Distinct.addGate (hm : m.Distinct) : m.addGate.Distinct := by
  have hnone : ∀ o, m.addGate.Has o → ¬m.Has o → o = .gate m.gates.size := fun o ho h => by
    cases o with
    | gate j =>
      have hlt : j < m.gates.size + 1 := Array.size_push .. ▸ ho
      have hge : m.gates.size ≤ j := Nat.le_of_not_lt h
      rw [show j = m.gates.size by omega]
    | drive | scratch | lock => exact absurd ho h
  refine hm.grow (Nat.le_succ _) holds_addGate (fun o ho h => ?_)
    (fun o o' ho ho' h h' _ => (hnone o ho h).trans (hnone o' ho' h').symm) hm.registered
  rw [hnone o ho h, Machine.keyOf, gateAt_addGate, if_pos rfl]
  exact ⟨Nat.le_refl _, Nat.lt_succ_self _⟩

/-- The machine after a drive has been registered. -/
def addDrive (m : Machine) (r : Registration) : Machine :=
  { m with
    nextKey := m.nextKey + 2
    bays := m.bays.push ⟨r.number, .ofConfig r.config m.nextKey (m.nextKey + 1), r.controller⟩
    registry := (r.number, m.bays.size) :: m.registry.filter fun e => e.1 != r.number }

private theorem bay_addDrive (m : Machine) (r : Registration) (b : BayId) :
    (m.addDrive r).bay b =
      if b = m.bays.size then ⟨r.number, .ofConfig r.config m.nextKey (m.nextKey + 1), r.controller⟩
      else m.bay b := by
  simp only [bay, addDrive, Array.getD_eq_getD_getElem?, Array.getElem?_push]
  split <;> rfl

theorem bay_addDrive_of_lt (hb : b < m.bays.size) (r : Registration) :
    (m.addDrive r).bay b = m.bay b := by
  rw [bay_addDrive, if_neg (Nat.ne_of_lt hb)]

private theorem size_bays_addDrive (m : Machine) (r : Registration) :
    (m.addDrive r).bays.size = m.bays.size + 1 := Array.size_push ..

theorem holds_addDrive (r : Registration) : m.Holds (m.addDrive r) := fun o ho => by
  cases o with
  | drive b | scratch b =>
    refine ⟨?_, by rw [Machine.keyOf, bay_addDrive_of_lt ho, Machine.keyOf]⟩
    rw [Has, size_bays_addDrive]
    exact Nat.lt_succ_of_lt ho
  | lock | gate => exact ⟨ho, rfl⟩

/-- A new drive and its scratch block have keys of their own, also where the drive takes the place of
another one. -/
theorem Distinct.addDrive (hm : m.Distinct) (r : Registration) : (m.addDrive r).Distinct := by
  have hsize := size_bays_addDrive m r
  have hnew : (m.addDrive r).bay m.bays.size =
      ⟨r.number, .ofConfig r.config m.nextKey (m.nextKey + 1), r.controller⟩ := by
    rw [bay_addDrive, if_pos rfl]
  have hnone : ∀ o, (m.addDrive r).Has o → ¬m.Has o →
      o = .drive m.bays.size ∧ (m.addDrive r).keyOf o = m.nextKey ∨
        o = .scratch m.bays.size ∧ (m.addDrive r).keyOf o = m.nextKey + 1 := fun o ho h => by
    cases o with
    | drive b =>
      have hlt : b < m.bays.size + 1 := hsize ▸ ho
      obtain rfl : b = m.bays.size := Nat.le_antisymm (Nat.le_of_lt_succ hlt) (Nat.le_of_not_lt h)
      exact .inl ⟨rfl, by rw [Machine.keyOf, hnew]; rfl⟩
    | scratch b =>
      have hlt : b < m.bays.size + 1 := hsize ▸ ho
      obtain rfl : b = m.bays.size := Nat.le_antisymm (Nat.le_of_lt_succ hlt) (Nat.le_of_not_lt h)
      exact .inr ⟨rfl, by rw [Machine.keyOf, hnew]; rfl⟩
    | lock | gate => exact absurd ho h
  refine hm.grow (Nat.le_add_right _ 2) (holds_addDrive r) (fun o ho h => ?_) (fun o o' ho ho' h h' heq => ?_)
    fun e he => ?_
  · have hkey : (m.addDrive r).nextKey = m.nextKey + 2 := rfl
    rcases hnone o ho h with ⟨-, hk⟩ | ⟨-, hk⟩ <;> omega
  · rcases hnone o ho h with ⟨rfl, hk⟩ | ⟨rfl, hk⟩ <;> rcases hnone o' ho' h' with ⟨rfl, hk'⟩ | ⟨rfl, hk'⟩ <;>
      first | rfl | omega
  · rcases List.mem_cons.1 he with rfl | he
    · exact ⟨by rw [hsize]; exact Nat.lt_succ_self _, by rw [hnew]⟩
    · obtain ⟨hlt, hnumber⟩ := hm.registered e (List.mem_filter.1 he).1
      exact ⟨by rw [hsize]; exact Nat.lt_succ_of_lt hlt, by rw [bay_addDrive_of_lt hlt, hnumber]⟩

end Machine

end DiskStack
