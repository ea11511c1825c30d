import DiskStack.Machine.Registry
import DiskStack.Proofs.Chains
import DiskStack.Proofs.View

/-!
# Bringing a drive up

However a controller answers, a handshake that succeeds hands over fresh rings: every slot is free,
no request is in flight, and no ring has been used. Holding the dialogue changes nothing that a task
sees but the controller.
-/

namespace DiskStack

namespace Dialogue

variable {α β : Type}

/-- A condition that the outcome of a dialogue meets for all answers. -/
def All (P : α → Prop) : Dialogue α → Prop
  | .done a => P a
  | .ask _ next => ∀ answer, All P (next answer)
  | .tell _ next => All P next

def hold : Dialogue α → Controller → α × Controller
  | .done a, c => (a, c)
  | .ask q next, c => (next (c.ask q).1).hold (c.ask q).2
  | .tell command next, c => next.hold (c.tell command)

private theorem All.hold {P : α → Prop} {d : Dialogue α} (h : d.All P) (c : Controller) :
    P (d.hold c).1 := by
  induction d generalizing c with
  | done a => exact h
  | ask q next ih => exact ih _ (h _) _
  | tell command next ih => exact ih h _

theorem all_bind {P : β → Prop} {d : Dialogue α} {f : α → Dialogue β}
    (h : d.All fun a => (f a).All P) : (d >>= f).All P := by
  induction d with
  | done a => exact h
  | ask q next ih => exact fun answer => ih answer (h answer)
  | tell command next ih => exact ih h

theorem hold_bind (d : Dialogue α) (f : α → Dialogue β) (c : Controller) :
    (d >>= f).hold c = (f (d.hold c).1).hold (d.hold c).2 := by
  induction d generalizing c with
  | done a => rfl
  | ask q next ih => exact ih _ _
  | tell command next ih => exact ih _

private theorem mode_tell (c : Controller) (command : Command) : (c.tell command).mode = c.mode := by
  cases command <;> rfl

end Dialogue

namespace Negotiation

variable {α β : Type}

/-- A condition that a negotiation meets for all answers, if it does not fail. -/
def Ensures (x : Negotiation α) (P : α → Prop) : Prop :=
  Dialogue.All (fun r => ∀ a, r = .ok a → P a) x.run

private theorem ensures_bind {P : β → Prop} {x : Negotiation α} {f : α → Negotiation β}
    (h : ∀ a, Ensures (f a) P) : Ensures (x >>= f) P := by
  apply Dialogue.all_bind (d := x.run)
  generalize x.run = d
  induction d with
  | done r =>
    cases r with
    | ok a => exact h a
    | error e =>
      intro _ hr
      cases hr
  | ask q next ih => exact fun answer => ih answer
  | tell command next ih => exact ih

private theorem ensures_liftExcept {P : β → Prop} {e : Except InitError α} {f : α → Negotiation β}
    (h : ∀ a, e = .ok a → Ensures (f a) P) : Ensures (handshake.liftExcept e >>= f) P := by
  cases e with
  | ok a => exact h a rfl
  | error e =>
    intro _ hr
    cases hr

private theorem ensures_handshake (queueSize : UInt16) (arena : Arena) :
    Ensures (handshake queueSize arena) fun r =>
      Rings.ofSize queueSize arena = .ok (r.1.rings, r.2) ∧ r.1.nextTicket = 0 := by
  unfold handshake
  refine ensures_bind fun _ => ensures_bind fun _ => ensures_bind fun _ => ensures_bind fun _ =>
    ensures_bind fun _ => ensures_bind fun _ => ensures_bind fun _ => ensures_bind fun _ =>
    ensures_bind fun _ => ensures_liftExcept fun made hmade => ensures_bind fun _ =>
    ensures_bind fun _ => ensures_bind fun _ => ?_
  intro _ hr
  cases hr
  exact ⟨hmade, rfl⟩

end Negotiation

namespace Region

theorem byte_zeroed (base : UInt64) (size i : Nat) :
    (zeroed base size).byte i = 0 := by
  rw [byte, zeroed, Array.getD_eq_getD_getElem?, Array.getElem?_replicate]
  split <;> rfl

@[simp] theorem size_zeroed (base : UInt64) (length : Nat) : (zeroed base length).size = length :=
  Array.size_replicate

private theorem load_zeroed (base : UInt64) (size offset width : Nat) :
    (zeroed base size).load offset width = List.replicate width 0 := by
  rw [load, List.eq_replicate_iff]
  refine ⟨by simp, fun b hb => ?_⟩
  obtain ⟨i, -, rfl⟩ := List.mem_map.1 hb
  exact byte_zeroed _ _ _

theorem load16_zeroed (base : UInt64) (size offset : Nat) :
    (zeroed base size).load16 offset = 0 := by
  rw [load16, load_zeroed]
  rfl

theorem le_roundUp (size : Nat) : size ≤ roundUp size := by
  simp only [roundUp, pageSize]
  omega

private theorem roundUp_of_le {size : Nat} (h : size ≤ pageSize) : roundUp size = pageSize := by
  have hdiv : (max size 1 + pageSize - 1) / pageSize = 1 := by
    simp only [pageSize] at h ⊢
    omega
  rw [roundUp, hdiv, Nat.one_mul]

/-- The zero region that covers one page. -/
def page (k : Nat) : Region := zeroed (UInt64.ofNat (k * pageSize)) pageSize

@[simp] theorem size_page (k : Nat) : (page k).size = pageSize := size_zeroed ..

theorem load16_page (k offset : Nat) : (page k).load16 offset = 0 := load16_zeroed _ _ _

end Region

namespace Arena

/-- The page that an arena answers the request for one page with, after some more have been asked for. -/
def page? (a : Arena) (later : Nat) : Option Nat := a.allocator.grant (a.next + later) 1

/-- The arena after so many more pages have been asked for. -/
def after (a : Arena) (count : Nat) : Arena := { a with next := a.next + count }

private theorem zeroed_of_le (a : Arena) {size : Nat} (h : size ≤ pageSize) (later : Nat) :
    (a.after later).zeroed size =
      (a.page? later).map fun k => (Region.page k, a.after (later + 1)) := by
  rw [zeroed, Region.roundUp_of_le h, if_pos (by decide)]
  rfl

theorem exists_of_zeroed {a rest : Arena} {r : Region} {size : Nat}
    (h : a.zeroed size = some (r, rest)) :
    ∃ base, r = .zeroed base (Region.roundUp size) := by
  rw [zeroed] at h
  split at h
  · obtain ⟨page, -, hpage⟩ := Option.map_eq_some_iff.1 h
    cases hpage
    exact ⟨_, rfl⟩
  · cases h

end Arena

/-- What an arena answers, as a result. -/
def InitError.ofOption {α : Type} : Option α → Except InitError α
  | some a => .ok a
  | none => .error .outOfMemory

private theorem InitError.ofOption_map_bind {α β γ : Type} {x : Option α} {k : α → β}
    {f : β → Except InitError γ} {g : α → Option γ} (h : ∀ a, f (k a) = ofOption (g a)) :
    (ofOption (x.map k) >>= f) = ofOption (x >>= g) := by
  cases x with
  | none => rfl
  | some a => exact h a

section parts

variable {size : UInt16} (a : Arena) (later : Nat)

theorem DescriptorPool.ofSize_after (hnot : ¬(size = 0 ∨ maxQueueSize < size))
    (hsize : size.toNat * Descriptor.width ≤ pageSize) :
    DescriptorPool.ofSize size (a.after later) = InitError.ofOption ((a.page? later).map fun k =>
      (⟨Region.page k, size, BitVec.twoPow 64 size.toNat - 1⟩, a.after (later + 1))) := by
  rw [ofSize, if_neg hnot, a.zeroed_of_le hsize]
  cases a.page? later <;> rfl

theorem AvailRing.ofSize_after (hsize : ringOffset + 2 * size.toNat + 2 ≤ pageSize) :
    AvailRing.ofSize size (a.after later) = InitError.ofOption ((a.page? later).map fun k =>
      (⟨Region.page k, size⟩, a.after (later + 1))) := by
  rw [ofSize, a.zeroed_of_le hsize]
  cases a.page? later <;> rfl

theorem UsedRing.ofSize_after (hsize : ringOffset + elementWidth * size.toNat + 2 ≤ pageSize) :
    UsedRing.ofSize size (a.after later) = InitError.ofOption ((a.page? later).map fun k =>
      (⟨Region.page k, size, 0⟩, a.after (later + 1))) := by
  rw [ofSize, a.zeroed_of_le hsize]
  cases a.page? later <;> rfl

private theorem VirtQueue.ofSize_after (hpos : size ≠ 0) (hmost : size.toNat ≤ 64) :
    VirtQueue.ofSize size (a.after later) = InitError.ofOption do
      let table ← a.page? later
      let avail ← a.page? (later + 1)
      let used ← a.page? (later + 2)
      return (⟨⟨Region.page table, size, BitVec.twoPow 64 size.toNat - 1⟩, ⟨Region.page avail, size⟩,
        ⟨Region.page used, size, 0⟩⟩, a.after (later + 3)) := by
  have hpage : pageSize = 4096 := rfl
  have hnot : ¬(size = 0 ∨ maxQueueSize < size) := by
    rintro (h | h)
    · exact hpos h
    · have hlt : 64 < size.toNat := UInt16.lt_iff_toNat_lt.1 h
      omega
  have htable := DescriptorPool.ofSize_after a later hnot (by simp only [Descriptor.width]; omega)
  have havail : AvailRing.ofSize size (a.after (later + 1)) = _ := AvailRing.ofSize_after a (later + 1)
    (by simp only [AvailRing.ringOffset]; omega)
  have hused : UsedRing.ofSize size (a.after (later + 2)) = _ := UsedRing.ofSize_after a (later + 2)
    (by simp only [UsedRing.ringOffset, UsedRing.elementWidth]; omega)
  rw [ofSize, htable]
  refine InitError.ofOption_map_bind fun table => ?_
  change AvailRing.ofSize size (a.after (later + 1)) >>= _ = _
  rw [havail]
  refine InitError.ofOption_map_bind fun avail => ?_
  change UsedRing.ofSize size (a.after (later + 2)) >>= _ = _
  rw [hused]
  exact InitError.ofOption_map_bind fun used => rfl

end parts

/-- The pages of the regions of a drive. -/
structure RingPages where
  headers : Nat
  status : Nat
  table : Nat
  avail : Nat
  used : Nat

/-- The pages that an arena has for a drive, if it has all of them. -/
def Arena.ringPages? (a : Arena) : Option RingPages := do
  return ⟨← a.page? 0, ← a.page? 1, ← a.page? 2, ← a.page? 3, ← a.page? 4⟩

namespace Rings

/-- Rings of a size that nothing has been done with, on some pages. -/
def unused (size : UInt16) (p : RingPages) : Rings where
  queue :=
    { pool := ⟨Region.page p.table, size, BitVec.twoPow 64 size.toNat - 1⟩
      avail := ⟨Region.page p.avail, size⟩
      used := ⟨Region.page p.used, size, 0⟩ }
  headers := Region.page p.headers
  status := Region.page p.status
  inFlight := Array.replicate size.toNat none

/-- The rings that an arena has the memory for. -/
def made? (size : UInt16) (a : Arena) : Option Rings := a.ringPages?.map (unused size)

/-- Rings of a possible size come from five pages of the arena, or there is no memory for them. -/
theorem ofSize_eq (size : UInt16) (arena : Arena) (hpos : size ≠ 0) (hmost : size.toNat ≤ 64) :
    Rings.ofSize size arena = InitError.ofOption ((made? size arena).map (·, arena.after 5)) := by
  have hpage : pageSize = 4096 := rfl
  have hheaders : arena.zeroed (size.toNat * RequestHeader.width) = _ :=
    arena.zeroed_of_le (by simp only [RequestHeader.width]; omega) 0
  have hstatus : (arena.after 1).zeroed size.toNat = _ := arena.zeroed_of_le (by omega) 1
  have hqueue := VirtQueue.ofSize_after arena 2 hpos hmost
  rw [Rings.ofSize, hheaders, made?, Arena.ringPages?]
  cases arena.page? 0 with
  | none => rfl
  | some headers =>
    simp only [Option.map_some, hstatus]
    cases arena.page? 1 with
    | none => rfl
    | some status =>
      simp only [Option.map_some, hqueue]
      cases arena.page? 2 with
      | none => rfl
      | some table =>
        cases arena.page? 3 with
        | none => rfl
        | some avail => cases arena.page? 4 <;> rfl

theorem entryAt_unused (size : UInt16) (p : RingPages) (j : Nat) : (unused size p).entryAt j = none := by
  rw [entryAt, unused, Array.getElem?_replicate]
  split <;> rfl

theorem slot_unused (size : UInt16) (p : RingPages) (j : Nat) : (unused size p).slot j = .empty := by
  rw [slot, DescriptorPool.slot]
  change Descriptor.decode ((Region.page p.table).load _ _) = _
  rw [Region.page, Region.load_zeroed]
  rfl

theorem inFlightCount_unused (size : UInt16) (p : RingPages) : (unused size p).inFlightCount = 0 := by
  rw [inFlightCount, Array.countP_eq_zero]
  intro e he
  rw [unused, Array.mem_replicate] at he
  rw [he.2]
  exact Bool.false_ne_true

theorem unused_balanced (size : UInt16) (p : RingPages) (hleast : 3 ≤ size.toNat)
    (hmost : size.toNat ≤ 64) : (unused size p).Balanced size.toNat := by
  have hpage : pageSize = 4096 := rfl
  have hfree : ∀ j, j < 64 → (unused size p).queue.pool.free.getLsbD j = decide (j < size.toNat) :=
    fun j hj => DescriptorPool.getLsbD_full hmost hj
  have hnone := entryAt_unused size p
  have hhead : ∀ h, ¬(unused size p).IsHead h := fun h hh => by
    rw [IsHead, hnone] at hh
    cases hh
  refine ⟨?_, fun h hh => absurd hh (hhead h), fun h _ hh => absurd hh (hhead h), ?_, ?_⟩
  · constructor
    case pool =>
      refine ⟨hmost, ?_, fun j hj => ?_⟩
      · simp only [unused, Region.size_page, Descriptor.width]
        omega
      · rw [hfree j (BitVec.lt_of_getLsbD hj)] at hj
        exact of_decide_eq_true hj
    case poolSize => rfl
    case availSize => rfl
    case usedSize => rfl
    case entries => exact Array.size_replicate ..
    case headers =>
      simp only [unused, Region.size_page, RequestHeader.width]
      omega
    case status =>
      simp only [unused, Region.size_page]
      omega
    case avail =>
      simp only [unused, Region.size_page, AvailRing.ringOffset]
      omega
    case used =>
      simp only [unused, Region.size_page, UsedRing.ringOffset, UsedRing.elementWidth]
      omega
    case least => exact hleast
  · rintro i ⟨hlt, hf⟩
    have hi : i.toNat < size.toNat := hlt
    rw [hfree _ (by omega), decide_eq_false_iff_not] at hf
    exact absurd hi hf
  · have hcount : (unused size p).queue.pool.numFree = size.toNat :=
      DescriptorPool.numFree_full hmost rfl
    have hzero := inFlightCount_unused size p
    omega

end Rings

namespace View

/-- What bringing a drive up leads to. It is tried once; the dialogue is held with the controller
that the drive has. -/
inductive Starts (v : View) : View → Prop
  | refused (h : v.state ≠ .uninitialized) : Starts v v
  | invalid (h : v.state = .uninitialized) (hc : v.config.isValid = false) :
    Starts v { v with state := .incompatible }
  | failed (h : v.state = .uninitialized) (hc : v.config.isValid = true) (e : InitError)
    (he : ((handshake v.config.queueSize v.arena).run.hold v.controller).1 = .error e) :
    Starts v
      { v with
        state := .incompatible
        controller := ((handshake v.config.queueSize v.arena).run.hold v.controller).2 }
  | started (h : v.state = .uninitialized) (hc : v.config.isValid = true) (s : ReadyState)
    (arena : Arena)
    (hs : ((handshake v.config.queueSize v.arena).run.hold v.controller).1 = .ok (s, arena)) :
    Starts v
      { v with
        state := .ready s
        arena
        controller := ((handshake v.config.queueSize v.arena).run.hold v.controller).2 }

theorem Starts.still {v v' : View} (h : v.Starts v') :
    v'.activity = v.activity ∧ v'.requests = v.requests := by
  cases h <;> exact ⟨rfl, rfl⟩

end View

theorem DriveConfig.queue_of_isValid {c : DriveConfig} (h : c.isValid = true) :
    3 ≤ c.queueSize.toNat ∧ c.queueSize.toNat ≤ 64 := by
  simp only [isValid, Bool.and_eq_true, decide_eq_true_eq] at h
  exact ⟨h.1.2, UInt16.le_iff_toNat_le.1 h.2⟩

theorem DriveConfig.block_of_isValid {c : DriveConfig} (h : c.isValid = true) :
    c.blockSize = sectorSize * c.sectorsPerBlock ∧ 0 < c.sectorsPerBlock ∧ c.blockSize ≤ pageSize := by
  simp only [DriveConfig.isValid, Bool.and_eq_true, decide_eq_true_eq, beq_iff_eq] at h
  obtain ⟨⟨⟨⟨hleast, hwhole⟩, hpage⟩, -⟩, -⟩ := h
  have hdvd := Nat.dvd_of_mod_eq_zero hwhole
  refine ⟨?_, Nat.div_pos hleast (by decide), hpage⟩
  rw [DriveConfig.sectorsPerBlock, Nat.mul_div_cancel' hdvd]

theorem View.rings_of_started {v : View} {s : ReadyState} {arena : Arena}
    (hc : v.config.isValid = true)
    (hs : ((handshake v.config.queueSize v.arena).run.hold v.controller).1 = .ok (s, arena)) :
    (∃ p, v.arena.ringPages? = some p ∧ s.rings = .unused v.config.queueSize p) ∧
      arena = v.arena.after 5 ∧ s.nextTicket = 0 := by
  obtain ⟨hleast, hmost⟩ := DriveConfig.queue_of_isValid hc
  have hall := (Negotiation.ensures_handshake v.config.queueSize v.arena).hold v.controller
  obtain ⟨hrings, hticket⟩ := hall _ hs
  have hpos : v.config.queueSize ≠ 0 := fun h => by
    rw [h, UInt16.toNat_zero] at hleast
    omega
  rw [Rings.ofSize_eq _ _ hpos hmost, Rings.made?] at hrings
  cases hp : v.arena.ringPages? with
  | none =>
    rw [hp] at hrings
    cases hrings
  | some p =>
    rw [hp] at hrings
    change Except.ok (_, _) = Except.ok (_, _) at hrings
    rw [Except.ok.injEq, Prod.mk.injEq] at hrings
    exact ⟨⟨p, rfl, hrings.1.symm⟩, hrings.2.symm, hticket⟩

namespace Run

variable {m : Machine} {b : BayId} {v : View} {α : Type}

private theorem ends_dialogue (hm : m.Shows b v) (d : Dialogue α) :
    Ends (d.run (ask b) (command b)) m fun r m' =>
      r = .ok (d.hold v.controller).1 ∧
        m'.Shows b { v with controller := (d.hold v.controller).2 } := by
  induction d generalizing m v with
  | done a => exact ends_pure ⟨rfl, hm⟩
  | ask q next ih =>
    refine ends_bind (ends_get (ends_set (ends_pure ?_)))
    have hcontroller : (m.bay b).controller = v.controller := by rw [← hm.view]; rfl
    have hset := (hm.setController (f := fun _ => (v.controller.ask q).2) rfl).emit
      (.query (m.bay b).number q (v.controller.ask q).1)
    rw [hcontroller]
    exact ih _ hset
  | tell command next ih =>
    exact ends_bind (ih ((hm.setController (Dialogue.mode_tell _ command)).emit _))

private theorem hides_logNegotiation (config : DriveConfig) (state : DriveState)
    (r : Except InitError Unit) : Hides b (logNegotiation config state r) := by
  cases r with
  | ok _ => exact hides_log _ _ _
  | error e => exact hides_log _ _ _

private theorem ends_ifHides {c : Prop} [Decidable c] {x : Run Unit} {f : Unit → Run α}
    {Q : Except Halt α → Machine → Prop} (hx : Hides b x) (hm : m.Shows b v)
    (h : ∀ m', m'.Shows b v → Ends (f ()) m' Q) :
    Ends (if c then x >>= f else f ()) m Q := by
  split
  · exact hx.bind hm fun _ => h
  · exact h m hm

theorem starts_of_bringUp (v : View) (d : Drive) (hconfig : d.config = v.config)
    (hstate : d.state = v.state) :
    v.Starts
      { v with
        controller := ((d.bringUp v.arena).hold v.controller).2
        state := ((d.bringUp v.arena).hold v.controller).1.2.1
        arena := ((d.bringUp v.arena).hold v.controller).1.2.2 } := by
  rw [Drive.bringUp, hconfig, hstate]
  cases hs : v.state with
  | ready s =>
    have hsame : { v with state := .ready s } = v := by rw [← hs]
    change v.Starts { v with state := .ready s }
    rw [hsame]
    exact .refused (by rw [hs]; exact DriveState.noConfusion)
  | incompatible =>
    have hsame : { v with state := .incompatible } = v := by rw [← hs]
    change v.Starts { v with state := .incompatible }
    rw [hsame]
    exact .refused (by rw [hs]; exact DriveState.noConfusion)
  | uninitialized =>
    cases hc : v.config.isValid with
    | false => exact .invalid hs hc
    | true =>
      simp only [if_true, Dialogue.hold_bind]
      cases hr : ((handshake v.config.queueSize v.arena).run.hold v.controller).1 with
      | ok p => exact .started hs hc p.1 p.2 hr
      | error e => exact .failed hs hc e hr

theorem ends_bringUp (hm : m.Shows b v) :
    Ends (bringUp b) m fun r m' => (∃ a, r = .ok a) ∧ ∃ v', v.Starts v' ∧ m'.Shows b v' := by
  refine (hides_mask controlTask).bind hm fun saved m₁ hm₁ => ends_get ?_
  have hconfig : (m₁.bay b).drive.config = v.config := by rw [← hm₁.view]; rfl
  have hstate : (m₁.bay b).drive.state = v.state := by rw [← hm₁.view]; rfl
  have harena : m₁.arena = v.arena := by rw [← hm₁.view]; rfl
  have hstarts := starts_of_bringUp v (m₁.bay b).drive hconfig hstate
  rw [harena]
  refine ends_ifHides (hides_log _ _ _) hm₁ fun m₂ hm₂ => ends_bind ?_
  apply (ends_dialogue hm₂ _).mono
  rintro _ m₃ ⟨rfl, hm₃⟩
  refine ends_modify (ends_ifHides (hides_logNegotiation _ _ _) ((hm₃.setState _).arena _)
    fun m₄ hm₄ => (hides_restore controlTask saved).bind hm₄ fun _ m₅ hm₅ => ends_pure ?_)
  exact ⟨⟨_, rfl⟩, _, hstarts, hm₅⟩

end Run

end DiskStack
