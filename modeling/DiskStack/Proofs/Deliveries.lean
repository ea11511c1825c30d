import Mathlib.Logic.Relation
import DiskStack.Proofs.Collection

/-!
# The used ring delivers

A controller writes each element under its running index and then moves the index on, with no more
elements written and not yet popped than the ring has places. Main results: elements are popped in the
order in which they were written, each of them once, and a pop finds nothing just when all have been
popped; a ring whose index stands still gives as many elements as the index is ahead of the cursor and
then nothing, whatever its memory holds, so the handler's loop comes to its end.
-/

namespace DiskStack

open Run (CompletionPoint)

namespace UsedRing

/-- From the cursor up to the controller's index the ring holds these elements. -/
structure Carries (r : UsedRing) (elements : List UsedElement) : Prop where
  index : r.deviceIndex = r.lastSeen + UInt16.ofNat elements.length
  element : ∀ i (h : i < elements.length), r.report (r.lastSeen + UInt16.ofNat i) = elements[i]

variable {r q : UsedRing} {e : UsedElement} {elements : List UsedElement} {n : Nat}

/-- A ring just laid out has room for its elements, and its cursor is where its index is. -/
theorem of_ofSize {size : UInt16} {arena rest : Arena} (fresh : ofSize size arena = .ok (r, rest)) :
    r.size = size ∧ ringOffset + elementWidth * size.toNat ≤ r.region.size ∧ r.lastSeen = 0 ∧
      r.deviceIndex = 0 := by
  rw [ofSize] at fresh
  split at fresh
  · cases fresh
  · next h =>
    obtain ⟨base, rfl⟩ := Arena.exists_of_zeroed h
    cases fresh
    refine ⟨rfl, ?_, rfl, Region.load16_zeroed _ _ _⟩
    rw [Region.size_zeroed]
    exact Nat.le_trans (Nat.le_add_right _ 2) (Region.le_roundUp _)

private theorem running_zero (first : UInt16) : first + UInt16.ofNat 0 = first := UInt16.add_zero _

private theorem Carries.pop (hr : r.Carries (e :: elements)) (hn : r.size ≠ 0)
    (hlen : (e :: elements).length < 65536) :
    r.pop = .ok (some (e, { r with lastSeen := r.lastSeen + 1 })) ∧
      Carries { r with lastSeen := r.lastSeen + 1 } elements := by
  have hmore : r.isDrained = false := by
    rw [isDrained, beq_eq_false_iff_ne, hr.index]
    intro h
    have hnat := congrArg UInt16.toNat h
    rw [UInt16.toNat_add, UInt16.toNat_ofNat', List.length_cons] at hnat
    have hseen := r.lastSeen.toNat_lt
    rw [List.length_cons] at hlen
    omega
  have hfirst := hr.element 0 (Nat.succ_pos _)
  rw [running_zero] at hfirst
  refine ⟨?_, ?_, fun i hi => ?_⟩
  · rw [UsedRing.pop, hmore, take, if_neg hn]
    exact congrArg (fun x => Except.ok (some (x, _))) hfirst
  · have hindex := hr.index
    rwa [List.length_cons, running_succ] at hindex
  · have helement := hr.element (i + 1) (Nat.succ_lt_succ hi)
    rwa [running_succ] at helement

private theorem Carries.pop_nil (hr : r.Carries []) : r.pop = .ok none := by
  have hindex := hr.index
  rw [List.length_nil, running_zero] at hindex
  rw [UsedRing.pop, isDrained, hindex, beq_self_eq_true, if_pos rfl]

/-- An element written under the index lies at a place of its own, if the ring divides the wrap. -/
private theorem Carries.placed (hr : r.Carries elements) (hn : n ∣ 65536) (hsize : r.size.toNat = n)
    (hroom : elements.length < n) (hfit : ringOffset + elementWidth * n ≤ r.region.size)
    (e : UsedElement) : (r.placed e).Carries elements ∧ (r.placed e).report r.deviceIndex = e := by
  have hpos : 0 < r.size.toNat := by omega
  have hreport := report_placed hpos (hsize ▸ hfit) e
  refine ⟨⟨(deviceIndex_placed e).trans hr.index, fun i hi => ?_⟩, ?_⟩
  · have hne := running_mod_ne hn r.lastSeen r.size hsize hi (by omega)
    rw [← hr.index] at hne
    exact (hreport _).trans ((if_neg hne).trans (hr.element i hi))
  · rw [hreport, if_pos rfl]

/-- Once the index has moved on, the element under it is the latest that the ring holds. -/
private theorem Carries.advanced (hr : r.Carries elements) (he : r.report r.deviceIndex = e)
    (hfit : ringOffset ≤ r.region.size) : r.advanced.Carries (elements ++ [e]) := by
  constructor
  · rw [deviceIndex_advanced hfit, hr.index, List.length_append, List.length_singleton,
      UInt16.ofNat_add, ← UInt16.add_assoc]
    rfl
  · intro i hi
    rw [List.length_append, List.length_singleton] at hi
    rw [report_advanced]
    rcases Nat.lt_or_ge i elements.length with hlt | hge
    · rw [List.getElem_append_left hlt]
      exact hr.element i hlt
    · obtain rfl : i = elements.length := by omega
      rw [List.getElem_concat_length rfl]
      exact (congrArg r.report hr.index).symm.trans he

/-! ### A ring whose index stands still -/

/-- Pops one after the other, each of which gives an element. -/
inductive Pops : UsedRing → List UsedElement → UsedRing → Prop
  | none (r : UsedRing) : Pops r [] r
  | more {r q r' : UsedRing} {e : UsedElement} {es : List UsedElement}
    (h : r.pop = .ok (some (e, q))) (rest : Pops q es r') : Pops r (e :: es) r'

/-- What the memory has from the cursor up to the controller's index. -/
def pending (r : UsedRing) : List UsedElement :=
  (List.range r.backlog).map fun i => r.report (r.lastSeen + UInt16.ofNat i)

private theorem length_pending (r : UsedRing) : r.pending.length = (r.deviceIndex - r.lastSeen).toNat := by
  rw [pending, List.length_map, List.length_range, backlog]

private theorem carries_pending (r : UsedRing) : r.Carries r.pending where
  index := by
    rw [length_pending, UInt16.ofNat_toNat, UInt16.add_comm, UInt16.sub_add_cancel]
  element i hi := by
    simp only [pending, List.getElem_map, List.getElem_range]

private theorem Carries.pops_iff (hr : r.Carries elements) (hn : r.size ≠ 0)
    (hlen : elements.length < 65536)
    (es : List UsedElement) :
    r.Pops es q ∧ q.pop = .ok none ↔ es = elements ∧ q = { r with lastSeen := r.deviceIndex } := by
  induction elements generalizing r es with
  | nil =>
    have hcaught : { r with lastSeen := r.deviceIndex } = r := by
      have hindex := hr.index
      rw [List.length_nil, running_zero] at hindex
      rw [hindex]
    rw [hcaught]
    constructor
    · rintro ⟨hpops, -⟩
      cases hpops with
      | none => exact ⟨rfl, rfl⟩
      | more h => cases hr.pop_nil.symm.trans h
    · rintro ⟨rfl, rfl⟩
      exact ⟨.none _, hr.pop_nil⟩
  | cons e elements ih =>
    obtain ⟨hpop, hrest⟩ := hr.pop hn hlen
    have hnext := ih hrest hn (Nat.lt_of_succ_lt hlen)
    constructor
    · rintro ⟨hpops, hend⟩
      cases hpops with
      | none => cases hpop.symm.trans hend
      | more h rest =>
        cases hpop.symm.trans h
        obtain ⟨rfl, rfl⟩ := (hnext _).1 ⟨rest, hend⟩
        exact ⟨rfl, rfl⟩
    · rintro ⟨rfl, rfl⟩
      obtain ⟨hpops, hend⟩ := (hnext _).2 ⟨rfl, rfl⟩
      exact ⟨.more hpop hpops, hend⟩

end UsedRing

/-! ### A controller that writes while the driver pops -/

/-- A used ring between its controller and its driver, with what the two have done so far. -/
structure Delivery where
  ring : UsedRing
  /-- The element under the controller's index, once it is written there. -/
  draft : Option UsedElement := none
  /-- The elements that the index has moved past. -/
  written : List UsedElement := []
  popped : List UsedElement := []

namespace Delivery

def drafting (d : Delivery) (e : UsedElement) : Delivery :=
  { d with ring := d.ring.placed e, draft := some e }

def publishing (d : Delivery) (e : UsedElement) : Delivery :=
  { d with ring := d.ring.advanced, draft := none, written := d.written ++ [e] }

def popping (d : Delivery) (e : UsedElement) (ring : UsedRing) : Delivery :=
  { d with ring, popped := d.popped ++ [e] }

inductive Step (d : Delivery) : Delivery → Prop
  | draft (e : UsedElement) (few : d.written.length < d.popped.length + d.ring.size.toNat) :
    Step d (d.drafting e)
  | publish (e : UsedElement) (h : d.draft = some e) : Step d (d.publishing e)
  | pop (e : UsedElement) (ring : UsedRing) (h : d.ring.pop = .ok (some (e, ring))) :
    Step d (d.popping e ring)

abbrev Run : Delivery → Delivery → Prop := Relation.ReflTransGen Step

/-- The elements popped are those written first, and a pop gives the next one unless there is none. -/
structure InOrder (d : Delivery) : Prop where
  order : d.popped <+: d.written
  next : ∀ e rest, d.written = d.popped ++ e :: rest → ∃ ring, d.ring.pop = .ok (some (e, ring))
  drained : d.ring.pop = .ok none ↔ d.popped = d.written

/-- The elements between the driver's cursor and the controller's index are those written and not yet
popped, and the draft lies under the index. -/
structure Sound (d : Delivery) (n : Nat) (elements : List UsedElement) : Prop where
  divides : n ∣ 65536
  size : d.ring.size.toNat = n
  fits : UsedRing.ringOffset + UsedRing.elementWidth * n ≤ d.ring.region.size
  written : d.written = d.popped ++ elements
  few : elements.length ≤ n
  carries : d.ring.Carries elements
  draft : ∀ e, d.draft = some e → elements.length < n ∧ d.ring.report d.ring.deviceIndex = e

variable {d d' : Delivery} {n : Nat} {elements : List UsedElement}

private theorem Sound.size_ne (hd : d.Sound n elements) : d.ring.size ≠ 0 := by
  intro h
  have hdivides := hd.divides
  rw [← hd.size, h] at hdivides
  exact absurd (Nat.eq_zero_of_zero_dvd hdivides) (by decide)

private theorem Sound.lt_wrap (hd : d.Sound n elements) : elements.length < 65536 := by
  have hn : n < 65536 := hd.size ▸ d.ring.size.toNat_lt
  exact Nat.lt_of_le_of_lt hd.few hn

private theorem Sound.inOrder (hd : d.Sound n elements) : d.InOrder := by
  refine ⟨⟨elements, hd.written.symm⟩, fun e rest hrest => ?_, ?_⟩
  · cases (List.append_cancel_left (hd.written.symm.trans hrest))
    exact ⟨_, (hd.carries.pop hd.size_ne hd.lt_wrap).1⟩
  · rw [hd.written, List.self_eq_append_right]
    cases elements with
    | nil => exact iff_of_true hd.carries.pop_nil rfl
    | cons e rest =>
      refine iff_of_false (fun h => ?_) (List.cons_ne_nil e rest)
      cases (hd.carries.pop hd.size_ne hd.lt_wrap).1.symm.trans h

private theorem Sound.step (hd : d.Sound n elements) (h : d.Step d') :
    ∃ elements', d'.Sound n elements' := by
  have hsize := hd.size
  have hwritten := hd.written
  cases h with
  | draft e few =>
    rw [hwritten, List.length_append, hsize] at few
    have hroom : elements.length < n := by omega
    obtain ⟨hcarries, hreport⟩ := hd.carries.placed hd.divides hsize hroom hd.fits e
    refine ⟨elements, { hd with carries := hcarries, fits := ?_, draft := ?_ }⟩
    · simpa [drafting, UsedRing.placed] using hd.fits
    · rintro _ ⟨⟩
      exact ⟨hroom, (congrArg _ (UsedRing.deviceIndex_placed e)).trans hreport⟩
  | publish e h =>
    obtain ⟨hroom, hreport⟩ := hd.draft e h
    have hcarries := hd.carries.advanced hreport (Nat.le_trans (Nat.le_add_right ..) hd.fits)
    refine ⟨elements ++ [e], { hd with
      carries := hcarries, fits := ?_, written := ?_, few := ?_, draft := ?_ }⟩
    · simpa [publishing, UsedRing.advanced] using hd.fits
    · rw [publishing, hwritten, List.append_assoc]
    · rw [List.length_append, List.length_singleton]
      exact hroom
    · rintro _ ⟨⟩
  | pop e ring h =>
    cases elements with
    | nil => cases hd.carries.pop_nil.symm.trans h
    | cons first rest =>
      obtain ⟨hpop, hcarries⟩ := hd.carries.pop hd.size_ne hd.lt_wrap
      cases hpop.symm.trans h
      refine ⟨rest, { hd with carries := hcarries, written := ?_, few := ?_, draft := ?_ }⟩
      · rw [popping, hwritten, List.append_assoc]
        rfl
      · exact Nat.le_of_succ_le hd.few
      · intro e' he'
        obtain ⟨hroom, hreport⟩ := hd.draft e' he'
        exact ⟨Nat.lt_of_succ_lt hroom, hreport⟩

private theorem Sound.run (hd : d.Sound n elements) (h : Run d d') : ∃ elements', d'.Sound n elements' := by
  induction h with
  | refl => exact ⟨elements, hd⟩
  | tail _ step ih =>
    obtain ⟨elements', hd'⟩ := ih
    exact hd'.step step

private theorem sound_of_ofSize {size : UInt16} {arena rest : Arena} {ring : UsedRing}
    (divides : size.toNat ∣ 65536) (fresh : UsedRing.ofSize size arena = .ok (ring, rest)) :
    Sound { ring } size.toNat [] := by
  obtain ⟨hsize, hfits, hseen, hindex⟩ := UsedRing.of_ofSize fresh
  refine ⟨divides, congrArg UInt16.toNat hsize, hfits, rfl, Nat.zero_le _, ?_, fun e he => by cases he⟩
  exact ⟨(hindex.trans hseen.symm).trans (UsedRing.running_zero _).symm,
    fun i hi => absurd hi (Nat.not_lt_zero i)⟩

theorem inOrder_of_run {size : UInt16} {arena rest : Arena} {ring : UsedRing}
    (divides : size.toNat ∣ 65536) (fresh : UsedRing.ofSize size arena = .ok (ring, rest))
    (run : Run { ring } d) : d.InOrder := by
  obtain ⟨elements, hd⟩ := (sound_of_ofSize divides fresh).run run
  exact hd.inOrder

end Delivery

/-! ### The handler's loop -/

namespace Run

variable {m : Machine} {b : BayId} {s : ReadyState}

/-- The point that a completion handler has reached after a number of accesses. -/
def pointAfter (b : BayId) : Nat → CompletionPoint → Run CompletionPoint
  | 0, point => pure point
  | _, .finished => pure .finished
  | n + 1, point => do pointAfter b n (← completionStep b point)

private theorem leads_fewer (hs : (m.bay b).drive.state = .ready s) {point : CompletionPoint}
    (hpoint : point ≠ .finished)
    (hmore : point = .taking → s.rings.queue.used.isDrained = false) :
    Leads (completionStep b point) m fun point' m' => ∃ s', (m'.bay b).drive.state = .ready s' ∧
      point'.left s'.rings.queue.used.backlog < point.left s.rings.queue.used.backlog ∧
      (point' = .taking → s'.rings.queue.used.isDrained = false) := by
  have hb := Machine.lt_of_ready hs
  apply leads_get
  rw [hs]
  cases point with
  | finished => exact absurd rfl hpoint
  | reading =>
    refine (leads_ask hb _).bind fun causes m' ⟨_, halike, _⟩ => leads_pure ?_
    refine ⟨s, (congrArg View.state halike.view).trans hs, ?_, fun h => by cases h⟩
    simp only [CompletionPoint.left]
    omega
  | acknowledging causes =>
    refine (leads_command hb _).bind fun _ m' ⟨halike, _⟩ => leads_pure ?_
    refine ⟨s, (congrArg View.state halike.view).trans hs, ?_, fun h => by cases h⟩
    simp only [CompletionPoint.left]
    omega
  | looking =>
    refine leads_pure ⟨s, hs, ?_⟩
    cases hdrained : s.rings.queue.used.isDrained with
    | true => exact ⟨Nat.succ_pos _, fun h => by cases h⟩
    | false => exact ⟨Nat.lt_succ_self _, fun _ => rfl⟩
  | taking =>
    refine (leads_completeNext (Q := fun _ m' => ∃ q,
      (m'.bay b).drive.state = .ready { s with rings := q } ∧
        q.queue.used = { s.rings.queue.used with lastSeen := s.rings.queue.used.lastSeen + 1 })
      fun head e q r hc hr => ⟨r, ?_, ?_⟩).bind ?_
    · rw [Machine.bay_log, Machine.bay_counted (by rwa [Machine.size_bays_complete]),
        Machine.bay_complete hb]
    · rw [Rings.used_release hr, Rings.used_collect hc]
    · rintro _ m' ⟨q, hready, hused⟩
      refine leads_pure ⟨_, hready, ?_, fun h => by cases h⟩
      have hne := hmore rfl
      rw [UsedRing.isDrained, beq_eq_false_iff_ne] at hne
      have hless := UsedRing.backlog_succ hne
      rw [hused]
      simp only [CompletionPoint.left]
      omega

/-- A handler that nothing comes between has finished after the accesses that its loop allows for. -/
private theorem leads_finished (n : Nat) {point : CompletionPoint} (hs : (m.bay b).drive.state = .ready s)
    (hmore : point = .taking → s.rings.queue.used.isDrained = false)
    (hn : point.left s.rings.queue.used.backlog ≤ n) :
    Leads (pointAfter b n point) m fun point' _ => point' = .finished := by
  induction n generalizing m s point with
  | zero =>
    refine leads_pure ?_
    cases point with
    | finished => rfl
    | taking =>
      have hzero : s.rings.queue.used.backlog = 0 := by
        simp only [CompletionPoint.left] at hn
        omega
      have hmore := hmore rfl
      rw [UsedRing.isDrained, UsedRing.backlog_eq_zero_iff.1 hzero, beq_self_eq_true] at hmore
      cases hmore
    | _ => cases hn
  | succ n ih =>
    by_cases hpoint : point = .finished
    · subst hpoint
      exact leads_pure rfl
    · have hstep : pointAfter b (n + 1) point = completionStep b point >>= pointAfter b n := by
        cases point with
        | finished => exact absurd rfl hpoint
        | _ => rfl
      rw [hstep]
      refine (leads_fewer hs hpoint hmore).bind fun point' m' h => ?_
      obtain ⟨s', hs', hless, hmore'⟩ := h
      exact ih hs' hmore' (by omega)

end Run

/-- Where the size of a used ring divides the wrap and no more elements are written and not yet popped
than there are places, the elements are popped in their order, each once and none before it is written,
and a pop finds nothing just when all have been popped. And where the index stands still, pops give what
the memory has from the cursor up to the index, and then nothing; so a handler's loop ends. -/
theorem UsedRing.delivers :
    (∀ (size : UInt16) (arena rest : Arena) (ring : UsedRing), size.toNat ∣ 65536 →
      UsedRing.ofSize size arena = .ok (ring, rest) → ∀ d, Delivery.Run { ring } d → d.InOrder) ∧
    (∀ ring : UsedRing, ring.size ≠ 0 →
      ring.pending.length = (65536 + ring.deviceIndex.toNat - ring.lastSeen.toNat) % 65536 ∧
        ∀ es ring', ring.Pops es ring' ∧ ring'.pop = .ok none ↔
          es = ring.pending ∧ ring' = { ring with lastSeen := ring.deviceIndex }) ∧
    ∀ (m : Machine) (b : BayId) (s : ReadyState), (m.bay b).drive.state = .ready s →
      Run.Leads (Run.pointAfter b (Run.completionBound s) .reading) m fun point _ =>
        point = .finished := by
  refine ⟨fun size arena rest ring divides fresh d run => Delivery.inOrder_of_run divides fresh run,
    fun ring hn => ⟨?_, fun es ring' => ?_⟩, fun m b s hs => ?_⟩
  · have hseen := ring.lastSeen.toNat_lt
    rw [length_pending, UInt16.toNat_sub]
    omega
  · refine ring.carries_pending.pops_iff hn ?_ es
    rw [length_pending]
    exact (ring.deviceIndex - ring.lastSeen).toNat_lt
  · refine Run.leads_finished _ hs (fun h => by cases h) ?_
    simp only [CompletionPoint.left, Run.completionBound]
    omega

/-- A ring of four elements delivers the one written to it, a cursor just before the wrap has two
elements to go, and the handler of a drive with two requests in flight finishes. -/
theorem UsedRing.delivers_sample :
    ∃ ring rest d, UsedRing.ofSize 4 ⟨1⟩ = .ok (ring, rest) ∧ Delivery.Run { ring } d ∧
      d.written = [⟨3, 512⟩] ∧ d.popped = [⟨3, 512⟩] ∧ d.ring.pop = .ok none ∧
      (∃ ring', { ring with lastSeen := 65534 }.Pops { ring with lastSeen := 65534 }.pending ring' ∧
        { ring with lastSeen := 65534 }.pending.length = 2 ∧ ring'.pop = .ok none) ∧
      ∃ (m : Machine) (s : ReadyState), (m.bay 0).drive.state = .ready s ∧
        Run.Leads (Run.pointAfter 0 (Run.completionBound s) .reading) m fun point _ =>
          point = .finished := by
  have fresh : UsedRing.ofSize 4 ⟨1⟩ = .ok (⟨Region.page 1, 4, 0⟩, ⟨2⟩) :=
    UsedRing.ofSize_after ⟨1⟩ 0 (by decide)
  have divides : (4 : UInt16).toNat ∣ 65536 := by decide
  obtain ⟨deliver, stale, finishes⟩ := UsedRing.delivers
  have inOrder := deliver 4 ⟨1⟩ ⟨2⟩ _ divides fresh
  have hpublished : Delivery.Run { ring := ⟨Region.page 1, 4, 0⟩ } _ :=
    (Relation.ReflTransGen.single (.draft ⟨3, 512⟩ (by decide))).tail (.publish ⟨3, 512⟩ rfl)
  obtain ⟨ring', hpop⟩ := (inOrder _ hpublished).next ⟨3, 512⟩ [] rfl
  have hpopped := hpublished.tail (.pop _ _ hpop)
  obtain ⟨hlength, hpops⟩ := stale ⟨Region.page 1, 4, 65534⟩ (by decide)
  have hindex : UsedRing.deviceIndex ⟨Region.page 1, 4, 65534⟩ = 0 := Region.load16_page ..
  obtain ⟨hpending, hend⟩ := (hpops _ _).2 ⟨rfl, rfl⟩
  obtain ⟨-, s, st, -, ready, -⟩ := Scene.exists_twoCalls
  refine ⟨_, _, _, fresh, hpopped, rfl, rfl, (inOrder _ hpopped).drained.2 rfl,
    ⟨_, hpending, ?_, hend⟩, s.machine, st, ready, finishes _ 0 st ready⟩
  rw [hlength, hindex]
  rfl

end DiskStack
