import DiskStack.Proofs.Replay
import DiskStack.Proofs.Turns

/-!
# The in-flight table under any controller

The controller may write anything into the used ring, the status bytes and the buffers, and answer
the driver's queries as it likes, but it leaves the descriptor table alone. Whatever the callers, the
handler and the controller do, each entry of the in-flight table has a chain of its own, and these
chains use up the descriptors that are taken.
-/

namespace DiskStack

/-- Whether a task is about to be answered that its submission succeeded. -/
def Activity.succeeds : Activity → Bool
  | .running (.done (.block r)) => r.result.toBool
  | _ => false

theorem Activity.reply_of_succeeds {a : Activity} (h : a.succeeds = true) :
    ∃ r : SubmitReply, a = .running (.done (.block r)) ∧ r.result = .ok () := by
  unfold succeeds at h
  split at h
  · next r =>
    refine ⟨r, rfl, ?_⟩
    cases hr : r.result with
    | ok _ => rfl
    | error _ =>
      rw [hr] at h
      cases h
  · cases h

/-- A drive that nobody has used yet, with all tasks idle. -/
structure Machine.Fresh (m : Machine) (b : BayId) : Prop where
  present : b < m.bays.size
  uninitialized : (m.bay b).drive.state = .uninitialized
  idle : ∀ t, (m.task t).activity = .idle
  quiet : ∀ t, (m.task t).core.pending = []
  separate : (m.bay b).controller.mode ≠ .sameCore
  requests : m.requests.entries = []

def Machine.single (config : DriveConfig) (controller : Controller) : Machine :=
  { bays := #[⟨0, .ofConfig config 1 2, controller⟩], registry := [(0, 0)], nextKey := 3 }

/-- A machine with a drive of 128 sectors, in blocks of two, whose controller works when told to, and two
tasks that may call it. -/
def Machine.sample : Machine :=
  { Machine.single {} { window := Controller.windowOf 128 [], mode := .manual } with
    tasks := #[{ name := "ctl" }, { name := "first" }, { name := "second" }] }

theorem Machine.fresh_sample : Machine.sample.Fresh 0 where
  present := Nat.one_pos
  uninitialized := rfl
  idle t := by rcases t with _ | _ | _ | t <;> rfl
  quiet t := by rcases t with _ | _ | _ | t <;> rfl
  separate := by decide
  requests := rfl

namespace Scene

/-- A controller that writes what it likes where it may write at all. -/
inductive Tampers (b : BayId) (s : Scene) : List UInt16 → Scene → Prop
  | answer (c : Controller) (hc : c.mode = (s.machine.bay b).controller.mode) :
    Tampers b s [] { s with machine := s.machine.mapController b fun _ => c }
  | write (st : ReadyState) (used status : Array UInt8) (data : RequestId → Bytes) (c : Controller)
    (hst : (s.machine.bay b).drive.state = .ready st)
    (hused : used.size = st.rings.queue.used.region.size) (hstatus : status.size = st.rings.status.size)
    (hdata : ∀ e ∈ s.machine.requests.entries, (data e.1).length = e.2.data.length)
    (hc : c.mode = (s.machine.bay b).controller.mode) :
    Tampers b s []
      { s with
        machine := s.machine.putShared b st c
          { rings :=
              { st.rings with
                queue.used.region.bytes := used
                status.bytes := status }
            requests := ⟨s.machine.requests.entries.map fun e =>
              (e.1, { e.2 with data := data e.1 })⟩ } }

/-- Calls that each submit one request, and a controller that writes what it likes. -/
def adversarial (b : BayId) : Setting BlockAccess where
  bay := b
  program a := .submit b a fun r => .done (.block r)
  admits _ _ := True
  device := Tampers b

end Scene

namespace RequestTable

private theorem rewritten_map (t : RequestTable) (data : RequestId → Bytes)
    (h : ∀ e ∈ t.entries, (data e.1).length = e.2.data.length) :
    t.Rewritten ⟨t.entries.map fun e => (e.1, { e.2 with data := data e.1 })⟩ := by
  refine ⟨?_, fun id q hq => ⟨data id, h (id, q) (mem_of_find? hq), ?_⟩⟩
  · rw [keys, keys, List.map_map]
    rfl
  · rw [find?, Option.map_eq_some_iff] at hq
    obtain ⟨e, he, rfl⟩ := hq
    have hid : e.1 = id := by simpa using List.find?_some he
    rw [find?, List.find?_map]
    have hsame : ((fun x : RequestId × BlockRequest => x.1 == id) ∘
        fun e : RequestId × BlockRequest => (e.1, { e.2 with data := data e.1 })) =
        fun x => x.1 == id := rfl
    rw [hsame, he, Option.map_some, Option.map_some, hid]

end RequestTable

namespace Rings

/-- The entries of the in-flight table account for the descriptors that are taken. -/
structure Accounted (r : Rings) : Prop where
  linked : ∀ h, r.IsHead h → r.Linked h
  apart : ∀ h k, r.IsHead h → r.IsHead k → h ≠ k →
    ∀ i ∈ (r.chainAt h).slots, i ∉ (r.chainAt k).slots
  owned : ∀ i : UInt16, r.queue.pool.IsTaken i.toNat →
    ∃ h, (r.IsHead h ∧ i ∈ (r.chainAt h).slots) ∧
      ∀ k, r.IsHead k → i ∈ (r.chainAt k).slots → k = h
  counted : r.queue.pool.numFree + 3 * r.inFlightCount = r.queue.pool.size.toNat
  tickets : ∀ (h k : UInt16) e e', r.entryAt h.toNat = some e → r.entryAt k.toNat = some e' →
    h ≠ k → e.ticket ≠ e'.ticket
  vacant : ∀ c q, r.reserve = .ok (some (c, q)) → r.entryAt c.head.toNat = none

private theorem Balanced.owned {r : Rings} {n : Nat} (hb : r.Balanced n) {i : UInt16}
    (hi : r.queue.pool.IsTaken i.toNat) :
    ∃ h, (r.IsHead h ∧ i ∈ (r.chainAt h).slots) ∧
      ∀ k, r.IsHead k → i ∈ (r.chainAt k).slots → k = h := by
  obtain ⟨h, hh, hih⟩ := hb.covered i hi
  refine ⟨h, ⟨hh, hih⟩, fun k hk hik => ?_⟩
  by_cases hkh : k = h
  · exact hkh
  · exact absurd hih (hb.apart k h hk hh hkh i hik)

end Rings

namespace View

private theorem Kept.tickets {v : View} {s : ReadyState} (hk : v.Kept s) (few : v.nextRequest ≤ wordLimit)
    {h k : UInt16} {e e' : InFlight} (he : s.rings.entryAt h.toNat = some e)
    (he' : s.rings.entryAt k.toNat = some e') (hne : h ≠ k) : e.ticket ≠ e'.ticket := by
  obtain ⟨base, log, hlog⟩ := hk.ticketed
  obtain ⟨i, hi, hticket⟩ := hlog.place h e he
  obtain ⟨j, hj, hticket'⟩ := hlog.place k e' he'
  have hlen : log.length ≤ v.nextRequest := by
    have hsub : log ⊆ List.range v.nextRequest := fun id hid => List.mem_range.2 (hlog.named id hid)
    have hle := hlog.nodup.length_le_of_subset hsub
    rwa [List.length_range] at hle
  have hilt : i < log.length := (List.getElem?_eq_some_iff.1 hi).1
  have hjlt : j < log.length := (List.getElem?_eq_some_iff.1 hj).1
  intro hsame
  rw [hticket, hticket', UInt64.add_right_inj] at hsame
  have hij : i = j := by
    have hnat := congrArg UInt64.toNat hsame
    rw [UInt64.toNat_ofNat', UInt64.toNat_ofNat'] at hnat
    have hlimit : log.length ≤ 18446744073709551616 := Nat.le_trans hlen few
    omega
  rw [hij, hj, Option.some.injEq] at hi
  exact hne (hk.unique h k e e' he he' hi.symm)

private theorem Kept.accounted {v : View} {s : ReadyState} (hk : v.Kept s)
    (few : v.nextRequest ≤ wordLimit) : s.rings.Accounted where
  linked := hk.balanced.linked
  apart := hk.balanced.apart
  owned := fun _ hi => hk.balanced.owned hi
  counted := by
    rw [hk.balanced.counted, hk.balanced.sound.poolSize]
  tickets := fun _ _ _ _ he he' hne => hk.tickets few he he' hne
  vacant := by
    intro c q hq
    rcases s.rings.reserve_cases with ⟨-, hnone⟩ | ⟨c', hsome, hc, -⟩
    · rw [hnone] at hq
      cases hq
    · rw [hsome] at hq
      cases hq
      exact hk.balanced.entryAt_fresh hc

end View

namespace Scene

variable {b : BayId} {m : Machine} {s s' : Scene}

theorem inOrder_of_fresh (fresh : m.Fresh b) : InOrder { machine := m } b := by
  refine ⟨⟨fresh.present, fresh.quiet, fresh.separate⟩, ?_⟩
  apply View.Orderly.of_idle fresh.idle fresh.requests
  intro st hst
  cases fresh.uninitialized.symm.trans hst

theorem InOrder.tampers (hs : s.InOrder b) {heads : List UInt16} (h : Tampers b s heads s') :
    s'.InOrder b := by
  cases h with
  | answer c hc =>
    have hset := hs.steady.shows.setController (f := fun _ => c) hc
    refine ⟨hset.steady, ?_⟩
    rw [hset.view]
    exact hs.orderly.congr hs.orderly.underway (fun _ => rfl) rfl rfl rfl rfl
  | write st used status data c hst hused hstatus hdata hc =>
    have hset := hs.steady.shows.putShared st
      { rings := { st.rings with queue.used.region.bytes := used, status.bytes := status }
        requests := ⟨s.machine.requests.entries.map fun e => (e.1, { e.2 with data := data e.1 })⟩ }
      hc
    refine ⟨hset.steady, ?_⟩
    rw [hset.view]
    have hsound := (hs.orderly.kept st hst).balanced.sound
    refine hs.orderly.overwrite hst (r := { st.rings with
      queue.used.region.bytes := used, status.bytes := status }) ?_ rfl rfl rfl rfl
      (RequestTable.rewritten_map _ data hdata) c
    exact { hsound with
      status := by
        have hfit := hsound.status
        rw [← hstatus] at hfit
        exact hfit
      used := by
        have hfit := hsound.used
        rw [← hused] at hfit
        exact hfit }

/-- A controller's step moves no task, and changes no request but for the bytes in its buffer. -/
theorem Tampers.still (hs : s.InOrder b) {heads : List UInt16} (h : Tampers b s heads s') :
    (s'.machine.view b).activity = (s.machine.view b).activity ∧
      (s.machine.view b).requests.Rewritten (s'.machine.view b).requests := by
  cases h with
  | answer c hc =>
    have hset := hs.steady.shows.setController (f := fun _ => c) hc
    rw [hset.view]
    exact ⟨rfl, .refl _⟩
  | write st used status data c hst hused hstatus hdata hc =>
    have hset := hs.steady.shows.putShared st
      { rings := { st.rings with queue.used.region.bytes := used, status.bytes := status }
        requests := ⟨s.machine.requests.entries.map fun e => (e.1, { e.2 with data := data e.1 })⟩ }
      hc
    rw [hset.view]
    exact ⟨rfl, RequestTable.rewritten_map _ data hdata⟩

theorem inOrder_of_run (fresh : m.Fresh b) {trace : List (Incident BlockAccess)}
    (run : Run (adversarial b) { machine := m } trace s) : s.InOrder b :=
  run.invariant (P := fun s => s.InOrder b) (inOrder_of_fresh fresh) fun _ _ _ hu step =>
    hu.step (fun a => .submit a _ fun _ => .done _) (fun _ hd => hu.tampers hd) step

/-- In every scene of a run from a fresh drive, in which fewer than 2^64 submissions have been
accepted, the entries of the in-flight table account for the descriptors that are taken. -/
theorem accounted_of_run (fresh : m.Fresh b) {trace : List (Incident BlockAccess)}
    (run : Run (adversarial b) { machine := m } trace s) {st : ReadyState}
    (ready : (s.machine.bay b).drive.state = .ready st)
    (few : s.machine.nextRequest ≤ wordLimit) : st.rings.Accounted :=
  ((inOrder_of_run fresh run).orderly.kept st ready).accounted few

/-! ### Two requests in flight -/

/-- An element that a controller puts at a position of the used ring, and the status byte that it sets for
its head. -/
structure Forgery where
  position : UInt16
  element : UsedElement
  status : UInt8

/-- A player for controllers that report what they like and leave the buffers alone. -/
def forger (b : BayId) : Player (adversarial b) Forgery where
  admits _ := true
  device s f := do
    let st ← (s.machine.bay b).drive.state.ready?
    let shared : SharedMemory := ⟨st.rings, s.machine.requests⟩
    let reported := shared.report st.rings.queue.used.size.toNat f.position f.element
    let data id := ((s.machine.requests.find? id).map (·.data)).getD []
    if ∀ e ∈ s.machine.requests.entries, (data e.1).length = e.2.data.length then
      some ([], { s with
        machine := s.machine.putShared b st (s.machine.bay b).controller
          { rings :=
              { st.rings with
                queue.used.region.bytes := reported.rings.queue.used.region.bytes
                status.bytes := (st.rings.status.storeByte f.element.id.toNat f.status).bytes }
            requests := ⟨s.machine.requests.entries.map fun e =>
              (e.1, { e.2 with data := data e.1 })⟩ } })
    else none
  admits_sound _ _ := trivial
  device_sound s f heads s' h := by
    simp only [Option.bind_eq_bind, Option.bind_eq_some_iff] at h
    obtain ⟨st, hst, h⟩ := h
    split at h
    · next hdata =>
      cases h
      refine .write st _ _ (fun id => ((s.machine.requests.find? id).map (·.data)).getD []) _
        (DriveState.ready_of_ready? hst) ?_ (Region.size_storeByte ..) hdata rfl
      exact (Region.size_store16 ..).trans ((Region.size_store32 ..).trans (Region.size_store32 ..))
    · cases h

def blockWrite_sample : BlockAccess := ⟨0, true, List.replicate 1024 7⟩

def blockRead_sample : BlockAccess := ⟨1, false, List.replicate 1024 0⟩

/-- One task writes the first block of the drive, and the other one reads the second. -/
def twoCalls : List (Choice BlockAccess Forgery) :=
  [.bringUp, .call 1 blockWrite_sample, .advance 1, .advance 1, .call 2 blockRead_sample, .advance 2,
    .advance 2]

/-- The request that was published last is reported and taken first, and its task goes on. -/
def overtaking : List (Choice BlockAccess Forgery) :=
  twoCalls ++ [.device ⟨0, ⟨3, 1024⟩, 0⟩, .interrupt, .handle, .handle, .handle, .handle, .handle, .leave,
    .rouse 2, .advance 2]

theorem exists_twoCalls :
    ∃ trace s st, Run (adversarial 0) { machine := .sample } trace s ∧
      (s.machine.bay 0).drive.state = .ready st ∧ s.machine.nextRequest = 2 ∧
      st.rings.inFlightCount = 2 ∧ st.rings.entryAt 0 = some ⟨0, 0⟩ ∧
      st.rings.entryAt 3 = some ⟨1, 1⟩ :=
  exists_run_of_play (forger 0) _ twoCalls
    (fun _ s st => s.machine.nextRequest = 2 ∧ st.rings.inFlightCount = 2 ∧
      st.rings.entryAt 0 = some ⟨0, 0⟩ ∧ st.rings.entryAt 3 = some ⟨1, 1⟩) (by decide +kernel)

theorem exists_overtaking :
    ∃ trace s st, Run (adversarial 0) { machine := .sample } trace s ∧
      (s.machine.bay 0).drive.state = .ready st ∧ st.rings.entryAt 0 = some ⟨0, 0⟩ ∧
      st.rings.entryAt 3 = none ∧ s.machine.nextRequest = 2 ∧ (s.machine.task 2).activity.succeeds = true :=
  exists_run_of_play (forger 0) _ overtaking
    (fun _ s st => st.rings.entryAt 0 = some ⟨0, 0⟩ ∧ st.rings.entryAt 3 = none ∧
      s.machine.nextRequest = 2 ∧ (s.machine.task 2).activity.succeeds = true) (by decide +kernel)

/-- With two requests in flight on the sample machine, and when the later one has been completed first, the
entries account for the descriptors. -/
theorem accounted_of_run_sample :
    (∃ trace s st, Run (adversarial 0) { machine := .sample } trace s ∧
      (s.machine.bay 0).drive.state = .ready st ∧ st.rings.inFlightCount = 2 ∧
      s.machine.nextRequest ≤ wordLimit ∧ st.rings.Accounted) ∧
    ∃ trace s st, Run (adversarial 0) { machine := .sample } trace s ∧
      (s.machine.bay 0).drive.state = .ready st ∧ st.rings.entryAt 0 = some ⟨0, 0⟩ ∧
      st.rings.entryAt 3 = none ∧ s.machine.nextRequest ≤ wordLimit ∧ st.rings.Accounted := by
  have few : ∀ {s : Scene}, s.machine.nextRequest = 2 → s.machine.nextRequest ≤ wordLimit := fun h => by
    rw [h]
    decide
  constructor
  · obtain ⟨trace, s, st, run, ready, next, count, -⟩ := exists_twoCalls
    exact ⟨trace, s, st, run, ready, count, few next,
      accounted_of_run Machine.fresh_sample run ready (few next)⟩
  · obtain ⟨trace, s, st, run, ready, first, second, next, -⟩ := exists_overtaking
    exact ⟨trace, s, st, run, ready, first, second, few next,
      accounted_of_run Machine.fresh_sample run ready (few next)⟩

end Scene

end DiskStack
