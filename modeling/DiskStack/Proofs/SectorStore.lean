import DiskStack.Proofs.Alone
import DiskStack.Proofs.DriveBlocks
import DiskStack.Proofs.Rest
import DiskStack.Proofs.SectorCalls

/-!
# Drives as sector stores

Disk operations on one drive take turns with its scratch block. So to their callers the drive is a
sector store that serves each call as it takes the scratch block, and there is never more than one
request in flight.
-/

namespace DiskStack

/-- Where a task is at an atomic drive, given how far its call at the store has come. What the store has
answered already, the task still has to do just as long as it keeps the scratch block. -/
inductive TaskPoint.Works (k : DriveParameters) (image goal : Image) (holds : Prop) :
    TaskPoint → Option SectorTurn → Prop
  | idle (hn : ¬holds) : Works k image goal holds .idle none
  | asked (c : SectorCall) (p : Program Reply) (hn : ¬holds) (hp : c.Looks k p) :
    Works k image goal holds (.between p) (some (.asked c))
  | locking (c : SectorCall) (p : Program Reply) (hn : ¬holds) (hp : p = c.locking k)
    (h : k.refusal? c = none) : Works k image goal holds (.between p) (some (.asked c))
  | working (c : SectorCall) (q : BlockProgram SectorOutcome) (r : Reply) (p : Program Reply)
    (hp : p = c.working k.bay q) (hh : holds) (h : q.Reaches k image (c.Settles k goal r)) :
    Works k image goal holds (.between p) (some (.answered r))
  | waiting (c : SectorCall) (a : BlockAccess) (next : BlockReply → BlockProgram SectorOutcome)
    (r : Reply) (hh : holds) (hv : k.verdict a = .ok ())
    (h : (BlockProgram.access a next).Reaches k image (c.Settles k goal r)) :
    Works k image goal holds
      (.inside (.waiting a) fun reply => c.working k.bay (next reply.toBlockReply))
      (some (.answered r))
  | served (c : SectorCall) (data : Bytes) (next : BlockReply → BlockProgram SectorOutcome)
    (r : Reply) (hh : holds) (h : (next ⟨.ok (), data⟩).Reaches k image (c.Settles k goal r)) :
    Works k image goal holds
      (.inside (.served data) fun reply => c.working k.bay (next reply.toBlockReply))
      (some (.answered r))
  | done (r : Reply) (hn : ¬holds) :
    Works k image goal holds (.between (.done r)) (some (.answered r))

namespace TaskPoint.Works

variable {k : DriveParameters} {image goal : Image} {holds : Prop} {x : TaskPoint} {y : Option SectorTurn}

private theorem frame (h : Works k image goal holds x y) (hnot : ¬holds) (image' goal' : Image)
    {holds' : Prop} (hnot' : ¬holds') : Works k image' goal' holds' x y := by
  cases h with
  | idle => exact .idle hnot'
  | asked c p _ hp => exact .asked c p hnot' hp
  | locking c p _ hp h => exact .locking c p hnot' hp h
  | working _ _ _ _ _ hh => exact absurd hh hnot
  | waiting _ _ _ _ hh => exact absurd hh hnot
  | served _ _ _ _ hh => exact absurd hh hnot
  | done r => exact .done r hnot'

theorem of_idle (h : Works k image goal holds .idle y) : y = none ∧ ¬holds := by
  cases h with
  | idle hn => exact ⟨rfl, hn⟩

theorem of_done {r : Reply} (h : Works k image goal holds (.between (.done r)) y) :
    y = some (.answered r) ∧ ¬holds := by
  cases h with
  | asked _ _ _ hp => cases hp
  | locking _ _ _ hp => cases hp
  | working c q _ _ hp => cases q <;> cases hp
  | done _ hn => exact ⟨rfl, hn⟩

theorem of_inspect {next : DriveState → Program Reply}
    (h : Works k image goal holds (.between (.inspect k.bay next)) y) :
    ∃ c : SectorCall, y = some (.asked c) ∧ ¬holds ∧ c.Looks k (.inspect k.bay next) := by
  cases h with
  | asked c _ hn hp => exact ⟨c, rfl, hn, hp⟩
  | locking _ _ _ hp => cases hp
  | working c q _ _ hp => cases q <;> cases hp

private theorem of_submit {a : BlockAccess} {next : SubmitReply → Program Reply}
    (h : Works k image goal holds (.between (.submit k.bay a next)) y) :
    holds ∧ ∃ (c : SectorCall) (after : BlockReply → BlockProgram SectorOutcome) (r : Reply),
      y = some (.answered r) ∧ (next = fun reply => c.working k.bay (after reply.toBlockReply)) ∧
        (BlockProgram.access a after).Reaches k image (c.Settles k goal r) := by
  cases h with
  | asked _ _ _ hp => cases hp
  | locking _ _ _ hp => cases hp
  | working c q r _ hp hh h =>
    cases q with
    | done o => cases hp
    | halt e => cases hp
    | access a' after =>
      cases hp
      exact ⟨hh, c, after, r, rfl, rfl, h⟩

private theorem of_takeScratch {next : Bytes → Program Reply}
    (h : Works k image goal holds (.between (.takeScratch k.bay next)) y) :
    ∃ c : SectorCall, y = some (.asked c) ∧ k.refusal? c = none ∧
      .takeScratch k.bay next = c.locking k := by
  cases h with
  | asked _ _ _ hp => cases hp
  | locking c _ _ hp h => exact ⟨c, rfl, h, hp⟩
  | working c q _ _ hp => cases q <;> cases hp

private theorem of_giveScratch {value : Bytes} {next : Program Reply}
    (h : Works k image goal holds (.between (.giveScratch k.bay value next)) y) :
    holds ∧ value.length = k.config.blockSize ∧ image = goal ∧
      ∃ r, y = some (.answered r) ∧ next = .done r := by
  cases h with
  | asked _ _ _ hp => cases hp
  | locking _ _ _ hp => cases hp
  | working c q r _ hp hh h =>
    cases q with
    | done o =>
      cases hp
      obtain ⟨hlen, hreply, himage⟩ := BlockProgram.reaches_done_iff.1 h
      exact ⟨hh, hlen, himage, r, rfl, by rw [hreply]⟩
    | halt e => cases hp
    | access a' after => cases hp

end TaskPoint.Works

namespace AtomicDrive

variable {k : DriveParameters} {d d' : AtomicDrive} {e : SectorStore} {l : List (Incident SectorCall)}

/-- An atomic drive whose tasks take turns with the scratch block. While nobody keeps it, the image is that of
the store; while a task does, the rest of its call leads there. -/
structure Serial (k : DriveParameters) (d : AtomicDrive) (e : SectorStore) : Prop where
  whole : d.image.Whole
  block : d.scratch.value.length = k.config.blockSize
  agrees : d.scratch.Agrees
  works : ∀ t, (d.point t).Works k d.image e.image (d.scratch.isHeldBy t = true) (e.turns t)
  free : d.scratch.held = false → d.image = e.image

private theorem Serial.alone (hd : d.Serial k e) : d.Alone k := by
  have hinside : ∀ t g next, d.point t = .inside g next → d.scratch.isHeldBy t = true :=
    fun t g next h => by
      have hworks := hd.works t
      rw [h] at hworks
      generalize e.turns t = y at hworks
      cases hworks with
      | waiting _ _ _ _ hh => exact hh
      | served _ _ _ _ hh => exact hh
  intro t u g next ht hu
  have hheld := hinside t g next ht
  rcases hu with ⟨g', next', hu⟩ | ⟨a, next', hu⟩
  · exact SleepLock.eq_of_isHeldBy hheld (hinside u g' next' hu)
  · have hworks := hd.works u
    rw [hu] at hworks
    exact SleepLock.eq_of_isHeldBy hheld hworks.of_submit.1

theorem Serial.free_of_idle (hd : d.Serial k e) (hidle : ∀ t, d.point t = .idle) :
    d.scratch.held = false := by
  refine hd.agrees.free_of_not_isHeldBy fun t => ?_
  have hworks := hd.works t
  rw [hidle t] at hworks
  exact hworks.of_idle.2

private theorem Serial.move (hd : d.Serial k e) {t : TaskId} {x : TaskPoint} {y : Option SectorTurn}
    (hx : x.Works k d.image e.image (d.scratch.isHeldBy t = true) y) :
    (d.move t x).Serial k (e.put t y) := by
  refine ⟨hd.whole, hd.block, hd.agrees, fun u => ?_, hd.free⟩
  rw [point_move, SectorStore.turns_put]
  split
  · next hu => exact hu ▸ hx
  · exact hd.works u

private theorem Serial.go (hd : d.Serial k e) {t : TaskId} {x : TaskPoint}
    (hx : x.Works k d.image e.image (d.scratch.isHeldBy t = true) (e.turns t)) :
    SectorStore.Step k e [] e ∧ (d.move t x).Serial k e := by
  have hmove := hd.move hx
  rw [SectorStore.put_self rfl] at hmove
  exact ⟨.still, hmove⟩

/-- A call that has looked at the drive is refused, or is going to take the scratch block. -/
private theorem Serial.inspect (hd : d.Serial k e) {t : TaskId} {next : DriveState → Program Reply}
    {s : ReadyState} (hs : k.Fits s) (h : d.point t = .between (.inspect k.bay next)) :
    ∃ e', SectorStore.Step k e [] e' ∧ (d.move t (.between (next (.ready s)))).Serial k e' := by
  have hworks := hd.works t
  rw [h] at hworks
  obtain ⟨c, hturn, hnot, hlooks⟩ := hworks.of_inspect
  cases hlooks with
  | more _ hmore =>
    refine ⟨e, hd.go ?_⟩
    rw [hturn]
    exact .asked c _ hnot (hmore s hs)
  | last _ hlast =>
    have hchecked := hlast s hs
    cases hrefuse : k.refusal? c with
    | some err =>
      rw [SectorCall.checked, hrefuse] at hchecked
      rw [hchecked]
      exact ⟨_, .refuse t c err hturn hrefuse, hd.move (.done _ hnot)⟩
    | none =>
      rw [SectorCall.checked, hrefuse] at hchecked
      refine ⟨e, hd.go ?_⟩
      rw [hturn]
      exact .locking c _ hnot hchecked hrefuse

private theorem Serial.take (valid : k.config.isValid = true) (hd : d.Serial k e) {t : TaskId}
    {next : Bytes → Program Reply} (h : d.point t = .between (.takeScratch k.bay next))
    (hfree : d.scratch.held = false) :
    ∃ e', SectorStore.Step k e [.scratch t] e' ∧
      Serial k ({ d with scratch := d.scratch.acquire t }.move t
        (.between (next d.scratch.value))) e' := by
  have hworks := hd.works t
  rw [h] at hworks
  obtain ⟨c, hturn, hrefuse, hnext⟩ := hworks.of_takeScratch
  cases hnext
  have himage := hd.free hfree
  have hreaches := SectorCall.transfer_reaches valid hd.whole hrefuse hd.block
  refine ⟨_, .serve t c hturn hrefuse, hd.whole, hd.block, SleepLock.agrees_acquire _ t,
    fun u => ?_, fun hnone => ?_⟩
  · rw [point_move, SectorStore.turns_put]
    split
    · next hu =>
      rw [himage] at hreaches ⊢
      exact .working c _ _ _ rfl (SleepLock.isHeldBy_acquire.2 hu.symm) hreaches
    · next hu =>
      exact (hd.works u).frame (SleepLock.not_isHeldBy_of_free hfree u) _ _ fun hc =>
        hu (SleepLock.isHeldBy_acquire.1 hc).symm
  · cases hnone

private theorem Serial.execute (valid : k.config.isValid = true) (hd : d.Serial k e) {t : TaskId}
    {a : BlockAccess} {next : SubmitReply → Program Reply}
    (h : d.point t = .inside (.waiting a) next) :
    Serial k ({ d with image := (d.image.perform k.config.sectorsPerBlock a).2 }.move t
      (.inside (.served (d.image.perform k.config.sectorsPerBlock a).1) next)) e := by
  obtain ⟨hsize, hpos, -⟩ := DriveConfig.block_of_isValid valid
  have hworks := hd.works t
  rw [h] at hworks
  generalize hy : e.turns t = y at hworks
  cases hworks with
  | waiting c _ after r hh hv hreaches =>
    have hlen := DriveParameters.length_of_verdict hv
    rw [BlockProgram.reaches_access_iff, DriveParameters.serve, hv] at hreaches
    refine ⟨Image.whole_perform hd.whole hpos (hlen.trans hsize), hd.block, hd.agrees, fun u => ?_,
      fun hnone => ?_⟩
    · rw [point_move]
      split
      · next hu =>
        subst hu
        rw [hy]
        exact .served c _ after r hh hreaches
      · next hu =>
        have hnot : ¬d.scratch.isHeldBy u = true := fun hc => hu (SleepLock.eq_of_isHeldBy hc hh)
        exact (hd.works u).frame hnot _ _ hnot
    · exact absurd hh (SleepLock.not_isHeldBy_of_free hnone t)

private theorem Serial.give (hd : d.Serial k e) {t : TaskId} {value : Bytes} {next : Program Reply}
    (h : d.point t = .between (.giveScratch k.bay value next)) :
    Serial k ({ d with scratch := { d.scratch.release with value } }.move t
      (.between next)) e := by
  have hworks := hd.works t
  rw [h] at hworks
  obtain ⟨hh, hlen, himage, r, hturn, rfl⟩ := hworks.of_giveScratch
  refine ⟨hd.whole, hlen, rfl, fun u => ?_, fun _ => himage⟩
  rw [point_move]
  split
  · next hu =>
    rw [hu, hturn]
    exact .done r nofun
  · next hu =>
    have hnot : ¬d.scratch.isHeldBy u = true := fun hc => hu (SleepLock.eq_of_isHeldBy hc hh)
    exact (hd.works u).frame hnot _ _ nofun

private theorem Serial.step (valid : k.config.isValid = true) (hd : d.Serial k e)
    (h : Step (SectorCall.program k.bay k.config) k d l d') :
    ∃ e', SectorStore.Step k e l e' ∧ d'.Serial k e' := by
  cases h with
  | still => exact ⟨e, .still, hd⟩
  | call t c h =>
    have hworks := hd.works t
    rw [h] at hworks
    obtain ⟨hturn, hnot⟩ := hworks.of_idle
    exact ⟨_, .call t c hturn, hd.move (.asked c _ hnot (SectorCall.looks_program k c))⟩
  | reply t r h =>
    have hworks := hd.works t
    rw [h] at hworks
    obtain ⟨hturn, hnot⟩ := hworks.of_done
    exact ⟨_, .reply t r hturn, hd.move (.idle hnot)⟩
  | inspect t next s hs h => exact hd.inspect hs h
  | refuse t a next err h hv =>
    have hworks := hd.works t
    rw [h] at hworks
    obtain ⟨hh, c, after, r, hturn, rfl, hreaches⟩ := hworks.of_submit
    rw [BlockProgram.reaches_access_iff, DriveParameters.serve, hv] at hreaches
    refine ⟨e, hd.go ?_⟩
    rw [hturn]
    exact .working c _ r _ rfl hh hreaches
  | submit t a next h hv =>
    have hworks := hd.works t
    rw [h] at hworks
    obtain ⟨hh, c, after, r, hturn, rfl, hreaches⟩ := hworks.of_submit
    refine ⟨e, hd.go ?_⟩
    rw [hturn]
    exact .waiting c a after r hh hv hreaches
  | execute t a next h => exact ⟨e, .execute t, hd.execute valid h⟩
  | finish t data next h =>
    have hworks := hd.works t
    rw [h] at hworks
    generalize hy : e.turns t = y at hworks
    cases hworks with
    | served c _ after r hh hreaches =>
      refine ⟨e, hd.go ?_⟩
      rw [hy]
      exact .working c _ r _ rfl hh hreaches
  | takeScratch t next h hfree => exact hd.take valid h hfree
  | giveScratch t value next h => exact ⟨e, .still, hd.give h⟩

end AtomicDrive

namespace Scene

/-- What a sector store has to do with a scene: while nobody keeps the scratch block it has the image
of the drive, and nobody does when all tasks are idle; the store has no call of an idle task, and has
answered the calls that are done just so. -/
structure Presents (s : Scene) (b : BayId) (d : SectorStore) : Prop where
  image : (s.machine.bay b).drive.scratch.held = false →
    (s.machine.bay b).controller.image = d.image
  free : (∀ t, (s.machine.task t).activity = .idle) →
    (s.machine.bay b).drive.scratch.held = false
  idle : ∀ t, (s.machine.task t).activity = .idle → d.turns t = none
  answered : ∀ t r, (s.machine.task t).activity.program? = some (.done r) →
    d.turns t = some (.answered r)

variable {b : BayId} {m : Machine} {st : ReadyState} {s s' : Scene} {e : SectorStore}

private theorem presents_of_serial (hd : (s.atomic b st).Serial (s.parameters b st) e) :
    s.Presents b e where
  image := hd.free
  free hidle := hd.free_of_idle fun t => View.point_of_idle (congrArg Activity.program? (hidle t))
  idle t hidle := by
    have hworks := hd.works t
    have hpoint : (s.atomic b st).point t = .idle :=
      View.point_of_idle (congrArg Activity.program? hidle)
    rw [hpoint] at hworks
    exact hworks.of_idle.1
  answered t r hdone := by
    have hworks := hd.works t
    have hpoint : (s.atomic b st).point t = .between (.done r) :=
      View.point_of_asks (b := b) (.done r) hdone
    rw [hpoint] at hworks
    exact hworks.of_done.1

/-- Disk operations on a drive that is served. -/
abbrev operating (k : DriveParameters) : Setting SectorCall :=
  served k.bay (SectorCall.program k.bay k.config)

/-- A scene of disk operations, and the store that it is to its callers. -/
structure Stored (k : DriveParameters) (s : Scene) (st : ReadyState) (e : SectorStore) : Prop where
  attended : s.Attended k.bay st
  parameters : s.parameters k.bay st = k
  serial : (s.atomic k.bay st).Serial k e
  unparked : (s.machine.view k.bay).Unparked

theorem Stored.valid {k : DriveParameters} (hs : s.Stored k st e) : k.config.isValid = true := by
  rw [← hs.parameters]
  exact hs.attended.serving.valid

theorem Stored.step {k : DriveParameters} {l : List (Incident SectorCall)} (hs : s.Stored k st e)
    (h : Step (operating k) s l s') :
    ∃ st' e', s'.Stored k st' e' ∧ SectorStore.Step k e l e' ∧
      AtomicDrive.Step (SectorCall.program k.bay k.config) k (s.atomic k.bay st) l (s'.atomic k.bay st') := by
  have hasks := SectorCall.asks_program k.bay k.config
  have halone := hs.serial.alone
  rw [← hs.parameters] at halone
  obtain ⟨st', hattended, hparameters, hstep⟩ := hs.attended.step hasks (.inr halone) h
  have hunparked := hs.attended.unparked halone hasks hs.unparked h
  rw [hs.parameters] at hparameters hstep
  obtain ⟨e', hstore, hserial⟩ := hs.serial.step hs.valid hstep
  exact ⟨st', e', ⟨hattended, hparameters, hserial, hunparked⟩, hstore, hstep⟩

theorem Stored.run {k : DriveParameters} {trace : List (Incident SectorCall)} (hs : s.Stored k st e)
    (run : Run (operating k) s trace s') :
    ∃ st' e', s'.Stored k st' e' ∧ SectorStore.Run k e trace e' := by
  obtain ⟨e', hstore, st', hs'⟩ := run.simulated (SectorStore.Step k)
    (fun u x => ∃ st', u.Stored k st' x) ⟨st, hs⟩ fun u l u' x hx step => by
      obtain ⟨st₁, hs₁⟩ := hx
      obtain ⟨st₂, x', hs₂, hstore, -⟩ := hs₁.step step
      exact ⟨x', hstore, st₂, hs₂⟩
  exact ⟨st', e', hs', hstore⟩

/-- A run of disk operations is a run of the sector store, and no task waits for descriptors. -/
private theorem Attended.run_sectors (hs : s.Attended b st)
    (hd : (s.atomic b st).Serial (s.parameters b st) e) (hnone : (s.machine.view b).Unparked)
    {trace : List (Incident SectorCall)}
    (run : Run (served b (SectorCall.program b (s.machine.bay b).drive.config)) s trace s') :
    ∃ st' e', s'.Attended b st' ∧ s'.parameters b st' = s.parameters b st ∧
      SectorStore.Run (s.parameters b st) e trace e' ∧ (s'.atomic b st').Serial (s.parameters b st) e' ∧
      (s'.machine.view b).Unparked := by
  have hstored : s.Stored (s.parameters b st) st e := ⟨hs, rfl, hd, hnone⟩
  obtain ⟨st', e', hs', hstore⟩ := hstored.run run
  exact ⟨st', e', hs'.attended, hs'.parameters, hstore, hs'.serial, hs'.unparked⟩

theorem serial_of_atRest (rest : m.AtRest b st) :
    (atomic { machine := m } b st).Serial (parameters { machine := m } b st)
      ⟨(m.bay b).controller.image, fun _ => none⟩ := by
  have hagrees : (m.bay b).drive.scratch.Agrees := by
    rw [SleepLock.Agrees, rest.free, rest.unowned]
    rfl
  rw [atomic_of_atRest rest]
  exact ⟨rest.whole, rest.block, hagrees, fun t => .idle (SleepLock.not_isHeldBy_of_free rest.free t),
    fun _ => rfl⟩

/-- Disk operations at a sector store. Tasks read and write ranges of sectors of a ready drive, in any
interleaving with the controller and the completion handler. Then what they see is what they would see
of a sector store under the drive's terms, which serves each call at once as it takes the scratch
block. The image is that of the calls one after another in this order; a sector that one of them wrote
has its bytes until another writes it, whatever is written beside it. At most one request is in
flight, and no task waits for descriptors. -/
theorem sectorStore_of_run (rest : m.AtRest b st) {trace : List (Incident SectorCall)}
    (run : Run (served b (SectorCall.program b (m.bay b).drive.config)) { machine := m } trace s) :
    (∃ d calls, SectorStore.Run (parameters { machine := m } b st)
        ⟨(m.bay b).controller.image, fun _ => none⟩ trace d ∧
        s.Presents b d ∧
        calls.map Prod.fst = trace.filterMap Incident.scratch? ∧
        (∀ p ∈ calls, .call p.1 p.2 ∈ trace) ∧
        d.image = (parameters { machine := m } b st).serial (m.bay b).controller.image calls ∧
        ∀ before after t c i, calls = before ++ (t, c) :: after →
          (parameters { machine := m } b st).Writes c i →
          (∀ p ∈ after, ¬(parameters { machine := m } b st).Writes p.2 i) →
          d.image.sector i = c.buffer.slice (sectorSize * (i - c.sector.toNat)) sectorSize) ∧
      (∃ st', (s.machine.bay b).drive.state = .ready st' ∧ st'.rings.inFlightCount ≤ 1) ∧
      ∀ t id sector next,
        (s.machine.task t).activity.program? ≠ some (.publish b id sector next) := by
  have hnone : (m.view b).Unparked := fun t id sector hw => by
    rw [View.stage_of_idle (rest.idle t)] at hw
    cases hw
  obtain ⟨st', d, hs, hparameters, hstore, hd, hunparked⟩ :=
    (attended_of_atRest rest).run_sectors (serial_of_atRest rest) hnone run
  obtain ⟨calls, horder, hcalls, himage⟩ := hstore.serial fun _ => rfl
  refine ⟨⟨d, calls, hstore, ?_, horder, fun p hp => (hcalls p hp).1, himage, ?_⟩,
    ⟨st', hs.serving.ready, ?_⟩, ?_⟩
  · rw [← hparameters] at hd
    exact presents_of_serial hd
  · rintro before after t c i rfl hwrites hlast
    rw [himage]
    exact DriveParameters.sector_serial_of_last rest.whole (fun p hp => (hcalls p hp).2) hwrites hlast
  · have halone := hd.alone
    rw [← hparameters] at halone
    exact hs.serving.inFlightCount_le_one halone
  · intro t id sector next hprogram
    have hstage := View.stage_eq (v := s.machine.view b) hprogram
    exact hunparked t id sector hstage

/-! ### Two calls that take turns -/

/-- A call that writes the third sector of a drive full of ones. -/
def sectorCall_sample : SectorCall := ⟨true, 3, 1, List.replicate 512 1⟩

/-- A call that reads the second sector and the third. -/
def sectorRead_sample : SectorCall := ⟨false, 2, 2, List.replicate 1024 0⟩

/-- The task that calls second takes the scratch block first, and the other one waits for it until the
request has been served. -/
def readTakesTurn : List (Choice SectorCall Service) :=
  [.call 1 sectorCall_sample, .advance 1, .call 2 sectorRead_sample, .advance 2, .advance 2, .advance 2,
    .advance 2, .advance 1, .advance 1, .advance 1, .device .take, .device (.execute 0),
    .device (.report 0 1024), .interrupt, .handle, .handle, .handle, .handle, .handle, .leave, .rouse 2,
    .advance 2, .advance 2, .reply 2, .rouse 1, .advance 1]

/-- On the sample machine the sectors are read before they are written, although the write has been called
first: to the callers the read is served when the write is not, and then the sector is written. -/
theorem sectorStore_of_run_sample :
    ∃ (st : ReadyState) (trace : List (Incident SectorCall)) (s : Scene) (d : SectorStore),
      Machine.readySample.AtRest 0 st ∧
      Run (served 0 (SectorCall.program 0 (Machine.readySample.bay 0).drive.config))
        { machine := Machine.readySample } trace s ∧
      trace.filterMap Incident.call? = [(1, sectorCall_sample), (2, sectorRead_sample)] ∧
      trace.filterMap Incident.scratch? = [2, 1] ∧
      SectorStore.Run (parameters { machine := Machine.readySample } 0 st)
        ⟨(Machine.readySample.bay 0).controller.image, fun _ => none⟩ trace d ∧ s.Presents 0 d ∧
      d.image = (parameters { machine := Machine.readySample } 0 st).serial
        (Machine.readySample.bay 0).controller.image [(2, sectorRead_sample), (1, sectorCall_sample)] ∧
      d.image.sector 3 = sectorCall_sample.buffer := by
  obtain ⟨st, rest, hparameters, -⟩ := Machine.exists_atRest_sample
  obtain ⟨trace, s, -, run, -, called, order⟩ := exists_run_of_play
    (server 0 (SectorCall.program 0 (Machine.readySample.bay 0).drive.config))
    { machine := Machine.readySample } readTakesTurn
    (fun trace _ _ =>
      trace.filterMap Incident.call? = [(1, sectorCall_sample), (2, sectorRead_sample)] ∧
        trace.filterMap Incident.scratch? = [2, 1]) (by decide +kernel)
  generalize Machine.readySample = m at *
  obtain ⟨⟨d, calls, hstore, hpresents, horder, hcalled, himage, hlast⟩, -⟩ := sectorStore_of_run rest run
  rw [order] at horder
  have hwrites : (parameters { machine := m } 0 st).Writes sectorCall_sample 3 := by
    rw [show parameters { machine := m } 0 st = ⟨0, {}, 128, false⟩ from hparameters, DriveParameters.Writes]
    decide +kernel
  have hslice : sectorCall_sample.buffer.slice
      (sectorSize * (3 - sectorCall_sample.sector.toNat)) sectorSize = sectorCall_sample.buffer := by
    decide +kernel
  obtain rfl : calls = [(2, sectorRead_sample), (1, sectorCall_sample)] := by
    match calls, horder with
    | [(_, c), (_, c')], horder =>
      cases horder
      have hread := Incident.call_mem_iff.1 (hcalled _ (List.mem_cons_self ..))
      have hwrite := Incident.call_mem_iff.1 (hcalled _ (List.mem_cons_of_mem _ (List.mem_cons_self ..)))
      rw [called] at hread hwrite
      have hc : c = sectorRead_sample := by simpa using hread
      have hc' : c' = sectorCall_sample := by simpa using hwrite
      rw [hc, hc']
  refine ⟨st, trace, s, d, rest, run, called, order, hstore, hpresents, himage, ?_⟩
  rw [hlast [_] [] 1 sectorCall_sample 3 rfl hwrites fun _ h => absurd h List.not_mem_nil, hslice]

end Scene

end DiskStack
