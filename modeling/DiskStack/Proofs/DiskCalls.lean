import DiskStack.Proofs.Returns

/-!
# Disk operations from call to reply

The complete outcome of an operation on the drive registered under a number. An unknown number, a
drive that is not ready, media that are protected and a short buffer end it before anything is
submitted. Otherwise the drive moves just the sectors that it has, and the reply tells whether these
are all. No step of the operation halts, and it can always return.
-/

namespace DiskStack

/-! ### Calls that are turned down -/

namespace SectorCall

variable {k : DriveParameters} {c : SectorCall} {b : BayId} {config : DriveConfig}

/-- The operation of a call on a drive, if there is one. -/
def operation (c : SectorCall) (drive : Option (BayId × DriveConfig)) : Program Reply :=
  if c.write then do
    return .disk (← writeDrive drive c.buffer c.sector.toNat c.count.toNat).result
  else do
    return .diskBuffer (← readDrive drive c.buffer c.sector.toNat c.count.toNat)

private theorem operation_some : c.operation (some (b, config)) = c.program b config := rfl

theorem operation_none : c.operation none = .done (c.reply (.refuse .parameter c.buffer)) := by
  rw [operation, reply]
  split <;> rfl

private theorem operation_of_not_ready (c : SectorCall) (b : BayId) (config : DriveConfig) :
    ∃ next, c.operation (some (b, config)) = .inspect b next ∧
      ∀ state : DriveState, state.isReady = false →
        next state = .done (c.reply (.refuse .notReady c.buffer)) := by
  rw [operation]
  split
  · next hw =>
    refine ⟨_, rfl, fun state hstate => ?_⟩
    rw [reply, if_pos hw]
    cases state with
    | ready s => cases hstate
    | uninitialized | incompatible => rfl
  · next hw =>
    refine ⟨_, rfl, fun state hstate => ?_⟩
    rw [reply, if_neg hw]
    cases state with
    | ready s => cases hstate
    | uninitialized | incompatible => rfl

end SectorCall

/-- A call that ends before anything is submitted. -/
def DriveParameters.Declines (k : DriveParameters) (c : SectorCall) : Prop :=
  ∃ e, (k.outcome c).1 = .error e ∧ e ≠ .failed

private theorem DriveParameters.Declines.refusal {k : DriveParameters} {c : SectorCall} (h : k.Declines c)
    (hword : c.buffer.length < wordLimit - 1) : ∃ e, k.refusal? c = some e := by
  obtain ⟨e, he, hne⟩ := h
  rw [outcome] at he
  rw [refusal?]
  split at he
  · next hw => exact ⟨_, if_pos (Bool.and_eq_true_iff.2 hw)⟩
  · next hw =>
    rw [if_neg fun hc => hw (Bool.and_eq_true_iff.1 hc)]
    split at he
    · next hshort =>
      refine ⟨_, if_pos ?_⟩
      rw [isShort, decide_eq_true_eq, Nat.mul_comm]
      omega
    · split at he
      · cases he
      · cases he
        exact absurd rfl hne

/-- Where a task is whose call is turned down. -/
inductive TaskPoint.Declines (k : DriveParameters) (c : SectorCall) (e : DiskError) : TaskPoint → Prop
  | idle : Declines k c e .idle
  | looking (p : Program Reply) (h : c.Looks k p) : Declines k c e (.between p)
  | done : Declines k c e (.between (.done (c.reply (.refuse e c.buffer))))

namespace AtomicDrive

variable {k : DriveParameters} {c : SectorCall} {e : DiskError} {d d' : AtomicDrive} {t u : TaskId}
  {l : List (Incident SectorCall)} {program : SectorCall → Program Reply}

private theorem declines_step (hrefuse : k.refusal? c = some e) (hd : (d.point t).Declines k c e)
    (h : Step program k d l d') (hnone : ∀ c', .call t c' ∉ l) : (d'.point t).Declines k c e := by
  have hmove : ∀ {D : AtomicDrive} {u : TaskId} {x : TaskPoint}, D.point = d.point →
      (t = u → x.Declines k c e) → ((D.move u x).point t).Declines k c e := fun {D u x} hD hx => by
    rw [point_move]
    split
    · next hu => exact hx hu
    · rw [hD]
      exact hd
  cases h with
  | still => exact hd
  | call u c' => exact hmove rfl fun hu => absurd (hu ▸ List.mem_singleton_self _) (hnone c')
  | reply u r => exact hmove rfl fun _ => .idle
  | inspect u next s hs hp =>
    refine hmove rfl fun hu => ?_
    rw [hu, hp] at hd
    cases hd with
    | looking _ hlooks =>
      cases hlooks with
      | more _ hmore => exact .looking _ (hmore s hs)
      | last _ hlast =>
        rw [hlast s hs, SectorCall.checked, hrefuse]
        exact .done
  | refuse u a next err hp | submit u a next hp | takeScratch u next hp | giveScratch u value next hp =>
    refine hmove rfl fun hu => ?_
    rw [hu, hp] at hd
    cases hd with
    | looking _ hlooks => cases hlooks
  | execute u a next hp | finish u data next hp =>
    refine hmove rfl fun hu => ?_
    rw [hu, hp] at hd
    cases hd

end AtomicDrive

namespace Scene

variable {γ : Type} {w : Setting γ} {b : BayId} {config : DriveConfig} {c : SectorCall} {s : Scene}
  {t : TaskId}

/-- On a drive that is not ready an operation is over after one step, which changes nothing else. -/
private theorem InOrder.advance_of_not_ready (hs : s.InOrder b)
    (hready : (s.machine.bay b).drive.state.isReady = false)
    (hact : (s.machine.task t).activity = .running (c.operation (some (b, config)))) (arena : Arena) :
    ∃ m, (DiskStack.Run.advance t).run.run { s.machine with arena } = (.ok (), m) ∧
      m.view b = View.act { s.machine.view b with arena } t
        (.running (.done (c.reply (.refuse .notReady c.buffer)))) := by
  obtain ⟨next, hoperation, hnext⟩ := c.operation_of_not_ready b config
  rw [hoperation] at hact
  replace hact : (s.machine.view b).activity t = .running (.inspect b next) := hact
  have horder := hs.orderly.setArena arena
  have hends := DiskStack.Run.ends_advance (t := t) (hs.steady.shows.arena arena) fun p hp =>
    horder.running hp
  rw [DiskStack.Run.Ends] at hends
  generalize (DiskStack.Run.advance t).run.run { s.machine with arena } = r at hends
  obtain ⟨r, m⟩ := r
  cases r with
  | error e =>
    obtain ⟨p, hp, hhalts⟩ := hends
    obtain ⟨e, rfl⟩ := horder.halts hhalts
    cases hact.symm.trans hp
  | ok _ =>
    obtain ⟨v', hadv, hm⟩ := hends
    refine ⟨m, rfl, ?_⟩
    rw [hm.view]
    cases hadv with
    | rest h => exact absurd hact (h _).1
    | sleep p h | stayUp p h => cases hact.symm.trans h
    | run p a v₁ h does =>
      cases hact.symm.trans h
      cases does
      exact congrArg (fun p => View.act { s.machine.view b with arena } t (.running p))
        (hnext _ hready)

end Scene

/-! ### Calls on a ready drive -/

namespace SectorStore

variable {k : DriveParameters} {t : TaskId} {d d' : SectorStore} {trace : List (Incident SectorCall)}

private theorem Run.replied (run : Run k d trace d') (hd : d.turns t ≠ none) (hd' : d'.turns t = none) :
    ∃ r, .reply t r ∈ trace := by
  induction run with
  | refl => exact absurd hd' hd
  | @step trace l u u' _ next ih =>
    by_cases hu : u.turns t = none
    · obtain ⟨r, hr⟩ := ih hu
      exact ⟨r, List.mem_append_left _ hr⟩
    · have hput : ∀ {e : SectorStore} {v : TaskId} {x : SectorTurn}, e.turns = u.turns →
          (e.put v (some x)).turns t ≠ none := fun he hc => by
        rw [turns_put, he] at hc
        split at hc
        · cases hc
        · exact hu hc
      cases next with
      | still | execute => exact absurd hd' hu
      | call | refuse | serve => exact absurd hd' (hput rfl)
      | reply v r h =>
        rw [turns_put] at hd'
        split at hd'
        · next htv => exact ⟨r, List.mem_append_right _ (htv ▸ List.mem_singleton_self _)⟩
        · exact absurd hd' hu

end SectorStore

namespace AtomicDrive

variable {k : DriveParameters} {c : SectorCall} {err : DiskError} {d : AtomicDrive} {e : SectorStore}
  {t : TaskId}

private theorem Serial.free_of_turns (hd : d.Serial k e) (hnone : ∀ u, e.turns u = none) :
    d.scratch.held = false := by
  refine hd.agrees.free_of_not_isHeldBy fun u => ?_
  have hworks := hd.works u
  rw [hnone u] at hworks
  generalize d.point u = x at hworks
  cases hworks with
  | idle hn => exact hn

private theorem Serial.free_of_declines (hd : d.Serial k e) (hothers : ∀ u, u ≠ t → d.point u = .idle)
    (ht : (d.point t).Declines k c err) : d.scratch.held = false := by
  refine hd.agrees.free_of_not_isHeldBy fun u => ?_
  have hworks := hd.works u
  by_cases hu : u = t
  · rw [hu] at hworks ⊢
    generalize d.point t = x at hworks ht
    cases ht with
    | idle => exact hworks.of_idle.2
    | done => exact hworks.of_done.2
    | looking p hlooks =>
      cases hlooks with
      | last | more =>
        obtain ⟨_, -, hn, -⟩ := hworks.of_inspect
        exact hn
  · rw [hothers u hu] at hworks
    exact hworks.of_idle.2

end AtomicDrive

namespace Scene

variable {k : DriveParameters} {c : SectorCall} {s s' : Scene} {t : TaskId} {st : ReadyState}
  {e : SectorStore} {trace : List (Incident SectorCall)}

/-- The scene in which a task has just begun to run a program. -/
def start (s : Scene) (t : TaskId) (p : Program Reply) : Scene :=
  { s with machine := s.machine.setActivity t (.running p) }

/-- A scene in which a task has just called, and the store that it is to its callers. -/
structure Called (k : DriveParameters) (t : TaskId) (c : SectorCall) (s : Scene) (st : ReadyState)
    (e : SectorStore) : Prop extends s.Stored k st e where
  asked : e.turns t = some (.asked c)
  looks : ∃ p, (s.atomic k.bay st).point t = .between p ∧ c.Looks k p

private theorem Operates.exists_called (hs : s.Operates k) (ht : t < s.machine.tasks.size)
    (hidle : (s.machine.task t).activity = .idle) (c : SectorCall) :
    Step (operating k) s [.call t c] (s.start t (c.program k.bay k.config)) ∧
      ∃ st e, Called k t c (s.start t (c.program k.bay k.config)) st e ∧
        ((∀ u, (s.machine.task u).activity = .idle) →
          e = .only t (some (.asked c)) (s.machine.bay k.bay).controller.image) := by
  obtain ⟨st, e, hstored⟩ := hs.stored
  have hserial := hstored.serial
  have hcall : Step (operating k) s [.call t c] (s.start t (c.program k.bay k.config)) :=
    .call t c ht hidle
  obtain ⟨st', e', hstored', hstore, -⟩ := hstored.step hcall
  have hset := hstored.attended.steady.shows.setActivity ht (.running (c.program k.bay k.config))
  have hpoint : ((s.start t (c.program k.bay k.config)).atomic k.bay st').point t =
      .between (c.program k.bay k.config) := by
    refine View.point_of_asks (SectorCall.asks_program k.bay k.config c) ?_
    rw [start, hset.view, View.act_self]
    rfl
  -- the store's step for a call can only be the call
  cases hstore with
  | call _ _ hnone =>
    refine ⟨hcall, st', _, ⟨hstored', if_pos rfl, _, hpoint, SectorCall.looks_program k c⟩,
      fun hall => ?_⟩
    have hdelta : ∀ u, (s.atomic k.bay st).point u = .idle := fun u =>
      View.point_of_idle (congrArg Activity.program? (hall u))
    have hturns : e.turns = fun u => if u = t then none else none := funext fun u => by
      have hworks := hserial.works u
      rw [hdelta u] at hworks
      rw [hworks.of_idle.1, ite_self]
    -- where all are idle nobody keeps the scratch block, and the image is up to date
    have himage : e.image = (s.machine.bay k.bay).controller.image :=
      (hserial.free (hserial.free_of_idle hdelta)).symm
    have hsame : e = .only t none (s.machine.bay k.bay).controller.image := by
      cases e
      cases hturns
      cases himage
      rfl
    rw [hsame, SectorStore.only_put]

private theorem Stored.positive (hs : s.Stored k st e) : 0 < k.config.sectorsPerBlock :=
  (DriveConfig.block_of_isValid hs.valid).2.1

private theorem Called.declines (hs : Called k t c s st e) {err : DiskError}
    (hrefuse : k.refusal? c = some err)
    (run : Run (operating k) s trace s') (hnone : ∀ c', .call t c' ∉ trace) :
    ∃ st' e', s'.Stored k st' e' ∧ ((s'.atomic k.bay st').point t).Declines k c err := by
  induction run with
  | refl =>
    obtain ⟨p, hpoint, hlooks⟩ := hs.looks
    exact ⟨st, e, hs.toStored, hpoint ▸ .looking p hlooks⟩
  | step _ next ih =>
    obtain ⟨st₁, e₁, hs₁, hdeclines⟩ := ih fun c' h => hnone c' (List.mem_append_left _ h)
    obtain ⟨st₂, e₂, hs₂, -, hstep⟩ := hs₁.step next
    exact ⟨st₂, e₂, hs₂, AtomicDrive.declines_step hrefuse hdeclines hstep
      fun c' h => hnone c' (List.mem_append_right _ h)⟩

private theorem Called.not_submits (hs : Called k t c s st e) {err : DiskError}
    (hrefuse : k.refusal? c = some err) (run : Run (operating k) s trace s')
    (hnone : ∀ c', .call t c' ∉ trace) (bay : BayId) (a : BlockAccess)
    (next : SubmitReply → Program Reply) :
    (s'.machine.task t).activity.program? ≠ some (.submit bay a next) := by
  intro hp
  obtain ⟨st', e', hs', hdeclines⟩ := hs.declines hrefuse run hnone
  have hasks := (hs'.attended.serving.orderly.underway t _ hp).asks_of_stage? rfl
  have hpoint : (s'.atomic k.bay st').point t = .between (.submit bay a next) :=
    View.point_of_asks hasks hp
  rw [hpoint] at hdeclines
  cases hdeclines with
  | looking _ hlooks => cases hlooks

/-! ### Calls that have the drive to themselves -/

section lone

variable {image : Image} (hcapacity : k.capacity.toNat < wordLimit - 1)
  (hword : c.buffer.length < wordLimit)
  (hs : Called k t c s st (.only t (some (.asked c)) image))
  (run : Run (operating k) s trace s') (hnone : ∀ u c', .call u c' ∉ trace)
include hcapacity hword hs run hnone

private theorem Called.replies {u : TaskId} {r : Reply} (hr : .reply u r ∈ trace) :
    u = t ∧ r = c.reply (k.settled c image).1 ∧
      (s'.machine.bay k.bay).controller.image = (k.settled c image).2 := by
  obtain ⟨st', e', hs', hstore⟩ := hs.run run
  obtain ⟨-, hreplies⟩ := hstore.sole hs.positive hcapacity hword .asked hnone
  obtain ⟨hu, hreply, rfl⟩ := hreplies u r hr
  refine ⟨hu, hreply, hs'.serial.free (hs'.serial.free_of_turns fun v => ?_)⟩
  exact ite_self _

private theorem Called.image_of_declines (hlone : s.Lone k t) {err : DiskError}
    (hrefuse : k.refusal? c = some err) : (s'.machine.bay k.bay).controller.image = image := by
  obtain ⟨st', e', hs', hstore⟩ := hs.run run
  obtain ⟨hsole, -⟩ := hstore.sole hs.positive hcapacity hword .asked hnone
  obtain ⟨st₁, e₁, hs₁, hdeclines⟩ := hs.declines hrefuse run fun c' => hnone t c'
  -- the drive is ready in one way only, so both speak of the same atomic drive
  cases hs₁.attended.serving.ready.symm.trans hs'.attended.serving.ready
  have hlone' := hlone.onward ⟨trace, run, hnone⟩
  have hfree := hs'.serial.free_of_declines (fun u hu => View.point_of_idle (by rw [hlone'.others u hu]; rfl))
    hdeclines
  have hsettled : (k.settled c image).2 = image := by rw [DriveParameters.settled_of_refusal image hrefuse]
  have himage : e'.image = image := by
    cases hsole with
    | asked => rfl
    | answered => exact hsettled
    | returned => exact hsettled
  exact (hs'.serial.free hfree).trans himage

omit hword in
private theorem Called.returns (hlone : s.Lone k t) :
    ∃ trace' s'' r, Run (operating k) s' trace' s'' ∧ (∀ u c', .call u c' ∉ trace') ∧
      .reply t r ∈ trace ++ trace' := by
  have hlone' := hlone.onward ⟨trace, run, hnone⟩
  cases hp : ((s'.machine.view k.bay).activity t).program? with
  | some p =>
    obtain ⟨trace', s'', r, hrun, hnone', hr⟩ := hlone'.exists_reply hcapacity hp
    exact ⟨trace', s'', r, hrun, hnone', List.mem_append_right _ hr⟩
  | none =>
    obtain ⟨st', e', hs', hstore⟩ := hs.run run
    have hworks := hs'.serial.works t
    have hpoint : (s'.atomic k.bay st').point t = .idle := View.point_of_idle hp
    rw [hpoint] at hworks
    obtain ⟨r, hr⟩ := hstore.replied (t := t) (by rw [hs.asked]; exact Option.some_ne_none _)
      hworks.of_idle.1
    exact ⟨[], s', r, .refl, fun _ _ => List.not_mem_nil, List.mem_append_left _ hr⟩

end lone

/-! ### The outcome of an operation -/

/-- How a call goes from where it starts, whatever the other tasks do meanwhile. It is answered as it
should, submits nothing if it is turned down, and neither a task nor the handler halts. -/
structure CallOutcome (k : DriveParameters) (t : TaskId) (c : SectorCall) (s : Scene) : Prop where
  answers : ∀ trace s', Run (operating k) s trace s' → (∀ c', .call t c' ∉ trace) →
    ∀ r, .reply t r ∈ trace → ∃ image, r = c.reply (k.settled c image).1
  declines : k.Declines c → ∀ trace s', Run (operating k) s trace s' → (∀ c', .call t c' ∉ trace) →
    ∀ bay a next, (s'.machine.task t).activity.program? ≠ some (.submit bay a next)
  advances : ∀ trace s', Run (operating k) s trace s' → ∀ u arena h m,
    (DiskStack.Run.advance u).run.run { s'.machine with arena } ≠ (.error h, m)
  handles : ∀ trace s', Run (operating k) s trace s' → ∀ point, s'.handler = some point → ∀ h m,
    (DiskStack.Run.completionStep k.bay point).run.run s'.machine ≠ (.error h, m)

/-- How a call goes that has the drive to itself. It can always return, its reply and the image are
then as they should be, and the image stays as it is if the call is turned down. -/
structure LoneOutcome (k : DriveParameters) (t : TaskId) (c : SectorCall) (image : Image) (s : Scene) :
    Prop where
  returns : ∀ trace s', Run (operating k) s trace s' → (∀ u c', .call u c' ∉ trace) →
    ∃ trace' s'' r, Run (operating k) s' trace' s'' ∧ (∀ u c', .call u c' ∉ trace') ∧
      .reply t r ∈ trace ++ trace'
  replies : ∀ trace s', Run (operating k) s trace s' → (∀ u c', .call u c' ∉ trace) →
    ∀ u r, .reply u r ∈ trace → u = t ∧ r = c.reply (k.settled c image).1 ∧
      (s'.machine.bay k.bay).controller.image = (k.settled c image).2
  declines : k.Declines c → ∀ trace s', Run (operating k) s trace s' →
    (∀ u c', .call u c' ∉ trace) → (s'.machine.bay k.bay).controller.image = image

theorem operates_of_run {b : BayId} {m : Machine} (rest : m.AtRest b st)
    (memory : ∃ a a' : Arena, (a.reserve 0).1 ≠ (a'.reserve 0).1 ∧
      st.rings.Misses (a.reserve 0).1 ∧ st.rings.Misses (a'.reserve 0).1)
    (run : Run (served b (SectorCall.program b (m.bay b).drive.config)) { machine := m } trace s) :
    s.Operates ((m.view b).parameters b st) := by
  have htidy : ∀ {place : UInt64}, st.rings.Misses place → (m.view b).Tidy place :=
    fun {place} hmisses => by
      refine ⟨fun id hid => ?_, fun s hs => ?_⟩
      · rw [RequestTable.keys, show (m.view b).requests.entries = [] from rest.requests] at hid
        cases hid
      · cases rest.ready.symm.trans hs
        exact hmisses
  obtain ⟨a, a', hne, hmisses, hmisses'⟩ := memory
  refine run.invariant (P := fun s => s.Operates ((m.view b).parameters b st)) ⟨?_, ?_⟩
    fun _ _ _ hu step => hu.step step
  · refine ⟨st, _, attended_of_atRest rest, rfl, serial_of_atRest rest, fun u id sector hw => ?_⟩
    cases (View.stage_of_idle (rest.idle u)).symm.trans hw
  · exact ⟨a, a', hne, htidy hmisses, htidy hmisses'⟩

private theorem Operates.callOutcome (hcapacity : k.capacity.toNat < wordLimit - 1)
    (hword : c.buffer.length < wordLimit - 1) (hs : s.Operates k) (hcalled : Called k t c s st e) :
    CallOutcome k t c s where
  answers trace s' run hnone r hr := by
    obtain ⟨st', e', -, hstore⟩ := hcalled.run run
    have hasked : SectorStore.Answers k c (e.turns t) := by
      rw [hcalled.asked]
      exact .asked
    exact (hstore.answers hcalled.positive hcapacity (by omega) hasked hnone).2 r hr
  declines hdeclines trace s' run hnone := by
    obtain ⟨err, hrefuse⟩ := hdeclines.refusal hword
    exact hcalled.not_submits hrefuse run hnone
  advances trace s' run := (run.invariant hs fun _ _ _ hu step => hu.step step).not_halts hcapacity
  handles trace s' run point hpoint :=
    (run.invariant hs fun _ _ _ hu step => hu.step step).handler_not_halts hpoint

private theorem Lone.loneOutcome {image : Image} (hcapacity : k.capacity.toNat < wordLimit - 1)
    (hword : c.buffer.length < wordLimit - 1) (hs : s.Lone k t)
    (hcalled : Called k t c s st (.only t (some (.asked c)) image)) : LoneOutcome k t c image s where
  returns trace s' run hnone := hcalled.returns hcapacity run hnone hs
  replies trace s' run hnone u r hr := hcalled.replies hcapacity (by omega) run hnone hr
  declines hdeclines trace s' run hnone := by
    obtain ⟨err, hrefuse⟩ := hdeclines.refusal hword
    exact hcalled.image_of_declines hcapacity (by omega) run hnone hs hrefuse

/-- A run of disk operations on a drive that may not be ready yet, or never be, whose controller writes
what it likes. -/
def tampered (b : BayId) (config : DriveConfig) : Setting SectorCall where
  bay := b
  program := SectorCall.program b config
  admits _ _ := True
  device := Tampers b

private theorem inOrder_of_tampered {b : BayId} {m : Machine} {config : DriveConfig} (fresh : m.Fresh b)
    (run : Run (tampered b config) { machine := m } trace s) : s.InOrder b :=
  run.invariant (P := fun s => s.InOrder b) (inOrder_of_fresh fresh) fun _ _ _ hu step =>
    hu.step (SectorCall.asks_program b config) (fun _ hd => hu.tampers hd) step

/-- A task that calls for an operation on the drive that is registered under a number. -/
def begin (s : Scene) (t : TaskId) (number : UInt8) (c : SectorCall) : Scene :=
  s.start t (c.operation (s.machine.drive? number))

private theorem Operates.begin {number : UInt8} (hcapacity : k.capacity.toNat < wordLimit - 1)
    (hword : c.buffer.length < wordLimit - 1) (hs : s.Operates k)
    (hnumber : s.machine.bayOf? number = some k.bay) (ht : t < s.machine.tasks.size)
    (hidle : (s.machine.task t).activity = .idle) :
    Step (operating k) s [.call t c] (s.begin t number c) ∧ CallOutcome k t c (s.begin t number c) ∧
      ((∀ u, (s.machine.task u).activity = .idle) →
        LoneOutcome k t c (s.machine.bay k.bay).controller.image (s.begin t number c) ∧
        DriveParameters.Moves c (k.outcome c).2 (s.machine.bay k.bay).controller.image
          (k.settled c (s.machine.bay k.bay).controller.image)) := by
  obtain ⟨st₀, e₀, hstored⟩ := hs.stored
  have hconfig : (s.machine.bay k.bay).drive.config = k.config :=
    congrArg DriveParameters.config hstored.parameters
  have hbegin : s.begin t number c = s.start t (c.program k.bay k.config) := by
    rw [Scene.begin, Machine.drive?, hnumber, Option.map_some, hconfig, SectorCall.operation_some]
  obtain ⟨hstep, st, e, hcalled, honly⟩ := hs.exists_called ht hidle c
  rw [hbegin]
  have hs₁ := hs.step hstep
  refine ⟨hstep, hs₁.callOutcome hcapacity hword hcalled, fun hall => ⟨?_, ?_⟩⟩
  · rw [honly hall] at hcalled
    have hset := hstored.attended.steady.shows.setActivity ht (.running (c.program k.bay k.config))
    refine Lone.loneOutcome hcapacity hword ⟨hs₁, fun u hu => ?_⟩ hcalled
    rw [start, hset.view, View.act_of_ne _ hu]
    exact hall u
  · exact DriveParameters.moves_settled hcalled.positive hcapacity hstored.attended.serving.whole c

/-- The outcome of an operation on the drive under a number. If there is none, the operation refuses its
parameters. On a drive that is not ready it is over after one step, which changes nothing but the
task. Otherwise, and whatever the other tasks do, it goes as it should; and when it has the drive
to itself, it can return, and then just the sectors have been moved that the drive has. -/
theorem operation_outcome (c : SectorCall) (number : UInt8) (t : TaskId) :
    (∀ m : Machine, m.bayOf? number = none →
      c.operation (m.drive? number) = .done (c.reply (.refuse .parameter c.buffer))) ∧
    (∀ (b : BayId) (m : Machine) (trace : List (Incident SectorCall)) (s : Scene), m.Fresh b →
      Run (tampered b (m.bay b).drive.config) { machine := m } trace s →
      s.machine.bayOf? number = some b → (s.machine.bay b).drive.state.isReady = false →
      (s.machine.task t).activity = .running (c.operation (s.machine.drive? number)) →
      ∀ arena, ∃ m',
        (DiskStack.Run.advance t).run.run { s.machine with arena } = (.ok (), m') ∧
        m'.view b = View.act { s.machine.view b with arena } t
          (.running (.done (c.reply (.refuse .notReady c.buffer))))) ∧
    ∀ (b : BayId) (m : Machine) (st : ReadyState) (trace : List (Incident SectorCall)) (s : Scene),
      m.AtRest b st →
      (∃ a a' : Arena, (a.reserve 0).1 ≠ (a'.reserve 0).1 ∧
        st.rings.Misses (a.reserve 0).1 ∧ st.rings.Misses (a'.reserve 0).1) →
      st.capacity.toNat < wordLimit - 1 → c.buffer.length < wordLimit - 1 →
      Run (served b (SectorCall.program b (m.bay b).drive.config)) { machine := m } trace s →
      s.machine.bayOf? number = some b → t < s.machine.tasks.size →
      (s.machine.task t).activity = .idle →
      Step (served b (SectorCall.program b (m.bay b).drive.config)) s [.call t c]
        (s.begin t number c) ∧
      CallOutcome (parameters { machine := m } b st) t c (s.begin t number c) ∧
      ((∀ u, (s.machine.task u).activity = .idle) →
        LoneOutcome (parameters { machine := m } b st) t c (s.machine.bay b).controller.image
          (s.begin t number c) ∧
        DriveParameters.Moves c ((parameters { machine := m } b st).outcome c).2
          (s.machine.bay b).controller.image
          ((parameters { machine := m } b st).settled c (s.machine.bay b).controller.image)) := by
  refine ⟨fun m hnone => ?_, ?_, ?_⟩
  · rw [Machine.drive?, hnone, Option.map_none, SectorCall.operation_none]
  · intro b m trace s fresh run hnumber hready hact arena
    rw [Machine.drive?, hnumber, Option.map_some] at hact
    exact (inOrder_of_tampered fresh run).advance_of_not_ready hready hact arena
  · intro b m st trace s rest memory hcapacity hword run hnumber ht hidle
    exact (operates_of_run rest memory run).begin hcapacity hword hnumber ht hidle

/-- On the sample machine there is no drive 1, drive 0 is not ready before it is brought up, and then its
third sector can be written. -/
theorem operation_outcome_sample :
    sectorCall_sample.operation (Machine.sample.drive? 1) =
      .done (sectorCall_sample.reply (.refuse .parameter sectorCall_sample.buffer)) ∧
    (∃ s m, Run (tampered 0 (Machine.sample.bay 0).drive.config) { machine := .sample }
        [.call 0 sectorCall_sample] s ∧
      (DiskStack.Run.advance 0).run.run s.machine = (.ok (), m) ∧
      (m.task 0).activity = .running
        (.done (sectorCall_sample.reply (.refuse .notReady sectorCall_sample.buffer)))) ∧
    ∃ (m : Machine) (st : ReadyState), m.AtRest 0 st ∧
      LoneOutcome ⟨0, {}, 128, false⟩ 0 sectorCall_sample (m.bay 0).controller.image
        (begin { machine := m } 0 0 sectorCall_sample) ∧
      DriveParameters.Moves sectorCall_sample 1 (m.bay 0).controller.image
        (DriveParameters.settled ⟨0, {}, 128, false⟩ sectorCall_sample (m.bay 0).controller.image) := by
  refine ⟨(operation_outcome _ _ 0).1 _ rfl, ?_, ?_⟩
  · have hrun : Run (tampered 0 (Machine.sample.bay 0).drive.config) { machine := .sample }
        [.call 0 sectorCall_sample] (begin { machine := .sample } 0 0 sectorCall_sample) :=
      .step .refl (.call 0 sectorCall_sample (Nat.zero_lt_succ _) rfl)
    obtain ⟨m, hadvance, hview⟩ := (operation_outcome sectorCall_sample 0 0).2.1 0 .sample _ _
      Machine.fresh_sample hrun rfl rfl rfl ⟨1⟩
    refine ⟨_, m, hrun, hadvance, ?_⟩
    change (m.view 0).activity 0 = _
    rw [hview, View.act_self]
  · obtain ⟨st, rest, hparameters, hclear⟩ := Machine.exists_atRest_sample
    have hbusy : 0 < Machine.readySample.tasks.size ∧ Machine.readySample.bayOf? 0 = some 0 := by
      decide +kernel
    generalize Machine.readySample = m at *
    obtain ⟨htasks, hnumber⟩ := hbusy
    replace hparameters : parameters { machine := m } 0 st = ⟨0, {}, 128, false⟩ := hparameters
    have hcapacity : st.capacity = 128 := congrArg DriveParameters.capacity hparameters
    have memory : ∃ a a' : Arena, (a.reserve 0).1 ≠ (a'.reserve 0).1 ∧
        st.rings.Misses (a.reserve 0).1 ∧ st.rings.Misses (a'.reserve 0).1 :=
      ⟨⟨6⟩, ⟨7⟩, by decide, hclear 6 (by decide), hclear 7 (by decide)⟩
    obtain ⟨-, -, halone⟩ := (operation_outcome sectorCall_sample 0 0).2.2 0 m st _ _ rest memory
      (by rw [hcapacity]; decide) (by decide +kernel) .refl hnumber htasks (rest.idle 0)
    obtain ⟨hgoes, hmoves⟩ := halone rest.idle
    have hone : (DriveParameters.outcome ⟨0, {}, 128, false⟩ sectorCall_sample).2 = 1 := by decide +kernel
    rw [hparameters] at hgoes hmoves
    rw [hone] at hmoves
    exact ⟨m, st, rest, hgoes, hmoves⟩

end Scene

end DiskStack
