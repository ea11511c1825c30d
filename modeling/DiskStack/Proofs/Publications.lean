import DiskStack.Proofs.CurrentCalls
import DiskStack.Proofs.Places

/-!
# Published chains

Behind the head of a request in flight a controller finds a header, three descriptors and a status
byte that stand for the block, the direction and the buffer of one call. They are there when the head
is offered, and stay as they are until the handler has taken the entry of the head; only the status
byte is the controller's to write.
-/

namespace DiskStack

namespace Rings

/-- What a controller finds behind a head: a header that names the sectors of a block, and descriptors
of the header, of a buffer for the block, which is written to in a read only, and of the status byte. -/
structure Poses (r : Rings) (config : DriveConfig) (h : UInt16) (a : BlockAccess)
    (address : UInt64) : Prop where
  kind : (r.header h).kind = if a.write then 1 else 0
  reserved : (r.header h).reserved = 0
  sector : (r.header h).sector.toNat = a.block * config.sectorsPerBlock
  descriptors : ∃ (i j : UInt16) (length : UInt32), length.toNat = config.blockSize ∧
    r.slot h.toNat = ⟨r.headerPlace h, 16, DescriptorFlags.next, i⟩ ∧
    r.slot i.toNat = ⟨address, length, if a.write then DescriptorFlags.next
      else DescriptorFlags.next ||| DescriptorFlags.write, j⟩ ∧
    r.slot j.toNat = ⟨r.statusPlace h, 1, DescriptorFlags.write, 0⟩

variable {r q : Rings} {h : UInt16}

private theorem Poses.keeps {config : DriveConfig} {a : BlockAccess} {address : UInt64}
    (hp : r.Poses config h a address) (hk : r.Keeps q h) : q.Poses config h a address := by
  obtain ⟨i, j, length, hlen, hhead, hdata, hstatus⟩ := hp.descriptors
  have hslots : (r.chainAt h).slots = [h, i, j] := by
    simp only [Chain.slots, chainAt, hhead, hdata]
  have hsame : ∀ k ∈ [h, i, j], q.slot k.toNat = r.slot k.toNat := hslots ▸ hk.slots
  constructor
  case kind => rw [hk.header, hp.kind]
  case reserved => rw [hk.header, hp.reserved]
  case sector => rw [hk.header, hp.sector]
  case descriptors =>
    refine ⟨i, j, length, hlen, ?_, ?_, ?_⟩
    · rw [hsame h (by simp), hhead, headerPlace, headerPlace, hk.headersBase]
    · rw [hsame i (by simp), hdata]
    · rw [hsame j (by simp), hstatus, statusPlace, statusPlace, hk.statusBase]

private theorem Carries.poses {v : View} {e : InFlight} {x : BlockRequest}
    (hc : r.Carries (r.chainAt h) (v.submissionOf e x)) {a : BlockAccess} (hx : x.IsFor a)
    (hlen : x.length = v.config.blockSize) (hshort : v.config.blockSize < UInt32.size)
    (hlt : x.block * v.config.sectorsPerBlock < wordLimit) :
    r.Poses v.config h a x.address := by
  have hheader := hc.header
  rw [headerOf, View.submissionOf, hx.write] at hheader
  have hdata := hc.data
  rw [dataDescriptor, View.submissionOf, dataFlags, hx.write, hlen] at hdata
  constructor
  case kind => exact congrArg RequestHeader.kind hheader
  case reserved => exact congrArg RequestHeader.reserved hheader
  case sector =>
    refine (congrArg (fun x => x.sector.toNat) hheader).trans ?_
    rw [← hx.block]
    exact UInt64.toNat_ofNat_of_lt' hlt
  case descriptors =>
    exact ⟨_, _, _, UInt32.toNat_ofNat_of_lt' hshort, hc.head, hdata, hc.status⟩

private theorem keeps_of_offer {k : UInt16} (ho : q.offer k = .ok r) (h : UInt16) :
    q.Keeps r h ∧ r.statusByte h = q.statusByte h := by
  rw [offer] at ho
  cases ha : q.queue.avail.push k with
  | error e =>
    rw [ha] at ho
    cases ho
  | ok avail =>
    rw [ha] at ho
    cases ho
    exact ⟨.of_pool (by rfl) (by rfl) (by rfl) (by rfl) h, rfl⟩

end Rings

private theorem View.Advances.state_cases {b : BayId} {v v' : View} {t : TaskId} (h : v.Advances b t v') :
    v'.state = v.state ∨ ∃ s c sub r, v.state = .ready s ∧ s.rings.Fresh c ∧
      (s.rings.taking c).publish c sub = .ok r ∧ v'.state = .ready (s.published r) ∧
      v'.controller = v.controller.tell (.notifyQueue 0) := by
  have hpublishes : ∀ (u u' : View) {s : ReadyState} {id : RequestId} {q : BlockRequest}
      {sector : Nat} {next : SubmitReply → Program Reply} {a : Activity}, u.state = .ready s →
      u.Publishes b s id q sector next a u' →
      u'.state = u.state ∨ ∃ s c sub r, u.state = .ready s ∧ s.rings.Fresh c ∧
        (s.rings.taking c).publish c sub = .ok r ∧ u'.state = .ready (s.published r) ∧
        u'.controller = u.controller.tell (.notifyQueue 0) := by
    intro u u' s id q sector next a hs hpub
    cases hpub with
    | wait => exact .inl rfl
    | publish c r hc _ hr => exact .inr ⟨_, c, _, r, hs, hc, hr, rfl, rfl⟩
  cases h with
  | rest | sleep | stayUp => exact .inl rfl
  | run p a v₁ _ does =>
    cases does with
    | submit acc next sector s _ _ haccept hpub =>
      exact hpublishes (v.enter acc) v₁ (ready_of_accepts haccept).1 hpub
    | publish id sector next s q _ _ hs _ hpub => exact hpublishes v v₁ hs hpub
    | _ => exact .inl rfl

private theorem View.Advances.config_eq {b : BayId} {v v' : View} {t : TaskId} (h : v.Advances b t v') :
    v'.config = v.config := by
  have hpublishes : ∀ (u u' : View) {s : ReadyState} {id : RequestId} {q : BlockRequest}
      {sector : Nat} {next : SubmitReply → Program Reply} {a : Activity},
      u.Publishes b s id q sector next a u' → u'.config = u.config := by
    intro u u' s id q sector next a hpub
    cases hpub <;> rfl
  cases h with
  | rest | sleep | stayUp => rfl
  | run p a v₁ _ does =>
    cases does with
    | submit acc _ _ _ _ _ _ hpub => exact hpublishes (v.enter acc) v₁ hpub
    | publish _ _ _ _ _ _ _ _ _ hpub => exact hpublishes v v₁ hpub
    | _ => rfl

namespace Scene

variable {b : BayId} {m : Machine} {s s' : Scene} {h : UInt16} {e : InFlight} {t u : TaskId}
  {l trace : List (Incident BlockAccess)} {st st' : ReadyState}

/-- What a step does to the state of a drive whose controller writes what it likes. -/
inductive Shifts (b : BayId) (s s' : Scene) : DriveState → DriveState → Prop
  | still (d : DriveState) : Shifts b s s' d d
  | fail (d : DriveState) (h : d.isReady = false) : Shifts b s s' d .incompatible
  | start (d : DriveState) (st : ReadyState) (h : d.isReady = false)
    (hvalid : (s.machine.bay b).drive.config.isValid = true)
    (hnone : ∀ i, st.rings.entryAt i = none) : Shifts b s s' d (.ready st)
  | publish (st : ReadyState) (c : Chain) (sub : Submission) (r : Rings) (hc : st.rings.Fresh c)
    (hr : (st.rings.taking c).publish c sub = .ok r)
    (htold : (s'.machine.bay b).controller = (s.machine.bay b).controller.tell (.notifyQueue 0)) :
    Shifts b s s' (.ready st) (.ready (st.published r))
  | settle (st : ReadyState) (h : UInt16) (e : InFlight) (he : st.rings.entryAt h.toNat = some e)
    (hh : s.handler = some .taking) :
    Shifts b s s' (.ready st) (.ready { st with rings := st.rings.settled h })
  | tamper (st : ReadyState) (used status : Array UInt8) (h : Tampers b s [] s') :
    Shifts b s s' (.ready st) (.ready { st with rings := { st.rings with
      queue.used.region.bytes := used, status.bytes := status } })

theorem Step.shifts (hs : s.InOrder b) (step : Step (adversarial b) s l s') :
    Shifts b s s' (s.machine.bay b).drive.state (s'.machine.bay b).drive.state := by
  have hstill : (s'.machine.view b).state = (s.machine.view b).state →
      Shifts b s s' (s.machine.view b).state (s'.machine.view b).state := fun h => by
    rw [h]
    exact .still _
  change Shifts b s s' (s.machine.view b).state (s'.machine.view b).state
  obtain ⟨turn, -⟩ := step.turn hs
  cases turn with
  | call _ _ _ hv | rouse _ _ _ hv | reply _ _ _ hv | enter hv | leave hv =>
    exact hstill ((congrArg View.state hv).trans rfl)
  | advance t arena _ hadv =>
    rcases hadv.state_cases with hsame | ⟨st, c, sub, r, hst, hc, hr, hst', htold⟩
    · exact hstill hsame
    · have hready : (s.machine.view b).state = .ready st := hst
      have hready' : (s'.machine.view b).state = .ready (st.published r) := hst'
      rw [hready, hready']
      exact .publish st c sub r hc hr htold
  | bringUp hstarts =>
    have hstarts : (s.machine.view b).Starts (s'.machine.view b) := hstarts
    generalize s'.machine.view b = v' at hstarts hstill
    cases hstarts with
    | refused => exact hstill rfl
    | invalid hst | failed hst => exact .fail _ (by rw [hst]; rfl)
    | started hst hvalid st arena hok =>
      refine .start _ st (by rw [hst]; rfl) hvalid fun i => ?_
      obtain ⟨⟨p, -, hrings⟩, -⟩ := View.rings_of_started hvalid hok
      rw [hrings]
      exact Rings.entryAt_unused ..
  | handle point next hhandles hh =>
    have hhandles : (s.machine.view b).Handles point next (s'.machine.view b) := hhandles
    generalize s'.machine.view b = v' at hhandles hstill
    cases hhandles with
    | take st head e q r hst hc hr =>
      obtain ⟨-, he, -, rfl⟩ := (hs.orderly.kept st hst).take hc hr
      rw [hst]
      exact .settle st head e he hh
    | _ => exact hstill rfl
  | device heads _ _ hd =>
    cases hd with
    | answer c hc =>
      exact hstill ((congrArg View.state
        (hs.steady.shows.setController (f := fun _ => c) hc).view).trans rfl)
    | write st used status data c hst hused hstatus hdata hc =>
      have hset := congrArg View.state (hs.steady.shows.putShared st
        { rings := { st.rings with queue.used.region.bytes := used, status.bytes := status }
          requests := ⟨s.machine.requests.entries.map fun e => (e.1, { e.2 with data := data e.1 })⟩ }
        hc).view
      have hready : (s.machine.view b).state = .ready st := hst
      rw [hready, hset]
      exact .tamper st used status (.write st used status data c hst hused hstatus hdata hc)

theorem Step.config_eq (hs : s.InOrder b) (step : Step (adversarial b) s l s') :
    (s'.machine.bay b).drive.config = (s.machine.bay b).drive.config := by
  change (s'.machine.view b).config = (s.machine.view b).config
  obtain ⟨turn, -⟩ := step.turn hs
  cases turn with
  | call _ _ _ hv | rouse _ _ _ hv | reply _ _ _ hv | enter hv | leave hv =>
    exact (congrArg View.config hv).trans rfl
  | advance t arena _ hadv => exact hadv.config_eq
  | bringUp hstarts =>
    have hstarts : (s.machine.view b).Starts (s'.machine.view b) := hstarts
    generalize s'.machine.view b = v' at hstarts
    cases hstarts <;> rfl
  | handle point next hhandles =>
    have hhandles : (s.machine.view b).Handles point next (s'.machine.view b) := hhandles
    generalize s'.machine.view b = v' at hhandles
    cases hhandles <;> rfl
  | device heads _ _ hd =>
    cases hd with
    | answer c hc =>
      exact (congrArg View.config (hs.steady.shows.setController (f := fun _ => c) hc).view).trans rfl
    | write st used status data c _ _ _ _ hc =>
      exact (congrArg View.config (hs.steady.shows.putShared st _ hc).view).trans rfl

/-- Only a drive with a valid configuration gets ready. -/
theorem isValid_of_run (fresh : m.Fresh b) (run : Run (adversarial b) { machine := m } trace s)
    (ready : (s.machine.bay b).drive.state = .ready st) :
    (s.machine.bay b).drive.config.isValid = true := by
  induction run generalizing st with
  | refl => cases fresh.uninitialized.symm.trans ready
  | @step trace l s s' run step ih =>
    have hs := inOrder_of_run fresh run
    rw [step.config_eq hs]
    have hshifts := step.shifts hs
    rw [ready] at hshifts
    generalize hd : (s.machine.bay b).drive.state = d at hshifts
    cases hshifts with
    | start _ _ _ hvalid => exact hvalid
    | _ => exact ih hd

/-- A step that leaves the chain of a head as it is. The status byte is the controller's to write. -/
structure Leaves (b : BayId) (h : UInt16) (s : Scene) (l : List (Incident BlockAccess))
    (s' : Scene) : Prop where
  step : Step (adversarial b) s l s'
  rings : ∃ st st', (s.machine.bay b).drive.state = .ready st ∧
    (s'.machine.bay b).drive.state = .ready st' ∧ st.rings.Keeps st'.rings h ∧
    (st'.rings.statusByte h = st.rings.statusByte h ∨ Tampers b s [] s')

/-- The chain of a request in flight stays as it is, until the handler takes its entry. -/
private theorem InOrder.leaves_or_settles (hs : s.InOrder b) (step : Step (adversarial b) s l s')
    (ready : (s.machine.bay b).drive.state = .ready st) (he : st.rings.entryAt h.toNat = some e) :
    Leaves b h s l s' ∨ s.handler = some .taking ∧
      ∃ st', (s'.machine.bay b).drive.state = .ready st' ∧ st'.rings.entryAt h.toNat = none := by
  have hb := (hs.orderly.kept st ready).balanced
  have hh := Rings.isHead_of_entryAt he
  have hshifts := step.shifts hs
  rw [ready] at hshifts
  generalize hd : (s'.machine.bay b).drive.state = d at hshifts
  cases hshifts with
  | still => exact .inl ⟨step, st, st, ready, hd, .refl .., .inl rfl⟩
  | fail _ hnot | start _ _ hnot _ => cases hnot
  | publish _ c sub r hc hr =>
    have hpub := hb.published hc hr
    have hne : h ≠ c.head := fun hc' =>
      hb.not_fresh hc hh (Rings.head_mem_slots h) (by rw [hc']; simp [Chain.slots])
    exact .inl ⟨step, st, _, ready, hd, hpub.keeps hb hc hh,
      .inl ((hpub.statusByte h).trans (if_neg hne))⟩
  | settle _ k e' hk hhandler =>
    have hhead := Rings.isHead_of_entryAt hk
    by_cases hkh : h = k
    · exact .inr ⟨hhandler, _, rfl, (hb.entryAt_settled hhead h.toNat).trans (if_pos (by rw [hkh]))⟩
    · exact .inl ⟨step, st, _, ready, hd, hb.keeps_settled hhead hh hkh, .inl rfl⟩
  | tamper _ used status hd' =>
    exact .inl ⟨step, st, _, ready, hd, .of_pool (by rfl) (by rfl) (by rfl) (by rfl) h,
      .inr hd'⟩

/-- A step in which a request is published. The rings are filled by accesses that keep off the available
ring; everything but the offer is there when the head is offered, by accesses that move the index last;
and the controller is notified after that. -/
structure Launches (b : BayId) (h : UInt16) (e : InFlight) (filled : Rings) (s s' : Scene) :
    Prop where
  vacant : ∃ st, (s.machine.bay b).drive.state = .ready st ∧ st.rings.entryAt h.toNat = none
  filling : ∃ st c sub, (s.machine.bay b).drive.state = .ready st ∧ c.head = h ∧ st.rings.Fresh c ∧
    filled = (st.rings.taking c).filled c sub ∧
    (st.rings.taking c).FillsFirst (s.machine.bay b).drive.config.queueSize.toNat c sub
  entered : filled.entryAt h.toNat = some e
  unanswered : filled.statusByte h = 0xff
  offered : ∃ st', (s'.machine.bay b).drive.state = .ready st' ∧ filled.offer h = .ok st'.rings
  notified : (s'.machine.bay b).controller = (s.machine.bay b).controller.tell (.notifyQueue 0)

private theorem InOrder.entered_or_launches (hs : s.InOrder b) (step : Step (adversarial b) s l s')
    (ready : (s'.machine.bay b).drive.state = .ready st') (he : st'.rings.entryAt h.toNat = some e) :
    (∃ st, (s.machine.bay b).drive.state = .ready st ∧ st.rings.entryAt h.toNat = some e) ∨
      ∃ filled, Launches b h e filled s s' := by
  have hshifts := step.shifts hs
  rw [ready] at hshifts
  generalize hd : (s.machine.bay b).drive.state = d at hshifts
  cases hshifts with
  | still => exact .inl ⟨st', rfl, he⟩
  | start _ _ _ _ hnone =>
    rw [hnone] at he
    cases he
  | publish st c sub r hc hr htold =>
    have hb := (hs.orderly.kept st hd).balanced
    have hpub := hb.published hc hr
    have hentry := (hpub.entry h.toNat).symm.trans he
    by_cases hch : h = c.head
    · subst hch
      rw [if_pos rfl] at hentry
      cases hentry
      have hlt : ∀ i ∈ c.slots, i.toNat < (s.machine.view b).config.queueSize.toNat :=
        fun i hi => hb.sound.lt_of_fresh hc hi
      have hhead := hlt c.head (by simp [Chain.slots])
      have hdata := hlt c.data (by simp [Chain.slots])
      have hlast := hlt c.status (by simp [Chain.slots])
      have htaking := hb.sound.taking c
      have hoffer := (htaking.publish_eq c sub hhead hdata hlast).symm.trans hr
      obtain ⟨hkeeps, hstatus⟩ := Rings.keeps_of_offer hoffer c.head
      refine .inr ⟨_, ⟨st, hd, hb.entryAt_fresh hc⟩,
        ⟨st, c, sub, hd, rfl, hc, rfl, htaking.fillsFirst c sub hhead hdata hlast⟩,
        hkeeps.entry.symm.trans he, ?_, ⟨_, ready, hoffer⟩, htold⟩
      rw [← hstatus, hpub.statusByte, if_pos rfl]
      rfl
    · rw [if_neg fun hc' => hch (UInt16.toNat_inj.1 hc')] at hentry
      exact .inl ⟨st, rfl, hentry⟩
  | settle st k e' hk =>
    have hb := (hs.orderly.kept st hd).balanced
    have hentry := (hb.entryAt_settled (Rings.isHead_of_entryAt hk) h.toNat).symm.trans he
    split at hentry
    · cases hentry
    · exact .inl ⟨st, rfl, hentry⟩
  | tamper st used status => exact .inl ⟨st, rfl, he⟩

/-! ### From the publication on -/

/-- What is in flight has been published in the run, and its chain has stayed as it was since. -/
theorem exists_launch_of_run (fresh : m.Fresh b)
    (run : Run (adversarial b) { machine := m } trace s)
    (ready : (s.machine.bay b).drive.state = .ready st) (he : st.rings.entryAt h.toNat = some e) :
    ∃ before during after u u' filled, trace = before ++ during ++ after ∧
      Run (adversarial b) { machine := m } before u ∧ Step (adversarial b) u during u' ∧
      Launches b h e filled u u' ∧ Runs (Leaves b h) u' after s := by
  induction run generalizing st with
  | refl => cases fresh.uninitialized.symm.trans ready
  | @step trace l s s' run step ih =>
    have hs := inOrder_of_run fresh run
    -- either the last step has published it, or it was in flight already and the step left its chain
    rcases hs.entered_or_launches step ready he with ⟨st₁, ready₁, he₁⟩ | ⟨filled, hlaunch⟩
    · rcases hs.leaves_or_settles step ready₁ he₁ with hleaves | ⟨-, st₂, ready₂, hnone⟩
      · obtain ⟨before, during, after, u, u', filled, htrace, hbefore, hstep, hlaunch, hafter⟩ :=
          ih ready₁ he₁
        exact ⟨before, during, after ++ l, u, u', filled, by rw [htrace, List.append_assoc], hbefore,
          hstep, hlaunch, hafter.step hleaves⟩
      · cases ready.symm.trans ready₂
        cases he.symm.trans hnone
    · exact ⟨trace, l, [], s, s', filled, (List.append_nil _).symm, run, step, hlaunch, .refl⟩

private theorem keeps_of_leaves (run : Runs (Leaves b h) s trace s')
    (ready : (s.machine.bay b).drive.state = .ready st)
    (ready' : (s'.machine.bay b).drive.state = .ready st') : st.rings.Keeps st'.rings h := by
  induction run generalizing st' with
  | refl =>
    cases ready.symm.trans ready'
    exact .refl ..
  | step _ next ih =>
    obtain ⟨st₁, st₂, ready₁, ready₂, hkeeps, -⟩ := next.rings
    cases ready'.symm.trans ready₂
    exact (ih ready₁).trans hkeeps

/-- A controller has written the status byte of a chain that is otherwise as it was. -/
def Answered (b : BayId) (h : UInt16) (s s' : Scene) : Prop :=
  ∃ before after u u' st st', Runs (Leaves b h) s before u ∧ Tampers b u [] u' ∧
    (u.machine.bay b).drive.state = .ready st ∧ (u'.machine.bay b).drive.state = .ready st' ∧
    st'.rings.statusByte h ≠ st.rings.statusByte h ∧ Runs (Leaves b h) u' after s'

private theorem statusByte_of_leaves (run : Runs (Leaves b h) s trace s')
    (ready : (s.machine.bay b).drive.state = .ready st)
    (ready' : (s'.machine.bay b).drive.state = .ready st') :
    st'.rings.statusByte h = st.rings.statusByte h ∨ Answered b h s s' := by
  induction run generalizing st' with
  | refl =>
    cases ready.symm.trans ready'
    exact .inl rfl
  | @step before l u u' run next ih =>
    obtain ⟨st₁, st₂, ready₁, ready₂, -, hstatus⟩ := next.rings
    cases ready'.symm.trans ready₂
    by_cases hsame : st'.rings.statusByte h = st₁.rings.statusByte h
    · rw [hsame]
      rcases ih ready₁ with hst | ⟨before', after, x, y, stx, sty, hbefore, hd, hx, hy, hne, hafter⟩
      · exact .inl hst
      · exact .inr ⟨before', after ++ l, x, y, stx, sty, hbefore, hd, hx, hy, hne,
          hafter.step next⟩
    · exact .inr ⟨before, [], u, u', st₁, st', run, hstatus.resolve_left hsame, ready₁, ready', hsame,
        .refl⟩

/-- Each entry belongs to a task that waits for it, and its chain poses what the task has called for
last. -/
theorem exists_poses_of_run (fresh : m.Fresh b) (run : Run (adversarial b) { machine := m } trace s)
    (ready : (s.machine.bay b).drive.state = .ready st) (he : st.rings.entryAt h.toNat = some e) :
    ∃ t a q, (s.machine.view b).stage t = some (.complete e.request e.ticket) ∧ LastCall trace t a ∧
      s.machine.requests.find? e.request = some q ∧
      st.rings.Poses (s.machine.bay b).drive.config h a q.address := by
  have hs := inOrder_of_run fresh run
  obtain ⟨t, q, hstage, hq, -, hcarries⟩ := (hs.orderly.kept st ready).entered h e he
  obtain ⟨a, q', hcall, hq', hfor⟩ := (currentCall_of_run fresh run t).2.inside _ hstage
  cases hq.symm.trans hq'
  obtain ⟨q', hq', hlen, hlt⟩ := hs.orderly.live t _ hstage
  cases hq.symm.trans hq'
  obtain ⟨-, -, hpage⟩ := DriveConfig.block_of_isValid (isValid_of_run fresh run ready)
  exact ⟨t, a, q, hstage, hcall, hq, hcarries.poses hfor hlen (Nat.lt_of_le_of_lt hpage (by decide)) hlt⟩

/-- Published chains are well formed and stay so. In every scene of a run from a fresh drive, with
tasks that submit requests in any interleaving and a controller that writes what it likes into the used
ring, the status bytes and the buffers: each entry belongs to a task that waits for it, and its chain
poses what the task has called for last, with the buffer of the task's request. The request was
published in a step of the run. There the chain was complete when the head was offered, with 0xff for
the status byte, and the controller was notified after that. Every step since has left the chain as it
is, and the status byte is still 0xff unless the controller has written it. Nor can another step change
the chain than the one in which the handler takes the entry. -/
theorem posed_of_run (fresh : m.Fresh b) (run : Run (adversarial b) { machine := m } trace s)
    (ready : (s.machine.bay b).drive.state = .ready st) (he : st.rings.entryAt h.toNat = some e) :
    ∃ t next a q, (s.machine.task t).activity.program? = some (.complete b e.request e.ticket next) ∧
      LastCall trace t a ∧ s.machine.requests.find? e.request = some q ∧
      st.rings.Poses (s.machine.bay b).drive.config h a q.address ∧
      (∃ before during after u u' filled, trace = before ++ during ++ after ∧
        Run (adversarial b) { machine := m } before u ∧ Step (adversarial b) u during u' ∧
        Launches b h e filled u u' ∧
        filled.Poses (s.machine.bay b).drive.config h a q.address ∧
        Runs (Leaves b h) u' after s ∧
        (st.rings.statusByte h = 0xff ∨ Answered b h u' s)) ∧
      ∀ l s', Step (adversarial b) s l s' → Leaves b h s l s' ∨ s.handler = some .taking ∧
        ∃ st', (s'.machine.bay b).drive.state = .ready st' ∧ st'.rings.entryAt h.toNat = none := by
  have hs := inOrder_of_run fresh run
  obtain ⟨t, a, q, hstage, hcall, hq, hposes⟩ := exists_poses_of_run fresh run ready he
  obtain ⟨next, hprogram⟩ := hs.orderly.program_of_stage hstage
  refine ⟨t, next, a, q, hprogram, hcall, hq, hposes, ?_, fun l s' step =>
    hs.leaves_or_settles step ready he⟩
  obtain ⟨before, during, after, u, u', filled, htrace, hbefore, hstep, hlaunch, hafter⟩ :=
    exists_launch_of_run fresh run ready he
  obtain ⟨st', ready', hoffer⟩ := hlaunch.offered
  obtain ⟨hfilled, hstatus⟩ := Rings.keeps_of_offer hoffer h
  refine ⟨before, during, after, u, u', filled, htrace, hbefore, hstep, hlaunch, ?_, hafter, ?_⟩
  · exact hposes.keeps (hfilled.trans (keeps_of_leaves hafter ready' ready)).symm
  · rw [← hlaunch.unanswered, ← hstatus]
    exact statusByte_of_leaves hafter ready' ready

/-- With two requests in flight on the sample machine, the chain of each poses what its task has called for
last; and so does that of the first when the second has been completed before it. -/
theorem posed_of_run_sample :
    (∃ trace s st, Run (adversarial 0) { machine := .sample } trace s ∧
      (s.machine.bay 0).drive.state = .ready st ∧
      ∀ (h : UInt16) e, (h, e) ∈ [((0 : UInt16), (⟨0, 0⟩ : InFlight)), (3, ⟨1, 1⟩)] →
        st.rings.entryAt h.toNat = some e ∧ ∃ t a q, LastCall trace t a ∧
          s.machine.requests.find? e.request = some q ∧
          st.rings.Poses (s.machine.bay 0).drive.config h a q.address) ∧
    ∃ trace s st, Run (adversarial 0) { machine := .sample } trace s ∧
      (s.machine.bay 0).drive.state = .ready st ∧ st.rings.entryAt (UInt16.toNat 3) = none ∧
      st.rings.entryAt (UInt16.toNat 0) = some ⟨0, 0⟩ ∧ ∃ t a q, LastCall trace t a ∧
        s.machine.requests.find? 0 = some q ∧
        st.rings.Poses (s.machine.bay 0).drive.config 0 a q.address := by
  constructor
  · obtain ⟨trace, s, st, run, ready, -, -, first, second⟩ := exists_twoCalls
    refine ⟨trace, s, st, run, ready, fun h e hmem => ?_⟩
    have he : st.rings.entryAt h.toNat = some e := by
      simp only [List.mem_cons, Prod.mk.injEq, List.not_mem_nil, or_false] at hmem
      rcases hmem with ⟨rfl, rfl⟩ | ⟨rfl, rfl⟩
      · exact first
      · exact second
    obtain ⟨t, next, a, q, -, hcall, hq, hposes, -⟩ := posed_of_run Machine.fresh_sample run ready he
    exact ⟨he, t, a, q, hcall, hq, hposes⟩
  · obtain ⟨trace, s, st, run, ready, first, second, -⟩ := exists_overtaking
    obtain ⟨t, next, a, q, -, hcall, hq, hposes, -⟩ :=
      posed_of_run Machine.fresh_sample run ready (h := 0) first
    exact ⟨trace, s, st, run, ready, second, first, t, a, q, hcall, hq, hposes⟩

end Scene

end DiskStack
