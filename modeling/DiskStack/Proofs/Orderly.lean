import DiskStack.Proofs.SubmissionMoves

/-!
# Orderly steps

Every step of a task and of the handler keeps a view orderly. A task halts an orderly machine only
where its program says so, and leaves the requests of the others alone.
-/

namespace DiskStack

namespace View

variable {b : BayId} {v v' : View} {t u : TaskId}

/-! ### Accepted submissions -/

theorem firstSector_ok {c : DriveConfig} {block length sector : Nat}
    (h : c.firstSector block length = .ok sector) :
    length = c.blockSize ∧ sector = block * c.sectorsPerBlock ∧
      block * c.sectorsPerBlock < wordLimit := by
  rw [DriveConfig.firstSector] at h
  split at h
  · cases h
  · next hlen =>
    split at h
    · next hlt =>
      cases h
      exact ⟨Decidable.not_not.1 hlen, rfl, hlt⟩
    · cases h

theorem checkSectors_ok {state : DriveState} {sector count : Nat} {s : ReadyState}
    (h : state.checkSectors sector count = .ok s) : state = .ready s := by
  cases state with
  | ready r =>
    rw [DriveState.checkSectors] at h
    split at h
    · cases h
    · cases h
      rfl
  | uninitialized | incompatible => cases h

theorem checks_of_accepts {a : BlockAccess} {sector : Nat} {s : ReadyState}
    (h : v.accepts a = .ok (sector, s)) :
    v.config.firstSector a.block a.data.length = .ok sector ∧
      v.state.checkSectors sector v.config.sectorsPerBlock = .ok s := by
  obtain ⟨x, hfirst, h⟩ := Checked.exists_of_bind h
  obtain ⟨s', hcheck, h⟩ := Checked.exists_of_bind h
  cases h
  exact ⟨hfirst, hcheck⟩

theorem fails_of_refuses {a : BlockAccess} {e : BlockError} (h : v.accepts a = .error e) :
    v.config.firstSector a.block a.data.length = .error e ∨
      ∃ sector, v.config.firstSector a.block a.data.length = .ok sector ∧
        v.state.checkSectors sector v.config.sectorsPerBlock = .error e := by
  rw [accepts] at h
  cases hfirst : v.config.firstSector a.block a.data.length with
  | error e' =>
    rw [hfirst] at h
    cases h
    exact .inl rfl
  | ok sector =>
    rw [hfirst] at h
    change (v.state.checkSectors sector v.config.sectorsPerBlock >>= fun _ => _) = _ at h
    cases hcheck : v.state.checkSectors sector v.config.sectorsPerBlock with
    | error e' =>
      rw [hcheck] at h
      cases h
      exact .inr ⟨sector, rfl, hcheck⟩
    | ok s =>
      rw [hcheck] at h
      cases h

theorem ready_of_accepts {a : BlockAccess} {sector : Nat} {s : ReadyState}
    (h : v.accepts a = .ok (sector, s)) :
    v.state = .ready s ∧ a.data.length = v.config.blockSize ∧
      sector = a.block * v.config.sectorsPerBlock ∧
      a.block * v.config.sectorsPerBlock < wordLimit := by
  obtain ⟨hfirst, hcheck⟩ := checks_of_accepts h
  exact ⟨checkSectors_ok hcheck, firstSector_ok hfirst⟩

/-! ### The steps of a run -/

/-- A submission that is accepted is first entered and then published, without a stop in between if there
is room. -/
private theorem Orderly.submit (ho : v.Orderly b) {a : BlockAccess} {next : SubmitReply → Program Reply}
    (hprogram : (v.activity t).program? = some (.submit b a next)) (hnext : ∀ r, (next r).Asks b)
    {sector : Nat} {s : ReadyState} (haccept : v.accepts a = .ok (sector, s)) {activity : Activity}
    {v₁ : View}
    (hpub : (v.enter a).Publishes b s v.nextRequest
      (.fresh a.block a.write a.data (v.arena.reserve a.data.length).1) sector next activity v₁) :
    (v₁.act t activity).Orderly b := by
  obtain ⟨hs, hlen, rfl, hlt⟩ := ready_of_accepts haccept
  have hin := ho.enter hs (stage_eq hprogram) hlen hlt hnext
  cases hpub with
  | wait => exact hin
  | publish c r hc hcount hr =>
    have hst : (admitted b v t a next).stage t =
        some (.publish v.nextRequest (a.block * v.config.sectorsPerBlock)) :=
      (stage_admitted t).trans (if_pos rfl)
    have hdone := hin.launch hs hst (find?_enter_next a) hc hcount hr hnext
    rw [admitted, launched_act] at hdone
    exact hdone

private theorem Orderly.does (ho : v.Orderly b) {p : Program Reply} {a : Activity} {v₁ : View}
    (hprogram : (v.activity t).program? = some p) (does : v.Does b t p a v₁) :
    (v₁.act t a).Orderly b := by
  have hunder := ho.underway t p hprogram
  have hstage : v.stage t = p.stage? := stage_eq hprogram
  have hasks : ∀ {p' : Program Reply} (scratch : SleepLock Bytes), p.stage? = none → p'.Asks b →
      ({ v with scratch }.act t (.running p')).Orderly b := fun scratch hnone hp' =>
    (ho.setScratch scratch).goOn hprogram rfl (.asks _ hp') (hp'.stage?.trans hnone.symm)
  cases does with
  | done r => exact ho.goOn hprogram rfl hunder rfl
  | inspect next => exact hasks v.scratch rfl (hunder.of_inspect _)
  | refuse acc next e hrefuse => exact hasks v.scratch rfl (hunder.of_submit _)
  | submit acc next sector s activity v₂ haccept hpub =>
    exact ho.submit hprogram hunder.of_submit haccept hpub
  | publish id sector next s q activity v₂ hs hq hpub =>
    cases hpub with
    | wait => exact ho.goOn hprogram rfl hunder rfl
    | publish c r hc hcount hr => exact ho.launch hs hstage hq hc hcount hr hunder.of_publish
  | unready id sector next hidle => cases (ho.idle hidle t).symm.trans hstage
  | wait id ticket next _ => exact ho.goOn hprogram rfl hunder rfl
  | finish id ticket next q hq hdone => exact ho.finish hstage hq hdone (hunder.of_complete _)
  | takeScratch next _ => exact hasks _ rfl (hunder.of_takeScratch _)
  | awaitScratch next _ => exact ho.goOn hprogram rfl hunder rfl
  | giveScratch value next => exact hasks _ rfl hunder.of_giveScratch

theorem Orderly.advances (ho : v.Orderly b) (h : v.Advances b t v') : v'.Orderly b := by
  cases h with
  | rest => exact ho
  | sleep p hp | stayUp p hp =>
    have hprogram : (v.activity t).program? = some p := by rw [hp]; rfl
    exact ho.goOn hprogram rfl (ho.underway t p hprogram) rfl
  | run p a v₁ hp does => exact ho.does (by rw [hp]; rfl) does

theorem Advances.activity_of_ne (h : v.Advances b t v') (hne : u ≠ t) :
    v'.activity u = v.activity u := by
  cases h with
  | rest => rfl
  | sleep => exact act_of_ne _ hne
  | stayUp => exact act_of_ne _ hne
  | run p a v₁ _ does => rw [act_of_ne _ hne, does.activity_eq]

theorem Orderly.request_of_ne (ho : v.Orderly b) (h : v.Advances b t v') (hne : u ≠ t) {g : Stage}
    (hg : v.stage u = some g) :
    v'.requests.find? g.request = v.requests.find? g.request := by
  have hother : ∀ g', v.stage t = some g' → g'.request ≠ g.request := fun g' hg' he =>
    hne (ho.own u t g g' hg hg' he.symm)
  have hpublish : ∀ {v₁ v₂ : View} {s : ReadyState} {id : RequestId} {q : BlockRequest}
      {sector : Nat} {next : SubmitReply → Program Reply} {a : Activity}, id ≠ g.request →
      v₁.Publishes b s id q sector next a v₂ →
      v₂.requests.find? g.request = v₁.requests.find? g.request := fun hid hpub => by
    cases hpub with
    | wait => rfl
    | publish => exact (RequestTable.find?_setPending true).trans (if_neg hid)
  cases h with
  | rest => rfl
  | sleep => rfl
  | stayUp => rfl
  | run p a v₁ hp does =>
    have hstage : v.stage t = p.stage? := by rw [stage, hp]; rfl
    change v₁.requests.find? g.request = _
    cases does with
    | submit acc next sector s _ _ haccept hpub =>
      rw [hpublish (ho.ne_next hg) hpub, find?_enter, if_neg (ho.ne_next hg)]
    | publish id sector next s q _ _ hs hq hpub => exact hpublish (hother _ hstage) hpub
    | finish id ticket next q hq hdone =>
      exact (RequestTable.find?_erase ..).trans (if_neg (hother _ hstage))
    | _ => rfl

/-- A task inside of a published submission is at the node that awaits its completion. -/
theorem Orderly.program_of_stage (ho : v.Orderly b) {id : RequestId} {ticket : UInt64}
    (h : v.stage t = some (.complete id ticket)) :
    ∃ next, (v.activity t).program? = some (.complete b id ticket next) := by
  rw [stage, Option.bind_eq_some_iff] at h
  obtain ⟨p, hp, hs⟩ := h
  have hunder := ho.underway t p hp
  cases hunder with
  | asks _ hasks =>
    rw [hasks.stage?] at hs
    cases hs
  | publish => cases hs
  | complete id' ticket' next _ =>
    cases hs
    exact ⟨next, hp⟩

theorem Orderly.halts (ho : v.Orderly b) {p : Program Reply} (h : v.Halts b p) :
    ∃ e, p = .halt e := by
  cases h with
  | halt e => exact ⟨e, rfl⟩
  | submit _ _ s _ c sub e ha hc hp =>
    obtain ⟨hs, -⟩ := ready_of_accepts ha
    have hk := ho.kept s hs
    obtain ⟨q, hq, -⟩ := hk.balanced.sound.exists_published hc sub
    rw [hp] at hq
    cases hq
  | publish _ _ _ s c sub e hs hc hp =>
    have hk := ho.kept s hs
    obtain ⟨q, hq, -⟩ := hk.balanced.sound.exists_published hc sub
    rw [hp] at hq
    cases hq

theorem Orderly.running (ho : v.Orderly b) {p : Program Reply} (h : v.activity t = .running p) :
    p.Underway b ∧ v.Live p := by
  have hprogram : (v.activity t).program? = some p := by rw [h]; rfl
  have hstage : v.stage t = p.stage? := by rw [stage, hprogram]; rfl
  have hunder := ho.underway t p hprogram
  refine ⟨hunder, ?_⟩
  cases hunder with
  | asks _ hasks => cases hasks <;> trivial
  | publish id sector _ _ | complete id ticket _ _ =>
    obtain ⟨q, hq, -⟩ := ho.live t _ hstage
    exact ⟨q, hq⟩

/-- What the handler takes is the entry of a reported head, and afterwards the rings are settled. -/
theorem Kept.take {s : ReadyState} (hk : v.Kept s) {h : UInt16} {e : InFlight} {q r : Rings}
    (hc : s.rings.collect = (.ok (h, e), q)) (hr : q.release h = .ok r) :
    (s.rings.queue.used.report s.rings.queue.used.lastSeen).id.toNat = h.toNat ∧
      s.rings.entryAt h.toNat = some e ∧ s.rings.statusByte h = RequestStatus.ok ∧
      r = s.rings.settled h := by
  obtain ⟨hid, he, hok, rfl⟩ := hk.balanced.sound.collect_iff.1 hc
  rw [hk.balanced.release (Rings.isHead_of_entryAt he)] at hr
  cases hr
  exact ⟨hid, he, hok, rfl⟩

theorem Orderly.handles (ho : v.Orderly b) {point next : Run.CompletionPoint}
    (h : v.Handles point next v') : v'.Orderly b := by
  cases h with
  | take s head e q r hs hc hr =>
    obtain ⟨-, he, -, rfl⟩ := (ho.kept s hs).take hc hr
    exact ho.complete hs he
  | _ => exact ho.congr ho.underway (fun _ => rfl) rfl rfl rfl rfl

end View

end DiskStack
