import DiskStack.Proofs.InFlight

/-!
# Entries and their callers

An entry of the in-flight table belongs to a call that has published its request and not returned,
and a call that returns with success has had its entry taken and its chain freed by the handler
before. So the handler only ever marks requests of callers that are still there, and no descriptor
that is taken leads to the buffer of a caller that is gone.
-/

namespace DiskStack

def Program.answer (r : SubmitReply) : Program Reply := .done (.block r)

inductive Program.Submits (b : BayId) : Program Reply → Prop
  | submit (a : BlockAccess) : Submits b (.submit b a .answer)
  | publish (id : RequestId) (sector : Nat) : Submits b (.publish b id sector .answer)
  | complete (id : RequestId) (ticket : UInt64) : Submits b (.complete b id ticket .answer)
  | done (r : SubmitReply) : Submits b (.done (.block r))

namespace View

/-- Every task runs single submissions, and waits only inside of them. -/
structure Plain (b : BayId) (v : View) : Prop where
  submits : ∀ t p, (v.activity t).program? = some p → p.Submits b
  paused : ∀ t p, v.activity t = .parking p ∨ v.activity t = .asleep p →
    p.stage?.isSome = true

variable {b : BayId} {v v' : View} {t : TaskId}

theorem Plain.congr (hp : v.Plain b) (h : v'.activity = v.activity) : v'.Plain b :=
  ⟨by rw [h]; exact hp.submits, by rw [h]; exact hp.paused⟩

private theorem Plain.act (hp : v.Plain b) (t : TaskId) (a : Activity)
    (hsubmits : ∀ p, a.program? = some p → p.Submits b)
    (hpaused : ∀ p, a = .parking p ∨ a = .asleep p → p.stage?.isSome = true) :
    (v.act t a).Plain b := by
  constructor
  · intro u p hu
    simp only [View.act] at hu
    split at hu
    · exact hsubmits p hu
    · exact hp.submits u p hu
  · intro u p hu
    simp only [View.act] at hu
    split at hu
    · exact hpaused p hu
    · exact hp.paused u p hu

private theorem Plain.running (hp : v.Plain b) (t : TaskId) {p : Program Reply} (hs : p.Submits b) :
    (v.act t (.running p)).Plain b := by
  apply hp.act t _
  · intro x hx
    cases hx
    exact hs
  · intro x hx
    rcases hx with hx | hx <;> cases hx

private theorem Plain.waiting (hp : v.Plain b) (t : TaskId) {p : Program Reply} (hs : p.Submits b)
    (hstage : p.stage?.isSome = true) {a : Activity} (ha : a = .parking p ∨ a = .asleep p) :
    (v.act t a).Plain b := by
  apply hp.act t _
  · intro x hx
    rcases ha with rfl | rfl <;> cases hx <;> exact hs
  · intro x hx
    rcases ha with rfl | rfl <;> rcases hx with hx | hx <;> cases hx <;> exact hstage

private theorem Plain.publishes (hp : v.Plain b) (t : TaskId) {id : RequestId} {s : ReadyState}
    {q : BlockRequest} {sector : Nat} {a : Activity} {v₁ : View}
    (hpub : v.Publishes b s id q sector .answer a v₁) : (v₁.act t a).Plain b := by
  cases hpub with
  | wait => exact hp.waiting t (.publish _ _) rfl (.inl rfl)
  | publish => exact (hp.congr (by rfl)).waiting t (.complete _ _) rfl (.inl rfl)

private theorem Plain.does (hp : v.Plain b) {p : Program Reply} {a : Activity} {v₁ : View}
    (hs : p.Submits b) (does : v.Does b t p a v₁) : (v₁.act t a).Plain b := by
  cases hs with
  | submit acc =>
    cases does with
    | refuse => exact hp.running t (.done _)
    | submit _ _ _ _ _ _ _ hpub => exact Plain.publishes (v := v.enter acc) (hp.congr rfl) t hpub
  | publish id sector =>
    cases does with
    | publish _ _ _ _ _ _ _ _ _ hpub => exact hp.publishes t hpub
    | unready => exact hp.running t (.done _)
  | complete id ticket =>
    cases does with
    | wait => exact hp.waiting t (.complete id ticket) rfl (.inl rfl)
    | finish => exact (hp.congr (by rfl)).running t (.done _)
  | done r =>
    cases does
    exact hp.running t (.done r)

private theorem Plain.advances (hp : v.Plain b) (h : v.Advances b t v') : v'.Plain b := by
  cases h with
  | rest => exact hp
  | sleep p ha =>
    exact hp.waiting t (hp.submits t p (by rw [ha]; rfl)) (hp.paused t p (.inl ha)) (.inr rfl)
  | stayUp p ha => exact hp.running t (hp.submits t p (by rw [ha]; rfl))
  | run p a v₁ ha does => exact hp.does (hp.submits t p (by rw [ha]; rfl)) does

end View

namespace Scene

variable {γ : Type} {w : Setting γ} {start s s' : Scene} {t : TaskId} {l : List (Incident γ)}

/-- The handler has taken the entry of a call in progress and freed its chain. -/
def Released (w : Setting γ) (start : Scene) (t : TaskId) (id : RequestId) (ticket : UInt64)
    (s : Scene) : Prop :=
  ∃ (u u' : Scene) (trace trace' : List (Incident γ)) (st st' : ReadyState) (h : UInt16)
    (next : SubmitReply → Program Reply), Run w start trace u ∧ Step w u [] u' ∧
    Run w u' trace' s ∧ (∀ c, Incident.call t c ∉ trace') ∧ u.handler = some .taking ∧
    (u.machine.task t).activity.program? = some (.complete w.bay id ticket next) ∧
    (u.machine.bay w.bay).drive.state = .ready st ∧
    (u'.machine.bay w.bay).drive.state = .ready st' ∧
    st.rings.entryAt h.toNat = some ⟨id, ticket⟩ ∧ st'.rings.entryAt h.toNat = none ∧
    ∀ i ∈ (st.rings.chainAt h).slots,
      st.rings.queue.pool.IsTaken i.toNat ∧ st'.rings.queue.pool.isFree i = true

private theorem Released.mono {id : RequestId} {ticket : UInt64} (h : Released w start t id ticket s)
    (step : Step w s l s') (quiet : ∀ c, Incident.call t c ∉ l) :
    Released w start t id ticket s' := by
  obtain ⟨u, u', tr, tr', st, st', h, next, before, at', after, none, rest⟩ := h
  refine ⟨u, u', tr, tr' ++ l, st, st', h, next, before, at', after.step step, fun c hc => ?_, rest⟩
  rcases List.mem_append.1 hc with hc | hc
  · exact none c hc
  · exact quiet c hc

/-- What a run so far says of a task: a request that is no longer pending, and an answer of success,
come after the handler has released the chain. -/
structure Account (w : Setting γ) (start : Scene) (t : TaskId) (s : Scene) : Prop where
  finished : ∀ id ticket q, (s.machine.view w.bay).stage t = some (.complete id ticket) →
    (s.machine.view w.bay).requests.find? id = some q → q.pending = false →
    Released w start t id ticket s
  answered : ∀ r, (s.machine.view w.bay).activity t = .running (.done (.block r)) →
    r.result = .ok () → ∃ id ticket, Released w start t id ticket s

private theorem Account.same (ha : Account w start t s) (step : Step w s l s')
    (quiet : ∀ c, Incident.call t c ∉ l)
    (hact : (s'.machine.view w.bay).activity t = (s.machine.view w.bay).activity t)
    (hreq : ∀ id ticket q, (s.machine.view w.bay).stage t = some (.complete id ticket) →
      (s'.machine.view w.bay).requests.find? id = some q → q.pending = false →
      ∃ q', (s.machine.view w.bay).requests.find? id = some q' ∧ q'.pending = false) :
    Account w start t s' := by
  have hstage : (s'.machine.view w.bay).stage t = (s.machine.view w.bay).stage t := by
    rw [View.stage, View.stage, hact]
  constructor
  · intro id ticket q hs hq hp
    rw [hstage] at hs
    obtain ⟨q', hq', hp'⟩ := hreq id ticket q hs hq hp
    exact (ha.finished id ticket q' hs hq' hp').mono step quiet
  · intro r hr hok
    rw [hact] at hr
    obtain ⟨id, ticket, h⟩ := ha.answered r hr hok
    exact ⟨id, ticket, h.mono step quiet⟩

/-- A task that is inside of no published submission, and has no answer of success, has no account
to give. -/
private theorem Account.of_none (hstage : ∀ id ticket, (s.machine.view w.bay).stage t ≠ some (.complete id ticket))
    (hanswer : ∀ r, (s.machine.view w.bay).activity t = .running (.done (.block r)) →
      r.result ≠ .ok ()) : Account w start t s :=
  ⟨fun id ticket _ hs => absurd hs (hstage id ticket), fun r hr hok => absurd hok (hanswer r hr)⟩

/-- The release of a chain by the handler is what a task with a finished request goes back to. -/
private theorem Released.of_take (hs : s.InOrder w.bay) {trace : List (Incident γ)}
    (run : Run w start trace s) (step : Step w s [] s') (hh : s.handler = some .taking)
    {st : ReadyState} (hst : (s.machine.view w.bay).state = .ready st) {h : UInt16} {e : InFlight}
    (he : st.rings.entryAt h.toNat = some e)
    (hst' : (s'.machine.view w.bay).state = .ready { st with rings := st.rings.settled h })
    (hstage : (s.machine.view w.bay).stage t = some (.complete e.request e.ticket)) :
    Released w start t e.request e.ticket s' := by
  obtain ⟨next, hprogram⟩ := hs.orderly.program_of_stage hstage
  have hb := (hs.orderly.kept st hst).balanced
  have hhead := Rings.isHead_of_entryAt he
  refine ⟨s, s', trace, [], st, _, h, next, run, step, .refl, fun _ => List.not_mem_nil, hh,
    hprogram, hst, hst', he, ?_, fun i hi => ?_⟩
  · exact (hb.entryAt_settled hhead h.toNat).trans (if_pos rfl)
  · have htaken := (hb.linked h hhead).taken i hi
    refine ⟨htaken, ?_⟩
    -- a slot of the pool that is not taken is free
    have hnot : ¬(st.rings.settled h).queue.pool.IsTaken i.toNat := fun hc =>
      ((hb.isTaken_settled hhead i).1 hc).2 hi
    have hlt : i.toNat < (st.rings.settled h).queue.pool.size.toNat := by
      rw [(hb.sound_settled hhead).poolSize]
      exact hb.lt_of_mem hhead hi
    rw [DescriptorPool.isFree, Bool.and_eq_true, decide_eq_true_eq]
    refine ⟨UInt16.lt_iff_toNat_lt.2 hlt, ?_⟩
    cases hf : (st.rings.settled h).queue.pool.free.getLsbD i.toNat with
    | true => rfl
    | false => exact absurd ⟨hlt, hf⟩ hnot

/-- A task that acts has no account to give if it then neither waits for a completion nor has an
answer of success. -/
private theorem Account.leaves {v : View} {a : Activity} (hv : s'.machine.view w.bay = v.act t a)
    (hstage : ∀ id ticket, a.program?.bind Program.stage? ≠ some (.complete id ticket))
    (hanswer : ∀ r, a = .running (.done (.block r)) → r.result ≠ .ok ()) :
    Account w start t s' := by
  refine .of_none (fun id ticket => ?_) fun r hr => ?_
  · rw [hv, View.stage_act, if_pos rfl]
    exact hstage id ticket
  · rw [hv, View.act_self] at hr
    exact hanswer r hr

private theorem Account.stays (ha : Account w start t s) (step : Step w s l s')
    (quiet : ∀ c, Incident.call t c ∉ l) {v : View} {a : Activity}
    (hv : s'.machine.view w.bay = v.act t a)
    (hstage : (s.machine.view w.bay).stage t = a.program?.bind Program.stage?)
    (hrequests : v.requests = (s.machine.view w.bay).requests)
    (hanswer : ∀ r, a ≠ .running (.done (.block r))) : Account w start t s' := by
  constructor
  · intro id ticket q hs hq hdone
    rw [hv, View.stage_act, if_pos rfl] at hs
    rw [hv] at hq
    exact (ha.finished id ticket q (hstage.trans hs) (hrequests ▸ hq) hdone).mono step quiet
  · intro r hr
    rw [hv, View.act_self] at hr
    exact absurd hr (hanswer r)

private theorem Account.publishes {v v₁ : View} {st : ReadyState} {id : RequestId} {q : BlockRequest}
    {sector : Nat} {a : Activity} (hq : v.requests.find? id = some q)
    (hpub : v.Publishes w.bay st id q sector .answer a v₁)
    (hv : s'.machine.view w.bay = v₁.act t a) : Account w start t s' := by
  cases hpub with
  | wait => exact .leaves hv (fun _ _ h => by cases h) fun _ h => by cases h
  | publish c r =>
    -- the request that was just published is pending
    constructor
    · intro id' ticket q' hs hq' hdone
      rw [hv, View.stage_act, if_pos rfl] at hs
      cases hs
      rw [hv] at hq'
      have hfind : (v.requests.setPending id true).find? id = some q' := hq'
      rw [RequestTable.find?_setPending, if_pos rfl, hq] at hfind
      cases hfind
      cases hdone
    · intro r hr
      rw [hv, View.act_self] at hr
      cases hr

/-- The nodes of a single submission: a request is pending from its publication on, and only one that
is no longer pending is answered with success. -/
private theorem Account.does (hp : (s.machine.view w.bay).Plain w.bay) (ha : Account w start t s)
    (step : Step w s l s') (quiet : ∀ c, Incident.call t c ∉ l) {arena : Arena} {p : Program Reply}
    {a : Activity} {v₁ : View} (hrunning : (s.machine.view w.bay).activity t = .running p)
    (does : ({ s.machine.view w.bay with arena } : View).Does w.bay t p a v₁)
    (hv : s'.machine.view w.bay = v₁.act t a) : Account w start t s' := by
  have hprogram : ((s.machine.view w.bay).activity t).program? = some p := by
    rw [hrunning]
    rfl
  have hstage : (s.machine.view w.bay).stage t = p.stage? := by
    rw [View.stage, hprogram]
    rfl
  have hrefused : ∀ {e : BlockError} {data : Bytes} {r : SubmitReply},
      Activity.running (Program.answer ⟨⟨.error e, data⟩, false⟩) = .running (.done (.block r)) →
      r.result ≠ .ok () := fun h hok => by
    cases h
    cases hok
  cases hp.submits t p hprogram with
  | submit acc =>
    cases does with
    | refuse _ _ e => exact .leaves hv (fun _ _ h => by cases h) fun _ h => hrefused h
    | submit _ _ sector st _ _ _ hpub =>
      exact .publishes (v := View.enter { s.machine.view w.bay with arena } acc)
        (View.find?_enter_next acc) hpub hv
  | publish id sector =>
    cases does with
    | publish _ _ _ st q _ _ _ hq hpub => exact .publishes hq hpub hv
    | unready => exact .leaves hv (fun _ _ h => by cases h) fun _ h => hrefused h
  | complete id ticket =>
    cases does with
    | wait => exact ha.stays step quiet hv hstage rfl fun _ h => by cases h
    | finish _ _ _ q hq hdone =>
      constructor
      · intro id' ticket' q' hs
        rw [hv, View.stage_act, if_pos rfl] at hs
        cases hs
      · intro r _ _
        exact ⟨id, ticket, (ha.finished id ticket q hstage hq hdone).mono step quiet⟩
  | done r =>
    cases does
    constructor
    · intro id' ticket' q' hs
      rw [hv, View.stage_act, if_pos rfl] at hs
      cases hs
    · intro r' hr hok
      rw [hv, View.act_self] at hr
      cases hr
      obtain ⟨id, ticket, h⟩ := ha.answered r hrunning hok
      exact ⟨id, ticket, h.mono step quiet⟩

/-- A task that stops waiting inside of its submission, or starts to, keeps its account. -/
private theorem Account.wakes (hp : (s.machine.view w.bay).Plain w.bay) (ha : Account w start t s)
    (step : Step w s l s') (quiet : ∀ c, Incident.call t c ∉ l) {v : View} {p : Program Reply}
    {a : Activity}
    (hwaits : (s.machine.view w.bay).activity t = .parking p ∨
      (s.machine.view w.bay).activity t = .asleep p)
    (hgoes : a = .asleep p ∨ a = .running p) (hv : s'.machine.view w.bay = v.act t a)
    (hrequests : v.requests = (s.machine.view w.bay).requests) : Account w start t s' := by
  have hpaused := hp.paused t p hwaits
  refine ha.stays step quiet hv ?_ hrequests ?_
  · rw [View.stage]
    rcases hwaits with h | h <;> rcases hgoes with rfl | rfl <;> rw [h] <;> rfl
  · intro r hr
    rcases hgoes with rfl | rfl
    · cases hr
    · cases hr
      cases hpaused

private theorem Account.advances (hp : (s.machine.view w.bay).Plain w.bay) (ha : Account w start t s)
    (step : Step w s l s') (quiet : ∀ c, Incident.call t c ∉ l) {arena : Arena}
    (h : ({ s.machine.view w.bay with arena } : View).Advances w.bay t (s'.machine.view w.bay)) :
    Account w start t s' := by
  generalize hv : s'.machine.view w.bay = v' at h
  cases h with
  | rest =>
    refine ha.same step quiet (by rw [hv]) fun id ticket q _ hq hdone => ⟨q, ?_, hdone⟩
    rw [hv] at hq
    exact hq
  | sleep p hpark => exact ha.wakes hp step quiet (.inl hpark) (.inl rfl) hv rfl
  | stayUp p hpark => exact ha.wakes hp step quiet (.inl hpark) (.inr rfl) hv rfl
  | run p a v₁ hrunning does => exact ha.does hp step quiet hrunning does hv

/-- A turn in which no task acts, and no request ceases to be pending, keeps an account. -/
private theorem Account.still (ha : Account w start t s) (step : Step w s l s')
    (quiet : ∀ c, Incident.call t c ∉ l)
    (hact : (s'.machine.view w.bay).activity = (s.machine.view w.bay).activity)
    (hreq : (s.machine.view w.bay).requests.Rewritten (s'.machine.view w.bay).requests) :
    Account w start t s' :=
  ha.same step quiet (congrFun hact t) fun _ _ _ _ hq hdone => by
    obtain ⟨data, -, hq'⟩ := hreq.back hq
    exact ⟨_, hq', hdone⟩

/-- A task that starts or ends a call has no account to give, and the others keep theirs. -/
private theorem Account.turns (ha : Account w start t s) (step : Step w s l s') {u : TaskId} {a : Activity}
    (quiet : t ≠ u → ∀ c, Incident.call t c ∉ l)
    (hv : s'.machine.view w.bay = (s.machine.view w.bay).act u a)
    (hstage : a.program?.bind Program.stage? = none)
    (hanswer : ∀ r, a ≠ .running (.done (.block r))) : Account w start t s' := by
  by_cases htu : t = u
  · subst htu
    exact .leaves hv (fun _ _ h => by cases hstage.symm.trans h) fun r hr => absurd hr (hanswer r)
  · apply ha.same step (quiet htu) (by rw [hv, View.act_of_ne _ htu])
    intro id ticket q _ hq hdone
    rw [hv] at hq
    exact ⟨q, hq, hdone⟩

private theorem Account.rouse (hp : (s.machine.view w.bay).Plain w.bay) (ha : Account w start t s)
    (step : Step w s l s') (quiet : ∀ c, Incident.call t c ∉ l) {u : TaskId} {p : Program Reply}
    (hasleep : (s.machine.view w.bay).activity u = .asleep p)
    (hv : s'.machine.view w.bay = (s.machine.view w.bay).act u (.running p)) :
    Account w start t s' := by
  by_cases htu : t = u
  · subst htu
    exact ha.wakes hp step quiet (.inr hasleep) (.inr rfl) hv rfl
  · apply ha.same step quiet (by rw [hv, View.act_of_ne _ htu])
    intro id ticket q _ hq hdone
    rw [hv] at hq
    exact ⟨q, hq, hdone⟩

private theorem Account.handles (hs : s.InOrder w.bay) (ha : Account w start t s)
    {trace : List (Incident γ)} (run : Run w start trace s) (step : Step w s [] s')
    {point next : Run.CompletionPoint} (hh : s.handler = some point)
    (h : (s.machine.view w.bay).Handles point next (s'.machine.view w.bay)) :
    Account w start t s' := by
  have quiet : ∀ c : γ, Incident.call t c ∉ [] := fun _ => List.not_mem_nil
  generalize hv' : s'.machine.view w.bay = v' at h
  cases h with
  | take st head e q r hst hc hr =>
    have hk := hs.orderly.kept st hst
    obtain ⟨-, he, -, rfl⟩ := hk.take hc hr
    constructor
    · intro id ticket q' hstage hq' hdone
      rw [hv'] at hstage hq'
      have hstage' : (s.machine.view w.bay).stage t = some (.complete id ticket) := hstage
      have hfind : ((s.machine.view w.bay).requests.setPending e.request false).find? id = some q' :=
        hq'
      rw [RequestTable.find?_setPending] at hfind
      split at hfind
      · next hid =>
        -- the entry taken is the one of this task
        obtain ⟨u, q₀, hu, -⟩ := hk.entered head e he
        have htu := hs.orderly.own u t _ _ hu hstage' hid
        rw [htu, hstage'] at hu
        cases hu
        exact .of_take hs run step hh hst he (by rw [hv']) hstage'
      · exact (ha.finished id ticket q' hstage' hfind hdone).mono step quiet
    · intro r hr hok
      rw [hv'] at hr
      obtain ⟨id, ticket, h⟩ := ha.answered r hr hok
      exact ⟨id, ticket, h.mono step quiet⟩
  | _ =>
    exact ha.still step quiet (by rw [hv']) (by
      rw [hv']
      exact .refl _)

theorem plain_of_step (hs : s.InOrder w.bay) (hp : (s.machine.view w.bay).Plain w.bay)
    (hprogram : ∀ c, ∃ a, w.program c = .submit w.bay a .answer)
    (hdevice : ∀ heads, w.device s heads s' →
      (s'.machine.view w.bay).activity = (s.machine.view w.bay).activity)
    (step : Step w s l s') : (s'.machine.view w.bay).Plain w.bay := by
  obtain ⟨turn, -⟩ := step.turn hs
  cases turn with
  | call t c _ hv =>
    obtain ⟨a, hc⟩ := hprogram c
    rw [hv, hc]
    exact hp.running t (.submit a)
  | advance t arena _ hadv =>
    have hin : ({ s.machine.view w.bay with arena } : View).Plain w.bay := hp.congr rfl
    exact hin.advances hadv
  | rouse t p hasleep hv =>
    rw [hv]
    exact hp.running t (hp.submits t p (by rw [hasleep]; rfl))
  | reply t r _ hv =>
    rw [hv]
    apply hp.act t _ (fun x h => by cases h)
    intro x h
    rcases h with h | h <;> cases h
  | bringUp hstarts => exact hp.congr hstarts.still.1
  | enter hv | leave hv =>
    rw [hv]
    exact hp
  | handle point next hhandles =>
    apply hp.congr
    generalize s'.machine.view w.bay = v' at hhandles
    cases hhandles <;> rfl
  | device heads _ _ hd => exact hp.congr (hdevice heads hd)

variable {b : BayId} {m : Machine}

private theorem Account.step {s s' : Scene} {trace l : List (Incident BlockAccess)} (hs : s.InOrder b)
    (hp : (s.machine.view b).Plain b) (run : Run (adversarial b) start trace s)
    (ha : Account (adversarial b) start t s) (step : Step (adversarial b) s l s') :
    Account (adversarial b) start t s' := by
  obtain ⟨turn, -⟩ := step.turn hs
  cases turn with
  | call u c hidle hv =>
    exact ha.turns step (fun hne _ => call_not_mem_call hne) hv rfl (fun r hr => by cases hr)
  | advance u arena _ hadv =>
    by_cases htu : t = u
    · subst htu
      exact ha.advances hp step (fun _ => call_not_mem_scratch) hadv
    · have hin := hs.orderly.setArena arena
      apply ha.same step (fun _ => call_not_mem_scratch) (hadv.activity_of_ne htu)
      intro id ticket q hst hq hdone
      exact ⟨q, (hin.request_of_ne hadv htu hst).symm.trans hq, hdone⟩
  | rouse u p hasleep hv => exact ha.rouse hp step (fun _ => List.not_mem_nil) hasleep hv
  | reply u r hdone hv =>
    exact ha.turns step (fun _ _ => call_not_mem_reply) hv rfl (fun r hr => by cases hr)
  | bringUp hstarts =>
    obtain ⟨hact, hreq⟩ := hstarts.still
    exact ha.still step (fun _ => List.not_mem_nil) hact (hreq.symm ▸ .refl _)
  | enter hv | leave hv =>
    apply ha.still step (fun _ => List.not_mem_nil) (by rw [hv])
    rw [hv]
    exact .refl _
  | handle point next hhandles hh => exact ha.handles hs run step hh hhandles
  | device heads _ hl hd =>
    obtain ⟨hact, hreq⟩ := Tampers.still hs hd
    exact ha.still step (fun _ => call_not_mem_shown hl) hact hreq

theorem plain_of_fresh (fresh : m.Fresh b) : (m.view b).Plain b := by
  constructor
  · intro t p hp
    rw [show (m.view b).activity t = .idle from fresh.idle t] at hp
    cases hp
  · intro t p hp
    rw [show (m.view b).activity t = .idle from fresh.idle t] at hp
    rcases hp with hp | hp <;> cases hp

/-- The calls behind the entries. In every scene of a run from a fresh drive, with tasks that submit
requests in any interleaving and a controller that writes what it likes:
each entry belongs to a task that has published the request and waits for its completion, and the
chain of the entry leads to the buffer of that request; each descriptor that is taken is in the chain
of such an entry; what the handler takes off the used ring marks the request of such a task; and
whenever a task is answered with success, then since its call the handler has taken the entry of its
request and freed its three descriptors. -/
theorem ownership_of_run (fresh : m.Fresh b) {trace : List (Incident BlockAccess)} {s : Scene}
    (run : Run (adversarial b) { machine := m } trace s) :
    (∀ st (h : UInt16) e, (s.machine.bay b).drive.state = .ready st →
      st.rings.entryAt h.toNat = some e → ∃ t next q,
        (s.machine.task t).activity.program? = some (.complete b e.request e.ticket next) ∧
        s.machine.requests.find? e.request = some q ∧ q.pending = true ∧
        (st.rings.slot (st.rings.chainAt h).data.toNat).address = q.address ∧
        (st.rings.slot (st.rings.chainAt h).data.toNat).length = UInt32.ofNat q.length) ∧
    (∀ st (i : UInt16), (s.machine.bay b).drive.state = .ready st →
      st.rings.queue.pool.IsTaken i.toNat →
        ∃ h e, st.rings.entryAt h.toNat = some e ∧ i ∈ (st.rings.chainAt h).slots) ∧
    (∀ st head e r, (s.machine.bay b).drive.state = .ready st →
      st.rings.collect = (.ok (head, e), r) → ∃ t next q,
        (s.machine.task t).activity.program? = some (.complete b e.request e.ticket next) ∧
        s.machine.requests.find? e.request = some q ∧ q.pending = true) ∧
    ∀ t r s', Step (adversarial b) s [.reply t (.block r)] s' → r.result = .ok () →
      ∃ id ticket, Released (adversarial b) { machine := m } t id ticket s := by
  have hkept : s.InOrder b ∧ (s.machine.view b).Plain b ∧
      ∀ t, Account (adversarial b) { machine := m } t s := by
    induction run with
    | refl =>
      refine ⟨inOrder_of_fresh fresh, plain_of_fresh fresh, fun t => ?_⟩
      have hidle : (m.view b).activity t = .idle := fresh.idle t
      refine .of_none (fun id ticket h => ?_) (fun r h => ?_)
      · change (m.view b).stage t = _ at h
        rw [View.stage, hidle] at h
        cases h
      · change (m.view b).activity t = _ at h
        rw [hidle] at h
        cases h
    | step run step ih =>
      obtain ⟨hs, hp, ha⟩ := ih
      exact ⟨hs.step (fun a => .submit a _ fun _ => .done _) (fun _ hd => hs.tampers hd) step,
        plain_of_step hs hp (fun a => ⟨a, rfl⟩) (fun _ hd => (Tampers.still hs hd).1) step,
        fun t => (ha t).step hs hp run step⟩
  obtain ⟨hs, hp, ha⟩ := hkept
  have hentry : ∀ st (h : UInt16) e, (s.machine.bay b).drive.state = .ready st →
      st.rings.entryAt h.toNat = some e → ∃ t next q,
        (s.machine.task t).activity.program? = some (.complete b e.request e.ticket next) ∧
        s.machine.requests.find? e.request = some q ∧ q.pending = true ∧
        st.rings.Carries (st.rings.chainAt h) ((s.machine.view b).submissionOf e q) := by
    intro st h e hst he
    obtain ⟨t, q, hstage, hq, hpending, hc⟩ := (hs.orderly.kept st hst).entered h e he
    obtain ⟨next, hprogram⟩ := hs.orderly.program_of_stage hstage
    exact ⟨t, next, q, hprogram, hq, hpending, hc⟩
  refine ⟨?_, ?_, ?_, ?_⟩
  · intro st h e hst he
    obtain ⟨t, next, q, hprogram, hq, hpending, hc⟩ := hentry st h e hst he
    exact ⟨t, next, q, hprogram, hq, hpending, by rw [hc.data]; rfl, by rw [hc.data]; rfl⟩
  · intro st i hst hi
    obtain ⟨h, hh, hih⟩ := (hs.orderly.kept st hst).balanced.covered i hi
    obtain ⟨e, he⟩ := Option.isSome_iff_exists.1 hh
    exact ⟨h, e, he, hih⟩
  · intro st head e r hst hc
    obtain ⟨-, he, -⟩ := (hs.orderly.kept st hst).balanced.sound.collect_iff.1 hc
    obtain ⟨t, next, q, hprogram, hq, hpending, -⟩ := hentry st head e hst he
    exact ⟨t, next, q, hprogram, hq, hpending⟩
  · intro t r s' step hok
    exact (ha t).answered r step.activity_of_reply hok

/-- When the second of two requests on the sample machine has been completed first, its task is answered that
it succeeded, and the handler has taken its entry before; the entry of the first still belongs to
a task that waits for it. -/
theorem ownership_of_run_sample :
    ∃ trace s st, Run (adversarial 0) { machine := .sample } trace s ∧
      (s.machine.bay 0).drive.state = .ready st ∧ st.rings.entryAt (UInt16.toNat 0) = some ⟨0, 0⟩ ∧
      (∃ t next q, (s.machine.task t).activity.program? = some (.complete 0 0 0 next) ∧
        s.machine.requests.find? 0 = some q ∧ q.pending = true) ∧
      ∃ r s', Step (adversarial 0) s [.reply 2 (.block r)] s' ∧ r.result = .ok () ∧
        ∃ id ticket, Released (adversarial 0) { machine := .sample } 2 id ticket s := by
  obtain ⟨trace, s, st, run, ready, first, -, -, succeeds⟩ := exists_overtaking
  obtain ⟨hentries, -, -, hanswered⟩ := ownership_of_run Machine.fresh_sample run
  obtain ⟨t, next, q, hprogram, hq, hpending, -⟩ := hentries st 0 ⟨0, 0⟩ ready first
  obtain ⟨r, hdone, hok⟩ := Activity.reply_of_succeeds succeeds
  have hstep : Step (adversarial 0) s _ _ := .reply 2 _ hdone
  exact ⟨trace, s, st, run, ready, first, ⟨t, next, q, hprogram, hq, hpending⟩, r, _, hstep, hok,
    hanswered 2 r _ hstep hok⟩

end Scene

end DiskStack
