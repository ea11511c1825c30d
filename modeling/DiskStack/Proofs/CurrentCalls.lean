import DiskStack.Proofs.Ownership

/-!
# Requests and the calls they are for

While tasks submit one request a call, a task that is about to submit, waits for descriptors or for its
completion is at the last call that it has made: its request asks for the block and the direction of
that call, and has a buffer of that length. Only the bytes in the buffer may change in the meantime.
-/

namespace DiskStack

/-- A request for what an access asks. The bytes in its buffer may have changed since. -/
structure BlockRequest.IsFor (q : BlockRequest) (a : BlockAccess) : Prop where
  block : q.block = a.block
  write : q.write = a.write
  length : q.length = a.data.length

private theorem RequestTable.exists_setPending {t : RequestTable} {id other : RequestId} {q : BlockRequest}
    (hq : t.find? other = some q) (p : Bool) :
    ∃ q', (t.setPending id p).find? other = some q' ∧ ∀ a, q.IsFor a → q'.IsFor a := by
  rw [find?_setPending, hq]
  split
  · exact ⟨{ q with pending := p }, rfl, fun _ h => ⟨h.block, h.write, h.length⟩⟩
  · exact ⟨q, rfl, fun _ h => h⟩

namespace Scene

variable {b : BayId} {m : Machine} {s s' : Scene} {t : TaskId} {l trace : List (Incident BlockAccess)}
  {v v' : View}

/-- The last call of a task. -/
def LastCall (trace : List (Incident BlockAccess)) (t : TaskId) (a : BlockAccess) : Prop :=
  ∃ before after, trace = before ++ .call t a :: after ∧ ∀ c, .call t c ∉ after

theorem LastCall.append {a : BlockAccess} (hc : LastCall trace t a) (quiet : ∀ c, .call t c ∉ l) :
    LastCall (trace ++ l) t a := by
  obtain ⟨before, after, rfl, hnone⟩ := hc
  refine ⟨before, after ++ l, by rw [List.append_assoc, List.cons_append], fun c hc => ?_⟩
  exact (List.mem_append.1 hc).elim (hnone c) (quiet c)

/-- What a task is at, it has called for last. -/
structure CurrentCall (b : BayId) (trace : List (Incident BlockAccess)) (v : View) (t : TaskId) : Prop where
  asked : ∀ a next, (v.activity t).program? = some (.submit b a next) → LastCall trace t a
  inside : ∀ g, v.stage t = some g → ∃ a q, LastCall trace t a ∧
    v.requests.find? g.request = some q ∧ q.IsFor a

private theorem CurrentCall.same (he : CurrentCall b trace v t) (quiet : ∀ c, .call t c ∉ l)
    (hprogram : (v'.activity t).program? = (v.activity t).program?)
    (hreq : ∀ g q, v.stage t = some g → v.requests.find? g.request = some q →
      ∃ q', v'.requests.find? g.request = some q' ∧ ∀ a, q.IsFor a → q'.IsFor a) :
    CurrentCall b (trace ++ l) v' t := by
  have hstage : v'.stage t = v.stage t := by rw [View.stage, View.stage, hprogram]
  constructor
  · intro a next hp
    exact (he.asked a next (hprogram.symm.trans hp)).append quiet
  · intro g hg
    obtain ⟨a, q, hcall, hq, hfor⟩ := he.inside g (hstage.symm.trans hg)
    obtain ⟨q', hq', hfor'⟩ := hreq g q (hstage.symm.trans hg) hq
    exact ⟨a, q', hcall.append quiet, hq', hfor' a hfor⟩

private theorem CurrentCall.of_done (hdone : ∀ p, (v.activity t).program? = some p → ∃ r, p = .done r) :
    CurrentCall b trace v t := by
  constructor
  · intro a next hp
    obtain ⟨r, hr⟩ := hdone _ hp
    cases hr
  · intro g hg
    rw [View.stage, Option.bind_eq_some_iff] at hg
    obtain ⟨p, hp, hs⟩ := hg
    obtain ⟨r, rfl⟩ := hdone p hp
    cases hs

private theorem CurrentCall.of_stage {a : BlockAccess} (hcall : LastCall trace t a) {p : Program Reply}
    {g : Stage}
    (hprogram : (v.activity t).program? = some p) (hstage : p.stage? = some g) {q : BlockRequest}
    (hq : v.requests.find? g.request = some q) (hfor : q.IsFor a) : CurrentCall b trace v t := by
  constructor
  · intro a' next hp
    cases hprogram.symm.trans hp
    cases hstage
  · intro g' hg
    rw [View.stage, hprogram] at hg
    cases hstage.symm.trans hg
    exact ⟨a, q, hcall, hq, hfor⟩

private theorem CurrentCall.keep (he : CurrentCall b trace v t) {p : Program Reply} {a : Activity}
    (hprogram : (v.activity t).program? = some p) (ha : a.program? = some p) :
    CurrentCall b trace (v.act t a) t := by
  have hkept : ((v.act t a).activity t).program? = (v.activity t).program? := by
    rw [View.act_self, ha, hprogram]
  have hsame := he.same (l := []) (fun _ => List.not_mem_nil) hkept
    fun g q _ hq => ⟨q, hq, fun _ h => h⟩
  rwa [List.append_nil] at hsame

/-- A task that has tried to publish a request is inside of the submission of that request. -/
private theorem CurrentCall.of_publishes {a : BlockAccess} (hcall : LastCall trace t a) {st : ReadyState}
    {id : RequestId} {q : BlockRequest} {sector : Nat} {activity : Activity}
    (hq : v.requests.find? id = some q) (hfor : q.IsFor a)
    (hpub : v.Publishes b st id q sector .answer activity v') :
    CurrentCall b trace (v'.act t activity) t := by
  cases hpub with
  | wait => exact .of_stage (p := .publish b _ _ _) hcall (by rw [View.act_self]; rfl) rfl hq hfor
  | publish c r =>
    obtain ⟨q', hq', hfor'⟩ := RequestTable.exists_setPending hq true
    exact .of_stage (p := .complete b _ _ _) hcall (by rw [View.act_self]; rfl) rfl hq'
      (hfor' _ hfor)

private theorem CurrentCall.does (hp : v.Plain b) (he : CurrentCall b trace v t) {p : Program Reply}
    {a : Activity}
    (hprogram : (v.activity t).program? = some p) (does : v.Does b t p a v') :
    CurrentCall b trace (v'.act t a) t := by
  have hdone : ∀ {u : View} {r : Reply}, CurrentCall b trace (u.act t (.running (.done r))) t :=
    .of_done fun p hp => by
      rw [View.act_self] at hp
      cases hp
      exact ⟨_, rfl⟩
  cases hp.submits t p hprogram with
  | submit acc =>
    have hcall := he.asked acc _ hprogram
    cases does with
    | refuse => exact hdone
    | submit _ _ _ _ _ _ _ hpub =>
      exact .of_publishes (v := v.enter acc) hcall (View.find?_enter_next acc) ⟨rfl, rfl, rfl⟩ hpub
  | publish id sector =>
    cases does with
    | publish _ _ _ _ q _ _ _ hq hpub =>
      obtain ⟨acc, q', hcall, hq', hfor⟩ := he.inside _ (View.stage_eq hprogram)
      cases hq.symm.trans hq'
      exact .of_publishes hcall hq hfor hpub
    | unready => exact hdone
  | complete id ticket =>
    cases does with
    | wait => exact he.keep hprogram rfl
    | finish => exact hdone
  | done r =>
    cases does
    exact hdone

private theorem CurrentCall.advances (hp : v.Plain b) (he : CurrentCall b trace v t)
    (h : v.Advances b t v') :
    CurrentCall b trace v' t := by
  cases h with
  | rest => exact he
  | sleep p ha | stayUp p ha => exact he.keep (by rw [ha]; rfl) rfl
  | run p a v₁ ha does => exact he.does hp (by rw [ha]; rfl) does

private theorem CurrentCall.still (he : CurrentCall b trace v t) (quiet : ∀ c, .call t c ∉ l)
    (hprogram : (v'.activity t).program? = (v.activity t).program?)
    (hrequests : v'.requests = v.requests) : CurrentCall b (trace ++ l) v' t :=
  he.same quiet hprogram fun g q _ hq => ⟨q, by rw [hrequests]; exact hq, fun _ h => h⟩

private theorem CurrentCall.act_of_ne (he : CurrentCall b trace v t) (quiet : ∀ c, .call t c ∉ l)
    {u : TaskId}
    (hne : t ≠ u) (a : Activity) : CurrentCall b (trace ++ l) (v.act u a) t :=
  he.still quiet (by rw [View.act_of_ne _ hne]) rfl

private theorem CurrentCall.called (v : View) (t : TaskId) (a : BlockAccess) :
    CurrentCall b (trace ++ [.call t a]) (v.act t (.running (.submit b a .answer))) t := by
  refine ⟨fun a' next hp => ?_, fun g hg => ?_⟩
  · rw [View.act_self] at hp
    cases hp
    exact ⟨trace, [], rfl, fun _ => List.not_mem_nil⟩
  · rw [View.stage_act, if_pos rfl] at hg
    cases hg

private theorem CurrentCall.step (hs : s.InOrder b) (hp : (s.machine.view b).Plain b)
    (he : CurrentCall b trace (s.machine.view b) t) (step : Step (adversarial b) s l s') :
    CurrentCall b (trace ++ l) (s'.machine.view b) t := by
  obtain ⟨turn, -⟩ := step.turn hs
  cases turn with
  | call u c hidle hv =>
    have hview : s'.machine.view b =
      (s.machine.view b).act u (.running (.submit b c .answer)) := hv
    rw [hview]
    by_cases htu : t = u
    · subst htu
      exact .called _ t c
    · exact he.act_of_ne (fun _ => call_not_mem_call htu) htu _
  | advance u arena _ hadv =>
    have hadv : ({ s.machine.view b with arena } : View).Advances b u (s'.machine.view b) := hadv
    have hin : CurrentCall b trace { s.machine.view b with arena } t := ⟨he.asked, he.inside⟩
    by_cases htu : t = u
    · subst htu
      have hplain : ({ s.machine.view b with arena } : View).Plain b := hp.congr rfl
      exact (hin.advances hplain hadv).still (fun _ => call_not_mem_scratch) rfl rfl
    · refine hin.same (fun _ => call_not_mem_scratch) (by rw [hadv.activity_of_ne htu])
        fun g q hg hq => ⟨q, ?_, fun _ h => h⟩
      exact ((hs.orderly.setArena arena).request_of_ne hadv htu hg).trans hq
  | rouse u p hasleep hv =>
    have hview : s'.machine.view b = (s.machine.view b).act u (.running p) := hv
    rw [hview]
    by_cases htu : t = u
    · subst htu
      refine he.still (fun _ => List.not_mem_nil) ?_ rfl
      rw [View.act_self, show (s.machine.view b).activity t = .asleep p from hasleep]
      rfl
    · exact he.act_of_ne (fun _ => List.not_mem_nil) htu _
  | reply u r hdone hv =>
    have hview : s'.machine.view b = (s.machine.view b).act u .idle := hv
    rw [hview]
    by_cases htu : t = u
    · subst htu
      exact .of_done fun p hp => by
        rw [View.act_self] at hp
        cases hp
    · exact he.act_of_ne (fun _ => call_not_mem_reply) htu _
  | bringUp hstarts =>
    have hstarts : (s.machine.view b).Starts (s'.machine.view b) := hstarts
    exact he.still (fun _ => List.not_mem_nil) (by rw [hstarts.still.1]) hstarts.still.2
  | enter hv | leave hv =>
    have hview : s'.machine.view b = s.machine.view b := hv
    exact he.still (fun _ => List.not_mem_nil) (by rw [hview]) (by rw [hview])
  | handle point next hhandles =>
    have hhandles : (s.machine.view b).Handles point next (s'.machine.view b) := hhandles
    generalize s'.machine.view b = v' at hhandles
    cases hhandles with
    | take st head e q r =>
      refine he.same (fun _ => List.not_mem_nil) rfl fun g q _ hq => ?_
      exact RequestTable.exists_setPending hq false
    | _ => exact he.still (fun _ => List.not_mem_nil) rfl rfl
  | device heads _ hl hd =>
    obtain ⟨hactivity, hrequests⟩ := Tampers.still hs hd
    refine he.same (fun _ => call_not_mem_shown hl) (by rw [hactivity]) fun g q _ hq => ?_
    obtain ⟨data, hdata, hq'⟩ := hrequests.find _ q hq
    exact ⟨_, hq', fun a hfor => ⟨hfor.block, hfor.write, hdata.trans hfor.length⟩⟩

theorem currentCall_of_run (fresh : m.Fresh b) (run : Run (adversarial b) { machine := m } trace s)
    (t : TaskId) : (s.machine.view b).Plain b ∧ CurrentCall b trace (s.machine.view b) t := by
  induction run with
  | refl =>
    refine ⟨plain_of_fresh fresh, .of_done fun p hp => ?_⟩
    rw [show (m.view b).activity t = .idle from fresh.idle t] at hp
    cases hp
  | step run step ih =>
    have hs := inOrder_of_run fresh run
    exact ⟨plain_of_step hs ih.1 (fun a => ⟨a, rfl⟩) (fun _ hd => (Tampers.still hs hd).1) step,
      ih.2.step hs ih.1 step⟩

end Scene

end DiskStack
