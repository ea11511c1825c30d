import DiskStack.Proofs.Regular
import DiskStack.Proofs.Waiting

/-!
# Nobody waits in vain

A regular view is watched if the wait queue agrees with its tasks and every registered task is at a
node that it cannot go past: there are too few free descriptors, its request is pending, or another
task has the scratch block. What a task does under the lock of a drive keeps a view watched, and so
does the completion of a request, since whoever could go on because of it is woken.
-/

namespace DiskStack

namespace View

structure Watched (b : BayId) (key : Nat) (q : WaitQueue) (woken : List TaskId) (v : View) : Prop where
  regular : v.Regular b
  agrees : q.Agrees key v.scratch.key woken v.activity
  stuck : v.Stuck q []

variable {b : BayId} {key : Nat} {q : WaitQueue} {woken : List TaskId} {v v' : View} {t u : TaskId}
  {s : ReadyState} {p p' : Program Reply} {c : Channel} {l : List Channel}

theorem blocks_act (v : View) (t : TaskId) (a : Activity) (p : Program Reply) :
    (v.act t a).Blocks p ↔ v.Blocks p := by
  cases p <;> exact Iff.rfl

/-- Tasks that cannot go on in one view stay stuck in another, if they cannot go on there. -/
private theorem Stuck.keep (h : v.Stuck q []) (hactivity : v'.activity = v.activity)
    (hb : ∀ u c p, (u, c) ∈ q.waiters → c ∉ l → (v.activity u).program? = some p → v.Blocks p →
      v'.Blocks p) : v'.Stuck q l :=
  h.mono fun u c p hc hl hp => by
    rw [hactivity] at hp
    exact ⟨List.not_mem_nil, hp, hb u c p hc hl hp⟩

theorem stage_of_running (h : v.activity t = .running p) : v.stage t = p.stage? := by
  rw [stage, h]
  rfl

namespace Watched

private theorem channel (h : v.Watched b key q woken) (hc : (u, c) ∈ q.waiters)
    (hp : (v.activity u).program? = some p) : p.channel? key v.scratch.key = some c := by
  obtain ⟨p', hp', hc'⟩ := h.agrees.registered u c hc
  have hsame : (v.activity u).program? = some p' := by
    rcases hp' with hp' | hp' <;> rw [hp'] <;> rfl
  cases hp.symm.trans hsame
  exact hc'

/-! ### What a task does by itself -/

theorem act (h : v.Watched b key q woken) (ht : (v.activity t).waits = false) {a : Activity}
    (ha : a.isAsleep = false) (hunder : ∀ p, a.program? = some p → p.Underway b)
    (hstage : a.program?.bind Program.stage? = v.stage t) : (v.act t a).Watched b key q woken := by
  obtain ⟨hnot, hwoken⟩ := h.agrees.not_mem ht
  exact ⟨h.regular.act t a hunder hstage, h.agrees.act hnot hwoken ha, h.stuck.act hnot a⟩

theorem go (h : v.Watched b key q woken) (hact : v.activity t = .running p) (hunder : p'.Underway b)
    (hstage : p'.stage? = p.stage?) : (v.act t (.running p')).Watched b key q woken :=
  h.act (by rw [hact]; rfl) rfl (fun _ hp => by cases hp; exact hunder)
    (hstage.trans (stage_of_running hact).symm)

theorem park (h : v.Watched b key q woken) (hact : v.activity t = .running p) (hunder : p'.Underway b)
    (hstage : p'.stage? = p.stage?) (hc : p'.channel? key v.scratch.key = some c)
    (hb : v.Blocks p') : (v.act t (.parking p')).Watched b key (q.register t c) woken := by
  have hup : (v.activity t).waits = false := by rw [hact]; rfl
  obtain ⟨hnot, hwoken⟩ := h.agrees.not_mem hup
  have hparked : (v.act t (.parking p')).Watched b key q woken :=
    h.act hup rfl (fun _ hp => by cases hp; exact hunder) (hstage.trans (stage_of_running hact).symm)
  have hself : (v.act t (.parking p')).activity t = .parking p' := if_pos rfl
  exact ⟨hparked.regular, hparked.agrees.register hself hc hnot hwoken,
    hparked.stuck.register (by rw [hself]; rfl) ((blocks_act v t _ p').2 hb)⟩

theorem sleep (h : v.Watched b key q woken) (hact : v.activity t = .parking p)
    (hreg : ∃ c, (t, c) ∈ q.waiters) : (v.act t (.asleep p)).Watched b key q woken := by
  have hprogram : (v.activity t).program? = some p := by rw [hact]; rfl
  refine ⟨h.regular.act_same hprogram.symm, h.agrees.sleep hact hreg, fun u c p' hc hl hp => ?_⟩
  refine (blocks_act v t _ p').2 (h.stuck u c p' hc hl ?_)
  simp only [View.act] at hp
  split at hp
  · next hut =>
    cases hp
    rw [hut]
    exact hprogram
  · exact hp

theorem stayUp (h : v.Watched b key q woken) (hact : v.activity t = .parking p)
    (hreg : ∀ c, (t, c) ∉ q.waiters) : (v.act t (.running p)).Watched b key q woken := by
  have hprogram : (v.activity t).program? = some p := by rw [hact]; rfl
  have hwoken : t ∉ woken := fun hw => by
    have hasleep := (h.agrees.roused t hw).1
    rw [hact] at hasleep
    cases hasleep
  exact ⟨h.regular.act_same hprogram.symm, h.agrees.act hreg hwoken rfl, h.stuck.act hreg _⟩

theorem rouse (h : v.Watched b key q woken) (hact : v.activity t = .asleep p) :
    (v.act t (.running p)).Watched b key (q.withdraw t) (woken.erase t) := by
  have hprogram : (v.activity t).program? = some p := by rw [hact]; rfl
  refine ⟨h.regular.act_same hprogram.symm, h.agrees.rouse t p, fun u c p' hc hl hp => ?_⟩
  obtain ⟨hc, hne⟩ := WaitQueue.mem_withdraw_iff.1 hc
  simp only [View.act, if_neg hne] at hp
  exact (blocks_act v t _ p').2 (h.stuck u c p' hc hl hp)

theorem setArena (h : v.Watched b key q woken) (arena : Arena) :
    { v with arena }.Watched b key q woken :=
  ⟨h.regular.setArena arena, h.agrees, h.stuck.keep rfl fun u c p _ _ _ hb => by cases p <;> exact hb⟩

/-! ### Submitting -/

theorem enter (h : v.Watched b key q woken) {a : BlockAccess} {next : SubmitReply → Program Reply}
    (hact : v.activity t = .running (.submit b a next)) (hs : v.state = .ready s)
    (hlen : a.data.length = v.config.blockSize) (hlt : a.block * v.config.sectorsPerBlock < wordLimit)
    (hnext : ∀ r, (next r).Asks b) :
    ((v.enter a).act t (.running (.publish b v.nextRequest (a.block * v.config.sectorsPerBlock)
      next))).Watched b key q woken := by
  obtain ⟨hnot, hwoken⟩ := h.agrees.not_mem (t := t) (by rw [hact]; rfl)
  have hregular := (h.regular.enter hs (stage_of_running hact) hlen hlt hnext).act t
    (.running (.publish b v.nextRequest (a.block * v.config.sectorsPerBlock) next))
    (fun p hp => by cases hp; exact .publish _ _ next hnext) (by rw [stage_admitted, if_pos rfl]; rfl)
  rw [admitted, act_act] at hregular
  have hstuck : (v.enter a).Stuck q [] := by
    refine h.stuck.keep rfl fun u c p hc _ hp hb => ?_
    cases p with
    | complete b' id ticket next' =>
      have hstage : v.stage u = some (.complete id ticket) := by rw [stage, hp]; rfl
      have hne : v.nextRequest ≠ id := Nat.ne_of_gt (h.regular.named hstage)
      change (v.enter a).requests.isPending id = true
      rw [RequestTable.isPending, find?_enter, if_neg hne]
      exact hb
    | _ => exact hb
  exact ⟨hregular, h.agrees.act hnot hwoken rfl, hstuck.act hnot _⟩

theorem launch (h : v.Watched b key q woken) {id : RequestId} {sector : Nat}
    {next : SubmitReply → Program Reply} (hact : v.activity t = .running (.publish b id sector next))
    (hs : v.state = .ready s) {request : BlockRequest} (hq : v.requests.find? id = some request)
    {chain : Chain} {r : Rings} (hc : s.rings.Fresh chain)
    (hcount : s.rings.queue.pool.numFree = (s.rings.taking chain).queue.pool.numFree + 3)
    (hp : (s.rings.taking chain).publish chain (s.submission id request sector) = .ok r)
    (hnext : ∀ r, (next r).Asks b) :
    ({ v with
      state := .ready (s.published r)
      requests := v.requests.setPending id true }.act t
        (.running (.complete b id s.nextTicket next))).Watched b key q woken := by
  obtain ⟨hnot, hwoken⟩ := h.agrees.not_mem (t := t) (by rw [hact]; rfl)
  have hlaunched := (h.regular.launch hs (stage_of_running hact) hq hc hcount hp hnext).setController
    h.regular.image
  have hregular := hlaunched.act t (.running (.complete b id s.nextTicket next))
    (fun p hp => by cases hp; exact .complete _ _ next hnext)
    (by rw [stage, launched, View.act]; simp only [if_pos]; rfl)
  have hstuck : Stuck { v with
      state := .ready (s.published r)
      requests := v.requests.setPending id true } q [] := by
    refine h.stuck.keep rfl fun u c p hc _ hp hb => ?_
    cases p with
    | publish b' id' sector' next' =>
      obtain ⟨s', hs', hfew⟩ := hb
      cases hs.symm.trans hs'
      omega
    | complete b' id' ticket next' =>
      change (v.requests.setPending id true).isPending id' = true
      rw [RequestTable.isPending_setPending, RequestTable.isSome_of_isPending hb]
      split
      · rfl
      · exact hb
    | _ => exact hb
  refine ⟨?_, h.agrees.act hnot hwoken rfl, hstuck.act hnot _⟩
  rw [← act_act (.parking (.complete b id s.nextTicket next))]
  exact hregular

/-! ### Returning -/

theorem finish (h : v.Watched b key q woken) {id : RequestId} {ticket : UInt64}
    {next : SubmitReply → Program Reply} (hact : v.activity t = .running (.complete b id ticket next))
    {request : BlockRequest} (hq : v.requests.find? id = some request)
    (hdone : request.pending = false) (hp : p.Asks b) :
    ({ v with requests := v.requests.erase id }.act t (.running p)).Watched b key q woken := by
  obtain ⟨hnot, hwoken⟩ := h.agrees.not_mem (t := t) (by rw [hact]; rfl)
  have hstage := stage_of_running hact
  have hstuck : Stuck { v with requests := v.requests.erase id } q [] := by
    refine h.stuck.keep rfl fun u c p hc _ hp hb => ?_
    cases p with
    | complete b' id' ticket' next' =>
      have hstage' : v.stage u = some (.complete id' ticket') := by rw [stage, hp]; rfl
      have hne : id ≠ id' := fun hid => by
        cases h.regular.own hstage hstage' hid
        exact hnot c hc
      change (v.requests.erase id).isPending id' = true
      rw [RequestTable.isPending, RequestTable.find?_erase, if_neg hne]
      exact hb
    | _ => exact hb
  exact ⟨h.regular.finish hstage hq hdone hp, h.agrees.act hnot hwoken rfl, hstuck.act hnot _⟩

/-! ### The scratch block -/

theorem takeScratch (h : v.Watched b key q woken) (t : TaskId) :
    { v with scratch := v.scratch.acquire t }.Watched b key q woken := by
  refine ⟨h.regular.setScratch _, h.agrees, h.stuck.keep rfl fun u c p _ _ _ hb => ?_⟩
  cases p with
  | takeScratch b' next => exact rfl
  | _ => exact hb

theorem giveScratch (h : v.Watched b key q woken) (value : Bytes) {sleeps : TaskId → Bool}
    (hsleeps : ∀ t, sleeps t = (v.activity t).isAsleep) :
    { v with scratch := { v.scratch.release with value } }.Watched b key
      (q.wake v.scratch.channel) (woken ++ (q.waitersOf v.scratch.channel).filter sleeps) := by
  refine ⟨h.regular.setScratch _, h.agrees.wake _ hsleeps, Stuck.wake ?_⟩
  refine h.stuck.keep rfl fun u c p hc hl hp hb => ?_
  cases p with
  | takeScratch b' next =>
    have hlock := h.channel hc hp
    exact absurd (List.mem_singleton.2 (Option.some.inj hlock).symm) hl
  | _ => exact hb

/-! ### Completing -/

/-- Whoever could go on because a request has been completed is woken: the task that waits for it, and
those that wait for descriptors. -/
theorem complete (h : v.Watched b key q woken) (hs : v.state = .ready s) {head : UInt16} {e : InFlight}
    (he : s.rings.entryAt head.toNat = some e) {sleeps : TaskId → Bool}
    (hsleeps : ∀ t, sleeps t = (v.activity t).isAsleep) :
    (v.completed s head e).Watched b key
      ((q.wake (.completion key e.ticket)).wake (.descriptors key))
      (woken ++ (q.waitersOf (.completion key e.ticket)).filter sleeps ++
        ((q.wake (.completion key e.ticket)).waitersOf (.descriptors key)).filter sleeps) := by
  refine ⟨h.regular.complete hs he, (h.agrees.wake _ hsleeps).wake _ hsleeps, Stuck.wake (Stuck.wake ?_)⟩
  refine h.stuck.keep rfl fun u c p hc hl hp hb => ?_
  rw [List.mem_cons, List.mem_singleton, not_or] at hl
  have hchannel := h.channel hc hp
  cases p with
  | publish b' id sector next => exact absurd (Option.some.inj hchannel).symm hl.2
  | complete b' id ticket next =>
    cases hchannel
    have hstage : v.stage u = some (.complete id ticket) := by rw [stage, hp]; rfl
    have hne : e.request ≠ id := fun hid => by
      obtain ⟨w, -, hw, -⟩ := h.regular.entered hs he
      cases h.regular.own hstage hw hid.symm
      cases hstage.symm.trans hw
      exact hl.1 rfl
    change (v.requests.setPending e.request false).isPending id = true
    rw [RequestTable.isPending_setPending, if_neg hne]
    exact hb
  | _ => exact hb

/-! ### What the controller does, and bringing the drive up -/

theorem setController (h : v.Watched b key q woken) {c : Controller} (hc : c.image.Whole) :
    { v with controller := c }.Watched b key q woken :=
  ⟨h.regular.setController hc, h.agrees, h.stuck.keep rfl fun _ _ p _ _ _ hb => by cases p <;> exact hb⟩

theorem scribble (h : v.Watched b key q woken) (hs : v.state = .ready s) {m : SharedMemory}
    (hm : SharedMemory.Scribbled ⟨s.rings, v.requests⟩ m) {c : Controller} (hc : c.image.Whole) :
    { v with
      state := .ready { s with rings := m.rings }
      requests := m.requests
      controller := c }.Watched b key q woken := by
  refine ⟨h.regular.scribble hs hm hc, h.agrees, h.stuck.keep rfl fun u c p _ _ _ hb => ?_⟩
  cases p with
  | publish b' id sector next =>
    obtain ⟨s', hs', hfew⟩ := hb
    cases hs.symm.trans hs'
    exact ⟨_, rfl, by rw [hm.pool]; exact hfew⟩
  | complete b' id ticket next =>
    change m.requests.isPending id = true
    rw [hm.requests.isPending_eq]
    exact hb
  | _ => exact hb

theorem starts (h : v.Watched b key q woken) (hv : v.Starts v') (hw : v'.controller.image.Whole) :
    v'.Watched b key q woken := by
  obtain ⟨hactivity, hrequests⟩ := hv.still
  have hscratch : v'.scratch = v.scratch := by cases hv <;> rfl
  refine ⟨h.regular.starts hv hw, by rw [hscratch, hactivity]; exact h.agrees,
    h.stuck.keep hactivity fun u c p _ _ hp hb => ?_⟩
  cases p with
  | publish b' id sector next =>
    obtain ⟨s, hs, hfew⟩ := hb
    have hsame : v'.state = v.state := by
      cases hv with
      | refused => rfl
      | invalid hu | failed hu | started hu => cases hs.symm.trans hu
    exact ⟨s, hsame.trans hs, hfew⟩
  | complete b' id ticket next =>
    change v'.requests.isPending id = true
    rw [hrequests]
    exact hb
  | takeScratch b' next =>
    change v'.scratch.held = true
    rw [hscratch]
    exact hb
  | _ => exact hb

end Watched

end View

end DiskStack
