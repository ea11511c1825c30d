import DiskStack.Proofs.MachineSteps

/-!
# What has nothing to do with a drive

Whatever a handler of one drive, a step of one of its tasks or its controller does, it leaves every other
drive alone, and those who wait for it: no two drives share a channel. A core that has been masked for one
drive may have kept an interrupt of another, which comes in as soon as the core is unmasked: that is the
other drive's own handler, and nothing else of the step touches the drive.
-/

namespace DiskStack

open Run (Leads Within leads_get leads_set leads_modify leads_change leads_pure leads_throw leads_any
  leads_self within_get within_modify)

namespace Machine

/-- Whether an interrupt leads to a drive. -/
def Calls (m : Machine) (i : Interrupt) (b : BayId) : Prop :=
  ∃ number, i = .completion number ∧ m.bayOf? number = some b

/-- A machine after something that has nothing to do with a drive: the drive, its controller and its scratch
block are as they were, those who wait for it still do, nobody has been woken on its account, and no core has
kept an interrupt for it that was not kept before. -/
structure Apart (b : BayId) (m m' : Machine) : Prop where
  fixed : m.Fixed m'
  bay : m'.bay b = m.bay b
  waiters : ∀ c, (m.bay b).drive.HasChannel c → m'.waiting.waitersOf c = m.waiting.waitersOf c
  events : ∃ l, m'.events = l ++ m.events ∧
    (∀ c released, .wake c released ∈ l → ¬(m.bay b).drive.HasChannel c) ∧
    ∀ t ∈ m'.runnable, t ∈ m.runnable ∨ ∃ c released, .wake c released ∈ l ∧ t ∈ released
  heard : ∀ t, ∀ i ∈ (m'.task t).core.pending, i ∈ (m.task t).core.pending ∨ ¬m.Calls i b

/-- A machine after the handler of an interrupt that a core has kept for a drive. -/
def Interrupted (b : BayId) (t : TaskId) (m m' : Machine) : Prop :=
  ∃ i rest, (m.task t).core.pending = i :: rest ∧ m.Calls i b ∧
    (Run.handle t i).run.run (m.mapCore t Core.dropPending) = (.ok (), m')

/-- A machine after things that have nothing to do with a drive, with the handlers of the drive's kept
interrupts on one core in between. -/
abbrev Around (b : BayId) (t : TaskId) : Machine → Machine → Prop :=
  Relation.ReflTransGen fun m m' => m.Apart b m' ∨ m.Interrupted b t m'

variable {m m' m₁ m₂ : Machine} {a b k : BayId} {t : TaskId} {c : Channel} {i : Interrupt}

theorem Calls.of_fixed (hf : m.Fixed m') (h : m'.Calls i b) : m.Calls i b := by
  obtain ⟨number, rfl, hnumber⟩ := h
  exact ⟨number, rfl, (hf.bayOf? number).symm.trans hnumber⟩

theorem Apart.refl (b : BayId) (m : Machine) : m.Apart b m where
  fixed := .refl m
  bay := rfl
  waiters := fun _ _ => rfl
  events := ⟨[], rfl, fun _ _ h => absurd h List.not_mem_nil, fun _ h => .inl h⟩
  heard := fun _ _ h => .inl h

theorem Apart.trans (h : m.Apart b m₁) (h' : m₁.Apart b m₂) : m.Apart b m₂ where
  fixed := h.fixed.trans h'.fixed
  bay := h'.bay.trans h.bay
  waiters := fun c hc => (h'.waiters c (h.bay.symm ▸ hc)).trans (h.waiters c hc)
  events := by
    obtain ⟨l, hl, hwakes, hwoken⟩ := h.events
    obtain ⟨l', hl', hwakes', hwoken'⟩ := h'.events
    refine ⟨l' ++ l, by rw [hl', hl, List.append_assoc], fun c released hc => ?_, fun t ht => ?_⟩
    · rcases List.mem_append.1 hc with hc | hc
      · exact h.bay ▸ hwakes' c released hc
      · exact hwakes c released hc
    · rcases hwoken' t ht with ht | ⟨c, released, hc, ht⟩
      · rcases hwoken t ht with ht | ⟨c, released, hc, ht⟩
        · exact .inl ht
        · exact .inr ⟨c, released, List.mem_append_right _ hc, ht⟩
      · exact .inr ⟨c, released, List.mem_append_left _ hc, ht⟩
  heard := fun t i hi => by
    rcases h'.heard t i hi with hi | hi
    · exact h.heard t i hi
    · exact .inr fun hcalls => hi (by
        obtain ⟨number, rfl, hnumber⟩ := hcalls
        exact ⟨number, rfl, (h.fixed.bayOf? number).trans hnumber⟩)

theorem Apart.of_quiet (fixed : m.Fixed m') (bay : m'.bay b = m.bay b) (waiting : m'.waiting = m.waiting)
    (runnable : m'.runnable = m.runnable) (events : m'.events = m.events)
    (pending : ∀ t, (m'.task t).core.pending = (m.task t).core.pending) : m.Apart b m' where
  fixed := fixed
  bay := bay
  waiters := fun c _ => by rw [waiting]
  events := ⟨[], events, fun _ _ h => absurd h List.not_mem_nil, fun t ht => .inl (runnable ▸ ht)⟩
  heard := fun t i hi => .inl (pending t ▸ hi)

private theorem apart_emit {e : Event} (he : ∀ c released, e ≠ .wake c released) :
    m.Apart b (m.emit e) where
  fixed := fixed_emit e
  bay := rfl
  waiters := fun _ _ => rfl
  events := ⟨[e], rfl, fun c released h => absurd (List.mem_singleton.1 h).symm (he c released),
    fun _ h => .inl h⟩
  heard := fun _ _ h => .inl h

theorem apart_log (level : LogLevel) (source text : String) : m.Apart b (m.log level source text) := by
  have hfixed := fixed_log (m := m) level source text
  rw [Machine.log] at hfixed ⊢
  split at hfixed <;> exact .of_quiet hfixed rfl rfl rfl rfl fun _ => rfl

private theorem apart_mapBay (hk : k ≠ b) {f : Bay → Bay} (hf : m.Fixed (m.mapBay k f)) :
    m.Apart b (m.mapBay k f) :=
  .of_quiet hf (bay_mapBay_of_ne hk.symm f) rfl rfl rfl fun _ => rfl

theorem apart_setState (hk : k ≠ b) (s : DriveState) : m.Apart b (m.setState k s) :=
  apart_mapBay hk (fixed_setState k s)

private theorem apart_setRequests (r : RequestTable) : m.Apart b (m.setRequests r) :=
  .of_quiet (.of_same rfl rfl rfl rfl rfl) rfl rfl rfl rfl fun _ => rfl

theorem apart_mapTask (t : TaskId) {f : Task → Task}
    (hf : ∀ i ∈ (f (m.task t)).core.pending, i ∈ (m.task t).core.pending ∨ ¬m.Calls i b) :
    m.Apart b (m.mapTask t f) where
  fixed := fixed_mapTask t f
  bay := rfl
  waiters := fun _ _ => rfl
  events := ⟨[], rfl, fun _ _ h => absurd h List.not_mem_nil, fun _ h => .inl h⟩
  heard := fun u i hi => by
    rw [task_mapTask] at hi
    split at hi
    · next h =>
      rw [← h.1] at hi ⊢
      exact hf i hi
    · exact .inl hi

private theorem Apart.wake (h : m.Apart b m') (hc : ¬(m.bay b).drive.HasChannel c) :
    m.Apart b (m'.wake c) := by
  refine h.trans ⟨fixed_wake c, rfl, fun d hd => ?_, ⟨[.wake c (m'.waiting.waitersOf c)], rfl, ?_, ?_⟩,
    fun _ _ h => .inl h⟩
  · change (m'.waiting.wake c).waitersOf d = _
    rw [WaitQueue.waitersOf_wake, if_neg fun hcd : c = d => hc (hcd.symm ▸ h.bay ▸ hd)]
  · intro d released hd
    cases List.mem_singleton.1 hd
    rw [h.bay]
    exact hc
  · intro t ht
    rcases List.mem_append.1 ht with ht | ht
    · exact .inl ht
    · exact .inr ⟨c, _, List.mem_singleton.2 rfl, (List.mem_filter.1 ht).1⟩

private theorem apart_prepare (t : TaskId) (hc : ¬(m.bay b).drive.HasChannel c) :
    m.Apart b (m.prepare t c) where
  fixed := .of_same rfl rfl rfl rfl rfl
  bay := rfl
  waiters := fun d hd => by
    change (m.waiting.register t c).waitersOf d = _
    rw [WaitQueue.waitersOf_register, if_neg fun hcd : c = d => hc (hcd.symm ▸ hd),
      List.append_nil]
  events := by
    refine ⟨[.prepare t c], rfl, fun d released h => ?_, fun _ h => .inl h⟩
    cases List.mem_singleton.1 h
  heard := fun _ _ h => .inl h

private theorem apart_complete (hk : k ≠ b)
    (hchannels : ∀ c, (m.bay k).drive.HasChannel c → ¬(m.bay b).drive.HasChannel c) (s : ReadyState)
    (e : InFlight) (q r : Rings) : m.Apart b ((m.complete k s e q r).counted k) := by
  have hcollected : m.Apart b ((m.setState k (.ready { s with rings := q })).setRequests
      (m.requests.setPending e.request false)) := (apart_setState hk _).trans (apart_setRequests _)
  have hfirst := hcollected.wake (hchannels _ (.completion e.ticket))
  have hreleased := hfirst.trans (apart_setState hk (.ready { s with rings := r }))
  exact (hreleased.wake (hchannels _ .descriptors)).trans (apart_mapBay hk (fixed_counted k))

/-! ### Two drives -/

/-- Two drives of different numbers, on a machine whose keys are distinct. -/
structure Rivals (a b : BayId) (m : Machine) : Prop where
  distinct : m.Distinct
  left : a < m.bays.size
  right : b < m.bays.size
  numbers : (m.bay a).number ≠ (m.bay b).number

/-- What has nothing to do with the second of two such drives. -/
structure Clear (a b : BayId) (m m' : Machine) : Prop where
  fixed : m.Fixed m'
  apart : m.Rivals a b → m.Apart b m'

/-- What has nothing to do with the second of two such drives but for the handlers of its kept interrupts. -/
structure Passing (a b : BayId) (t : TaskId) (m m' : Machine) : Prop where
  fixed : m.Fixed m'
  around : m.Rivals a b → m.Around b t m'

private theorem Rivals.of_fixed (h : m.Rivals a b) (hf : m.Fixed m') : m'.Rivals a b where
  distinct := hf.distinct h.distinct
  left := hf.size.2 h.left
  right := hf.size.2 h.right
  numbers := by
    rw [hf.number, hf.number]
    exact h.numbers

private theorem Clear.of_apart (h : m.Apart b m') : m.Clear a b m' := ⟨h.fixed, fun _ => h⟩

private theorem Clear.trans (h : m.Clear a b m₁) (h' : m₁.Clear a b m₂) : m.Clear a b m₂ where
  fixed := h.fixed.trans h'.fixed
  apart := fun hr => (h.apart hr).trans (h'.apart (hr.of_fixed h.fixed))

private theorem Clear.passing (h : m.Clear a b m') : m.Passing a b t m' :=
  ⟨h.fixed, fun hr => .single (.inl (h.apart hr))⟩

theorem Passing.of_apart (h : m.Apart b m') : m.Passing a b t m' := (Clear.of_apart h).passing

private theorem Passing.trans (h : m.Passing a b t m₁) (h' : m₁.Passing a b t m₂) : m.Passing a b t m₂ where
  fixed := h.fixed.trans h'.fixed
  around := fun hr => (h.around hr).trans (h'.around (hr.of_fixed h.fixed))

private theorem exists_owner (hb : b < m.bays.size) (h : (m.bay b).drive.HasChannel c) :
    ∃ o, (o = .drive b ∨ o = .scratch b) ∧ m.HasChannel o c := by
  cases h with
  | descriptors => exact ⟨_, .inl rfl, .descriptors b hb⟩
  | completion ticket => exact ⟨_, .inl rfl, .completion b ticket hb⟩
  | scratch => exact ⟨_, .inr rfl, .scratch b hb⟩

theorem Distinct.not_hasChannel (hm : m.Distinct) (hb : b < m.bays.size) {o : Owner}
    (ho : o ≠ .drive b ∧ o ≠ .scratch b) (h : m.HasChannel o c) : ¬(m.bay b).drive.HasChannel c := by
  intro hc
  obtain ⟨o', ho', h'⟩ := exists_owner hb hc
  rcases ho' with rfl | rfl
  · exact ho.1 (hm.owner_eq h h')
  · exact ho.2 (hm.owner_eq h h')

private theorem Distinct.not_hasChannel_of_ne (hm : m.Distinct) (hk : k < m.bays.size)
    (hb : b < m.bays.size)
    (hne : k ≠ b) (h : (m.bay k).drive.HasChannel c) : ¬(m.bay b).drive.HasChannel c := by
  obtain ⟨o, ho | ho, h⟩ := exists_owner hk h <;> subst ho <;>
    exact hm.not_hasChannel hb ⟨by simp [hne], by simp [hne]⟩ h

theorem Distinct.not_hasChannel_zero (hm : m.Distinct) (hb : b < m.bays.size) (hc : c.key = 0) :
    ¬(m.bay b).drive.HasChannel c := by
  intro h
  obtain ⟨o, -, h⟩ := exists_owner hb h
  have hpos := (hm.issued o h.has).1
  rw [← h.key_eq, hc] at hpos
  exact Nat.lt_irrefl 0 hpos

private theorem Distinct.not_hasChannel_lock (hm : m.Distinct) (hb : b < m.bays.size) (lock : Nat) :
    ¬(m.bay b).drive.HasChannel (m.lockAt lock).channel := by
  by_cases hlock : lock < m.locks.size
  · exact hm.not_hasChannel hb ⟨Owner.noConfusion, Owner.noConfusion⟩ (.lock lock hlock)
  · exact hm.not_hasChannel_zero hb (keyOf_eq_zero (o := .lock lock) hlock)

private theorem Distinct.not_hasChannel_gate (hm : m.Distinct) (hb : b < m.bays.size) (gate : Nat) :
    ¬(m.bay b).drive.HasChannel (.lock (m.gateAt gate).key) := by
  by_cases hgate : gate < m.gates.size
  · exact hm.not_hasChannel hb ⟨Owner.noConfusion, Owner.noConfusion⟩ (.gate gate hgate)
  · exact hm.not_hasChannel_zero hb (keyOf_eq_zero (o := .gate gate) hgate)

/-! ### Interrupts -/

theorem overlooks_clear (a b : BayId) (t : TaskId) : Overlooks t (· ≠ b) (Clear a b) where
  refl m := .of_apart (.refl b m)
  trans := .trans
  emit _ _ he := .of_apart (apart_emit fun c released h => he (h ▸ rfl))
  log _ _ _ _ := .of_apart (apart_log ..)
  controller _ k f hk := .of_apart (apart_mapBay hk (fixed_mapController k f))
  disable _ := .of_apart (apart_mapTask t fun _ hi => .inl hi)
  complete m k s head e q r hk hs hc hr := by
    have hfixed := ((overlooksEach_fixed t).overlooks fun _ => True).complete m k s head e q r trivial hs
      hc hr
    exact ⟨hfixed, fun hrivals => apart_complete hk
      (fun c => hrivals.distinct.not_hasChannel_of_ne (lt_of_ready hs) hrivals.right hk) s e q r⟩
  probe _ _ _ _ _ _ _ :=
    .of_apart (.of_quiet (.of_same rfl rfl rfl rfl rfl) rfl rfl rfl rfl fun _ => rfl)

private theorem leads_handle_clear (hi : ¬m.Calls i b) :
    Leads (Run.handle t i) m fun _ m' => m.Clear a b m' := by
  have hR := overlooks_clear a b t
  have hdrives : ∀ number k, i = .completion number →
      (m.mapCore t Core.disable).bayOf? number = some k → k ≠ b := fun number k hnumber hk hkb =>
    hi ⟨number, hnumber, hkb ▸ hk⟩
  exact leads_modify ((hR.leads_handler (m.enabled_mapCore_disable t) hdrives).bind fun _ m₁ h => leads_change
    ((hR.disable m).trans (h.trans (.of_apart (apart_mapTask t fun _ hi => .inl hi)))))

private theorem leads_deliver_passing (n : Nat) (m : Machine) :
    Leads (Run.deliver t n) m fun _ m' => m.Passing a b t m' := by
  induction n generalizing m with
  | zero => exact leads_pure (.of_apart (.refl b m))
  | succ n ih =>
    apply leads_get
    cases hpending : (m.task t).core.pending with
    | nil => exact leads_pure (.of_apart (.refl b m))
    | cons i rest =>
      have hdropped : m.Apart b (m.mapCore t Core.dropPending) := apart_mapTask t fun j hj =>
        .inl (List.mem_of_mem_tail hj)
      apply leads_modify
      have hhandled : Leads (Run.handle t i) (m.mapCore t Core.dropPending) fun _ m' =>
          m.Passing a b t m' := by
        by_cases hcalls : m.Calls i b
        · have hfixed := ((overlooksEach_fixed t).overlooks fun _ => True).within_handle
            (fun _ _ => fixed_mapTask t _) i
          refine ((hfixed _).and (leads_self _ _)).mono fun _ m' h => ⟨hdropped.fixed.trans h.1, fun _ => ?_⟩
          exact .single (.inr ⟨i, rest, hpending, hcalls, h.2⟩)
        · have hclear := leads_handle_clear (a := a) (t := t)
            (m := m.mapCore t Core.dropPending) (i := i) (b := b) fun h => hcalls (h.of_fixed hdropped.fixed)
          exact hclear.mono fun _ m' h => ((Clear.of_apart hdropped).trans h).passing
      exact hhandled.bind fun _ m₁ h => (ih m₁).mono fun _ m' h' => h.trans h'

theorem leads_raise_passing (hi : m.Rivals a b → ¬m.Calls i b) :
    Leads (Run.raise t i) m fun _ m' => m.Passing a b t m' := by
  by_cases hrivals : m.Rivals a b
  · apply leads_get
    split
    · exact (leads_handle_clear (hi hrivals)).mono fun _ _ h => Clear.passing h
    · refine leads_change (.of_apart (apart_mapTask t fun j hj => ?_))
      rcases List.mem_append.1 hj with hj | hj
      · exact .inl hj
      · rw [List.mem_singleton.1 hj]
        exact .inr (hi hrivals)
  · have hfixed := ((overlooksEach_fixed t).overlooks fun _ => True).within_raise
      (fun _ _ => fixed_mapTask t _) i
    exact (hfixed m).mono fun _ _ h => ⟨h, fun hr => absurd hr hrivals⟩

/-! ### Steps of tasks -/

private theorem lenient_passing (hab : a ≠ b) (t : TaskId) : Lenient (· = a) (Passing a b t) where
  refl m := .of_apart (.refl b m)
  trans := .trans
  emit m e he := ((overlooks_clear a b t).emit m e he).passing
  log _ level source text := .of_apart (apart_log level source text)
  controller m k f hk := ((overlooks_clear a b t).controller m k f (hk ▸ hab)).passing

private theorem overlooksWork_passing (hab : a ≠ b) (t : TaskId) :
    OverlooksWork (· = a) (Passing a b t) := by
  intro m k s shared order hk _
  have hmap : m.Apart b (m.mapBay k fun bay =>
      { bay with
        controller := ((m.bay k).controller.work shared order).2.1
        drive.state := .ready { s with rings := ((m.bay k).controller.work shared order).2.2.rings } }) :=
    apart_mapBay (hk ▸ hab) (fixed_mapBay k rfl rfl rfl)
  exact .of_apart (hmap.trans (apart_setRequests _))

theorem tolerates_passing (hab : a ≠ b) (t : TaskId) : Tolerates t (· = a) (Passing a b t) where
  toLenient := lenient_passing hab t
  mask m := ((overlooks_clear a b t).within_mask m).mono fun _ _ h => h.passing
  restore saved m := by
    rw [Run.restore]
    cases saved with
    | false => exact leads_pure (.of_apart (.refl b m))
    | true =>
      rw [if_pos rfl]
      refine leads_modify (leads_get ((leads_deliver_passing _ _).mono fun _ _ h => .trans ?_ h))
      exact .of_apart ((apart_emit fun _ _ => Event.noConfusion).trans
        (apart_mapTask t fun _ hi => .inl hi))
  notify k hk := by
    subst hk
    have hR := lenient_passing hab t
    refine hR.within_bind (hR.within_command rfl _) fun _ m => leads_get ?_
    dsimp only
    split
    · refine (hR.within_work (overlooksWork_passing hab t) rfl none m).bind fun _ m₁ h => ?_
      refine (leads_raise_passing fun hrivals => ?_).mono fun _ _ h' => h.trans h'
      -- the notified drive interrupts under its own number
      rintro ⟨number, hnumber, hb⟩
      cases hnumber
      refine hrivals.numbers ?_
      rw [h.fixed.number, (hrivals.distinct.of_bayOf? hb).2]
    · exact leads_pure (.of_apart (.refl b m))

theorem overlooksSteps_passing (hab : a ≠ b) (t : TaskId) : OverlooksSteps t (· = a) (Passing a b t) where
  trans := .trans
  act _ _ := .of_apart (apart_mapTask t fun _ hi => .inl hi)
  sleep _ := .of_apart (apart_emit fun _ _ => Event.noConfusion)
  stayUp _ := .of_apart (apart_emit fun _ _ => Event.noConfusion)
  enter _ _ := .of_apart (.of_quiet (.of_same rfl rfl rfl rfl rfl) rfl rfl rfl rfl fun _ => rfl)
  publish _ _ _ s hk := .of_apart ((apart_setState (hk ▸ hab) (.ready s)).trans (apart_setRequests _))
  retire m k id hk := by
    have hcounted : m.Fixed (m.mapDrive k fun d =>
        { d with stats := d.stats.countRequest (m.requestOf id).write }) := fixed_mapDrive k rfl rfl
    exact .of_apart ((apart_mapBay (hk ▸ hab) hcounted).trans (apart_setRequests _))
  awaitDrive m k c hk hc := by
    subst hk
    refine Clear.passing ⟨.of_same rfl rfl rfl rfl rfl, fun hrivals => apart_prepare t ?_⟩
    exact hrivals.distinct.not_hasChannel_of_ne hrivals.left hrivals.right hab hc
  takeScratch m k l hk hl :=
    .of_apart (apart_mapBay (hk ▸ hab) (fixed_setScratch (SleepLock.key_of_tryAcquire hl)))
  giveScratch m k value hk := by
    subst hk
    have hput : m.Fixed (m.setScratch k { (m.bay k).drive.scratch.release with value }) :=
      fixed_setScratch rfl
    have hfixed := hput.trans (fixed_wake (m.bay k).drive.scratch.channel)
    refine Clear.passing ⟨hfixed, fun hrivals => (apart_mapBay hab hput).wake ?_⟩
    exact hrivals.distinct.not_hasChannel_of_ne hrivals.left hrivals.right hab .scratch
  awaitLock m lock := Clear.passing ⟨.of_same rfl rfl rfl rfl rfl, fun hrivals =>
    apart_prepare t (hrivals.distinct.not_hasChannel_lock hrivals.right lock)⟩
  takeLock m lock l hl := by
    have hput : m.Fixed (m.putLock lock l) := fixed_putLock (SleepLock.key_of_tryAcquire hl)
    exact .of_apart (.of_quiet hput rfl rfl rfl rfl fun _ => rfl)
  awaitGate m gate := Clear.passing ⟨.of_same rfl rfl rfl rfl rfl, fun hrivals =>
    apart_prepare t (hrivals.distinct.not_hasChannel_gate hrivals.right gate)⟩
  passGate m gate := by
    have hput : m.Fixed (m.putGate gate { m.gateAt gate with isOpen := false }) := fixed_putGate rfl
    exact .of_apart (.of_quiet hput rfl rfl rfl rfl fun _ => rfl)

end Machine

end DiskStack
