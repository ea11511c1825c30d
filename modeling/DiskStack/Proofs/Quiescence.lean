import DiskStack.Proofs.Service

/-!
# Drives that come to rest

Of a drive that is served, nothing stays in flight for good. From every scene the controller can take,
carry out and report what is left to it, and then the completion handler can collect what is reported;
no task has to take a step for it, and none is moved by it.
-/

namespace DiskStack

namespace Controller

variable {c : Controller}

private theorem frame_carryOut (m : SharedMemory) (head : UInt16) :
    (c.carryOut m head).1.held = c.held ∧ (c.carryOut m head).1.lastAvail = c.lastAvail := by
  simp only [carryOut, moveData]
  split <;> exact ⟨rfl, rfl⟩

end Controller

namespace SharedMemory

private theorem queue_store (m : SharedMemory) (address : UInt64) (bytes : Bytes) :
    (m.store address bytes).rings.queue = m.rings.queue := by
  rw [store]
  split <;> rfl

private theorem queue_carryOut (c : Controller) (m : SharedMemory) (head : UInt16) :
    (c.carryOut m head).2.rings.queue = m.rings.queue := by
  simp only [Controller.carryOut, Controller.moveData, setStatusAt]
  split
  · rw [queue_store, queue_store]
  · rw [queue_store]

end SharedMemory

namespace View

/-- What is left to the controller: chains to take, to carry out and to report. -/
def toDo (v : View) (s : ReadyState) (unreported : List UInt16) : Nat :=
  3 * (s.rings.queue.avail.index - v.controller.lastAvail).toNat + 2 * v.controller.held.length +
    unreported.length

variable {v v' : View} {s s' : ReadyState} {unreported : List UInt16} {head : UInt16}

private theorem toDo_take (hmore : v.controller.lastAvail ≠ s.rings.queue.avail.index)
    (hlast : v'.controller.lastAvail = v.controller.lastAvail + 1)
    (hheld : v'.controller.held = v.controller.held ++ [head]) :
    v'.toDo s unreported < v.toDo s unreported := by
  have hnext := toNat_sub_succ hmore
  rw [toDo, toDo, hlast, hheld, List.length_append, List.length_singleton]
  omega

private theorem toDo_execute (hmem : head ∈ v.controller.held)
    (havail : s'.rings.queue.avail = s.rings.queue.avail)
    (hlast : v'.controller.lastAvail = v.controller.lastAvail)
    (hheld : v'.controller.held = v.controller.held.erase head) :
    v'.toDo s' (head :: unreported) < v.toDo s unreported := by
  have hpos := List.length_pos_of_mem hmem
  rw [toDo, toDo, havail, hlast, hheld, List.length_erase_of_mem hmem, List.length_cons]
  omega

private theorem toDo_report (hmem : head ∈ unreported)
    (havail : s'.rings.queue.avail = s.rings.queue.avail)
    (hlast : v'.controller.lastAvail = v.controller.lastAvail)
    (hheld : v'.controller.held = v.controller.held) :
    v'.toDo s' (unreported.erase head) < v.toDo s unreported := by
  have hpos := List.length_pos_of_mem hmem
  rw [toDo, toDo, havail, hlast, hheld, List.length_erase_of_mem hmem]
  omega

end View

namespace Scene

variable {γ : Type} {w : Setting γ} {b : BayId} {program : γ → Program Reply} {s s' s'' : Scene}
  {st : ReadyState} {l : List (Incident γ)}

/-- A scene that is reached from another without any call. -/
def Onward (w : Setting γ) (s s' : Scene) : Prop :=
  ∃ trace, Run w s trace s' ∧ ∀ t c, .call t c ∉ trace

theorem Onward.refl (w : Setting γ) (s : Scene) : Onward w s s := ⟨[], .refl, fun _ _ => List.not_mem_nil⟩

theorem Onward.trans (h : Onward w s s') (h' : Onward w s' s'') : Onward w s s'' := by
  obtain ⟨trace, run, hnone⟩ := h
  obtain ⟨trace', run', hnone'⟩ := h'
  refine ⟨trace ++ trace', run.trans run', fun t c hc => ?_⟩
  rcases List.mem_append.1 hc with hc | hc
  · exact hnone t c hc
  · exact hnone' t c hc

theorem Onward.of_step (h : Step w s l s') (hnone : ∀ t c, .call t c ∉ l) : Onward w s s' :=
  ⟨[] ++ l, .step .refl h, by simpa using hnone⟩

private theorem exists_shown (m : Machine) (b : BayId) (heads : List UInt16) :
    ∃ l : List (Incident γ), Shown m b heads l := by
  induction heads with
  | nil => exact ⟨[], .nil⟩
  | cons head heads ih =>
    obtain ⟨l, hl⟩ := ih
    by_cases h : ∃ t, m.Owns b t head
    · obtain ⟨t, ht⟩ := h
      exact ⟨_, .owned head heads t l ht hl⟩
    · exact ⟨_, .stray head heads l (fun t ht => h ⟨t, ht⟩) hl⟩

private theorem Onward.of_device {heads : List UInt16} (h : w.device s heads s') : Onward w s s' := by
  obtain ⟨l, hl⟩ := exists_shown (γ := γ) s.machine w.bay heads
  refine .of_step (.device heads l s' hl h) fun t c hc => ?_
  obtain ⟨u, hu⟩ := hl.execute _ hc
  cases hu

/-! ### The controller -/

def toDo (s : Scene) (b : BayId) (st : ReadyState) : Nat := (s.machine.view b).toDo st s.unreported

/-- A step of the controller that leaves less to do, and nobody else moved. -/
structure Relieves (b : BayId) (s : Scene) (st : ReadyState) (s' : Scene) (st' : ReadyState) : Prop where
  serves : ∃ heads, Serves b s heads s'
  attended : s'.Attended b st'
  handler : s'.handler = s.handler
  activity : (s'.machine.view b).activity = (s.machine.view b).activity
  less : s'.toDo b st' < s.toDo b st

private theorem Attended.relieves (hs : s.Attended b st) {heads : List UInt16} (h : Serves b s heads s')
    {st' : ReadyState} (hready : (s'.machine.view b).state = .ready st')
    (hless : s'.toDo b st' < s.toDo b st) : Relieves b s st s' st' := by
  obtain ⟨st₁, hs', -⟩ := hs.serves (fun _ : Unit => .halt .regionOffset) h
  cases hready.symm.trans hs'.serving.ready
  exact ⟨⟨heads, h⟩, hs', h.still.2, h.still.1, hless⟩

private theorem Attended.exists_take (hs : s.Attended b st)
    (hmore : (s.machine.bay b).controller.lastAvail ≠ st.rings.queue.avail.index) :
    ∃ s' st', Relieves b s st s' st' := by
  have hready := hs.serving.ready
  have hset := hs.steady.shows.setController (f := fun c =>
    { c with
      held := c.held ++
        [SharedMemory.offered ⟨st.rings, s.machine.requests⟩ c.queueSize c.lastAvail]
      lastAvail := c.lastAvail + 1 }) rfl
  refine ⟨_, st, hs.relieves (.take st hready hmore) (by rw [hset.view]; exact hready) ?_⟩
  rw [toDo, hset.view]
  exact View.toDo_take hmore rfl rfl

private theorem Attended.exists_execute (hs : s.Attended b st) {head : UInt16}
    (hmem : head ∈ (s.machine.bay b).controller.held) : ∃ s' st', Relieves b s st s' st' := by
  generalize hc : { (s.machine.bay b).controller with
    held := (s.machine.bay b).controller.held.erase head } = c
  have hheld : c.held = (s.machine.bay b).controller.held.erase head := by rw [← hc]
  have hlast : c.lastAvail = (s.machine.bay b).controller.lastAvail := by rw [← hc]
  have hmode := c.mode_carryOut ⟨st.rings, s.machine.requests⟩ head
  obtain ⟨hheld', hlast'⟩ := c.frame_carryOut ⟨st.rings, s.machine.requests⟩ head
  have hqueue := SharedMemory.queue_carryOut c ⟨st.rings, s.machine.requests⟩ head
  cases hcarry : c.carryOut ⟨st.rings, s.machine.requests⟩ head with
  | mk c' shared =>
    rw [hcarry] at hmode hheld' hlast' hqueue
    have hset := hs.steady.shows.putShared st shared (c := c') (hmode.trans (by rw [← hc]; rfl))
    refine ⟨_, _, hs.relieves (.execute st head c' shared hs.serving.ready hmem (hc ▸ hcarry))
      (congrArg View.state hset.view) ?_⟩
    rw [toDo, hset.view]
    exact View.toDo_execute hmem (congrArg VirtQueue.avail hqueue) (hlast'.trans hlast)
      (hheld'.trans hheld)

private theorem Attended.exists_report (hs : s.Attended b st) {head : UInt16} (hmem : head ∈ s.unreported) :
    ∃ s' st', Relieves b s st s' st' := by
  cases hinject : (s.machine.bay b).controller.inject ⟨st.rings, s.machine.requests⟩
      ⟨head.toUInt32, 0⟩ with
  | mk c shared =>
    have hparts := hinject
    rw [Controller.inject, Prod.mk.injEq] at hparts
    obtain ⟨hc, hshared⟩ := hparts
    have hset := hs.steady.shows.putShared st shared (c := c) (by rw [← hc]; rfl)
    refine ⟨_, _, hs.relieves (.report st head 0 c shared hs.serving.ready hmem hinject)
      (congrArg View.state hset.view) ?_⟩
    rw [toDo, hset.view]
    exact View.toDo_report hmem (by rw [← hshared]; rfl) (by rw [← hc]; rfl) (by rw [← hc]; rfl)

private theorem Attended.exists_relief (hs : s.Attended b st) (hpos : 0 < s.toDo b st) :
    ∃ s' st', Relieves b s st s' st' := by
  by_cases hmore : (s.machine.bay b).controller.lastAvail = st.rings.queue.avail.index
  case neg => exact hs.exists_take hmore
  case pos =>
    cases hheld : (s.machine.bay b).controller.held with
    | cons head held => exact hs.exists_execute (hheld ▸ List.mem_cons_self ..)
    | nil =>
      cases hdone : s.unreported with
      | cons head unreported => exact hs.exists_report (hdone ▸ List.mem_cons_self ..)
      | nil =>
        have hnone : s.toDo b st = 3 * (st.rings.queue.avail.index -
            (s.machine.bay b).controller.lastAvail).toNat +
            2 * (s.machine.bay b).controller.held.length + s.unreported.length := rfl
        rw [hnone, hmore, UInt16.sub_self, hheld, hdone] at hpos
        exact absurd hpos (Nat.lt_irrefl 0)

private theorem Attended.exists_spent (program : γ → Program Reply) (hs : s.Attended b st) :
    ∃ s' st', Onward (served b program) s s' ∧ s'.Attended b st' ∧ s'.handler = s.handler ∧
      (s'.machine.view b).activity = (s.machine.view b).activity ∧ s'.toDo b st' = 0 := by
  induction hn : s.toDo b st using Nat.strongRecOn generalizing s st with
  | ind n ih =>
    rcases Nat.eq_zero_or_pos n with hzero | hpos
    · exact ⟨s, st, .refl _ s, hs, rfl, rfl, hn.trans hzero⟩
    · obtain ⟨s₁, st₁, hrelief⟩ := hs.exists_relief (hn ▸ hpos)
      obtain ⟨heads, hserves⟩ := hrelief.serves
      obtain ⟨s', st', honward, hs', hhandler, hactivity, hzero⟩ :=
        ih _ (hn ▸ hrelief.less) hrelief.attended rfl
      have hfirst : Onward (served b program) s s₁ := .of_device (w := served b program) hserves
      exact ⟨s', st', hfirst.trans honward, hs', hhandler.trans hrelief.handler,
        hactivity.trans hrelief.activity, hzero⟩

/-! ### The completion handler -/

private theorem Attended.exists_handle (program : γ → Program Reply) (hs : s.Attended b st)
    {point : DiskStack.Run.CompletionPoint} (hpoint : s.handler = some point) :
    ∃ next m v' st', Step (served b program) s [] { s with machine := m, handler := some next } ∧
      (s.machine.view b).Handles point next v' ∧ m.view b = v' ∧ v'.state = .ready st' ∧
      Attended { s with machine := m, handler := some next } b st' := by
  obtain ⟨next, m, hrun⟩ := hs.handler_ok hpoint
  have hends := DiskStack.Run.ends_completionStep hs.steady.shows point
  rw [DiskStack.Run.Ends, hrun] at hends
  obtain ⟨v', hhandles, hm⟩ := hends
  have hin : (s.machine.view b).Serving b st s.unreported (some point) := hpoint ▸ hs.serving
  obtain ⟨st', hserving, -⟩ := hin.handles hhandles
  refine ⟨next, m, v', st', .handle point next m hpoint hrun, hhandles, hm.view, hserving.ready,
    hm.steady, ?_⟩
  rw [hm.view]
  exact hserving

private theorem Attended.exists_leave (program : γ → Program Reply) (hs : s.Attended b st)
    {point : DiskStack.Run.CompletionPoint} (hpoint : s.handler = some point)
    (hdrained : point = .finished → st.rings.queue.used.isDrained = true) :
    ∃ s' st', Onward (served b program) s s' ∧ s'.Attended b st' ∧ s'.handler = none ∧
      (s'.machine.view b).activity = (s.machine.view b).activity ∧
      s'.toDo b st' = s.toDo b st ∧ st'.rings.queue.used.isDrained = true := by
  induction hn : point.left st.rings.queue.used.backlog using Nat.strongRecOn
    generalizing s st point with
  | ind n ih =>
    by_cases hfinished : point = .finished
    · have hleft : Attended { s with handler := none } b st :=
        ⟨hs.steady, hs.serving.setHandler fun h => by cases h⟩
      refine ⟨_, st, .of_step (.leave (hfinished ▸ hpoint)) (fun _ _ => List.not_mem_nil), hleft, rfl,
        rfl, rfl, hdrained hfinished⟩
    obtain ⟨next, m, v', st₁, hstep, hhandles, hview, hready, hs₁⟩ := hs.exists_handle program hpoint
    have hold := hs.serving.ready
    -- it is enough that the access leaves fewer to make, and the controller as much to do
    have hgo : (v'.toDo st₁ s.unreported = s.toDo b st) →
        next.left st₁.rings.queue.used.backlog < n →
        (next = .finished → st₁.rings.queue.used.isDrained = true) →
        ∃ s' st', Onward (served b program) s s' ∧ s'.Attended b st' ∧ s'.handler = none ∧
          (s'.machine.view b).activity = (s.machine.view b).activity ∧
          s'.toDo b st' = s.toDo b st ∧ st'.rings.queue.used.isDrained = true :=
      fun htodo hless hend => by
        obtain ⟨s', st', honward, hs', hhandler, hactivity, htodo', hdrained'⟩ :=
          ih _ hless hs₁ rfl hend rfl
        refine ⟨s', st', .trans (.of_step hstep fun _ _ => List.not_mem_nil) honward, hs', hhandler,
          ?_, ?_, hdrained'⟩
        · rw [hactivity, hview, hhandles.activity_eq]
        · rw [htodo', toDo, hview, htodo]
    cases hhandles with
    | read s₀ causes h₀ =>
      cases hold.symm.trans hready
      exact hgo rfl (by rw [← hn]; exact Nat.lt_succ_self _) (fun h => by cases h)
    | acknowledge s₀ causes h₀ =>
      cases hold.symm.trans hready
      exact hgo rfl (by rw [← hn]; exact Nat.lt_succ_self _) (fun h => by cases h)
    | drained s₀ h₀ hnone =>
      cases hold.symm.trans hready
      cases hold.symm.trans h₀
      exact hgo rfl (by rw [← hn]; exact Nat.succ_pos _) (fun _ => hnone)
    | more s₀ h₀ hmore =>
      cases hold.symm.trans hready
      exact hgo rfl (by rw [← hn]; exact Nat.lt_succ_self _) (fun h => by cases h)
    | take s₀ head e q r h₀ hc hr =>
      cases hold.symm.trans h₀
      cases hready
      obtain ⟨-, -, -, rfl⟩ := (hs.serving.orderly.kept st hold).take hc hr
      have hin : (s.machine.view b).Serving b st s.unreported (some .taking) := hpoint ▸ hs.serving
      have hmore : st.rings.queue.used.lastSeen ≠ st.rings.queue.used.deviceIndex := fun h => by
        have hnot := hin.not_drained
        rw [UsedRing.isDrained, h, beq_self_eq_true] at hnot
        cases hnot
      have hbacklog : (st.rings.settled head).queue.used.backlog + 1 = st.rings.queue.used.backlog :=
        UsedRing.backlog_succ hmore
      refine hgo rfl ?_ (fun h => by cases h)
      rw [← hn]
      simp only [DiskStack.Run.CompletionPoint.left]
      omega
    | leave _ h =>
      rcases h with h | h
      · rw [hold] at h
        cases h
      · exact absurd h hfinished

theorem Attended.exists_unhandled (program : γ → Program Reply) (hs : s.Attended b st) :
    ∃ s' st', Onward (served b program) s s' ∧ s'.Attended b st' ∧ s'.handler = none ∧
      (s'.machine.view b).activity = (s.machine.view b).activity := by
  cases hpoint : s.handler with
  | none => exact ⟨s, st, .refl _ s, hs, hpoint, rfl⟩
  | some point =>
    by_cases hfinished : point = .finished
    · exact ⟨_, st, .of_step (.leave (hfinished ▸ hpoint)) (fun _ _ => List.not_mem_nil),
        ⟨hs.steady, hs.serving.setHandler fun h => by cases h⟩, rfl, rfl⟩
    · obtain ⟨s', st', honward, hs', hnone, hactivity, -⟩ :=
        hs.exists_leave program hpoint fun h => absurd h hfinished
      exact ⟨s', st', honward, hs', hnone, hactivity⟩

/-- Where the controller has nothing to do and nothing is reported, nothing is in flight. -/
private theorem Attended.vacant (hs : s.Attended b st) (htodo : s.toDo b st = 0)
    (hdrained : st.rings.queue.used.isDrained = true) (h : UInt16) : ¬st.rings.IsHead h := by
  have hb := (hs.serving.orderly.kept st hs.serving.ready).balanced
  obtain ⟨offered, reported, hcustody, -⟩ := hs.serving.custody
  rw [toDo, View.toDo] at htodo
  have htaken : (st.rings.queue.avail.index - (s.machine.view b).controller.lastAvail).toNat = 0 := by
    omega
  have hsame : (s.machine.view b).controller.lastAvail = st.rings.queue.avail.index := by
    by_cases hne : (s.machine.view b).controller.lastAvail = st.rings.queue.avail.index
    · exact hne
    · have hnext := toNat_sub_succ hne
      omega
  exact hcustody.vacant hb.sound hsame (List.eq_nil_of_length_eq_zero (by omega))
    (List.eq_nil_of_length_eq_zero (by omega)) hdrained h

/-- From every scene of a drive that is served, one can be reached in which nothing is in flight, nobody
takes completions, and the tasks are where they were. -/
theorem Attended.exists_vacant (program : γ → Program Reply) (hs : s.Attended b st) :
    ∃ s' st', Onward (served b program) s s' ∧ s'.Attended b st' ∧ s'.handler = none ∧
      (s'.machine.view b).activity = (s.machine.view b).activity ∧ ∀ h, ¬st'.rings.IsHead h := by
  obtain ⟨s₁, st₁, honward₁, hs₁, hnone₁, hactivity₁⟩ := hs.exists_unhandled program
  obtain ⟨s₂, st₂, honward₂, hs₂, hhandler₂, hactivity₂, htodo₂⟩ := hs₁.exists_spent program
  have hentered : Attended { s₂ with handler := some .reading } b st₂ :=
    ⟨hs₂.steady, hs₂.serving.setHandler fun h => by cases h⟩
  have henter : Onward (served b program) s₂ { s₂ with handler := some .reading } :=
    .of_step (.interrupt (hhandler₂.trans hnone₁)) fun _ _ => List.not_mem_nil
  obtain ⟨s', st', honward, hs', hnone, hactivity, htodo, hdrained⟩ :=
    hentered.exists_leave program rfl fun h => by cases h
  refine ⟨s', st', ((honward₁.trans honward₂).trans henter).trans honward, hs', hnone, ?_, ?_⟩
  · exact hactivity.trans (hactivity₂.trans hactivity₁)
  · exact hs'.vacant (htodo.trans htodo₂) hdrained

end Scene

end DiskStack
