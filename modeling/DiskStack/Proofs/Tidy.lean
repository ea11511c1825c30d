import DiskStack.Proofs.Alone

/-!
# What is left when nobody is inside of a submission

A request leaves the table when its submission returns, so a table without submissions is empty. And
the rings stay at their places: an address that lay apart from them once always does. So a drive never
runs out of memory for the next buffer because of those that came before.
-/

namespace DiskStack

namespace SharedMemory

variable {m m' : SharedMemory} {place : UInt64}

/-- The same requests are in the table, and the rings are where they were. -/
structure Stays (m m' : SharedMemory) : Prop where
  keys : m'.requests.keys = m.requests.keys
  misses : ∀ place, m.rings.Misses place → m'.rings.Misses place

private theorem stays_store (m : SharedMemory) (address : UInt64) (bytes : Bytes) :
    m.Stays (m.store address bytes) := by
  rw [store]
  split
  · exact ⟨rfl, fun _ h => h.congr (Region.base_store ..) (Region.size_store ..) rfl rfl⟩
  · exact ⟨rfl, fun _ h => h.congr rfl rfl (Region.base_store ..) (Region.size_store ..)⟩
  · exact ⟨RequestTable.keys_storeAt .., fun _ h => h⟩

private theorem Stays.trans {m'' : SharedMemory} (h : m.Stays m') (h' : m'.Stays m'') : m.Stays m'' :=
  ⟨h'.keys.trans h.keys, fun place hm => h'.misses place (h.misses place hm)⟩

private theorem stays_carryOut (c : Controller) (m : SharedMemory) (head : UInt16) :
    m.Stays (c.carryOut m head).2 := by
  rw [Controller.carryOut]
  have hmove : ∀ address descriptor, m.Stays (c.moveData m address descriptor).2 := fun _ _ => by
    rw [Controller.moveData]
    split
    · exact stays_store ..
    · exact ⟨rfl, fun _ h => h⟩
  exact (hmove ..).trans (stays_store ..)

private theorem stays_inject (c : Controller) (m : SharedMemory) (e : UsedElement) :
    m.Stays (c.inject m e).2 := ⟨rfl, fun _ h => h.congr rfl rfl rfl rfl⟩

end SharedMemory

namespace View

variable {b : BayId} {v v' : View} {s s' : ReadyState} {t : TaskId} {place : UInt64}

/-- Every request in the table is that of a submission under way, and a place lies apart from the
rings. -/
structure Tidy (place : UInt64) (v : View) : Prop where
  owned : ∀ id ∈ v.requests.keys, ∃ t g, v.stage t = some g ∧ g.request = id
  clear : ∀ s, v.state = .ready s → s.rings.Misses place

theorem Tidy.spares (hv : v.Tidy place)
    (hother : ∀ t g q, v.stage t = some g → v.requests.find? g.request = some q → q.address ≠ place)
    {arena : Arena} (harena : (arena.reserve 0).1 = place) : v.Spares arena := by
  intro s hs
  rw [harena]
  refine ⟨hv.clear s hs, fun id q hq => ?_⟩
  obtain ⟨t, g, hg, rfl⟩ := hv.owned id (RequestTable.mem_keys_iff.2 ⟨q, hq⟩)
  exact hother t g q hg hq

/-- A move that keeps the submissions, the names in the table and the places of the rings. -/
private theorem Tidy.congr (hv : v.Tidy place) (hstage : ∀ t, v'.stage t = v.stage t)
    (hkeys : v'.requests.keys = v.requests.keys)
    (hclear : ∀ s', v'.state = .ready s' → s'.rings.Misses place) : v'.Tidy place := by
  refine ⟨fun id hid => ?_, hclear⟩
  obtain ⟨t, g, hg, hreq⟩ := hv.owned id (hkeys ▸ hid)
  exact ⟨t, g, (hstage t).trans hg, hreq⟩

private theorem Tidy.setScratch (hv : v.Tidy place) (scratch : SleepLock Bytes) :
    { v with scratch }.Tidy place := hv.congr (fun _ => rfl) rfl hv.clear

private theorem Tidy.act (hv : v.Tidy place) {a : Activity}
    (ha : a.program?.bind Program.stage? = v.stage t) : (v.act t a).Tidy place := by
  refine hv.congr (fun u => ?_) rfl hv.clear
  rw [stage_act]
  split
  · next hu => rw [hu, ha]
  · rfl

/-- A task that is inside of a submission owns its request, and the others keep theirs. -/
private theorem Tidy.own (hv : v.Tidy place) {u : View} {a : Activity} {g : Stage}
    (hactivity : u.activity = v.activity) (ha : a.program?.bind Program.stage? = some g)
    (hkeys : ∀ id ∈ u.requests.keys, id = g.request ∨ id ∈ v.requests.keys)
    (hown : ∀ g', v.stage t = some g' → g'.request = g.request)
    (hclear : ∀ s', u.state = .ready s' → s'.rings.Misses place) : (u.act t a).Tidy place := by
  have hself : (u.act t a).stage t = some g := by rw [stage_act, if_pos rfl, ha]
  refine ⟨fun id hid => ?_, hclear⟩
  rcases hkeys id hid with rfl | hid
  · exact ⟨t, g, hself, rfl⟩
  · obtain ⟨t', g', hg', hreq⟩ := hv.owned id hid
    by_cases ht : t' = t
    · subst ht
      exact ⟨t', g, hself, (hown g' hg').symm.trans hreq⟩
    · refine ⟨t', g', ?_, hreq⟩
      rw [stage_act, if_neg ht, stage, hactivity]
      exact hg'

private theorem Tidy.publishes (hv : v.Tidy place) (ho : v.Orderly b) {u : View} (hs : u.state = .ready s)
    (hstate : u.state = v.state) (hactivity : u.activity = v.activity) {id : RequestId}
    {q : BlockRequest} {sector : Nat} {next : SubmitReply → Program Reply}
    (hkeys : ∀ other ∈ u.requests.keys, other = id ∨ other ∈ v.requests.keys)
    (hown : ∀ g, v.stage t = some g → g.request = id) {a : Activity}
    (h : u.Publishes b s id q sector next a v') : (v'.act t a).Tidy place := by
  have hready : v.state = .ready s := hstate ▸ hs
  have hclear := hv.clear s hready
  cases h with
  | wait =>
    refine hv.own hactivity rfl hkeys hown fun s' hs' => ?_
    exact hv.clear s' (hstate ▸ hs')
  | publish c r hc hcount hp =>
    have hpublished := (ho.kept s hready).published hc hp
    refine hv.own (u := { u with
      state := .ready (s.published r)
      controller := u.controller.tell (.notifyQueue 0)
      requests := u.requests.setPending id true }) hactivity rfl
      (fun other hother => hkeys other (by simpa using hother)) hown fun s' hs' => ?_
    cases hs'
    exact hclear.congr hpublished.headersBase hpublished.headersSize hpublished.statusBase
      hpublished.statusSize

private theorem Tidy.does (hv : v.Tidy place) (ho : v.Orderly b) (hs : v.state = .ready s)
    {p : Program Reply} {a : Activity} {v₁ : View} (hprogram : (v.activity t).program? = some p)
    (does : v.Does b t p a v₁) : (v₁.act t a).Tidy place := by
  have hunder := ho.underway t p hprogram
  have hstage := stage_eq hprogram
  have hasks : p.stage? = none → ∀ {p' : Program Reply}, p'.Asks b →
      (Activity.running p').program?.bind Program.stage? = v.stage t := fun hp _ hp' => by
    rw [hstage, hp]
    exact hp'.stage?
  cases does with
  | done r => exact hv.act hstage.symm
  | inspect next => exact hv.act (hasks rfl (hunder.of_inspect _))
  | refuse acc next e => exact hv.act (hasks rfl (hunder.of_submit _))
  | submit acc next sector s₁ activity _ haccept hpub =>
    obtain ⟨hready, -⟩ := ready_of_accepts haccept
    refine hv.publishes (u := v.enter acc) ho hready rfl rfl (fun other hother => ?_)
      (fun g hg => ?_) hpub
    · exact List.mem_cons.1 hother
    · cases hg.symm.trans hstage
  | publish id sector next s₁ q activity _ hs₁ hq hpub =>
    refine hv.publishes ho hs₁ rfl rfl (fun _ h => .inr h) (fun g hg => ?_) hpub
    cases hg.symm.trans hstage
    rfl
  | unready id sector next hidle =>
    rw [hs] at hidle
    cases hidle
  | wait id ticket next => exact hv.act hstage.symm
  | finish id ticket next q hq hdone =>
    refine ⟨fun other hother => ?_, hv.clear⟩
    obtain ⟨q', hq'⟩ := RequestTable.mem_keys_iff.1 hother
    obtain ⟨hne, hfound⟩ := RequestTable.find?_of_erase hq'
    obtain ⟨u, g, hg, hreq⟩ := hv.owned other (RequestTable.mem_keys_iff.2 ⟨q', hfound⟩)
    -- the task's own request is the one that is gone
    have hu : u ≠ t := fun hu => by
      subst hu
      cases hg.symm.trans hstage
      exact hne hreq
    exact ⟨u, g, by rw [stage_act, if_neg hu]; exact hg, hreq⟩
  | takeScratch next => exact (hv.setScratch _).act (hasks rfl (hunder.of_takeScratch _))
  | awaitScratch next => exact hv.act hstage.symm
  | giveScratch value next => exact (hv.setScratch _).act (hasks rfl hunder.of_giveScratch)

private theorem Tidy.advances (hv : v.Tidy place) (ho : v.Orderly b) (hs : v.state = .ready s)
    (h : v.Advances b t v') : v'.Tidy place := by
  cases h with
  | rest => exact hv
  | sleep p hp | stayUp p hp =>
    apply hv.act
    rw [stage, hp]
    rfl
  | run p a v₁ hp does => exact hv.does ho hs (by rw [hp]; rfl) does

private theorem Tidy.handles {point next : Run.CompletionPoint} (hv : v.Tidy place) (ho : v.Orderly b)
    (h : v.Handles point next v') : v'.Tidy place := by
  cases h with
  | take s head e q r hs hc hr =>
    refine hv.congr (fun _ => rfl) (by simp) fun s' hs' => ?_
    cases hs'
    obtain ⟨-, -, -, rfl⟩ := (ho.kept s hs).take hc hr
    exact (hv.clear s hs).congr rfl rfl rfl rfl
  | _ => exact hv.congr (fun _ => rfl) rfl hv.clear

end View

namespace Scene

variable {γ : Type} {b : BayId} {program : γ → Program Reply} {s s' : Scene} {st : ReadyState}
  {place : UInt64} {l : List (Incident γ)}

private theorem Attended.tidy_serves (hs : s.Attended b st) (hv : (s.machine.view b).Tidy place)
    {heads : List UInt16} (h : Serves b s heads s') : (s'.machine.view b).Tidy place := by
  have hshows := hs.steady.shows
  have hput : ∀ {c : Controller} {shared : SharedMemory},
      SharedMemory.Stays ⟨st.rings, s.machine.requests⟩ shared →
      c.mode = (s.machine.view b).controller.mode →
      ((s.machine.putShared b st c shared).view b).Tidy place := fun {c shared} hstays hmode => by
    rw [(hshows.putShared st shared hmode).view]
    refine hv.congr (fun _ => rfl) hstays.keys fun s' hs' => ?_
    cases hs'
    exact hstays.misses place (hv.clear st hs.serving.ready)
  cases h with
  | take st₁ hst hmore =>
    have hset := hshows.setController (f := fun c =>
      { c with
        held := c.held ++
          [SharedMemory.offered ⟨st₁.rings, s.machine.requests⟩ c.queueSize c.lastAvail]
        lastAvail := c.lastAvail + 1 }) rfl
    rw [hset.view]
    exact hv.congr (fun _ => rfl) rfl hv.clear
  | execute st₁ head c shared hst hheld hcarry =>
    cases hs.serving.ready.symm.trans hst
    have hmode := Controller.mode_carryOut (c := { (s.machine.bay b).controller with
      held := (s.machine.bay b).controller.held.erase head }) ⟨st.rings, s.machine.requests⟩ head
    have hstays := SharedMemory.stays_carryOut { (s.machine.bay b).controller with
      held := (s.machine.bay b).controller.held.erase head } ⟨st.rings, s.machine.requests⟩ head
    rw [hcarry] at hmode hstays
    exact hput hstays hmode
  | report st₁ head length c shared hst hdone hinject =>
    cases hs.serving.ready.symm.trans hst
    have hstays := SharedMemory.stays_inject (s.machine.bay b).controller
      ⟨st.rings, s.machine.requests⟩ ⟨head.toUInt32, length⟩
    rw [hinject] at hstays
    refine hput hstays ?_
    rw [Controller.inject, Prod.mk.injEq] at hinject
    rw [← hinject.1]
    rfl

theorem Attended.tidy_step (hs : s.Attended b st) (hasks : ∀ c, (program c).Asks b)
    (hv : (s.machine.view b).Tidy place) (h : Step (served b program) s l s') :
    (s'.machine.view b).Tidy place := by
  obtain ⟨turn, -⟩ := h.turn hs.inOrder
  replace turn : Turn (served b program) s s' (s.machine.view b) (s'.machine.view b) l := turn
  have ho := hs.serving.orderly
  cases turn with
  | call t c hidle hview =>
    rw [hview]
    apply hv.act
    rw [View.stage, hidle]
    exact (hasks c).stage?
  | advance t arena ha hadv =>
    have harena : View.Tidy place { s.machine.view b with arena } :=
      hv.congr (fun _ => rfl) rfl hv.clear
    exact harena.advances (ho.setArena arena) hs.serving.ready hadv
  | rouse t p hasleep hview =>
    rw [hview]
    apply hv.act
    rw [View.stage, hasleep]
    rfl
  | reply t r hdone hview =>
    rw [hview]
    apply hv.act
    rw [View.stage, hdone]
    rfl
  | bringUp hstarts =>
    have hready := hs.serving.ready
    generalize s'.machine.view b = v' at hstarts
    cases hstarts with
    | refused => exact hv
    | invalid h | failed h | started h => cases hready.symm.trans h
  | enter hview | leave hview =>
    rw [hview]
    exact hv
  | handle point next hhandles => exact hv.handles ho hhandles
  | device heads _ _ hd => exact hs.tidy_serves hv hd

end Scene

end DiskStack
