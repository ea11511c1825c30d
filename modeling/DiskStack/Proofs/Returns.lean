import DiskStack.Proofs.DiskOutcomes
import DiskStack.Proofs.Quiescence
import DiskStack.Proofs.Tidy

/-!
# Calls that return

A disk operation that has the drive to itself can always return, wherever it is: from every scene of
its run one can be reached in which it is done. Each node of its program is left behind in turn; at
those that wait, the controller and the handler can do what they wait for. None of its steps halts.
-/

namespace DiskStack

namespace Scene

variable {k : DriveParameters} {t : TaskId} {s s' : Scene} {l : List (Incident SectorCall)}
  {p : Program Reply}

/-- A scene of disk operations, with memory for two buffers apart from the rings. -/
structure Operates (k : DriveParameters) (s : Scene) : Prop where
  stored : ∃ st e, s.Stored k st e
  roomy : ∃ a a' : Arena, (a.reserve 0).1 ≠ (a'.reserve 0).1 ∧
    (s.machine.view k.bay).Tidy (a.reserve 0).1 ∧ (s.machine.view k.bay).Tidy (a'.reserve 0).1

theorem Operates.step (hs : s.Operates k) (h : Step (operating k) s l s') : s'.Operates k := by
  obtain ⟨st, e, hstored⟩ := hs.stored
  obtain ⟨a, a', hne, htidy, htidy'⟩ := hs.roomy
  have htidy_step : ∀ {place : UInt64}, (s.machine.view k.bay).Tidy place →
      (s'.machine.view k.bay).Tidy place := fun htidy =>
    hstored.attended.tidy_step (SectorCall.asks_program k.bay k.config) htidy h
  obtain ⟨st', e', hstored', -⟩ := hstored.step h
  exact ⟨⟨st', e', hstored'⟩, a, a', hne, htidy_step htidy, htidy_step htidy'⟩

private theorem Operates.exists_attended (hs : s.Operates k) : ∃ st, s.Attended k.bay st := by
  obtain ⟨st, e, hstored⟩ := hs.stored
  exact ⟨st, hstored.attended⟩

private theorem Operates.unparked (hs : s.Operates k) : (s.machine.view k.bay).Unparked := by
  obtain ⟨st, e, hstored⟩ := hs.stored
  exact hstored.unparked

/-- Disk operations of which one task at most has one. -/
structure Lone (k : DriveParameters) (t : TaskId) (s : Scene) : Prop extends s.Operates k where
  others : ∀ u, u ≠ t → (s.machine.view k.bay).activity u = .idle

private theorem Lone.idle_step (hs : s.Lone k t) (h : Step (operating k) s l s')
    (hnone : ∀ u c, .call u c ∉ l)
    {u : TaskId} (hu : u ≠ t) : (s'.machine.view k.bay).activity u = .idle := by
  obtain ⟨st, hattended⟩ := hs.exists_attended
  obtain ⟨turn, -⟩ := h.turn hattended.inOrder
  replace turn : Turn (operating k) s s' (s.machine.view k.bay) (s'.machine.view k.bay) l := turn
  have hidle := hs.others u hu
  have hact : ∀ {v : TaskId} {a : Activity}, (s.machine.view k.bay).activity v ≠ .idle →
      s'.machine.view k.bay = (s.machine.view k.bay).act v a →
      (s'.machine.view k.bay).activity u = .idle := fun {v a} hv hview => by
    have huv : u ≠ v := fun huv => by
      rw [huv] at hidle
      exact hv hidle
    rw [hview, View.act_of_ne _ huv, hidle]
  cases turn with
  | call v c => exact absurd (List.mem_singleton_self _) (hnone v c)
  | advance v arena _ hadv =>
    by_cases huv : u = v
    · subst huv
      generalize s'.machine.view k.bay = v' at hadv
      cases hadv with
      | rest => exact hidle
      | sleep p hp | stayUp p hp => cases hidle.symm.trans hp
      | run p _ _ hp => cases hidle.symm.trans hp
    · exact (hadv.activity_of_ne huv).trans hidle
  | rouse v p hasleep hview => exact hact (by rw [hasleep]; exact Activity.noConfusion) hview
  | reply v r hdone hview => exact hact (by rw [hdone]; exact Activity.noConfusion) hview
  | bringUp hstarts => rw [hstarts.still.1, hidle]
  | enter hview | leave hview => rw [hview, hidle]
  | handle point next hhandles => rw [hhandles.activity_eq, hidle]
  | device heads _ _ hd =>
    have hstill : (s'.machine.view k.bay).activity = _ := (Serves.still hd).1
    rw [hstill, hidle]

private theorem Lone.step (hs : s.Lone k t) (h : Step (operating k) s l s')
    (hnone : ∀ u c, .call u c ∉ l) : s'.Lone k t :=
  ⟨hs.toOperates.step h, fun _ hu => hs.idle_step h hnone hu⟩

theorem Lone.onward (hs : s.Lone k t) (h : Onward (operating k) s s') : s'.Lone k t := by
  obtain ⟨trace, run, hnone⟩ := h
  induction run with
  | refl => exact hs
  | step _ next ih =>
    refine (ih fun u c hc => hnone u c (List.mem_append_left _ hc)).step next fun u c hc => ?_
    exact hnone u c (List.mem_append_right _ hc)

/-- There is memory for one more buffer: of the two places, the task uses one at most. -/
private theorem Lone.exists_spares (hs : s.Lone k t) :
    ∃ arena, (s.machine.view k.bay).Spares arena := by
  obtain ⟨a, a', hne, htidy, htidy'⟩ := hs.roomy
  have honly : ∀ {u g}, (s.machine.view k.bay).stage u = some g → u = t := fun {u g} hg => by
    by_cases hu : u = t
    · exact hu
    · rw [View.stage_of_idle (hs.others u hu)] at hg
      cases hg
  by_cases hused : ∃ g q, (s.machine.view k.bay).stage t = some g ∧
      (s.machine.view k.bay).requests.find? g.request = some q ∧ q.address = (a.reserve 0).1
  · obtain ⟨g, q, hg, hq, haddress⟩ := hused
    refine ⟨a', htidy'.spares (fun u g' q' hg' hq' => ?_) rfl⟩
    cases honly hg'
    cases hg.symm.trans hg'
    cases hq.symm.trans hq'
    rw [haddress]
    exact hne
  · refine ⟨a, htidy.spares (fun u g q hg hq haddress => ?_) rfl⟩
    cases honly hg
    exact hused ⟨g, q, hg, hq, haddress⟩

private theorem quiet_took {m m' : Machine} {b : BayId} (u : TaskId) (c : SectorCall) :
    .call u c ∉ (if m.tookScratch m' b t then [.scratch t] else [] : List (Incident SectorCall)) := by
  split <;> simp

private theorem Lone.exists_does (hs : s.Lone k t) (hidle : s.handler = none)
    (hact : (s.machine.view k.bay).activity t = .running p) (hgoes : ∀ e, p ≠ .halt e) :
    ∃ s' arena a v', Onward (operating k) s s' ∧ s'.Lone k t ∧ s'.handler = none ∧
      View.Does k.bay t { s.machine.view k.bay with arena } p a v' ∧
      (s'.machine.view k.bay).activity t = a := by
  obtain ⟨st, hattended⟩ := hs.exists_attended
  obtain ⟨arena, hspares⟩ := hs.exists_spares
  obtain ⟨m, a, v', hstep, does, hm⟩ :=
    hattended.inOrder.exists_step (w := operating k) hidle hact hgoes hspares
  refine ⟨_, arena, a, v', .of_step hstep quiet_took, hs.step hstep quiet_took, hidle, does, ?_⟩
  exact (congrFun (congrArg View.activity hm.view) t).trans (View.act_self _)

private theorem Lone.exists_running (hs : s.Lone k t) (hidle : s.handler = none)
    (hp : ((s.machine.view k.bay).activity t).program? = some p) :
    ∃ s', Onward (operating k) s s' ∧ s'.Lone k t ∧ s'.handler = none ∧
      (s'.machine.view k.bay).activity t = .running p := by
  have hroused : ∀ {s : Scene}, s.Lone k t → s.handler = none →
      (s.machine.view k.bay).activity t = .asleep p →
      ∃ s', Onward (operating k) s s' ∧ s'.Lone k t ∧ s'.handler = none ∧
        (s'.machine.view k.bay).activity t = .running p := fun {s} hs hidle hasleep => by
    obtain ⟨st, hattended⟩ := hs.exists_attended
    have hstep : Step (operating k) s [] _ :=
      .rouse t p s.machine.waiting s.machine.runnable hasleep
    have ht : t < s.machine.tasks.size := Machine.lt_of_activity fun h => by
      cases hasleep.symm.trans h
    have hset := hattended.steady.shows.setActivity ht (.running p)
    have hquiet : ∀ u c, .call u c ∉ ([] : List (Incident SectorCall)) := fun _ _ =>
      List.not_mem_nil
    refine ⟨_, .of_step hstep hquiet, hs.step hstep hquiet, hidle, ?_⟩
    exact (congrFun (congrArg View.activity hset.view) t).trans (View.act_self _)
  cases hactivity : (s.machine.view k.bay).activity t with
  | idle =>
    rw [hactivity] at hp
    cases hp
  | running p' =>
    rw [hactivity] at hp
    cases hp
    exact ⟨s, .refl _ s, hs, hidle, hactivity⟩
  | asleep p' =>
    rw [hactivity] at hp
    cases hp
    exact hroused hs hidle hactivity
  | parking p' =>
    rw [hactivity] at hp
    cases hp
    obtain ⟨st, hattended⟩ := hs.exists_attended
    obtain ⟨arena, hspares⟩ := hs.exists_spares
    obtain ⟨m, v', hstep, hadv, hm⟩ :=
      hattended.inOrder.exists_advance (w := operating k) hidle (t := t)
        (fun e h => by cases hactivity.symm.trans h) hspares
    have honward := Onward.of_step hstep quiet_took
    have hs' := hs.step hstep quiet_took
    have hview : m.view k.bay = v' := hm.view
    cases hadv with
    | rest h => exact absurd hactivity (h p).2
    | run _ _ _ h => cases hactivity.symm.trans h
    | stayUp p' h =>
      cases hactivity.symm.trans h
      exact ⟨_, honward, hs', hidle, by rw [hview]; exact View.act_self _⟩
    | sleep p' h =>
      cases hactivity.symm.trans h
      obtain ⟨s', honward', hs'', hidle', hrun⟩ :=
        hroused hs' hidle (by rw [hview]; exact View.act_self _)
      exact ⟨s', honward.trans honward', hs'', hidle', hrun⟩

private theorem Lone.exists_finish (hs : s.Lone k t) (hidle : s.handler = none) {id : RequestId}
    {ticket : UInt64} {next : SubmitReply → Program Reply}
    (hp : ((s.machine.view k.bay).activity t).program? = some (.complete k.bay id ticket next)) :
    ∃ s' data, Onward (operating k) s s' ∧ s'.Lone k t ∧ s'.handler = none ∧
      (s'.machine.view k.bay).activity t = .running (next ⟨⟨.ok (), data⟩, false⟩) := by
  obtain ⟨s₁, honward₁, hs₁, -, hact₁⟩ := hs.exists_running hidle hp
  obtain ⟨st₁, hattended⟩ := hs₁.exists_attended
  -- with nothing in flight, the request is pending no more
  obtain ⟨s₂, st₂, honward₂, hs₂, hidle₂, hact₂, hvacant⟩ :=
    hattended.exists_vacant (SectorCall.program k.bay k.config)
  have hact : (s₂.machine.view k.bay).activity t = .running (.complete k.bay id ticket next) := by
    rw [hact₂, hact₁]
  have hlone := hs₁.onward honward₂
  obtain ⟨s', arena, a, v', honward', hs', hidle', does, hself⟩ :=
    hlone.exists_does hidle₂ hact fun e h => by cases h
  cases does with
  | wait _ _ _ h =>
    have hprogram : ((s₂.machine.view k.bay).activity t).program? =
        some (.complete k.bay id ticket next) := by
      rw [hact]
      rfl
    rw [RequestTable.isPending, Option.any_eq_true] at h
    obtain ⟨q, hq, hpending⟩ := h
    obtain ⟨head, hentry⟩ := (hs₂.serving.orderly.kept st₂ hs₂.serving.ready).pending t id ticket q
      (View.stage_eq hprogram) hq hpending
    exact absurd (Rings.isHead_of_entryAt hentry) (hvacant head)
  | finish _ _ _ q _ _ =>
    exact ⟨s', q.data, (honward₁.trans honward₂).trans honward', hs', hidle', hself⟩

/-! ### Programs that come to their end -/

end Scene

namespace TaskPoint.Works

variable {k : DriveParameters} {image goal : Image} {holds : Prop} {y : Option SectorTurn}

private theorem not_halt (hcapacity : k.capacity.toNat < wordLimit - 1) {e : Halt} :
    ¬Works k image goal holds (.between (.halt e)) y := by
  intro h
  cases h with
  | asked _ _ _ hp => cases hp
  | locking _ _ _ hp => cases hp
  | working c q _ _ hp _ h =>
    cases q with
    | done o => cases hp
    | halt e => exact BlockProgram.not_reaches_halt hcapacity h
    | access a next => cases hp

private theorem not_holds_of_takeScratch {next : Bytes → Program Reply}
    (h : Works k image goal holds (.between (.takeScratch k.bay next)) y) : ¬holds := by
  cases h with
  | asked _ _ hn => exact hn
  | locking _ _ hn => exact hn
  | working c q _ _ hp => cases q <;> cases hp

end TaskPoint.Works

namespace Scene

variable {k : DriveParameters} {t : TaskId} {s s' : Scene} {p : Program Reply}

private theorem Lone.works (hs : s.Lone k t) (hasks : p.Asks k.bay)
    (hp : ((s.machine.view k.bay).activity t).program? = some p) :
    ∃ (d : AtomicDrive) (e : SectorStore), d.Serial k e ∧ d.scratch = (s.machine.view k.bay).scratch ∧
      d.point t = .between p ∧ ∀ u, u ≠ t → d.point u = .idle := by
  obtain ⟨st, e, hstored⟩ := hs.stored
  refine ⟨_, e, hstored.serial, rfl, View.point_of_asks hasks hp, fun u hu => View.point_of_idle ?_⟩
  rw [hs.others u hu]
  rfl

private theorem Lone.scratch_free (hs : s.Lone k t) {next : Bytes → Program Reply}
    (hasks : Program.Asks k.bay (.takeScratch k.bay next))
    (hp : ((s.machine.view k.bay).activity t).program? = some (.takeScratch k.bay next)) :
    (s.machine.view k.bay).scratch.held = false := by
  obtain ⟨d, e, hserial, hscratch, hpoint, hothers⟩ := hs.works hasks hp
  rw [← hscratch]
  refine hserial.agrees.free_of_not_isHeldBy fun u => ?_
  have hworks := hserial.works u
  by_cases hu : u = t
  · rw [hu, hpoint] at hworks
    rw [hu]
    exact hworks.not_holds_of_takeScratch
  · rw [hothers u hu] at hworks
    exact hworks.of_idle.2

private theorem Lone.underway (hs : s.Lone k t)
    (hp : ((s.machine.view k.bay).activity t).program? = some p) : p.Underway k.bay := by
  obtain ⟨st, hattended⟩ := hs.exists_attended
  exact hattended.serving.orderly.underway t p hp

/-- One can go on to a scene in which the call of the task is done. -/
def CanReturn (k : DriveParameters) (t : TaskId) (s : Scene) : Prop :=
  ∃ s' r, Onward (operating k) s s' ∧ s'.Lone k t ∧ s'.handler = none ∧
    (s'.machine.view k.bay).activity t = .running (.done r)

private theorem CanReturn.of_onward (h : Onward (operating k) s s') (h' : s'.CanReturn k t) :
    s.CanReturn k t := by
  obtain ⟨s'', r, honward, hrest⟩ := h'
  exact ⟨s'', r, h.trans honward, hrest⟩

private theorem Lone.exists_submitted (hs : s.Lone k t) (hidle : s.handler = none) {a : BlockAccess}
    {next : SubmitReply → Program Reply}
    (hact : (s.machine.view k.bay).activity t = .running (.submit k.bay a next)) :
    ∃ s' reply, Onward (operating k) s s' ∧ s'.Lone k t ∧ s'.handler = none ∧
      (s'.machine.view k.bay).activity t = .running (next reply) := by
  obtain ⟨s₁, arena, activity, v', honward, hs₁, hidle₁, does, hself⟩ :=
    hs.exists_does hidle hact fun e h => by cases h
  cases does with
  | refuse => exact ⟨s₁, _, honward, hs₁, hidle₁, hself⟩
  | submit _ _ sector st _ _ _ hpub =>
    cases hpub with
    | wait => exact absurd (View.stage_eq (congrArg Activity.program? hself)) (hs₁.unparked t _ _)
    | publish =>
      obtain ⟨s₂, data, honward₂, hs₂, hidle₂, hact₂⟩ :=
        hs₁.exists_finish hidle₁ (congrArg Activity.program? hself)
      exact ⟨s₂, _, honward.trans honward₂, hs₂, hidle₂, hact₂⟩

/-- A call on a drive whose capacity is a true one can return, wherever its program is. -/
private theorem Lone.canReturn (hcapacity : k.capacity.toNat < wordLimit - 1) (hs : s.Lone k t)
    (hidle : s.handler = none) (hp : ((s.machine.view k.bay).activity t).program? = some p) :
    s.CanReturn k t := by
  induction p generalizing s with
  | done r =>
    obtain ⟨s₁, honward, hs₁, hidle₁, hact⟩ := hs.exists_running hidle hp
    exact ⟨s₁, r, honward, hs₁, hidle₁, hact⟩
  | halt e =>
    obtain ⟨d, e', hserial, -, hpoint, -⟩ := hs.works (.halt e) hp
    have hworks := hserial.works t
    rw [hpoint] at hworks
    exact absurd hworks (TaskPoint.Works.not_halt hcapacity)
  | inspect bay next ih =>
    cases (hs.underway hp).asks_of_stage? rfl with
    | inspect _ _ =>
      obtain ⟨s₁, honward₁, hs₁, hidle₁, hact₁⟩ := hs.exists_running hidle hp
      obtain ⟨s₂, arena, activity, v', honward₂, hs₂, hidle₂, does, hact₂⟩ :=
        hs₁.exists_does hidle₁ hact₁ fun e h => by cases h
      cases does
      exact .of_onward (honward₁.trans honward₂)
        (ih _ hs₂ hidle₂ (congrArg Activity.program? hact₂))
  | submit bay a next ih =>
    cases (hs.underway hp).asks_of_stage? rfl with
    | submit _ _ _ =>
      obtain ⟨s₁, honward₁, hs₁, hidle₁, hact₁⟩ := hs.exists_running hidle hp
      obtain ⟨s₂, reply, honward₂, hs₂, hidle₂, hact₂⟩ := hs₁.exists_submitted hidle₁ hact₁
      exact .of_onward (honward₁.trans honward₂) (ih _ hs₂ hidle₂ (congrArg Activity.program? hact₂))
  | publish bay id sector next => exact absurd (View.stage_eq hp) (hs.unparked t id sector)
  | complete bay id ticket next ih =>
    cases hs.underway hp with
    | asks _ h => cases h
    | complete _ _ _ _ =>
      obtain ⟨s₁, data, honward, hs₁, hidle₁, hact⟩ := hs.exists_finish hidle hp
      exact .of_onward honward (ih _ hs₁ hidle₁ (congrArg Activity.program? hact))
  | takeScratch bay next ih =>
    cases (hs.underway hp).asks_of_stage? rfl with
    | takeScratch _ hnext =>
      obtain ⟨s₁, honward₁, hs₁, hidle₁, hact₁⟩ := hs.exists_running hidle hp
      have hfree := hs₁.scratch_free (.takeScratch next hnext) (congrArg Activity.program? hact₁)
      obtain ⟨s₂, arena, activity, v', honward₂, hs₂, hidle₂, does, hact₂⟩ :=
        hs₁.exists_does hidle₁ hact₁ fun e h => by cases h
      cases does with
      | awaitScratch _ h => exact nomatch hfree.symm.trans h
      | takeScratch =>
        exact .of_onward (honward₁.trans honward₂)
          (ih _ hs₂ hidle₂ (congrArg Activity.program? hact₂))
  | giveScratch bay value next ih =>
    cases (hs.underway hp).asks_of_stage? rfl with
    | giveScratch _ _ _ =>
      obtain ⟨s₁, honward₁, hs₁, hidle₁, hact₁⟩ := hs.exists_running hidle hp
      obtain ⟨s₂, arena, activity, v', honward₂, hs₂, hidle₂, does, hact₂⟩ :=
        hs₁.exists_does hidle₁ hact₁ fun e h => by cases h
      cases does
      exact .of_onward (honward₁.trans honward₂)
        (ih hs₂ hidle₂ (congrArg Activity.program? hact₂))
  | takeLock lock next => cases (hs.underway hp).asks_of_stage? rfl
  | passGate gate waits next => cases (hs.underway hp).asks_of_stage? rfl

theorem Lone.exists_reply (hcapacity : k.capacity.toNat < wordLimit - 1) (hs : s.Lone k t)
    (hp : ((s.machine.view k.bay).activity t).program? = some p) :
    ∃ trace s' r, Run (operating k) s trace s' ∧ (∀ u c, .call u c ∉ trace) ∧ .reply t r ∈ trace := by
  obtain ⟨st, hattended⟩ := hs.exists_attended
  obtain ⟨s₁, -, honward, -, hidle₁, hact₁⟩ :=
    hattended.exists_unhandled (SectorCall.program k.bay k.config)
  have hs₁ := hs.onward honward
  have hreturn := hs₁.canReturn hcapacity hidle₁ (hact₁ ▸ hp)
  obtain ⟨s₂, r, honward₂, -, -, hdone⟩ := hreturn.of_onward honward
  obtain ⟨trace, run, hnone⟩ := honward₂
  refine ⟨trace ++ [.reply t r], _, r, run.step (.reply t r hdone), fun u c hc => ?_, by simp⟩
  rcases List.mem_append.1 hc with hc | hc
  · exact hnone u c hc
  · cases List.mem_singleton.1 hc

theorem Operates.not_halts (hcapacity : k.capacity.toNat < wordLimit - 1) (hs : s.Operates k)
    (u : TaskId) (arena : Arena) (h : Halt) (m : Machine) :
    (DiskStack.Run.advance u).run.run { s.machine with arena } ≠ (.error h, m) := by
  intro hrun
  obtain ⟨st, e, hstored⟩ := hs.stored
  obtain ⟨h', hpoint⟩ := hstored.attended.halts hrun
  have hworks := hstored.serial.works u
  rw [hpoint] at hworks
  exact hworks.not_halt hcapacity

theorem Operates.handler_not_halts (hs : s.Operates k) {point : DiskStack.Run.CompletionPoint}
    (hpoint : s.handler = some point) (h : Halt) (m : Machine) :
    (DiskStack.Run.completionStep k.bay point).run.run s.machine ≠ (.error h, m) := by
  obtain ⟨st, hattended⟩ := hs.exists_attended
  obtain ⟨next, m', hrun⟩ := hattended.handler_ok hpoint
  rw [hrun]
  exact fun hc => by cases hc

end Scene

end DiskStack
