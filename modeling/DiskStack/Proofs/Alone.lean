import DiskStack.Proofs.Service

/-!
# Drives that serve one task at a time

While nobody submits as long as another task is inside of a submission, a drive has one request in
flight at most, so there are always descriptors left and no task ever waits for them.
-/

namespace DiskStack

namespace View

variable {b : BayId} {v v' : View} {s : ReadyState} {t u : TaskId} {unreported : List UInt16}
  {handler : Option Run.CompletionPoint}

/-- No task waits for descriptors, or has been woken up to try again. -/
def Unparked (v : View) : Prop := ∀ t id sector, v.stage t ≠ some (.publish id sector)

/-- A node that leaves its task waiting for descriptors has found too few of them for a submission. -/
private theorem Orderly.short_of_does (ho : v.Orderly b) (hnone : v.Unparked) {p : Program Reply}
    {a : Activity} {v₁ : View} (hrunning : v.activity t = .running p) (does : v.Does b t p a v₁)
    {id : RequestId} {sector : Nat}
    (hwaits : a.program?.bind Program.stage? = some (.publish id sector)) :
    ∃ acc next s, p = .submit b acc next ∧ v.state = .ready s ∧ s.rings.queue.pool.numFree < 3 := by
  have hprogram : (v.activity t).program? = some p := by rw [hrunning]; rfl
  have hunder := ho.underway t p hprogram
  have hasked : ∀ {p' : Program Reply}, p'.Asks b →
      (Activity.running p').program?.bind Program.stage? ≠ some (.publish id sector) :=
    fun hp' hw => by
      rw [show (Activity.running _).program?.bind Program.stage? = none from hp'.stage?] at hw
      cases hw
  cases does with
  | done => cases hwaits
  | inspect next => exact absurd hwaits (hasked (hunder.of_inspect _))
  | refuse acc next => exact absurd hwaits (hasked (hunder.of_submit _))
  | submit acc next sector' s activity _ haccept hpub =>
    cases hpub with
    | wait hshort =>
      obtain ⟨hs, -⟩ := ready_of_accepts haccept
      exact ⟨acc, next, s, rfl, hs, hshort⟩
    | publish => cases hwaits
  | publish id' sector' next => exact absurd (stage_eq hprogram) (hnone t id' sector')
  | unready id' sector' next => exact absurd (stage_eq hprogram) (hnone t id' sector')
  | wait => cases hwaits
  | finish id' ticket next => exact absurd hwaits (hasked (hunder.of_complete _))
  | takeScratch next => exact absurd hwaits (hasked (hunder.of_takeScratch _))
  | awaitScratch => cases hwaits
  | giveScratch value next => exact absurd hwaits (hasked hunder.of_giveScratch)

/-- A task that comes to wait for descriptors has found too few of them for a submission. -/
private theorem Orderly.short_of_waits (ho : v.Orderly b) (hnone : v.Unparked) (h : v.Advances b t v')
    {id : RequestId} {sector : Nat} (hwaits : v'.stage u = some (.publish id sector)) :
    ∃ a next s, v.activity t = .running (.submit b a next) ∧ v.state = .ready s ∧
      s.rings.queue.pool.numFree < 3 := by
  have hkept : ∀ {a : Activity} {p : Program Reply}, (v.activity t).program? = some p →
      a.program? = some p → (v.act t a).stage u ≠ some (.publish id sector) := fun hp ha hw => by
    rw [stage_act, ha, ← hp] at hw
    split at hw
    · exact hnone t id sector hw
    · exact hnone u id sector hw
  cases h with
  | rest => exact absurd hwaits (hnone u id sector)
  | sleep p hp => exact absurd hwaits (hkept (by rw [hp]; rfl) rfl)
  | stayUp p hp => exact absurd hwaits (hkept (by rw [hp]; rfl) rfl)
  | run p a v₁ hp does =>
    have hother : v₁.stage u = v.stage u := by rw [stage, stage, does.activity_eq]
    rw [stage_act, hother] at hwaits
    split at hwaits
    · obtain ⟨acc, next, s, rfl, hs, hshort⟩ := ho.short_of_does hnone hp does hwaits
      exact ⟨acc, next, s, hp, hs, hshort⟩
    · exact absurd hwaits (hnone u id sector)

private theorem Serving.unparked_advances (hv : v.Serving b s unreported handler)
    (alone : (v.atomic s).Alone (v.parameters b s)) (hnone : v.Unparked) (h : v.Advances b t v') :
    v'.Unparked := by
  intro u id sector hwaits
  obtain ⟨a, next, s', hrunning, hs', hshort⟩ := hv.orderly.short_of_waits hnone h hwaits
  cases hv.ready.symm.trans hs'
  have hprogram : (v.activity t).program? = some (.submit b a next) := by rw [hrunning]; rfl
  have hasks := (hv.orderly.underway t _ hprogram).asks_of_stage? rfl
  have hvacant := hv.not_isHead alone (.inl ⟨a, next, point_of_asks hasks hprogram⟩)
  have hbalanced := (hv.orderly.kept s hv.ready).balanced
  have hzero := Rings.inFlightCount_eq_zero hbalanced.sound hvacant
  have hcounted := hbalanced.counted
  have hleast := hbalanced.sound.least
  omega

theorem Serving.inFlightCount_le_one (hv : v.Serving b s unreported handler)
    (alone : (v.atomic s).Alone (v.parameters b s)) : s.rings.inFlightCount ≤ 1 := by
  have hk := hv.orderly.kept s hv.ready
  have hpublisher : ∀ h, s.rings.IsHead h → ∃ t e next, s.rings.entryAt h.toNat = some e ∧
      (v.activity t).program? = some (.complete b e.request e.ticket next) := fun h hh => by
    obtain ⟨e, he⟩ := Option.isSome_iff_exists.1 hh
    obtain ⟨t, q, ht, -⟩ := hk.entered h e he
    obtain ⟨next, hprogram⟩ := hv.orderly.program_of_stage ht
    exact ⟨t, e, next, he, hprogram⟩
  apply Rings.inFlightCount_le_one hk.balanced.sound
  intro h k hh hk'
  obtain ⟨t, e, next, he, ht⟩ := hpublisher h hh
  obtain ⟨u, e', next', he', hu⟩ := hpublisher k hk'
  have htu : t = u := alone t u _ _ (point_of_complete (s := s) ht)
    (.inl ⟨_, _, point_of_complete (s := s) hu⟩)
  rw [htu, hu, Option.some.injEq] at ht
  injection ht with _ hid
  exact hk.unique h k e e' he he' hid.symm

end View

namespace Scene

variable {γ : Type} {b : BayId} {program : γ → Program Reply} {s s' : Scene} {st : ReadyState}
  {l : List (Incident γ)}

private theorem Serves.stage_eq {heads : List UInt16} (h : Serves b s heads s') (t : TaskId) :
    (s'.machine.view b).stage t = (s.machine.view b).stage t := by
  rw [View.stage, View.stage, h.still.1]

/-- No step at a drive whose tasks leave each other alone makes a task wait for descriptors. -/
theorem Attended.unparked (hs : s.Attended b st) (alone : (s.atomic b st).Alone (s.parameters b st))
    (hasks : ∀ c, (program c).Asks b) (hnone : (s.machine.view b).Unparked)
    (h : Step (served b program) s l s') : (s'.machine.view b).Unparked := by
  obtain ⟨turn, -⟩ := h.turn hs.inOrder
  have hv := hs.serving
  replace turn : Turn (served b program) s s' (s.machine.view b) (s'.machine.view b) l := turn
  have hact : ∀ {t : TaskId} {a : Activity}, s'.machine.view b = (s.machine.view b).act t a →
      a.program?.bind Program.stage? = none ∨
        a.program?.bind Program.stage? = (s.machine.view b).stage t →
      (s'.machine.view b).Unparked := fun {t a} hview ha u id sector hw => by
    rw [hview, View.stage_act] at hw
    split at hw
    · rcases ha with ha | ha
      · rw [ha] at hw
        cases hw
      · rw [ha] at hw
        exact hnone t id sector hw
    · exact hnone u id sector hw
  cases turn with
  | call t c _ hview => exact hact hview (.inl (hasks c).stage?)
  | advance t arena _ hadv =>
    exact (hv.setArena arena).unparked_advances alone hnone hadv
  | rouse t p hasleep hview =>
    apply hact hview
    rw [View.stage, show (s.machine.view b).activity t = .asleep p from hasleep]
    exact .inr rfl
  | reply t r _ hview => exact hact hview (.inl rfl)
  | bringUp hstarts =>
    intro t id sector hw
    rw [View.stage, hstarts.still.1] at hw
    exact hnone t id sector hw
  | enter hview | leave hview =>
    rw [hview]
    exact hnone
  | handle point next hhandles =>
    intro t id sector hw
    rw [View.stage, hhandles.activity_eq] at hw
    exact hnone t id sector hw
  | device heads _ _ hd =>
    intro t id sector hw
    rw [hd.stage_eq] at hw
    exact hnone t id sector hw

end Scene

end DiskStack
