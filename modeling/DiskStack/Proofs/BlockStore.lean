import DiskStack.Proofs.Ownership
import DiskStack.Proofs.Rest

/-!
# Submissions as calls at a block store

A block store has an image and answers one access per task, each at once. To tasks that submit
requests of their own to a served drive, in any interleaving and with any number of them in flight,
the drive is a block store: it carries out each accepted access once, between the call and its return,
and no step of it halts.
-/

namespace DiskStack

inductive StoreCall
  | asked (a : BlockAccess)
  | answered (r : SubmitReply)

structure BlockStore where
  image : Image
  calls : TaskId → Option StoreCall

namespace BlockStore

def put (d : BlockStore) (t : TaskId) (x : Option StoreCall) : BlockStore :=
  { d with calls := fun u => if u = t then x else d.calls u }

private theorem put_self {d : BlockStore} {t : TaskId} {x : Option StoreCall} (h : d.calls t = x) :
    d.put t x = d := by
  have hcalls : (fun u => if u = t then x else d.calls u) = d.calls := funext fun u => by
    split
    · next hu => rw [hu, h]
    · rfl
  rw [put, hcalls]

inductive Step (k : DriveParameters) (d : BlockStore) : List (Incident BlockAccess) → BlockStore → Prop
  | still : Step k d [] d
  | call (t : TaskId) (a : BlockAccess) (h : d.calls t = none) :
    Step k d [.call t a] (d.put t (some (.asked a)))
  | refuse (t : TaskId) (a : BlockAccess) (e : BlockError) (h : d.calls t = some (.asked a))
    (hv : k.verdict a = .error e) :
    Step k d [] (d.put t (some (.answered ⟨⟨.error e, a.data⟩, false⟩)))
  | execute (t : TaskId) (a : BlockAccess) (h : d.calls t = some (.asked a))
    (hv : k.verdict a = .ok ()) :
    Step k d [.execute t]
      ({ d with image := (d.image.perform k.config.sectorsPerBlock a).2 }.put t
        (some (.answered ⟨⟨.ok (), (d.image.perform k.config.sectorsPerBlock a).1⟩, false⟩)))
  | reply (t : TaskId) (r : SubmitReply) (h : d.calls t = some (.answered r)) :
    Step k d [.reply t (.block r)] (d.put t none)

abbrev Run (k : DriveParameters) : BlockStore → List (Incident BlockAccess) → BlockStore → Prop :=
  Runs (Step k)

def isAccepted (k : DriveParameters) (t : TaskId) : Incident BlockAccess → Bool
  | .call u a => u == t && (k.verdict a).toBool
  | _ => false

def isExecuted (t : TaskId) : Incident BlockAccess → Bool
  | .execute u => u == t
  | _ => false

def awaits (k : DriveParameters) : Option StoreCall → Bool
  | some (.asked a) => (k.verdict a).toBool
  | _ => false

variable {k : DriveParameters} {d d' : BlockStore} {l trace : List (Incident BlockAccess)}

private theorem calls_put (d : BlockStore) (t u : TaskId) (x : Option StoreCall) :
    (d.put t x).calls u = if u = t then x else d.calls u := rfl

theorem Step.once (h : Step k d l d') (t : TaskId) :
    l.countP (isAccepted k t) + (awaits k (d.calls t)).toNat =
      l.countP (isExecuted t) + (awaits k (d'.calls t)).toNat := by
  cases h with
  | still => rfl
  | call u a h =>
    rw [calls_put]
    by_cases hu : t = u
    · subst hu
      rw [h, if_pos rfl]
      cases hv : k.verdict a <;> simp [isAccepted, isExecuted, awaits, hv, Except.toBool]
    · simp [isAccepted, isExecuted, hu, Ne.symm hu]
  | refuse u a e h hv =>
    rw [calls_put]
    by_cases hu : t = u
    · subst hu
      rw [h, if_pos rfl]
      simp [awaits, hv, Except.toBool]
    · rw [if_neg hu]
      rfl
  | execute u a h hv =>
    rw [calls_put]
    by_cases hu : t = u
    · subst hu
      rw [h, if_pos rfl]
      simp [isAccepted, isExecuted, awaits, hv, Except.toBool]
    · simp [isAccepted, isExecuted, hu, Ne.symm hu]
  | reply u r h =>
    rw [calls_put]
    by_cases hu : t = u
    · subst hu
      rw [h, if_pos rfl]
      rfl
    · rw [if_neg hu]
      rfl

private theorem Run.once (h : Run k d trace d') (hd : ∀ t, d.calls t = none) (t : TaskId) :
    trace.countP (isAccepted k t) =
      trace.countP (isExecuted t) + (awaits k (d'.calls t)).toNat := by
  induction h with
  | refl =>
    rw [hd t]
    rfl
  | step _ step ih =>
    have honce := step.once t
    rw [List.countP_append, List.countP_append]
    omega

end BlockStore

/-- The call of a task that submits requests of its own. -/
def TaskPoint.call? : TaskPoint → Option StoreCall
  | .between (.submit _ a _) | .inside (.waiting a) _ => some (.asked a)
  | .between (.done (.block r)) => some (.answered r)
  | .inside (.served data) _ => some (.answered ⟨⟨.ok (), data⟩, false⟩)
  | _ => none

/-- Where a task may be whose calls are single submissions. -/
inductive TaskPoint.Submits (k : DriveParameters) : TaskPoint → Prop
  | idle : Submits k .idle
  | submit (a : BlockAccess) : Submits k (.between (.submit k.bay a .answer))
  | waiting (a : BlockAccess) (hv : k.verdict a = .ok ()) :
    Submits k (.inside (.waiting a) .answer)
  | served (data : Bytes) : Submits k (.inside (.served data) .answer)
  | done (r : SubmitReply) : Submits k (.between (.done (.block r)))

def Program.submission (b : BayId) (a : BlockAccess) : Program Reply := .submit b a .answer

private theorem Program.asks_submission (b : BayId) (a : BlockAccess) : (submission b a).Asks b :=
  .submit a _ fun _ => .done _

namespace AtomicDrive

variable {k : DriveParameters} {d d' : AtomicDrive} {l : List (Incident BlockAccess)}

def store (d : AtomicDrive) : BlockStore := ⟨d.image, fun t => (d.point t).call?⟩

private theorem store_move (d : AtomicDrive) (t : TaskId) (x : TaskPoint) :
    (d.move t x).store = d.store.put t x.call? := by
  have hcalls : (fun u => ((d.move t x).point u).call?) =
      fun u => if u = t then x.call? else (d.point u).call? := funext fun u => by
    rw [point_move]
    split <;> rfl
  rw [store, hcalls]
  rfl

private theorem submits_move (hd : ∀ t, (d.point t).Submits k) {t : TaskId} {x : TaskPoint}
    (hx : x.Submits k)
    (u : TaskId) : ((d.move t x).point u).Submits k := by
  rw [point_move]
  split
  · exact hx
  · exact hd u

/-- A step of an atomic drive with single submissions is a step of the block store. -/
theorem Step.store (hd : ∀ t, (d.point t).Submits k)
    (h : Step (Program.submission k.bay) k d l d') :
    (∀ t, (d'.point t).Submits k) ∧ BlockStore.Step k d.store l d'.store := by
  have hcall : ∀ {t : TaskId} {x : TaskPoint}, d.point t = x → d.store.calls t = x.call? := fun h =>
    congrArg TaskPoint.call? h
  have hsubmits : ∀ {t : TaskId} {x : TaskPoint}, d.point t = x → x.Submits k := fun h => h ▸ hd _
  cases h with
  | still => exact ⟨hd, .still⟩
  | call t a h =>
    refine ⟨submits_move hd (.submit a), ?_⟩
    rw [store_move]
    exact .call t a (hcall h)
  | reply t r h =>
    refine ⟨submits_move hd .idle, ?_⟩
    cases hsubmits h with
    | done r =>
      rw [store_move]
      exact .reply t r (hcall h)
  | inspect t next s hs h => cases hsubmits h
  | refuse t a next e h hv =>
    cases hsubmits h with
    | submit =>
      refine ⟨submits_move hd (.done _), ?_⟩
      rw [store_move]
      exact .refuse t a e (hcall h) hv
  | submit t a next h hv =>
    cases hsubmits h with
    | submit =>
      refine ⟨submits_move hd (.waiting a hv), ?_⟩
      -- an access that is accepted has still been asked for and no more
      have hasked : d.store.calls t = some (.asked a) := hcall h
      have hsame : (d.move t (.inside (.waiting a) .answer)).store = d.store :=
        (store_move ..).trans (BlockStore.put_self hasked)
      rw [hsame]
      exact .still
  | execute t a next h =>
    cases hsubmits h with
    | waiting _ hv =>
      refine ⟨submits_move hd (.served _), ?_⟩
      rw [store_move]
      exact .execute t a (hcall h) hv
  | finish t data next h =>
    cases hsubmits h with
    | served =>
      refine ⟨submits_move hd (.done _), ?_⟩
      have hanswered : d.store.calls t = some (.answered ⟨⟨.ok (), data⟩, false⟩) := hcall h
      have hsame : (d.move t (.between (.answer ⟨⟨.ok (), data⟩, false⟩))).store = d.store :=
        (store_move ..).trans (BlockStore.put_self hanswered)
      rw [hsame]
      exact .still
  | takeScratch t next h => cases hsubmits h
  | giveScratch t value next h => cases hsubmits h

private theorem Run.store (hd : ∀ t, (d.point t).Submits k)
    (h : Run (Program.submission k.bay) k d l d') :
    (∀ t, (d'.point t).Submits k) ∧ BlockStore.Run k d.store l d'.store := by
  obtain ⟨_, hrun, hend, rfl⟩ := h.simulated (BlockStore.Step k)
    (fun d x => (∀ t, (d.point t).Submits k) ∧ x = d.store) ⟨hd, rfl⟩ fun d l d' x hx step => by
      obtain ⟨hmid, rfl⟩ := hx
      obtain ⟨hend, hstep⟩ := step.store hmid
      exact ⟨d'.store, hstep, hend, rfl⟩
  exact ⟨hend, hrun⟩

end AtomicDrive

namespace Scene

/-- What a block store has to do with a scene: it has the image of the drive, and each task is in the
call that the store has for it, with the bytes of its buffer. -/
structure Realizes (s : Scene) (b : BayId) (d : BlockStore) : Prop where
  image : (s.machine.bay b).controller.image = d.image
  idle : ∀ t, (s.machine.task t).activity.program? = none → d.calls t = none
  asked : ∀ t a, (s.machine.task t).activity.program? = some (.submission b a) →
    d.calls t = some (.asked a)
  entered : ∀ t id sector next,
    (s.machine.task t).activity.program? = some (.publish b id sector next) →
      ∃ q, s.machine.requests.find? id = some q ∧ d.calls t = some (.asked q.access)
  published : ∀ t id ticket next,
    (s.machine.task t).activity.program? = some (.complete b id ticket next) →
      ∃ q, s.machine.requests.find? id = some q ∧
        (d.calls t = some (.asked q.access) ∨
          d.calls t = some (.answered ⟨⟨.ok (), q.data⟩, false⟩))
  answered : ∀ t r, (s.machine.task t).activity.program? = some (.done (.block r)) →
    d.calls t = some (.answered r)

variable {b : BayId} {m : Machine} {st : ReadyState} {s : Scene}

private theorem Attended.realizes (hs : s.Attended b st) : s.Realizes b (s.atomic b st).store where
  image := rfl
  idle t h := congrArg TaskPoint.call? (View.point_of_idle h)
  asked t a h := congrArg TaskPoint.call? (View.point_of_asks (Program.asks_submission b a) h)
  entered t id sector next h := by
    have hprogram : ((s.machine.view b).activity t).program? = some (.publish b id sector next) := h
    obtain ⟨q, hfind, -⟩ := hs.serving.orderly.live t _ (View.stage_eq hprogram)
    have hq : (s.machine.view b).requests.find? id = some q := hfind
    have hpoint := View.point_of_publish (s := st) hprogram
    rw [View.accessOf_of_find? hq] at hpoint
    exact ⟨q, hq, congrArg TaskPoint.call? hpoint⟩
  published t id ticket next h := by
    have hprogram : ((s.machine.view b).activity t).program? = some (.complete b id ticket next) := h
    obtain ⟨q, hfind, -⟩ := hs.serving.orderly.live t _ (View.stage_eq hprogram)
    have hq : (s.machine.view b).requests.find? id = some q := hfind
    have hpoint := View.point_of_complete (s := st) hprogram
    rw [View.standingOf, View.accessOf_of_find? hq] at hpoint
    refine ⟨q, hq, ?_⟩
    split at hpoint
    · exact .inl (congrArg TaskPoint.call? hpoint)
    · exact .inr (congrArg TaskPoint.call? hpoint)
  answered t r h := by
    have hprogram : ((s.machine.view b).activity t).program? = some (.done (.block r)) := h
    exact congrArg TaskPoint.call? (View.point_of_asks (s := st) (Program.Asks.done (b := b) _) hprogram)

/-- Submissions at a block store. Tasks submit requests of their own to a ready drive whose queue size
divides 2^16, in any interleaving with the controller and the completion handler. Then what they see
is what they would see of a block store under the drive's terms: each accepted access is carried out
once and at once, at a moment between its call and its reply, on the image as it is then and on the
buffer of its caller only; and the request is pending no more when the call returns. No step of a
task or of the handler halts. -/
theorem blockStore_of_run (rest : m.AtRest b st)
    (power : (m.bay b).drive.config.queueSize.toNat ∣ 65536) {trace : List (Incident BlockAccess)}
    (run : Run (served b (Program.submission b)) { machine := m } trace s) :
    (∃ d, BlockStore.Run (parameters { machine := m } b st)
        ⟨(m.bay b).controller.image, fun _ => none⟩ trace d ∧ s.Realizes b d) ∧
      (∀ t, (s.machine.task t).activity = .idle →
        trace.countP (BlockStore.isExecuted t) =
          trace.countP (BlockStore.isAccepted (parameters { machine := m } b st) t)) ∧
      (∀ t arena e m',
        (DiskStack.Run.advance t).run.run { s.machine with arena } ≠ (.error e, m')) ∧
      (∀ point, s.handler = some point → ∃ next m',
        (DiskStack.Run.completionStep b point).run.run s.machine = (.ok next, m')) ∧
      ∃ r m', (DiskStack.Run.bringUp b).run.run s.machine = (.ok r, m') := by
  obtain ⟨st', hs, hparameters, hrun⟩ := (attended_of_atRest rest).run (Program.asks_submission b)
    power run
  have hidle : ∀ t, ((atomic { machine := m } b st).point t).Submits (parameters { machine := m } b st) :=
    fun t => by
      rw [atomic_of_atRest rest]
      exact .idle
  obtain ⟨hsubmits, hstore⟩ := hrun.store hidle
  rw [atomic_of_atRest rest] at hstore
  refine ⟨⟨_, hstore, hs.realizes⟩, fun t ht => ?_, fun t arena e m' h => ?_,
    fun _ => hs.handler_ok, ?_⟩
  · have honce := hstore.once (fun _ => rfl) t
    rw [hs.realizes.idle t (by rw [ht]; rfl)] at honce
    exact honce.symm
  · obtain ⟨e', he'⟩ := hs.halts h
    have ht := hsubmits t
    rw [he'] at ht
    cases ht
  · have hends := DiskStack.Run.ends_bringUp hs.steady.shows
    rw [DiskStack.Run.Ends] at hends
    obtain ⟨⟨r, hr⟩, -⟩ := hends
    exact ⟨r, _, Prod.ext hr rfl⟩

/-- One task writes the first block of the drive and another one reads the second. The read is carried out,
reported and answered before the write is carried out. -/
def readFirst : List (Choice BlockAccess Service) :=
  [.call 1 blockWrite_sample, .advance 1, .advance 1, .call 2 blockRead_sample, .advance 2, .advance 2,
    .device .take, .device .take, .device (.execute 3), .device (.report 3 1024), .interrupt, .handle,
    .handle, .handle, .handle, .handle, .leave, .rouse 2, .advance 2, .reply 2, .device (.execute 0)]

/-- Two requests are in flight on the sample machine at once, and the later one is executed and returns
first: the block store has carried out the read and then the write. -/
theorem blockStore_of_run_sample :
    ∃ (st : ReadyState) (trace : List (Incident BlockAccess)) (s : Scene) (st' : ReadyState)
      (d : BlockStore), Machine.readySample.AtRest 0 st ∧
        (Machine.readySample.bay 0).drive.config.queueSize.toNat ∣ 65536 ∧
        Run (served 0 (Program.submission 0)) { machine := Machine.readySample } trace s ∧
        trace.filterMap Incident.execute? = [2, 1] ∧ (s.machine.bay 0).drive.state = .ready st' ∧
        st'.rings.entryAt (UInt16.toNat 0) = some ⟨0, 0⟩ ∧
        BlockStore.Run (parameters { machine := Machine.readySample } 0 st)
          ⟨(Machine.readySample.bay 0).controller.image, fun _ => none⟩ trace d ∧ s.Realizes 0 d ∧
        trace.countP (BlockStore.isExecuted 2) =
          trace.countP (BlockStore.isAccepted (parameters { machine := Machine.readySample } 0 st) 2) := by
  obtain ⟨st, rest, hparameters, -⟩ := Machine.exists_atRest_sample
  obtain ⟨trace, s, st', run, ready, order, first, idle⟩ := exists_run_of_play
    (server 0 (Program.submission 0)) { machine := Machine.readySample } readFirst
    (fun trace s st => trace.filterMap Incident.execute? = [2, 1] ∧
      st.rings.entryAt (UInt16.toNat 0) = some ⟨0, 0⟩ ∧
      s.machine.isIdle 2 = true) (by decide +kernel)
  generalize Machine.readySample = m at *
  have power : (m.bay 0).drive.config.queueSize.toNat ∣ 65536 := by
    rw [show (m.bay 0).drive.config = {} from congrArg DriveParameters.config hparameters]
    decide
  obtain ⟨⟨d, hstore, hrealizes⟩, honce, -⟩ := blockStore_of_run rest power run
  exact ⟨st, trace, s, st', d, rest, power, run, order, ready, first, hstore, hrealizes,
    honce 2 (Machine.idle_of_isIdle idle)⟩

end Scene

end DiskStack
