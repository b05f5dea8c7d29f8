import PyFaaS.Deactivation

/-!
# The deletion of a function

A function goes with its versions, activations and schedules, and its executions
stay under the user who deletes it, with the time of the deletion as their
`updated_at`. In a reachable database nothing else names a row that is gone, so the
statements of the route and the foreign keys of the tables change no other row.
-/

namespace PyFaaS.Database

variable {s : Database} {u functionId : Uuid} {now : Time}

def detached (functionId user : Uuid) (e : Execution) : Execution :=
  if e.functionId = some functionId then
    { e with functionId := none, functionVersionId := none, scheduleId := none, triggeredBy := some user }
  else e

def withoutFunction (functionId user : Uuid) (now : Time) (db : Database) : Database where
  functions := db.functions.filter fun f => !decide (f.id = functionId)
  versions := db.versions.filter fun v => !decide (v.functionId = functionId)
  activations := db.activations.filter fun a => !decide (a.functionId = functionId)
  schedules := db.schedules.filter fun r => !decide (r.functionId = functionId)
  apiKeys := db.apiKeys
  executions := db.executions.map (detached functionId user)
  logs := db.logs
  executionsUpdatedAt := (db.touchExecutions (fun e => decide (e.functionId = some functionId)) now).executionsUpdatedAt

structure Detached (db : Database) (functionId : Uuid) (versionIds scheduleIds : List Uuid) : Prop where
  functions : ∀ f ∈ db.functions, f.id ≠ functionId ∧
    ∀ id ∈ versionIds, f.activeVersionId ≠ some id ∧ f.canaryVersionId ≠ some id
  versions : ∀ v ∈ db.versions, v.functionId ≠ functionId ∧ v.id ∉ versionIds
  activations : ∀ a ∈ db.activations, a.functionId ≠ functionId ∧ ∀ id ∈ versionIds,
    a.previousVersionId ≠ some id ∧ a.activatedVersionId ≠ some id ∧ a.canaryVersionId ≠ some id
  schedules : ∀ r ∈ db.schedules, r.functionId ≠ functionId ∧ r.id ∉ scheduleIds
  executions : ∀ e ∈ db.executions, e.functionId ≠ some functionId ∧
    (∀ id ∈ versionIds, e.functionVersionId ≠ some id) ∧ ∀ id ∈ scheduleIds, e.scheduleId ≠ some id

/-! ## Deletes of rows that no other row names -/

theorem detachVersions_unnamed {versionIds : List Uuid}
    (h : ∀ e ∈ s.executions, ∀ id ∈ versionIds, e.functionVersionId ≠ some id) :
    s.detachVersions versionIds now = s := by
  have htouch : s.touchExecutions (fun e => e.functionVersionId.any fun id => decide (id ∈ versionIds)) now = s := by
    refine touchExecutions_none fun e he => ?_
    rw [Option.any_eq_false]
    intro id hid
    simpa using fun hmem => h e he id hmem hid
  have hkeep : ∀ e ∈ s.executions,
      ({ e with functionVersionId := setNull versionIds e.functionVersionId } : Execution) = e := by
    intro e he
    rw [setNull_of_notMem fun id hid hmem => h e he id hmem hid]
  rw [detachVersions, htouch, List.map_congr_left hkeep, List.map_id']

theorem deleteSchedules_unnamed {p : Schedule → Bool}
    (h : ∀ e ∈ s.executions, ∀ r ∈ s.schedules, p r = true → e.scheduleId ≠ some r.id) :
    deleteSchedules p s = { s with schedules := s.schedules.filter fun r => !p r } := by
  have hkeep : ∀ e ∈ s.executions, ({ e with
      scheduleId := setNull ((s.schedules.filter p).map Schedule.id) e.scheduleId } : Execution) = e := by
    intro e he
    rw [setNull_of_notMem]
    intro id hid hmem
    obtain ⟨r, hr, rfl⟩ := List.mem_map.mp hmem
    obtain ⟨hr, hpr⟩ := List.mem_filter.mp hr
    exact h e he r hr hpr hid
  rw [deleteSchedules, List.map_congr_left hkeep, List.map_id']

theorem deleteVersions_unnamed
    (hactivations : ∀ a ∈ s.activations, ∀ v ∈ s.versions, v.functionId = functionId →
      a.previousVersionId ≠ some v.id ∧ a.activatedVersionId ≠ some v.id ∧ a.canaryVersionId ≠ some v.id)
    (hexecutions : ∀ e ∈ s.executions, ∀ v ∈ s.versions, v.functionId = functionId →
      e.functionVersionId ≠ some v.id) :
    deleteVersions functionId s =
      { s with versions := s.versions.filter fun v => !decide (v.functionId = functionId) } := by
  have hmem : ∀ id, id ∈ (s.versions.filter fun v => decide (v.functionId = functionId)).map FunctionVersion.id →
      ∃ v ∈ s.versions, v.functionId = functionId ∧ v.id = id := by
    intro id hid
    obtain ⟨v, hv, rfl⟩ := List.mem_map.mp hid
    obtain ⟨hv, hfunction⟩ := List.mem_filter.mp hv
    exact ⟨v, hv, of_decide_eq_true hfunction, rfl⟩
  have hactivation : ∀ a ∈ s.activations, ({ a with
      previousVersionId := setNull ((s.versions.filter fun v => decide (v.functionId = functionId)).map
        FunctionVersion.id) a.previousVersionId
      activatedVersionId := setNull ((s.versions.filter fun v => decide (v.functionId = functionId)).map
        FunctionVersion.id) a.activatedVersionId
      canaryVersionId := setNull ((s.versions.filter fun v => decide (v.functionId = functionId)).map
        FunctionVersion.id) a.canaryVersionId } : VersionActivation) = a := by
    intro a ha
    rw [setNull_of_notMem, setNull_of_notMem, setNull_of_notMem]
    · intro id hid hid'
      obtain ⟨v, hv, hfunction, rfl⟩ := hmem id hid'
      exact (hactivations a ha v hv hfunction).2.2 hid
    · intro id hid hid'
      obtain ⟨v, hv, hfunction, rfl⟩ := hmem id hid'
      exact (hactivations a ha v hv hfunction).2.1 hid
    · intro id hid hid'
      obtain ⟨v, hv, hfunction, rfl⟩ := hmem id hid'
      exact (hactivations a ha v hv hfunction).1 hid
  have hexecution : ∀ e ∈ s.executions, ({ e with
      functionVersionId := setNull ((s.versions.filter fun v => decide (v.functionId = functionId)).map
        FunctionVersion.id) e.functionVersionId } : Execution) = e := by
    intro e he
    rw [setNull_of_notMem]
    intro id hid hid'
    obtain ⟨v, hv, hfunction, rfl⟩ := hmem id hid'
    exact hexecutions e he v hv hfunction hid
  rw [deleteVersions, List.map_congr_left hactivation, List.map_congr_left hexecution, List.map_id', List.map_id']

theorem deleteFunctionRow_unreferenced (h : s.Unreferenced functionId) :
    deleteFunctionRow functionId s =
      { s with functions := s.functions.filter fun f => !decide (f.id = functionId) } := by
  have hschedules : deleteSchedules (fun r => decide (r.functionId = functionId)) s = s := by
    have hall : (s.schedules.filter fun r => !decide (r.functionId = functionId)) = s.schedules :=
      List.filter_eq_self.mpr fun r hr => by simpa using h.schedules r hr
    rw [deleteSchedules_unnamed fun e _ r hr hid => absurd (of_decide_eq_true hid) (h.schedules r hr), hall]
  have hactivations : deleteActivations functionId s = s := by
    have hall : (s.activations.filter fun a => !decide (a.functionId = functionId)) = s.activations :=
      List.filter_eq_self.mpr fun a ha => by simpa using h.activations a ha
    rw [deleteActivations, hall]
  have hversions : deleteVersions functionId s = s := by
    have hall : (s.versions.filter fun v => !decide (v.functionId = functionId)) = s.versions :=
      List.filter_eq_self.mpr fun v hv => by simpa using h.versions v hv
    rw [deleteVersions_unnamed (fun a _ v hv hid => absurd hid (h.versions v hv))
      fun e _ v hv hid => absurd hid (h.versions v hv), hall]
  rw [deleteFunctionRow, hschedules, hactivations, hversions, map_nullFunction h.executions]

/-! ## What the statements of the route leave -/

theorem detachExecutions_eq : detachExecutions functionId u now s =
    { s.touchExecutions (fun e => decide (e.functionId = some functionId)) now with
      executions := s.executions.map (detached functionId u) } := rfl

theorem mem_detached {e : Execution} (h : e ∈ s.executions.map (detached functionId u)) :
    (e.functionId = none ∧ e.functionVersionId = none ∧ e.scheduleId = none) ∨
      e ∈ s.executions ∧ e.functionId ≠ some functionId := by
  obtain ⟨e₀, he₀, rfl⟩ := List.mem_map.mp h
  unfold detached
  split_ifs with hid
  · exact Or.inl ⟨rfl, rfl, rfl⟩
  · exact Or.inr ⟨he₀, hid⟩

theorem unnamed_of_detached (hs : WellFormed s) {e : Execution}
    (h : e ∈ s.executions.map (detached functionId u)) : e.functionId ≠ some functionId ∧
      (∀ v ∈ s.versions, v.functionId = functionId → e.functionVersionId ≠ some v.id) ∧
      ∀ r ∈ s.schedules, r.functionId = functionId → e.scheduleId ≠ some r.id := by
  rcases mem_detached h with ⟨hfunction, hversion, hschedule⟩ | ⟨he, hne⟩
  · rw [hfunction, hversion, hschedule]
    exact ⟨by simp, by simp, by simp⟩
  · refine ⟨hne, ?_, ?_⟩
    · rintro v hv rfl hid
      exact hne ((hs.executionRefs e he).version v hv hid)
    · rintro r hr rfl hid
      exact hne ((hs.executionRefs e he).schedule r hr hid)

theorem unnamed_of_activation (hs : WellFormed s) {a : VersionActivation} (ha : a ∈ s.activations)
    (hne : a.functionId ≠ functionId) {v : FunctionVersion} (hv : v ∈ s.versions) (hid : v.functionId = functionId) :
    a.previousVersionId ≠ some v.id ∧ a.activatedVersionId ≠ some v.id ∧ a.canaryVersionId ≠ some v.id := by
  obtain ⟨hprevious, hactivated, hcanary⟩ := hs.activationVersions a ha
  subst hid
  exact ⟨fun h => hne (hprevious v hv h).symm, fun h => hne (hactivated v hv h).symm,
    fun h => hne (hcanary v hv h).symm⟩

theorem detached_withoutFunction (hs : WellFormed s) :
    Detached (withoutFunction functionId u now s) functionId
      ((s.versions.filter fun v => decide (v.functionId = functionId)).map FunctionVersion.id)
      ((s.schedules.filter fun r => decide (r.functionId = functionId)).map Schedule.id) := by
  constructor
  · intro f hf
    obtain ⟨hf, hne⟩ := List.mem_filter.mp hf
    have hne : f.id ≠ functionId := by simpa using hne
    refine ⟨hne, fun id hid => ?_⟩
    obtain ⟨v, hv, rfl⟩ := List.mem_map.mp hid
    obtain ⟨hv, hfunction⟩ := List.mem_filter.mp hv
    have hfunction : v.functionId = functionId := of_decide_eq_true hfunction
    obtain ⟨hactive, hcanary⟩ := hs.functionVersions f hf
    exact ⟨fun h => hne ((hactive v hv h).symm.trans hfunction),
      fun h => hne ((hcanary v hv h).symm.trans hfunction)⟩
  · intro v hv
    obtain ⟨hv, hne⟩ := List.mem_filter.mp hv
    have hne : v.functionId ≠ functionId := by simpa using hne
    refine ⟨hne, fun hid => ?_⟩
    obtain ⟨v', hv', hid⟩ := List.mem_map.mp hid
    obtain ⟨hv', hfunction⟩ := List.mem_filter.mp hv'
    rw [List.inj_on_of_nodup_map hs.versionIds hv' hv hid] at hfunction
    exact hne (of_decide_eq_true hfunction)
  · intro a ha
    obtain ⟨ha, hne⟩ := List.mem_filter.mp ha
    have hne : a.functionId ≠ functionId := by simpa using hne
    refine ⟨hne, fun id hid => ?_⟩
    obtain ⟨v, hv, rfl⟩ := List.mem_map.mp hid
    obtain ⟨hv, hfunction⟩ := List.mem_filter.mp hv
    exact unnamed_of_activation hs ha hne hv (of_decide_eq_true hfunction)
  · intro r hr
    obtain ⟨hr, hne⟩ := List.mem_filter.mp hr
    have hne : r.functionId ≠ functionId := by simpa using hne
    refine ⟨hne, fun hid => ?_⟩
    obtain ⟨r', hr', hid⟩ := List.mem_map.mp hid
    obtain ⟨hr', hfunction⟩ := List.mem_filter.mp hr'
    rw [List.inj_on_of_nodup_map hs.scheduleIds hr' hr hid] at hfunction
    exact hne (of_decide_eq_true hfunction)
  · intro e he
    obtain ⟨hfunction, hversion, hschedule⟩ := unnamed_of_detached hs he
    refine ⟨hfunction, fun id hid => ?_, fun id hid => ?_⟩
    · obtain ⟨v, hv, rfl⟩ := List.mem_map.mp hid
      obtain ⟨hv, hid⟩ := List.mem_filter.mp hv
      exact hversion v hv (of_decide_eq_true hid)
    · obtain ⟨r, hr, rfl⟩ := List.mem_map.mp hid
      obtain ⟨hr, hid⟩ := List.mem_filter.mp hr
      exact hschedule r hr (of_decide_eq_true hid)

/-! ## Visible executions -/

theorem ownsFunction_withoutFunction {w i : Uuid} (hi : i ≠ functionId) :
    (withoutFunction functionId u now s).ownsFunction w i = s.ownsFunction w i := by
  rw [Bool.eq_iff_iff, ownsFunction_iff, ownsFunction_iff]
  constructor
  · rintro ⟨f, hf, hid⟩
    exact ⟨f, List.mem_of_mem_filter hf, hid⟩
  · rintro ⟨f, hf, rfl, howner⟩
    exact ⟨f, List.mem_filter.mpr ⟨hf, by simpa using hi⟩, rfl, howner⟩

theorem ownsExecution_detached (hs : WellFormed s) (hown : s.ownsFunction u functionId = true) {e : Execution}
    (he : e ∈ s.executions) (w : Uuid) :
    (withoutFunction functionId u now s).ownsExecution w (detached functionId u e) = s.ownsExecution w e := by
  unfold detached
  split_ifs with hid
  · have hmine : s.ownsExecution u e = true := ownsExecution_iff.mpr (Or.inl ⟨functionId, hid, hown⟩)
    rw [Bool.eq_iff_iff]
    constructor
    · intro h
      obtain rfl : u = w := by simpa [ownsExecution] using h
      exact hmine
    · intro h
      rw [ownsExecution_unique hs (hs.executionRefs e he) hmine h]
      simp [ownsExecution]
  · cases hfunction : e.functionId with
    | none => simp [ownsExecution, hfunction]
    | some i =>
      have hi : i ≠ functionId := fun h => hid (hfunction.trans (congrArg some h))
      simp [ownsExecution, hfunction, ownsFunction_withoutFunction hi]

theorem detached_id (e : Execution) : (detached functionId u e).id = e.id := by
  unfold detached
  split_ifs
  · rfl
  · rfl

theorem visible_withoutFunction (hs : WellFormed s) (hown : s.ownsFunction u functionId = true) (w : Uuid) :
    ((withoutFunction functionId u now s).executions.filter
      ((withoutFunction functionId u now s).ownsExecution w)).map Execution.id =
        (s.executions.filter (s.ownsExecution w)).map Execution.id := by
  have hfilter : (s.executions.map (detached functionId u)).filter
      ((withoutFunction functionId u now s).ownsExecution w) =
        (s.executions.filter (s.ownsExecution w)).map (detached functionId u) :=
    Table.filter_map fun e he => ownsExecution_detached hs hown he w
  change (((s.executions.map (detached functionId u)).filter _).map Execution.id) = _
  rw [hfilter, List.map_map]
  exact List.map_congr_left fun e _ => detached_id e

end PyFaaS.Database

namespace PyFaaS.Api
open Noninterference Transactions Database Submissions
open EphemeralRate (EphemeralSettings)
open Runs (Reachable)

variable {settings : ApiSettings} {limits : EphemeralSettings} {timing : SchedulerSettings} {s t : Database}
  {u functionId : Uuid} {g : Given}

theorem deleteStatements_removes (hs : WellFormed s) {versionIds : List Uuid}
    (hversions : ∀ id ∈ versionIds, ∃ v ∈ s.versions, v.functionId = functionId ∧ v.id = id) :
    deleteStatements u g functionId versionIds s = withoutFunction functionId u g.now s := by
  have hdetach : detachVersions versionIds g.now (detachExecutions functionId u g.now s) =
      detachExecutions functionId u g.now s := by
    apply detachVersions_unnamed
    intro e he id hid
    obtain ⟨v, hv, hfunction, rfl⟩ := hversions id hid
    exact (unnamed_of_detached hs he).2.1 v hv hfunction
  rw [deleteStatements_eq, hdetach, detachExecutions_eq, deleteSchedules_unnamed, deleteActivations,
    deleteVersions_unnamed, deleteFunctionRow_unreferenced]
  · have hfunctions : (Table.modify s.functions functionId (touchFunction g.now clearVersions)).filter
        (fun f => !decide (f.id = functionId)) = s.functions.filter fun f => !decide (f.id = functionId) := by
      apply Table.filter_modify_of_ne
      · intro f _
        rw [touchFunction_eq]
        rfl
      · intro f _ hne hid
        have hkey : f.id = functionId := hid
        simp [hkey] at hne
    simp only [touchExecutions, Database.updateFunction, hfunctions, withoutFunction]
  · refine ⟨fun v hv => ?_, fun a ha => ?_, fun r hr => ?_, fun e he => (unnamed_of_detached hs he).1⟩
    · simpa using (List.mem_filter.mp hv).2
    · simpa using (List.mem_filter.mp ha).2
    · simpa using (List.mem_filter.mp hr).2
  · intro a ha v hv hid
    obtain ⟨ha, hne⟩ := List.mem_filter.mp ha
    exact unnamed_of_activation hs ha (by simpa using hne) hv hid
  · intro e he v hv hid
    exact (unnamed_of_detached hs he).2.1 v hv hid
  · intro e he r hr hid
    exact (unnamed_of_detached hs he).2.2 r hr (of_decide_eq_true hid)

/-! ## The transactions of the whole service -/

section
variable (settings : ApiSettings) (limits : EphemeralSettings) (timing : SchedulerSettings)

def submitCode (xSopmKey : Text) (gate : EphemeralGate) (g : Given) (body : EphemeralExecution) (count : Option ℕ)
    (wait : Bool) : Session Response := do
  let key ← getApiKeyPrincipal settings g (some xSopmKey)
  executeEphemeral limits key gate g body count wait

inductive ServiceAction where
  | resource (a : Action)
  | submitCode (xSopmKey : Text) (gate : EphemeralGate) (g : Given) (body : EphemeralExecution) (count : Option ℕ)
    (wait : Bool)

/-- The ephemeral route beside the resource routers, the scheduler and the workers. -/
inductive ServiceStep (s : Database) : ServiceAction → Database → Prop where
  | resource {a : Action} {s' : Database} (h : Step settings timing s a s') : ServiceStep s (.resource a) s'
  | submitCode {xSopmKey : Text} {gate : EphemeralGate} {g : Given} {body : EphemeralExecution} {count : Option ℕ}
      {wait : Bool} (hg : Supplied settings g s) :
      ServiceStep s (.submitCode xSopmKey gate g body count wait)
        (transact (Api.submitCode settings limits xSopmKey gate g body count wait) s).2

end

theorem submitCode_wellFormed {xSopmKey : Text} {gate : EphemeralGate} {body : EphemeralExecution}
    {count : Option ℕ} {wait : Bool} (hs : WellFormed s) (hg : Supplied settings g s) :
    WellFormed (transact (submitCode settings limits xSopmKey gate g body count wait) s).2 := by
  by_cases hkey : ∃ u, KeyOf settings u xSopmKey s
  · obtain ⟨u, hkey⟩ := hkey
    have hisolated : IsolatedFor u (fun s => Supplied settings g s ∧ KeyOf settings u xSopmKey s)
        (submitCode settings limits xSopmKey gate g body count wait) fun _ _ => True := by
      unfold submitCode
      refine Isolated.bind getApiKeyPrincipal_isolated fun key => ?_
      exact Isolated.given (fun _ h => h.2.owner) fun howner => executeEphemeral_isolated howner gate body count wait
    exact hisolated.transact_inv hs ⟨hg, hkey⟩
  · obtain ⟨e, he⟩ := getApiKeyPrincipal_stranger (g := g) (not_exists.mp hkey)
    have hrun : submitCode settings limits xSopmKey gate g body count wait s = .error e := bind_error he
    rw [transact_error hrun]
    exact hs

theorem serviceReachable_wellFormed (h : Reachable (ServiceStep settings limits timing) (· = empty) s) :
    WellFormed s := by
  refine h.invariant ?_ fun _ _ _ hs hstep => ?_
  · rintro _ rfl
    exact wellFormed_empty
  · cases hstep with
    | resource hstep => exact step_wellFormed hs hstep
    | submitCode hg => exact submitCode_wellFormed hs hg

/-- A successful deletion takes the function and its definitions out, leaves its
executions to the owner, changes no other row, and every user sees the executions seen
before. -/
theorem deleteFunction_detaches {a : Response}
    (hs : Reachable (ServiceStep settings limits timing) (· = empty) s)
    (h : perform settings g (.asUser u (.deleteFunction functionId)) s = (.ok a, t)) :
    Detached t functionId ((versionsOf functionId s).map FunctionVersion.id)
        ((s.schedules.filter fun r => decide (r.functionId = functionId)).map Schedule.id) ∧
      t = withoutFunction functionId u g.now s ∧
      ∀ user, (t.executions.filter (executionOwnerClause user t)).map Execution.id =
        (s.executions.filter (executionOwnerClause user s)).map Execution.id := by
  have hwell := serviceReachable_wellFormed hs
  obtain ⟨fn, hfn, -, rfl⟩ := deleteFunction_ok (transact_answers h)
  have hown : s.ownsFunction u functionId = true := by
    rw [← hfn.id]
    exact hfn.holds.owns
  rw [deleteStatements_removes hwell]
  · exact ⟨detached_withoutFunction hwell, rfl, visible_withoutFunction hwell hown⟩
  · intro id hid
    obtain ⟨v, hv, rfl⟩ := List.mem_map.mp hid
    obtain ⟨hv, hfunction⟩ := List.mem_filter.mp hv
    exact ⟨v, hv, of_decide_eq_true hfunction, rfl⟩

/-! A function with a version, a schedule and a cancelled execution. -/

theorem reachable_calls {calls : List (Call UserRequest)} {db : Database}
    (hdb : Reachable (ServiceStep settings limits timing) (· = empty) db)
    (h : Runs.Along (after settings id) (SuppliedCall settings) db calls) :
    Reachable (ServiceStep settings limits timing) (· = empty) (calls.foldl (after settings id) db) := by
  induction calls generalizing db with
  | nil => exact hdb
  | cons c calls ih => exact ih (hdb.step (.resource (.request h.1))) h.2

def sampleHistory : List (Call UserRequest) :=
  [⟨8, .createFunction "handler".toList none (.obj []), sampleGiven 1⟩,
   ⟨8, .createVersion 1 ⟨100, "hash".toList, none⟩ ⟨"handler.handler".toList, 300, 128, none⟩, sampleGiven 2⟩,
   ⟨8, .createSchedule 1 ⟨"hourly".toList, "0 * * * *".toList, .obj []⟩, sampleGiven 3⟩,
   ⟨8, .triggerExecution 1 ⟨.obj [], none, none⟩, sampleGiven 4⟩,
   ⟨8, .cancelExecution 4, sampleGiven 5⟩]

def samplePast : Database := sampleHistory.foldl (after sampleSettings id) empty

theorem samplePast_reachable :
    Reachable (ServiceStep sampleSettings EphemeralConcurrency.sampleLimits ⟨30, 3⟩) (· = empty) samplePast :=
  reachable_calls (.start rfl) (by decide)

def sampleDeletion : Except HttpError Response × Database :=
  perform sampleSettings { sampleGiven 6 with now := 60 } (.asUser 8 (.deleteFunction 1)) samplePast

theorem sampleDeletion_ok : perform sampleSettings { sampleGiven 6 with now := 60 } (.asUser 8 (.deleteFunction 1))
    samplePast = (.ok .noContent, sampleDeletion.2) := by
  have hanswer : sampleDeletion.1 = .ok .noContent := by decide
  exact Prod.ext hanswer rfl

theorem deleteFunction_detaches_sample : Detached sampleDeletion.2 1 [2] [3] ∧
    sampleDeletion.2 = withoutFunction 1 8 60 samplePast ∧
    ∀ user, (sampleDeletion.2.executions.filter (executionOwnerClause user sampleDeletion.2)).map Execution.id =
      (samplePast.executions.filter (executionOwnerClause user samplePast)).map Execution.id :=
  deleteFunction_detaches samplePast_reachable sampleDeletion_ok

/-- The executions of the function do not keep their `updated_at`. -/
theorem deleteFunction_touches : ¬ ∀ (settings : ApiSettings) (limits : EphemeralSettings) (timing : SchedulerSettings)
    (g : Given) (u functionId : Uuid) (s t : Database) (a : Response),
    Reachable (ServiceStep settings limits timing) (· = empty) s →
    perform settings g (.asUser u (.deleteFunction functionId)) s = (.ok a, t) →
    t.executionsUpdatedAt = s.executionsUpdatedAt := by
  intro h
  have hkept := h _ _ _ _ 8 1 samplePast sampleDeletion.2 _ samplePast_reachable sampleDeletion_ok
  have htouched : sampleDeletion.2.executionsUpdatedAt = [(4, 60)] ∧ samplePast.executionsUpdatedAt = [(4, 0)] := by
    decide
  rw [htouched.1, htouched.2] at hkept
  cases hkept

end PyFaaS.Api
