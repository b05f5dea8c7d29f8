import PyFaaS.RouteEffects
import PyFaaS.TenantIsolation

/-!
# Executions of active functions

The status of a function is set by `create_function` and `update_function` and read
by the dashboard. No route that submits an execution looks at it, and neither does
the scheduler.
-/

namespace PyFaaS.ActiveFunctions
open Api Database Transactions
open Runs (Along Path reached)

/-! ## Routes that leave functions and executions alone -/

def statuses (db : Database) : List (Uuid × FunctionStatus) := db.functions.map fun f => (f.id, f.status)

def targets (db : Database) : List (Uuid × Option Uuid) := db.executions.map fun e => (e.id, e.functionId)

def activity (db : Database) : List (Uuid × FunctionStatus) × List (Uuid × Option Uuid) := (statuses db, targets db)

section
variable {settings : ApiSettings} {g : Given} {u functionId : Uuid} {db : Database}

theorem statuses_updateFunction {edit : Function → Function} {id : Uuid} {now : Time}
    (h : ∀ f, (edit f).id = f.id ∧ (edit f).status = f.status) (db : Database) :
    statuses (Database.updateFunction id (touchFunction now edit) db) = statuses db := by
  apply Table.map_modify
  intro f
  rw [touchFunction_eq]
  exact Prod.ext (h f).1 (h f).2

theorem activity_updateFunction {edit : Function → Function} {id : Uuid} {now : Time}
    (h : ∀ f, (edit f).id = f.id ∧ (edit f).status = f.status) (db : Database) :
    activity (Database.updateFunction id (touchFunction now edit) db) = activity db :=
  Prod.ext (statuses_updateFunction h db) rfl

theorem targets_map {f : Execution → Execution} (h : ∀ e, (f e).id = e.id ∧ (f e).functionId = e.functionId)
    (rows : List Execution) :
    (rows.map f).map (fun e => (e.id, e.functionId)) = rows.map fun e => (e.id, e.functionId) := by
  rw [List.map_map]
  exact List.map_congr_left fun e _ => Prod.ext (h e).1 (h e).2

theorem targets_modify {f : Execution → Execution} (h : ∀ e, (f e).id = e.id ∧ (f e).functionId = e.functionId)
    (rows : List Execution) (id : Uuid) :
    (Table.modify rows id f).map (fun e => (e.id, e.functionId)) = rows.map fun e => (e.id, e.functionId) :=
  Table.map_modify fun e => Prod.ext (h e).1 (h e).2

theorem getFunctionOr404_keeps : Keeps activity (getFunctionOr404 functionId u) :=
  Keeps.bind (Keeps.bind (Keeps.query _) fun _ => Keeps.found _ _) fun _ => Keeps.query _

theorem listFunctions_keeps (p : Page) (statusFilter : Option FunctionStatus) :
    Keeps activity (listFunctions u p statusFilter) :=
  Keeps.bind (Keeps.query _) fun _ => Keeps.bind (Keeps.query _) fun _ => Keeps.pure _

theorem createVersion_keeps (archive : Archive) (form : VersionForm) :
    Keeps activity (createVersion settings u g functionId archive form) := by
  unfold createVersion
  refine Keeps.bind getFunctionOr404_keeps fun fn => Keeps.bind (Keeps.require _ _) fun _ =>
    Keeps.bind (Keeps.require _ _) fun _ => Keeps.bind (Keeps.require _ _) fun _ =>
      Keeps.bind (Keeps.query _) fun versions => Keeps.bind (Keeps.require _ _) fun _ =>
        Keeps.bind (Keeps.require _ _) fun _ => Keeps.bind (Keeps.write fun _ => rfl) fun _ =>
          Keeps.bind (Keeps.write ?_) fun _ => Keeps.pure _
  exact activity_updateFunction fun _ => ⟨rfl, rfl⟩

theorem getActiveVersionOr404_keeps (versionId : Uuid) : Keeps activity (getActiveVersionOr404 functionId versionId) :=
  Keeps.bind (Keeps.query _) fun _ => Keeps.found _ _

theorem reload_keeps (loaded : FunctionResponse) : Keeps activity (reload u functionId loaded) :=
  Keeps.bind getFunctionOr404_keeps fun _ => Keeps.pure _

theorem activateVersion_keeps (versionId : Uuid) : Keeps activity (activateVersion u g functionId versionId) := by
  unfold activateVersion
  refine Keeps.bind getFunctionOr404_keeps fun fn => Keeps.bind (getActiveVersionOr404_keeps _) fun version =>
    Keeps.bind (Keeps.write ?_) fun _ => Keeps.bind (Keeps.write fun _ => rfl) fun _ => reload_keeps _
  exact activity_updateFunction fun _ => ⟨rfl, rfl⟩

theorem reroute_keeps (edit : Function → Function) (row : VersionActivation) (id : Uuid) (now : Time)
    (loaded : FunctionResponse) (h : ∀ f, (edit f).id = f.id ∧ (edit f).status = f.status) :
    Keeps activity (do
      write (Database.updateFunction id (touchFunction now edit))
      write (insertActivation row)
      reload u functionId loaded) :=
  Keeps.bind (Keeps.write (activity_updateFunction h)) fun _ =>
    Keeps.bind (Keeps.write fun _ => rfl) fun _ => reload_keeps _

theorem updateCanary_keeps (body : CanaryUpdate) : Keeps activity (updateCanary u g functionId body) := by
  unfold updateCanary
  refine Keeps.bind getFunctionOr404_keeps fun fn => ?_
  cases body.canaryVersionId with
  | none => exact reroute_keeps _ _ _ _ _ fun _ => ⟨rfl, rfl⟩
  | some versionId =>
    cases decide (body.canaryPercent = 0) with
    | true => exact reroute_keeps _ _ _ _ _ fun _ => ⟨rfl, rfl⟩
    | false =>
      refine Keeps.bind (getActiveVersionOr404_keeps _) fun version => Keeps.bind (Keeps.require _ _) fun _ => ?_
      by_cases hall : body.canaryPercent = 100
      · simp only [hall, if_true]
        exact reroute_keeps _ _ _ _ _ fun _ => ⟨rfl, rfl⟩
      · simp only [hall, if_false]
        exact reroute_keeps _ _ _ _ _ fun _ => ⟨rfl, rfl⟩

theorem listExecutions_keeps (p : Page) (filter : ExecutionFilter) : Keeps activity (listExecutions u p filter) :=
  Keeps.bind (Keeps.query _) fun _ => Keeps.bind (Keeps.found _ _) fun _ => Keeps.pure _

theorem findExecutionOr404_keeps (executionId : Uuid) : Keeps activity (findExecutionOr404 u executionId) :=
  Keeps.bind (Keeps.query _) fun _ => Keeps.found _ _

theorem logsOf_keeps (executionId : Uuid) (p : Page) : Keeps activity (logsOf executionId p) :=
  Keeps.bind (Keeps.query _) fun _ => Keeps.pure _

theorem cancelExecution_keeps (executionId : Uuid) : Keeps activity (cancelExecution u g executionId) := by
  unfold cancelExecution
  refine Keeps.bind (findExecutionOr404_keeps executionId) fun execution => ?_
  cases execution.cancelExecution with
  | error err => exact Keeps.abort _
  | ok cancelled =>
    refine Keeps.bind (Keeps.write fun db => ?_) fun _ => Keeps.pure _
    refine Prod.ext rfl ?_
    apply targets_modify
    exact fun _ => ⟨rfl, rfl⟩

theorem findScheduleOr404_keeps (scheduleId : Uuid) : Keeps activity (findScheduleOr404 u scheduleId) :=
  Keeps.bind (Keeps.query _) fun _ => Keeps.found _ _

theorem createSchedule_keeps (body : ScheduleCreate) : Keeps activity (createSchedule settings u g functionId body) :=
  Keeps.bind (Keeps.bind (Keeps.query _) fun _ => Keeps.found _ _) fun _ =>
    Keeps.bind (Keeps.found _ _) fun _ => Keeps.bind (Keeps.write fun _ => rfl) fun _ => Keeps.pure _

theorem deleteSchedule_keeps (scheduleId : Uuid) : Keeps activity (deleteSchedule u scheduleId) := by
  unfold deleteSchedule
  refine Keeps.bind (findScheduleOr404_keeps scheduleId) fun row =>
    Keeps.bind (Keeps.write fun db => ?_) fun _ => Keeps.pure _
  refine Prod.ext rfl ?_
  apply targets_map
  exact fun _ => ⟨rfl, rfl⟩

theorem revokeKey_keeps (keyId : Uuid) : Keeps activity (revokeKey u g keyId) :=
  Keeps.bind (Keeps.query _) fun _ => Keeps.bind (Keeps.found _ _) fun _ =>
    Keeps.bind (Keeps.write fun _ => rfl) fun _ => Keeps.pure _

theorem getApiKeyPrincipal_keeps (value : Option Text) : Keeps activity (getApiKeyPrincipal settings g value) :=
  Keeps.bind (Keeps.found _ _) fun _ => Keeps.bind (Keeps.query _) fun _ => Keeps.bind (Keeps.found _ _) fun _ =>
    Keeps.bind (Keeps.write fun _ => rfl) fun _ => Keeps.pure _

theorem ordinary_keeps (r : UserRequest) (hcreate : ∀ name description tags, r ≠ .createFunction name description tags)
    (hupdate : ∀ functionId body, r ≠ .updateFunction functionId body)
    (hdelete : ∀ functionId, r ≠ .deleteFunction functionId)
    (htrigger : ∀ functionId body, r ≠ .triggerExecution functionId body) :
    Keeps activity (r.handle settings g u) := by
  cases r with
  | listFunctions p statusFilter => exact listFunctions_keeps p statusFilter
  | createFunction name description tags => exact absurd rfl (hcreate _ _ _)
  | getFunction functionId => exact Keeps.bind getFunctionOr404_keeps fun _ => Keeps.pure _
  | updateFunction functionId body => exact absurd rfl (hupdate _ _)
  | deleteFunction functionId => exact absurd rfl (hdelete _)
  | createVersion functionId archive form => exact createVersion_keeps archive form
  | listVersions functionId =>
    exact Keeps.bind getFunctionOr404_keeps fun _ => Keeps.bind (Keeps.query _) fun _ => Keeps.pure _
  | getVersion functionId versionId =>
    exact Keeps.bind getFunctionOr404_keeps fun _ => Keeps.bind (Keeps.query _) fun _ =>
      Keeps.bind (Keeps.found _ _) fun _ => Keeps.pure _
  | activateVersion functionId versionId => exact activateVersion_keeps versionId
  | updateCanary functionId body => exact updateCanary_keeps body
  | listActivations functionId =>
    exact Keeps.bind getFunctionOr404_keeps fun _ => Keeps.bind (Keeps.query _) fun _ => Keeps.pure _
  | triggerExecution functionId body => exact absurd rfl (htrigger _ _)
  | listExecutions p filter => exact listExecutions_keeps p filter
  | getExecution executionId =>
    exact Keeps.bind (findExecutionOr404_keeps _) fun _ => Keeps.bind (Keeps.found _ _) fun _ => Keeps.pure _
  | getExecutionLogs executionId p => exact Keeps.bind (findExecutionOr404_keeps _) fun _ => logsOf_keeps _ _
  | cancelExecution executionId => exact cancelExecution_keeps executionId
  | listSchedules p => exact Keeps.bind (Keeps.query _) fun _ => Keeps.pure _
  | createSchedule functionId body => exact createSchedule_keeps body
  | getSchedule scheduleId => exact Keeps.bind (findScheduleOr404_keeps _) fun _ => Keeps.pure _
  | updateSchedule scheduleId body =>
    exact Keeps.bind (findScheduleOr404_keeps _) fun _ => Keeps.bind (Keeps.found _ _) fun _ =>
      Keeps.bind (Keeps.write fun _ => rfl) fun _ => Keeps.pure _
  | deleteSchedule scheduleId => exact deleteSchedule_keeps scheduleId
  | listKeys => exact Keeps.bind (Keeps.query _) fun _ => Keeps.pure _
  | createKey name => exact Keeps.bind (Keeps.write fun _ => rfl) fun _ => Keeps.pure _
  | revokeKey keyId => exact revokeKey_keeps keyId

theorem ordinary_invoke_keeps {key : ApiKey} (r : InvokeRequest)
    (hinvoke : ∀ functionId payload wait, r ≠ .invokeFunction functionId payload wait) :
    Keeps activity (r.handle g key) := by
  have hfind : ∀ executionId, Keeps activity (findInvokedExecutionOr404 key executionId) := fun _ =>
    Keeps.bind (Keeps.query _) fun _ => Keeps.found _ _
  cases r with
  | listInvokableFunctions =>
    exact Keeps.bind (Keeps.query _) fun _ => Keeps.bind (Keeps.require _ _) fun _ =>
      Keeps.bind (Keeps.query _) fun _ => Keeps.pure _
  | getInvokedExecution executionId =>
    exact Keeps.bind (hfind _) fun _ => Keeps.bind (Keeps.found _ _) fun _ => Keeps.pure _
  | getInvokedExecutionLogs executionId p => exact Keeps.bind (hfind _) fun _ => logsOf_keeps _ _
  | invokeFunction functionId payload wait => exact absurd rfl (hinvoke _ _ _)

/-! ## Submitting -/

theorem submit_adds (origin : Execution.Origin) (n : NewExecution) (s : Database) :
    ∃ e t, submit g origin n s = .ok (e, t) ∧ statuses t = statuses s ∧
      targets t = targets s ++ [(n.id, n.functionId)] := by
  have hinsert : targets (insertExecution n.row s) = targets s ++ [(n.id, n.functionId)] := List.map_append
  unfold submit
  cases g.enqueueFails with
  | none => exact ⟨_, _, rfl, rfl, hinsert⟩
  | some exc =>
    refine ⟨_, _, rfl, rfl, ?_⟩
    rw [← hinsert]
    apply targets_modify
    exact fun e => ⟨rfl, rfl⟩

theorem activity_commitEdit (id : Uuid) (edit : Edit) (now : Time) (s : Database) :
    activity (commitEdit id edit now s) = activity s := by
  refine Prod.ext rfl ?_
  apply targets_modify
  intro e
  obtain ⟨hid, hfunction, -⟩ := edit.after_sameRequest e
  exact ⟨hid, hfunction⟩

theorem awaitTerminal_runs {id : Uuid} (edits : List (Edit × Time)) (e : Execution) {s : Database}
    (h : ∃ row ∈ s.executions, row.id = id) :
    ∃ e' t, awaitTerminal id edits e s = .ok (e', t) ∧ activity t = activity s := by
  induction edits generalizing e s with
  | nil => exact ⟨e, s, rfl, rfl⟩
  | cons observed rest ih =>
    obtain ⟨edit, committedAt⟩ := observed
    have hthere : ∃ row ∈ (commitEdit id edit committedAt s).executions, row.id = id := by
      obtain ⟨row, hrow, hid⟩ := h
      exact ⟨edit.after row, List.mem_map.mpr ⟨row, hrow, if_pos hid⟩, (edit.after_id row).trans hid⟩
    have hsome : (Table.get? (commitEdit id edit committedAt s).executions id).isSome := by
      obtain ⟨row, hrow, hid⟩ := hthere
      exact List.find?_isSome.mpr ⟨row, hrow, decide_eq_true hid⟩
    obtain ⟨fresh, hfresh⟩ := Option.isSome_iff_exists.mp hsome
    unfold awaitTerminal
    rw [write_bind, query_bind, hfresh, found_some_bind]
    split_ifs
    · exact ⟨fresh, _, rfl, activity_commitEdit id edit committedAt s⟩
    · obtain ⟨e', t, hrun, hkept⟩ := ih fresh hthere
      exact ⟨e', t, hrun, hkept.trans (activity_commitEdit id edit committedAt s)⟩

end

/-! ## Steps -/

inductive Activity where
  | request (r : Request) (g : Given)
  | fire (functions : List Function) (versions : List FunctionVersion) (draw : ℕ) (d : Scheduler.DueRow) (id : Uuid)
  | internal (a : Action)

def isInternal : Action → Bool
  | .request _ _ | .fire _ => false
  | .failEnqueue _ | .reschedule _ | .worker _ => true

section
variable (settings : ApiSettings) (timing : SchedulerSettings)

inductive Step (s : Database) : Activity → Database → Prop where
  | request {r : Request} {g : Given} (hg : Supplied settings g s) :
      Step s (.request r g) (perform settings g r s).2
  | fire {d : Scheduler.DueRow} {functions : List Function} {versions : List FunctionVersion} {draw : ℕ}
      {fn : Function} {version : FunctionVersion} {id : Uuid}
      (hroute : Scheduler.route timing functions versions draw d = some (fn, version))
      (hschedule : ∃ r ∈ s.schedules, r.id = d.fresh.id ∧ r.functionId = d.fresh.functionId)
      (hversion : ∃ v ∈ s.versions, v.id = version.id ∧ v.functionId = version.functionId)
      (hid : Fresh s id) :
      Step s (.fire functions versions draw d id) (insertExecution (Scheduler.newExecution id d fn version).row s)
  | internal {a : Action} {s' : Database} (ha : isInternal a = true) (h : Api.Step settings timing s a s') :
      Step s (.internal a) s'

def executable (s : Database) (user functionId : Uuid) (draw : ℕ) (versionId : Option Uuid) : Option Uuid :=
  match s.functions.find? fun f => decide (f.id = functionId) && decide (f.ownerId = user) with
  | none => none
  | some fn => (chooseExecutionVersion s.versions fn draw versionId).map fun _ => fn.id

def principal (s : Database) (xSopmKey : Text) : Option ApiKey :=
  if xSopmKey.isEmpty then none
  else s.apiKeys.find? fun k => decide (k.keyHash = settings.hashApiKey xSopmKey) && k.revokedAt.isNone

def submitsTo (s : Database) : Activity → Option Uuid
  | .request (.asUser user (.triggerExecution functionId body)) g =>
    executable s user functionId g.draw body.versionId
  | .request (.withKey xSopmKey (.invokeFunction functionId _ _)) g =>
    (principal settings s xSopmKey).bind fun key => executable s key.ownerId functionId g.draw none
  | .fire functions versions draw d _ =>
    (Scheduler.route timing functions versions draw d).map fun routed => routed.1.id
  | _ => none

/-- The statuses that the requests have set so far. -/
abbrev History := Uuid → FunctionStatus

def settles (history : History) (s : Database) : Activity → History
  | .request (.asUser _ (.createFunction _ _ _)) g => Function.update history g.newId .active
  | .request (.asUser user (.updateFunction functionId body)) _ =>
    if s.ownsFunction user functionId then
      Function.update history functionId (body.status.getD (history functionId))
    else history
  | _ => history

def MeetsActive (history : History) (s : Database) (a : Activity) : Prop :=
  (submitsTo settings timing s a).all (fun functionId => decide (history functionId = .active)) = true

def AlongHistory : History → Database → List (Activity × Database) → Prop
  | _, _, [] => True
  | history, s, (a, s') :: path => MeetsActive settings timing history s a ∧ AlongHistory (settles history s a) s' path

end

def OnlyActive (s s' : Database) : Prop :=
  ∀ e ∈ s'.executions, (∀ e₀ ∈ s.executions, e₀.id ≠ e.id) → ∀ functionId, e.functionId = some functionId →
    ∃ fn ∈ s.functions, fn.id = functionId ∧ fn.status = .active

def Recorded (history : History) (s : Database) : Prop := ∀ p ∈ statuses s, p.2 = history p.1

variable {settings : ApiSettings} {timing : SchedulerSettings} {s s' t : Database} {g : Given} {u functionId : Uuid}
  {history : History} {a : Activity}

theorem step_wellFormed (hs : WellFormed s) (h : Step settings timing s a s') : WellFormed s' := by
  cases h with
  | request hg => exact perform_wellFormed _ hs hg
  | fire hroute hschedule hversion hid =>
    have hstep : Api.Step settings timing s _ _ := .fire hroute hschedule hversion hid
    exact Api.step_wellFormed hs hstep
  | internal _ h => exact Api.step_wellFormed hs h

/-! ## What a step adds -/

def Adds (s s' : Database) : Option Uuid → Prop
  | none => ∀ e ∈ s'.executions, ∃ e₀ ∈ s.executions, e₀.id = e.id
  | some functionId => (∃ fn ∈ s.functions, fn.id = functionId) ∧
      ∃ id, Fresh s id ∧ targets s' = targets s ++ [(id, some functionId)]

theorem adds_none (h : targets s' = targets s) : Adds s s' none := by
  intro e he
  have hmem : (e.id, e.functionId) ∈ targets s := by
    rw [← h]
    exact List.mem_map_of_mem he
  obtain ⟨e₀, he₀, hsame⟩ := List.mem_map.mp hmem
  exact ⟨e₀, he₀, (Prod.mk.inj hsame).1⟩

theorem onlyActive_iff (hs : WellFormed s) (hrecorded : Recorded history s) {submitted : Option Uuid}
    (h : Adds s s' submitted) :
    OnlyActive s s' ↔ submitted.all (fun functionId => decide (history functionId = .active)) = true := by
  cases submitted with
  | none =>
    refine iff_of_true (fun e he hnew => ?_) rfl
    obtain ⟨e₀, he₀, hid⟩ := h e he
    exact absurd hid (hnew e₀ he₀)
  | some functionId =>
    obtain ⟨⟨fn, hfn, hid⟩, id, hfresh, htargets⟩ := h
    have hstatus : fn.status = history functionId := by
      rw [← hid]
      exact hrecorded (fn.id, fn.status) (List.mem_map.mpr ⟨fn, hfn, rfl⟩)
    simp only [Option.all_some, decide_eq_true_eq]
    constructor
    · intro honly
      have hmem : (id, some functionId) ∈ targets s' := by
        rw [htargets]
        exact List.mem_append_right _ (List.mem_singleton_self _)
      obtain ⟨e, he, hsame⟩ := List.mem_map.mp hmem
      obtain ⟨rfl, hfunction⟩ := Prod.mk.inj hsame
      obtain ⟨fn', hfn', hid', hactive⟩ := honly e he (fun e₀ he₀ => (hfresh.executions e₀ he₀).1) _ hfunction
      rw [function_unique hs hfn' hfn (hid'.trans hid.symm), hstatus] at hactive
      exact hactive
    · intro hactive e he hnew functionId' hfunction
      have hmem : (e.id, e.functionId) ∈ targets s ++ [(id, some functionId)] := by
        rw [← htargets]
        exact List.mem_map_of_mem he
      rcases List.mem_append.mp hmem with hmem | hmem
      · obtain ⟨e₀, he₀, hsame⟩ := List.mem_map.mp hmem
        exact absurd (Prod.mk.inj hsame).1 (hnew e₀ he₀)
      · obtain ⟨-, hsame⟩ := Prod.mk.inj (List.mem_singleton.mp hmem)
        obtain rfl : functionId = functionId' := Option.some.inj (hsame.symm.trans hfunction)
        exact ⟨fn, hfn, hid, hstatus.trans hactive⟩

/-! ## Submissions -/

def Submits (g : Given) (m : Session Response) (s : Database) : Option Uuid → Prop
  | none => ∃ e, m s = .error e
  | some functionId => (∃ fn ∈ s.functions, fn.id = functionId) ∧
      ∃ a t, m s = .ok (a, t) ∧ statuses t = statuses s ∧ targets t = targets s ++ [(g.newId, some functionId)]

theorem findFunctionOr404_error
    (h : s.functions.find? (fun f => decide (f.id = functionId) && decide (f.ownerId = u)) = none) :
    ∃ e, findFunctionOr404 functionId u s = .error e := by
  rw [findFunctionOr404, query_bind, h]
  exact ⟨_, rfl⟩

theorem findFunctionOr404_found {fn : Function}
    (h : s.functions.find? (fun f => decide (f.id = functionId) && decide (f.ownerId = u)) = some fn) :
    findFunctionOr404 functionId u s = .ok (fn, s) := by
  rw [findFunctionOr404, query_bind, h]
  rfl

theorem executable_none {draw : ℕ} {versionId : Option Uuid}
    (h : s.functions.find? (fun f => decide (f.id = functionId) && decide (f.ownerId = u)) = none) :
    executable s u functionId draw versionId = none := by
  rw [executable, h]

theorem executable_some {draw : ℕ} {versionId : Option Uuid} {fn : Function}
    (h : s.functions.find? (fun f => decide (f.id = functionId) && decide (f.ownerId = u)) = some fn) :
    executable s u functionId draw versionId =
      (chooseExecutionVersion s.versions fn draw versionId).map fun _ => fn.id := by
  rw [executable, h]

theorem triggerExecution_submits (body : ExecutionTrigger) (s : Database) :
    Submits g (triggerExecution u g functionId body) s (executable s u functionId g.draw body.versionId) := by
  cases hfind : s.functions.find? fun f => decide (f.id = functionId) && decide (f.ownerId = u) with
  | none =>
    obtain ⟨e, he⟩ := findFunctionOr404_error hfind
    rw [executable_none hfind]
    exact ⟨e, bind_error he⟩
  | some fn =>
    have hrun : triggerExecution u g functionId body s = _ := bind_run (findFunctionOr404_found hfind)
    rw [query_bind] at hrun
    rw [executable_some hfind]
    cases hchosen : chooseExecutionVersion s.versions fn g.draw body.versionId with
    | none =>
      rw [hchosen, found_none_bind] at hrun
      exact ⟨_, hrun⟩
    | some version =>
      rw [hchosen, found_some_bind] at hrun
      obtain ⟨e, t, hsubmit, hstatuses, htargets⟩ := submit_adds (g := g) .trigger
        (newFunctionExecution u g fn version none body.payload (body.timeoutOr version.timeout)) s
      rw [bind_run hsubmit] at hrun
      exact ⟨⟨fn, List.mem_of_find?_eq_some hfind, rfl⟩, _, t, hrun, hstatuses, htargets⟩

theorem invokeFunction_submits (key : ApiKey) (payload : Json) (wait : Bool) (s : Database) :
    Submits g (invokeFunction key g functionId payload wait) s (executable s key.ownerId functionId g.draw none) := by
  cases hfind : s.functions.find? fun f => decide (f.id = functionId) && decide (f.ownerId = key.ownerId) with
  | none =>
    obtain ⟨e, he⟩ := findFunctionOr404_error hfind
    rw [executable_none hfind]
    exact ⟨e, bind_error he⟩
  | some fn =>
    have hrun : invokeFunction key g functionId payload wait s = _ := bind_run (findFunctionOr404_found hfind)
    rw [query_bind] at hrun
    rw [executable_some hfind]
    cases hchosen : chooseExecutionVersion s.versions fn g.draw none with
    | none =>
      rw [hchosen, found_none_bind] at hrun
      exact ⟨_, hrun⟩
    | some version =>
      rw [hchosen, found_some_bind] at hrun
      obtain ⟨e, t, hsubmit, hstatuses, htargets⟩ := submit_adds (g := g) .invoke
        (newFunctionExecution key.ownerId g fn version (some key.id) payload version.timeout) s
      have hrow : ∃ row ∈ t.executions, row.id = g.newId := by
        have hmem : (g.newId, some fn.id) ∈ targets t := by
          rw [htargets]
          exact List.mem_append_right _ (List.mem_singleton_self _)
        obtain ⟨row, hrow, hsame⟩ := List.mem_map.mp hmem
        exact ⟨row, hrow, (Prod.mk.inj hsame).1⟩
      obtain ⟨e', t', hawait, hkept⟩ := awaitTerminal_runs (if wait then g.observed else []) e hrow
      obtain ⟨hstatuses', htargets'⟩ := Prod.mk.inj hkept
      rw [bind_run hsubmit] at hrun
      have hrun := hrun.trans (bind_run hawait)
      exact ⟨⟨fn, List.mem_of_find?_eq_some hfind, rfl⟩, _, t', hrun, hstatuses'.trans hstatuses,
        htargets'.trans htargets⟩

theorem getApiKeyPrincipal_none {value : Text} (h : principal settings s value = none) :
    ∃ e, getApiKeyPrincipal settings g (some value) s = .error e := by
  unfold principal at h
  unfold getApiKeyPrincipal
  by_cases hempty : value.isEmpty = true
  · have hmissing : (some value).filter (fun value => !value.isEmpty) = none := by simpa using hempty
    rw [hmissing]
    exact ⟨_, found_none_bind _ _ _⟩
  · have hpresent : (some value).filter (fun value => !value.isEmpty) = some value := by simpa using hempty
    rw [if_neg hempty] at h
    rw [hpresent, found_some_bind, query_bind, h]
    exact ⟨_, found_none_bind _ _ _⟩

theorem getApiKeyPrincipal_some {value : Text} {key : ApiKey} (h : principal settings s value = some key) :
    getApiKeyPrincipal settings g (some value) s = .ok ({ key with lastUsedAt := some g.now },
      updateApiKey key.id (fun row => { row with lastUsedAt := some g.now }) s) := by
  unfold principal at h
  unfold getApiKeyPrincipal
  by_cases hempty : value.isEmpty = true
  · rw [if_pos hempty] at h
    cases h
  · have hpresent : (some value).filter (fun value => !value.isEmpty) = some value := by simpa using hempty
    rw [if_neg hempty] at h
    rw [hpresent, found_some_bind, query_bind, h, found_some_bind, write_bind]
    rfl

theorem invokeWithKey_submits (xSopmKey : Text) (payload : Json) (wait : Bool) (s : Database) :
    Submits g (Request.handle settings g (.withKey xSopmKey (.invokeFunction functionId payload wait))) s
      ((principal settings s xSopmKey).bind fun key => executable s key.ownerId functionId g.draw none) := by
  cases hkey : principal settings s xSopmKey with
  | none =>
    obtain ⟨e, he⟩ := getApiKeyPrincipal_none (g := g) hkey
    exact ⟨e, bind_error he⟩
  | some key =>
    have hrun : Request.handle settings g (.withKey xSopmKey (.invokeFunction functionId payload wait)) s = _ :=
      bind_run (getApiKeyPrincipal_some hkey)
    have hsubmits : Submits g (invokeFunction { key with lastUsedAt := some g.now } g functionId payload wait)
        (updateApiKey key.id (fun row => { row with lastUsedAt := some g.now }) s) _ :=
      invokeFunction_submits _ payload wait _
    have hexecutable : executable (updateApiKey key.id (fun row => { row with lastUsedAt := some g.now }) s)
        key.ownerId functionId g.draw none = executable s key.ownerId functionId g.draw none := rfl
    rw [hexecutable] at hsubmits
    rw [Option.bind_some]
    cases hsubmitted : executable s key.ownerId functionId g.draw none with
    | none =>
      rw [hsubmitted] at hsubmits
      obtain ⟨e, he⟩ := hsubmits
      exact ⟨e, hrun.trans he⟩
    | some submitted =>
      rw [hsubmitted] at hsubmits
      obtain ⟨hfn, a, t, hok, hkept⟩ := hsubmits
      exact ⟨hfn, a, t, hrun.trans hok, hkept⟩

theorem Submits.adds {r : Request} {submitted : Option Uuid} (hg : Supplied settings g s)
    (h : Submits g (r.handle settings g) s submitted) : Adds s (perform settings g r s).2 submitted := by
  cases submitted with
  | none =>
    obtain ⟨e, he⟩ := h
    rw [perform_of_error he]
    exact adds_none rfl
  | some functionId =>
    obtain ⟨hfn, a, t, hok, -, htargets⟩ := h
    rw [perform_of_ok hok]
    exact ⟨hfn, g.newId, hg.id, htargets⟩

theorem Submits.statuses_eq {r : Request} {submitted : Option Uuid} (h : Submits g (r.handle settings g) s submitted) :
    statuses (perform settings g r s).2 = statuses s := by
  cases submitted with
  | none =>
    obtain ⟨e, he⟩ := h
    rw [perform_of_error he]
  | some functionId =>
    obtain ⟨hfn, a, t, hok, hstatuses, -⟩ := h
    rw [perform_of_ok hok]
    exact hstatuses

/-! ## Requests -/

theorem createFunction_targets {name : Text} {description : Option Text} {tags : Json} :
    Keeps targets (createFunction settings u g name description tags) :=
  Keeps.bind (Keeps.query _) fun _ => Keeps.bind (Keeps.require _ _) fun _ => Keeps.bind (Keeps.query _) fun _ =>
    Keeps.bind (Keeps.require _ _) fun _ => Keeps.bind (Keeps.write fun _ => rfl) fun _ => Keeps.pure _

theorem updateFunction_targets {body : FunctionUpdate} : Keeps targets (updateFunction u g functionId body) := by
  have hget : Keeps targets (getFunctionOr404 functionId u) :=
    Keeps.bind (Keeps.bind (Keeps.query _) fun _ => Keeps.found _ _) fun _ => Keeps.query _
  exact Keeps.bind hget fun _ => Keeps.bind (Keeps.write fun _ => rfl) fun _ => Keeps.bind hget fun _ => Keeps.pure _

theorem executions_deleteStatements {versionIds : List Uuid} :
    (deleteStatements u g functionId versionIds s).executions.map Execution.id = s.executions.map Execution.id := by
  rw [deleteStatements_eq]
  simp only [deleteFunctionRow, deleteVersions, deleteActivations, deleteSchedules, Database.updateFunction,
    detachVersions, detachExecutions, List.map_map]
  apply List.map_congr_left
  intro e _
  simp only [Function.comp_apply]
  split_ifs
  · rfl
  · rfl

theorem deleteFunction_adds : Adds s (perform settings g (.asUser u (.deleteFunction functionId)) s).2 none := by
  cases hrun : deleteFunction u g functionId s with
  | error e =>
    have hafter : (perform settings g (.asUser u (.deleteFunction functionId)) s).2 = s := perform_of_error hrun
    rw [hafter]
    exact adds_none rfl
  | ok p =>
    obtain ⟨fn, -, -, ht⟩ := deleteFunction_ok hrun
    have hafter : (perform settings g (.asUser u (.deleteFunction functionId)) s).2 = p.2 := perform_of_ok hrun
    rw [hafter, ht]
    intro e he
    have hmem : e.id ∈ s.executions.map Execution.id := by
      rw [← executions_deleteStatements]
      exact List.mem_map_of_mem he
    obtain ⟨e₀, he₀, hid⟩ := List.mem_map.mp hmem
    exact ⟨e₀, he₀, hid⟩

theorem deleteFunction_statuses :
    statuses (perform settings g (.asUser u (.deleteFunction functionId)) s).2 ⊆ statuses s := by
  cases hrun : deleteFunction u g functionId s with
  | error e =>
    have hafter : (perform settings g (.asUser u (.deleteFunction functionId)) s).2 = s := perform_of_error hrun
    rw [hafter]
    exact List.Subset.refl _
  | ok p =>
    obtain ⟨fn, -, -, ht⟩ := deleteFunction_ok hrun
    have hafter : (perform settings g (.asUser u (.deleteFunction functionId)) s).2 = p.2 := perform_of_ok hrun
    have hcleared : statuses (Database.updateFunction functionId (touchFunction g.now clearVersions) s) =
        statuses s := by
      apply statuses_updateFunction
      exact fun _ => ⟨rfl, rfl⟩
    rw [hafter, ht, deleteStatements_eq]
    intro x hx
    obtain ⟨f, hf, rfl⟩ := List.mem_map.mp hx
    rw [← hcleared]
    exact List.mem_map.mpr ⟨f, List.mem_of_mem_filter hf, rfl⟩

theorem createFunction_recorded {name : Text} {description : Option Text} {tags : Json} (hg : Supplied settings g s)
    (h : Recorded history s) : Recorded (Function.update history g.newId .active)
      (perform settings g (.asUser u (.createFunction name description tags)) s).2 := by
  have hold : Recorded (Function.update history g.newId .active) s := by
    intro x hx
    obtain ⟨f, hf, rfl⟩ := List.mem_map.mp hx
    rw [Function.update_of_ne (hg.id.functions f hf).1]
    exact h _ hx
  cases hrun : createFunction settings u g name description tags s with
  | error e =>
    have hafter : (perform settings g (.asUser u (.createFunction name description tags)) s).2 = s :=
      perform_of_error hrun
    rw [hafter]
    exact hold
  | ok p =>
    obtain ⟨-, fn, ht, hid, -, hactive, -⟩ := createFunction_ok hrun
    have hafter : (perform settings g (.asUser u (.createFunction name description tags)) s).2 = p.2 :=
      perform_of_ok hrun
    rw [hafter, ht]
    intro x hx
    obtain ⟨f, hf, rfl⟩ := List.mem_map.mp hx
    rcases List.mem_append.mp hf with hf | hf
    · exact hold _ (List.mem_map.mpr ⟨f, hf, rfl⟩)
    · obtain rfl := List.mem_singleton.mp hf
      simp only [hid, hactive, Function.update_self]

theorem updateFunction_recorded {body : FunctionUpdate} (h : Recorded history s) :
    Recorded (settles history s (.request (.asUser u (.updateFunction functionId body)) g))
      (perform settings g (.asUser u (.updateFunction functionId body)) s).2 := by
  have hsettles : settles history s (.request (.asUser u (.updateFunction functionId body)) g) =
      if s.ownsFunction u functionId then Function.update history functionId (body.status.getD (history functionId))
      else history := rfl
  rw [hsettles]
  by_cases hown : s.ownsFunction u functionId = true
  · rw [if_pos hown]
    obtain ⟨fn, hfn, hid, howner⟩ := ownsFunction_iff.mp hown
    obtain ⟨a, t, hrun⟩ : ∃ a t, updateFunction u g functionId body s = .ok (a, t) :=
      updateFunction_runs hfn hid howner
    obtain ⟨-, -, rfl⟩ := updateFunction_ok hrun
    have hafter : (perform settings g (.asUser u (.updateFunction functionId body)) s).2 = _ := perform_of_ok hrun
    rw [hafter]
    intro x hx
    obtain ⟨f, hf, rfl⟩ := List.mem_map.mp hx
    rcases Table.mem_modify hf with ⟨hf, hne⟩ | ⟨f₀, hf₀, hid₀, rfl⟩
    · have hne : f.id ≠ functionId := hne
      rw [Function.update_of_ne hne]
      exact h _ (List.mem_map.mpr ⟨f, hf, rfl⟩)
    · have hid₀ : f₀.id = functionId := hid₀
      have hstatus : f₀.status = history functionId := by
        rw [← hid₀]
        exact h _ (List.mem_map.mpr ⟨f₀, hf₀, rfl⟩)
      simp only [touchFunction_eq, FunctionUpdate.edit, hid₀, hstatus, Function.update_self]
  · rw [if_neg hown]
    cases hrun : updateFunction u g functionId body s with
    | error e =>
      have hafter : (perform settings g (.asUser u (.updateFunction functionId body)) s).2 = s := perform_of_error hrun
      rw [hafter]
      exact h
    | ok p =>
      obtain ⟨fn, hfn, -⟩ := updateFunction_ok hrun
      rw [← hfn.id] at hown
      exact absurd hfn.holds.owns hown

theorem request_effect {r : Request} (hg : Supplied settings g s) (h : Recorded history s) :
    Adds s (perform settings g r s).2 (submitsTo settings timing s (.request r g)) ∧
      Recorded (settles history s (.request r g)) (perform settings g r s).2 := by
  have hordinary : Keeps activity (r.handle settings g) → Adds s (perform settings g r s).2 none ∧
      Recorded history (perform settings g r s).2 := by
    intro hkeeps
    obtain ⟨hstatuses, htargets⟩ := Prod.mk.inj (hkeeps.transact s)
    refine ⟨adds_none htargets, ?_⟩
    unfold Recorded
    rw [show statuses (perform settings g r s).2 = statuses s from hstatuses]
    exact h
  have hsubmitted : ∀ {submitted : Option Uuid}, Submits g (r.handle settings g) s submitted →
      Adds s (perform settings g r s).2 submitted ∧ Recorded history (perform settings g r s).2 := by
    intro submitted hsubmits
    refine ⟨hsubmits.adds hg, ?_⟩
    unfold Recorded
    rw [hsubmits.statuses_eq]
    exact h
  cases r with
  | asUser user r =>
    have hroute : Keeps activity (r.handle settings g user) → _ := hordinary
    cases r with
    | createFunction name description tags =>
      exact ⟨adds_none (createFunction_targets.transact s), createFunction_recorded hg h⟩
    | updateFunction functionId body =>
      exact ⟨adds_none (updateFunction_targets.transact s), updateFunction_recorded h⟩
    | deleteFunction functionId =>
      exact ⟨deleteFunction_adds, fun x hx => h x (deleteFunction_statuses hx)⟩
    | triggerExecution functionId body => exact hsubmitted (triggerExecution_submits body s)
    | _ =>
      apply hroute
      apply ordinary_keeps
      · simp
      · simp
      · simp
      · simp
  | withKey xSopmKey r =>
    cases r with
    | invokeFunction functionId payload wait => exact hsubmitted (invokeWithKey_submits xSopmKey payload wait s)
    | _ =>
      apply hordinary
      refine Keeps.bind (getApiKeyPrincipal_keeps _) fun key => ?_
      apply ordinary_invoke_keeps
      simp

/-! ## Runs -/

theorem recorded_of_kept (h : Recorded history s) (hfunctions : s'.functions = s.functions) : Recorded history s' := by
  unfold Recorded statuses
  rw [hfunctions]
  exact h

theorem step_effect (hs : WellFormed s) (hrecorded : Recorded history s) (h : Step settings timing s a s') :
    Adds s s' (submitsTo settings timing s a) ∧ Recorded (settles history s a) s' := by
  cases h with
  | request hg => exact request_effect hg hrecorded
  | @fire d functions versions draw fn version id hroute hschedule hversion hid =>
    have hsubmits : submitsTo settings timing s (.fire functions versions draw d id) = some fn.id := by
      simp only [submitsTo, hroute, Option.map_some]
    rw [hsubmits]
    obtain ⟨r, hr, -, hfunction⟩ := hschedule
    obtain ⟨owned, howned, hid', -⟩ := ownsFunction_iff.mp (hs.scheduleOwner r hr)
    refine ⟨⟨⟨owned, howned, ?_⟩, id, hid, List.map_append⟩, recorded_of_kept hrecorded rfl⟩
    rw [hid', hfunction, (route_some hroute).1]
  | internal ha h =>
    cases h with
    | request => cases ha
    | fire => cases ha
    | failEnqueue =>
      refine ⟨adds_none ?_, recorded_of_kept hrecorded rfl⟩
      apply targets_modify
      exact fun _ => ⟨rfl, rfl⟩
    | advance => exact ⟨adds_none rfl, recorded_of_kept hrecorded rfl⟩
    | recordRun => exact ⟨adds_none rfl, recorded_of_kept hrecorded rfl⟩
    | @worker id edit now =>
      exact ⟨adds_none (congrArg Prod.snd (activity_commitEdit id edit now s)), recorded_of_kept hrecorded rfl⟩

/-- Along a run only ACTIVE functions are executed exactly if each submission that finds
a function and a version is of one whose status was last set to ACTIVE. -/
theorem onlyActive_along_iff {path : List (Activity × Database)}
    (hpath : Path (Step settings timing) Database.empty path) :
    Along reached (fun s p => OnlyActive s p.2) Database.empty path ↔
      AlongHistory settings timing (fun _ => .active) Database.empty path := by
  have hrun : ∀ (history : History) (s : Database), WellFormed s → Recorded history s →
      Path (Step settings timing) s path →
        (Along reached (fun s p => OnlyActive s p.2) s path ↔ AlongHistory settings timing history s path) := by
    clear hpath
    induction path with
    | nil => exact fun _ _ _ _ _ => Iff.rfl
    | cons p path ih =>
      obtain ⟨a, s'⟩ := p
      rintro history s hs hrecorded ⟨hstep, hpath⟩
      obtain ⟨hadds, hnext⟩ := step_effect hs hrecorded hstep
      exact and_congr (onlyActive_iff hs hrecorded hadds) (ih _ s' (step_wellFormed hs hstep) hnext hpath)
  exact hrun _ _ wellFormed_empty (fun _ h => by cases h) hpath

/-! A function with one version that is executed, and that is executed while INACTIVE. -/

instance AlongHistory.decidable (settings : ApiSettings) (timing : SchedulerSettings) :
    ∀ history s path, Decidable (AlongHistory settings timing history s path)
  | _, _, [] => .isTrue trivial
  | history, s, (a, s') :: path =>
    @instDecidableAnd _ _ (inferInstanceAs (Decidable (_ = true)))
      (AlongHistory.decidable settings timing (settles history s a) s' path)

def callPath (settings : ApiSettings) : Database → List (Call UserRequest) → List (Activity × Database)
  | _, [] => []
  | s, c :: calls =>
    (.request (.asUser c.user c.request) c.given, after settings id s c) ::
      callPath settings (after settings id s c) calls

theorem path_calls {calls : List (Call UserRequest)} (h : Along (after settings id) (SuppliedCall settings) s calls) :
    Path (Step settings timing) s (callPath settings s calls) := by
  induction calls generalizing s with
  | nil => exact Path.nil
  | cons c calls ih => exact Path.cons (.request h.1) (ih h.2)

def sampleTiming : SchedulerSettings := ⟨30, 3⟩

def sampleActive : List (Call UserRequest) :=
  [⟨8, .createFunction "handler".toList none (.obj []), sampleGiven 1⟩,
   ⟨8, .createVersion 1 ⟨100, "hash".toList, none⟩ ⟨"handler.handler".toList, 300, 128, none⟩, sampleGiven 2⟩,
   ⟨8, .triggerExecution 1 ⟨.obj [], none, none⟩, sampleGiven 4⟩]

theorem onlyActive_along_iff_sample : Along reached (fun s p => OnlyActive s p.2) Database.empty
    (callPath sampleSettings Database.empty sampleActive) := by
  have hpath : Path (Step sampleSettings sampleTiming) Database.empty
      (callPath sampleSettings Database.empty sampleActive) := path_calls (by decide)
  exact (onlyActive_along_iff hpath).mpr (by decide)

def sampleInactive : List (Call UserRequest) :=
  [⟨8, .createFunction "handler".toList none (.obj []), sampleGiven 1⟩,
   ⟨8, .createVersion 1 ⟨100, "hash".toList, none⟩ ⟨"handler.handler".toList, 300, 128, none⟩, sampleGiven 2⟩,
   ⟨8, .updateFunction 1 ⟨none, some .inactive, none⟩, sampleGiven 3⟩]

def sampleInactiveTrigger : Call UserRequest := ⟨8, .triggerExecution 1 ⟨.obj [], none, none⟩, sampleGiven 4⟩

/-- The owner makes the function INACTIVE and triggers it. -/
theorem inactive_executed : ¬ ∀ (settings : ApiSettings) (timing : SchedulerSettings)
    (path : List (Activity × Database)), Path (Step settings timing) Database.empty path →
      Along reached (fun s p => OnlyActive s p.2) Database.empty path := by
  intro hclaim
  have hpath : Path (Step sampleSettings sampleTiming) Database.empty
      (callPath sampleSettings Database.empty (sampleInactive ++ [sampleInactiveTrigger])) :=
    path_calls (by decide)
  obtain ⟨-, -, -, honly, -⟩ := hclaim sampleSettings sampleTiming _ hpath
  have honly : OnlyActive (sampleInactive.foldl (after sampleSettings id) Database.empty)
      ((sampleInactive ++ [sampleInactiveTrigger]).foldl (after sampleSettings id) Database.empty) := honly
  have hnew : ∃ e ∈ ((sampleInactive ++ [sampleInactiveTrigger]).foldl (after sampleSettings id)
      Database.empty).executions, (∀ e₀ ∈ (sampleInactive.foldl (after sampleSettings id) Database.empty).executions,
        e₀.id ≠ e.id) ∧ e.functionId = some 1 := by decide
  have hinactive : ∀ fn ∈ (sampleInactive.foldl (after sampleSettings id) Database.empty).functions,
      fn.id = 1 → fn.status ≠ .active := by decide
  obtain ⟨e, he, hfresh, hfunction⟩ := hnew
  obtain ⟨fn, hfn, hid, hactive⟩ := honly e he hfresh 1 hfunction
  exact hinactive fn hfn hid hactive

end PyFaaS.ActiveFunctions
