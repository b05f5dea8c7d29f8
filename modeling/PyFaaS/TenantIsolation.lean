import PyFaaS.Isolation.Functions
import PyFaaS.Isolation.Invoke
import PyFaaS.Isolation.Schedules
import PyFaaS.Runs
import PyFaaS.Scheduler

/-!
# Tenant isolation of the resource routers

A request of a user reads and writes the rows of this user only. The databases
that the routes and the scheduler can reach are well formed, and in a well-formed
database every route is isolated.
-/

namespace PyFaaS.Api
open Noninterference Transactions Database
open Runs (Reachable)

inductive UserRequest where
  | listFunctions (p : Page) (statusFilter : Option FunctionStatus)
  | createFunction (name : Text) (description : Option Text) (tags : Json)
  | getFunction (functionId : Uuid)
  | updateFunction (functionId : Uuid) (body : FunctionUpdate)
  | deleteFunction (functionId : Uuid)
  | createVersion (functionId : Uuid) (archive : Archive) (form : VersionForm)
  | listVersions (functionId : Uuid)
  | getVersion (functionId versionId : Uuid)
  | activateVersion (functionId versionId : Uuid)
  | updateCanary (functionId : Uuid) (body : CanaryUpdate)
  | listActivations (functionId : Uuid)
  | triggerExecution (functionId : Uuid) (body : ExecutionTrigger)
  | listExecutions (p : Page) (filter : ExecutionFilter)
  | getExecution (executionId : Uuid)
  | getExecutionLogs (executionId : Uuid) (p : Page)
  | cancelExecution (executionId : Uuid)
  | listSchedules (p : Page)
  | createSchedule (functionId : Uuid) (body : ScheduleCreate)
  | getSchedule (scheduleId : Uuid)
  | updateSchedule (scheduleId : Uuid) (body : ScheduleUpdate)
  | deleteSchedule (scheduleId : Uuid)
  | listKeys
  | createKey (name : Text)
  | revokeKey (keyId : Uuid)

inductive InvokeRequest where
  | listInvokableFunctions
  | getInvokedExecution (executionId : Uuid)
  | getInvokedExecutionLogs (executionId : Uuid) (p : Page)
  | invokeFunction (functionId : Uuid) (payload : Json) (wait : Bool)

inductive Request where
  | asUser (user : Uuid) (r : UserRequest)
  | withKey (xSopmKey : Text) (r : InvokeRequest)

section
variable (settings : ApiSettings) (g : Given)

def UserRequest.handle (user : Uuid) : UserRequest → Session Response
  | .listFunctions p statusFilter => Api.listFunctions user p statusFilter
  | .createFunction name description tags => Api.createFunction settings user g name description tags
  | .getFunction functionId => Api.getFunction user functionId
  | .updateFunction functionId body => Api.updateFunction user g functionId body
  | .deleteFunction functionId => Api.deleteFunction user g functionId
  | .createVersion functionId archive form => Api.createVersion settings user g functionId archive form
  | .listVersions functionId => Api.listVersions user functionId
  | .getVersion functionId versionId => Api.getVersion user functionId versionId
  | .activateVersion functionId versionId => Api.activateVersion user g functionId versionId
  | .updateCanary functionId body => Api.updateCanary user g functionId body
  | .listActivations functionId => Api.listActivations user functionId
  | .triggerExecution functionId body => Api.triggerExecution user g functionId body
  | .listExecutions p filter => Api.listExecutions user p filter
  | .getExecution executionId => Api.getExecution user executionId
  | .getExecutionLogs executionId p => Api.getExecutionLogs user executionId p
  | .cancelExecution executionId => Api.cancelExecution user g executionId
  | .listSchedules p => Api.listSchedules user p
  | .createSchedule functionId body => Api.createSchedule settings user g functionId body
  | .getSchedule scheduleId => Api.getSchedule user scheduleId
  | .updateSchedule scheduleId body => Api.updateSchedule settings user g scheduleId body
  | .deleteSchedule scheduleId => Api.deleteSchedule user scheduleId
  | .listKeys => Api.listKeys user
  | .createKey name => Api.createKey settings user g name
  | .revokeKey keyId => Api.revokeKey user g keyId

def InvokeRequest.handle (key : ApiKey) : InvokeRequest → Session Response
  | .listInvokableFunctions => Api.listInvokableFunctions key g
  | .getInvokedExecution executionId => Api.getInvokedExecution key executionId
  | .getInvokedExecutionLogs executionId p => Api.getInvokedExecutionLogs key executionId p
  | .invokeFunction functionId payload wait => Api.invokeFunction key g functionId payload wait

def Request.handle : Request → Session Response
  | .asUser user r => r.handle settings g user
  | .withKey xSopmKey r => do
    let key ← getApiKeyPrincipal settings g (some xSopmKey)
    r.handle g key

def perform (r : Request) (db : Database) : Except HttpError Response × Database :=
  transact (r.handle settings g) db

end

def Request.From (settings : ApiSettings) (u : Uuid) (db : Database) : Request → Prop
  | .asUser user _ => user = u
  | .withKey xSopmKey _ => KeyOf settings u xSopmKey db

variable {u : Uuid} {s : Database} {settings : ApiSettings} {g : Given}

theorem perform_of_ok {r : Request} {a : Response} {t : Database} (h : r.handle settings g s = .ok (a, t)) :
    (perform settings g r s).2 = t := by
  rw [perform, transact_ok h]

theorem perform_of_error {r : Request} {e : HttpError} (h : r.handle settings g s = .error e) :
    (perform settings g r s).2 = s := by
  rw [perform, transact_error h]

/-! ## Every route is isolated -/

theorem UserRequest.isolated (r : UserRequest) :
    IsolatedFor u (Supplied settings g) (r.handle settings g u) fun _ _ => True := by
  cases r with
  | listFunctions p statusFilter => exact listFunctions_isolated p statusFilter
  | createFunction name description tags => exact createFunction_isolated name description tags
  | getFunction functionId => exact getFunction_isolated functionId
  | updateFunction functionId body => exact updateFunction_isolated functionId body
  | deleteFunction functionId => exact deleteFunction_isolated functionId
  | createVersion functionId archive form => exact createVersion_isolated functionId archive form
  | listVersions functionId => exact listVersions_isolated functionId
  | getVersion functionId versionId => exact getVersion_isolated functionId versionId
  | activateVersion functionId versionId => exact activateVersion_isolated functionId versionId
  | updateCanary functionId body => exact updateCanary_isolated functionId body
  | listActivations functionId => exact listActivations_isolated functionId
  | triggerExecution functionId body => exact triggerExecution_isolated functionId body
  | listExecutions p filter => exact listExecutions_isolated p filter
  | getExecution executionId => exact getExecution_isolated executionId
  | getExecutionLogs executionId p => exact getExecutionLogs_isolated executionId p
  | cancelExecution executionId => exact cancelExecution_isolated executionId
  | listSchedules p => exact listSchedules_isolated p
  | createSchedule functionId body => exact createSchedule_isolated functionId body
  | getSchedule scheduleId => exact getSchedule_isolated scheduleId
  | updateSchedule scheduleId body => exact updateSchedule_isolated scheduleId body
  | deleteSchedule scheduleId => exact deleteSchedule_isolated scheduleId
  | listKeys => exact listKeys_isolated
  | createKey name => exact createKey_isolated name
  | revokeKey keyId => exact revokeKey_isolated keyId

theorem InvokeRequest.isolated (r : InvokeRequest) {key : ApiKey} (hkey : key.ownerId = u) :
    IsolatedFor u (fun s => Supplied settings g s ∧ Principal u key s) (r.handle g key) fun _ _ => True := by
  cases r with
  | listInvokableFunctions => exact listInvokableFunctions_isolated hkey
  | getInvokedExecution executionId => exact getInvokedExecution_isolated executionId fun _ h => h.2
  | getInvokedExecutionLogs executionId p => exact getInvokedExecutionLogs_isolated executionId p fun _ h => h.2
  | invokeFunction functionId payload wait => exact invokeFunction_isolated functionId payload wait hkey

theorem Request.isolated (r : Request) :
    IsolatedFor u (fun s => Supplied settings g s ∧ r.From settings u s) (r.handle settings g)
      fun _ _ => True := by
  cases r with
  | asUser user r =>
    apply Isolated.given fun _ h => h.2
    rintro rfl
    exact r.isolated.pre fun _ _ h => h.1
  | withKey xSopmKey r =>
    refine Isolated.bind getApiKeyPrincipal_isolated fun key => ?_
    exact Isolated.given (fun _ h => h.2.owner) r.isolated

/-! ## Reachable databases -/

theorem getApiKeyPrincipal_stranger {value : Text} (h : ∀ u, ¬ KeyOf settings u value s) :
    ∃ e, getApiKeyPrincipal settings g (some value) s = .error e := by
  have hnone : s.apiKeys.find? (fun k =>
      decide (k.keyHash = settings.hashApiKey value) && k.revokedAt.isNone) = none := by
    apply List.find?_eq_none.mpr
    intro k hk hprop
    exact h k.ownerId ⟨k, hk, of_decide_eq_true (Bool.and_eq_true_iff.mp hprop).1, rfl⟩
  unfold getApiKeyPrincipal
  cases hvalue : (some value).filter fun value => !value.isEmpty with
  | none => exact ⟨_, found_none_bind _ _ _⟩
  | some value' =>
    obtain rfl : value = value' := Option.some.inj (Option.eq_some_of_filter_eq_some hvalue)
    rw [found_some_bind, query_bind, hnone]
    exact ⟨_, found_none_bind _ _ _⟩

theorem perform_wellFormed (r : Request) (hs : WellFormed s) (hg : Supplied settings g s) :
    WellFormed (perform settings g r s).2 := by
  by_cases hfrom : ∃ u, r.From settings u s
  · obtain ⟨u, hfrom⟩ := hfrom
    exact (Request.isolated (u := u) r).transact_inv hs ⟨hg, hfrom⟩
  · cases r with
    | asUser user r => exact absurd ⟨user, rfl⟩ hfrom
    | withKey xSopmKey r =>
      obtain ⟨e, he⟩ := getApiKeyPrincipal_stranger (g := g) (not_exists.mp hfrom)
      have hrun : (Request.withKey xSopmKey r).handle settings g s = .error e := bind_error he
      rw [perform_of_error hrun]
      exact hs

inductive Action where
  | request (r : Request) (g : Given)
  | fire (id : Uuid)
  | failEnqueue (id : Uuid)
  | reschedule (id : Uuid)
  | worker (id : Uuid)

/-- The transactions of the routes, of the scheduler and of the workers. The rows
that a firing has read may have changed since, but the foreign keys of its insert
keep them from being gone. -/
inductive Step (settings : ApiSettings) (timing : SchedulerSettings) (s : Database) :
    Action → Database → Prop where
  | request {r : Request} {g : Given} (hg : Supplied settings g s) :
      Step settings timing s (.request r g) (perform settings g r s).2
  | fire {d : Scheduler.DueRow} {functions : List Function} {versions : List FunctionVersion} {draw : ℕ}
      {fn : Function} {version : FunctionVersion} {id : Uuid}
      (hroute : Scheduler.route timing functions versions draw d = some (fn, version))
      (hschedule : ∃ r ∈ s.schedules, r.id = d.fresh.id ∧ r.functionId = d.fresh.functionId)
      (hversion : ∃ v ∈ s.versions, v.id = version.id ∧ v.functionId = version.functionId)
      (hid : Fresh s id) :
      Step settings timing s (.fire id) (insertExecution (Scheduler.newExecution id d fn version).row s)
  | failEnqueue {id : Uuid} {exc : Text} {now : Time} :
      Step settings timing s (.failEnqueue id) (updateExecution id (Execution.failEnqueue .scheduler exc) now s)
  | advance {r : Schedule} {now next : Time} (hr : r ∈ s.schedules) :
      Step settings timing s (.reschedule r.id)
        (Database.updateSchedule r.id (touchSchedule now (Scheduler.advance next)) s)
  | recordRun {r : Schedule} {now next : Time} {execution : Uuid} (hr : r ∈ s.schedules) :
      Step settings timing s (.reschedule r.id)
        (Database.updateSchedule r.id (touchSchedule now (Scheduler.recordRun now next execution)) s)
  | worker {id : Uuid} {edit : Edit} {now : Time} :
      Step settings timing s (.worker id) (commitEdit id edit now s)

theorem route_some {timing : SchedulerSettings} {functions : List Function} {versions : List FunctionVersion}
    {draw : ℕ} {d : Scheduler.DueRow} {fn : Function} {version : FunctionVersion}
    (h : Scheduler.route timing functions versions draw d = some (fn, version)) :
    fn.id = d.fresh.functionId ∧ version.functionId = fn.id := by
  unfold Scheduler.route at h
  cases hfn : Table.get? functions d.fresh.functionId with
  | none => simp [hfn] at h
  | some fn' =>
    cases hchosen : chooseExecutionVersion versions fn' draw none with
    | none => simp [hfn, hchosen] at h
    | some version' =>
      simp only [hfn, hchosen] at h
      split_ifs at h
      obtain ⟨rfl, rfl⟩ := Prod.mk.inj (Option.some.inj h)
      exact ⟨Table.key_of_get? hfn, (chooseExecutionVersion_mem hchosen).2⟩

theorem reschedule_wellFormed (hs : WellFormed s) {r : Schedule} (hr : r ∈ s.schedules)
    {edit : Schedule → Schedule} (now : Time)
    (hedit : ∀ r, (edit r).id = r.id ∧ (edit r).functionId = r.functionId ∧ (edit r).ownerId = r.ownerId) :
    WellFormed (Database.updateSchedule r.id (touchSchedule now edit) s) := by
  refine (updateSchedule_confined hs hr (hs.scheduleOwner r hr) fun r' => ?_).wellFormed
  obtain ⟨hid, hfunction, howner⟩ := touchSchedule_columns now edit r'
  exact ⟨hid.trans (hedit r').1, hfunction.trans (hedit r').2.1, howner.trans (hedit r').2.2⟩

theorem step_wellFormed {timing : SchedulerSettings} {a : Action} {s' : Database} (hs : WellFormed s)
    (h : Step settings timing s a s') : WellFormed s' := by
  cases h with
  | request hg => exact perform_wellFormed _ hs hg
  | @fire d functions versions draw fn version id hroute hschedule hversion hid =>
    obtain ⟨hfn, hversionFn⟩ := route_some hroute
    obtain ⟨r, hr, hrid, hrfn⟩ := hschedule
    obtain ⟨v, hv, hvid, hvfn⟩ := hversion
    have hown : s.ownsFunction r.ownerId fn.id = true := by
      rw [hfn, ← hrfn]
      exact hs.scheduleOwner r hr
    refine (insertExecution_confined (u := r.ownerId) hs (ownsExecution_iff.mpr (Or.inl ⟨_, rfl, hown⟩))
      ?_ hid).wellFormed
    constructor
    · exact fun _ _ _ => Or.inl rfl
    · intro v' hv' hid'
      rw [List.inj_on_of_nodup_map hs.versionIds hv' hv ((Option.some.inj hid').symm.trans hvid.symm), hvfn,
        hversionFn]
      rfl
    · intro r' hr' hid'
      rw [List.inj_on_of_nodup_map hs.scheduleIds hr' hr ((Option.some.inj hid').symm.trans hrid.symm), hrfn,
        ← hfn]
      rfl
    · intro k _ hid'
      cases hid'
  | failEnqueue => exact updateExecution_wellFormed hs (Execution.failEnqueue_sameRequest _ _) _ _
  | advance hr => exact reschedule_wellFormed hs hr _ fun _ => ⟨rfl, rfl, rfl⟩
  | recordRun hr => exact reschedule_wellFormed hs hr _ fun _ => ⟨rfl, rfl, rfl⟩
  | worker => exact commitEdit_wellFormed hs _ _ _

theorem reachable_wellFormed {timing : SchedulerSettings}
    (h : Reachable (Step settings timing) (· = empty) s) : WellFormed s := by
  refine h.invariant ?_ fun _ _ _ hs hstep => step_wellFormed hs hstep
  rintro _ rfl
  exact wellFormed_empty

/-! ## Isolation -/

theorem Request.From.of_view {t : Database} {r : Request} (h : r.From settings u s)
    (hview : view u s = view u t) : r.From settings u t := by
  cases r with
  | asUser user r => exact h
  | withKey xSopmKey r =>
    obtain ⟨k, hk, hhash, howner⟩ := h
    have hmem : k ∈ (view u t).apiKeys := by
      rw [← hview]
      exact List.mem_filter.mpr ⟨hk, decide_eq_true howner⟩
    exact ⟨k, List.mem_of_mem_filter hmem, hhash, howner⟩

/-- Two reachable databases with the same rows of `u` answer a request of `u`
alike and end with the same rows of `u`, and no row of another user changes. -/
theorem request_isolated {timing : SchedulerSettings} {t : Database}
    (hs : Reachable (Step settings timing) (· = empty) s) (ht : Reachable (Step settings timing) (· = empty) t)
    (hview : view u s = view u t) (r : Request) (hfrom : r.From settings u s) (g : Given)
    (hsg : Supplied settings g s) (htg : Supplied settings g t) :
    (perform settings g r s).1 = (perform settings g r t).1 ∧
      view u (perform settings g r s).2 = view u (perform settings g r t).2 ∧
      ∀ v, v ≠ u → view v (perform settings g r s).2 = view v s := by
  apply (Request.isolated r).transact
  exact ⟨reachable_wellFormed hs, reachable_wellFormed ht, hview, ⟨hsg, hfrom⟩, htg, hfrom.of_view hview⟩

/-! ## Sequences of requests -/

structure Call (ρ : Type) where
  user : Uuid
  request : ρ
  given : Given

section
variable {ρ : Type} (settings : ApiSettings)

def after (route : ρ → UserRequest) (db : Database) (c : Call ρ) : Database :=
  (perform settings c.given (.asUser c.user (route c.request)) db).2

def SuppliedCall (db : Database) (c : Call ρ) : Prop := Supplied settings c.given db

instance (db : Database) (c : Call ρ) : Decidable (SuppliedCall settings db c) :=
  inferInstanceAs (Decidable (Supplied settings c.given db))

end

theorem after_keeps {ρ : Type} {route : ρ → UserRequest} {c : Call ρ} {I : Database → Prop} (hs : I s)
    (hok : ∀ p, (route c.request).handle settings c.given c.user s = .ok p → I p.2) :
    I (after settings route s c) := by
  cases hrun : (route c.request).handle settings c.given c.user s with
  | error e =>
    have hafter : after settings route s c = s := perform_of_error hrun
    rw [hafter]
    exact hs
  | ok p =>
    have hafter : after settings route s c = p.2 := perform_of_ok hrun
    rw [hafter]
    exact hok p hrun

theorem after_wellFormed {ρ : Type} {route : ρ → UserRequest} {c : Call ρ} (hs : WellFormed s)
    (hc : SuppliedCall settings s c) : WellFormed (after settings route s c) :=
  perform_wellFormed _ hs hc

/-! A second user with a function, for a concrete pair of databases. -/

def sampleSettings : ApiSettings where
  maxFunctionsPerUser := 100
  maxVersionsPerFunction := 50
  maxFunctionSizeBytes := 52428800
  hashApiKey := id
  nextRun _ now := some (now + 60000000)
  uuidText id := (toString id).toList

def sampleGiven (newId : Uuid) : Given where
  now := 0
  newId := newId
  draw := 0
  rawKey := "key".toList
  storageFails _ := false
  enqueueFails := none
  observed := []
  lazyLoads := true

def sampleCreate (user : Uuid) : Request := .asUser user (.createFunction "handler".toList none (.obj []))

def sampleDatabase : Database := (perform sampleSettings (sampleGiven 1) (sampleCreate 8) empty).2

theorem reachable_sample (timing : SchedulerSettings) :
    Reachable (Step sampleSettings timing) (· = empty) sampleDatabase := by
  have hstep : Step sampleSettings timing empty (.request (sampleCreate 8) (sampleGiven 1)) sampleDatabase :=
    .request (by decide)
  exact ⟨empty, [_], rfl, .single hstep⟩

theorem request_isolated_created :
    (perform sampleSettings (sampleGiven 2) (sampleCreate 7) sampleDatabase).1 =
        (perform sampleSettings (sampleGiven 2) (sampleCreate 7) empty).1 ∧
      view 7 (perform sampleSettings (sampleGiven 2) (sampleCreate 7) sampleDatabase).2 =
        view 7 (perform sampleSettings (sampleGiven 2) (sampleCreate 7) empty).2 ∧
      view 8 (perform sampleSettings (sampleGiven 2) (sampleCreate 7) sampleDatabase).2 =
        view 8 sampleDatabase := by
  obtain ⟨hanswer, hown, hothers⟩ := request_isolated (reachable_sample ⟨30, 3⟩)
    (.start rfl) (by decide) (sampleCreate 7) rfl (sampleGiven 2) (by decide) (by decide)
  exact ⟨hanswer, hown, hothers 8 (by decide)⟩

end PyFaaS.Api
