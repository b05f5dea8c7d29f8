import PyFaaS.ActiveFunctions
import PyFaaS.Footprints
import PyFaaS.VersionRegistry

/-!
# Where an execution is routed

No transaction of the routes, of the scheduler or of a worker breaks the routing of a
function. So in every reachable database a request for an execution is answered with one of
the version that the draw, the canary and the request name, and refused only where there is
none.
-/

namespace PyFaaS.RoutedExecutions
open Api Database Transactions VersionRegistry
open Runs (Reachable)

variable {settings : ApiSettings} {timing : SchedulerSettings} {g : Given} {u functionId : Uuid} {s s' : Database}
  {fn : Function} {a : Action}

/-! ## The registry over every route -/

def registry (db : Database) : List Function × List FunctionVersion := (db.functions, db.versions)

theorem blind_registry : Blind registry := fun _ _ _ _ _ => rfl

theorem allRegistered_of_registry (hs : AllRegistered settings s) (h : registry s' = registry s) :
    AllRegistered settings s' := by
  obtain ⟨hfunctions, hversions⟩ := Prod.mk.inj h
  unfold AllRegistered versionsOf
  rw [hfunctions, hversions]
  exact hs

theorem registered_edit {versions : List FunctionVersion} (body : FunctionUpdate)
    (h : Registered settings versions fn) : Registered settings versions (body.edit fn) := { h with }

theorem updateFunction_registered {body : FunctionUpdate} (h : AllRegistered settings s) :
    AllRegistered settings (Database.updateFunction functionId (touchFunction g.now body.edit) s) := by
  intro fn' hfn'
  change Registered settings (versionsOf fn'.id s) fn'
  rcases Table.mem_modify hfn' with ⟨hfn', -⟩ | ⟨fn, hfn, -, rfl⟩
  · exact h fn' hfn'
  · have hsame : (touchFunction g.now body.edit fn).id = fn.id := by
      rw [touchFunction_eq]
      rfl
    rw [hsame]
    exact (registered_edit body (h fn hfn)).touch

theorem deleteFunction_registered {versionIds : List Uuid} (h : AllRegistered settings s) :
    AllRegistered settings (deleteStatements u g functionId versionIds s) := by
  rw [deleteStatements_eq]
  intro fn' hfn'
  obtain ⟨hmem, hkept⟩ := List.mem_filter.mp hfn'
  have hne : fn'.id ≠ functionId := by simpa using hkept
  have hfn : fn' ∈ s.functions := by
    rcases Table.mem_modify hmem with ⟨hfn, -⟩ | ⟨fn, -, hid, rfl⟩
    · exact hfn
    · have hid : fn.id = functionId := hid
      refine absurd ?_ hne
      rw [touchFunction_eq]
      exact hid
  have hversions : versionsOf fn'.id (deleteFunctionRow functionId (deleteVersions functionId
      (deleteActivations functionId (deleteSchedules (fun r => decide (r.functionId = functionId))
        (Database.updateFunction functionId (touchFunction g.now clearVersions)
          (detachVersions versionIds g.now (detachExecutions functionId u g.now s))))))) = versionsOf fn'.id s := by
    change (((s.versions.filter _).filter _).filter _) = s.versions.filter _
    rw [Table.filter_filter_of_unchanged, Table.filter_filter_of_unchanged]
    · intro v _ hv
      simpa [of_decide_eq_true hv] using hne
    · intro v _ hv
      simpa [of_decide_eq_true hv] using hne
  rw [hversions]
  exact h fn' hfn

theorem keys_registry {r : UserRequest} (h : (∃ name, r = .createKey name) ∨ ∃ keyId, r = .revokeKey keyId) :
    Keeps registry (r.handle settings g u) := by
  rcases h with ⟨name, rfl⟩ | ⟨keyId, rfl⟩
  · exact Keeps.bind (Keeps.write fun _ => rfl) fun _ => Keeps.pure _
  · exact Keeps.bind (Keeps.query _) fun _ => Keeps.bind (Keeps.found _ _) fun _ =>
      Keeps.bind (Keeps.write fun _ => rfl) fun _ => Keeps.pure _

theorem principal_registry (value : Option Text) : Keeps registry (getApiKeyPrincipal settings g value) :=
  Keeps.bind (Keeps.found _ _) fun _ => Keeps.bind (Keeps.query _) fun _ => Keeps.bind (Keeps.found _ _) fun _ =>
    Keeps.bind (Keeps.write fun _ => rfl) fun _ => Keeps.pure _

theorem perform_registered (hs : WellFormed s) (hg : Supplied settings g s) (h : AllRegistered settings s)
    (r : Request) : AllRegistered settings (perform settings g r s).2 := by
  have hkeeps : Keeps registry (r.handle settings g) → AllRegistered settings (perform settings g r s).2 :=
    fun hkept => allRegistered_of_registry h (hkept.transact s)
  cases r with
  | withKey xSopmKey r =>
    apply hkeeps
    exact Keeps.bind (principal_registry _) fun key => blind_registry.invoke r
  | asUser user r =>
    have hroute : Keeps registry (r.handle settings g user) → _ := hkeeps
    -- an error leaves the database as it is
    have hok : (∀ p, r.handle settings g user s = .ok p → AllRegistered settings p.2) →
        AllRegistered settings (perform settings g (.asUser user r) s).2 := by
      intro hall
      cases hrun : r.handle settings g user s with
      | error e => rwa [show (perform settings g (.asUser user r) s).2 = s from perform_of_error hrun]
      | ok p =>
        rw [show (perform settings g (.asUser user r) s).2 = p.2 from perform_of_ok hrun]
        exact hall p hrun
    cases r with
    | createFunction name description tags =>
      apply hok
      intro p hrun
      obtain ⟨-, fn, ht, hid, -, -, hactive, hcanary, hpercent⟩ := createFunction_ok hrun
      rw [ht]
      exact allRegistered_insertFunction h hg.id hid hactive hcanary hpercent
    | updateFunction functionId body =>
      apply hok
      intro p hrun
      obtain ⟨fn, -, ht⟩ := updateFunction_ok hrun
      rw [ht]
      exact updateFunction_registered h
    | deleteFunction functionId =>
      apply hok
      intro p hrun
      obtain ⟨fn, -, -, ht⟩ := deleteFunction_ok hrun
      rw [ht]
      exact deleteFunction_registered h
    | createVersion functionId archive form =>
      apply hok
      intro p hrun
      obtain ⟨fn, version, -, hup, hbound, ht, -⟩ := createVersion_ok hrun
      rw [ht]
      exact allRegistered_upload h hg.id hup hbound
    | activateVersion functionId versionId =>
      exact hok fun p hrun => allRegistered_reroutes hs h (activateVersion_ok hrun)
    | updateCanary functionId body => exact hok fun p hrun => allRegistered_reroutes hs h (updateCanary_ok hrun)
    | createKey name => exact hroute (keys_registry (Or.inl ⟨name, rfl⟩))
    | revokeKey keyId => exact hroute (keys_registry (Or.inr ⟨keyId, rfl⟩))
    | _ => exact hroute (blind_registry.light rfl)

theorem step_registered (hs : WellFormed s) (h : AllRegistered settings s) (hstep : Step settings timing s a s') :
    AllRegistered settings s' := by
  cases hstep with
  | request hg => exact perform_registered hs hg h _
  | fire => exact allRegistered_of_registry h rfl
  | failEnqueue => exact allRegistered_of_registry h rfl
  | advance => exact allRegistered_of_registry h rfl
  | recordRun => exact allRegistered_of_registry h rfl
  | worker => exact allRegistered_of_registry h rfl

theorem reachable_registered (h : Reachable (Step settings timing) (· = empty) s) :
    WellFormed s ∧ AllRegistered settings s := by
  apply h.invariant (I := fun s => WellFormed s ∧ AllRegistered settings s)
  · rintro _ rfl
    exact ⟨wellFormed_empty, fun _ h => by cases h⟩
  · exact fun s a s' hs hstep => ⟨step_wellFormed hs.1 hstep, step_registered hs.1 hs.2 hstep⟩

/-! ## Requests for an execution -/

def routed (fn : Function) (draw : ℕ) : Option Uuid → Option Uuid
  | some id => some id
  | none => if draw < fn.canaryPercent then fn.canaryVersionId else fn.activeVersionId

theorem chosen_of_version (h : Registered settings (versionsOf fn.id s) fn) {draw : ℕ} {explicit : Option Uuid}
    {v : FunctionVersion} (hv : v ∈ versionsOf fn.id s) (hid : routed fn draw explicit = some v.id) :
    ∃ version, chooseExecutionVersion s.versions fn draw explicit = some version ∧ version.id = v.id := by
  obtain ⟨version, -, hsame, hfind⟩ := find_executable h ⟨v, hv, rfl⟩
  refine ⟨version, ?_, hsame⟩
  cases explicit with
  | some id =>
    obtain rfl : id = v.id := Option.some.inj hid
    exact hfind
  | none =>
    have hid : (if draw < fn.canaryPercent then fn.canaryVersionId else fn.activeVersionId) = some v.id := hid
    rw [choose_eq h, hid]
    exact hfind

theorem chosen_of_none (h : Registered settings (versionsOf fn.id s) fn) {draw : ℕ} {explicit : Option Uuid}
    (hnone : ∀ v ∈ versionsOf fn.id s, routed fn draw explicit ≠ some v.id) :
    chooseExecutionVersion s.versions fn draw explicit = none := by
  cases hchosen : chooseExecutionVersion s.versions fn draw explicit with
  | none => rfl
  | some version =>
    obtain ⟨hmem, hfunction⟩ := chooseExecutionVersion_mem hchosen
    refine absurd ?_ (hnone version (List.mem_filter.mpr ⟨hmem, decide_eq_true hfunction⟩))
    cases explicit with
    | some id =>
      have hprop := List.find?_some hchosen
      simp only [Bool.and_eq_true, decide_eq_true_eq] at hprop
      exact congrArg some hprop.1.1.symm
    | none =>
      rw [choose_eq h] at hchosen
      obtain ⟨id, hid, hfind⟩ := Option.bind_eq_some_iff.mp hchosen
      have hprop := List.find?_some hfind
      simp only [Bool.and_eq_true, decide_eq_true_eq] at hprop
      rw [hprop.1.1]
      exact hid

theorem submit_answers (n : NewExecution) (s : Database) : ∃ e t, submit g .trigger n s = .ok (e, t) ∧
    e.functionId = n.functionId ∧ e.functionVersionId = n.functionVersionId := by
  unfold submit
  cases g.enqueueFails with
  | none => exact ⟨_, _, rfl, rfl, rfl⟩
  | some exc => exact ⟨_, _, rfl, rfl, rfl⟩

theorem find_own (hs : WellFormed s) (hfn : fn ∈ s.functions) :
    findFunctionOr404 fn.id fn.ownerId s = .ok (fn, s) := by
  have hsome : (s.functions.find? fun f => decide (f.id = fn.id) && decide (f.ownerId = fn.ownerId)).isSome :=
    List.find?_isSome.mpr ⟨fn, hfn, by simp⟩
  obtain ⟨found, hfind⟩ := Option.isSome_iff_exists.mp hsome
  have hprop := List.find?_some hfind
  simp only [Bool.and_eq_true, decide_eq_true_eq] at hprop
  obtain rfl : found = fn := function_unique hs (List.mem_of_find?_eq_some hfind) hfn hprop.1
  exact ActiveFunctions.findFunctionOr404_found hfind

/-- The owner's request is answered with an execution of the routed version, and with 422
exactly if that is no version of the function. Without a version in the request there is
one as soon as something has been uploaded. -/
theorem trigger_routed (hs : Reachable (Step settings timing) (· = empty) s) (hfn : fn ∈ s.functions)
    (body : ExecutionTrigger) :
    (∀ v ∈ versionsOf fn.id s, routed fn g.draw body.versionId = some v.id →
      ∃ item, (perform settings g (.asUser fn.ownerId (.triggerExecution fn.id body)) s).1 = .ok (.execution item) ∧
        item.functionId = some fn.id ∧ item.functionVersionId = some v.id) ∧
    ((∀ v ∈ versionsOf fn.id s, routed fn g.draw body.versionId ≠ some v.id) →
      perform settings g (.asUser fn.ownerId (.triggerExecution fn.id body)) s = (.error (.exception 422
        "Function has no executable version; upload or activate a version first".toList), s)) ∧
    (body.versionId = none → versionsOf fn.id s ≠ [] →
      ∃ v ∈ versionsOf fn.id s, routed fn g.draw body.versionId = some v.id) := by
  obtain ⟨hwellFormed, hall⟩ := reachable_registered hs
  have hregistered := hall fn hfn
  have hrun : (Request.asUser fn.ownerId (.triggerExecution fn.id body)).handle settings g s = _ :=
    bind_run (find_own hwellFormed hfn)
  rw [query_bind] at hrun
  refine ⟨fun v hv hid => ?_, fun hnone => ?_, fun hnamed hne => ?_⟩
  · obtain ⟨version, hchosen, hsame⟩ := chosen_of_version hregistered hv hid
    obtain ⟨e, t, hsubmit, hfunction, hversion⟩ := submit_answers (g := g)
      (newFunctionExecution fn.ownerId g fn version none body.payload (body.timeoutOr version.timeout)) s
    rw [hchosen, found_some_bind, bind_run hsubmit] at hrun
    refine ⟨.ofRow e, ?_, hfunction, ?_⟩
    · rw [perform, transact_ok hrun]
    · rw [← hsame]
      exact hversion
  · rw [chosen_of_none hregistered hnone, found_none_bind] at hrun
    rw [perform, transact_error hrun]
  · obtain ⟨version, hversion, hchosen⟩ := choose_some hregistered hne g.draw
    rw [hnamed]
    by_contra hnot
    have hnone := chosen_of_none hregistered fun v hv hid => hnot ⟨v, hv, hid⟩
    rw [hchosen] at hnone
    cases hnone

/-! The canary of 30 percent is drawn. -/

theorem reachable_calls {calls : List (Call RegistryRequest)} (hs : Reachable (Step settings timing) (· = empty) s)
    (hcalls : Runs.Along (next settings) (SuppliedCall settings) s calls) :
    Reachable (Step settings timing) (· = empty) (calls.foldl (next settings) s) := by
  induction calls generalizing s with
  | nil => exact hs
  | cons c calls ih =>
    have hstep : Step settings timing s (.request (.asUser c.user c.request.route) c.given) (next settings s c) :=
      .request hcalls.1
    exact ih (hs.step hstep) hcalls.2

def sampleRegistry : Database := sampleCalls.foldl (next sampleSettings) empty

def sampleDraw : Given := { sampleGiven 5 with draw := 29 }

def sampleTrigger : ExecutionTrigger := ⟨.obj [], none, none⟩

theorem trigger_routed_sample : ∃ fn ∈ sampleRegistry.functions, ∃ item,
    (perform sampleSettings sampleDraw (.asUser fn.ownerId (.triggerExecution fn.id sampleTrigger))
      sampleRegistry).1 = .ok (.execution item) ∧ item.functionId = some fn.id ∧ item.functionVersionId = some 2 := by
  have hreachable : Reachable (Step sampleSettings ⟨30, 3⟩) (· = empty) sampleRegistry :=
    reachable_calls (.start rfl) (by decide)
  have hcanary : ∃ fn ∈ sampleRegistry.functions, ∃ v ∈ versionsOf fn.id sampleRegistry,
      v.id = 2 ∧ routed fn 29 none = some v.id := by decide
  obtain ⟨fn, hfn, v, hv, hid, hrouted⟩ := hcanary
  obtain ⟨item, hanswer, hfunction, hversion⟩ :=
    (trigger_routed (g := sampleDraw) hreachable hfn sampleTrigger).1 v hv hrouted
  exact ⟨fn, hfn, item, hanswer, hfunction, hversion.trans (congrArg some hid)⟩

end PyFaaS.RoutedExecutions
