import PyFaaS.Isolation.Statements
import PyFaaS.Routers.Functions

/-!
# What the function routes do

One lemma for each route that changes functions or versions: what it has found
and written when it has answered. A route that does not answer changes nothing.
-/

namespace PyFaaS.Api
open Transactions Database

variable {u : Uuid} {s t : Database} {settings : ApiSettings} {g : Given} {functionId : Uuid} {a : Response}

structure Found (u functionId : Uuid) (s : Database) (fn : Function) : Prop where
  holds : Holds u fn s
  id : fn.id = functionId

theorem findFunctionOr404_ok {fn : Function} (h : findFunctionOr404 functionId u s = .ok (fn, t)) :
    s = t ∧ Found u functionId s fn := by
  simp only [findFunctionOr404, query_bind, found_ok] at h
  obtain ⟨fn', hfind, hret⟩ := h
  obtain ⟨rfl, rfl⟩ := Prod.mk.inj hret
  obtain ⟨hfn, hid⟩ := holds_of_find hfind
  exact ⟨rfl, hfn, hid⟩

theorem getFunctionOr404_ok {fn : FunctionResponse} (h : getFunctionOr404 functionId u s = .ok (fn, t)) :
    s = t ∧ Found u functionId s fn.row := by
  obtain ⟨fn', s', hfind, hquery⟩ := bind_ok.mp h
  obtain ⟨rfl, hfn⟩ := findFunctionOr404_ok hfind
  obtain ⟨rfl, rfl⟩ := Prod.mk.inj (Except.ok.inj hquery)
  exact ⟨rfl, hfn⟩

theorem getFunctionOr404_of_mem {fn : Function} (h : fn ∈ s.functions) (hid : fn.id = functionId)
    (howner : fn.ownerId = u) : ∃ fn', getFunctionOr404 functionId u s = .ok (fn', s) := by
  have hsome : (s.functions.find? fun f => decide (f.id = functionId) && decide (f.ownerId = u)).isSome := by
    apply List.find?_isSome.mpr
    exact ⟨fn, h, by simp [hid, howner]⟩
  obtain ⟨fn', hfind⟩ := Option.isSome_iff_exists.mp hsome
  refine ⟨withVersions s fn', ?_⟩
  unfold getFunctionOr404 findFunctionOr404
  rw [bind_ok]
  exact ⟨fn', s, by rw [query_bind, hfind]; rfl, rfl⟩

def quotaCount (u : Uuid) (db : Database) : ℕ :=
  (db.functions.filter fun f => decide (f.ownerId = u) && !decide (f.status = .deprecated)).length

theorem createFunction_ok {name : Text} {description : Option Text} {tags : Json}
    (h : createFunction settings u g name description tags s = .ok (a, t)) :
    quotaCount u s < settings.maxFunctionsPerUser ∧ ∃ fn, t = insertFunction fn s ∧ fn.id = g.newId ∧
      fn.ownerId = u ∧ fn.status = .active ∧ fn.activeVersionId = none ∧ fn.canaryVersionId = none ∧
      fn.canaryPercent = 0 := by
  simp only [createFunction, query_bind, require_bind_ok, write_bind, return_ok] at h
  obtain ⟨hcount, -, hret⟩ := h
  obtain ⟨-, rfl⟩ := Prod.mk.inj hret
  exact ⟨of_decide_eq_true hcount, _, rfl, rfl, rfl, rfl, rfl, rfl, rfl⟩

theorem updateFunction_ok {body : FunctionUpdate} (h : updateFunction u g functionId body s = .ok (a, t)) :
    ∃ fn, Found u functionId s fn ∧
      t = Database.updateFunction functionId (touchFunction g.now body.edit) s := by
  obtain ⟨fn, s', hget, hrest⟩ := bind_ok.mp h
  obtain ⟨rfl, hfn⟩ := getFunctionOr404_ok hget
  rw [write_bind] at hrest
  obtain ⟨fn', s'', hget', hret⟩ := bind_ok.mp hrest
  obtain ⟨rfl, -⟩ := getFunctionOr404_ok hget'
  obtain ⟨-, rfl⟩ := Prod.mk.inj (return_ok.mp hret)
  exact ⟨fn.row, hfn, by rw [hfn.id]⟩

theorem updateFunction_runs {body : FunctionUpdate} {fn : Function} (h : fn ∈ s.functions)
    (hid : fn.id = functionId) (howner : fn.ownerId = u) :
    ∃ a t, updateFunction u g functionId body s = .ok (a, t) := by
  obtain ⟨fn', hget⟩ := getFunctionOr404_of_mem h hid howner
  obtain ⟨-, hfn'⟩ := getFunctionOr404_ok hget
  have hrow : touchFunction g.now body.edit fn ∈
      (Database.updateFunction fn'.row.id (touchFunction g.now body.edit) s).functions :=
    List.mem_map.mpr ⟨fn, h, if_pos (hid.trans hfn'.id.symm)⟩
  have hid' : (touchFunction g.now body.edit fn).id = functionId := by
    rw [touchFunction_eq]
    exact hid
  have howner' : (touchFunction g.now body.edit fn).ownerId = u := by
    rw [touchFunction_eq]
    exact howner
  obtain ⟨fn'', hget'⟩ := getFunctionOr404_of_mem hrow hid' howner'
  refine ⟨.function fn'', Database.updateFunction fn'.row.id (touchFunction g.now body.edit) s,
    bind_ok.mpr ⟨fn', s, hget, ?_⟩⟩
  rw [write_bind]
  exact bind_ok.mpr ⟨fn'', _, hget', rfl⟩

def versionsOf (functionId : Uuid) (db : Database) : List FunctionVersion :=
  db.versions.filter fun v => decide (v.functionId = functionId)

theorem deleteFunction_ok (h : deleteFunction u g functionId s = .ok (a, t)) :
    ∃ fn, Found u functionId s fn ∧
      (∀ e ∈ s.executions, e.functionId = some functionId → isUnfinished e.status = false) ∧
      t = deleteStatements u g functionId ((versionsOf functionId s).map FunctionVersion.id) s := by
  obtain ⟨fn, s', hget, hrest⟩ := bind_ok.mp h
  obtain ⟨rfl, hfn⟩ := getFunctionOr404_ok hget
  simp only [query_bind, require_bind_ok, write_bind, hfn.id] at hrest
  obtain ⟨hactive, hrest⟩ := hrest
  refine ⟨fn.row, hfn, ?_, ?_⟩
  · intro e he hid
    have hnil := List.length_eq_zero_iff.mp (of_decide_eq_true hactive)
    have hnot := List.filter_eq_nil_iff.mp hnil e he
    simpa [hid] using hnot
  · cases hpath : ((s.versions.filter fun v => decide (v.functionId = functionId)).map
        FunctionVersion.artifactPath).find? g.storageFails with
    | some path =>
      rw [hpath] at hrest
      exact (abort_ok.mp hrest).elim
    | none =>
      rw [hpath] at hrest
      obtain ⟨-, rfl⟩ := Prod.mk.inj (return_ok.mp hrest)
      rfl

/-! ## Versions -/

structure Uploaded (settings : ApiSettings) (g : Given) (functionId : Uuid) (s : Database)
    (version : FunctionVersion) : Prop where
  id : version.id = g.newId
  function : version.functionId = functionId
  versionNumber : version.versionNumber = nextVersionNumber (versionsOf functionId s)
  artifactPath : version.artifactPath = artifactPath settings functionId g.newId
  isActive : version.isActive = true

def activateNew (g : Given) (row : Function) : Function := { row with activeVersionId := some g.newId }

theorem createVersion_ok {archive : Archive} {form : VersionForm}
    (h : createVersion settings u g functionId archive form s = .ok (a, t)) :
    ∃ fn version, Found u functionId s fn ∧ Uploaded settings g functionId s version ∧
      (versionsOf functionId s).length < settings.maxVersionsPerFunction ∧
      t = Database.updateFunction functionId (touchFunction g.now (activateNew g)) (insertVersion version s) ∧
      a = .version version := by
  obtain ⟨fn, s', hget, hrest⟩ := bind_ok.mp h
  obtain ⟨rfl, hfn⟩ := getFunctionOr404_ok hget
  simp only [query_bind, require_bind_ok, write_bind, return_ok, hfn.id] at hrest
  obtain ⟨-, -, -, hcount, -, hret⟩ := hrest
  obtain ⟨ha, rfl⟩ := Prod.mk.inj hret
  exact ⟨fn.row, _, hfn, ⟨rfl, rfl, rfl, rfl, rfl⟩, of_decide_eq_true hcount, rfl, ha⟩

theorem getActiveVersionOr404_ok {versionId : Uuid} {version : FunctionVersion}
    (h : getActiveVersionOr404 functionId versionId s = .ok (version, t)) :
    s = t ∧ version ∈ versionsOf functionId s ∧ version.id = versionId := by
  simp only [getActiveVersionOr404, query_bind, found_ok] at h
  obtain ⟨version', hfind, hret⟩ := h
  obtain ⟨rfl, rfl⟩ := Prod.mk.inj hret
  have hprop := List.find?_some hfind
  simp only [Bool.and_eq_true, decide_eq_true_eq] at hprop
  exact ⟨rfl, List.mem_filter.mpr ⟨List.mem_of_find?_eq_some hfind, by simpa using hprop.1.2⟩, hprop.1.1⟩

/-! ## Changes of routing -/

def activate (versionId : Uuid) (row : Function) : Function :=
  { row with activeVersionId := some versionId, canaryVersionId := none, canaryPercent := 0 }

def setCanary (versionId : Uuid) (percent : ℕ) (row : Function) : Function :=
  { row with canaryVersionId := some versionId, canaryPercent := percent }

inductive Rerouted (u : Uuid) (g : Given) (s : Database) (fn : Function) :
    (Function → Function) → VersionActivation → Prop where
  | activate {version : FunctionVersion} (hversion : version ∈ versionsOf fn.id s) :
      Rerouted u g s fn (activate version.id) (recordActivation u g fn "activate" (some version.id) none 0)
  | promote {version : FunctionVersion} (hversion : version ∈ versionsOf fn.id s) :
      Rerouted u g s fn (activate version.id) (recordActivation u g fn "promote" (some version.id) none 0)
  | clear : Rerouted u g s fn clearCanary (recordActivation u g fn "canary_clear" none none 0)
  | canary {version : FunctionVersion} {percent : ℕ} (hversion : version ∈ versionsOf fn.id s)
      (hne : some version.id ≠ fn.activeVersionId) (hpos : 0 < percent) (hlt : percent < 100) :
      Rerouted u g s fn (setCanary version.id percent)
        (recordActivation u g fn "canary_update" fn.activeVersionId (some version.id) percent)

def Reroutes (u : Uuid) (g : Given) (functionId : Uuid) (s t : Database) : Prop :=
  ∃ fn edit row, Found u functionId s fn ∧ Rerouted u g s fn edit row ∧
    t = insertActivation row (Database.updateFunction functionId (touchFunction g.now edit) s)

theorem reload_ok {loaded : FunctionResponse} (h : reload u functionId loaded s = .ok (a, t)) : s = t := by
  obtain ⟨fn, s', hget, hret⟩ := bind_ok.mp h
  obtain ⟨rfl, -⟩ := getFunctionOr404_ok hget
  exact (Prod.mk.inj (return_ok.mp hret)).2.symm

theorem activateVersion_ok {versionId : Uuid} (h : activateVersion u g functionId versionId s = .ok (a, t)) :
    Reroutes u g functionId s t := by
  obtain ⟨fn, s', hget, hrest⟩ := bind_ok.mp h
  obtain ⟨rfl, hfn⟩ := getFunctionOr404_ok hget
  obtain ⟨version, s'', hversion, hwrites⟩ := bind_ok.mp hrest
  obtain ⟨rfl, hmem, -⟩ := getActiveVersionOr404_ok hversion
  simp only [write_bind, hfn.id] at hwrites
  exact ⟨fn.row, _, _, hfn, .activate hmem, (reload_ok hwrites).symm⟩

theorem updateCanary_ok {body : CanaryUpdate} (h : updateCanary u g functionId body s = .ok (a, t)) :
    Reroutes u g functionId s t := by
  obtain ⟨fn, s', hget, hrest⟩ := bind_ok.mp h
  obtain ⟨rfl, hfn⟩ := getFunctionOr404_ok hget
  have hclear : (do
      write (Database.updateFunction fn.row.id (touchFunction g.now clearCanary))
      write (insertActivation (recordActivation u g fn.row "canary_clear" none none 0))
      reload u functionId fn) s = .ok (a, t) → Reroutes u g functionId s t := by
    intro hrun
    simp only [write_bind, hfn.id] at hrun
    exact ⟨fn.row, _, _, hfn, .clear, (reload_ok hrun).symm⟩
  cases hid : body.canaryVersionId with
  | none =>
    simp only [hid] at hrest
    exact hclear hrest
  | some canaryVersionId =>
    cases hzero : decide (body.canaryPercent = 0) with
    | true =>
      simp only [hid, hzero] at hrest
      exact hclear hrest
    | false =>
      simp only [hid, hzero] at hrest
      obtain ⟨version, s'', hversion, hchecked⟩ := bind_ok.mp hrest
      obtain ⟨rfl, hmem, rfl⟩ := getActiveVersionOr404_ok hversion
      obtain ⟨hdiffers, hwrites⟩ := require_bind_ok.mp hchecked
      split_ifs at hwrites with hfull
      · simp only [write_bind, hfn.id] at hwrites
        exact ⟨fn.row, _, _, hfn, .promote hmem, (reload_ok hwrites).symm⟩
      · simp only [write_bind, hfn.id] at hwrites
        have hlt : body.canaryPercent < 100 := lt_of_le_of_ne body.percentBound hfull
        have hne : some version.id ≠ fn.row.activeVersionId := by simpa [hlt] using hdiffers
        have hpos : 0 < body.canaryPercent := Nat.pos_of_ne_zero (of_decide_eq_false hzero)
        exact ⟨fn.row, _, _, hfn, .canary hmem hne hpos hlt, (reload_ok hwrites).symm⟩

end PyFaaS.Api
