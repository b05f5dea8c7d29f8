import PyFaaS.RouteEffects
import PyFaaS.TenantIsolation

/-!
# Versions and canary routing

The versions of a function are numbered without gaps, and its active and canary
version are two different versions of its own. Every upload, activation and
canary request keeps this, so routing finds a version and the canary gets its
share of the draws.
-/

namespace PyFaaS.VersionRegistry
open Api Database Transactions
open Runs (Along Throughout)

inductive RegistryRequest where
  | createFunction (name : Text) (description : Option Text) (tags : Json)
  | createVersion (functionId : Uuid) (archive : Archive) (form : VersionForm)
  | activateVersion (functionId versionId : Uuid)
  | updateCanary (functionId : Uuid) (body : CanaryUpdate)

def RegistryRequest.route : RegistryRequest → UserRequest
  | .createFunction name description tags => .createFunction name description tags
  | .createVersion functionId archive form => .createVersion functionId archive form
  | .activateVersion functionId versionId => .activateVersion functionId versionId
  | .updateCanary functionId body => .updateCanary functionId body

abbrev next (settings : ApiSettings) (db : Database) (c : Call RegistryRequest) : Database :=
  after settings RegistryRequest.route db c

structure Registered (settings : ApiSettings) (versions : List FunctionVersion) (fn : Function) : Prop where
  numbers : versions.map FunctionVersion.versionNumber = List.range' 1 versions.length
  bound : versions.length ≤ settings.maxVersionsPerFunction
  executable : ∀ v ∈ versions, v.functionId = fn.id ∧ v.isActive = true
  activeNone : fn.activeVersionId = none ↔ versions = []
  active : ∀ id, fn.activeVersionId = some id → ∃ v ∈ versions, v.id = id
  canaryNone : fn.canaryVersionId = none ↔ fn.canaryPercent = 0
  canary : ∀ id, fn.canaryVersionId = some id → (∃ v ∈ versions, v.id = id) ∧
    fn.activeVersionId ≠ some id ∧ 1 ≤ fn.canaryPercent ∧ fn.canaryPercent ≤ 99

def AllRegistered (settings : ApiSettings) (db : Database) : Prop :=
  ∀ fn ∈ db.functions, Registered settings (versionsOf fn.id db) fn

variable {settings : ApiSettings} {db s t : Database} {fn : Function} {versions : List FunctionVersion}
  {u functionId : Uuid} {g : Given}

theorem Registered.touch {now : Time} {edit : Function → Function} (h : Registered settings versions (edit fn)) :
    Registered settings versions (touchFunction now edit fn) := by
  rw [touchFunction_eq]
  exact { h with }

/-! ## Uploads -/

theorem foldl_max_range' (n k : ℕ) : (List.range' (k + 1) n).foldl max k = k + n := by
  induction n generalizing k with
  | zero => rfl
  | succ n ih =>
    rw [List.range'_succ, List.foldl_cons, max_eq_right (Nat.le_succ k), ih]
    omega

theorem nextVersionNumber_eq (h : versions.map FunctionVersion.versionNumber = List.range' 1 versions.length) :
    nextVersionNumber versions = versions.length + 1 := by
  rw [nextVersionNumber, h, foldl_max_range' versions.length 0]
  omega

theorem registered_upload {version : FunctionVersion} (h : Registered settings versions fn)
    (hfresh : fn.canaryVersionId ≠ some g.newId) (hid : version.id = g.newId) (hfn : version.functionId = fn.id)
    (hnumber : version.versionNumber = nextVersionNumber versions) (hactive : version.isActive = true)
    (hbound : versions.length < settings.maxVersionsPerFunction) :
    Registered settings (versions ++ [version]) (activateNew g fn) where
  numbers := by
    rw [List.map_append, List.length_append, h.numbers, List.map_singleton, hnumber,
      nextVersionNumber_eq h.numbers, List.length_singleton, List.range'_concat]
    simp [Nat.add_comm]
  bound := by
    rw [List.length_append, List.length_singleton]
    omega
  executable v hv := by
    rcases List.mem_append.mp hv with hv | hv
    · exact h.executable v hv
    · rw [List.mem_singleton.mp hv]
      exact ⟨hfn, hactive⟩
  activeNone := by simp [activateNew]
  active id hsome := ⟨version, by simp, hid.trans (Option.some.inj hsome)⟩
  canaryNone := h.canaryNone
  canary id hcanary := by
    obtain ⟨⟨v, hv, hvid⟩, -, hrange⟩ := h.canary id hcanary
    refine ⟨⟨v, List.mem_append_left _ hv, hvid⟩, ?_, hrange⟩
    intro hsome
    exact hfresh (hcanary.trans hsome.symm)

/-! ## Rerouting -/

theorem registered_activate {version : FunctionVersion} (h : Registered settings versions fn)
    (hversion : version ∈ versions) : Registered settings versions (activate version.id fn) :=
  { h with
    activeNone := by simp [activate, List.ne_nil_of_mem hversion]
    active := fun _ hid => ⟨version, hversion, Option.some.inj hid⟩
    canaryNone := by simp [activate]
    canary := nofun }

theorem registered_rerouted {edit : Function → Function} {row : VersionActivation}
    (h : Registered settings (versionsOf fn.id s) fn) (hedit : Rerouted u g s fn edit row) :
    Registered settings (versionsOf fn.id s) (edit fn) := by
  cases hedit with
  | activate hversion => exact registered_activate h hversion
  | promote hversion => exact registered_activate h hversion
  | clear =>
    exact
      { h with
        canaryNone := by simp [clearCanary]
        canary := nofun }
  | @canary version percent hversion hne hpos hlt =>
    exact
      { h with
        canaryNone := by simp [setCanary, Nat.pos_iff_ne_zero.mp hpos]
        canary := by
          intro id hid
          obtain rfl : version.id = id := Option.some.inj hid
          exact ⟨⟨version, hversion, rfl⟩, hne.symm, hpos, Nat.le_of_lt_succ hlt⟩ }

/-! ## Steps -/

theorem versionsOf_insertVersion (version : FunctionVersion) (id : Uuid) :
    versionsOf id (insertVersion version s) =
      versionsOf id s ++ if version.functionId = id then [version] else [] := by
  rw [versionsOf, insertVersion, List.filter_append, List.filter_singleton]
  by_cases h : version.functionId = id
  · simp [h, versionsOf]
  · simp [h, versionsOf]

theorem allRegistered_insertFunction (h : AllRegistered settings s) (hfresh : Fresh s g.newId)
    (hid : fn.id = g.newId) (hactive : fn.activeVersionId = none) (hcanary : fn.canaryVersionId = none)
    (hpercent : fn.canaryPercent = 0) : AllRegistered settings (insertFunction fn s) := by
  intro fn' hfn'
  rcases List.mem_append.mp hfn' with hfn' | hfn'
  · exact h fn' hfn'
  · obtain rfl := List.mem_singleton.mp hfn'
    have hnone : versionsOf fn'.id (insertFunction fn' s) = [] := by
      apply List.filter_eq_nil_iff.mpr
      intro v hv hown
      exact (hfresh.versions v hv).2 ((of_decide_eq_true hown).trans hid)
    rw [hnone]
    exact ⟨rfl, Nat.zero_le _, nofun, by simp [hactive], by simp [hactive], by simp [hcanary, hpercent],
      by simp [hcanary]⟩

theorem allRegistered_upload {version : FunctionVersion} (h : AllRegistered settings s) (hfresh : Fresh s g.newId)
    (hup : Uploaded settings g functionId s version)
    (hbound : (versionsOf functionId s).length < settings.maxVersionsPerFunction) :
    AllRegistered settings
      (Database.updateFunction functionId (touchFunction g.now (activateNew g)) (insertVersion version s)) := by
  intro fn' hfn'
  change Registered settings (versionsOf fn'.id (insertVersion version s)) fn'
  rw [versionsOf_insertVersion, hup.function]
  rcases Table.mem_modify hfn' with ⟨hfn', hne⟩ | ⟨fn, hfn, hid, rfl⟩
  · have hne' : functionId ≠ fn'.id := Ne.symm hne
    rw [if_neg hne', List.append_nil]
    exact h fn' hfn'
  · obtain rfl : fn.id = functionId := hid
    have hsame : (touchFunction g.now (activateNew g) fn).id = fn.id := by
      rw [touchFunction_eq]
      rfl
    rw [hsame, if_pos rfl]
    exact (registered_upload (h fn hfn) (hfresh.functions fn hfn).2.2 hup.id hup.function hup.versionNumber
      hup.isActive hbound).touch

theorem allRegistered_rerouted {edit : Function → Function} {row : VersionActivation} (hs : WellFormed s)
    (h : AllRegistered settings s) (hfn : fn ∈ s.functions) (hedit : Rerouted u g s fn edit row) :
    AllRegistered settings
      (insertActivation row (Database.updateFunction fn.id (touchFunction g.now edit) s)) := by
  intro fn' hfn'
  change Registered settings (versionsOf fn'.id s) fn'
  rcases Table.mem_modify hfn' with ⟨hfn', -⟩ | ⟨fn₀, hfn₀, hid, rfl⟩
  · exact h fn' hfn'
  · obtain rfl : fn₀ = fn := function_unique hs hfn₀ hfn hid
    have hsame : (touchFunction g.now edit fn₀).id = fn₀.id := by
      rw [touchFunction_eq]
      cases hedit <;> rfl
    rw [hsame]
    exact (registered_rerouted (h fn₀ hfn₀) hedit).touch

theorem allRegistered_reroutes (hs : WellFormed s) (h : AllRegistered settings s)
    (ht : Reroutes u g functionId s t) : AllRegistered settings t := by
  obtain ⟨fn, edit, row, hfn, hedit, rfl⟩ := ht
  rw [← hfn.id]
  exact allRegistered_rerouted hs h hfn.holds.1 hedit

theorem next_registered (hdb : WellFormed db) {c : Call RegistryRequest} (hc : SuppliedCall settings db c)
    (h : AllRegistered settings db) : AllRegistered settings (next settings db c) := by
  refine after_keeps h fun p hrun => ?_
  obtain ⟨u, request, g⟩ := c
  cases request with
  | createFunction name description tags =>
    obtain ⟨-, fn, ht, hid, -, -, hactive, hcanary, hpercent⟩ := createFunction_ok hrun
    rw [ht]
    exact allRegistered_insertFunction h hc.id hid hactive hcanary hpercent
  | createVersion functionId archive form =>
    obtain ⟨fn, version, hfn, hup, hbound, ht, -⟩ := createVersion_ok hrun
    rw [ht]
    exact allRegistered_upload h hc.id hup hbound
  | activateVersion functionId versionId => exact allRegistered_reroutes hdb h (activateVersion_ok hrun)
  | updateCanary functionId body => exact allRegistered_reroutes hdb h (updateCanary_ok hrun)

/-! ## Routing -/

def selectsCanary (db : Database) (fn : Function) (draw : ℕ) : Bool :=
  fn.canaryVersionId.any fun id =>
    (chooseExecutionVersion db.versions fn draw none).any fun version => decide (version.id = id)

theorem find_executable (h : Registered settings (versionsOf fn.id db) fn) {id : Uuid}
    (hid : ∃ v ∈ versionsOf fn.id db, v.id = id) :
    ∃ version ∈ versionsOf fn.id db, version.id = id ∧ db.versions.find? (fun v =>
      decide (v.id = id) && decide (v.functionId = fn.id) && v.isActive) = some version := by
  obtain ⟨v, hv, rfl⟩ := hid
  obtain ⟨hown, hactive⟩ := h.executable v hv
  have hsome : (db.versions.find? fun w =>
      decide (w.id = v.id) && decide (w.functionId = fn.id) && w.isActive).isSome := by
    apply List.find?_isSome.mpr
    exact ⟨v, (List.mem_filter.mp hv).1, by simp [hown, hactive]⟩
  obtain ⟨version, hfind⟩ := Option.isSome_iff_exists.mp hsome
  have hprop := List.find?_some hfind
  simp only [Bool.and_eq_true, decide_eq_true_eq] at hprop
  exact ⟨version, List.mem_filter.mpr ⟨List.mem_of_find?_eq_some hfind, by simpa using hprop.1.2⟩,
    hprop.1.1, hfind⟩

theorem choose_eq (h : Registered settings (versionsOf fn.id db) fn) (draw : ℕ) :
    chooseExecutionVersion db.versions fn draw none =
      (if draw < fn.canaryPercent then fn.canaryVersionId else fn.activeVersionId).bind fun id =>
        db.versions.find? fun v => decide (v.id = id) && decide (v.functionId = fn.id) && v.isActive := by
  have hroute : (fn.canaryVersionId.isSome && decide (0 < fn.canaryPercent) &&
      (decide (100 ≤ fn.canaryPercent) || decide (draw < fn.canaryPercent))) =
        decide (draw < fn.canaryPercent) := by
    cases hcanary : fn.canaryVersionId with
    | none => simp [h.canaryNone.mp hcanary]
    | some id =>
      obtain ⟨-, -, hpos, hle⟩ := h.canary id hcanary
      have hfull : ¬ 100 ≤ fn.canaryPercent := by omega
      have hset : 0 < fn.canaryPercent := hpos
      simp [hfull, hset]
  simp only [chooseExecutionVersion, hroute, decide_eq_true_eq]
  split_ifs
  · cases fn.canaryVersionId <;> rfl
  · cases fn.activeVersionId <;> rfl

theorem choose_some (h : Registered settings (versionsOf fn.id db) fn) (hne : versionsOf fn.id db ≠ [])
    (draw : ℕ) : ∃ version ∈ versionsOf fn.id db, chooseExecutionVersion db.versions fn draw none = some version := by
  have hpicks : ∀ id, (∃ v ∈ versionsOf fn.id db, v.id = id) → ∃ version ∈ versionsOf fn.id db,
      (some id).bind (fun id => db.versions.find? fun v =>
        decide (v.id = id) && decide (v.functionId = fn.id) && v.isActive) = some version := by
    intro id hid
    obtain ⟨version, hversion, -, hfind⟩ := find_executable h hid
    exact ⟨version, hversion, hfind⟩
  rw [choose_eq h]
  split_ifs with hdraw
  · cases hcanary : fn.canaryVersionId with
    | none =>
      rw [h.canaryNone.mp hcanary] at hdraw
      omega
    | some id => exact hpicks id (h.canary id hcanary).1
  · cases hactive : fn.activeVersionId with
    | none => exact absurd (h.activeNone.mp hactive) hne
    | some id => exact hpicks id (h.active id hactive)

theorem selectsCanary_iff (h : Registered settings (versionsOf fn.id db) fn) (draw : ℕ) :
    selectsCanary db fn draw = decide (draw < fn.canaryPercent) := by
  unfold selectsCanary
  cases hcanary : fn.canaryVersionId with
  | none => simp [h.canaryNone.mp hcanary]
  | some id =>
    obtain ⟨hmine, hdiffers, -⟩ := h.canary id hcanary
    rw [choose_eq h, hcanary]
    split_ifs with hdraw
    · obtain ⟨version, -, hid, hfind⟩ := find_executable h hmine
      simp [hfind, hid, hdraw]
    · cases hactive : fn.activeVersionId with
      | none => simp [hdraw]
      | some active =>
        obtain ⟨version, -, hid, hfind⟩ := find_executable h (h.active active hactive)
        have hne : version.id ≠ id := by
          rintro rfl
          exact hdiffers (hactive.trans (congrArg some hid.symm))
        simp [hfind, hne, hdraw]

theorem filter_lt_range {k n : ℕ} (h : k ≤ n) : (List.range n).filter (fun i => decide (i < k)) = List.range k := by
  obtain ⟨m, rfl⟩ := Nat.exists_eq_add_of_le h
  rw [List.range_add, List.filter_append]
  have hall : (List.range k).filter (fun i => decide (i < k)) = List.range k :=
    List.filter_eq_self.mpr fun i hi => decide_eq_true (List.mem_range.mp hi)
  have hnone : ((List.range m).map (k + ·)).filter (fun i => decide (i < k)) = [] := by
    apply List.filter_eq_nil_iff.mpr
    intro i hi
    obtain ⟨j, -, rfl⟩ := List.mem_map.mp hi
    simp
  rw [hall, hnone, List.append_nil]

theorem canary_draws (h : Registered settings (versionsOf fn.id db) fn) :
    ((List.range 100).filter (selectsCanary db fn)).length = fn.canaryPercent := by
  have hle : fn.canaryPercent ≤ 100 := by
    cases hcanary : fn.canaryVersionId with
    | none => rw [h.canaryNone.mp hcanary]; omega
    | some id =>
      obtain ⟨-, -, -, hle⟩ := h.canary id hcanary
      omega
  rw [funext (selectsCanary_iff h), filter_lt_range hle, List.length_range]

/-- After any requests every function is registered, routing finds a version as
soon as there is one, and the canary has exactly its percentage of the draws. -/
theorem registry_throughout {calls : List (Call RegistryRequest)}
    (hsupplied : Along (next settings) (SuppliedCall settings) empty calls) :
    Throughout (next settings) (fun db => ∀ fn ∈ db.functions, Registered settings (versionsOf fn.id db) fn ∧
      (versionsOf fn.id db ≠ [] → ∀ draw, ∃ version ∈ versionsOf fn.id db,
        chooseExecutionVersion db.versions fn draw none = some version) ∧
      ((List.range 100).filter (selectsCanary db fn)).length = fn.canaryPercent) empty calls := by
  have hinv : Throughout (next settings) (fun db => WellFormed db ∧ AllRegistered settings db) empty calls := by
    apply Runs.throughout_of_step _ hsupplied
    · exact ⟨wellFormed_empty, nofun⟩
    · intro db c hc hdb
      exact ⟨after_wellFormed hdb.1 hc, next_registered hdb.1 hc hdb.2⟩
  apply hinv.imp
  intro db hdb fn hfn
  have h := hdb.2 fn hfn
  exact ⟨h, choose_some h, canary_draws h⟩

/-! One function with two uploads, the first of them the canary for 30 percent. -/

def sampleCall (request : RegistryRequest) (newId : Uuid) : Call RegistryRequest :=
  ⟨7, request, sampleGiven newId⟩

def sampleUpload (newId : Uuid) : Call RegistryRequest :=
  sampleCall (.createVersion 1 ⟨10, [], none⟩ ⟨"handler.handler".toList, 30, 128, none⟩) newId

def sampleCalls : List (Call RegistryRequest) :=
  [sampleCall (.createFunction "first".toList none (.obj [])) 1, sampleUpload 2, sampleUpload 3,
    sampleCall (.updateCanary 1 ⟨some 2, 30, by decide⟩) 4]

theorem registry_throughout_sample : Throughout (next sampleSettings) (fun db => ∀ fn ∈ db.functions,
      Registered sampleSettings (versionsOf fn.id db) fn ∧
      (versionsOf fn.id db ≠ [] → ∀ draw, ∃ version ∈ versionsOf fn.id db,
        chooseExecutionVersion db.versions fn draw none = some version) ∧
      ((List.range 100).filter (selectsCanary db fn)).length = fn.canaryPercent) empty sampleCalls :=
  registry_throughout (by decide)

example : ((sampleCalls.foldl (next sampleSettings) empty).functions.map fun fn =>
    (fn.activeVersionId, fn.canaryVersionId, fn.canaryPercent)) = [(some 3, some 2, 30)] := by
  decide

end PyFaaS.VersionRegistry
