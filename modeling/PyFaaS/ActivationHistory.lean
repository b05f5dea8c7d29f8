import PyFaaS.VersionRegistry

/-!
# The activation history against the routing of a function

Activations and canary changes leave a row of history; an upload changes the
active version and leaves none. So the history replays to the routing of a
function exactly as long as nothing has been uploaded.
-/

namespace PyFaaS.ActivationHistory
open Api Database Transactions VersionRegistry
open Runs (Along Throughout)

structure Routing where
  active : Option Uuid
  canary : Option Uuid
  percent : ℕ
  deriving DecidableEq

def Routing.start : Routing := ⟨none, none, 0⟩

def routingOf (fn : Function) : Routing := ⟨fn.activeVersionId, fn.canaryVersionId, fn.canaryPercent⟩

def replayRow (r : Routing) (a : VersionActivation) : Routing :=
  if a.action = "activate".toList ∨ a.action = "promote".toList then ⟨a.activatedVersionId, none, 0⟩
  else if a.action = "canary_update".toList then { r with canary := a.canaryVersionId, percent := a.canaryPercent }
  else if a.action = "canary_clear".toList then { r with canary := none, percent := 0 }
  else r

def replay (rows : List VersionActivation) : Routing := rows.foldl replayRow .start

def activationsOf (functionId : Uuid) (db : Database) : List VersionActivation :=
  db.activations.filter fun a => decide (a.functionId = functionId)

/-- The rows replay to the routing, and every row names the version that was
active before it. -/
def Faithful (rows : List VersionActivation) (r : Routing) : Prop :=
  replay rows = r ∧ ∀ pre a post, rows = pre ++ a :: post → a.previousVersionId = (replay pre).active

variable {settings : ApiSettings} {db s t : Database} {fn : Function} {rows : List VersionActivation}
  {u functionId : Uuid} {g : Given}

/-! ## Histories that say nothing -/

def Silent (rows : List VersionActivation) : Prop :=
  ∀ a ∈ rows, a.action = "canary_clear".toList ∧ a.previousVersionId = none

def Broken (rows : List VersionActivation) : Prop :=
  ∃ pre a post, rows = pre ++ a :: post ∧ Silent pre ∧ a.previousVersionId ≠ none

theorem replay_silent (h : Silent rows) : replay rows = .start := by
  induction rows with
  | nil => rfl
  | cons a rows ih =>
    obtain ⟨haction, -⟩ := h a List.mem_cons_self
    have hstart : replayRow .start a = .start := by
      simp [replayRow, haction, Routing.start]
    have hrest := ih fun b hb => h b (List.mem_cons_of_mem a hb)
    rw [replay, List.foldl_cons, hstart]
    exact hrest

theorem faithful_silent (h : Silent rows) : Faithful rows .start := by
  refine ⟨replay_silent h, ?_⟩
  intro pre a post hrows
  have hpre : Silent pre := fun b hb => h b (by rw [hrows]; exact List.mem_append_left _ hb)
  rw [replay_silent hpre]
  exact (h a (by rw [hrows]; simp)).2

theorem not_faithful_broken (h : Broken rows) (r : Routing) : ¬ Faithful rows r := by
  obtain ⟨pre, a, post, hrows, hpre, hne⟩ := h
  intro hfaithful
  have hprevious := hfaithful.2 pre a post hrows
  rw [replay_silent hpre] at hprevious
  exact hne hprevious

theorem broken_append (h : Broken rows) (a : VersionActivation) : Broken (rows ++ [a]) := by
  obtain ⟨pre, b, post, rfl, hpre, hne⟩ := h
  exact ⟨pre, b, post ++ [a], by simp, hpre, hne⟩

/-! ## The history of one function -/

structure Recorded (versions : List FunctionVersion) (rows : List VersionActivation) : Prop where
  silent : versions = [] → Silent rows
  either : Silent rows ∨ Broken rows

theorem faithful_iff {versions : List FunctionVersion} (hfn : Registered settings versions fn)
    (h : Recorded versions rows) : Faithful rows (routingOf fn) ↔ versions = [] := by
  constructor
  · intro hfaithful
    rcases h.either with hsilent | hbroken
    · have hactive : fn.activeVersionId = none := by
        have hreplay := hfaithful.1
        rw [replay_silent hsilent] at hreplay
        exact (congrArg Routing.active hreplay).symm
      exact hfn.activeNone.mp hactive
    · exact absurd hfaithful (not_faithful_broken hbroken _)
  · intro hnone
    have hactive := hfn.activeNone.mpr hnone
    have hcanary : fn.canaryVersionId = none := by
      cases hid : fn.canaryVersionId with
      | none => rfl
      | some id =>
        obtain ⟨⟨v, hv, -⟩, -⟩ := hfn.canary id hid
        rw [hnone] at hv
        cases hv
    have hstart : routingOf fn = .start := by
      rw [routingOf, hactive, hcanary, hfn.canaryNone.mp hcanary]
      rfl
    rw [hstart]
    exact faithful_silent (h.silent hnone)

theorem recorded_upload {versions : List FunctionVersion} (h : Recorded versions rows)
    (version : FunctionVersion) : Recorded (versions ++ [version]) rows :=
  ⟨by simp, h.either⟩

theorem recorded_rerouted {edit : Function → Function} {row : VersionActivation}
    (hfn : Registered settings (versionsOf fn.id s) fn) (h : Recorded (versionsOf fn.id s) rows)
    (hedit : Rerouted u g s fn edit row) : Recorded (versionsOf fn.id s) (rows ++ [row]) := by
  have hprevious : row.previousVersionId = fn.activeVersionId := by cases hedit <;> rfl
  by_cases hnone : versionsOf fn.id s = []
  · have hsilent : Silent (rows ++ [row]) := by
      intro a ha
      rcases List.mem_append.mp ha with ha | ha
      · exact h.silent hnone a ha
      · obtain rfl := List.mem_singleton.mp ha
        refine ⟨?_, hprevious.trans (hfn.activeNone.mpr hnone)⟩
        cases hedit with
        | clear => rfl
        | activate hversion => simp [hnone] at hversion
        | promote hversion => simp [hnone] at hversion
        | canary hversion => simp [hnone] at hversion
    exact ⟨fun _ => hsilent, Or.inl hsilent⟩
  · refine ⟨fun hempty => absurd hempty hnone, Or.inr ?_⟩
    rcases h.either with hsilent | hbroken
    · refine ⟨rows, row, [], rfl, hsilent, ?_⟩
      rw [hprevious]
      exact fun hactive => hnone (hfn.activeNone.mp hactive)
    · exact broken_append hbroken row

/-! ## Steps -/

def AllRecorded (db : Database) : Prop := ∀ id, Recorded (versionsOf id db) (activationsOf id db)

theorem activationsOf_insertActivation (row : VersionActivation) (id : Uuid) :
    activationsOf id (insertActivation row s) =
      activationsOf id s ++ if row.functionId = id then [row] else [] := by
  rw [activationsOf, insertActivation, List.filter_append, List.filter_singleton]
  by_cases h : row.functionId = id
  · simp [h, activationsOf]
  · simp [h, activationsOf]

theorem allRecorded_upload {version : FunctionVersion} (h : AllRecorded s) (edit : Function → Function) :
    AllRecorded (Database.updateFunction functionId edit (insertVersion version s)) := by
  intro id
  change Recorded (versionsOf id (insertVersion version s)) (activationsOf id s)
  rw [versionsOf_insertVersion]
  split_ifs
  · exact recorded_upload (h id) version
  · rw [List.append_nil]
    exact h id

theorem allRecorded_reroutes (hregistered : AllRegistered settings s) (h : AllRecorded s)
    (ht : Reroutes u g functionId s t) : AllRecorded t := by
  obtain ⟨fn, edit, row, hfn, hedit, rfl⟩ := ht
  intro id
  change Recorded (versionsOf id s) (activationsOf id (insertActivation row s))
  rw [activationsOf_insertActivation]
  have hown : row.functionId = fn.id := by cases hedit <;> rfl
  split_ifs with hid
  · obtain rfl : fn.id = id := hown.symm.trans hid
    exact recorded_rerouted (hregistered fn hfn.holds.1) (h fn.id) hedit
  · rw [List.append_nil]
    exact h id

theorem next_recorded {c : Call RegistryRequest} (hregistered : AllRegistered settings db)
    (h : AllRecorded db) : AllRecorded (next settings db c) := by
  refine after_keeps h fun p hrun => ?_
  obtain ⟨u, request, g⟩ := c
  cases request with
  | createFunction name description tags =>
    obtain ⟨-, fn, ht, -⟩ := createFunction_ok hrun
    rw [ht]
    exact h
  | createVersion functionId archive form =>
    obtain ⟨fn, version, -, -, -, ht, -⟩ := createVersion_ok hrun
    rw [ht]
    exact allRecorded_upload h _
  | activateVersion functionId versionId => exact allRecorded_reroutes hregistered h (activateVersion_ok hrun)
  | updateCanary functionId body => exact allRecorded_reroutes hregistered h (updateCanary_ok hrun)

/-- In every state of a sequence of requests the history of a function replays to
its routing exactly if nothing has been uploaded to it. -/
theorem history_faithful_iff {calls : List (Call RegistryRequest)}
    (hsupplied : Along (next settings) (SuppliedCall settings) empty calls) :
    Throughout (next settings) (fun db => ∀ fn ∈ db.functions,
      Faithful (activationsOf fn.id db) (routingOf fn) ↔ versionsOf fn.id db = []) empty calls := by
  have hinv : Throughout (next settings)
      (fun db => WellFormed db ∧ AllRegistered settings db ∧ AllRecorded db) empty calls := by
    apply Runs.throughout_of_step _ hsupplied
    · exact ⟨wellFormed_empty, nofun, fun _ => ⟨fun _ => nofun, Or.inl nofun⟩⟩
    · intro db c hc hdb
      exact ⟨after_wellFormed hdb.1 hc, next_registered hdb.1 hc hdb.2.1, next_recorded hdb.2.1 hdb.2.2⟩
  apply hinv.imp
  intro db hdb fn hfn
  exact faithful_iff (hdb.2.1 fn hfn) (hdb.2.2 fn.id)

theorem history_faithful_iff_sample : Throughout (next sampleSettings) (fun db => ∀ fn ∈ db.functions,
    Faithful (activationsOf fn.id db) (routingOf fn) ↔ versionsOf fn.id db = []) empty sampleCalls :=
  history_faithful_iff (by decide)

def oneUpload : List (Call RegistryRequest) :=
  [sampleCall (.createFunction "first".toList none (.obj [])) 1, sampleUpload 2]

/-- One upload makes a version active and leaves no row. -/
theorem history_silent_upload : ¬ ∀ (settings : ApiSettings) (calls : List (Call RegistryRequest)),
    Along (next settings) (SuppliedCall settings) empty calls →
      Throughout (next settings) (fun db => ∀ fn ∈ db.functions,
        Faithful (activationsOf fn.id db) (routingOf fn)) empty calls := by
  intro hclaim
  obtain ⟨-, -, hlast⟩ := hclaim sampleSettings oneUpload (by decide)
  have hreplay : ∀ fn ∈ (oneUpload.foldl (next sampleSettings) empty).functions,
      replay (activationsOf fn.id (oneUpload.foldl (next sampleSettings) empty)) = routingOf fn :=
    fun fn hfn => (hlast fn hfn).1
  exact absurd hreplay (by decide)

end PyFaaS.ActivationHistory
