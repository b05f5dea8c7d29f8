import PyFaaS.Isolation.Statements
import PyFaaS.Routers.Functions

/-!
# The function routes are isolated
-/

namespace PyFaaS.Api
open Noninterference Transactions Database

variable {u : Uuid} {P : Database → Prop} {s : Database} {settings : ApiSettings} {g : Given}

theorem mem_page {ρ : Type} {p : Page} {createdAt : ρ → Time} {rows : List ρ} {r : ρ}
    (h : r ∈ p.take (newestFirst createdAt rows)) : r ∈ rows :=
  List.mem_mergeSort.mp (List.mem_of_mem_drop (List.mem_of_mem_take h))

theorem filter_functions_view (q : Function → Bool) :
    s.functions.filter (fun f => decide (f.ownerId = u) && q f) =
      (view u s).functions.filter fun f => decide (f.ownerId = u) && q f := by
  apply Table.filter_owned
  intro f _ hf
  exact (Bool.and_eq_true_iff.mp hf).1

theorem map_withVersions_view (hs : WellFormed s) {rows : List Function}
    (h : ∀ f ∈ rows, Holds u f s) : rows.map (withVersions s) = rows.map (withVersions (view u s)) :=
  List.map_congr_left fun f hf => withVersions_view hs (h f hf)

theorem listFunctions_isolated (p : Page) (statusFilter : Option FunctionStatus) :
    IsolatedFor u P (listFunctions u p statusFilter) fun _ _ => True := by
  unfold listFunctions
  refine Isolated.bind (isolated_query ?_) fun rows => Isolated.bind (isolated_query ?_) fun items =>
    isolated_return _
  · exact fun s _ _ => filter_functions_view _
  · rintro s hs ⟨-, rfl⟩
    apply map_withVersions_view hs
    intro f hf
    have hprop := List.mem_filter.mp (mem_page hf)
    exact ⟨hprop.1, of_decide_eq_true (Bool.and_eq_true_iff.mp hprop.2).1⟩

theorem createFunction_isolated (name : Text) (description : Option Text) (tags : Json) :
    IsolatedFor u (Supplied settings g) (createFunction settings u g name description tags) fun _ _ => True := by
  unfold createFunction
  refine Isolated.bind (isolated_query ?_) fun count => Isolated.bind (Isolated.require _ _) fun _ =>
    Isolated.bind (isolated_query ?_) fun existing => Isolated.bind (Isolated.require _ _) fun _ =>
      Isolated.bind (isolated_write (R := fun _ => True) ?_) fun _ => isolated_return _
  · exact fun s _ _ => congrArg List.length (filter_functions_view _)
  · intro s _ _
    apply Table.find?_owned
    intro f _ hf
    exact (Bool.and_eq_true_iff.mp hf).1
  · rintro s hs ⟨⟨⟨⟨hsupplied, -⟩, -⟩, -⟩, -⟩
    exact ⟨insertFunction_confined hs rfl rfl rfl hsupplied.id, trivial⟩

theorem getFunction_isolated (functionId : Uuid) :
    IsolatedFor u P (getFunction u functionId) fun _ _ => True :=
  Isolated.bind (getFunctionOr404_isolated functionId) fun _ => isolated_return _

/-! ## Edits of a function -/

theorem touchFunction_columns (now : Time) (edit : Function → Function) (f : Function) :
    (touchFunction now edit f).id = (edit f).id ∧ (touchFunction now edit f).ownerId = (edit f).ownerId ∧
      (touchFunction now edit f).activeVersionId = (edit f).activeVersionId ∧
      (touchFunction now edit f).canaryVersionId = (edit f).canaryVersionId := by
  rw [touchFunction_eq]
  exact ⟨rfl, rfl, rfl, rfl⟩

theorem touch_confined {fn : Function} {edit : Function → Function} (hs : WellFormed s)
    (h : Holds u fn s) (now : Time) (hedit : ∀ f, (edit f).id = f.id ∧ (edit f).ownerId = f.ownerId)
    (hactive : s.VersionOf fn.id (edit fn).activeVersionId)
    (hcanary : s.VersionOf fn.id (edit fn).canaryVersionId) :
    Confined u (Database.updateFunction fn.id (touchFunction now edit)) s := by
  apply updateFunction_confined hs h.1 h.2
  · intro f
    obtain ⟨hid, howner, -⟩ := touchFunction_columns now edit f
    exact ⟨hid.trans (hedit f).1, howner.trans (hedit f).2⟩
  · obtain ⟨-, -, hactive', hcanary'⟩ := touchFunction_columns now edit fn
    rw [hactive', hcanary']
    exact ⟨hactive, hcanary⟩

theorem versionOf_none (functionId : Uuid) : s.VersionOf functionId none := nofun

theorem versionOf_mem (hs : WellFormed s) {v : FunctionVersion} (hv : v ∈ s.versions) :
    s.VersionOf v.functionId (some v.id) := by
  intro v' hv' hid
  rw [List.inj_on_of_nodup_map hs.versionIds hv' hv (Option.some.inj hid).symm]

theorem updateFunction_isolated (functionId : Uuid) (body : FunctionUpdate) :
    IsolatedFor u P (updateFunction u g functionId body) fun _ _ => True := by
  unfold updateFunction
  refine Isolated.bind (getFunctionOr404_isolated functionId) fun fn =>
    Isolated.bind (isolated_write (R := fun _ => True) ?_) fun _ =>
      Isolated.bind (getFunctionOr404_isolated functionId) fun _ => isolated_return _
  rintro s hs ⟨-, hfn, -⟩
  obtain ⟨hactive, hcanary⟩ := hs.functionVersions _ hfn.1
  exact ⟨touch_confined hs hfn g.now (fun _ => ⟨rfl, rfl⟩) hactive hcanary, trivial⟩

/-! ## The deletion of a function -/

theorem filter_executions_view {functionId : Uuid} (hown : s.ownsFunction u functionId = true)
    (q : Execution → Bool) :
    s.executions.filter (fun e => decide (e.functionId = some functionId) && q e) =
      (view u s).executions.filter fun e => decide (e.functionId = some functionId) && q e := by
  apply Table.filter_owned
  intro e _ he
  exact ownsExecution_iff.mpr (Or.inl ⟨functionId, of_decide_eq_true (Bool.and_eq_true_iff.mp he).1, hown⟩)

theorem deleteStatements_eq (functionId : Uuid) (versionIds : List Uuid) (db : Database) :
    deleteStatements u g functionId versionIds db = deleteFunctionRow functionId (deleteVersions functionId
      (deleteActivations functionId (deleteSchedules (fun r => decide (r.functionId = functionId))
        (Database.updateFunction functionId (touchFunction g.now clearVersions)
          (detachVersions versionIds g.now (detachExecutions functionId u g.now db)))))) := by
  unfold deleteStatements
  cases versionIds with
  | nil =>
    rw [detachVersions_nil]
    rfl
  | cons id ids => rfl

theorem deleteStatements_confined {fn : Function} {versionIds : List Uuid} (hs : WellFormed s)
    (hfn : Holds u fn s) (hversions : ∀ id ∈ versionIds, ∃ v ∈ s.versions, v.id = id ∧ v.functionId = fn.id) :
    Confined u (deleteStatements u g fn.id versionIds) s := by
  have hdetach := detachExecutions_confined hs hfn.owns g.now
  have hnull : Confined u (detachVersions versionIds g.now) (detachExecutions fn.id u g.now s) := by
    refine detachVersions_confined hdetach.wellFormed ?_ g.now
    intro e he id hid hversion
    obtain ⟨v, hv, rfl, hfunction⟩ := hversions id hid
    have hsome := (hdetach.wellFormed.executionRefs e he).version v hv hversion
    rw [hfunction] at hsome
    exact ownsExecution_iff.mpr (Or.inl ⟨fn.id, hsome, hfn.owns⟩)
  have hclear : Confined u (Database.updateFunction fn.id (touchFunction g.now clearVersions)) _ :=
    touch_confined hnull.wellFormed hfn g.now (fun _ => ⟨rfl, rfl⟩) (versionOf_none _) (versionOf_none _)
  have hown : (Database.updateFunction fn.id (touchFunction g.now clearVersions)
      (detachVersions versionIds g.now (detachExecutions fn.id u g.now s))).ownsFunction u fn.id = true := by
    rw [ownsFunction_updateFunction]
    · exact hfn.owns
    · intro f
      obtain ⟨hid, howner, -⟩ := touchFunction_columns g.now clearVersions f
      exact ⟨hid, howner⟩
  have hschedules := deleteSchedules_confined (u := u) (p := fun r => decide (r.functionId = fn.id))
    hclear.wellFormed fun r _ hr => by rwa [of_decide_eq_true hr]
  have hactivations := deleteActivations_confined hschedules.wellFormed hown
  have hversions := deleteVersions_confined hactivations.wellFormed hown
  have hrow := deleteFunctionRow_confined hversions.wellFormed hown fun e he => by
    obtain ⟨e₃, he₃, rfl⟩ := List.mem_map.mp he
    obtain ⟨e₂, he₂, rfl⟩ := List.mem_map.mp he₃
    obtain ⟨e₁, he₁, rfl⟩ := List.mem_map.mp he₂
    obtain ⟨e₀, -, rfl⟩ := List.mem_map.mp he₁
    split_ifs with hid
    · exact nofun
    · exact hid
  exact ((((((hdetach.trans hnull).trans hclear).trans hschedules).trans hactivations).trans
    hversions).trans hrow).congr (deleteStatements_eq _ _ _) (deleteStatements_eq _ _ _)

theorem deleteFunction_isolated (functionId : Uuid) :
    IsolatedFor u P (deleteFunction u g functionId) fun _ _ => True := by
  unfold deleteFunction
  refine Isolated.bind (getFunctionOr404_isolated functionId) fun fn =>
    Isolated.bind (isolated_query ?_) fun activeCount => Isolated.bind (Isolated.require _ _) fun _ =>
      Isolated.bind (isolated_query ?_) fun versions =>
        Isolated.bind (isolated_write (R := fun _ => True) ?_) fun _ => ?_
  · rintro s hs ⟨-, hfn, -⟩
    exact congrArg List.length (filter_executions_view hfn.owns _)
  · rintro s hs ⟨⟨⟨-, hfn, -⟩, -⟩, -⟩
    exact (version_view hfn.owns fun v _ hv => of_decide_eq_true hv).2
  · rintro s hs ⟨⟨⟨⟨-, hfn, -⟩, -⟩, -⟩, rfl⟩
    refine ⟨deleteStatements_confined hs hfn ?_, trivial⟩
    intro id hid
    obtain ⟨v, hv, rfl⟩ := List.mem_map.mp hid
    obtain ⟨hv, hfunction⟩ := List.mem_filter.mp hv
    exact ⟨v, hv, rfl, of_decide_eq_true hfunction⟩
  · cases (versions.map FunctionVersion.artifactPath).find? g.storageFails with
    | some path => exact isolated_abort _
    | none => exact isolated_return _

/-! ## Versions -/

theorem createVersion_isolated (functionId : Uuid) (archive : Archive) (form : VersionForm) :
    IsolatedFor u (Supplied settings g) (createVersion settings u g functionId archive form)
      fun _ _ => True := by
  unfold createVersion
  refine Isolated.bind (getFunctionOr404_isolated functionId) fun fn =>
    Isolated.bind (Isolated.require _ _) fun _ => Isolated.bind (Isolated.require _ _) fun _ =>
      Isolated.bind (Isolated.require _ _) fun _ => Isolated.bind (isolated_query ?_) fun versions =>
        Isolated.bind (Isolated.require _ _) fun _ => Isolated.bind (Isolated.require _ _) fun _ =>
          Isolated.bind (isolated_write (R := fun s => Holds u fn.row s ∧ ∃ v ∈ s.versions,
              v.id = g.newId ∧ v.functionId = fn.row.id) ?_) fun _ =>
            Isolated.bind (isolated_write (R := fun _ => True) ?_) fun _ => isolated_return _
  · rintro s hs ⟨⟨⟨⟨-, hfn, -⟩, -⟩, -⟩, -⟩
    exact (version_view hfn.owns fun v _ hv => of_decide_eq_true hv).2
  · rintro s hs ⟨⟨⟨⟨⟨⟨⟨hsupplied, hfn, -⟩, -⟩, -⟩, -⟩, -⟩, -⟩, -⟩
    exact ⟨insertVersion_confined hs hfn.owns hsupplied.id, hfn, _,
      List.mem_append_right _ (List.mem_singleton_self _), rfl, rfl⟩
  · rintro s hs ⟨hfn, v, hv, hid, hfunction⟩
    refine ⟨touch_confined hs hfn g.now (fun _ => ⟨rfl, rfl⟩) ?_ (hs.functionVersions _ hfn.1).2, trivial⟩
    rw [← hid, ← hfunction]
    exact versionOf_mem hs hv

theorem listVersions_isolated (functionId : Uuid) :
    IsolatedFor u P (listVersions u functionId) fun _ _ => True := by
  unfold listVersions
  refine Isolated.bind (getFunctionOr404_isolated functionId) fun fn =>
    Isolated.bind (isolated_query ?_) fun versions => isolated_return _
  rintro s hs ⟨-, hfn, -⟩
  rw [(version_view hfn.owns fun v _ hv => of_decide_eq_true hv).2]

theorem getVersion_isolated (functionId versionId : Uuid) :
    IsolatedFor u P (getVersion u functionId versionId) fun _ _ => True := by
  unfold getVersion
  refine Isolated.bind (getFunctionOr404_isolated functionId) fun fn =>
    Isolated.bind (isolated_query ?_) fun row => Isolated.bind (Isolated.found _ _) fun version =>
      isolated_return _
  rintro s hs ⟨-, hfn, -⟩
  apply (version_view hfn.owns _).1
  intro v _ hv
  exact of_decide_eq_true (Bool.and_eq_true_iff.mp hv).2

theorem getActiveVersionOr404_isolated {fn : Function} (versionId : Uuid) (hP : ∀ s, P s → Holds u fn s) :
    IsolatedFor u P (getActiveVersionOr404 fn.id versionId) fun version s =>
      P s ∧ s.VersionOf fn.id (some version.id) := by
  unfold getActiveVersionOr404
  refine Isolated.bind (isolated_query ?_) fun row => (Isolated.found _ _).post ?_
  · intro s hs hp
    apply (version_view (hP s hp).owns _).1
    intro v _ hv
    simp only [Bool.and_eq_true, decide_eq_true_eq] at hv
    exact hv.1.2
  · rintro version s hs ⟨⟨hp, hrow⟩, rfl⟩
    have hprop := List.find?_some hrow.symm
    simp only [Bool.and_eq_true, decide_eq_true_eq] at hprop
    refine ⟨hp, ?_⟩
    rw [← hprop.1.2]
    exact versionOf_mem hs (List.mem_of_find?_eq_some hrow.symm)

theorem reload_isolated (functionId : Uuid) (loaded : FunctionResponse) :
    IsolatedFor u P (reload u functionId loaded) fun _ _ => True :=
  Isolated.bind (getFunctionOr404_isolated functionId) fun _ => isolated_return _

theorem editAndRecord_isolated {fn : FunctionResponse} {edit : Function → Function} {row : VersionActivation}
    (functionId : Uuid) (hedit : ∀ f, (edit f).id = f.id ∧ (edit f).ownerId = f.ownerId)
    (hrow : row.functionId = fn.row.id)
    (hP : ∀ s, WellFormed s → P s → Holds u fn.row s ∧ s.VersionOf fn.row.id (edit fn.row).activeVersionId ∧
      s.VersionOf fn.row.id (edit fn.row).canaryVersionId ∧ s.VersionOf fn.row.id row.previousVersionId ∧
      s.VersionOf fn.row.id row.activatedVersionId ∧ s.VersionOf fn.row.id row.canaryVersionId) :
    IsolatedFor u P (do
      write (Database.updateFunction fn.row.id (touchFunction g.now edit))
      write (insertActivation row)
      reload u functionId fn) fun _ _ => True := by
  refine Isolated.bind (isolated_write (R := fun s => s.ownsFunction u fn.row.id = true ∧
      s.VersionOf fn.row.id row.previousVersionId ∧ s.VersionOf fn.row.id row.activatedVersionId ∧
      s.VersionOf fn.row.id row.canaryVersionId) ?_) fun _ =>
    Isolated.bind (isolated_write (R := fun _ => True) ?_) fun _ => reload_isolated functionId fn
  · intro s hs hp
    obtain ⟨hfn, hactive, hcanary, hrefs⟩ := hP s hs hp
    refine ⟨touch_confined hs hfn g.now hedit hactive hcanary, ?_, hrefs⟩
    rw [ownsFunction_updateFunction]
    · exact hfn.owns
    · intro f
      obtain ⟨hid, howner, -⟩ := touchFunction_columns g.now edit f
      exact ⟨hid.trans (hedit f).1, howner.trans (hedit f).2⟩
  · rintro s hs ⟨hown, hrefs⟩
    rw [← hrow] at hown hrefs
    exact ⟨insertActivation_confined hs hown hrefs, trivial⟩

theorem activateVersion_isolated (functionId versionId : Uuid) :
    IsolatedFor u P (activateVersion u g functionId versionId) fun _ _ => True := by
  unfold activateVersion
  refine Isolated.bind (getFunctionOr404_isolated functionId) fun fn =>
    Isolated.bind (getActiveVersionOr404_isolated versionId fun s hp => hp.2.1) fun version =>
      editAndRecord_isolated functionId (fun _ => ⟨rfl, rfl⟩) rfl ?_
  rintro s hs ⟨⟨-, hfn, -⟩, hversion⟩
  exact ⟨hfn, hversion, versionOf_none _, (hs.functionVersions _ hfn.1).1, hversion, versionOf_none _⟩

theorem updateCanary_isolated (functionId : Uuid) (body : CanaryUpdate) :
    IsolatedFor u P (updateCanary u g functionId body) fun _ _ => True := by
  unfold updateCanary
  refine Isolated.bind (getFunctionOr404_isolated functionId) fun fn => ?_
  have hclear : IsolatedFor u (fun s => P s ∧ Holds u fn.row s ∧ fn.row.id = functionId) (do
      write (Database.updateFunction fn.row.id (touchFunction g.now clearCanary))
      write (insertActivation (recordActivation u g fn.row "canary_clear" none none 0))
      reload u functionId fn) fun _ _ => True := by
    refine editAndRecord_isolated functionId (fun _ => ⟨rfl, rfl⟩) rfl ?_
    rintro s hs ⟨-, hfn, -⟩
    have hactive := (hs.functionVersions _ hfn.1).1
    exact ⟨hfn, hactive, versionOf_none _, hactive, versionOf_none _, versionOf_none _⟩
  split
  · exact hclear
  · exact hclear
  · refine Isolated.bind (getActiveVersionOr404_isolated _ fun s hp => hp.2.1) fun version =>
      Isolated.bind (Isolated.require _ _) fun _ => Isolated.ite (fun _ => ?_) fun _ => ?_
    · refine editAndRecord_isolated functionId (fun _ => ⟨rfl, rfl⟩) rfl ?_
      rintro s hs ⟨⟨⟨-, hfn, -⟩, hversion⟩, -⟩
      exact ⟨hfn, hversion, versionOf_none _, (hs.functionVersions _ hfn.1).1, hversion, versionOf_none _⟩
    · refine editAndRecord_isolated functionId (fun _ => ⟨rfl, rfl⟩) rfl ?_
      rintro s hs ⟨⟨⟨-, hfn, -⟩, hversion⟩, -⟩
      have hactive := (hs.functionVersions _ hfn.1).1
      exact ⟨hfn, hactive, hversion, hactive, hactive, hversion⟩

theorem listActivations_isolated (functionId : Uuid) :
    IsolatedFor u P (listActivations u functionId) fun _ _ => True := by
  unfold listActivations
  refine Isolated.bind (getFunctionOr404_isolated functionId) fun fn =>
    Isolated.bind (isolated_query ?_) fun rows => isolated_return _
  rintro s hs ⟨-, hfn, -⟩
  apply Table.filter_owned
  intro a _ ha
  rw [of_decide_eq_true ha]
  exact hfn.owns

end PyFaaS.Api
