import PyFaaS.Ownership

/-!
# Statements that keep to the rows of one user

An insert or an edit of the rows of a user acts on the view of this user as it acts
on the database, and leaves every other view as it is.
-/

namespace PyFaaS.Database

variable {s : Database} {u v : Uuid}

/-- The statement acts on the user's part as it acts on the whole, and on no
other part. -/
structure Confined (u : Uuid) (f : Database → Database) (s : Database) : Prop where
  wellFormed : WellFormed (f s)
  own : view u (f s) = f (view u s)
  others : ∀ v, v ≠ u → view v (f s) = view v s

theorem Confined.trans {f g : Database → Database} (hf : Confined u f s) (hg : Confined u g (f s)) :
    Confined u (fun s => g (f s)) s where
  wellFormed := hg.wellFormed
  own := by rw [hg.own, hf.own]
  others v hv := (hg.others v hv).trans (hf.others v hv)

theorem Confined.congr {f g : Database → Database} (hf : Confined u f s) (hs : g s = f s)
    (hview : g (view u s) = f (view u s)) : Confined u g s where
  wellFormed := hs ▸ hf.wellFormed
  own := by rw [hs, hview, hf.own]
  others v hv := by rw [hs, hf.others v hv]

theorem nodup_append_singleton {κ : Type} {keys : List κ} {k : κ} (h : keys.Nodup) (hk : ∀ j ∈ keys, j ≠ k) :
    (keys ++ [k]).Nodup := by
  rw [List.nodup_append]
  refine ⟨h, List.nodup_singleton k, ?_⟩
  intro j hj k' hk'
  rw [List.mem_singleton.mp hk']
  exact hk j hj

theorem view_setVersions (rows : List FunctionVersion) :
    view u { s with versions := rows } =
      { view u s with versions := rows.filter fun v => s.ownsFunction u v.functionId } := rfl

theorem view_setActivations (rows : List VersionActivation) :
    view u { s with activations := rows } =
      { view u s with activations := rows.filter fun a => s.ownsFunction u a.functionId } := rfl

theorem view_setSchedules (rows : List Schedule) :
    view u { s with schedules := rows } =
      { view u s with schedules := rows.filter fun a => s.ownsFunction u a.functionId } := rfl

theorem view_setApiKeys (rows : List ApiKey) :
    view u { s with apiKeys := rows } =
      { view u s with apiKeys := rows.filter fun k => decide (k.ownerId = u) } := rfl

theorem not_ownsFunction (hs : WellFormed s) {functionId : Uuid} (hu : s.ownsFunction u functionId = true)
    (hv : v ≠ u) : s.ownsFunction v functionId = false := by
  by_contra h
  exact hv (ownsFunction_unique hs (by simpa using h) hu)

theorem versionOf_insertVersion {row : FunctionVersion} {functionId : Uuid} {ref : Option Uuid}
    (h : s.VersionOf functionId ref) (hne : ref ≠ some row.id) :
    (insertVersion row s).VersionOf functionId ref := by
  intro v hv hid
  rcases List.mem_append.mp hv with hv | hv
  · exact h v hv hid
  · obtain rfl := List.mem_singleton.mp hv
    exact absurd hid hne

theorem insertVersion_confined {row : FunctionVersion} (hs : WellFormed s)
    (hown : s.ownsFunction u row.functionId = true) (hfresh : Fresh s row.id) :
    Confined u (insertVersion row) s where
  wellFormed :=
    { hs with
      versionIds := by
        rw [insertVersion, List.map_append]
        apply nodup_append_singleton hs.versionIds
        intro id hid
        obtain ⟨v, hv, rfl⟩ := List.mem_map.mp hid
        exact (hfresh.versions v hv).1
      functionVersions := by
        intro f hf
        obtain ⟨hactive, hcanary⟩ := hs.functionVersions f hf
        obtain ⟨-, hactive', hcanary'⟩ := hfresh.functions f hf
        exact ⟨versionOf_insertVersion hactive hactive', versionOf_insertVersion hcanary hcanary'⟩
      activationVersions := by
        intro a ha
        obtain ⟨hprevious, hactivated, hcanary⟩ := hs.activationVersions a ha
        obtain ⟨-, hprevious', hactivated', hcanary'⟩ := hfresh.activations a ha
        exact ⟨versionOf_insertVersion hprevious hprevious', versionOf_insertVersion hactivated hactivated',
          versionOf_insertVersion hcanary hcanary'⟩
      executionRefs := by
        intro e he
        refine { hs.executionRefs e he with version := fun v hv hid => ?_ }
        rcases List.mem_append.mp hv with hv | hv
        · exact (hs.executionRefs e he).version v hv hid
        · obtain rfl := List.mem_singleton.mp hv
          exact absurd hid (hfresh.executions e he).2.2.1 }
  own := by
    rw [insertVersion, view_setVersions, List.filter_append]
    simp [hown, insertVersion, view]
  others v hv := by
    rw [insertVersion, view_setVersions, List.filter_append]
    simp [not_ownsFunction hs hown hv, view]

theorem insertActivation_confined {row : VersionActivation} (hs : WellFormed s)
    (hown : s.ownsFunction u row.functionId = true)
    (hrefs : s.VersionOf row.functionId row.previousVersionId ∧
      s.VersionOf row.functionId row.activatedVersionId ∧ s.VersionOf row.functionId row.canaryVersionId) :
    Confined u (insertActivation row) s where
  wellFormed :=
    { hs with
      activationVersions := by
        intro a ha
        rcases List.mem_append.mp ha with ha | ha
        · exact hs.activationVersions a ha
        · rw [List.mem_singleton.mp ha]
          exact hrefs
      executionRefs := fun e he => { hs.executionRefs e he with } }
  own := by
    rw [insertActivation, view_setActivations, List.filter_append]
    simp [hown, insertActivation, view]
  others v hv := by
    rw [insertActivation, view_setActivations, List.filter_append]
    simp [not_ownsFunction hs hown hv, view]

theorem insertSchedule_confined {row : Schedule} (hs : WellFormed s)
    (hown : s.ownsFunction u row.functionId = true) (howner : row.ownerId = u) (hfresh : Fresh s row.id) :
    Confined u (insertSchedule row) s where
  wellFormed :=
    { hs with
      scheduleIds := by
        rw [insertSchedule, List.map_append]
        apply nodup_append_singleton hs.scheduleIds
        intro id hid
        obtain ⟨r, hr, rfl⟩ := List.mem_map.mp hid
        exact (hfresh.schedules r hr).1
      scheduleOwner := by
        intro r hr
        rcases List.mem_append.mp hr with hr | hr
        · exact hs.scheduleOwner r hr
        · rw [List.mem_singleton.mp hr, howner]
          exact hown
      executionRefs := by
        intro e he
        refine { hs.executionRefs e he with schedule := fun r hr hid => ?_ }
        rcases List.mem_append.mp hr with hr | hr
        · exact (hs.executionRefs e he).schedule r hr hid
        · obtain rfl := List.mem_singleton.mp hr
          exact absurd hid (hfresh.executions e he).2.2.2.1 }
  own := by
    rw [insertSchedule, view_setSchedules, List.filter_append]
    simp [hown, insertSchedule, view]
  others v hv := by
    rw [insertSchedule, view_setSchedules, List.filter_append]
    simp [not_ownsFunction hs hown hv, view]

theorem insertApiKey_confined {row : ApiKey} (hs : WellFormed s) (howner : row.ownerId = u)
    (hfresh : Fresh s row.id) (hhash : ∀ k ∈ s.apiKeys, k.keyHash ≠ row.keyHash) :
    Confined u (insertApiKey row) s where
  wellFormed :=
    { hs with
      keyIds := by
        rw [insertApiKey, List.map_append]
        apply nodup_append_singleton hs.keyIds
        intro id hid
        obtain ⟨k, hk, rfl⟩ := List.mem_map.mp hid
        exact hfresh.apiKeys k hk
      keyHashes := by
        rw [insertApiKey, List.map_append]
        apply nodup_append_singleton hs.keyHashes
        intro hash hmem
        obtain ⟨k, hk, rfl⟩ := List.mem_map.mp hmem
        exact hhash k hk
      executionRefs := by
        intro e he
        refine { hs.executionRefs e he with key := fun k hk hid => ?_ }
        rcases List.mem_append.mp hk with hk | hk
        · exact (hs.executionRefs e he).key k hk hid
        · obtain rfl := List.mem_singleton.mp hk
          exact absurd hid (hfresh.executions e he).2.2.2.2 }
  own := by
    rw [insertApiKey, view_setApiKeys, List.filter_append]
    simp [howner, insertApiKey, view]
  others v hv := by
    rw [insertApiKey, view_setApiKeys, List.filter_append]
    simp [howner, hv.symm, view]

/-! ## Edits of one row -/

theorem updateSchedule_confined {row : Schedule} {edit : Schedule → Schedule} (hs : WellFormed s)
    (hrow : row ∈ s.schedules) (hown : s.ownsFunction u row.functionId = true)
    (hedit : ∀ r, (edit r).id = r.id ∧ (edit r).functionId = r.functionId ∧ (edit r).ownerId = r.ownerId) :
    Confined u (updateSchedule row.id edit) s where
  wellFormed :=
    { hs with
      scheduleIds := by
        rw [updateSchedule, Table.map_modify fun r => (hedit r).1]
        exact hs.scheduleIds
      scheduleOwner := by
        intro r hr
        rcases Table.mem_modify hr with ⟨hr, -⟩ | ⟨r₀, hr₀, -, rfl⟩
        · exact hs.scheduleOwner r hr
        · rw [(hedit r₀).2.1, (hedit r₀).2.2]
          exact hs.scheduleOwner r₀ hr₀
      executionRefs := by
        intro e he
        refine { hs.executionRefs e he with schedule := fun r hr hid => ?_ }
        rcases Table.mem_modify hr with ⟨hr, -⟩ | ⟨r₀, hr₀, -, rfl⟩
        · exact (hs.executionRefs e he).schedule r hr hid
        · rw [(hedit r₀).1] at hid
          rw [(hedit r₀).2.1]
          exact (hs.executionRefs e he).schedule r₀ hr₀ hid }
  own := by
    rw [updateSchedule, view_setSchedules, Table.filter_modify fun r _ => by rw [(hedit r).2.1]]
    rfl
  others v hv := by
    rw [updateSchedule, view_setSchedules, Table.filter_modify_of_ne]
    · rfl
    · intro r _
      rw [(hedit r).2.1]
    · intro r hr hvr hid
      obtain rfl : r = row := List.inj_on_of_nodup_map hs.scheduleIds hr hrow hid
      exact hv (ownsFunction_unique hs hvr hown)

theorem updateApiKey_confined {row : ApiKey} {edit : ApiKey → ApiKey} (hs : WellFormed s)
    (hrow : row ∈ s.apiKeys) (hown : row.ownerId = u)
    (hedit : ∀ r, (edit r).id = r.id ∧ (edit r).ownerId = r.ownerId ∧ (edit r).keyHash = r.keyHash) :
    Confined u (updateApiKey row.id edit) s where
  wellFormed :=
    { hs with
      keyIds := by
        rw [updateApiKey, Table.map_modify fun r => (hedit r).1]
        exact hs.keyIds
      keyHashes := by
        rw [updateApiKey, Table.map_modify fun r => (hedit r).2.2]
        exact hs.keyHashes
      executionRefs := by
        intro e he
        refine { hs.executionRefs e he with key := fun k hk hid => ?_ }
        rcases Table.mem_modify hk with ⟨hk, -⟩ | ⟨k₀, hk₀, -, rfl⟩
        · exact (hs.executionRefs e he).key k hk hid
        · rw [(hedit k₀).1] at hid
          rw [(hedit k₀).2.1]
          exact (hs.executionRefs e he).key k₀ hk₀ hid }
  own := by
    rw [updateApiKey, view_setApiKeys, Table.filter_modify fun r _ => by rw [(hedit r).2.1]]
    rfl
  others v hv := by
    rw [updateApiKey, view_setApiKeys, Table.filter_modify_of_ne]
    · rfl
    · intro r _
      rw [(hedit r).2.1]
    · intro r hr hvr hid
      obtain rfl : r = row := List.inj_on_of_nodup_map hs.keyIds hr hrow hid
      exact hv ((of_decide_eq_true hvr).symm.trans hown)

/-! ## Functions -/

theorem view_setFunctions {rows : List Function} (w : Uuid)
    (hversions : ∀ v ∈ s.versions,
      ({ s with functions := rows } : Database).ownsFunction w v.functionId = s.ownsFunction w v.functionId)
    (hactivations : ∀ a ∈ s.activations,
      ({ s with functions := rows } : Database).ownsFunction w a.functionId = s.ownsFunction w a.functionId)
    (hschedules : ∀ r ∈ s.schedules,
      ({ s with functions := rows } : Database).ownsFunction w r.functionId = s.ownsFunction w r.functionId)
    (hexecutions : ∀ e ∈ s.executions, ∀ functionId, e.functionId = some functionId →
      ({ s with functions := rows } : Database).ownsFunction w functionId = s.ownsFunction w functionId) :
    view w { s with functions := rows } =
      { view w s with functions := rows.filter fun f => decide (f.ownerId = w) } := by
  have howns : ∀ e ∈ s.executions,
      ({ s with functions := rows } : Database).ownsExecution w e = s.ownsExecution w e := by
    intro e he
    rw [Bool.eq_iff_iff, ownsExecution_iff, ownsExecution_iff]
    constructor
    · rintro (⟨i, hi, hown⟩ | h)
      · exact Or.inl ⟨i, hi, hexecutions e he i hi ▸ hown⟩
      · exact Or.inr h
    · rintro (⟨i, hi, hown⟩ | h)
      · exact Or.inl ⟨i, hi, (hexecutions e he i hi).trans hown⟩
      · exact Or.inr h
  have hids : ∀ id, ({ s with functions := rows } : Database).ownsExecutionId w id = s.ownsExecutionId w id := by
    intro id
    rw [Bool.eq_iff_iff, ownsExecutionId_iff, ownsExecutionId_iff]
    constructor
    · rintro ⟨e, he, hid, hown⟩
      exact ⟨e, he, hid, howns e he ▸ hown⟩
    · rintro ⟨e, he, hid, hown⟩
      exact ⟨e, he, hid, (howns e he).trans hown⟩
  have hlogs : ∀ log ∈ s.logs, ({ s with functions := rows } : Database).ownsLog w log = s.ownsLog w log :=
    fun log _ => hids log.executionId
  simp only [view, hids]
  rw [List.filter_congr hversions, List.filter_congr hactivations, List.filter_congr hschedules,
    List.filter_congr howns, List.filter_congr hlogs]

theorem insertFunction_confined {row : Function} (hs : WellFormed s) (howner : row.ownerId = u)
    (hactive : row.activeVersionId = none) (hcanary : row.canaryVersionId = none) (hfresh : Fresh s row.id) :
    Confined u (insertFunction row) s := by
  have howns : ∀ w functionId, functionId ≠ row.id →
      (insertFunction row s).ownsFunction w functionId = s.ownsFunction w functionId := by
    intro w functionId hne
    simp [ownsFunction, insertFunction, hne.symm]
  have hview : ∀ w, view w (insertFunction row s) = { view w s with
      functions := (s.functions ++ [row]).filter fun f => decide (f.ownerId = w) } := by
    intro w
    apply view_setFunctions w
    · exact fun v hv => howns w _ (hfresh.versions v hv).2
    · exact fun a ha => howns w _ (hfresh.activations a ha).1
    · exact fun r hr => howns w _ (hfresh.schedules r hr).2
    · intro e he functionId hid
      apply howns w
      rintro rfl
      exact (hfresh.executions e he).2.1 hid
  constructor
  · refine
      { hs with
        functionIds := ?_
        functionVersions := ?_
        activationVersions := hs.activationVersions
        scheduleOwner := ?_
        executionRefs := ?_ }
    · rw [insertFunction, List.map_append]
      apply nodup_append_singleton hs.functionIds
      intro id hid
      obtain ⟨f, hf, rfl⟩ := List.mem_map.mp hid
      exact (hfresh.functions f hf).1
    · intro f hf
      rcases List.mem_append.mp hf with hf | hf
      · exact hs.functionVersions f hf
      · rw [List.mem_singleton.mp hf, hactive, hcanary]
        constructor
        · intro v _ h
          cases h
        · intro v _ h
          cases h
    · intro r hr
      rw [howns _ _ (hfresh.schedules r hr).2]
      exact hs.scheduleOwner r hr
    · intro e he
      refine { hs.executionRefs e he with owner := fun f hf hid => ?_ }
      rcases List.mem_append.mp hf with hf | hf
      · exact (hs.executionRefs e he).owner f hf hid
      · obtain rfl := List.mem_singleton.mp hf
        exact absurd hid (hfresh.executions e he).2.1
  · rw [hview, List.filter_append]
    simp [howner, insertFunction, view]
  · intro v hv
    rw [hview, List.filter_append]
    simp [howner, hv.symm, view]

theorem ownsFunction_updateFunction {id : Uuid} {edit : Function → Function}
    (hedit : ∀ f, (edit f).id = f.id ∧ (edit f).ownerId = f.ownerId) (w functionId : Uuid) :
    (updateFunction id edit s).ownsFunction w functionId = s.ownsFunction w functionId := by
  unfold ownsFunction updateFunction Table.modify
  rw [List.any_map]
  congr 1
  funext f
  rw [Function.comp_apply]
  split_ifs
  · rw [(hedit f).1, (hedit f).2]
  · rfl

theorem updateFunction_confined {row : Function} {edit : Function → Function} (hs : WellFormed s)
    (hrow : row ∈ s.functions) (hown : row.ownerId = u)
    (hedit : ∀ f, (edit f).id = f.id ∧ (edit f).ownerId = f.ownerId)
    (hversions : s.VersionOf row.id (edit row).activeVersionId ∧
      s.VersionOf row.id (edit row).canaryVersionId) :
    Confined u (updateFunction row.id edit) s := by
  have howns : ∀ w functionId, (updateFunction row.id edit s).ownsFunction w functionId =
      s.ownsFunction w functionId := ownsFunction_updateFunction hedit
  have hview : ∀ w, view w (updateFunction row.id edit s) = { view w s with
      functions := (Table.modify s.functions row.id edit).filter fun f => decide (f.ownerId = w) } :=
    fun w => view_setFunctions w (fun _ _ => howns w _) (fun _ _ => howns w _) (fun _ _ => howns w _)
      fun _ _ _ _ => howns w _
  constructor
  · refine
      { hs with
        functionIds := ?_
        functionVersions := ?_
        activationVersions := hs.activationVersions
        scheduleOwner := fun r hr => (howns _ _).trans (hs.scheduleOwner r hr)
        executionRefs := ?_ }
    · rw [updateFunction, Table.map_modify fun r => (hedit r).1]
      exact hs.functionIds
    · intro f hf
      rcases Table.mem_modify hf with ⟨hf, -⟩ | ⟨f₀, hf₀, hid, rfl⟩
      · exact hs.functionVersions f hf
      · obtain rfl : f₀ = row := function_unique hs hf₀ hrow hid
        rw [(hedit f₀).1]
        exact hversions
    · intro e he
      refine { hs.executionRefs e he with owner := fun f hf hid => ?_ }
      rcases Table.mem_modify hf with ⟨hf, -⟩ | ⟨f₀, hf₀, -, rfl⟩
      · exact (hs.executionRefs e he).owner f hf hid
      · rw [(hedit f₀).1] at hid
        rw [(hedit f₀).2]
        exact (hs.executionRefs e he).owner f₀ hf₀ hid
  · rw [hview, Table.filter_modify fun f _ => by rw [(hedit f).2]]
    rfl
  · intro v hv
    rw [hview, Table.filter_modify_of_ne]
    · rfl
    · intro f _
      rw [(hedit f).2]
    · intro f hf hvf hid
      obtain rfl : f = row := function_unique hs hf hrow hid
      exact hv ((of_decide_eq_true hvf).symm.trans hown)

end PyFaaS.Database
