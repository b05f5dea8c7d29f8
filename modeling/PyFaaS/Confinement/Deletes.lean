import PyFaaS.Confinement.Executions

/-!
# Deletes

What the foreign keys delete or set to null belongs to the user whose row is deleted.
-/

namespace PyFaaS.Database

variable {s : Database} {u v : Uuid}

theorem detachExecutions_confined {functionId : Uuid} (hs : WellFormed s)
    (hown : s.ownsFunction u functionId = true) (now : Time) :
    Confined u (detachExecutions functionId u now) s := by
  have htouch : Confined u (touchExecutions (fun e => decide (e.functionId = some functionId)) now) s :=
    touchExecutions_confined hs now fun e _ hid =>
      ownsExecution_iff.mpr (Or.inl ⟨functionId, of_decide_eq_true hid, hown⟩)
  have hmap : Confined u (fun s => { s with
    executions := s.executions.map fun e =>
      if e.functionId = some functionId then
        { e with functionId := none, functionVersionId := none, scheduleId := none, triggeredBy := some u }
      else e }) (touchExecutions (fun e => decide (e.functionId = some functionId)) now s) := by
    apply mapExecutions_confined htouch.wellFormed rfl rfl
    · intro e
      split_ifs
      · rfl
      · rfl
    · intro w e he
      split_ifs with hid
      · rw [Bool.eq_iff_iff]
        have hmine : s.ownsExecution u e = true := ownsExecution_iff.mpr (Or.inl ⟨functionId, hid, hown⟩)
        constructor
        · intro h
          obtain rfl : u = w := by simpa [ownsExecution] using h
          exact hmine
        · intro h
          rw [ownsExecution_unique hs (hs.executionRefs e he) hmine h]
          simp [ownsExecution]
      · rfl
    · intro e he hnot
      apply if_neg
      intro hid
      have hmine : s.ownsExecution u e = true := ownsExecution_iff.mpr (Or.inl ⟨functionId, hid, hown⟩)
      exact absurd (hmine.symm.trans hnot) (by decide)
    · intro e he
      split_ifs with hid
      · obtain ⟨f, hf, rfl, rfl⟩ := ownsFunction_iff.mp hown
        constructor
        · intro f' _ hnone
          cases hnone
        · intro v _ hnone
          cases hnone
        · intro r _ hnone
          cases hnone
        · intro k hk hkey
          have htriggered := (hs.executionRefs e he).key k hk hkey
          rw [triggeredBy_owner (hs.executionRefs e he) hid hown htriggered]
      · exact htouch.wellFormed.executionRefs e he
  exact htouch.trans hmap

theorem nullSchedules_confined {deleted : List Uuid} (hs : WellFormed s)
    (hdeleted : ∀ e ∈ s.executions, ∀ id ∈ deleted, e.scheduleId = some id → s.ownsExecution u e = true) :
    Confined u (fun s => { s with
      executions := s.executions.map fun e => { e with scheduleId := setNull deleted e.scheduleId } }) s := by
  apply mapExecutions_confined hs rfl rfl
  · exact fun _ => rfl
  · exact fun _ _ _ => rfl
  · intro e he hnot
    have hkeep : setNull deleted e.scheduleId = e.scheduleId := by
      apply setNull_of_notMem
      intro id hid hmem
      rw [hdeleted e he id hmem hid] at hnot
      cases hnot
    rw [hkeep]
  · intro e he
    exact { hs.executionRefs e he with
      schedule := fun r hr hid => (hs.executionRefs e he).schedule r hr (setNull_some hid).1 }

theorem nullVersions_confined {deleted : List Uuid} (hs : WellFormed s)
    (hdeleted : ∀ e ∈ s.executions, ∀ id ∈ deleted, e.functionVersionId = some id →
      s.ownsExecution u e = true) :
    Confined u (fun s => { s with
      executions := s.executions.map fun e =>
        { e with functionVersionId := setNull deleted e.functionVersionId } }) s := by
  apply mapExecutions_confined hs rfl rfl
  · exact fun _ => rfl
  · exact fun _ _ _ => rfl
  · intro e he hnot
    have hkeep : setNull deleted e.functionVersionId = e.functionVersionId := by
      apply setNull_of_notMem
      intro id hid hmem
      rw [hdeleted e he id hmem hid] at hnot
      cases hnot
    rw [hkeep]
  · intro e he
    exact { hs.executionRefs e he with
      version := fun v hv hid => (hs.executionRefs e he).version v hv (setNull_some hid).1 }

theorem detachVersions_confined {versionIds : List Uuid} (hs : WellFormed s)
    (hversions : ∀ e ∈ s.executions, ∀ id ∈ versionIds, e.functionVersionId = some id →
      s.ownsExecution u e = true) (now : Time) :
    Confined u (detachVersions versionIds now) s := by
  have htouch : Confined u
      (touchExecutions (fun e => e.functionVersionId.any fun id => decide (id ∈ versionIds)) now) s := by
    apply touchExecutions_confined hs
    intro e he hmatch
    obtain ⟨id, hid, hmem⟩ := (Option.any_eq_true _ _).mp hmatch
    exact hversions e he id (of_decide_eq_true hmem) hid
  exact htouch.trans (nullVersions_confined htouch.wellFormed hversions)

theorem filterSchedules_confined {q : Schedule → Bool} (hs : WellFormed s)
    (hq : ∀ r ∈ s.schedules, q r = false → s.ownsFunction u r.functionId = true) :
    Confined u (fun s => { s with schedules := s.schedules.filter q }) s where
  wellFormed :=
    { hs with
      scheduleIds := hs.scheduleIds.sublist (List.filter_sublist.map _)
      activationVersions := hs.activationVersions
      scheduleOwner := fun r hr => hs.scheduleOwner r (List.mem_of_mem_filter hr)
      executionRefs := fun e he => { hs.executionRefs e he with
        schedule := fun r hr => (hs.executionRefs e he).schedule r (List.mem_of_mem_filter hr) } }
  own := by
    rw [view_setSchedules, List.filter_comm]
    rfl
  others v hv := by
    rw [view_setSchedules, Table.filter_filter_of_unchanged]
    · rfl
    · intro r hr hown
      by_contra hnot
      exact hv (ownsFunction_unique hs hown (hq r hr (by simpa using hnot)))

theorem deleteSchedules_confined {p : Schedule → Bool} (hs : WellFormed s)
    (hp : ∀ r ∈ s.schedules, p r = true → s.ownsFunction u r.functionId = true) :
    Confined u (deleteSchedules p) s := by
  have hdeleted : ∀ e ∈ s.executions, ∀ id ∈ (s.schedules.filter p).map Schedule.id,
      e.scheduleId = some id → s.ownsExecution u e = true := by
    intro e he id hid hschedule
    obtain ⟨r, hr, rfl⟩ := List.mem_map.mp hid
    obtain ⟨hr, hpr⟩ := List.mem_filter.mp hr
    exact ownsExecution_iff.mpr (Or.inl ⟨_, (hs.executionRefs e he).schedule r hr hschedule, hp r hr hpr⟩)
  have hnull := nullSchedules_confined hs hdeleted
  have hfilter := filterSchedules_confined (u := u) (q := fun r => !p r) hnull.wellFormed
    fun r hr hpr => hp r hr (by simpa using hpr)
  apply (hnull.trans hfilter).congr
  · rfl
  · have hmine : (view u s).schedules.filter p = s.schedules.filter p := (Table.filter_owned hp).symm
    unfold deleteSchedules
    rw [hmine]

theorem deleteActivations_confined {functionId : Uuid} (hs : WellFormed s)
    (hown : s.ownsFunction u functionId = true) : Confined u (deleteActivations functionId) s where
  wellFormed :=
    { hs with
      activationVersions := fun a ha => hs.activationVersions a (List.mem_of_mem_filter ha)
      executionRefs := fun e he => { hs.executionRefs e he with } }
  own := by
    rw [deleteActivations, view_setActivations, List.filter_comm]
    rfl
  others v hv := by
    rw [deleteActivations, view_setActivations, Table.filter_filter_of_unchanged]
    · rfl
    · intro a _ hown'
      by_contra hnot
      obtain rfl : a.functionId = functionId := by simpa using hnot
      exact hv (ownsFunction_unique hs hown' hown)

theorem nullActivations_confined {deleted : List Uuid} (hs : WellFormed s)
    (hdeleted : ∀ v ∈ s.versions, v.id ∈ deleted → s.ownsFunction u v.functionId = true)
    (hexists : ∀ id ∈ deleted, ∃ v ∈ s.versions, v.id = id) :
    Confined u (fun s => { s with
      activations := s.activations.map fun a =>
        { a with
          previousVersionId := setNull deleted a.previousVersionId
          activatedVersionId := setNull deleted a.activatedVersionId
          canaryVersionId := setNull deleted a.canaryVersionId } }) s where
  wellFormed :=
    { hs with
      activationVersions := by
        intro a ha
        obtain ⟨a₀, ha₀, rfl⟩ := List.mem_map.mp ha
        obtain ⟨hprevious, hactivated, hcanary⟩ := hs.activationVersions a₀ ha₀
        exact ⟨fun v hv h => hprevious v hv (setNull_some h).1,
          fun v hv h => hactivated v hv (setNull_some h).1, fun v hv h => hcanary v hv (setNull_some h).1⟩
      executionRefs := fun e he => { hs.executionRefs e he with } }
  own := by
    rw [view_setActivations, Table.filter_map fun _ _ => rfl]
    rfl
  others w hw := by
    have hkeep : ∀ a ∈ s.activations, s.ownsFunction w a.functionId = true → ∀ ref,
        s.VersionOf a.functionId ref → setNull deleted ref = ref := by
      intro a _ hown ref href
      apply setNull_of_notMem
      rintro id rfl hmem
      obtain ⟨v, hv, rfl⟩ := hexists id hmem
      have hmine := hdeleted v hv hmem
      rw [href v hv rfl] at hmine
      exact hw (ownsFunction_unique hs hown hmine)
    rw [view_setActivations, Table.filter_map_of_unchanged fun _ _ => rfl]
    · rfl
    · intro a ha hown
      obtain ⟨hprevious, hactivated, hcanary⟩ := hs.activationVersions a ha
      rw [hkeep a ha hown _ hprevious, hkeep a ha hown _ hactivated, hkeep a ha hown _ hcanary]

theorem filterVersions_confined {q : FunctionVersion → Bool} (hs : WellFormed s)
    (hq : ∀ v ∈ s.versions, q v = false → s.ownsFunction u v.functionId = true) :
    Confined u (fun s => { s with versions := s.versions.filter q }) s where
  wellFormed :=
    { hs with
      versionIds := hs.versionIds.sublist (List.filter_sublist.map _)
      functionVersions := by
        intro f hf
        obtain ⟨hactive, hcanary⟩ := hs.functionVersions f hf
        exact ⟨fun v hv => hactive v (List.mem_of_mem_filter hv),
          fun v hv => hcanary v (List.mem_of_mem_filter hv)⟩
      activationVersions := by
        intro a ha
        obtain ⟨hprevious, hactivated, hcanary⟩ := hs.activationVersions a ha
        exact ⟨fun v hv => hprevious v (List.mem_of_mem_filter hv),
          fun v hv => hactivated v (List.mem_of_mem_filter hv),
          fun v hv => hcanary v (List.mem_of_mem_filter hv)⟩
      executionRefs := fun e he => { hs.executionRefs e he with
        version := fun v hv => (hs.executionRefs e he).version v (List.mem_of_mem_filter hv) } }
  own := by
    rw [view_setVersions, List.filter_comm]
    rfl
  others w hw := by
    rw [view_setVersions, Table.filter_filter_of_unchanged]
    · rfl
    · intro v hv hown
      by_contra hnot
      exact hw (ownsFunction_unique hs hown (hq v hv (by simpa using hnot)))

theorem deleteVersions_confined {functionId : Uuid} (hs : WellFormed s)
    (hown : s.ownsFunction u functionId = true) : Confined u (deleteVersions functionId) s := by
  have hmem : ∀ id, id ∈ (s.versions.filter fun v => decide (v.functionId = functionId)).map FunctionVersion.id →
      ∃ v ∈ s.versions, v.id = id ∧ v.functionId = functionId := by
    intro id hid
    obtain ⟨v, hv, rfl⟩ := List.mem_map.mp hid
    obtain ⟨hv, hfunction⟩ := List.mem_filter.mp hv
    exact ⟨v, hv, rfl, of_decide_eq_true hfunction⟩
  have hexecutions := nullVersions_confined (u := u) hs fun e he id hid hversion => by
    obtain ⟨v, hv, rfl, rfl⟩ := hmem id hid
    exact ownsExecution_iff.mpr (Or.inl ⟨_, (hs.executionRefs e he).version v hv hversion, hown⟩)
  have hactivations := nullActivations_confined (u := u) hexecutions.wellFormed
    (fun v hv hid => by
      obtain ⟨v', hv', hid', rfl⟩ := hmem v.id hid
      rwa [List.inj_on_of_nodup_map hs.versionIds hv hv' hid'.symm])
    fun id hid => by
      obtain ⟨v, hv, hid, -⟩ := hmem id hid
      exact ⟨v, hv, hid⟩
  have hversions := filterVersions_confined (u := u) (q := fun v => !decide (v.functionId = functionId))
    hactivations.wellFormed fun v _ hv => by
      obtain rfl : v.functionId = functionId := by simpa using hv
      exact hown
  apply ((hexecutions.trans hactivations).trans hversions).congr
  · rfl
  · have hmine : (view u s).versions.filter (fun v => decide (v.functionId = functionId)) =
        s.versions.filter fun v => decide (v.functionId = functionId) := by
      apply (Table.filter_owned _).symm
      intro v _ hv
      rwa [of_decide_eq_true hv]
    unfold deleteVersions
    rw [hmine]

structure Unreferenced (s : Database) (functionId : Uuid) : Prop where
  versions : ∀ v ∈ s.versions, v.functionId ≠ functionId
  activations : ∀ a ∈ s.activations, a.functionId ≠ functionId
  schedules : ∀ r ∈ s.schedules, r.functionId ≠ functionId
  executions : ∀ e ∈ s.executions, e.functionId ≠ some functionId

theorem filterFunctions_confined {functionId : Uuid} (hs : WellFormed s)
    (hown : s.ownsFunction u functionId = true) (hfree : s.Unreferenced functionId) :
    Confined u (fun s => { s with
      functions := s.functions.filter fun f => !decide (f.id = functionId) }) s := by
  have howns : ∀ w i, i ≠ functionId → ({ s with
      functions := s.functions.filter fun f => !decide (f.id = functionId) } : Database).ownsFunction w i =
        s.ownsFunction w i := by
    intro w i hi
    rw [Bool.eq_iff_iff, ownsFunction_iff, ownsFunction_iff]
    constructor
    · rintro ⟨f, hf, hid⟩
      exact ⟨f, List.mem_of_mem_filter hf, hid⟩
    · rintro ⟨f, hf, rfl, howner⟩
      exact ⟨f, List.mem_filter.mpr ⟨hf, by simpa using hi⟩, rfl, howner⟩
  have hview : ∀ w, view w { s with
      functions := s.functions.filter fun f => !decide (f.id = functionId) } = { view w s with
      functions := (s.functions.filter fun f => !decide (f.id = functionId)).filter fun f =>
        decide (f.ownerId = w) } := by
    intro w
    apply view_setFunctions w
    · exact fun v hv => howns w _ (hfree.versions v hv)
    · exact fun a ha => howns w _ (hfree.activations a ha)
    · exact fun r hr => howns w _ (hfree.schedules r hr)
    · intro e he i hi
      apply howns w
      rintro rfl
      exact hfree.executions e he hi
  constructor
  · exact
      { hs with
        functionIds := hs.functionIds.sublist (List.filter_sublist.map _)
        functionVersions := fun f hf => hs.functionVersions f (List.mem_of_mem_filter hf)
        activationVersions := hs.activationVersions
        scheduleOwner := fun r hr => (howns _ _ (hfree.schedules r hr)).trans (hs.scheduleOwner r hr)
        executionRefs := fun e he => { hs.executionRefs e he with
          owner := fun f hf => (hs.executionRefs e he).owner f (List.mem_of_mem_filter hf) } }
  · rw [hview, List.filter_comm]
    rfl
  · intro w hw
    rw [hview, Table.filter_filter_of_unchanged]
    · rfl
    · intro f hf hown'
      by_contra hnot
      obtain rfl : f.id = functionId := by simpa using hnot
      exact hw ((of_decide_eq_true hown').symm.trans (ownsFunction_unique hs (ownsFunction_of_mem hf) hown))

theorem map_nullFunction {functionId : Uuid} {rows : List Execution}
    (h : ∀ e ∈ rows, e.functionId ≠ some functionId) :
    (rows.map fun e => { e with functionId := setNull [functionId] e.functionId }) = rows := by
  have hid : ∀ e ∈ rows, ({ e with functionId := setNull [functionId] e.functionId } : Execution) = e := by
    intro e he
    have hkeep : setNull [functionId] e.functionId = e.functionId := by
      apply setNull_of_notMem
      rintro i hi hmem
      obtain rfl := List.mem_singleton.mp hmem
      exact h e he hi
    rw [hkeep]
  rw [List.map_congr_left hid, List.map_id']

theorem removeFunction_confined {functionId : Uuid} (hs : WellFormed s)
    (hown : s.ownsFunction u functionId = true) (hfree : s.Unreferenced functionId) :
    Confined u (fun s => { s with
      functions := s.functions.filter fun f => !decide (f.id = functionId)
      executions := s.executions.map fun e =>
        { e with functionId := setNull [functionId] e.functionId } }) s := by
  apply (filterFunctions_confined hs hown hfree).congr
  · rw [map_nullFunction hfree.executions]
  · have hmine : ∀ e ∈ (view u s).executions, e.functionId ≠ some functionId :=
      fun e he => hfree.executions e (List.mem_of_mem_filter he)
    rw [map_nullFunction hmine]

theorem deleteFunctionRow_confined {functionId : Uuid} (hs : WellFormed s)
    (hown : s.ownsFunction u functionId = true) (hdetached : ∀ e ∈ s.executions, e.functionId ≠ some functionId) :
    Confined u (deleteFunctionRow functionId) s := by
  have hschedules := deleteSchedules_confined (u := u) (p := fun r => decide (r.functionId = functionId)) hs
    fun r _ hr => by rwa [of_decide_eq_true hr]
  have hactivations := deleteActivations_confined hschedules.wellFormed hown
  have hversions := deleteVersions_confined hactivations.wellFormed hown
  have hfree : Unreferenced (deleteVersions functionId (deleteActivations functionId
      (deleteSchedules (fun r => decide (r.functionId = functionId)) s))) functionId := by
    refine ⟨fun v hv => ?_, fun a ha => ?_, fun r hr => ?_, fun e he => ?_⟩
    · simpa using (List.mem_filter.mp hv).2
    · obtain ⟨a₀, ha₀, rfl⟩ := List.mem_map.mp ha
      simpa using (List.mem_filter.mp ha₀).2
    · simpa using (List.mem_filter.mp hr).2
    · obtain ⟨e₁, he₁, rfl⟩ := List.mem_map.mp he
      obtain ⟨e₀, he₀, rfl⟩ := List.mem_map.mp he₁
      exact hdetached e₀ he₀
  exact ((hschedules.trans hactivations).trans hversions).trans
    (removeFunction_confined hversions.wellFormed hown hfree)

end PyFaaS.Database
