import PyFaaS.Confinement.Rows

/-!
# Statements on executions and their logs
-/

namespace PyFaaS.Database

variable {s : Database} {u v : Uuid}

theorem view_setExecutions {rows : List Execution} (w : Uuid)
    (hids : ∀ id, ({ s with executions := rows } : Database).ownsExecutionId w id = s.ownsExecutionId w id) :
    view w { s with executions := rows } =
      { view w s with executions := rows.filter (s.ownsExecution w) } := by
  have hlogs : ∀ log ∈ s.logs, ({ s with executions := rows } : Database).ownsLog w log = s.ownsLog w log :=
    fun log _ => hids log.executionId
  simp only [view, hids]
  rw [List.filter_congr hlogs]
  rfl

theorem ownsExecutionId_insertExecution {row : Execution} (hfresh : Fresh s row.id) (w id : Uuid) :
    (insertExecution row s).ownsExecutionId w id =
      if row.id = id then s.ownsExecution w row else s.ownsExecutionId w id := by
  have happend : (insertExecution row s).ownsExecutionId w id =
      (s.ownsExecutionId w id || (decide (row.id = id) && s.ownsExecution w row)) := by
    rw [ownsExecutionId, insertExecution, List.any_append, List.any_cons, List.any_nil, Bool.or_false]
    rfl
  rw [happend]
  split_ifs with hid
  · have hnot : s.ownsExecutionId w id = false := by
      rw [ownsExecutionId, List.any_eq_false]
      intro e he
      rw [decide_eq_false fun h => (hfresh.executions e he).1 (h.trans hid.symm)]
      exact Bool.false_ne_true
    simp [hnot, hid]
  · simp [hid]

theorem view_insertExecution {row : Execution} (hs : WellFormed s) (hfresh : Fresh s row.id) (w : Uuid) :
    view w (insertExecution row s) = { view w s with
      executions := (s.executions ++ [row]).filter (s.ownsExecution w)
      executionsUpdatedAt := (view w s).executionsUpdatedAt ++
        if s.ownsExecution w row then [(row.id, row.createdAt)] else [] } := by
  have hlogs : s.logs.filter ((insertExecution row s).ownsLog w) = s.logs.filter (s.ownsLog w) := by
    refine List.filter_congr fun log hlog => ?_
    exact (ownsExecutionId_insertExecution hfresh w _).trans (if_neg (hfresh.logs log hlog).symm)
  have hold : ∀ stamp ∈ s.executionsUpdatedAt,
      (insertExecution row s).ownsExecutionId w stamp.1 = s.ownsExecutionId w stamp.1 := by
    intro stamp hstamp
    have hkey : stamp.1 ∈ s.executions.map Execution.id := hs.updatedAt ▸ List.mem_map_of_mem hstamp
    obtain ⟨e, he, hid⟩ := List.mem_map.mp hkey
    rw [ownsExecutionId_insertExecution hfresh, if_neg fun h => (hfresh.executions e he).1 (hid.trans h.symm)]
  have hstamps : ((s.executionsUpdatedAt ++ [(row.id, row.createdAt)]).filter fun stamp =>
      (insertExecution row s).ownsExecutionId w stamp.1) = (view w s).executionsUpdatedAt ++
        if s.ownsExecution w row then [(row.id, row.createdAt)] else [] := by
    rw [List.filter_append, List.filter_congr hold, List.filter_singleton, ownsExecutionId_insertExecution hfresh,
      if_pos rfl, cond_eq_ite]
    rfl
  change ({ view w s with
    executions := (s.executions ++ [row]).filter (s.ownsExecution w)
    logs := s.logs.filter ((insertExecution row s).ownsLog w)
    executionsUpdatedAt := (s.executionsUpdatedAt ++ [(row.id, row.createdAt)]).filter fun stamp =>
      (insertExecution row s).ownsExecutionId w stamp.1 } : Database) = _
  rw [hlogs, hstamps]
  rfl

theorem insertExecution_confined {row : Execution} (hs : WellFormed s) (hown : s.ownsExecution u row = true)
    (hrefs : s.ExecutionRefs row) (hfresh : Fresh s row.id) : Confined u (insertExecution row) s := by
  constructor
  · refine
      { hs with
        executionIds := ?_
        activationVersions := hs.activationVersions
        executionRefs := ?_
        updatedAt := by rw [insertExecution, List.map_append, List.map_append, hs.updatedAt]; rfl }
    · rw [insertExecution, List.map_append]
      apply nodup_append_singleton hs.executionIds
      intro id hid
      obtain ⟨e, he, rfl⟩ := List.mem_map.mp hid
      exact (hfresh.executions e he).1
    · intro e he
      rcases List.mem_append.mp he with he | he
      · exact { hs.executionRefs e he with }
      · rw [List.mem_singleton.mp he]
        exact { hrefs with }
  · rw [view_insertExecution hs hfresh, List.filter_append]
    simp [hown, insertExecution, view]
  · intro v hv
    have hnot : s.ownsExecution v row = false := by
      by_contra h
      exact hv (ownsExecution_unique hs hrefs (by simpa using h) hown)
    rw [view_insertExecution hs hfresh, List.filter_append]
    simp [hnot, view]

theorem mapExecutions_wellFormed {g : Execution → Execution} (hs : WellFormed s)
    (hid : ∀ e, (g e).id = e.id) (hrefs : ∀ e ∈ s.executions, s.ExecutionRefs (g e)) :
    WellFormed { s with executions := s.executions.map g } := by
  have hids : (s.executions.map g).map Execution.id = s.executions.map Execution.id := by
    rw [List.map_map]
    exact List.map_congr_left fun e _ => hid e
  refine
    { hs with
      executionIds := ?_
      activationVersions := hs.activationVersions
      executionRefs := ?_
      updatedAt := hs.updatedAt.trans hids.symm }
  · rw [hids]
    exact hs.executionIds
  · intro e he
    obtain ⟨e₀, he₀, rfl⟩ := List.mem_map.mp he
    exact { hrefs e₀ he₀ with }

theorem mapExecutions_confined {f : Database → Database} {g : Execution → Execution} (hs : WellFormed s)
    (hf : f s = { s with executions := s.executions.map g })
    (hview : f (view u s) = { view u s with executions := (view u s).executions.map g })
    (hid : ∀ e, (g e).id = e.id)
    (howns : ∀ w, ∀ e ∈ s.executions, s.ownsExecution w (g e) = s.ownsExecution w e)
    (hother : ∀ e ∈ s.executions, s.ownsExecution u e = false → g e = e)
    (hrefs : ∀ e ∈ s.executions, s.ExecutionRefs (g e)) : Confined u f s := by
  have hset : ∀ w, view w { s with executions := s.executions.map g } =
      { view w s with executions := (s.executions.map g).filter (s.ownsExecution w) } := by
    intro w
    apply view_setExecutions w
    intro id
    rw [Bool.eq_iff_iff, ownsExecutionId_iff, ownsExecutionId_iff]
    constructor
    · rintro ⟨e, he, hkey, hown⟩
      obtain ⟨e₀, he₀, rfl⟩ := List.mem_map.mp he
      exact ⟨e₀, he₀, (hid e₀).symm.trans hkey, (howns w e₀ he₀).symm.trans hown⟩
    · rintro ⟨e, he, hkey, hown⟩
      exact ⟨g e, List.mem_map_of_mem he, (hid e).trans hkey, (howns w e he).trans hown⟩
  constructor
  · rw [hf]
    exact mapExecutions_wellFormed hs hid hrefs
  · rw [hf, hset, hview, Table.filter_map (howns u)]
    rfl
  · intro v hv
    rw [hf, hset, Table.filter_map_of_unchanged (howns v)]
    · rfl
    · intro e he hown
      apply hother e he
      by_contra h
      exact hv (ownsExecution_unique hs (hs.executionRefs e he) hown (by simpa using h))

/-! ## The column `updated_at` -/

theorem updatedAt_touch {p : Execution → Bool} {now : Time} {stamps : List (Uuid × Time)} :
    (stamps.map fun stamp =>
      if s.executions.any fun e => decide (e.id = stamp.1) && p e then (stamp.1, now) else stamp).map Prod.fst =
        stamps.map Prod.fst := by
  rw [List.map_map]
  refine List.map_congr_left fun stamp _ => ?_
  rw [Function.comp_apply]
  split_ifs <;> rfl

theorem touchExecutions_wellFormed (hs : WellFormed s) (p : Execution → Bool) (now : Time) :
    WellFormed (touchExecutions p now s) :=
  { hs with
    activationVersions := hs.activationVersions
    executionRefs := fun e he => { hs.executionRefs e he with }
    updatedAt := updatedAt_touch.trans hs.updatedAt }

theorem touchExecutions_confined {p : Execution → Bool} (hs : WellFormed s) (now : Time)
    (hp : ∀ e ∈ s.executions, p e = true → s.ownsExecution u e = true) : Confined u (touchExecutions p now) s := by
  have hset : ∀ w, view w (touchExecutions p now s) = { view w s with
      executionsUpdatedAt := (s.executionsUpdatedAt.map fun stamp =>
        if s.executions.any fun e => decide (e.id = stamp.1) && p e then (stamp.1, now) else stamp).filter
          fun stamp => s.ownsExecutionId w stamp.1 } := fun _ => rfl
  have hkey : ∀ w, ∀ stamp ∈ s.executionsUpdatedAt, s.ownsExecutionId w
      (if s.executions.any fun e => decide (e.id = stamp.1) && p e then (stamp.1, now) else stamp).1 =
        s.ownsExecutionId w stamp.1 := by
    intro w stamp _
    split_ifs <;> rfl
  refine ⟨touchExecutions_wellFormed hs p now, ?_, fun v hv => ?_⟩
  · have hmine : ∀ id, (s.executions.any fun e => decide (e.id = id) && p e) =
        (view u s).executions.any fun e => decide (e.id = id) && p e := by
      intro id
      rw [Bool.eq_iff_iff, List.any_eq_true, List.any_eq_true]
      constructor
      · rintro ⟨e, he, hid⟩
        exact ⟨e, List.mem_filter.mpr ⟨he, hp e he (Bool.and_eq_true_iff.mp hid).2⟩, hid⟩
      · rintro ⟨e, he, hid⟩
        exact ⟨e, List.mem_of_mem_filter he, hid⟩
    rw [hset, Table.filter_map (hkey u)]
    simp only [hmine]
    rfl
  · rw [hset, Table.filter_map_of_unchanged (hkey v)]
    · rfl
    · intro stamp _ hown
      apply if_neg
      rw [List.any_eq_true]
      rintro ⟨e, he, hmatch⟩
      obtain ⟨hid, hpe⟩ := Bool.and_eq_true_iff.mp hmatch
      obtain ⟨e', he', hid', hv'⟩ := ownsExecutionId_iff.mp hown
      obtain rfl : e' = e :=
        List.inj_on_of_nodup_map hs.executionIds he' he (hid'.trans (of_decide_eq_true hid).symm)
      exact hv (ownsExecution_unique hs (hs.executionRefs e' he) hv' (hp e' he hpe))

theorem ownsExecution_sameRequest {e e' : Execution} (h : Execution.SameRequest e e') (w : Uuid) :
    s.ownsExecution w e' = s.ownsExecution w e := by
  obtain ⟨-, hfunction, -, htriggered, -⟩ := h
  rw [ownsExecution, ownsExecution, hfunction, htriggered]

theorem executionRefs_sameRequest {e e' : Execution} (h : Execution.SameRequest e e')
    (he : s.ExecutionRefs e) : s.ExecutionRefs e' := by
  obtain ⟨-, hfunction, hversion, htriggered, hkey, -, hschedule, -⟩ := h
  constructor
  · rw [hfunction, htriggered]
    exact he.owner
  · rw [hfunction, hversion]
    exact he.version
  · rw [hfunction, hschedule]
    exact he.schedule
  · rw [hkey, htriggered]
    exact he.key

theorem sameRequest_ite {edit : Execution → Execution} (hedit : ∀ e, Execution.SameRequest e (edit e))
    {id : Uuid} (e : Execution) :
    Execution.SameRequest e (if (Keyed.key e : Uuid) = id then edit e else e) := by
  split_ifs
  · exact hedit e
  · exact .refl e

theorem updateExecution_wellFormed {edit : Execution → Execution} (hs : WellFormed s)
    (hedit : ∀ e, Execution.SameRequest e (edit e)) (id : Uuid) (now : Time) :
    WellFormed (updateExecution id edit now s) := by
  have htouch := touchExecutions_wellFormed hs (fun e => decide (e.id = id) && decide (edit e ≠ e)) now
  apply mapExecutions_wellFormed htouch
  · exact fun e => (sameRequest_ite hedit e).1
  · exact fun e he => executionRefs_sameRequest (sameRequest_ite hedit e) (htouch.executionRefs e he)

theorem updateExecution_confined {row : Execution} {edit : Execution → Execution} (hs : WellFormed s)
    (hrow : row ∈ s.executions) (hown : s.ownsExecution u row = true)
    (hedit : ∀ e, Execution.SameRequest e (edit e)) (now : Time) :
    Confined u (updateExecution row.id edit now) s := by
  have hsame : ∀ e, Execution.SameRequest e (if (Keyed.key e : Uuid) = row.id then edit e else e) :=
    sameRequest_ite hedit
  have htouch : Confined u (touchExecutions (fun e => decide (e.id = row.id) && decide (edit e ≠ e)) now) s := by
    apply touchExecutions_confined hs
    intro e he hmatch
    obtain rfl : e = row :=
      List.inj_on_of_nodup_map hs.executionIds he hrow (of_decide_eq_true (Bool.and_eq_true_iff.mp hmatch).1)
    exact hown
  have hmap : Confined u (fun s => { s with executions := Table.modify s.executions row.id edit })
      (touchExecutions (fun e => decide (e.id = row.id) && decide (edit e ≠ e)) now s) := by
    apply mapExecutions_confined htouch.wellFormed rfl rfl
    · exact fun e => (hsame e).1
    · exact fun w e _ => ownsExecution_sameRequest (hsame e) w
    · intro e he hnot
      apply if_neg
      intro hid
      obtain rfl : e = row := List.inj_on_of_nodup_map hs.executionIds he hrow hid
      exact absurd (hown.symm.trans hnot) (by decide)
    · exact fun e he => executionRefs_sameRequest (hsame e) (htouch.wellFormed.executionRefs e he)
  exact htouch.trans hmap

theorem appendLogs_confined {rows : List ExecutionLog} {row : Execution} (hs : WellFormed s)
    (hrow : row ∈ s.executions) (hown : s.ownsExecution u row = true)
    (hlogs : ∀ log ∈ rows, log.executionId = row.id) :
    Confined u (fun s => { s with logs := s.logs ++ rows }) s where
  wellFormed :=
    { hs with
      activationVersions := hs.activationVersions
      executionRefs := fun e he => { hs.executionRefs e he with } }
  own := by
    have hmine : rows.filter (s.ownsLog u) = rows := by
      apply List.filter_eq_self.mpr
      intro log hlog
      exact ownsLog_iff.mpr ⟨row, hrow, (hlogs log hlog).symm, hown⟩
    change { view u s with logs := (s.logs ++ rows).filter (s.ownsLog u) } = _
    rw [List.filter_append, hmine]
    rfl
  others v hv := by
    have hnone : rows.filter (s.ownsLog v) = [] := by
      apply List.filter_eq_nil_iff.mpr
      intro log hlog hown'
      obtain ⟨e, he, hid, hv'⟩ := ownsLog_iff.mp hown'
      obtain rfl : e = row := List.inj_on_of_nodup_map hs.executionIds he hrow (hid.trans (hlogs log hlog))
      exact hv (ownsExecution_unique hs (hs.executionRefs e he) hv' hown)
    change { view v s with logs := (s.logs ++ rows).filter (s.ownsLog v) } = _
    rw [List.filter_append, hnone, List.append_nil]
    rfl

theorem commitEdit_confined {row : Execution} {edit : Edit} (hs : WellFormed s)
    (hrow : row ∈ s.executions) (hown : s.ownsExecution u row = true) (now : Time) :
    Confined u (commitEdit row.id edit now) s := by
  have hupdate : Confined u (updateExecution row.id edit.after now) s :=
    updateExecution_confined hs hrow hown edit.after_sameRequest now
  have hafter : edit.after row ∈ (updateExecution row.id edit.after now s).executions :=
    List.mem_map.mpr ⟨row, hrow, if_pos rfl⟩
  have hlogs : ∀ log ∈ (s.executions.filter fun e => decide (e.id = row.id)).flatMap edit.logsAfter,
      log.executionId = (edit.after row).id := by
    intro log hlog
    obtain ⟨e, he, hmem⟩ := List.mem_flatMap.mp hlog
    rw [edit.after_id, Edit.logsAfter_executionId hmem]
    exact of_decide_eq_true (List.mem_filter.mp he).2
  have hown' : s.ownsExecution u (edit.after row) = true :=
    (ownsExecution_sameRequest (edit.after_sameRequest row) u).trans hown
  have hmine : (view u s).executions.filter (fun e => decide (e.id = row.id)) =
      s.executions.filter fun e => decide (e.id = row.id) := by
    apply (Table.filter_owned _).symm
    intro e he hid
    rwa [List.inj_on_of_nodup_map hs.executionIds he hrow (of_decide_eq_true hid)]
  apply (hupdate.trans (appendLogs_confined hupdate.wellFormed hafter hown' hlogs)).congr
  · rfl
  · unfold commitEdit
    rw [hmine]
    rfl

theorem commitEdit_wellFormed (hs : WellFormed s) (id : Uuid) (edit : Edit) (now : Time) :
    WellFormed (commitEdit id edit now s) := by
  have hupdate := updateExecution_wellFormed hs edit.after_sameRequest id now
  exact
    { hupdate with
      activationVersions := hupdate.activationVersions
      executionRefs := fun e he => { hupdate.executionRefs e he with } }

end PyFaaS.Database
