import PyFaaS.Confinement.Executions
import PyFaaS.Dashboard

/-!
# Whose rows the dashboard shows

The route keeps to nobody's rows: whatever a user sees, rows of another user alone
change every part of it.
-/

namespace PyFaaS.Dashboard
open Api Database

variable {ρ : Type}

/-! ## What the latest rows show -/

theorem mem_newestFirst {α : Type} {createdAt : α → Time} {rows : List α} {x : α} :
    x ∈ newestFirst createdAt rows ↔ x ∈ rows := (List.mergeSort_perm rows _).mem_iff

theorem newest_shown {α : Type} {createdAt : α → Time} {rows : List α} {x : α} {p : α → Prop} {limit : ℕ}
    (hx : x ∈ rows) (hnew : ∀ y ∈ rows, p y ∨ createdAt y < createdAt x) (hlimit : 0 < limit) :
    ∃ y ∈ (newestFirst createdAt rows).take limit, p y := by
  have hsorted : (newestFirst createdAt rows).Pairwise fun a b => decide (createdAt b ≤ createdAt a) = true := by
    apply List.pairwise_mergeSort
    · intro a b c hab hbc
      exact decide_eq_true (Int.le_trans (of_decide_eq_true hbc) (of_decide_eq_true hab))
    · intro a b
      rw [Bool.or_eq_true, decide_eq_true_iff, decide_eq_true_iff]
      exact Int.le_total _ _
  have hmem : x ∈ newestFirst createdAt rows := mem_newestFirst.mpr hx
  have hrows : ∀ y ∈ newestFirst createdAt rows, y ∈ rows := fun y hy => mem_newestFirst.mp hy
  cases hlist : newestFirst createdAt rows with
  | nil =>
    rw [hlist] at hmem
    cases hmem
  | cons y ys =>
    rw [hlist] at hsorted hmem hrows
    obtain ⟨limit, rfl⟩ := Nat.exists_eq_succ_of_ne_zero hlimit.ne'
    have hlatest : createdAt x ≤ createdAt y := by
      rcases List.mem_cons.mp hmem with rfl | hx
      · exact Int.le_refl _
      · exact of_decide_eq_true (List.rel_of_pairwise_cons hsorted hx)
    refine ⟨y, by simp, ?_⟩
    exact (hnew y (hrows y List.mem_cons_self)).resolve_right (Int.not_lt.mpr hlatest)

theorem latest_append {α : Type} {createdAt : α → Time} {rows : List α} {x : α}
    (h : ∀ y ∈ rows, createdAt y < createdAt x) : ∀ y ∈ rows ++ [x], y = x ∨ createdAt y < createdAt x := by
  intro y hy
  rcases List.mem_append.mp hy with hy | hy
  · exact Or.inr (h y hy)
  · exact Or.inl (List.mem_singleton.mp hy)

section
variable {α β γ : Type} {on : α → β → Bool} {rows rows' : List α} {others others' : List β} {createdAt : α → Time}
  {answer : α × Option β → γ} {limit : ℕ}

theorem joined_shown {a : α} (ha : a ∈ rows) (hnew : ∀ b ∈ rows, b = a ∨ createdAt b < createdAt a)
    (hlimit : 0 < limit) : ∃ o, answer (a, o) ∈
      ((newestFirst (fun x => createdAt x.1) (Table.outerJoin on rows others)).take limit).map answer := by
  obtain ⟨o, ho⟩ : ∃ o, (a, o) ∈ Table.outerJoin on rows others := Table.exists_mem_outerJoin ha
  obtain ⟨⟨b, o'⟩, hshown, hba⟩ := newest_shown (p := fun x => x.1 = a) ho
    (fun x hx => hnew x.1 (Table.mem_of_mem_outerJoin hx)) hlimit
  obtain rfl : b = a := hba
  exact ⟨o', List.mem_map.mpr ⟨_, hshown, rfl⟩⟩

theorem of_joined_shown {x : γ} (h : x ∈
    ((newestFirst (fun x => createdAt x.1) (Table.outerJoin on rows others)).take limit).map answer) :
    ∃ a ∈ rows, ∃ o, answer (a, o) = x := by
  obtain ⟨⟨a, o⟩, hx, rfl⟩ := List.mem_map.mp h
  exact ⟨a, Table.mem_of_mem_outerJoin (mem_newestFirst.mp (List.mem_of_mem_take hx)), o, rfl⟩

theorem joined_ne (id : α → Uuid) (shownId : γ → Uuid) (hid : ∀ a o, shownId (answer (a, o)) = id a) {a : α}
    (ha : a ∈ rows) (hnew : ∀ b ∈ rows, b = a ∨ createdAt b < createdAt a) (hlimit : 0 < limit)
    (hfresh : ∀ b ∈ rows', id b ≠ id a) :
    ((newestFirst (fun x => createdAt x.1) (Table.outerJoin on rows others)).take limit).map answer ≠
      ((newestFirst (fun x => createdAt x.1) (Table.outerJoin on rows' others')).take limit).map answer := by
  intro heq
  obtain ⟨o, ho⟩ : ∃ o, answer (a, o) ∈
      ((newestFirst (fun x => createdAt x.1) (Table.outerJoin on rows others)).take limit).map answer :=
    joined_shown ha hnew hlimit
  rw [heq] at ho
  obtain ⟨b, hb, o', hsame⟩ := of_joined_shown ho
  apply hfresh b hb
  rw [← hid b o', hsame, hid]

end

/-! ## Rows of another user -/

section
variable (w : Uuid) (τ : Time)

def foreignFunction (id : Uuid) : Function where
  id := id
  ownerId := w
  name := "payroll".toList
  description := none
  runtime := "python3.12".toList
  status := .active
  activeVersionId := none
  canaryVersionId := none
  canaryPercent := 0
  tags := .obj []
  createdAt := τ
  updatedAt := τ

def foreignVersion (functionId id : Uuid) : FunctionVersion where
  id := id
  functionId := functionId
  versionNumber := 1
  entrypoint := "handler.run".toList
  artifactPath := "functions/payroll.zip".toList
  artifactHash := "5d41".toList
  artifactSize := 1
  environment := .obj []
  timeout := 30
  memoryMb := 256
  isActive := true
  changeNotes := none
  createdAt := τ

def foreignExecution (functionId versionId id : Uuid) : Execution where
  id := id
  functionId := some functionId
  functionVersionId := some versionId
  triggeredBy := some w
  apiKeyId := none
  executionType := .function
  scheduleId := none
  status := .failed
  payload := .obj []
  result := none
  errorMessage := some "no salary for employee 7".toList
  failureKind := some .handler
  workerId := none
  k8sJobName := none
  queuedAt := some τ
  startedAt := none
  completedAt := some τ
  durationMs := none
  attemptNumber := 1
  timeout := 30
  createdAt := τ

def withForeignRows (functionId versionId id : Uuid) (s : Database) : Database :=
  insertExecution (foreignExecution w τ functionId versionId id)
    (insertVersion (foreignVersion τ functionId versionId) (insertFunction (foreignFunction w τ functionId) s))

end

theorem exists_later (times : List Time) : ∃ τ, ∀ t ∈ times, t < τ := by
  induction times with
  | nil => exact ⟨0, nofun⟩
  | cons t times ih =>
    obtain ⟨τ, hτ⟩ := ih
    refine ⟨max τ (t + 1), List.forall_mem_cons.mpr ⟨?_, ?_⟩⟩
    · exact Int.lt_of_lt_of_le (Int.lt_add_one_of_le (Int.le_refl t)) (Int.le_max_right _ _)
    · exact fun t' h => Int.lt_of_lt_of_le (hτ t' h) (Int.le_max_left _ _)
variable {n : Numerics ρ} {r : Readings} {u w : Uuid} {τ : Time} {functionId versionId id : Uuid} {s : Database}

theorem foreignRows_confined (hs : WellFormed s) (hfunction : Fresh s functionId)
    (hversion : Fresh (insertFunction (foreignFunction w τ functionId) s) versionId)
    (hid : Fresh (insertVersion (foreignVersion τ functionId versionId)
      (insertFunction (foreignFunction w τ functionId) s)) id) :
    Confined w (withForeignRows w τ functionId versionId id) s := by
  have hmem : foreignFunction w τ functionId ∈ (insertFunction (foreignFunction w τ functionId) s).functions :=
    List.mem_append_right _ (List.mem_singleton_self _)
  have hf : Confined w (insertFunction (foreignFunction w τ functionId)) s :=
    insertFunction_confined hs rfl rfl rfl hfunction
  have hv : Confined w (insertVersion (foreignVersion τ functionId versionId))
      (insertFunction (foreignFunction w τ functionId) s) :=
    insertVersion_confined hf.wellFormed (ownsFunction_of_mem hmem) hversion
  refine (hf.trans hv).trans (insertExecution_confined hv.wellFormed (ownsExecution_iff.mpr (Or.inr rfl)) ?_ hid)
  constructor
  · intro f hfmem hfid
    rw [function_unique hf.wellFormed hfmem hmem (Option.some.inj hfid).symm]
    exact Or.inr rfl
  · intro v hvmem hvid
    have hmine : foreignVersion τ functionId versionId ∈ (insertVersion (foreignVersion τ functionId versionId)
      (insertFunction (foreignFunction w τ functionId) s)).versions :=
        List.mem_append_right _ (List.mem_singleton_self _)
    rw [List.inj_on_of_nodup_map hv.wellFormed.versionIds hvmem hmine (Option.some.inj hvid).symm]
    rfl
  · intro r _ hnone
    cases hnone
  · intro k _ hnone
    cases hnone

theorem activeFunctions_foreign : (getOverview r (withForeignRows w τ functionId versionId id s)).activeFunctions =
    (getOverview r s).activeFunctions + 1 := by
  change (s.functions ++ [foreignFunction w τ functionId]).countP _ = _
  rw [List.countP_append]
  rfl

theorem deployments_foreign (hnew : ∀ v ∈ s.versions, v.createdAt < τ)
    (hversion : Fresh (insertFunction (foreignFunction w τ functionId) s) versionId) :
    getRecentDeployments (withForeignRows w τ functionId versionId id s) 10 ≠ getRecentDeployments s 10 := by
  apply joined_ne FunctionVersion.id RecentDeployment.id (fun _ _ => rfl)
    (a := foreignVersion τ functionId versionId) (List.mem_append_right _ (List.mem_singleton_self _))
  · exact latest_append hnew
  · exact Nat.succ_pos 9
  · exact fun v hv => (hversion.versions v hv).1

theorem executions_foreign (hnew : ∀ e ∈ s.executions, e.createdAt < τ) (hid : ∀ e ∈ s.executions, e.id ≠ id) :
    getRecentExecutions (withForeignRows w τ functionId versionId id s) 10 ≠ getRecentExecutions s 10 := by
  apply joined_ne Execution.id RecentExecution.id (fun _ _ => rfl)
    (a := foreignExecution w τ functionId versionId id) (List.mem_append_right _ (List.mem_singleton_self _))
  · exact latest_append hnew
  · exact Nat.succ_pos 9
  · exact hid

theorem failures_foreign (hnew : ∀ e ∈ s.executions, e.createdAt < τ) (hid : ∀ e ∈ s.executions, e.id ≠ id) :
    getRecentFailures (withForeignRows w τ functionId versionId id s) 10 ≠ getRecentFailures s 10 := by
  apply joined_ne Execution.id RecentFailure.id (fun _ _ => rfl)
    (a := foreignExecution w τ functionId versionId id)
  · exact List.mem_filter.mpr ⟨List.mem_append_right _ (List.mem_singleton_self _), rfl⟩
  · exact fun e he => latest_append hnew e (List.mem_of_mem_filter he)
  · exact Nat.succ_pos 9
  · exact fun e he => hid e (List.mem_of_mem_filter he)

theorem total_foreign (hrecent : r.metricsAt < τ) :
    (getExecutionMetrics n r (withForeignRows w τ functionId versionId id s)).total24h =
      (getExecutionMetrics n r s).total24h + 1 := by
  have hsince : ∀ a b : ℤ, a < b → a - day ≤ b := by
    intro a b hab
    have hday : (0 : ℤ) ≤ day := by decide
    exact Int.le_trans (Int.sub_le_self a hday) (Int.le_of_lt hab)
  have hrow : decide (r.metricsAt - day ≤ (foreignExecution w τ functionId versionId id).createdAt) = true :=
    decide_eq_true (hsince _ _ hrecent)
  change ((s.executions ++ [foreignExecution w τ functionId versionId id]).filter _).length = _
  rw [List.filter_append, List.length_append, List.filter_cons, if_pos hrow]
  rfl

/-- Whatever a user sees, rows of another user alone change every part of it. -/
theorem dashboard_leaks (n : Numerics ρ) (r : Readings) {u w : Uuid} (hw : w ≠ u) {s : Database} (hs : WellFormed s) :
    ∃ t, WellFormed t ∧ view u t = view u s ∧ (∀ v, v ≠ w → view v t = view v s) ∧
      (getDashboard n r u t).overview ≠ (getDashboard n r u s).overview ∧
      (getDashboard n r u t).deployments ≠ (getDashboard n r u s).deployments ∧
      (getDashboard n r u t).recentExecutions ≠ (getDashboard n r u s).recentExecutions ∧
      (getDashboard n r u t).recentFailures ≠ (getDashboard n r u s).recentFailures ∧
      (getDashboard n r u t).metrics ≠ (getDashboard n r u s).metrics := by
  obtain ⟨τ, hτ⟩ := exists_later (r.metricsAt :: (s.executions.map Execution.createdAt ++
    s.versions.map FunctionVersion.createdAt))
  obtain ⟨functionId, hfunction⟩ := exists_fresh s
  obtain ⟨versionId, hversion⟩ := exists_fresh (insertFunction (foreignFunction w τ functionId) s)
  obtain ⟨id, hid⟩ := exists_fresh (insertVersion (foreignVersion τ functionId versionId)
    (insertFunction (foreignFunction w τ functionId) s))
  have hnewId : ∀ e ∈ s.executions, e.id ≠ id := fun e he => (hid.executions e he).1
  have hconfined := foreignRows_confined hs hfunction hversion hid
  obtain ⟨hmetrics, hlater⟩ := List.forall_mem_cons.mp hτ
  obtain ⟨hexecutions, hversions⟩ := List.forall_mem_append.mp hlater
  rw [List.forall_mem_map] at hexecutions hversions
  refine ⟨_, hconfined.wellFormed, hconfined.others u hw.symm, hconfined.others, ?_, ?_, ?_, ?_, ?_⟩
  · exact fun h => absurd (congrArg Overview.activeFunctions h) (activeFunctions_foreign.trans_ne (Nat.succ_ne_self _))
  · exact deployments_foreign hversions hversion
  · exact executions_foreign hexecutions hnewId
  · exact failures_foreign hexecutions hnewId
  · intro h
    exact absurd (congrArg Metrics.total24h h) ((total_foreign (n := n) hmetrics).trans_ne (Nat.succ_ne_self _))

/-! The database is empty, or user 8 alone has rows in it. -/

def sampleNumerics : Numerics ℕ := ⟨0, fun part total => 100 * part / total, fun _ => 0, fun _ _ => 0⟩

def sampleReadings : Readings := ⟨0, 0, 0, 0, some 0, some [], some [], true, true⟩

theorem dashboard_leaks_empty : ∃ t, WellFormed t ∧ view 7 t = view 7 empty ∧ (∀ v, v ≠ 8 → view v t = view v empty) ∧
    (getDashboard sampleNumerics sampleReadings 7 t).overview ≠
      (getDashboard sampleNumerics sampleReadings 7 empty).overview ∧
    (getDashboard sampleNumerics sampleReadings 7 t).deployments ≠
      (getDashboard sampleNumerics sampleReadings 7 empty).deployments ∧
    (getDashboard sampleNumerics sampleReadings 7 t).recentExecutions ≠
      (getDashboard sampleNumerics sampleReadings 7 empty).recentExecutions ∧
    (getDashboard sampleNumerics sampleReadings 7 t).recentFailures ≠
      (getDashboard sampleNumerics sampleReadings 7 empty).recentFailures ∧
    (getDashboard sampleNumerics sampleReadings 7 t).metrics ≠
      (getDashboard sampleNumerics sampleReadings 7 empty).metrics :=
  dashboard_leaks sampleNumerics sampleReadings (by decide) wellFormed_empty

/-- User 7 has no rows and reads the error message of user 8. -/
theorem dashboard_shows_failure : WellFormed (withForeignRows 8 0 1 2 3 empty) ∧
    view 7 (withForeignRows 8 0 1 2 3 empty) = view 7 empty ∧
    (getDashboard sampleNumerics sampleReadings 7 (withForeignRows 8 0 1 2 3 empty)).recentFailures.map
      RecentFailure.errorMessage = [some "no salary for employee 7".toList] ∧
    getDashboard sampleNumerics sampleReadings 7 (withForeignRows 8 0 1 2 3 empty) ≠
      getDashboard sampleNumerics sampleReadings 7 empty := by
  have hconfined : Confined 8 (withForeignRows 8 0 1 2 3) empty :=
    foreignRows_confined wellFormed_empty (by decide) (by decide) (by decide)
  have hshown : (getDashboard sampleNumerics sampleReadings 7 (withForeignRows 8 0 1 2 3 empty)).recentFailures.map
      RecentFailure.errorMessage = [some "no salary for employee 7".toList] := by decide +kernel
  refine ⟨hconfined.wellFormed, hconfined.others 7 (by decide), hshown, ?_⟩
  intro h
  rw [h] at hshown
  exact absurd hshown (by decide +kernel)

end PyFaaS.Dashboard
