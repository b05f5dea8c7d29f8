import PyFaaS.Dashboard
import PyFaaS.Grouping

/-!
# Trends

The bars of the dashboard's charts against the figures beside them: the hourly trend of
`get_execution_metrics` and the daily one of `get_deployment_metrics`.
-/

namespace PyFaaS.Dashboard
open Api Database Grouping

structure DayCount where
  day : Time
  count : ℕ
  deriving DecidableEq

structure DeploymentMetrics where
  total7d : ℕ
  dailyTrend : List DayCount
  deriving DecidableEq

/-- `date_trunc('day', ...)` in a database session whose time zone is UTC. -/
def dayOf (t : Time) : Time := t - t % day

def dailyTrend (rows : List FunctionVersion) : List DayCount :=
  (groups (fun v => dayOf v.createdAt) rows).map fun g => ⟨g.1, g.2.length⟩

def getDeploymentMetrics (now : Time) (db : Database) : DeploymentMetrics :=
  let since := now - 7 * day
  let rows := db.versions.filter fun v => decide (since ≤ v.createdAt)
  ⟨rows.length, dailyTrend rows⟩

variable {ρ : Type} {n : Numerics ρ} {r : Readings} {now : Time} {db : Database}

theorem hourlyTrend_eq (rows : List Execution) : hourlyTrend rows =
    (groups (fun e => hourOf e.createdAt) rows).map fun g =>
      ⟨g.1, g.2.length, completedCount g.2, failedCount g.2⟩ := by
  rw [groups, List.map_map]
  rfl

theorem length_hourlyTrend_le {rows : List Execution} (since : Time)
    (h : ∀ e ∈ rows, since ≤ e.createdAt ∧ e.createdAt ≤ since + day) : (hourlyTrend rows).length ≤ 25 := by
  rw [hourlyTrend_eq, List.length_map]
  apply length_groups_le (a := since) (n := 24) (w := 3600 * second) (by decide)
  intro e he
  obtain ⟨hlow, hhigh⟩ := h e he
  exact ⟨hlow, hhigh.trans_eq (by rw [day]; rfl)⟩

theorem length_dailyTrend_le {rows : List FunctionVersion} (since : Time)
    (h : ∀ v ∈ rows, since ≤ v.createdAt ∧ v.createdAt ≤ since + 7 * day) : (dailyTrend rows).length ≤ 8 := by
  rw [dailyTrend, List.length_map]
  apply length_groups_le (a := since) (n := 7) (w := day) (by decide)
  intro v hv
  exact h v hv

theorem finished_le (rows : List Execution) : completedCount rows + failedCount rows ≤ rows.length := by
  induction rows with
  | nil => exact le_rfl
  | cons e rows ih =>
    have hone : (if decide (e.status = .completed) = true then 1 else 0) +
        (if failed e.status = true then 1 else 0) ≤ 1 := by
      cases e.status <;> decide
    simp only [completedCount, failedCount, List.countP_cons, List.length_cons] at ih ⊢
    omega

structure AddsUp (n : Numerics ρ) (r : Readings) (db : Database) : Prop where
  total : ((getExecutionMetrics n r db).hourlyTrend.map Bucket.total).sum = (getExecutionMetrics n r db).total24h
  completed :
    ((getExecutionMetrics n r db).hourlyTrend.map Bucket.completed).sum = (getExecutionMetrics n r db).completed24h
  failed : ((getExecutionMetrics n r db).hourlyTrend.map Bucket.failed).sum = (getExecutionMetrics n r db).failed24h
  ascending : ((getExecutionMetrics n r db).hourlyTrend.map Bucket.hour).Pairwise (· < ·)
  bars : ∀ b ∈ (getExecutionMetrics n r db).hourlyTrend, 0 < b.total ∧ b.completed + b.failed ≤ b.total
  few : (∀ e ∈ db.executions, e.createdAt ≤ r.metricsAt) → (getExecutionMetrics n r db).hourlyTrend.length ≤ 25
  overview : r.overviewAt = r.metricsAt →
    (getOverview r db).successfulExecutions24h = (getExecutionMetrics n r db).completed24h ∧
      (getOverview r db).failedExecutions24h = (getExecutionMetrics n r db).failed24h

structure DeploymentsAddUp (now : Time) (db : Database) : Prop where
  total : ((getDeploymentMetrics now db).dailyTrend.map DayCount.count).sum = (getDeploymentMetrics now db).total7d
  ascending : ((getDeploymentMetrics now db).dailyTrend.map DayCount.day).Pairwise (· < ·)
  bars : ∀ b ∈ (getDeploymentMetrics now db).dailyTrend, 0 < b.count
  few : (∀ v ∈ db.versions, v.createdAt ≤ now) → (getDeploymentMetrics now db).dailyTrend.length ≤ 8

theorem hourlyTrend_bars {rows : List Execution} {b : Bucket} (h : b ∈ hourlyTrend rows) :
    0 < b.total ∧ b.completed + b.failed ≤ b.total := by
  rw [hourlyTrend_eq] at h
  obtain ⟨g, hg, rfl⟩ := List.mem_map.mp h
  obtain ⟨hrows, e, he, hkey⟩ := mem_groups hg
  have hmem : e ∈ g.2 := by
    rw [hrows]
    exact List.mem_filter.mpr ⟨he, decide_eq_true hkey⟩
  exact ⟨List.length_pos_of_mem hmem, finished_le g.2⟩

theorem dailyTrend_bars {rows : List FunctionVersion} {b : DayCount} (h : b ∈ dailyTrend rows) : 0 < b.count := by
  obtain ⟨g, hg, rfl⟩ := List.mem_map.mp h
  obtain ⟨hrows, v, hv, hkey⟩ := mem_groups hg
  have hmem : v ∈ g.2 := by
    rw [hrows]
    exact List.mem_filter.mpr ⟨hv, decide_eq_true hkey⟩
  exact List.length_pos_of_mem hmem

theorem count_since (p : Execution → Bool) (since : Time) :
    (db.executions.filter fun e => decide (since ≤ e.createdAt) || unfinished e.status).countP
        (fun e => p e && decide (since ≤ e.createdAt)) =
      (db.executions.filter fun e => decide (since ≤ e.createdAt)).countP p := by
  rw [List.countP_filter, List.countP_filter]
  apply List.countP_congr
  intro e _
  cases p e <;> cases decide (since ≤ e.createdAt) <;> cases unfinished e.status <;> decide

theorem charts_add_up (n : Numerics ρ) (r : Readings) (db : Database) :
    AddsUp n r db ∧ DeploymentsAddUp r.metricsAt db := by
  constructor
  · have htrend : (getExecutionMetrics n r db).hourlyTrend =
        hourlyTrend (db.executions.filter fun e => decide (r.metricsAt - day ≤ e.createdAt)) := rfl
    refine ⟨?_, ?_, ?_, ?_, fun b hb => hourlyTrend_bars (htrend ▸ hb), fun hnow => ?_, fun hsame => ?_⟩
    · rw [htrend, hourlyTrend_eq, List.map_map]
      exact sum_length
    · rw [htrend, hourlyTrend_eq, List.map_map]
      exact sum_countP _
    · rw [htrend, hourlyTrend_eq, List.map_map]
      exact sum_countP _
    · rw [htrend, hourlyTrend_eq, List.map_map]
      exact groups_ascending
    · rw [htrend]
      apply length_hourlyTrend_le (r.metricsAt - day)
      intro e he
      obtain ⟨hmem, hsince⟩ := List.mem_filter.mp he
      exact ⟨of_decide_eq_true hsince, (hnow e hmem).trans (sub_add_cancel ..).ge⟩
    · constructor
      · rw [getOverview, hsame]
        exact count_since _ _
      · rw [getOverview, hsame]
        exact count_since _ _
  · have htrend : (getDeploymentMetrics r.metricsAt db).dailyTrend =
        dailyTrend (db.versions.filter fun v => decide (r.metricsAt - 7 * day ≤ v.createdAt)) := rfl
    refine ⟨?_, ?_, fun b hb => dailyTrend_bars (htrend ▸ hb), fun hnow => ?_⟩
    · rw [htrend, dailyTrend, List.map_map]
      exact sum_length
    · rw [htrend, dailyTrend, List.map_map]
      exact groups_ascending
    · rw [htrend]
      apply length_dailyTrend_le (r.metricsAt - 7 * day)
      intro v hv
      obtain ⟨hmem, hsince⟩ := List.mem_filter.mp hv
      exact ⟨of_decide_eq_true hsince, (hnow v hmem).trans (sub_add_cancel ..).ge⟩

end PyFaaS.Dashboard
