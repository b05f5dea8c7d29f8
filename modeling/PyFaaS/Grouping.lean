import Mathlib.Algebra.BigOperators.Group.List.Basic
import Mathlib.Data.Int.Interval
import Mathlib.Data.List.Dedup
import Mathlib.Data.List.Sort

/-!
# Rows grouped by a key

`groups` is a `GROUP BY` with an `ORDER BY` of the same key. The groups hold every row once,
so that what is counted group by group adds up to the count over all rows.
-/

namespace PyFaaS.Grouping
variable {α κ : Type*} {rows : List α}

theorem filters_perm [DecidableEq κ] {key : α → κ} {ks : List κ} (hks : ks.Nodup) (h : ∀ x ∈ rows, key x ∈ ks) :
    (ks.flatMap fun k => rows.filter fun x => decide (key x = k)).Perm rows := by
  induction ks generalizing rows with
  | nil =>
    have hnil : rows = [] := List.eq_nil_iff_forall_not_mem.mpr fun x hx => List.not_mem_nil (h x hx)
    rw [hnil]
    exact .nil
  | cons k ks ih =>
    obtain ⟨hk, hks⟩ := List.nodup_cons.mp hks
    have hrest : ∀ x ∈ rows.filter (fun x => !decide (key x = k)), key x ∈ ks := by
      intro x hx
      obtain ⟨hmem, hne⟩ := List.mem_filter.mp hx
      rcases List.mem_cons.mp (h x hmem) with heq | hin
      · simp [heq] at hne
      · exact hin
    have hsame : (ks.flatMap fun l => rows.filter fun x => decide (key x = l)) =
        ks.flatMap fun l => (rows.filter fun x => !decide (key x = k)).filter fun x => decide (key x = l) := by
      apply List.flatMap_congr
      intro l hl
      rw [List.filter_filter]
      apply List.filter_congr
      intro x _
      by_cases hx : key x = l
      · have hne : ¬ l = k := fun heq => hk (heq ▸ hl)
        simp [hx, hne]
      · simp [hx]
    rw [List.flatMap_cons, hsame]
    exact ((ih hks hrest).append_left _).trans (List.filter_append_perm _ rows)

variable [LinearOrder κ]

def groups (key : α → κ) (rows : List α) : List (κ × List α) :=
  ((rows.map key).dedup.mergeSort fun a b => decide (a ≤ b)).map fun k => (k, rows.filter fun x => decide (key x = k))

variable {key : α → κ}

theorem groups_keys : (groups key rows).map Prod.fst = (rows.map key).dedup.mergeSort fun a b => decide (a ≤ b) := by
  rw [groups, List.map_map]
  exact List.map_id _

theorem groups_nodup : ((groups key rows).map Prod.fst).Nodup := by
  rw [groups_keys]
  exact (List.mergeSort_perm _ _).nodup_iff.mpr (List.nodup_dedup _)

theorem mem_groups_keys {k : κ} : k ∈ (groups key rows).map Prod.fst ↔ ∃ x ∈ rows, key x = k := by
  rw [groups_keys, List.mem_mergeSort, List.mem_dedup, List.mem_map]

theorem groups_ascending : ((groups key rows).map Prod.fst).Pairwise (· < ·) := by
  have hle : ((groups key rows).map Prod.fst).Pairwise (· ≤ ·) := by
    rw [groups_keys]
    exact List.pairwise_mergeSort' _ _
  exact (hle.and groups_nodup).imp fun h => lt_of_le_of_ne h.1 h.2

theorem mem_groups {g : κ × List α} (h : g ∈ groups key rows) :
    g.2 = rows.filter (fun x => decide (key x = g.1)) ∧ ∃ x ∈ rows, key x = g.1 := by
  refine ⟨?_, mem_groups_keys.mp (List.mem_map_of_mem h)⟩
  obtain ⟨k, -, rfl⟩ := List.mem_map.mp h
  rfl

theorem groups_perm : ((groups key rows).flatMap Prod.snd).Perm rows := by
  have hflat : (groups key rows).flatMap Prod.snd =
      ((groups key rows).map Prod.fst).flatMap fun k => rows.filter fun x => decide (key x = k) := by
    rw [groups_keys, groups, List.flatMap_map]
  rw [hflat]
  exact filters_perm groups_nodup fun x hx => mem_groups_keys.mpr ⟨x, hx, rfl⟩

theorem sum_countP (p : α → Bool) : ((groups key rows).map fun g => g.2.countP p).sum = rows.countP p := by
  have hperm : ((groups key rows).flatMap Prod.snd).Perm rows := groups_perm
  rw [← hperm.countP_eq, List.countP_flatMap]
  rfl

theorem sum_length : ((groups key rows).map fun g => g.2.length).sum = rows.length := by
  have hperm : ((groups key rows).flatMap Prod.snd).Perm rows := groups_perm
  rw [← hperm.length_eq, List.length_flatMap]

theorem length_groups_le {time : α → ℤ} {a w : ℤ} {n : ℕ} (hw : 0 < w)
    (h : ∀ x ∈ rows, a ≤ time x ∧ time x ≤ a + n * w) :
    (groups (fun x => time x - time x % w) rows).length ≤ n + 1 := by
  have hcut : ∀ t : ℤ, t - t % w = w * (t / w) := fun t => by
    have hdivision := Int.mul_ediv_add_emod t w
    omega
  have hbounds : ∀ k ∈ (groups (fun x => time x - time x % w) rows).map Prod.fst,
      k / w ∈ Finset.Icc (a / w) (a / w + n) := by
    intro k hk
    obtain ⟨x, hx, rfl⟩ := mem_groups_keys.mp hk
    obtain ⟨hlow, hhigh⟩ := h x hx
    rw [hcut, Int.mul_ediv_cancel_left _ hw.ne', Finset.mem_Icc]
    refine ⟨Int.ediv_le_ediv hw hlow, ?_⟩
    rw [← Int.add_mul_ediv_right a n hw.ne']
    exact Int.ediv_le_ediv hw hhigh
  have hnodup : (((groups (fun x => time x - time x % w) rows).map Prod.fst).map fun k => k / w).Nodup := by
    apply groups_nodup.map_on
    intro k hk l hl heq
    obtain ⟨x, -, rfl⟩ := mem_groups_keys.mp hk
    obtain ⟨y, -, rfl⟩ := mem_groups_keys.mp hl
    rw [hcut, hcut, Int.mul_ediv_cancel_left _ hw.ne', Int.mul_ediv_cancel_left _ hw.ne'] at heq
    rw [hcut, hcut, heq]
  have hsubset : (((groups (fun x => time x - time x % w) rows).map Prod.fst).map fun k => k / w).toFinset ⊆
      Finset.Icc (a / w) (a / w + n) := by
    intro k hk
    obtain ⟨l, hl, rfl⟩ := List.mem_map.mp (List.mem_toFinset.mp hk)
    exact hbounds l hl
  have hcard := Finset.card_le_card hsubset
  rw [List.toFinset_card_of_nodup hnodup, List.length_map, List.length_map, Int.card_Icc] at hcard
  omega

end PyFaaS.Grouping
