import Mathlib.Data.List.Nodup
import Mathlib.Data.List.Perm.Basic
import Mathlib.Data.List.Range
import Mathlib.Order.Lattice
import Mathlib.Order.Defs.LinearOrder

/-!
# Pages of a sorted listing

A query with a sort key may list rows of the same key in any order, and another time
in another. Its slices are fixed as collections exactly where no group of rows with
one key reaches over a page boundary.
-/

namespace PyFaaS.SortedPages
variable {ρ κ : Type*} [LinearOrder κ] {key : ρ → κ} {rows l l' : List ρ} {k n size : ℕ} {x : ρ}

structure Listing (key : ρ → κ) (rows l : List ρ) : Prop where
  perm : l.Perm rows
  sorted : l.Pairwise fun a b => key a ≤ key b

structure Sorting (key : ρ → κ) where
  sort : List ρ → List ρ
  listing : ∀ rows, Listing key rows (sort rows)

def page (size i : ℕ) (l : List ρ) : List ρ := (l.drop (i * size)).take size

/-- Rows of one key stand on both sides of the boundary in front of position `k`. -/
def Straddles (key : ρ → κ) (rows : List ρ) (k : ℕ) : Prop :=
  ∃ t, (rows.countP fun r => decide (key r < t)) < k ∧ k < rows.countP fun r => decide (key r ≤ t)

theorem exists_listing (key : ρ → κ) (rows : List ρ) : ∃ l, Listing key rows l := by
  refine ⟨rows.mergeSort fun a b => decide (key a ≤ key b), List.mergeSort_perm rows _, ?_⟩
  have hsorted : (rows.mergeSort fun a b => decide (key a ≤ key b)).Pairwise
      fun a b => decide (key a ≤ key b) = true := by
    apply List.pairwise_mergeSort
    · intro a b c hab hbc
      exact decide_eq_true (le_trans (of_decide_eq_true hab) (of_decide_eq_true hbc))
    · intro a b
      rw [Bool.or_eq_true, decide_eq_true_iff, decide_eq_true_iff]
      exact le_total _ _
  exact hsorted.imp of_decide_eq_true

open Classical in
theorem Listing.exists_sorting (h : Listing key rows l) : ∃ s : Sorting key, s.sort rows = l := by
  choose sort hsort using exists_listing key
  refine ⟨⟨fun rows' => if rows' = rows then l else sort rows', fun rows' => ?_⟩, if_pos rfl⟩
  split_ifs with hrows
  · rwa [hrows]
  · exact hsort rows'

/-! ## Rows below a threshold -/

section
variable {p : ρ → Bool} (hp : ∀ a b, key a ≤ key b → p b = true → p a = true)
include hp

theorem filter_append_filter (hl : l.Pairwise fun a b => key a ≤ key b) :
    l.filter p ++ l.filter (fun r => !p r) = l := by
  induction l with
  | nil => rfl
  | cons a l ih =>
    obtain ⟨hhead, htail⟩ := List.pairwise_cons.mp hl
    cases ha : p a with
    | true =>
      rw [List.filter_cons_of_pos ha, List.filter_cons_of_neg (by simp [ha]), List.cons_append, ih htail]
    | false =>
      -- the first row is not below, and no later one is
      have hnone : ∀ b ∈ l, p b = false := by
        intro b hb
        by_contra hbelow
        rw [hp a b (hhead b hb) (by simpa using hbelow)] at ha
        cases ha
      have hempty : l.filter p = [] := List.filter_eq_nil_iff.mpr fun b hb => by simp [hnone b hb]
      rw [List.filter_cons_of_neg (by simp [ha]), hempty, List.nil_append]
      exact List.filter_eq_self.mpr (List.forall_mem_cons.mpr ⟨by simp [ha], fun b hb => by simp [hnone b hb]⟩)

theorem take_countP (hl : l.Pairwise fun a b => key a ≤ key b) : l.take (l.countP p) = l.filter p := by
  have happend := filter_append_filter hp hl
  rw [List.countP_eq_length_filter]
  nth_rewrite 2 [← happend]
  exact List.take_left

theorem drop_countP (hl : l.Pairwise fun a b => key a ≤ key b) :
    l.drop (l.countP p) = l.filter fun r => !p r := by
  have happend := filter_append_filter hp hl
  rw [List.countP_eq_length_filter]
  nth_rewrite 2 [← happend]
  exact List.drop_left

theorem below_iff (hl : l.Pairwise fun a b => key a ≤ key b) (hn : n < l.length) :
    p l[n] = true ↔ n < l.countP p := by
  constructor
  · intro hbelow
    by_contra hlater
    have hmem : l[n] ∈ l.drop (l.countP p) := List.mem_drop_iff_getElem.mpr ⟨n - l.countP p, by omega, by
      congr 1
      omega⟩
    rw [drop_countP hp hl, List.mem_filter] at hmem
    simp [hbelow] at hmem
  · intro hfirst
    have hmem : l[n] ∈ l.take (l.countP p) := List.mem_take_iff_getElem.mpr ⟨n, by omega, rfl⟩
    rw [take_countP hp hl, List.mem_filter] at hmem
    exact hmem.2

end

theorem lt_below (t : κ) (a b : ρ) (h : key a ≤ key b) (hb : decide (key b < t) = true) :
    decide (key a < t) = true := decide_eq_true (lt_of_le_of_lt h (of_decide_eq_true hb))

theorem le_below (t : κ) (a b : ρ) (h : key a ≤ key b) (hb : decide (key b ≤ t) = true) :
    decide (key a ≤ t) = true := decide_eq_true (le_trans h (of_decide_eq_true hb))

/-! ## Slices -/

theorem Listing.take_perm (hl : Listing key rows l) (hl' : Listing key rows l') (h : ¬ Straddles key rows k) :
    (l.take k).Perm (l'.take k) := by
  have hperm : l.Perm l' := hl.perm.trans hl'.perm.symm
  by_cases hk : k < l.length
  · have hcount : ∀ p : ρ → Bool, rows.countP p = l.countP p := fun p => (hl.perm.countP_eq p).symm
    have hle : ¬ (l.countP fun r => decide (key r < key l[k])) < k := by
      intro hlt
      refine h ⟨key l[k], ?_, ?_⟩
      · rwa [hcount]
      · rw [hcount]
        exact (below_iff (le_below (key l[k])) hl.sorted hk).mp (decide_eq_true le_rfl)
    have hge : ¬ k < l.countP fun r => decide (key r < key l[k]) := by
      intro hlt
      exact lt_irrefl _ (of_decide_eq_true ((below_iff (lt_below (key l[k])) hl.sorted hk).mpr hlt))
    have hk' : (l.countP fun r => decide (key r < key l[k])) = k := by omega
    have hk'' : (l'.countP fun r => decide (key r < key l[k])) = k := (hperm.countP_eq _).symm.trans hk'
    have hfirst := take_countP (lt_below (key l[k])) hl.sorted
    have hfirst' := take_countP (lt_below (key l[k])) hl'.sorted
    rw [hk'] at hfirst
    rw [hk''] at hfirst'
    rw [hfirst, hfirst']
    exact hperm.filter _
  · rw [List.take_of_length_le (Nat.le_of_not_lt hk), List.take_of_length_le (hperm.length_eq ▸ Nat.le_of_not_lt hk)]
    exact hperm

theorem page_eq (size i : ℕ) (l : List ρ) : page size i l = (l.take ((i + 1) * size)).drop (i * size) := by
  rw [page, List.drop_take, Nat.succ_mul, Nat.add_sub_cancel_left]

theorem Listing.page_perm (hl : Listing key rows l) (hl' : Listing key rows l')
    (h : ∀ k, ¬ Straddles key rows (k * size)) (i : ℕ) : (page size i l).Perm (page size i l') := by
  have hle : i * size ≤ (i + 1) * size := Nat.mul_le_mul_right size (Nat.le_succ i)
  have hsplit : ∀ m : List ρ, m.take (i * size) ++ page size i m = m.take ((i + 1) * size) := by
    intro m
    have htake : (m.take ((i + 1) * size)).take (i * size) = m.take (i * size) := by
      rw [List.take_take, Nat.min_eq_left hle]
    rw [page_eq, ← htake, List.take_append_drop]
  have hwhole := hl.take_perm hl' (h (i + 1))
  rw [← hsplit l, ← hsplit l'] at hwhole
  have hfront : (l'.take (i * size) ++ page size i l).Perm (l.take (i * size) ++ page size i l) :=
    (hl'.take_perm hl (h i)).append_right _
  exact (List.perm_append_left_iff _).mp (hfront.trans hwhole)

theorem flatMap_page (size n : ℕ) (l : List ρ) :
    ((List.range n).flatMap fun i => page size i l) = l.take (n * size) := by
  induction n with
  | zero => simp
  | succ n ih =>
    rw [List.range_succ, List.flatMap_append, ih, List.flatMap_singleton, Nat.succ_mul, List.take_add]
    rfl

theorem pages_perm {answers : ℕ → List ρ} (hanswers : ∀ i, Listing key rows (answers i))
    (h : ∀ k, ¬ Straddles key rows (k * size)) (hn : rows.length ≤ n * size) :
    ((List.range n).flatMap fun i => page size i (answers i)).Perm rows := by
  have hsame : ((List.range n).flatMap fun i => page size i (answers i)).Perm
      ((List.range n).flatMap fun i => page size i (answers 0)) :=
    List.Perm.flatMap_left _ fun i _ => (hanswers i).page_perm (hanswers 0) h i
  rw [flatMap_page, List.take_of_length_le ((hanswers 0).perm.length_eq ▸ hn)] at hsame
  exact hsame.trans (hanswers 0).perm

theorem not_straddles_of_nodup (h : (rows.map key).Nodup) (k : ℕ) : ¬ Straddles key rows k := by
  intro ⟨t, hbefore, hbehind⟩
  have hone : (rows.countP fun r => decide (key r = t)) ≤ 1 := by
    have hcount := List.nodup_iff_count_le_one.mp h t
    rw [List.count, List.countP_map] at hcount
    exact hcount
  have hsplit : (rows.countP fun r => decide (key r ≤ t)) ≤
      (rows.countP fun r => decide (key r < t)) + rows.countP fun r => decide (key r = t) := by
    clear h hbefore hbehind hone
    induction rows with
    | nil => simp
    | cons r rows ih =>
      rw [List.countP_cons, List.countP_cons, List.countP_cons]
      cases lt_trichotomy (key r) t with
      | inl hlt => simp [hlt, hlt.le]; omega
      | inr h =>
        cases h with
        | inl heq => simp [heq]; omega
        | inr hgt => simp [hgt.not_ge, hgt.not_gt]; omega
  omega

/-! ## Groups that reach over a boundary -/

theorem Listing.swap {a b : List ρ} {x y : ρ} (h : Listing key rows (a ++ x :: y :: b)) (hkey : key x = key y) :
    Listing key rows (a ++ y :: x :: b) := by
  refine ⟨((List.Perm.swap x y b).append_left a).trans h.perm, ?_⟩
  have hsorted := h.sorted
  simp only [List.pairwise_append, List.pairwise_cons, List.mem_cons] at hsorted ⊢
  obtain ⟨ha, ⟨hx, hy, hb⟩, hfront⟩ := hsorted
  refine ⟨ha, ⟨?_, fun c hc => hx c (Or.inr hc), hb⟩, fun c hc d hd => hfront c hc d ?_⟩
  · intro c hc
    cases hc with
    | inl hc => rw [hc, hkey]
    | inr hc => exact hy c hc
  · exact or_left_comm.mp hd

/-- A group over a boundary lets two listings show one row on both sides of it. -/
theorem Straddles.exists_swap (h : Straddles key rows k) : ∃ a x y b, a.length + 1 = k ∧
    Listing key rows (a ++ x :: y :: b) ∧ Listing key rows (a ++ y :: x :: b) := by
  obtain ⟨l, hl⟩ := exists_listing key rows
  obtain ⟨t, hbefore, hbehind⟩ := h
  rw [← hl.perm.countP_eq] at hbefore hbehind
  have hk : k < l.length := lt_of_lt_of_le hbehind List.countP_le_length
  obtain ⟨i, rfl⟩ : ∃ i, k = i + 1 := ⟨k - 1, by omega⟩
  have hi : i < l.length := by omega
  have hx : ¬ key l[i] < t := fun hlt => by
    have hpos := (below_iff (lt_below t) hl.sorted hi).mp (decide_eq_true hlt)
    omega
  have hy : key l[i + 1] ≤ t := of_decide_eq_true ((below_iff (le_below t) hl.sorted hk).mpr hbehind)
  have hsplit : l = l.take i ++ l[i] :: l[i + 1] :: l.drop (i + 2) := by
    rw [← List.drop_eq_getElem_cons hk, ← List.drop_eq_getElem_cons hi, List.take_append_drop]
  rw [hsplit] at hl
  have hxy : key l[i] ≤ key l[i + 1] :=
    (List.pairwise_cons.mp (List.pairwise_append.mp hl.sorted).2.1).1 _ List.mem_cons_self
  have hkey : key l[i] = key l[i + 1] := le_antisymm hxy (le_trans hy (le_of_not_gt hx))
  have hlength : (l.take i).length + 1 = i + 1 := by rw [List.length_take, Nat.min_eq_left (by omega)]
  exact ⟨l.take i, l[i], l[i + 1], l.drop (i + 2), hlength, hl, hl.swap hkey⟩

theorem exists_repeated (hsize : 0 < size) (h : Straddles key rows (k * size)) (hn : rows.length ≤ n * size) :
    ∃ answers : ℕ → List ρ, (∀ i, Listing key rows (answers i)) ∧
      ¬ ((List.range n).flatMap fun i => page size i (answers i)).Nodup := by
  obtain ⟨a, x, y, b, ha, hl, hl'⟩ := h.exists_swap
  obtain ⟨j, rfl⟩ : ∃ j, k = j + 1 := ⟨k - 1, by
    cases k with
    | zero => simp at ha
    | succ k => rfl⟩
  rw [Nat.succ_mul] at ha
  have hlast : x ∈ page size j (a ++ x :: y :: b) := by
    rw [page, List.drop_append_of_le_length (by omega)]
    refine List.mem_take_iff_getElem.mpr ⟨size - 1, ?_, ?_⟩
    · simp
      omega
    · rw [List.getElem_append_right (by simp; omega)]
      simp only [List.length_drop]
      have hzero : size - 1 - (a.length - j * size) = 0 := by omega
      simp [hzero]
  have hfirst : x ∈ page size (j + 1) (a ++ y :: x :: b) := by
    have hlen : (a ++ [y]).length = (j + 1) * size := by
      rw [List.length_append, List.length_singleton, ha, Nat.succ_mul]
    have hassoc : a ++ y :: x :: b = (a ++ [y]) ++ x :: b := by simp
    rw [page, hassoc, ← hlen, List.drop_left]
    obtain ⟨m, rfl⟩ := Nat.exists_eq_succ_of_ne_zero hsize.ne'
    simp
  refine ⟨fun i => if i = j + 1 then a ++ y :: x :: b else a ++ x :: y :: b, fun i => ?_, fun hnodup => ?_⟩
  · dsimp only
    split_ifs
    · exact hl'
    · exact hl
  · have hj : j + 1 < n := by
      have hlength : (a ++ x :: y :: b).length ≤ n * size := hl.perm.length_eq ▸ hn
      simp only [List.length_append, List.length_cons] at hlength
      by_contra hle
      have hmul : n * size ≤ (j + 1) * size := Nat.mul_le_mul_right size (Nat.le_of_not_lt hle)
      rw [Nat.succ_mul] at hmul
      omega
    have hdisjoint := List.pairwise_iff_getElem.mp (List.nodup_flatMap.mp hnodup).2 j (j + 1)
      (by simp; omega) (by simpa using hj) (Nat.lt_succ_self j)
    simp only [Function.onFun, List.getElem_range] at hdisjoint
    refine hdisjoint (a := x) ?_ ?_
    · rwa [if_neg (Nat.succ_ne_self j).symm]
    · rwa [if_pos trivial]

/-! ## The first rows -/

theorem mem_take_iff (hrows : rows.Nodup) (hx : x ∈ rows) :
    (∀ l, Listing key rows l → x ∈ l.take n) ↔ (rows.countP fun r => decide (key r ≤ key x)) ≤ n := by
  constructor
  · intro h
    by_contra hmore
    obtain ⟨l, hl⟩ := exists_listing key rows
    have happend := filter_append_filter (le_below (key x)) hl.sorted
    have hxl : x ∈ l.filter fun r => decide (key r ≤ key x) :=
      List.mem_filter.mpr ⟨hl.perm.mem_iff.mpr hx, decide_eq_true le_rfl⟩
    obtain ⟨a, b, hab⟩ := List.append_of_mem hxl
    have hlow : ∀ r ∈ a ++ x :: b, key r ≤ key x := by
      intro r hr
      rw [← hab] at hr
      exact of_decide_eq_true (List.mem_filter.mp hr).2
    have hhigh : ∀ r ∈ l.filter fun r => !decide (key r ≤ key x), key x < key r := by
      intro r hr
      exact lt_of_not_ge (by simpa using (List.mem_filter.mp hr).2)
    rw [hab] at happend
    have hsub : (a ++ b).Sublist (a ++ x :: b) := (List.sublist_cons_self x b).append_left a
    -- the same rows with `x` behind all of its group
    have hlast : Listing key rows ((a ++ b) ++ x :: l.filter fun r => !decide (key r ≤ key x)) := by
      constructor
      · have hmoved : ((a ++ b) ++ x :: l.filter fun r => !decide (key r ≤ key x)).Perm
            ((a ++ x :: b) ++ l.filter fun r => !decide (key r ≤ key x)) :=
          List.perm_middle.trans (List.perm_middle.symm.append_right _)
        rw [happend] at hmoved
        exact hmoved.trans hl.perm
      · refine List.pairwise_append.mpr ⟨(hab ▸ hl.sorted.filter _).sublist hsub, ?_, ?_⟩
        · exact List.pairwise_cons.mpr ⟨fun r hr => (hhigh r hr).le, hl.sorted.filter _⟩
        · intro r hr r' hr'
          have hrx := hlow r (hsub.mem hr)
          cases List.mem_cons.mp hr' with
          | inl hself => exact hself ▸ hrx
          | inr hr' => exact hrx.trans (hhigh r' hr').le
    have hshown := h _ hlast
    have hlength : n ≤ (a ++ b).length := by
      rw [← hl.perm.countP_eq, List.countP_eq_length_filter, hab] at hmore
      simp only [List.length_append, List.length_cons] at hmore ⊢
      omega
    rw [List.take_append_of_le_length hlength] at hshown
    have hdistinct : (a ++ x :: b).Nodup := hab ▸ (hl.perm.nodup_iff.mpr hrows).filter _
    exact (List.nodup_middle.mp hdistinct).notMem (List.mem_of_mem_take hshown)
  · intro hcount l hl
    obtain ⟨i, hi, hget⟩ := List.mem_iff_getElem.mp (hl.perm.mem_iff.mpr hx)
    have hpos := (below_iff (le_below (key x)) hl.sorted hi).mp (by simp [hget])
    rw [hl.perm.countP_eq] at hpos
    exact List.mem_take_iff_getElem.mpr ⟨i, by omega, hget⟩

end PyFaaS.SortedPages
