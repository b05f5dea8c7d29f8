import Mathlib.Data.List.Infix

/-!
# Lists between delimiters

`cut` splits a list at the first place where the delimiter stands, `split` at every one. A
delimiter whose first entry does not come back in it overlaps no part of its own, so that
the parts are read back exactly if the delimiter stands in none of them.
-/

namespace PyFaaS.Delimiters
variable {α : Type*} {c : α} {d ds s x y : List α} {xs : List (List α)} {n : ℕ}

theorem infix_append_iff (hc : c ∉ x) : c :: ds <:+: x ++ y ↔ c :: ds <:+: y := by
  induction x with
  | nil => exact Iff.rfl
  | cons a x ih =>
    rw [List.mem_cons, not_or] at hc
    rw [List.cons_append, List.infix_cons_iff, ih hc.2, or_iff_right]
    intro h
    exact hc.1 (List.cons_prefix_cons.mp h).1

theorem intercalate_eq (d x : List α) (xs : List (List α)) :
    d.intercalate (x :: xs) = x ++ xs.flatMap fun y => d ++ y := by
  induction xs generalizing x with
  | nil => simp
  | cons y ys ih => rw [List.intercalate_cons_cons, ih, List.flatMap_cons, List.append_assoc, List.append_assoc]

theorem length_le_intercalate (hd : d ≠ []) : xs.length ≤ (d.intercalate (x :: xs)).length := by
  have hpos : 0 < d.length := List.length_pos_iff.mpr hd
  rw [intercalate_eq]
  induction xs with
  | nil => exact Nat.zero_le _
  | cons y ys ih =>
    simp only [List.flatMap_cons, List.length_append, List.length_cons] at ih ⊢
    omega

theorem no_overlap {a : α} (hc : c ∉ ds) (hfree : ¬ c :: ds <:+: a :: x) : ¬ c :: ds <+: a :: x ++ (c :: ds ++ y) := by
  intro h
  obtain ⟨t, ht⟩ := h
  rcases List.append_eq_append_iff.mp ht with ⟨e, hx, -⟩ | ⟨e, hd, hrest⟩
  · exact hfree ⟨[], e, hx.symm⟩
  · cases e with
    | nil => exact hfree (by rw [hd, List.append_nil])
    | cons b e =>
      have hb : b ∈ ds := by
        rw [(List.cons.inj hd).2]
        exact List.mem_append_right _ List.mem_cons_self
      rw [← (List.cons.inj hrest).1] at hb
      exact hc hb

section
variable [DecidableEq α]

def cut (d : List α) : List α → Option (List α × List α)
  | [] => none
  | a :: s => if d <+: a :: s then some ([], (a :: s).drop d.length) else (cut d s).map fun p => (a :: p.1, p.2)

def split (d : List α) : ℕ → List α → List (List α)
  | 0, s => [s]
  | n + 1, s =>
    match cut d s with
    | none => [s]
    | some (x, y) => x :: split d n y

theorem cut_some (hd : d ≠ []) (h : cut d s = some (x, y)) : s = x ++ d ++ y ∧ ¬ d <:+: x := by
  induction s generalizing x with
  | nil => cases h
  | cons a s ih =>
    rw [cut] at h
    split_ifs at h with hprefix
    · obtain ⟨rfl, rfl⟩ := Prod.mk.inj (Option.some.inj h)
      obtain ⟨t, ht⟩ := hprefix
      refine ⟨?_, fun hnil => hd (List.infix_nil.mp hnil)⟩
      rw [← ht, List.drop_left, List.nil_append]
    · obtain ⟨p, hp, hpair⟩ := Option.map_eq_some_iff.mp h
      obtain ⟨rfl, rfl⟩ := Prod.mk.inj hpair
      obtain ⟨hs, hfree⟩ := ih hp
      refine ⟨by rw [hs]; rfl, fun hinside => ?_⟩
      rcases List.infix_cons_iff.mp hinside with hfirst | hlater
      · apply hprefix
        rw [hs, List.append_assoc, ← List.cons_append]
        exact hfirst.trans (List.prefix_append ..)
      · exact hfree hlater

theorem cut_eq_none (hd : d ≠ []) (h : ¬ d <:+: s) : cut d s = none := by
  cases hcut : cut d s with
  | none => rfl
  | some p =>
    obtain ⟨hs, -⟩ := cut_some hd hcut
    exact absurd ⟨p.1, p.2, hs.symm⟩ h

theorem cut_free (h : cut d s = none) (hd : d ≠ []) : ¬ d <:+: s := by
  induction s with
  | nil => exact fun hnil => hd (List.infix_nil.mp hnil)
  | cons a s ih =>
    rw [cut] at h
    split_ifs at h with hprefix
    intro hinside
    rcases List.infix_cons_iff.mp hinside with hfirst | hlater
    · exact hprefix hfirst
    · exact ih (Option.map_eq_none_iff.mp h) hlater

theorem cut_append (hc : c ∉ ds) (hfree : ¬ c :: ds <:+: x) : cut (c :: ds) (x ++ (c :: ds) ++ y) = some (x, y) := by
  induction x with
  | nil =>
    have hprefix : c :: ds <+: c :: (ds ++ y) := List.prefix_append (c :: ds) y
    rw [List.nil_append, List.cons_append, cut, if_pos hprefix, ← List.cons_append, List.drop_left]
  | cons a x ih =>
    have hnot := no_overlap (y := y) hc hfree
    rw [List.append_assoc, List.cons_append, cut]
    rw [List.cons_append] at hnot
    rw [if_neg hnot, ← List.append_assoc, ih fun hlater => hfree (List.infix_cons hlater)]
    rfl

theorem split_join (hc : c ∉ ds) (hx : ¬ c :: ds <:+: x) (hxs : ∀ y ∈ xs, ¬ c :: ds <:+: y) (hn : xs.length ≤ n) :
    split (c :: ds) n ((c :: ds).intercalate (x :: xs)) = x :: xs := by
  induction xs generalizing x n with
  | nil =>
    rw [List.intercalate_singleton]
    cases n with
    | zero => rfl
    | succ n => rw [split, cut_eq_none (List.cons_ne_nil c ds) hx]
  | cons y ys ih =>
    cases n with
    | zero => cases hn
    | succ n =>
      obtain ⟨hy, hys⟩ := List.forall_mem_cons.mp hxs
      rw [List.intercalate_cons_cons, split, cut_append hc hx]
      simp only
      rw [ih hy hys (Nat.le_of_succ_le_succ hn)]

theorem split_free (hd : d ≠ []) (hn : s.length ≤ n) : ∀ x ∈ split d n s, ¬ d <:+: x := by
  induction n generalizing s with
  | zero =>
    obtain rfl := List.length_eq_zero_iff.mp (Nat.le_zero.mp hn)
    intro x hx hinside
    rw [List.mem_singleton.mp hx] at hinside
    exact hd (List.infix_nil.mp hinside)
  | succ n ih =>
    intro x hx
    rw [split] at hx
    cases hcut : cut d s with
    | none =>
      rw [hcut] at hx
      rw [List.mem_singleton.mp hx]
      exact cut_free hcut hd
    | some p =>
      rw [hcut] at hx
      obtain ⟨hs, hfree⟩ := cut_some hd hcut
      rcases List.mem_cons.mp hx with rfl | hx
      · exact hfree
      · apply ih _ x hx
        have hlength := congrArg List.length hs
        have hpos : 0 < d.length := List.length_pos_iff.mpr hd
        simp only [List.length_append] at hlength
        omega

end
end PyFaaS.Delimiters
