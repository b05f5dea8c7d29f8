import Mathlib.Data.List.Forall2
import Mathlib.Data.List.Infix

/-!
# Substitution of a pattern of fixed width

A pattern gives one class for each of its characters. `sub` scans a text from the left
and puts the replacement in the place of every match that no earlier match overlaps.
Where a separator is in none of the classes, the parts between separators are
substituted one by one.
-/

namespace PyFaaS.FixedPattern
variable {α : Type*} {pattern : List (α → Bool)} {replacement text x y : List α} {c sep : α} {k : ℕ}

def matchesFront : List (α → Bool) → List α → Bool
  | [], _ => true
  | _ :: _, [] => false
  | p :: pattern, c :: text => p c && matchesFront pattern text

/-- Substitution behind a match that still covers `skip` characters. -/
def subBehind (pattern : List (α → Bool)) (replacement : List α) : ℕ → List α → List α
  | _, [] => []
  | skip + 1, _ :: text => subBehind pattern replacement skip text
  | 0, c :: text =>
    if matchesFront pattern (c :: text) then
      replacement ++ subBehind pattern replacement (pattern.length - 1) text
    else c :: subBehind pattern replacement 0 text

def sub (pattern : List (α → Bool)) (replacement text : List α) : List α := subBehind pattern replacement 0 text

def Matches (pattern : List (α → Bool)) (text : List α) : Prop :=
  text.length = pattern.length ∧ matchesFront pattern text = true

instance : Decidable (Matches pattern text) := inferInstanceAs (Decidable (_ ∧ _))

def Outside (pattern : List (α → Bool)) (sep : α) : Prop := ∀ p ∈ pattern, p sep = false

/-! ## Matches -/

theorem length_le_of_matchesFront (h : matchesFront pattern text = true) : pattern.length ≤ text.length := by
  induction pattern generalizing text with
  | nil => exact Nat.zero_le _
  | cons p pattern ih =>
    cases text with
    | nil => simp [matchesFront] at h
    | cons c text =>
      simp only [matchesFront, Bool.and_eq_true] at h
      simpa using ih h.2

theorem matchesFront_of_short (h : text.length < pattern.length) : matchesFront pattern text = false := by
  apply Bool.eq_false_iff.mpr
  intro hmatch
  have hlength := length_le_of_matchesFront hmatch
  omega

theorem matchesFront_mono {pattern' : List (α → Bool)} (h : List.Forall₂ (fun p p' => ∀ c, p c = true → p' c = true)
    pattern pattern') (hmatch : matchesFront pattern text = true) : matchesFront pattern' text = true := by
  induction h generalizing text with
  | nil => exact hmatch
  | cons hp _ ih =>
    cases text with
    | nil => simp [matchesFront] at hmatch
    | cons c text =>
      simp only [matchesFront, Bool.and_eq_true] at hmatch ⊢
      exact ⟨hp c hmatch.1, ih hmatch.2⟩

theorem Matches.mono {pattern' : List (α → Bool)} (h : Matches pattern text)
    (hle : List.Forall₂ (fun p p' => ∀ c, p c = true → p' c = true) pattern pattern') : Matches pattern' text :=
  ⟨h.1.trans hle.length_eq, matchesFront_mono hle h.2⟩

theorem matchesFront_append_sep (houtside : Outside pattern sep) :
    matchesFront pattern (x ++ sep :: y) = matchesFront pattern x := by
  induction pattern generalizing x with
  | nil => cases x <;> rfl
  | cons p pattern ih =>
    obtain ⟨hp, hpattern⟩ := List.forall_mem_cons.mp houtside
    cases x with
    | nil => simp [matchesFront, hp]
    | cons c x =>
      have hx : matchesFront pattern (x ++ sep :: y) = matchesFront pattern x := ih hpattern
      simp only [List.cons_append, matchesFront, hx]

/-! ## Substitution -/

theorem subBehind_eq_drop : subBehind pattern replacement k text = sub pattern replacement (text.drop k) := by
  induction text generalizing k with
  | nil => cases k <;> simp [sub, subBehind]
  | cons c text ih =>
    cases k with
    | zero => rfl
    | succ k =>
      have hlater : subBehind pattern replacement k text = sub pattern replacement (text.drop k) := ih
      simpa only [subBehind, List.drop_succ_cons] using hlater

theorem sub_of_not_match (h : matchesFront pattern (c :: text) = false) :
    sub pattern replacement (c :: text) = c :: sub pattern replacement text := by
  simp [sub, subBehind, h]

theorem sub_of_match (h : matchesFront pattern (c :: text) = true) : sub pattern replacement (c :: text) =
    replacement ++ sub pattern replacement (text.drop (pattern.length - 1)) := by
  rw [← subBehind_eq_drop]
  simp [sub, subBehind, h]

theorem sub_of_short (h : text.length < pattern.length) : sub pattern replacement text = text := by
  induction text with
  | nil => rfl
  | cons c text ih =>
    have hlater : sub pattern replacement text = text := ih (by simp at h; omega)
    rw [sub_of_not_match (matchesFront_of_short h), hlater]

theorem sub_of_width (hpos : 0 < pattern.length) (h : text.length = pattern.length) :
    sub pattern replacement text = if matchesFront pattern text then replacement else text := by
  cases text with
  | nil => simp at h; omega
  | cons c text =>
    split_ifs with hmatch
    · have hdrop : text.drop (pattern.length - 1) = [] := List.drop_eq_nil_of_le (by simp at h; omega)
      rw [sub_of_match hmatch, hdrop]
      exact List.append_nil _
    · have hlater : sub pattern replacement text = text := sub_of_short (by simp at h; omega)
      rw [sub_of_not_match (Bool.eq_false_iff.mpr hmatch), hlater]

theorem sub_append_sep (hpos : 0 < pattern.length) (houtside : Outside pattern sep) :
    sub pattern replacement (x ++ sep :: y) =
      sub pattern replacement x ++ sep :: sub pattern replacement y := by
  induction hn : x.length using Nat.strong_induction_on generalizing x with
  | _ n ih =>
    cases x with
    | nil =>
      have hnone : matchesFront pattern (sep :: y) = false := by
        have hempty : matchesFront pattern ([] ++ sep :: y) = matchesFront pattern [] :=
          matchesFront_append_sep houtside
        rw [List.nil_append] at hempty
        rw [hempty, matchesFront_of_short (by simpa using hpos)]
      exact sub_of_not_match hnone
    | cons c x =>
      have hmatches : matchesFront pattern (c :: (x ++ sep :: y)) = matchesFront pattern (c :: x) := by
        rw [← List.cons_append, matchesFront_append_sep houtside]
      rw [List.cons_append]
      cases hmatch : matchesFront pattern (c :: x) with
      | true =>
        have hwidth : pattern.length - 1 ≤ x.length := by
          have hle := length_le_of_matchesFront hmatch
          simp at hle
          omega
        have hlater : sub pattern replacement (x.drop (pattern.length - 1) ++ sep :: y) =
            sub pattern replacement (x.drop (pattern.length - 1)) ++ sep :: sub pattern replacement y := by
          refine ih _ ?_ rfl
          simp at hn ⊢
          omega
        rw [sub_of_match (hmatches.trans hmatch), sub_of_match hmatch, List.drop_append_of_le_length hwidth, hlater,
          List.append_assoc]
      | false =>
        have hlater : sub pattern replacement (x ++ sep :: y) =
            sub pattern replacement x ++ sep :: sub pattern replacement y :=
          ih x.length (by simp at hn; omega) rfl
        rw [sub_of_not_match (hmatches.trans hmatch), sub_of_not_match hmatch, hlater, List.cons_append]

theorem not_mem_sub (hreplacement : sep ∉ replacement) (h : sep ∉ text) : sep ∉ sub pattern replacement text := by
  induction hn : text.length using Nat.strong_induction_on generalizing text with
  | _ n ih =>
    cases text with
    | nil => simp [sub, subBehind]
    | cons c text =>
      obtain ⟨hc, htext⟩ := List.ne_and_not_mem_of_not_mem_cons h
      cases hmatch : matchesFront pattern (c :: text) with
      | true =>
        have hlater : sep ∉ sub pattern replacement (text.drop (pattern.length - 1)) :=
          ih _ (by simp at hn ⊢; omega) (fun hmem => htext (List.mem_of_mem_drop hmem)) rfl
        rw [sub_of_match hmatch]
        exact List.not_mem_append hreplacement hlater
      | false =>
        have hlater : sep ∉ sub pattern replacement text := ih _ (by simp at hn; omega) htext rfl
        rw [sub_of_not_match hmatch]
        exact List.not_mem_cons_of_ne_of_not_mem hc hlater

/-! ## Parts between separators -/

theorem exists_of_mem_tail_dropLast (sep : α) {parts : List (List α)} (h : x ∈ parts.tail.dropLast) : ∃ a b,
    [sep].intercalate parts = a ++ sep :: x ++ sep :: b := by
  cases parts with
  | nil => simp at h
  | cons first parts =>
    rw [List.tail_cons] at h
    induction parts generalizing first with
    | nil => simp at h
    | cons part parts ih =>
      cases parts with
      | nil => simp at h
      | cons next parts =>
        rw [List.dropLast_cons_cons] at h
        rcases List.mem_cons.mp h with hx | hlater
        · exact ⟨first, [sep].intercalate (next :: parts), by simp [List.intercalate_cons_cons, hx]⟩
        · obtain ⟨a, b, hab⟩ := ih part hlater
          exact ⟨first ++ sep :: a, b, by rw [List.intercalate_cons_cons, hab]; simp⟩

section Parts
variable [DecidableEq α]

theorem splitOn_sub (hpos : 0 < pattern.length) (houtside : Outside pattern sep) (hreplacement : sep ∉ replacement) :
    (sub pattern replacement text).splitOn sep = (text.splitOn sep).map (sub pattern replacement) := by
  induction hn : text.length using Nat.strong_induction_on generalizing text with
  | _ n ih =>
    by_cases hmem : sep ∈ text
    · obtain ⟨x, y, rfl, hx⟩ := List.eq_append_cons_of_mem hmem
      have hlater : (sub pattern replacement y).splitOn sep = (y.splitOn sep).map (sub pattern replacement) :=
        ih y.length (by simp at hn; omega) rfl
      rw [sub_append_sep hpos houtside, List.splitOn_append_cons_self_of_not_mem (not_mem_sub hreplacement hx),
        List.splitOn_append_cons_self_of_not_mem hx, hlater, List.map_cons]
    · rw [List.splitOn_eq_singleton (not_mem_sub hreplacement hmem), List.splitOn_eq_singleton hmem]
      rfl

theorem splitOn_injective : Function.Injective fun text : List α => text.splitOn sep := by
  intro x y h
  have hparts : x.splitOn sep = y.splitOn sep := h
  have hx : [sep].intercalate (x.splitOn sep) = x := List.intercalate_splitOn sep
  rw [← hx, hparts, List.intercalate_splitOn]

theorem length_splitOn : (text.splitOn sep).length = text.count sep + 1 := by
  induction text with
  | nil => rfl
  | cons c text ih =>
    rw [List.splitOn_cons_eq_if_modifyHead, List.count_cons]
    split_ifs with hsep
    · rw [List.length_cons, ih]
    · rw [List.length_modifyHead, ih]

theorem between_infix_iff (hx : sep ∉ x) : sep :: x ++ [sep] <:+: text ↔ x ∈ (text.splitOn sep).tail.dropLast := by
  constructor
  · intro h
    obtain ⟨a, b, rfl⟩ := h
    have hsplit : (a ++ (sep :: x ++ [sep]) ++ b).splitOn sep = a.splitOn sep ++ x :: b.splitOn sep := by
      have htext : a ++ (sep :: x ++ [sep]) ++ b = a ++ sep :: (x ++ sep :: b) := by simp
      rw [htext, List.splitOn_append_cons_self, List.splitOn_append_cons_self_of_not_mem hx]
    rw [hsplit, List.tail_append_of_ne_nil (List.splitOn_ne_nil _ _),
      List.dropLast_append_of_ne_nil (List.cons_ne_nil _ _),
      List.dropLast_cons_of_ne_nil (List.splitOn_ne_nil _ _)]
    exact List.mem_append_right _ List.mem_cons_self
  · intro h
    obtain ⟨a, b, hab⟩ := exists_of_mem_tail_dropLast sep h
    rw [List.intercalate_splitOn] at hab
    exact ⟨a, b, by rw [hab]; simp⟩

end Parts

end PyFaaS.FixedPattern
