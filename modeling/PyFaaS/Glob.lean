import Mathlib.Data.List.Basic

/-!
# Shell patterns

A pattern is a list of tokens: one character of a kind, or any run of characters. The
matcher tries the shortest run first. It finds a match exactly where the relation has
one, and the relation cuts the text between the tokens.
-/

namespace PyFaaS.Glob
variable {α : Type*}

inductive Token (α : Type*) where
  | one (p : α → Bool)
  | star

inductive Matches : List (Token α) → List α → Prop
  | nil : Matches [] []
  | one {p : α → Bool} {c : α} {ts : List (Token α)} {s : List α} (hc : p c = true) (h : Matches ts s) :
      Matches (.one p :: ts) (c :: s)
  | skip {ts : List (Token α)} {s : List α} (h : Matches ts s) : Matches (.star :: ts) s
  | take {c : α} {ts : List (Token α)} {s : List α} (h : Matches (.star :: ts) s) : Matches (.star :: ts) (c :: s)

def anywhere (k : List α → Bool) : List α → Bool
  | [] => k []
  | c :: s => k (c :: s) || anywhere k s

def run : List (Token α) → List α → Bool
  | [], s => s.isEmpty
  | .star :: ts, s => anywhere (run ts) s
  | .one _ :: _, [] => false
  | .one p :: ts, c :: s => p c && run ts s

variable {ts : List (Token α)} {s : List α} {p : α → Bool}

theorem anywhere_iff {k : List α → Bool} : anywhere k s = true ↔ ∃ x y, s = x ++ y ∧ k y = true := by
  induction s with
  | nil => simp [anywhere]
  | cons c s ih =>
    rw [anywhere, Bool.or_eq_true, ih]
    constructor
    · intro h
      rcases h with hnow | ⟨x, y, hs, hk⟩
      · exact ⟨[], c :: s, rfl, hnow⟩
      · exact ⟨c :: x, y, by rw [hs, List.cons_append], hk⟩
    · intro h
      obtain ⟨x, y, hs, hk⟩ := h
      cases x with
      | nil => exact Or.inl (hs ▸ hk)
      | cons d x => exact Or.inr ⟨x, y, (List.cons.inj hs).2, hk⟩

theorem matches_star_iff : Matches (.star :: ts) s ↔ ∃ x y, s = x ++ y ∧ Matches ts y := by
  constructor
  · intro h
    induction s with
    | nil =>
      cases h with
      | skip h => exact ⟨[], [], rfl, h⟩
    | cons c s ih =>
      cases h with
      | skip h => exact ⟨[], c :: s, rfl, h⟩
      | take h =>
        obtain ⟨x, y, hs, hy⟩ := ih h
        exact ⟨c :: x, y, by rw [hs, List.cons_append], hy⟩
  · intro h
    obtain ⟨x, y, rfl, hy⟩ := h
    induction x with
    | nil => exact .skip hy
    | cons c x ih => exact .take ih

theorem run_iff : run ts s = true ↔ Matches ts s := by
  induction ts generalizing s with
  | nil =>
    cases s with
    | nil => exact iff_of_true rfl .nil
    | cons c s => exact iff_of_false (by simp [run]) fun h => by cases h
  | cons token ts ih =>
    cases token with
    | star =>
      rw [run, anywhere_iff, matches_star_iff]
      simp only [ih]
    | one p =>
      cases s with
      | nil => exact iff_of_false (by simp [run]) fun h => by cases h
      | cons c s =>
        rw [run, Bool.and_eq_true, ih]
        constructor
        · exact fun h => .one h.1 h.2
        · intro h
          cases h with
          | one hc h => exact ⟨hc, h⟩

end PyFaaS.Glob
