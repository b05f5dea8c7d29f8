import Mathlib.Data.List.Basic

/-!
# A backtracking matcher

A pattern is matched from the front of a text. The matcher hands what a match leaves to the
pattern behind it, and goes back to a shorter repetition where that fails. Assertions of
width zero see their position and the rest of the text. The matcher finds a match exactly
where the relation `Matches` has one.
-/

namespace PyFaaS.Backtracking
variable {α β : Type}

inductive Pattern (α : Type) where
  | one (p : α → Bool)
  | look (p : ℕ → List α → Bool)
  | seq (q r : Pattern α)
  | upTo (n : ℕ) (q : Pattern α)

namespace Pattern

abbrev Behind (α β : Type) := ℕ → List α → Option β

def greedy (once : Behind α β → Behind α β) (k : Behind α β) : ℕ → Behind α β
  | 0 => k
  | n + 1 => fun i s => (once (greedy once k n) i s).or (k i s)

def run : Pattern α → Behind α β → Behind α β
  | one p, k => fun i s =>
    match s with
    | c :: s => if p c then k (i + 1) s else none
    | [] => none
  | look p, k => fun i s => if p i s then k i s else none
  | seq q r, k => q.run (r.run k)
  | upTo n q, k => greedy q.run k n

def matchStart (q : Pattern α) (s : List α) : Option (List α) := q.run (fun _ rest => some rest) 0 s

/-! ## The relation -/

inductive Matches : Pattern α → ℕ → List α → ℕ → List α → Prop
  | one {p : α → Bool} {i : ℕ} {c : α} {s : List α} (h : p c = true) : Matches (one p) i (c :: s) (i + 1) s
  | look {p : ℕ → List α → Bool} {i : ℕ} {s : List α} (h : p i s = true) : Matches (look p) i s i s
  | seq {q r : Pattern α} {i j k : ℕ} {s t u : List α} (hq : Matches q i s j t) (hr : Matches r j t k u) :
    Matches (seq q r) i s k u
  | stop {n : ℕ} {q : Pattern α} {i : ℕ} {s : List α} : Matches (upTo n q) i s i s
  | more {n : ℕ} {q : Pattern α} {i j k : ℕ} {s t u : List α} (hq : Matches q i s j t)
    (hrest : Matches (upTo n q) j t k u) : Matches (upTo (n + 1) q) i s k u

variable {p : α → Bool} {q r : Pattern α} {n i j : ℕ} {s t : List α}

theorem matches_one_iff : Matches (one p) i s j t ↔ ∃ c, p c = true ∧ s = c :: t ∧ j = i + 1 := by
  constructor
  · intro h
    cases h with
    | one hc => exact ⟨_, hc, rfl, rfl⟩
  · intro h
    obtain ⟨c, hc, rfl, rfl⟩ := h
    exact .one hc

theorem matches_look_iff {p : ℕ → List α → Bool} :
    Matches (look p) i s j t ↔ p i s = true ∧ s = t ∧ i = j := by
  constructor
  · intro h
    cases h with
    | look hp => exact ⟨hp, rfl, rfl⟩
  · intro h
    obtain ⟨hp, rfl, rfl⟩ := h
    exact .look hp

theorem matches_seq_iff : Matches (seq q r) i s j t ↔ ∃ k u, Matches q i s k u ∧ Matches r k u j t := by
  constructor
  · intro h
    cases h with
    | seq hq hr => exact ⟨_, _, hq, hr⟩
  · intro h
    obtain ⟨k, u, hq, hr⟩ := h
    exact .seq hq hr

theorem matches_upTo_one_iff : Matches (upTo n (one p)) i s j t ↔
    ∃ x : List α, (∀ c ∈ x, p c = true) ∧ x.length ≤ n ∧ s = x ++ t ∧ j = i + x.length := by
  constructor
  · intro h
    generalize hq : upTo n (one p) = q at h
    induction h generalizing n with
    | one => cases hq
    | look => cases hq
    | seq => cases hq
    | stop =>
      cases hq
      exact ⟨[], by simp, by simp, by simp, by simp⟩
    | more honce _ _ ih =>
      cases hq
      obtain ⟨c, hc, rfl, rfl⟩ := matches_one_iff.mp honce
      obtain ⟨x, hx, hlength, rfl, rfl⟩ := ih rfl
      refine ⟨c :: x, List.forall_mem_cons.mpr ⟨hc, hx⟩, by simpa using hlength, rfl, ?_⟩
      rw [List.length_cons]
      omega
  · intro h
    obtain ⟨x, hx, hlength, rfl, rfl⟩ := h
    induction x generalizing n i with
    | nil => exact .stop
    | cons c x ih =>
      obtain ⟨hc, hx⟩ := List.forall_mem_cons.mp hx
      cases n with
      | zero => simp at hlength
      | succ n =>
        have hrest := ih (i := i + 1) hx (by simpa using hlength)
        rw [show i + 1 + x.length = i + (c :: x).length by rw [List.length_cons]; omega] at hrest
        exact .more (.one hc) hrest

/-! ## The matcher finds what the relation has -/

theorem greedy_isSome {once : Behind α β → Behind α β}
    (honce : ∀ k i s, (once k i s).isSome = true ↔ ∃ j t, Matches q i s j t ∧ (k j t).isSome = true)
    (k : Behind α β) (i : ℕ) (s : List α) :
    (greedy once k n i s).isSome = true ↔ ∃ j t, Matches (upTo n q) i s j t ∧ (k j t).isSome = true := by
  induction n generalizing i s with
  | zero =>
    constructor
    · intro h
      exact ⟨i, s, .stop, h⟩
    · intro h
      obtain ⟨j, t, hmatch, hk⟩ := h
      cases hmatch
      exact hk
  | succ n ih =>
    simp only [greedy, Option.isSome_or, Bool.or_eq_true, honce, ih]
    constructor
    · intro h
      rcases h with ⟨j, t, hq, j', t', hrest, hk⟩ | hk
      · exact ⟨j', t', .more hq hrest, hk⟩
      · exact ⟨i, s, .stop, hk⟩
    · intro h
      obtain ⟨j, t, hmatch, hk⟩ := h
      cases hmatch with
      | stop => exact .inr hk
      | more hq hrest => exact .inl ⟨_, _, hq, j, t, hrest, hk⟩

theorem run_isSome (q : Pattern α) (k : Behind α β) (i : ℕ) (s : List α) :
    (q.run k i s).isSome = true ↔ ∃ j t, Matches q i s j t ∧ (k j t).isSome = true := by
  induction q generalizing k i s with
  | one p =>
    simp only [matches_one_iff]
    cases s with
    | nil => simp [run]
    | cons c s =>
      by_cases hc : p c = true
      · simp [run, hc]
      · simp only [run, hc, Bool.false_eq_true, if_false, Option.isSome_none, false_iff]
        grind
  | look p =>
    simp only [matches_look_iff]
    by_cases hp : p i s = true <;> simp [run, hp]
  | seq q r ihq ihr =>
    simp only [run, ihq, ihr, matches_seq_iff]
    grind
  | upTo n q ih => exact greedy_isSome (fun k => ih k) k i s

theorem matchStart_isSome (q : Pattern α) (s : List α) :
    (q.matchStart s).isSome = true ↔ ∃ j t, Matches q 0 s j t := by
  rw [matchStart, run_isSome]
  simp

end Pattern
end PyFaaS.Backtracking
