import Mathlib.Data.List.Basic
import Mathlib.Data.Int.Notation

/-!
# Sorted sets of a key-value server

Members with an exact score. Adding a present member moves its score; a pop
takes some member of the least score, since the order among equal scores is not
relied on.
-/

namespace PyFaaS

abbrev SortedSet (μ : Type*) := List (μ × ℤ)

namespace SortedSet
variable {μ : Type*} [DecidableEq μ]

def zadd (s : SortedSet μ) (m : μ) (score : ℤ) : SortedSet μ :=
  (m, score) :: s.filter fun entry => entry.1 ≠ m

def zrem (s : SortedSet μ) (m : μ) : SortedSet μ := s.filter fun entry => entry.1 ≠ m

def Holds (s : SortedSet μ) (m : μ) : Prop := ∃ score, (m, score) ∈ s

def least (s : SortedSet μ) (m : μ) : Bool :=
  s.any fun entry => entry.1 = m && s.all fun other => entry.2 ≤ other.2

omit [DecidableEq μ] in
@[simp] theorem holds_nil (m : μ) : ¬ Holds ([] : SortedSet μ) m := by simp [Holds]

@[simp] theorem holds_zadd (s : SortedSet μ) (m n : μ) (score : ℤ) :
    (s.zadd m score).Holds n ↔ n = m ∨ s.Holds n := by
  unfold Holds zadd
  constructor
  · rintro ⟨sc, h⟩
    rcases List.mem_cons.mp h with h | h
    · exact Or.inl (congrArg Prod.fst h)
    · exact Or.inr ⟨sc, (List.mem_filter.mp h).1⟩
  · rintro (rfl | ⟨sc, h⟩)
    · exact ⟨score, List.mem_cons_self⟩
    · by_cases hn : n = m
      · subst n
        exact ⟨score, List.mem_cons_self⟩
      · exact ⟨sc, List.mem_cons_of_mem _ (List.mem_filter.mpr ⟨h, by simpa using hn⟩)⟩

@[simp] theorem holds_zrem (s : SortedSet μ) (m n : μ) :
    (s.zrem m).Holds n ↔ n ≠ m ∧ s.Holds n := by
  unfold Holds zrem
  constructor
  · rintro ⟨sc, h⟩
    obtain ⟨hmem, hne⟩ := List.mem_filter.mp h
    exact ⟨by simpa using hne, sc, hmem⟩
  · rintro ⟨hne, sc, h⟩
    exact ⟨sc, List.mem_filter.mpr ⟨h, by simpa using hne⟩⟩

end SortedSet
end PyFaaS
