import Mathlib.Data.List.MinMax
import Mathlib.Data.List.Nodup
import Mathlib.Data.Prod.Lex

/-!
# Scored sets with an order among equal scores

Members with a score each. Adding a present member moves its score, and a pop takes
the member of the least score, among equal scores the least member.
-/

namespace PyFaaS

structure ScoredSet (μ κ : Type*) where
  entries : List (μ × κ)
  distinct : (entries.map Prod.fst).Nodup

namespace ScoredSet
variable {μ κ : Type*} {s t : ScoredSet μ κ} {m n : μ} {k : κ} {entry : μ × κ}

instance : Membership (μ × κ) (ScoredSet μ κ) := ⟨fun s entry => entry ∈ s.entries⟩

def empty : ScoredSet μ κ := ⟨[], List.nodup_nil⟩

def Holds (s : ScoredSet μ κ) (m : μ) : Prop := ∃ k, (m, k) ∈ s

theorem not_mem_empty (entry : μ × κ) : entry ∉ (empty : ScoredSet μ κ) := List.not_mem_nil

theorem holds_of_mem (h : entry ∈ s) : s.Holds entry.1 := ⟨entry.2, h⟩

theorem score_unique {k' : κ} (h : (m, k) ∈ s) (h' : (m, k') ∈ s) : k = k' := by
  have hsame : (m, k) = (m, k') := List.inj_on_of_nodup_map s.distinct h h' rfl
  exact congrArg Prod.snd hsame

section
variable [DecidableEq μ]

def remove (s : ScoredSet μ κ) (m : μ) : ScoredSet μ κ where
  entries := s.entries.filter fun entry => entry.1 ≠ m
  distinct := s.distinct.sublist (List.filter_sublist.map _)

theorem mem_remove : entry ∈ s.remove m ↔ entry ∈ s ∧ entry.1 ≠ m := by
  refine List.mem_filter.trans (and_congr Iff.rfl ?_)
  simp

def add (s : ScoredSet μ κ) (m : μ) (k : κ) : ScoredSet μ κ where
  entries := (m, k) :: (s.remove m).entries
  distinct := by
    refine List.nodup_cons.mpr ⟨fun h => ?_, (s.remove m).distinct⟩
    obtain ⟨entry, hentry, hm⟩ := List.mem_map.mp h
    exact (mem_remove.mp hentry).2 hm

theorem mem_add : entry ∈ s.add m k ↔ entry = (m, k) ∨ entry ∈ s ∧ entry.1 ≠ m :=
  List.mem_cons.trans (or_congr Iff.rfl mem_remove)

theorem holds_remove : (s.remove m).Holds n ↔ n ≠ m ∧ s.Holds n := by
  constructor
  · rintro ⟨k, h⟩
    obtain ⟨hmem, hne⟩ := mem_remove.mp h
    exact ⟨hne, k, hmem⟩
  · rintro ⟨hne, k, h⟩
    exact ⟨k, mem_remove.mpr ⟨h, hne⟩⟩

theorem holds_add : (s.add m k).Holds n ↔ n = m ∨ s.Holds n := by
  constructor
  · rintro ⟨k', h⟩
    rcases mem_add.mp h with h | ⟨h, -⟩
    · exact Or.inl (congrArg Prod.fst h)
    · exact Or.inr ⟨k', h⟩
  · intro h
    by_cases hne : n = m
    · subst hne
      exact ⟨k, mem_add.mpr (Or.inl rfl)⟩
    · obtain ⟨k', hmem⟩ := h.resolve_left hne
      exact ⟨k', mem_add.mpr (Or.inr ⟨hmem, hne⟩)⟩

end

/-! ## Popping -/

def rank (entry : μ × κ) : κ ×ₗ μ := toLex (entry.2, entry.1)

theorem rank_injective : Function.Injective (rank : μ × κ → κ ×ₗ μ) := by
  intro a b h
  have hpair : (a.2, a.1) = (b.2, b.1) := toLex.injective h
  exact Prod.ext (Prod.mk.inj hpair).2 (Prod.mk.inj hpair).1

section
variable [LinearOrder μ] [LinearOrder κ]

def popMin (s : ScoredSet μ κ) : Option ((μ × κ) × ScoredSet μ κ) :=
  (s.entries.argmin rank).map fun entry => (entry, s.remove entry.1)

theorem popMin_none : s.popMin = none ↔ ∀ entry, entry ∉ s := by
  rw [popMin, Option.map_eq_none_iff, List.argmin_eq_none]
  exact List.eq_nil_iff_forall_not_mem

theorem popMin_mem (h : s.popMin = some (entry, t)) : entry ∈ s := by
  obtain ⟨first, hfirst, hpair⟩ := Option.map_eq_some_iff.mp h
  obtain ⟨rfl, -⟩ := Prod.mk.inj hpair
  exact List.argmin_mem hfirst

theorem popMin_least (h : s.popMin = some (entry, t)) {other : μ × κ} (hother : other ∈ s) :
    rank entry ≤ rank other := by
  obtain ⟨first, hfirst, hpair⟩ := Option.map_eq_some_iff.mp h
  obtain ⟨rfl, -⟩ := Prod.mk.inj hpair
  exact List.le_of_mem_argmin hother hfirst

theorem popMin_rest (h : s.popMin = some (entry, t)) : t = s.remove entry.1 := by
  obtain ⟨first, hfirst, hpair⟩ := Option.map_eq_some_iff.mp h
  obtain ⟨rfl, rfl⟩ := Prod.mk.inj hpair
  rfl

theorem popMin_holds (h : s.popMin = some (entry, t)) : s.Holds entry.1 := holds_of_mem (popMin_mem h)

theorem holds_popMin (h : s.popMin = some (entry, t)) : t.Holds n ↔ n ≠ entry.1 ∧ s.Holds n := by
  rw [popMin_rest h]
  exact holds_remove

theorem popMin_of_least (hmem : entry ∈ s) (hleast : ∀ other ∈ s, rank entry ≤ rank other) :
    s.popMin = some (entry, s.remove entry.1) := by
  cases hpop : s.popMin with
  | none => exact absurd hmem (popMin_none.mp hpop entry)
  | some p =>
    obtain ⟨first, rest⟩ := p
    have hsame : first = entry :=
      rank_injective (le_antisymm (popMin_least hpop hmem) (hleast first (popMin_mem hpop)))
    rw [popMin_rest hpop, hsame]

end

end ScoredSet
end PyFaaS
