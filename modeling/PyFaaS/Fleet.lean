import Mathlib.Algebra.BigOperators.Fin
import Mathlib.Algebra.Order.BigOperators.Group.Finset

/-!
# Components that step one at a time

A family of component states, of which a step replaces one. A sum over the family
changes by what the one component changes.
-/

namespace PyFaaS.Fleet
open scoped BigOperators
variable {n : ℕ} {π : Type*}

def total (V : π → ℕ) (p : Fin n → π) : ℕ := ∑ w, V (p w)

theorem total_update (V : π → ℕ) (p : Fin n → π) (w : Fin n) (x : π) :
    total V (Function.update p w x) + V (p w) = total V p + V x := by
  have hrest : ∑ v ∈ Finset.univ.erase w, V (Function.update p w x v) = ∑ v ∈ Finset.univ.erase w, V (p v) := by
    apply Finset.sum_congr rfl
    intro v hv
    rw [Function.update_of_ne (Finset.ne_of_mem_erase hv)]
  have hnew := Finset.add_sum_erase Finset.univ (fun v => V (Function.update p w x v)) (Finset.mem_univ w)
  have hold := Finset.add_sum_erase Finset.univ (fun v => V (p v)) (Finset.mem_univ w)
  rw [Function.update_self] at hnew
  unfold total
  omega

theorem total_le {V : π → ℕ} {p : Fin n → π} {b : ℕ} (h : ∀ w, V (p w) ≤ b) : total V p ≤ n * b := by
  have hsum := Finset.sum_le_card_nsmul Finset.univ (fun w => V (p w)) b fun w _ => h w
  simpa [total] using hsum

theorem total_zero {V : π → ℕ} {p : Fin n → π} (h : ∀ w, V (p w) = 0) : total V p = 0 := by
  simp [total, h]

/-- A property of each component is kept by a step that keeps it of the one that moves. -/
theorem forall_update {P : π → Prop} {p : Fin n → π} {w : Fin n} {x : π} (h : ∀ v, P (p v)) (hx : P x) (v : Fin n) :
    P (Function.update p w x v) := by
  by_cases hv : v = w
  · rw [hv, Function.update_self]
    exact hx
  · rw [Function.update_of_ne hv]
    exact h v

end PyFaaS.Fleet
