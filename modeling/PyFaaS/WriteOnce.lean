import Mathlib.Logic.Function.Basic

/-!
# A store whose keys are written once

A key is taken when it is written and never written again. An entry under a taken key stays
as it is until it is removed, and does not come back.
-/

namespace PyFaaS.WriteOnce
variable {κ β : Type*}

def put [DecidableEq κ] (k : κ) (b : β) (store : κ → Option β) : κ → Option β := Function.update store k (some b)

def remove [DecidableEq κ] (k : κ) (store : κ → Option β) : κ → Option β := Function.update store k none

def Shrinks (taken : κ → Prop) (store store' : κ → Option β) : Prop :=
  ∀ k, taken k → store' k = store k ∨ store' k = none

theorem put_isSome [DecidableEq κ] {store : κ → Option β} {j k : κ} {b : β} (h : (store j).isSome = true) :
    (put k b store j).isSome = true := by
  by_cases hjk : j = k
  · rw [hjk, put, Function.update_self]
    rfl
  · rwa [put, Function.update_of_ne hjk]

theorem remove_of_ne [DecidableEq κ] {store : κ → Option β} {j k : κ} (h : j ≠ k) : remove k store j = store j :=
  Function.update_of_ne h _ _

namespace Shrinks
variable {taken taken' : κ → Prop} {store store' store'' : κ → Option β} {k : κ} {b : β}

theorem refl : Shrinks taken store store := fun _ _ => Or.inl rfl

theorem mono (htaken : ∀ k, taken k → taken' k) (h : Shrinks taken' store store') : Shrinks taken store store' :=
  fun k hk => h k (htaken k hk)

theorem trans (h : Shrinks taken store store') (h' : Shrinks taken store' store'') : Shrinks taken store store'' := by
  intro k hk
  rcases h' k hk with hsame | hgone
  · rw [hsame]
    exact h k hk
  · exact Or.inr hgone

theorem put [DecidableEq κ] (hk : ¬ taken k) : Shrinks taken store (put k b store) := by
  intro j hj
  refine Or.inl (Function.update_of_ne ?_ _ _)
  rintro rfl
  exact hk hj

theorem remove [DecidableEq κ] : Shrinks taken store (remove k store) := by
  intro j _
  by_cases hjk : j = k
  · rw [hjk]
    exact Or.inr (Function.update_self ..)
  · exact Or.inl (remove_of_ne hjk)

theorem read (h : Shrinks taken store store') (hk : taken k) (hb : ∀ c, store k = some c → c = b) {c : β}
    (hc : store' k = some c) : c = b := by
  rcases h k hk with hsame | hgone
  · exact hb c (hsame.symm.trans hc)
  · rw [hgone] at hc
    cases hc

end Shrinks
end PyFaaS.WriteOnce
