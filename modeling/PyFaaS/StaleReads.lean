import Mathlib.Data.List.Chain
import PyFaaS.Runs

/-!
# Transactions that write from a stale read

Transactions share one row. Each reads it and commits later an update computed
from its copy, without a lock and without a version check. `written w loaded row`
is what the commit of a transaction `w` leaves that had read `loaded` and finds
`row`.
-/

namespace PyFaaS.StaleReads
open Runs
variable {τ ω ρ : Type*} [DecidableEq τ]

structure Shared (τ ω ρ : Type*) where
  row : ρ
  earlier : List ρ
  pending : τ → Option (ω × ρ)

namespace Shared

def start (row : ρ) : Shared τ ω ρ := ⟨row, [], fun _ => none⟩

def history (s : Shared τ ω ρ) : List ρ := s.earlier ++ [s.row]

def hold (s : Shared τ ω ρ) (i : τ) (p : Option (ω × ρ)) : Shared τ ω ρ :=
  { s with pending := Function.update s.pending i p }

def record (s : Shared τ ω ρ) (row : ρ) : Shared τ ω ρ :=
  { s with row := row, earlier := s.history }

end Shared

inductive Action (τ ω : Type*) where
  | read (i : τ) (w : ω)
  | commit (i : τ)
  | rollback (i : τ)

section
variable (written : ω → ρ → ρ → ρ)

def step (s : Shared τ ω ρ) : Action τ ω → Option (Shared τ ω ρ)
  | .read i w => if (s.pending i).isNone then some (s.hold i (some (w, s.row))) else none
  | .commit i => (s.pending i).map fun p => (s.record (written p.1 p.2 s.row)).hold i none
  | .rollback i => some (s.hold i none)

end

def Admits (cond : ω → ρ → ρ → Prop) (s : Shared τ ω ρ) : Action τ ω → Prop
  | .commit i => ∀ w loaded, s.pending i = some (w, loaded) → cond w loaded s.row
  | _ => True

variable {written : ω → ρ → ρ → ρ} {s t : Shared τ ω ρ} {a : Action τ ω} {as : List (Action τ ω)}

/-- Every held copy stands in the relation to the row that is committed by now. -/
structure Synced (Behind : ρ → ρ → Prop) (s : Shared τ ω ρ) : Prop where
  row : Behind s.row s.row
  held : ∀ i w loaded, s.pending i = some (w, loaded) → Behind loaded s.row

omit [DecidableEq τ] in
theorem synced_start {Behind : ρ → ρ → Prop} {row : ρ} (h : Behind row row) :
    Synced Behind (Shared.start row : Shared τ ω ρ) :=
  ⟨h, fun _ _ _ hi => by cases hi⟩

theorem step_cases (h : Fires (step written) s a t) :
    (t.history = s.history ∧ t.row = s.row ∧ (∀ cond, Admits cond s a) ∧
      ∀ i p, t.pending i = some p → s.pending i = some p ∨ p.2 = s.row) ∨
    ∃ i w loaded, a = .commit i ∧ s.pending i = some (w, loaded) ∧
      t = (s.record (written w loaded s.row)).hold i none := by
  cases a with
  | read i w =>
    simp only [Fires, step, Option.ite_none_right_eq_some, Option.some.injEq] at h
    obtain ⟨-, rfl⟩ := h
    refine Or.inl ⟨rfl, rfl, fun _ => trivial, fun j p hj => ?_⟩
    by_cases hij : j = i
    · subst j
      obtain rfl : (w, s.row) = p := by simpa [Shared.hold] using hj
      exact Or.inr rfl
    · exact Or.inl (by simpa [Shared.hold, hij] using hj)
  | commit i =>
    obtain ⟨p, hp, rfl⟩ := Option.map_eq_some_iff.mp h
    exact Or.inr ⟨i, p.1, p.2, rfl, hp, rfl⟩
  | rollback i =>
    obtain rfl := Option.some.inj h
    refine Or.inl ⟨rfl, rfl, fun _ => trivial, fun j p hj => Or.inl ?_⟩
    by_cases hij : j = i
    · subst j
      simp [Shared.hold] at hj
    · simpa [Shared.hold, hij] using hj

theorem history_grows (h : Run (Fires (step written)) s as t) : s.history <+: t.history := by
  induction h with
  | nil s => exact List.prefix_refl _
  | cons hstep _ ih =>
    rcases step_cases hstep with ⟨hsame, -⟩ | ⟨i, w, loaded, -, -, rfl⟩
    · exact hsame ▸ ih
    · exact (List.prefix_append _ _).trans ih

omit [DecidableEq τ] in
theorem synced_same {Behind : ρ → ρ → Prop} (hs : Synced Behind s) (hrow : t.row = s.row)
    (hpending : ∀ i p, t.pending i = some p → s.pending i = some p ∨ p.2 = s.row) :
    Synced Behind t := by
  refine ⟨hrow ▸ hs.row, fun i w loaded hi => ?_⟩
  rw [hrow]
  rcases hpending i _ hi with h | h
  · exact hs.held i w loaded h
  · simp only at h
    exact h ▸ hs.row

section
variable {cond : ω → ρ → ρ → Prop} {Q Behind : ρ → ρ → Prop}
  (self : ∀ l r, Behind l r → Behind r r) (kept : ∀ l r r', Behind l r → Q r r' → Behind l r')
  (exact_cond : ∀ w l r, Behind l r → (cond w l r ↔ Q r (written w l r)))
include self kept

theorem synced_commit {i : τ} {row : ρ} (hs : Synced Behind s) (hq : Q s.row row) :
    Synced Behind ((s.record row).hold i none) := by
  refine ⟨self s.row row (kept _ _ _ hs.row hq), fun j w loaded hj => ?_⟩
  by_cases hij : j = i
  · subst j
    simp [Shared.hold] at hj
  · exact kept _ _ _ (hs.held j w loaded (by simpa [Shared.hold, Shared.record, hij] using hj)) hq

include exact_cond in
/-- The history of a run is a chain exactly if every commit of the run meets the
condition. -/
theorem history_isChain_iff (hs : Synced Behind s) (h : Run (Fires (step written)) s as t) :
    t.history.IsChain Q ↔
      s.history.IsChain Q ∧ Run (FiresWhen (Admits cond) (step written)) s as t := by
  induction h with
  | nil s => exact ⟨fun hc => ⟨hc, .nil s⟩, fun hc => hc.1⟩
  | @cons s u t a as hstep hrest ih =>
    rcases step_cases hstep with ⟨hsame, hrow, hadmits, hpending⟩ | ⟨i, w, loaded, rfl, hi, hu⟩
    · rw [ih (synced_same hs hrow hpending), hsame]
      constructor
      · rintro ⟨hc, hrun⟩
        exact ⟨hc, .cons ⟨hadmits cond, hstep⟩ hrun⟩
      · rintro ⟨hc, hrun⟩
        cases hrun with
        | cons hfirst hrun =>
          obtain rfl := Option.some.inj (hstep.symm.trans hfirst.2)
          exact ⟨hc, hrun⟩
    · have hcond := exact_cond w loaded s.row (hs.held i w loaded hi)
      have huhist : u.history = s.earlier ++ s.row :: [written w loaded s.row] := by
        subst u
        simp [Shared.hold, Shared.record, Shared.history]
      constructor
      · intro hc
        have hsplit := List.isChain_split.mp (huhist ▸ hc.prefix (history_grows hrest))
        have hq : Q s.row (written w loaded s.row) := List.isChain_pair.mp hsplit.2
        have hsu : Synced Behind u := hu ▸ synced_commit self kept hs hq
        refine ⟨hsplit.1, .cons ⟨fun w' l' hi' => ?_, hstep⟩ ((ih hsu).mp hc).2⟩
        obtain ⟨rfl, rfl⟩ := Prod.mk.inj (Option.some.inj (hi.symm.trans hi'))
        exact hcond.mpr hq
      · rintro ⟨hc, hrun⟩
        cases hrun with
        | cons hfirst hrun =>
          obtain rfl := Option.some.inj (hstep.symm.trans hfirst.2)
          have hq : Q s.row (written w loaded s.row) := hcond.mp (hfirst.1 w loaded hi)
          have hsu : Synced Behind u := hu ▸ synced_commit self kept hs hq
          refine (ih hsu).mpr ⟨?_, hrun⟩
          rw [huhist]
          exact List.isChain_split.mpr ⟨hc, List.isChain_pair.mpr hq⟩

end
end PyFaaS.StaleReads
