import Mathlib.Algebra.BigOperators.Group.List.Basic
import Mathlib.Algebra.GroupWithZero.Nat
import Mathlib.Logic.Relation
import Mathlib.Data.List.Chain
import Mathlib.Tactic.SplitIfs

/-!
# Finite runs of a labelled step relation

A run lists the labels it takes. Invariants and preserved relations are proved
once per step and carried to whole runs here. An executable partial step
function gives a run by `execute`, so concrete runs are checked by evaluation.
-/

namespace PyFaaS.Runs
variable {σ α : Type*}

inductive Run (R : σ → α → σ → Prop) : σ → List α → σ → Prop
  | nil (s : σ) : Run R s [] s
  | cons {s t u : σ} {a : α} {as : List α} : R s a t → Run R t as u → Run R s (a :: as) u

namespace Run
variable {R S : σ → α → σ → Prop} {s t u : σ} {a : α} {as bs : List α}

theorem single (h : R s a t) : Run R s [a] t := .cons h (.nil t)

theorem append (h : Run R s as t) (h' : Run R t bs u) : Run R s (as ++ bs) u := by
  induction h with
  | nil s => exact h'
  | cons hstep _ ih => exact .cons hstep (ih h')

theorem mono (hRS : ∀ s a t, R s a t → S s a t) (h : Run R s as t) : Run S s as t := by
  induction h with
  | nil s => exact .nil s
  | cons hstep _ ih => exact .cons (hRS _ _ _ hstep) ih

theorem invariant {I : σ → Prop} (closed : ∀ s a t, I s → R s a t → I t)
    (h : Run R s as t) (hs : I s) : I t := by
  induction h with
  | nil s => exact hs
  | cons hstep _ ih => exact ih (closed _ _ _ hs hstep)

/-- A reflexive and transitive comparison of states that every step keeps is
kept by every run whose states satisfy a closed invariant. -/
theorem compare {I : σ → Prop} {C : σ → σ → Prop} (refl : ∀ s, C s s)
    (trans : ∀ s t u, C s t → C t u → C s u)
    (closed : ∀ s a t, I s → R s a t → I t) (kept : ∀ s a t, I s → R s a t → C s t)
    (h : Run R s as t) (hs : I s) : C s t := by
  induction h with
  | nil s => exact refl s
  | cons hstep _ ih =>
    exact trans _ _ _ (kept _ _ _ hs hstep) (ih (closed _ _ _ hs hstep))

/-- What the labels cost is paid out of the potential. -/
theorem cost_le {I : σ → Prop} {cost : α → ℕ} {V : σ → ℕ} (closed : ∀ s a t, I s → R s a t → I t)
    (paid : ∀ s a t, I s → R s a t → cost a + V t ≤ V s) (h : Run R s as t) (hs : I s) :
    (as.map cost).sum + V t ≤ V s := by
  induction h with
  | nil s => simp
  | cons hstep _ ih =>
    have hfirst := paid _ _ _ hs hstep
    have hrest := ih (closed _ _ _ hs hstep)
    rw [List.map_cons, List.sum_cons]
    omega

theorem gain_le {cost : α → ℕ} {V : σ → ℕ} (step : ∀ s a t, R s a t → V t ≤ V s + cost a) (h : Run R s as t) :
    V t ≤ V s + (as.map cost).sum := by
  induction h with
  | nil s => simp
  | cons hstep _ ih =>
    have hfirst := step _ _ _ hstep
    rw [List.map_cons, List.sum_cons]
    omega

end Run

def Reachable (R : σ → α → σ → Prop) (init : σ → Prop) (s : σ) : Prop :=
  ∃ s₀ as, init s₀ ∧ Run R s₀ as s

namespace Reachable
variable {R S : σ → α → σ → Prop} {init : σ → Prop} {s t : σ} {as : List α}

theorem start (h : init s) : Reachable R init s := ⟨s, [], h, .nil s⟩

theorem mono (hRS : ∀ s a t, R s a t → S s a t) (h : Reachable R init s) :
    Reachable S init s := by
  obtain ⟨s₀, bs, h₀, hrun⟩ := h
  exact ⟨s₀, bs, h₀, hrun.mono hRS⟩

theorem step {a : α} (h : Reachable R init s) (hstep : R s a t) : Reachable R init t := by
  obtain ⟨s₀, bs, h₀, hrun⟩ := h
  exact ⟨s₀, bs ++ [a], h₀, hrun.append (.single hstep)⟩

theorem invariant {I : σ → Prop} (base : ∀ s, init s → I s)
    (closed : ∀ s a t, I s → R s a t → I t) (h : Reachable R init s) : I s := by
  obtain ⟨s₀, bs, h₀, hrun⟩ := h
  exact hrun.invariant closed (base s₀ h₀)

end Reachable

/-! ## Deterministic steps -/

section
variable {next : σ → α → σ} {I J : σ → Prop} {C H : σ → α → Prop} {s : σ}

def Along (next : σ → α → σ) (C : σ → α → Prop) : σ → List α → Prop
  | _, [] => True
  | s, a :: as => C s a ∧ Along next C (next s a) as

def Throughout (next : σ → α → σ) (I : σ → Prop) : σ → List α → Prop
  | s, [] => I s
  | s, a :: as => I s ∧ Throughout next I (next s a) as

instance Along.decidable [∀ s a, Decidable (C s a)] : ∀ s as, Decidable (Along next C s as)
  | _, [] => .isTrue trivial
  | s, a :: as => @instDecidableAnd _ _ _ (Along.decidable (next s a) as)

theorem Throughout.head {as : List α} (h : Throughout next I s as) : I s := by
  cases as with
  | nil => exact h
  | cons a as => exact h.1

theorem Throughout.imp (hIJ : ∀ s, I s → J s) {as : List α} (h : Throughout next I s as) :
    Throughout next J s as := by
  induction as generalizing s with
  | nil => exact hIJ s h
  | cons a as ih => exact ⟨hIJ s h.1, ih h.2⟩

/-- A step keeps the property exactly when it meets the condition. -/
theorem throughout_iff (closed : ∀ s a, J s → H s a → J (next s a))
    (step : ∀ s a, J s → H s a → I s → (I (next s a) ↔ C s a)) {as : List α}
    (hH : Along next H s as) (hJ : J s) (hI : I s) : Throughout next I s as ↔ Along next C s as := by
  induction as generalizing s with
  | nil => exact ⟨fun _ => trivial, fun _ => hI⟩
  | cons a as ih =>
    obtain ⟨hHs, hH⟩ := hH
    have hstep := step s a hJ hHs hI
    have hrest := ih hH (closed s a hJ hHs)
    constructor
    · rintro ⟨-, hkept⟩
      have hnext := hkept.head
      exact ⟨hstep.mp hnext, (hrest hnext).mp hkept⟩
    · rintro ⟨hc, hmet⟩
      have hnext := hstep.mpr hc
      exact ⟨hI, (hrest hnext).mpr hmet⟩

theorem throughout_of_step (step : ∀ s a, H s a → I s → I (next s a)) {as : List α}
    (hH : Along next H s as) (hI : I s) : Throughout next I s as := by
  induction as generalizing s with
  | nil => exact hI
  | cons a as ih => exact ⟨hI, ih hH.2 (step s a hH.1 hI)⟩

theorem Along.nil : Along next C s [] := trivial

theorem Along.cons {a : α} {as : List α} (h : C s a) (hrest : Along next C (next s a) as) :
    Along next C s (a :: as) := ⟨h, hrest⟩

theorem Along.of_true (as : List α) : Along next (fun _ _ => True) s as := by
  induction as generalizing s with
  | nil => trivial
  | cons a as ih => exact ⟨trivial, ih⟩

theorem Along.and {D : σ → α → Prop} {as : List α} (hC : Along next C s as) (hD : Along next D s as) :
    Along next (fun s a => C s a ∧ D s a) s as := by
  induction as generalizing s with
  | nil => trivial
  | cons a as ih => exact ⟨⟨hC.1, hD.1⟩, ih hC.2 hD.2⟩

/-- A condition that an invariant guarantees is met all along. -/
theorem along_of_invariant {D : σ → α → Prop} (closed : ∀ s a, J s → H s a → J (next s a))
    (step : ∀ s a, J s → H s a → D s a) {as : List α} (hH : Along next H s as) (hJ : J s) :
    Along next D s as := by
  induction as generalizing s with
  | nil => trivial
  | cons a as ih => exact ⟨step s a hJ hH.1, ih hH.2 (closed s a hJ hH.1)⟩

theorem along_iff {D : σ → α → Prop} (closed : ∀ s a, J s → H s a → J (next s a))
    (step : ∀ s a, J s → H s a → (C s a ↔ D s a)) {as : List α} (hH : Along next H s as) (hJ : J s) :
    Along next C s as ↔ Along next D s as := by
  induction as generalizing s with
  | nil => exact Iff.rfl
  | cons a as ih => exact and_congr (step s a hJ hH.1) (ih hH.2 (closed s a hJ hH.1))

end

/-! ## Paths -/

section
variable {R : σ → α → σ → Prop} {s t : σ}

def reached (_ : σ) (p : α × σ) : σ := p.2

def Path (R : σ → α → σ → Prop) : σ → List (α × σ) → Prop := Along reached fun s p => R s p.1 p.2

theorem Path.nil : Path R s [] := trivial

theorem Path.cons {a : α} {path : List (α × σ)} (h : R s a t) (hpath : Path R t path) :
    Path R s ((a, t) :: path) := ⟨h, hpath⟩

end

/-! ## Executable steps -/

def Fires (step : σ → α → Option σ) (s : σ) (a : α) (t : σ) : Prop := step s a = some t

def FiresWhen (cond : σ → α → Prop) (step : σ → α → Option σ) (s : σ) (a : α) (t : σ) : Prop :=
  cond s a ∧ step s a = some t

theorem FiresWhen.fires {cond : σ → α → Prop} {step : σ → α → Option σ} (s : σ) (a : α) (t : σ)
    (h : FiresWhen cond step s a t) : Fires step s a t := h.2

def execute (step : σ → α → Option σ) : σ → List α → Option σ
  | s, [] => some s
  | s, a :: as => (step s a).bind fun t => execute step t as

theorem run_of_execute {step : σ → α → Option σ} {s t : σ} {as : List α}
    (h : execute step s as = some t) : Run (Fires step) s as t := by
  induction as generalizing s with
  | nil =>
    cases h
    exact .nil _
  | cons a as ih =>
    obtain ⟨u, hu, hrest⟩ := Option.bind_eq_some_iff.mp h
    exact .cons hu (ih hrest)

theorem run_of_execute_when {cond : σ → α → Prop} [∀ s a, Decidable (cond s a)] {step : σ → α → Option σ} {s t : σ}
    {as : List α} (h : execute (fun s a => if cond s a then step s a else none) s as = some t) :
    Run (FiresWhen cond step) s as t := by
  refine (run_of_execute h).mono fun s a t hfires => ?_
  change (if cond s a then step s a else none) = some t at hfires
  split_ifs at hfires with hcond
  exact ⟨hcond, hfires⟩

end PyFaaS.Runs
