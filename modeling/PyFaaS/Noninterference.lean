import Mathlib.Tactic.SplitIfs
import PyFaaS.Transactions

/-!
# Transactions that keep to one observer's part of the state

A state shows every observer a view of it. A transaction is isolated for the
observer `u` when two runs of it, from states that look the same to `u`, answer
the same and end in states that look the same to `u`, and neither run changes
what any other observer sees. The assertions before and after speak about both
states. A transaction that aborts leaves the state it began with.
-/

namespace PyFaaS.Noninterference
open Transactions

variable {ι σ τ ε α β : Type}

structure Observed (ι σ τ : Type) where
  view : ι → σ → τ
  Inv : σ → Prop

def Observed.Spares (O : Observed ι σ τ) (u : ι) (s s' : σ) : Prop :=
  ∀ v, v ≠ u → O.view v s' = O.view v s

structure Alike (O : Observed ι σ τ) (u : ι) (P : σ → Prop) (s t : σ) : Prop where
  inv_left : O.Inv s
  inv_right : O.Inv t
  view : O.view u s = O.view u t
  left : P s
  right : P t

/-- Both runs abort with one error, or both answer the same in related states. -/
inductive Twin (R : α → σ → σ → Prop) : Except ε (α × σ) → Except ε (α × σ) → Prop where
  | error (e : ε) : Twin R (.error e) (.error e)
  | ok {a : α} {s t : σ} (h : R a s t) : Twin R (.ok (a, s)) (.ok (a, t))

def Isolated (O : Observed ι σ τ) (u : ι) (P : σ → Prop) (m : StateT σ (Except ε) α)
    (Q : α → σ → Prop) : Prop :=
  ∀ s t, Alike O u P s t →
    Twin (fun a s' t' => Alike O u (Q a) s' t' ∧ O.Spares u s s' ∧ O.Spares u t t') (m s) (m t)

/-! ## Rules -/

variable {O : Observed ι σ τ} {u : ι} {P P' : σ → Prop} {Q Q' : α → σ → Prop} {s t : σ}

theorem Observed.Spares.refl (O : Observed ι σ τ) (u : ι) (s : σ) : O.Spares u s s := fun _ _ => rfl

theorem Observed.Spares.trans {s' s'' : σ} (h : O.Spares u s s') (h' : O.Spares u s' s'') :
    O.Spares u s s'' := fun v hv => (h' v hv).trans (h v hv)

theorem Alike.imp (h : Alike O u P s t) (himp : ∀ s, O.Inv s → P s → P' s) : Alike O u P' s t :=
  ⟨h.inv_left, h.inv_right, h.view, himp s h.inv_left h.left, himp t h.inv_right h.right⟩

theorem Twin.cases {R : α → σ → σ → Prop} {x y : Except ε (α × σ)} (h : Twin R x y) :
    (∃ e, x = .error e ∧ y = .error e) ∨ ∃ a s t, x = .ok (a, s) ∧ y = .ok (a, t) ∧ R a s t := by
  cases h with
  | error e => exact Or.inl ⟨e, rfl, rfl⟩
  | @ok a s t h => exact Or.inr ⟨a, s, t, rfl, rfl, h⟩

namespace Isolated

theorem pure (a : α) : Isolated (ε := ε) O u (Q a) (pure a) Q :=
  fun s t h => .ok ⟨h, .refl O u s, .refl O u t⟩

theorem abort (e : ε) : Isolated O u P (Transactions.abort e) Q := fun _ _ _ => .error e

theorem bind {m : StateT σ (Except ε) α} {k : α → StateT σ (Except ε) β} {R : β → σ → Prop}
    (hm : Isolated O u P m Q) (hk : ∀ a, Isolated O u (Q a) (k a) R) : Isolated O u P (m >>= k) R := by
  intro s t h
  have hrun : ∀ s, (m >>= k) s = (m s).bind fun p => k p.1 p.2 := fun _ => rfl
  rw [hrun, hrun]
  rcases (hm s t h).cases with ⟨e, hs, ht⟩ | ⟨a, s', t', hs, ht, hmid, hspares, hspares'⟩
  · rw [hs, ht]
    exact .error e
  · rw [hs, ht]
    change Twin _ (k a s') (k a t')
    rcases (hk a s' t' hmid).cases with ⟨e, hs, ht⟩ | ⟨b, s'', t'', hs, ht, hend, hrest, hrest'⟩
    · rw [hs, ht]
      exact .error e
    · rw [hs, ht]
      exact .ok ⟨hend, hspares.trans hrest, hspares'.trans hrest'⟩

theorem imp {m : StateT σ (Except ε) α} (h : Isolated O u P m Q)
    (hpre : ∀ s, O.Inv s → P' s → P s) (hpost : ∀ a s, O.Inv s → Q a s → Q' a s) :
    Isolated O u P' m Q' := by
  intro s t hst
  rcases (h s t (hst.imp hpre)).cases with ⟨e, hs, ht⟩ | ⟨a, s', t', hs, ht, hend, hspares⟩
  · rw [hs, ht]
    exact .error e
  · rw [hs, ht]
    exact .ok ⟨hend.imp (hpost a), hspares⟩

theorem pre {m : StateT σ (Except ε) α} (h : Isolated O u P m Q)
    (hpre : ∀ s, O.Inv s → P' s → P s) : Isolated O u P' m Q :=
  h.imp hpre fun _ _ _ hq => hq

theorem post {m : StateT σ (Except ε) α} (h : Isolated O u P m Q)
    (hpost : ∀ a s, O.Inv s → Q a s → Q' a s) : Isolated O u P m Q' :=
  h.imp (fun _ _ hp => hp) hpost

/-- A query is isolated when the view determines its answer. -/
theorem query {f : σ → α} (g : τ → α) (h : ∀ s, O.Inv s → P s → f s = g (O.view u s)) :
    Isolated (ε := ε) O u P (Transactions.query f) fun a s => P s ∧ a = f s := by
  intro s t hst
  have hs := h s hst.inv_left hst.left
  have ht := h t hst.inv_right hst.right
  have hst' : f t = f s := by rw [hs, ht, hst.view]
  unfold Transactions.query
  rw [hst']
  exact .ok ⟨⟨hst.inv_left, hst.inv_right, hst.view, ⟨hst.left, rfl⟩, ⟨hst.right, hst'.symm⟩⟩,
    .refl O u s, .refl O u t⟩

/-- A statement is isolated when the view determines the view behind it and no
other view changes. -/
theorem write {f : σ → σ} {R : σ → Prop} (g : τ → τ)
    (h : ∀ s, O.Inv s → P s → O.Inv (f s) ∧ R (f s) ∧ O.view u (f s) = g (O.view u s) ∧ O.Spares u s (f s)) :
    Isolated (ε := ε) O u P (Transactions.write f) fun _ => R := by
  intro s t hst
  obtain ⟨hinv, hr, hview, hspares⟩ := h s hst.inv_left hst.left
  obtain ⟨hinv', hr', hview', hspares'⟩ := h t hst.inv_right hst.right
  exact .ok ⟨⟨hinv, hinv', by rw [hview, hview', hst.view], hr, hr'⟩, hspares, hspares'⟩

theorem require (c : Bool) (e : ε) :
    Isolated O u P (Transactions.require c e) fun _ s => P s ∧ c = true := by
  cases c with
  | false => exact abort e
  | true => exact (pure ()).pre fun _ _ hp => ⟨hp, rfl⟩

theorem found (row : Option α) (e : ε) :
    Isolated O u P (Transactions.found row e) fun a s => P s ∧ row = some a := by
  cases row with
  | none => exact abort e
  | some a => exact (pure a).pre fun _ _ hp => ⟨hp, rfl⟩

theorem ite {c : Prop} [Decidable c] {m k : StateT σ (Except ε) α} (hm : c → Isolated O u P m Q)
    (hk : ¬ c → Isolated O u P k Q) : Isolated O u P (if c then m else k) Q := by
  split_ifs with hc
  · exact hm hc
  · exact hk hc

/-- What the assertion before says about no state may be assumed. -/
theorem given {m : StateT σ (Except ε) α} {c : Prop} (hc : ∀ s, P s → c) (h : c → Isolated O u P m Q) :
    Isolated O u P m Q :=
  fun s t hst => h (hc s hst.left) s t hst

theorem transact {m : StateT σ (Except ε) α} (h : Isolated O u P m Q) (hst : Alike O u P s t) :
    (transact m s).1 = (transact m t).1 ∧
      O.view u (Transactions.transact m s).2 = O.view u (Transactions.transact m t).2 ∧
      O.Spares u s (Transactions.transact m s).2 := by
  unfold Transactions.transact
  rcases (h s t hst).cases with ⟨e, hs, ht⟩ | ⟨a, s', t', hs, ht, hend, hspares, -⟩
  · rw [hs, ht]
    exact ⟨rfl, hst.view, .refl O u s⟩
  · rw [hs, ht]
    exact ⟨rfl, hend.view, hspares⟩

theorem transact_inv {m : StateT σ (Except ε) α} (h : Isolated O u P m Q) (hs : O.Inv s) (hp : P s) :
    O.Inv (Transactions.transact m s).2 := by
  unfold Transactions.transact
  rcases (h s s ⟨hs, hs, rfl, hp, hp⟩).cases with ⟨e, hrun, -⟩ | ⟨a, s', t', hrun, -, hend, -⟩
  · rw [hrun]
    exact hs
  · rw [hrun]
    exact hend.inv_left

end Isolated
end PyFaaS.Noninterference
