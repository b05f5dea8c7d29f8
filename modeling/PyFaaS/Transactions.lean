import Mathlib.Tactic.SplitIfs

/-!
# Transactions

The statements of a transaction that reads a state, writes it and may abort, and
what a transaction that has answered did on its way.
-/

namespace PyFaaS.Transactions
variable {σ ε α β : Type}

def query (f : σ → α) : StateT σ (Except ε) α := fun s => .ok (f s, s)

def write (f : σ → σ) : StateT σ (Except ε) Unit := fun s => .ok ((), f s)

def abort (e : ε) : StateT σ (Except ε) α := fun _ => .error e

def require (c : Bool) (e : ε) : StateT σ (Except ε) Unit := if c then pure () else abort e

def found (row : Option α) (e : ε) : StateT σ (Except ε) α :=
  match row with
  | some a => pure a
  | none => abort e

def transact (m : StateT σ (Except ε) α) (s : σ) : Except ε α × σ :=
  match m s with
  | .ok (a, s') => (.ok a, s')
  | .error e => (.error e, s)

/-! ## Runs -/

section
variable (k : α → StateT σ (Except ε) β) (s : σ) (e : ε)

theorem query_bind (f : σ → α) : (query f >>= k) s = k (f s) s := rfl

theorem found_some_bind (a : α) : (found (some a) e >>= k) s = k a s := rfl

theorem found_none_bind : (found none e >>= k) s = .error e := rfl

theorem write_bind (f : σ → σ) (k : Unit → StateT σ (Except ε) β) : (write f >>= k) s = k () (f s) := rfl

end

variable {k : α → StateT σ (Except ε) β} {m : StateT σ (Except ε) α} {s : σ} {e : ε} {r : β × σ}

theorem bind_ok : (m >>= k) s = .ok r ↔ ∃ a t, m s = .ok (a, t) ∧ k a t = .ok r := by
  change (m s).bind (fun p => k p.1 p.2) = .ok r ↔ _
  cases hm : m s with
  | error e => simp [Except.bind]
  | ok p =>
    constructor
    · intro h
      exact ⟨p.1, p.2, rfl, h⟩
    · rintro ⟨a, t, hp, h⟩
      cases hp
      exact h

theorem bind_run {a : α} {t : σ} (h : m s = .ok (a, t)) : (m >>= k) s = k a t := by
  change (m s).bind (fun p => k p.1 p.2) = _
  rw [h]
  rfl

theorem bind_error (h : m s = .error e) : (m >>= k) s = .error e := by
  change (m s).bind (fun p => k p.1 p.2) = _
  rw [h]
  rfl

theorem return_ok {b : β} : (pure b : StateT σ (Except ε) β) s = .ok r ↔ r = (b, s) := by
  change Except.ok (b, s) = .ok r ↔ _
  rw [Except.ok.injEq, eq_comm]

theorem abort_ok : (abort e : StateT σ (Except ε) β) s = .ok r ↔ False := by
  simp [abort]

theorem require_bind_ok {c : Bool} {k : Unit → StateT σ (Except ε) β} :
    (require c e >>= k) s = .ok r ↔ c = true ∧ k () s = .ok r := by
  cases c with
  | false => exact ⟨nofun, nofun⟩
  | true => exact ⟨fun h => ⟨rfl, h⟩, fun h => h.2⟩

theorem found_bind_ok {row : Option α} : (found row e >>= k) s = .ok r ↔ ∃ a, row = some a ∧ k a s = .ok r := by
  cases row with
  | none => simp [found_none_bind]
  | some a => simp [found_some_bind]

theorem found_ok {row : Option α} {p : α × σ} : (found row e) s = .ok p ↔ ∃ a, row = some a ∧ p = (a, s) := by
  cases row with
  | none => simp [found, abort]
  | some a =>
    simp only [found, Option.some.injEq, exists_eq_left']
    exact return_ok

theorem transact_ok {p : α × σ} (h : m s = .ok p) : transact m s = (.ok p.1, p.2) := by
  simp [transact, h]

theorem transact_answers {a : α} {t : σ} (h : transact m s = (.ok a, t)) : m s = .ok (a, t) := by
  unfold transact at h
  cases hm : m s with
  | error e => simp [hm] at h
  | ok p =>
    rw [hm] at h
    obtain ⟨ha, ht⟩ := Prod.mk.inj h
    rw [← ht, ← Except.ok.inj ha]

theorem transact_error (h : m s = .error e) : transact m s = (.error e, s) := by
  simp [transact, h]

/-! ## What a transaction keeps -/

def Keeps {γ : Type*} (f : σ → γ) (m : StateT σ (Except ε) α) : Prop := ∀ s a t, m s = .ok (a, t) → f t = f s

namespace Keeps
variable {γ : Type*} {f : σ → γ}

theorem bind (h : Keeps f m) (hk : ∀ a, Keeps f (k a)) : Keeps f (m >>= k) := by
  intro s b u hrun
  obtain ⟨a, t, hm, hrest⟩ := bind_ok.mp hrun
  rw [hk a t b u hrest, h s a t hm]

theorem query (q : σ → α) : Keeps f (query q : StateT σ (Except ε) α) := by
  intro s a t hrun
  obtain ⟨-, rfl⟩ := Prod.mk.inj (Except.ok.inj hrun)
  rfl

theorem write {w : σ → σ} (h : ∀ s, f (w s) = f s) : Keeps f (write w : StateT σ (Except ε) Unit) := by
  intro s a t hrun
  obtain ⟨-, rfl⟩ := Prod.mk.inj (Except.ok.inj hrun)
  exact h s

theorem pure (a : α) : Keeps f (Pure.pure a : StateT σ (Except ε) α) := by
  intro s b t hrun
  obtain ⟨-, rfl⟩ := Prod.mk.inj (return_ok.mp hrun)
  rfl

theorem abort (e : ε) : Keeps f (abort e : StateT σ (Except ε) α) := by
  intro s a t hrun
  cases hrun

theorem require (c : Bool) (e : ε) : Keeps f (require c e : StateT σ (Except ε) Unit) := by
  cases c with
  | false => exact abort e
  | true => exact pure ()

theorem found (row : Option α) (e : ε) : Keeps f (found row e) := by
  cases row with
  | none => exact abort e
  | some a => exact pure a

theorem transact (h : Keeps f m) (s : σ) : f (transact m s).2 = f s := by
  cases hm : m s with
  | error e => rw [transact_error hm]
  | ok p =>
    rw [transact_ok hm]
    exact h s p.1 p.2 hm

end Keeps

/-! ## What a transaction raises -/

def Raises (P : ε → Prop) (m : StateT σ (Except ε) α) : Prop := ∀ s e, m s = .error e → P e

namespace Raises
variable {P : ε → Prop}

theorem bind (h : Raises P m) (hk : ∀ a, Raises P (k a)) : Raises P (m >>= k) := by
  intro s e hrun
  cases hm : m s with
  | error e' =>
    rw [bind_error hm] at hrun
    cases hrun
    exact h s e hm
  | ok p =>
    rw [bind_run hm] at hrun
    exact hk p.1 p.2 e hrun

theorem query (q : σ → α) : Raises P (query q : StateT σ (Except ε) α) := by
  intro s e hrun
  cases hrun

theorem write (w : σ → σ) : Raises P (write w : StateT σ (Except ε) Unit) := by
  intro s e hrun
  cases hrun

theorem pure (a : α) : Raises P (Pure.pure a : StateT σ (Except ε) α) := by
  intro s e hrun
  cases hrun

theorem abort (h : P e) : Raises P (abort e : StateT σ (Except ε) α) := by
  intro s e' hrun
  cases hrun
  exact h

theorem require {c : Bool} (h : c = false → P e) : Raises P (require c e : StateT σ (Except ε) Unit) := by
  cases c with
  | false => exact abort (h rfl)
  | true => exact pure ()

theorem found (row : Option α) (h : P e) : Raises P (found row e : StateT σ (Except ε) α) := by
  cases row with
  | none => exact abort h
  | some a => exact pure a

end Raises

end PyFaaS.Transactions
