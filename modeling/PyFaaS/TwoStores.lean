import Mathlib.Data.List.TakeDrop

/-!
# A transaction next to a store that keeps no transactions

A request calls two stores in turn and commits at last. When it fails the calls
on the transactional store are rolled back and those on the other one stay.
-/

namespace PyFaaS.TwoStores
variable {σ β : Type*}

inductive Effect (σ β : Type*) where
  | inner (f : σ → σ)
  | outer (f : β → β)

def Effect.onInner : Effect σ β → σ → σ
  | .inner f, s => f s
  | .outer _, s => s

def Effect.onOuter : Effect σ β → β → β
  | .inner _, b => b
  | .outer f, b => f b

def Effect.isOuter : Effect σ β → Bool
  | .inner _ => false
  | .outer _ => true

def inner (effects : List (Effect σ β)) (s : σ) : σ := effects.foldl (fun s e => e.onInner s) s

def outer (effects : List (Effect σ β)) (b : β) : β := effects.foldl (fun b e => e.onOuter b) b

/-- A request whose first `took` calls take effect, the commit being the call
behind the effects. A call that raises after it was applied counts. -/
def attempt (effects : List (Effect σ β)) (took : ℕ) (s : σ × β) : σ × β :=
  (if effects.length < took then inner effects s.1 else s.1, outer (effects.take took) s.2)

/-- The request commits, or ends before a call on the other store takes effect. -/
def Clean (effects : List (Effect σ β)) (took : ℕ) : Prop :=
  effects.length < took ∨ ∀ e ∈ effects.take took, e.isOuter = false

instance (effects : List (Effect σ β)) (took : ℕ) : Decidable (Clean effects took) :=
  inferInstanceAs (Decidable (_ ∨ _))

variable {effects : List (Effect σ β)} {took : ℕ} {s : σ × β}

theorem inner_append (as bs : List (Effect σ β)) (s : σ) : inner (as ++ bs) s = inner bs (inner as s) :=
  List.foldl_append

theorem outer_append (as bs : List (Effect σ β)) (b : β) : outer (as ++ bs) b = outer bs (outer as b) :=
  List.foldl_append

theorem inner_map_outer (fs : List (β → β)) (s : σ) : inner (fs.map (Effect.outer (σ := σ))) s = s := by
  induction fs with
  | nil => rfl
  | cons f fs ih => exact ih

theorem outer_of_inner (h : ∀ e ∈ effects, e.isOuter = false) (b : β) : outer effects b = b := by
  induction effects with
  | nil => rfl
  | cons e effects ih =>
    cases e with
    | inner f => exact ih fun e he => h e (List.mem_cons_of_mem _ he)
    | outer f => cases h _ List.mem_cons_self

theorem attempt_committed (h : effects.length < took) (s : σ × β) :
    attempt effects took s = (inner effects s.1, outer effects s.2) := by
  rw [attempt, if_pos h, List.take_of_length_le (Nat.le_of_lt h)]

theorem attempt_failed (h : ¬ effects.length < took) (s : σ × β) :
    attempt effects took s = (s.1, outer (effects.take took) s.2) := by
  rw [attempt, if_neg h]

theorem attempt_untouched (h : ¬ effects.length < took) (hinner : ∀ e ∈ effects.take took, e.isOuter = false)
    (s : σ × β) : attempt effects took s = s := by
  rw [attempt_failed h, outer_of_inner hinner]

theorem take_calls (fs : List (σ → σ)) (gs : List (β → β)) (n : ℕ) (b : β) :
    outer ((fs.map Effect.inner ++ gs.map Effect.outer).take n) b =
      outer ((gs.take (n - fs.length)).map (Effect.outer (σ := σ))) b := by
  rw [List.take_append, outer_append, List.length_map, List.map_take]
  congr 1
  apply outer_of_inner
  intro e he
  obtain ⟨f, -, rfl⟩ := List.mem_map.mp (List.mem_of_mem_take he)
  rfl

theorem clean_calls_iff {fs : List (σ → σ)} {gs : List (β → β)} {n : ℕ} :
    Clean (fs.map Effect.inner ++ gs.map Effect.outer) n ↔
      fs.length + gs.length < n ∨ gs.take (n - fs.length) = [] := by
  have hlength : (fs.map Effect.inner ++ gs.map Effect.outer : List (Effect σ β)).length =
      fs.length + gs.length := by simp
  rw [Clean, hlength, List.take_append, List.length_map, ← List.map_take, ← List.map_take]
  apply or_congr_right
  cases gs.take (n - fs.length) with
  | nil =>
    simp only [List.map_nil, List.append_nil, iff_true]
    intro e he
    obtain ⟨f, -, rfl⟩ := List.mem_map.mp he
    rfl
  | cons g gs =>
    simp only [List.map_cons, reduceCtorEq, iff_false]
    intro hinner
    cases hinner (.outer g) (by simp)

end PyFaaS.TwoStores
