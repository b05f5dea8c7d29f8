import Mathlib.Data.List.Basic

/-!
# Bounded retries

A body that answers or raises is run again as long as it raises and an attempt is
left. Each attempt comes with what goes wrong in it, and the last error is raised.
-/

namespace PyFaaS.Retry
variable {σ φ ε ρ : Type*} {body : φ → σ → Except ε ρ × σ}

def retry (body : φ → σ → Except ε ρ × σ) : φ → List φ → σ → Except ε ρ × σ
  | f, [], s => body f s
  | f, f' :: rest, s =>
    match body f s with
    | (.ok r, t) => (.ok r, t)
    | (.error _, t) => retry body f' rest t

theorem retry_ok {f : φ} {later : List φ} {s t : σ} {r : ρ} (h : body f s = (.ok r, t)) :
    retry body f later s = (.ok r, t) := by
  cases later with
  | nil => exact h
  | cons f' later => rw [retry, h]

theorem retry_error {f f' : φ} {rest : List φ} {s t : σ} {e : ε} (h : body f s = (.error e, t)) :
    retry body f (f' :: rest) s = retry body f' rest t := by
  rw [retry, h]

theorem retry_invariant {I : σ → Prop} (step : ∀ f s, I s → I (body f s).2) {f : φ} {rest : List φ} {s : σ}
    (h : I s) : I (retry body f rest s).2 := by
  induction rest generalizing f s with
  | nil => exact step f s h
  | cons f' rest ih =>
    have hnext := step f s h
    cases hrun : body f s with
    | mk r t =>
      rw [hrun] at hnext
      cases r with
      | ok r =>
        rw [retry_ok hrun]
        exact hnext
      | error e =>
        rw [retry_error hrun]
        exact ih hnext

/-! ## Bodies that may not end -/

def retryWithin (body : φ → σ → Option (Except ε ρ × σ)) : φ → List φ → σ → Option (Except ε ρ × σ)
  | f, [], s => body f s
  | f, f' :: rest, s =>
    match body f s with
    | none => none
    | some (.ok r, t) => some (.ok r, t)
    | some (.error _, t) => retryWithin body f' rest t

/-- Where an attempt that raises leaves the state as it is, the call is one of its
attempts, and one that answers if there is any. -/
theorem retryWithin_mem {body : φ → σ → Option (Except ε ρ × σ)} {f : φ} {rest : List φ} {s : σ}
    (hends : ∀ a ∈ f :: rest, (body a s).isSome = true)
    (hkept : ∀ a ∈ f :: rest, ∀ e t, body a s = some (.error e, t) → t = s) :
    ∃ a ∈ f :: rest, retryWithin body f rest s = body a s ∧
      ∀ a' ∈ f :: rest, ∀ r t, body a' s = some (.ok r, t) → ∃ r' t', body a s = some (.ok r', t') := by
  induction rest generalizing f with
  | nil => exact ⟨f, by simp, rfl, fun a' ha' r t h => ⟨r, t, List.mem_singleton.mp ha' ▸ h⟩⟩
  | cons f' rest ih =>
    obtain ⟨out, hout⟩ := Option.isSome_iff_exists.mp (hends f (by simp))
    obtain ⟨result, t⟩ := out
    cases result with
    | ok r => exact ⟨f, by simp, by rw [retryWithin, hout], fun a' _ r' t' _ => ⟨r, t, hout⟩⟩
    | error e =>
      obtain rfl : t = s := hkept f (by simp) e t hout
      obtain ⟨a, ha, hrun, hbest⟩ := ih (f := f') (fun a ha => hends a (by simp [ha]))
        fun a ha => hkept a (by simp [ha])
      refine ⟨a, List.mem_cons_of_mem _ ha, by rw [retryWithin, hout]; exact hrun, fun a' ha' r t' h => ?_⟩
      cases List.mem_cons.mp ha' with
      | inl hfirst =>
        rw [hfirst, hout] at h
        cases h
      | inr hlater => exact hbest a' hlater r t' h

end PyFaaS.Retry
