import Mathlib.Logic.Basic

/-!
# A lock kept in one expiring key

The key holds the token of the client that set it. It is set only where it is
absent, and the release script deletes it only for the token it holds. Expiry
empties the key at any time.
-/

namespace PyFaaS.DistributedLock
variable {τ : Type*} [DecidableEq τ]

/-- The key behind `SET NX`, and whether the client has set it. -/
def setNx (key : Option τ) (token : τ) : Option τ × Bool :=
  match key with
  | none => (some token, true)
  | some holder => (some holder, false)

def releaseScript (key : Option τ) (token : τ) : Option τ :=
  if key = some token then none else key

omit [DecidableEq τ] in
theorem setNx_acquired {key : Option τ} {token : τ} (h : (setNx key token).2 = true) :
    key = none ∧ (setNx key token).1 = some token := by
  cases key with
  | none => exact ⟨rfl, rfl⟩
  | some holder => cases h

omit [DecidableEq τ] in
theorem setNx_holder {key : Option τ} {token holder : τ} (h : key = some holder) :
    (setNx key token).1 = some holder := by
  subst h
  rfl

theorem releaseScript_other {key : Option τ} {token holder : τ} (h : key = some holder)
    (hne : holder ≠ token) : releaseScript key token = some holder := by
  subst h
  simp [releaseScript, hne]

end PyFaaS.DistributedLock
