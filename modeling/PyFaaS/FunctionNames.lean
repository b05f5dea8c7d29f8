import Mathlib.Data.Char
import PyFaaS.Backtracking
import PyFaaS.TextLines

/-!
# Names of functions

The name of a `FunctionCreateRequest` in `api/schemas/schemas.py`: the lengths of its
`Field`, then `validate_name` with `FUNCTION_NAME_RE`. The `$` of a pattern also holds in
front of a newline at the end.
-/

namespace PyFaaS.FunctionNames
open Backtracking

def isLetter (c : Char) : Bool :=
  decide ('a' ≤ c) && decide (c ≤ 'z') || decide ('A' ≤ c) && decide (c ≤ 'Z')

def isNameChar (c : Char) : Bool :=
  isLetter c || decide ('0' ≤ c) && decide (c ≤ '9') || decide (c = '_') || decide (c = '-')

def caret : Pattern Char := .look fun i _ => decide (i = 0)

def atEnd : Text → Bool
  | [] => true
  | [c] => decide (c = '\n')
  | _ => false

def dollar : Pattern Char := .look fun _ rest => atEnd rest

def functionNameRe : Pattern Char :=
  .seq caret (.seq (.one isLetter) (.seq (.upTo 127 (.one isNameChar)) dollar))

inductive NameError where
  | stringTooShort (minLength : ℕ)
  | stringTooLong (maxLength : ℕ)
  | valueError (message : Text)
  deriving DecidableEq

def validateName (v : Text) : Except NameError Text :=
  if (functionNameRe.matchStart v).isNone then
    .error (.valueError ("Function name must start with a letter and contain only " ++
      "letters, numbers, hyphens, and underscores").toList)
  else .ok v

/-- `Field(..., min_length=1, max_length=128)` and, behind it, the validator. -/
def nameField (v : Text) : Except NameError Text :=
  if v.length < 1 then .error (.stringTooShort 1)
  else if 128 < v.length then .error (.stringTooLong 128)
  else validateName v

structure Grammatical (s : Text) : Prop where
  nonempty : s ≠ []
  length_le : s.length ≤ 128
  starts : ∀ c ∈ s.head?, c.isAlpha = true
  consists : ∀ c ∈ s, c.isAlphanum = true ∨ c = '-' ∨ c = '_'

variable {s t x rest : Text} {c : Char}

theorem isLetter_eq (c : Char) : isLetter c = c.isAlpha := by
  have hlower : c.isLower = (decide ('a' ≤ c) && decide (c ≤ 'z')) := rfl
  have hupper : c.isUpper = (decide ('A' ≤ c) && decide (c ≤ 'Z')) := Bool.decide_and _ _
  rw [isLetter, ← hlower, ← hupper]
  exact Bool.or_comm _ _

theorem isNameChar_iff : isNameChar c = true ↔ c.isAlphanum = true ∨ c = '-' ∨ c = '_' := by
  have hdigit : (decide ('0' ≤ c) && decide (c ≤ '9')) = c.isDigit := rfl
  simp only [isNameChar, hdigit, isLetter_eq, Char.isAlphanum, Bool.or_eq_true, decide_eq_true_eq]
  tauto

theorem atEnd_iff : atEnd rest = true ↔ rest = [] ∨ rest = ['\n'] := by
  match rest with
  | [] => simp [atEnd]
  | [c] => simp [atEnd]
  | _ :: _ :: _ => simp [atEnd]

theorem grammatical_cons_iff : Grammatical (c :: x) ↔
    isLetter c = true ∧ (∀ d ∈ x, isNameChar d = true) ∧ x.length ≤ 127 := by
  simp only [isNameChar_iff, isLetter_eq]
  constructor
  · intro h
    have hlength := h.length_le
    rw [List.length_cons] at hlength
    exact ⟨h.starts c rfl, fun d hd => h.consists d (List.mem_cons_of_mem c hd), by omega⟩
  · intro h
    obtain ⟨hc, hx, hlength⟩ := h
    refine ⟨List.cons_ne_nil c x, ?_, by simpa using hc, List.forall_mem_cons.mpr ⟨.inl ?_, hx⟩⟩
    · rw [List.length_cons]
      omega
    · simp [Char.isAlphanum, hc]

theorem functionNameRe_isSome : (functionNameRe.matchStart s).isSome = true ↔
    ∃ t rest, s = t ++ rest ∧ Grammatical t ∧ (rest = [] ∨ rest = ['\n']) := by
  simp only [Pattern.matchStart_isSome, functionNameRe, caret, dollar, Pattern.matches_seq_iff,
    Pattern.matches_look_iff, Pattern.matches_one_iff, Pattern.matches_upTo_one_iff, atEnd_iff]
  constructor
  · intro h
    obtain ⟨_, _, _, _, ⟨-, rfl, rfl⟩, _, _, ⟨c, hc, rfl, rfl⟩, _, _, ⟨x, hx, hlength, rfl, rfl⟩, hend, rfl, rfl⟩ := h
    exact ⟨c :: x, _, rfl, grammatical_cons_iff.mpr ⟨hc, hx, hlength⟩, hend⟩
  · intro h
    obtain ⟨t, rest, rfl, ht, hend⟩ := h
    cases t with
    | nil => exact absurd rfl ht.nonempty
    | cons c x =>
      obtain ⟨hc, hx, hlength⟩ := grammatical_cons_iff.mp ht
      exact ⟨_, _, _, _, ⟨by simp, rfl, rfl⟩, _, _, ⟨c, hc, rfl, rfl⟩, _, _, ⟨x, hx, hlength, rfl, rfl⟩, hend, rfl, rfl⟩

theorem nameField_ok_iff : nameField s = .ok s ↔
    1 ≤ s.length ∧ s.length ≤ 128 ∧ (functionNameRe.matchStart s).isSome = true := by
  unfold nameField validateName
  split_ifs with hshort hlong hmatch
  · simp only [false_iff]
    omega
  · simp only [false_iff]
    omega
  · simp [Option.isNone_iff_eq_none.mp hmatch]
  · simp only [true_iff]
    exact ⟨by omega, by omega, by simpa [← Option.isSome_iff_ne_none] using hmatch⟩

def NewlineBehind (s : Text) : Prop := ∃ t, s = t ++ ['\n'] ∧ Grammatical t ∧ t.length ≤ 127

theorem nameField_ok_iff_grammatical : nameField s = .ok s ↔ Grammatical s ∨ NewlineBehind s := by
  have hnewline : ∀ t : Text, (t ++ ['\n']).length = t.length + 1 := fun t => by simp
  rw [nameField_ok_iff, functionNameRe_isSome]
  constructor
  · intro h
    obtain ⟨-, hlength, t, rest, rfl, ht, rfl | rfl⟩ := h
    · exact .inl (by simpa using ht)
    · rw [hnewline] at hlength
      exact .inr ⟨t, rfl, ht, by omega⟩
  · intro h
    rcases h with h | ⟨t, rfl, ht, hlength⟩
    · exact ⟨List.length_pos_iff.mpr h.nonempty, h.length_le, s, [], by simp, h, .inl rfl⟩
    · rw [hnewline]
      exact ⟨by omega, by omega, t, ['\n'], rfl, ht, .inr rfl⟩

theorem NewlineBehind.not_grammatical (h : NewlineBehind s) : ¬Grammatical s := by
  obtain ⟨t, rfl, -⟩ := h
  intro hgrammatical
  have hnewline := hgrammatical.consists '\n' (by simp)
  exact absurd hnewline (by decide)

/-- A name is accepted exactly if it is grammatical, but for the names with a newline behind. -/
theorem accepts_grammatical_iff (s : Text) :
    (nameField s = .ok s ↔ Grammatical s) ↔ ¬NewlineBehind s := by
  rw [nameField_ok_iff_grammatical]
  constructor
  · intro h hnewline
    exact hnewline.not_grammatical (h.mp (.inr hnewline))
  · intro h
    simp [h]

theorem accepts_newline : ¬∀ s, nameField s = .ok s ↔ Grammatical s := by
  intro h
  have hgrammatical := (h "a\n".toList).mp (by decide)
  exact absurd (hgrammatical.consists '\n' (by decide)) (by decide)

end PyFaaS.FunctionNames
