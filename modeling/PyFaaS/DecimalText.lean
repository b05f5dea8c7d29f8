import Mathlib.Algebra.Order.Round
import Mathlib.Data.Rat.Floor
import Mathlib.Tactic.FieldSimp
import Mathlib.Tactic.Linarith
import Mathlib.Tactic.Positivity
import Mathlib.Tactic.Ring

/-!
# Decimal numbers in a text

A decimal has a mantissa and a number of places. Its text is read back from the front of
any text that does not go on with a digit or a point. `nearest` rounds half up, and its
value is within half a unit of the last place.
-/

namespace PyFaaS.DecimalText

structure Decimal where
  mantissa : ℕ
  places : ℕ
  deriving DecidableEq, Repr

namespace Decimal
variable {x : Decimal} {rest : List Char} {f m : ℕ} {q : ℚ}

def value (x : Decimal) : ℚ := x.mantissa / 10 ^ x.places

def unit (x : Decimal) : ℚ := 1 / 10 ^ x.places

def text (x : Decimal) : List Char :=
  if x.places = 0 then Nat.toDigits 10 x.mantissa
  else
    Nat.toDigits 10 (x.mantissa / 10 ^ x.places) ++
      '.' :: (Nat.toDigits 10 (x.mantissa % 10 ^ x.places)).leftpad x.places '0'

def read (t : List Char) : Option (Decimal × List Char) :=
  let whole := t.takeWhile Char.isDigit
  if whole.isEmpty then none
  else
    match t.dropWhile Char.isDigit with
    | '.' :: behind =>
      let fraction := behind.takeWhile Char.isDigit
      some (⟨Nat.ofDigitChars 10 (whole ++ fraction) 0, fraction.length⟩, behind.dropWhile Char.isDigit)
    | behind => some (⟨Nat.ofDigitChars 10 whole 0, 0⟩, behind)

def nearest (places : ℕ) (q : ℚ) : Decimal := ⟨(round (10 ^ places * q)).toNat, places⟩

/-! ## Reading a text back -/

def Ends (rest : List Char) : Prop := ∀ c ∈ rest.head?, c.isDigit = false ∧ c ≠ '.'

theorem digits_isDigit (n : ℕ) : ∀ c ∈ Nat.toDigits 10 n, c.isDigit = true :=
  fun _ hc => Nat.isDigit_of_mem_toDigits (by decide) (by decide) hc

theorem takeWhile_of_ends (h : Ends rest) : rest.takeWhile Char.isDigit = [] := by
  cases rest with
  | nil => rfl
  | cons c rest => simp [(h c rfl).1]

theorem dropWhile_of_ends (h : Ends rest) : rest.dropWhile Char.isDigit = rest := by
  cases rest with
  | nil => rfl
  | cons c rest => simp [(h c rfl).1]

theorem read_whole {whole : List Char} (hne : whole ≠ []) (hdigits : ∀ c ∈ whole, c.isDigit = true)
    (h : Ends rest) : read (whole ++ rest) = some (⟨Nat.ofDigitChars 10 whole 0, 0⟩, rest) := by
  rw [read, List.takeWhile_append_of_pos hdigits, List.dropWhile_append_of_pos hdigits, takeWhile_of_ends h,
    dropWhile_of_ends h]
  cases rest with
  | nil => simp [hne]
  | cons c rest =>
    have hpoint := (h c rfl).2
    simp [hne]
    split <;> simp_all

theorem read_fraction {whole fraction : List Char} (hne : whole ≠ []) (hdigits : ∀ c ∈ whole, c.isDigit = true)
    (hfraction : ∀ c ∈ fraction, c.isDigit = true) (h : Ends rest) :
    read (whole ++ '.' :: (fraction ++ rest)) =
      some (⟨Nat.ofDigitChars 10 (whole ++ fraction) 0, fraction.length⟩, rest) := by
  have hpoint : ('.' :: (fraction ++ rest)).takeWhile Char.isDigit = [] := rfl
  have hbehind : ('.' :: (fraction ++ rest)).dropWhile Char.isDigit = '.' :: (fraction ++ rest) := rfl
  rw [read, List.takeWhile_append_of_pos hdigits, List.dropWhile_append_of_pos hdigits, hpoint, hbehind]
  simp [hne, List.takeWhile_append_of_pos hfraction, List.dropWhile_append_of_pos hfraction, takeWhile_of_ends h,
    dropWhile_of_ends h]

theorem length_leftpad_digits (hf : f ≠ 0) (hm : m < 10 ^ f) : ((Nat.toDigits 10 m).leftpad f '0').length = f := by
  have hlength := (Nat.length_toDigits_le_iff (by decide) (Nat.pos_of_ne_zero hf)).mpr hm
  rw [List.length_leftpad]
  omega

theorem ofDigitChars_leftpad (f m : ℕ) : Nat.ofDigitChars 10 ((Nat.toDigits 10 m).leftpad f '0') 0 = m := by
  simp [List.leftpad, Nat.ofDigitChars_append]

theorem read_text (x : Decimal) (h : Ends rest) : read (x.text ++ rest) = some (x, rest) := by
  obtain ⟨mantissa, places⟩ := x
  by_cases hplaces : places = 0
  · subst hplaces
    rw [text, if_pos rfl, read_whole Nat.toDigits_ne_nil (digits_isDigit _) h, Nat.ofDigitChars_ten_toDigits]
  · have hlength := length_leftpad_digits hplaces (Nat.mod_lt mantissa (pow_pos (by decide : 0 < 10) places))
    have hpad : ∀ c ∈ (Nat.toDigits 10 (mantissa % 10 ^ places)).leftpad places '0', c.isDigit = true := by
      intro c hc
      rcases List.mem_append.mp hc with hc | hc
      · rw [List.eq_of_mem_replicate hc]
        decide
      · exact digits_isDigit _ c hc
    rw [text, if_neg hplaces, List.append_assoc, List.cons_append,
      read_fraction Nat.toDigits_ne_nil (digits_isDigit _) hpad h, hlength, Nat.ofDigitChars_append,
      Nat.ofDigitChars_ten_toDigits, Nat.ofDigitChars_eq_ofDigitChars_zero, ofDigitChars_leftpad, hlength,
      Nat.div_add_mod]

/-! ## Rounding -/

theorem value_nonneg (x : Decimal) : 0 ≤ x.value := by
  unfold value
  positivity

@[simp] theorem nearest_places : (nearest f q).places = f := rfl

theorem nearest_value (hq : 0 ≤ q) : (nearest f q).value = (round (10 ^ f * q) : ℚ) / 10 ^ f := by
  have hround : 0 ≤ round (10 ^ f * q) := by
    rw [round_eq]
    exact Int.floor_nonneg.mpr (by positivity)
  rw [value, nearest]
  simp only
  rw [← Int.cast_natCast, Int.toNat_of_nonneg hround]

theorem nearest_close (hq : 0 ≤ q) : |(nearest f q).value - q| ≤ (nearest f q).unit / 2 := by
  have hpos : (0 : ℚ) < 10 ^ f := by positivity
  have hdiff : (nearest f q).value - q = (round (10 ^ f * q) - 10 ^ f * q) / 10 ^ f := by
    rw [nearest_value hq]
    field_simp
  have hround := abs_sub_round (10 ^ f * q)
  rw [abs_sub_comm] at hround
  calc |(nearest f q).value - q| = |(round (10 ^ f * q) : ℚ) - 10 ^ f * q| / 10 ^ f := by
        rw [hdiff, abs_div, abs_of_pos hpos]
    _ ≤ 1 / 2 / 10 ^ f := div_le_div_of_nonneg_right hround hpos.le
    _ = (nearest f q).unit / 2 := by
      rw [unit, nearest_places]
      ring

theorem nearest_lt_iff (hq : 0 ≤ q) : (nearest f q).value < m ↔ q + (nearest f q).unit / 2 < m := by
  have hpos : (0 : ℚ) < 10 ^ f := by positivity
  have hfloor : (round (10 ^ f * q) : ℚ) < m * 10 ^ f ↔ 10 ^ f * q + 1 / 2 < m * 10 ^ f := by
    rw [round_eq]
    exact_mod_cast Int.floor_lt (z := (m * 10 ^ f : ℤ)) (a := 10 ^ f * q + 1 / 2)
  rw [nearest_value hq, div_lt_iff₀ hpos, hfloor, unit, nearest_places, ← mul_lt_mul_iff_left₀ hpos (b := q + _)]
  field_simp

end Decimal
end PyFaaS.DecimalText
