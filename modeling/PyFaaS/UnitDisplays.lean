import Mathlib.Tactic.NormNum
import PyFaaS.DecimalText
import PyFaaS.TextLines

/-!
# Durations and sizes on the dashboard

`formatDuration` and `formatBytes` of `dashboard/src/lib/utils.ts` against what their texts
say. Quotients are exact, and `toFixed` and `Math.round` round half up.
-/

namespace PyFaaS.UnitDisplays
open DecimalText Decimal

/-! ## The two functions -/

def showNumber (n : ℕ) : Text := (Decimal.mk n 0).text

def toFixed (digits : ℕ) (q : ℚ) : Text := (nearest digits q).text

def mathRound (q : ℚ) : ℕ := (nearest 0 q).mantissa

def formatDuration : Option ℕ → Text
  | none => "—".toList
  | some ms =>
    if ms < 1000 then showNumber ms ++ "ms".toList
    else if ms < 60000 then toFixed 1 ((ms : ℚ) / 1000) ++ "s".toList
    else
      showNumber (ms / 60000) ++ ("m ".toList ++ (showNumber (mathRound (((ms % 60000 : ℕ) : ℚ) / 1000)) ++ "s".toList))

def formatBytes : Option ℕ → Text
  | none => "—".toList
  | some bytes =>
    if bytes < 1024 then showNumber bytes ++ " B".toList
    else if bytes < 1024 ^ 2 then toFixed 1 ((bytes : ℚ) / 1024) ++ " KB".toList
    else toFixed 1 ((bytes : ℚ) / 1024 ^ 2) ++ " MB".toList

/-! ## What a text says -/

inductive Duration where
  | millis (x : Decimal)
  | seconds (x : Decimal)
  | minutes (x y : Decimal)
  deriving DecidableEq

namespace Duration

def value : Duration → ℚ
  | millis x => x.value
  | seconds x => 1000 * x.value
  | minutes x y => 60000 * x.value + 1000 * y.value

def unit : Duration → ℚ
  | millis x => x.unit
  | seconds x => 1000 * x.unit
  | minutes _ y => 1000 * y.unit

def Carried : Duration → Prop
  | millis _ => True
  | seconds x => x.value < 60
  | minutes _ y => 0 ≤ y.value ∧ y.value ≤ 59

def read (t : Text) : Option Duration :=
  match Decimal.read t with
  | some (x, ['m', 's']) => some (millis x)
  | some (x, ['s']) => some (seconds x)
  | some (x, 'm' :: ' ' :: behind) =>
    match Decimal.read behind with
    | some (y, ['s']) => some (minutes x y)
    | _ => none
  | _ => none

end Duration

inductive Size where
  | bytes (x : Decimal)
  | kilo (x : Decimal)
  | mega (x : Decimal)
  deriving DecidableEq

namespace Size

def scale : Size → ℚ
  | bytes _ => 1
  | kilo _ => 1024
  | mega _ => 1024 ^ 2

def number : Size → Decimal
  | bytes x | kilo x | mega x => x

def value (s : Size) : ℚ := s.scale * s.number.value

def unit (s : Size) : ℚ := s.scale * s.number.unit

def Carried : Size → Prop
  | bytes _ | mega _ => True
  | kilo x => x.value < 1024

def read (t : Text) : Option Size :=
  match Decimal.read t with
  | some (x, [' ', 'B']) => some (bytes x)
  | some (x, [' ', 'K', 'B']) => some (kilo x)
  | some (x, [' ', 'M', 'B']) => some (mega x)
  | _ => none

end Size

def DurationCarries (ms : ℕ) : Prop :=
  ∃ d, Duration.read (formatDuration (some ms)) = some d ∧ |d.value - ms| ≤ d.unit / 2 ∧ d.Carried

def SizeCarries (bytes : ℕ) : Prop :=
  ∃ s, Size.read (formatBytes (some bytes)) = some s ∧ |s.value - bytes| ≤ s.unit / 2 ∧ s.Carried

/-! ## The texts read back -/

theorem read_millis (x : Decimal) : Duration.read (x.text ++ "ms".toList) = some (.millis x) := by
  rw [Duration.read, read_text x (by simp [Ends])]
  rfl

theorem read_seconds (x : Decimal) : Duration.read (x.text ++ "s".toList) = some (.seconds x) := by
  rw [Duration.read, read_text x (by simp [Ends])]
  rfl

theorem read_minutes (x y : Decimal) :
    Duration.read (x.text ++ ("m ".toList ++ (y.text ++ "s".toList))) = some (.minutes x y) := by
  rw [Duration.read, read_text x (by simp [Ends])]
  simp [read_text y (show Ends ['s'] by simp [Ends])]

theorem read_size (x : Decimal) : Size.read (x.text ++ " B".toList) = some (.bytes x) ∧
    Size.read (x.text ++ " KB".toList) = some (.kilo x) ∧ Size.read (x.text ++ " MB".toList) = some (.mega x) := by
  refine ⟨?_, ?_, ?_⟩
  all_goals
    rw [Size.read, read_text x (by simp [Ends])]
    rfl

/-! ## Half a unit, and the carry -/

variable {ms bytes : ℕ} {d : Duration} {s : Size}

theorem value_whole (n : ℕ) : (Decimal.mk n 0).value = n := by simp [Decimal.value]

theorem value_le_iff {x : Decimal} (n : ℕ) (hx : x.places = 0) : x.value ≤ n ↔ x.value < ((n + 1 : ℕ) : ℚ) := by
  rw [Decimal.value, hx, pow_zero, div_one, Nat.cast_le, Nat.cast_lt, Nat.lt_succ_iff]

theorem scaled_close {c q : ℚ} {f : ℕ} (hc : 0 ≤ c) (hq : 0 ≤ q) :
    |c * (nearest f q).value - c * q| ≤ c * (nearest f q).unit / 2 := by
  calc |c * (nearest f q).value - c * q| = c * |(nearest f q).value - q| := by
        rw [← mul_sub, abs_mul, abs_of_nonneg hc]
    _ ≤ c * ((nearest f q).unit / 2) := mul_le_mul_of_nonneg_left (nearest_close hq) hc
    _ = c * (nearest f q).unit / 2 := by ring

theorem durationCarries_iff (hread : Duration.read (formatDuration (some ms)) = some d)
    (hclose : |d.value - ms| ≤ d.unit / 2) : DurationCarries ms ↔ d.Carried := by
  simp [DurationCarries, hread, hclose]

theorem sizeCarries_iff (hread : Size.read (formatBytes (some bytes)) = some s)
    (hclose : |s.value - bytes| ≤ s.unit / 2) : SizeCarries bytes ↔ s.Carried := by
  simp [SizeCarries, hread, hclose]

theorem durationCarries_millis (h : ms < 1000) : DurationCarries ms := by
  have hread : Duration.read (formatDuration (some ms)) = some (.millis ⟨ms, 0⟩) := by
    simp only [formatDuration, if_pos h]
    exact read_millis ⟨ms, 0⟩
  refine (durationCarries_iff hread ?_).mpr trivial
  simp [Duration.value, Duration.unit, value_whole, Decimal.unit]

theorem durationCarries_seconds (hlow : 1000 ≤ ms) (h : ms < 60000) : DurationCarries ms ↔ ms < 59950 := by
  have hread : Duration.read (formatDuration (some ms)) = some (.seconds (nearest 1 ((ms : ℚ) / 1000))) := by
    simp only [formatDuration, if_neg (not_lt.mpr hlow), if_pos h]
    exact read_seconds _
  have hq : (0 : ℚ) ≤ (ms : ℚ) / 1000 := by positivity
  have hclose := scaled_close (f := 1) (by norm_num : (0 : ℚ) ≤ 1000) hq
  rw [mul_div_cancel₀ (ms : ℚ) (by norm_num : (1000 : ℚ) ≠ 0)] at hclose
  rw [durationCarries_iff hread hclose]
  have hcarry := nearest_lt_iff (f := 1) (m := 60) hq
  rw [Nat.cast_ofNat] at hcarry
  rw [Duration.Carried, hcarry, Decimal.unit, nearest_places]
  constructor
  · intro hlt
    have hms : (ms : ℚ) < (59950 : ℕ) := by push_cast at hlt ⊢; linarith
    exact_mod_cast hms
  · intro hlt
    have hms : (ms : ℚ) < (59950 : ℕ) := by exact_mod_cast hlt
    push_cast at hms ⊢
    linarith

theorem durationCarries_minutes (h : 60000 ≤ ms) : DurationCarries ms ↔ ms % 60000 < 59500 := by
  have hread : Duration.read (formatDuration (some ms)) =
      some (.minutes ⟨ms / 60000, 0⟩ (nearest 0 (((ms % 60000 : ℕ) : ℚ) / 1000))) := by
    simp only [formatDuration, if_neg (show ¬ms < 1000 by omega), if_neg (not_lt.mpr h)]
    exact read_minutes _ _
  have hq : (0 : ℚ) ≤ ((ms % 60000 : ℕ) : ℚ) / 1000 := by positivity
  have hclose := scaled_close (f := 0) (by norm_num : (0 : ℚ) ≤ 1000) hq
  have hms : (ms : ℚ) = 60000 * ((ms / 60000 : ℕ) : ℚ) + ((ms % 60000 : ℕ) : ℚ) := by
    exact_mod_cast (Nat.div_add_mod ms 60000).symm
  rw [mul_div_cancel₀ _ (by norm_num : (1000 : ℚ) ≠ 0)] at hclose
  rw [durationCarries_iff hread]
  · have hcarry := (value_le_iff 59 nearest_places).trans (nearest_lt_iff (f := 0) (m := 60) hq)
    rw [Nat.cast_ofNat, Nat.cast_ofNat] at hcarry
    rw [Duration.Carried, and_iff_right (value_nonneg _), hcarry, Decimal.unit, nearest_places]
    constructor
    · intro hlt
      have hbehind : ((ms % 60000 : ℕ) : ℚ) < (59500 : ℕ) := by push_cast at hlt ⊢; linarith
      exact_mod_cast hbehind
    · intro hlt
      have hbehind : ((ms % 60000 : ℕ) : ℚ) < (59500 : ℕ) := by exact_mod_cast hlt
      push_cast at hbehind ⊢
      linarith
  · calc |(Duration.minutes ⟨ms / 60000, 0⟩ (nearest 0 (((ms % 60000 : ℕ) : ℚ) / 1000))).value - ms|
        = |1000 * (nearest 0 (((ms % 60000 : ℕ) : ℚ) / 1000)).value - ((ms % 60000 : ℕ) : ℚ)| := by
          rw [Duration.value, value_whole, hms]
          congr 1
          ring
      _ ≤ _ := hclose

theorem sizeCarries_kilo (hlow : 1024 ≤ bytes) (h : bytes < 1024 ^ 2) : SizeCarries bytes ↔ bytes < 1048525 := by
  have hread : Size.read (formatBytes (some bytes)) = some (.kilo (nearest 1 ((bytes : ℚ) / 1024))) := by
    simp only [formatBytes, if_neg (not_lt.mpr hlow), if_pos h]
    exact (read_size _).2.1
  have hq : (0 : ℚ) ≤ (bytes : ℚ) / 1024 := by positivity
  have hclose := scaled_close (f := 1) (by norm_num : (0 : ℚ) ≤ 1024) hq
  rw [mul_div_cancel₀ (bytes : ℚ) (by norm_num : (1024 : ℚ) ≠ 0)] at hclose
  rw [sizeCarries_iff hread hclose]
  have hcarry := nearest_lt_iff (f := 1) (m := 1024) hq
  rw [Nat.cast_ofNat] at hcarry
  rw [Size.Carried, hcarry, Decimal.unit, nearest_places]
  constructor
  · intro hlt
    have hbytes : (bytes : ℚ) < (1048525 : ℕ) := by push_cast at hlt ⊢; linarith
    exact_mod_cast hbytes
  · intro hlt
    have hbytes : (bytes : ℚ) ≤ (1048524 : ℕ) := by exact_mod_cast Nat.le_of_lt_succ hlt
    push_cast at hbytes ⊢
    linarith

theorem sizeCarries_other (h : bytes < 1024 ∨ 1024 ^ 2 ≤ bytes) : SizeCarries bytes := by
  rcases h with h | h
  · have hread : Size.read (formatBytes (some bytes)) = some (.bytes ⟨bytes, 0⟩) := by
      simp only [formatBytes, if_pos h]
      exact (read_size ⟨bytes, 0⟩).1
    refine (sizeCarries_iff hread ?_).mpr trivial
    simp [Size.value, Size.unit, Size.scale, Size.number, value_whole, Decimal.unit]
  · have hread : Size.read (formatBytes (some bytes)) = some (.mega (nearest 1 ((bytes : ℚ) / 1024 ^ 2))) := by
      simp only [formatBytes, if_neg (show ¬bytes < 1024 by omega), if_neg (not_lt.mpr h)]
      exact (read_size _).2.2
    have hclose := scaled_close (f := 1) (by norm_num : (0 : ℚ) ≤ 1024 ^ 2) (by positivity : 0 ≤ (bytes : ℚ) / 1024 ^ 2)
    rw [mul_div_cancel₀ (bytes : ℚ) (by norm_num : (1024 ^ 2 : ℚ) ≠ 0)] at hclose
    exact (sizeCarries_iff hread hclose).mpr trivial

/-- Exactly the values within half a unit below a threshold miss the carry: in front of the
first minute, in front of every later one, and in front of the first megabyte. -/
theorem displays_carry_iff (ms bytes : ℕ) :
    (DurationCarries ms ↔ ¬(59950 ≤ ms ∧ ms < 60000) ∧ ¬(60000 ≤ ms ∧ 59500 ≤ ms % 60000)) ∧
    (SizeCarries bytes ↔ ¬(1048525 ≤ bytes ∧ bytes < 1048576)) := by
  constructor
  · by_cases hmillis : ms < 1000
    · exact iff_of_true (durationCarries_millis hmillis) (by omega)
    · by_cases hseconds : ms < 60000
      · rw [durationCarries_seconds (not_lt.mp hmillis) hseconds]
        omega
      · rw [durationCarries_minutes (not_lt.mp hseconds)]
        omega
  · by_cases hother : bytes < 1024 ∨ 1024 ^ 2 ≤ bytes
    · exact iff_of_true (sizeCarries_other hother) (by omega)
    · rw [sizeCarries_kilo (by omega) (by omega)]
      omega

theorem displays_sixty_seconds : formatDuration (some 119500) = "1m 60s".toList ∧ ¬∀ ms, DurationCarries ms := by
  refine ⟨by decide +kernel, fun h => ?_⟩
  have hcarried := (durationCarries_minutes (by decide)).mp (h 119500)
  exact absurd hcarried (by decide)

end PyFaaS.UnitDisplays
