import Mathlib.Algebra.BigOperators.Group.List.Basic
import Mathlib.Algebra.GroupWithZero.Nat
import Mathlib.Data.List.Induction

/-!
# Universal-newline splitting of a text

A text is a list of characters. `splitlines` cuts it at every line boundary of
Python's `str.splitlines`, where a carriage return followed by a line feed is
one boundary and a last line needs no boundary. The scanner reads one character
at a time, so a text can be split in two at any place.
-/

namespace PyFaaS

abbrev Text := List Char

namespace TextLines

def utf8Length (x : Text) : ℕ := (x.map Char.utf8Size).sum

def isLineBreak (c : Char) : Bool :=
  c = '\n' || c = '\r' || c = '\x0b' || c = '\x0c' || c = '\x1c' || c = '\x1d' || c = '\x1e' ||
    c = '\u0085' || c = '\u2028' || c = '\u2029'

structure Scan where
  lines : List Text
  cur : Text
  afterCR : Bool
  deriving DecidableEq, Repr

def Scan.start : Scan := ⟨[], [], false⟩

def Scan.feed (s : Scan) (c : Char) : Scan :=
  if s.afterCR && c = '\n' then { s with afterCR := false }
  else if isLineBreak c then ⟨s.lines ++ [s.cur], [], c = '\r'⟩
  else ⟨s.lines, s.cur ++ [c], false⟩

def Scan.feedAll (s : Scan) (x : Text) : Scan := x.foldl Scan.feed s

def scan (x : Text) : Scan := Scan.start.feedAll x

def Scan.finish (s : Scan) : List Text := if s.cur = [] then s.lines else s.lines ++ [s.cur]

def splitlines (x : Text) : List Text := (scan x).finish

def AtLineStart (x : Text) : Prop := (scan x).cur = []

instance (x : Text) : Decidable (AtLineStart x) := inferInstanceAs (Decidable ((scan x).cur = []))

def OneLine (x : Text) : Prop := ∀ c ∈ x, isLineBreak c = false

instance (x : Text) : Decidable (OneLine x) :=
  decidable_of_iff (x.all fun c => !isLineBreak c) (by simp [OneLine])

@[simp] theorem feedAll_nil (s : Scan) : s.feedAll [] = s := rfl

@[simp] theorem feedAll_cons (s : Scan) (c : Char) (x : Text) :
    s.feedAll (c :: x) = (s.feed c).feedAll x := rfl

theorem feedAll_append (s : Scan) (x y : Text) : s.feedAll (x ++ y) = (s.feedAll x).feedAll y := by
  simp only [Scan.feedAll, List.foldl_append]

theorem scan_append (x y : Text) : scan (x ++ y) = (scan x).feedAll y := feedAll_append _ _ _

theorem feed_ordinary (s : Scan) {c : Char} (hc : isLineBreak c = false) :
    s.feed c = ⟨s.lines, s.cur ++ [c], false⟩ := by
  have hn : c ≠ '\n' := by
    rintro rfl
    exact absurd hc (by decide)
  simp [Scan.feed, hn, hc]

theorem feedAll_oneLine (s : Scan) {x : Text} (hx : OneLine x) :
    (s.feedAll x).lines = s.lines ∧ (s.feedAll x).cur = s.cur ++ x := by
  induction x generalizing s with
  | nil => simp
  | cons c x ih =>
    have hc : isLineBreak c = false := hx c (by simp)
    obtain ⟨hl, hcur⟩ := ih (s.feed c) (fun d hd => hx d (by simp [hd]))
    rw [feed_ordinary s hc] at hl hcur
    simp only [feedAll_cons, feed_ordinary s hc]
    exact ⟨hl, by simpa using hcur⟩

theorem afterCR_cur (x : Text) : (scan x).afterCR = true → (scan x).cur = [] := by
  induction x using List.reverseRecOn with
  | nil => simp [scan, Scan.start]
  | append_singleton x c ih =>
    rw [scan_append]
    simp only [feedAll_cons, feedAll_nil, Scan.feed]
    split_ifs <;> simp

theorem cur_append_singleton (x : Text) (c : Char) :
    (scan (x ++ [c])).cur = if isLineBreak c then [] else (scan x).cur ++ [c] := by
  rw [scan_append, feedAll_cons, feedAll_nil]
  by_cases hc : isLineBreak c = true
  · simp only [Scan.feed, hc, if_true]
    split_ifs with hcr
    · exact afterCR_cur x (by simp_all)
    · rfl
  · simp only [Bool.not_eq_true] at hc
    simp [feed_ordinary _ hc, hc]

theorem atLineStart_nil : AtLineStart [] := rfl

theorem atLineStart_append_singleton (x : Text) (c : Char) :
    AtLineStart (x ++ [c]) ↔ isLineBreak c = true := by
  unfold AtLineStart
  rw [cur_append_singleton]
  split_ifs with hc <;> simp [hc]

theorem atLineStart_append {x y : Text} (hy : y ≠ []) : AtLineStart (x ++ y) ↔ AtLineStart y := by
  obtain ⟨z, c, rfl⟩ : ∃ z c, y = z ++ [c] := ⟨_, _, (List.dropLast_concat_getLast hy).symm⟩
  rw [← List.append_assoc, atLineStart_append_singleton, atLineStart_append_singleton]

theorem atLineStart_append_of_left {x y : Text} (hx : AtLineStart x) :
    AtLineStart (x ++ y) ↔ AtLineStart y := by
  by_cases hy : y = []
  · subst y
    simpa [atLineStart_nil] using hx
  · exact atLineStart_append hy

theorem oneLine_append {x y : Text} (hx : OneLine x) (hy : OneLine y) : OneLine (x ++ y) := by
  intro c hc
  rcases List.mem_append.mp hc with h | h
  · exact hx c h
  · exact hy c h

/-- A line printed after any text is the last line of the whole, behind what the
text had left open. -/
theorem splitlines_append_line (x : Text) {l : Text} (hl : OneLine l) (hne : l ≠ []) :
    splitlines (x ++ (l ++ ['\n'])) = (scan x).lines ++ [(scan x).cur ++ l] := by
  obtain ⟨hlines, hcur⟩ := feedAll_oneLine (scan x) hl
  have hcr : (scan (x ++ l)).afterCR = false := by
    by_contra h
    have := afterCR_cur (x ++ l) (by simpa using h)
    rw [scan_append, hcur] at this
    exact hne (List.append_eq_nil_iff.mp this).2
  have hs : scan (x ++ (l ++ ['\n'])) =
      ⟨(scan x).lines ++ [(scan x).cur ++ l], [], false⟩ := by
    rw [← List.append_assoc, scan_append, feedAll_cons, feedAll_nil]
    have hb : isLineBreak '\n' = true := by decide
    simp only [Scan.feed, hcr, Bool.false_and, Bool.false_eq_true, if_false, hb, if_true]
    rw [scan_append, hlines, hcur]
    rfl
  simp [splitlines, hs, Scan.finish]

/-! ## The last lines of a text -/

def lfLines : Text → List Text
  | [] => []
  | c :: x =>
    if c = '\n' then [c] :: lfLines x
    else match lfLines x with
      | [] => [[c]]
      | l :: ls => (c :: l) :: ls

def tailLines (n : ℕ) (x : Text) : Text := ((lfLines x).drop ((lfLines x).length - n)).flatten

def headLines (n : ℕ) (x : Text) : Text := ((lfLines x).take ((lfLines x).length - n)).flatten

theorem lfLines_flatten (x : Text) : (lfLines x).flatten = x := by
  induction x with
  | nil => rfl
  | cons c x ih =>
    rw [lfLines]
    split_ifs with hc
    · rw [List.flatten_cons, ih]
      rfl
    · cases h : lfLines x with
      | nil =>
        rw [h] at ih
        simp [← ih]
      | cons l ls =>
        rw [h] at ih
        simp [← ih]

theorem headLines_append_tailLines (n : ℕ) (x : Text) : headLines n x ++ tailLines n x = x := by
  rw [headLines, tailLines, ← List.flatten_append, List.take_append_drop, lfLines_flatten]

theorem lfLines_closed (x : Text) : ∀ d ∈ (lfLines x).dropLast, ∃ e, d = e ++ ['\n'] := by
  induction x with
  | nil => exact fun _ h => absurd h List.not_mem_nil
  | cons c x ih =>
    intro d hd
    rw [lfLines] at hd
    split_ifs at hd with hc
    · cases h : lfLines x with
      | nil => simp [h] at hd
      | cons l ls =>
        rw [h, List.dropLast_cons_cons, List.mem_cons] at hd
        rcases hd with rfl | hd
        · exact ⟨[], by rw [hc]; rfl⟩
        · exact ih d (h ▸ hd)
    · cases h : lfLines x with
      | nil => simp [h] at hd
      | cons l ls =>
        rw [h] at hd ih
        cases ls with
        | nil => simp at hd
        | cons l' ls =>
          rw [List.dropLast_cons_cons, List.mem_cons] at hd
          rcases hd with rfl | hd
          · obtain ⟨e, rfl⟩ := ih l (by simp)
            exact ⟨c :: e, rfl⟩
          · exact ih d (by simp [hd])

theorem headLines_closed {n : ℕ} (hn : 0 < n) (x : Text) :
    headLines n x = [] ∨ ∃ y, headLines n x = y ++ ['\n'] := by
  have hclosed : ∀ d ∈ (lfLines x).take ((lfLines x).length - n), ∃ e, d = e ++ ['\n'] := by
    intro d hd
    apply lfLines_closed x d
    rw [List.dropLast_eq_take]
    have hle : (lfLines x).length - n ≤ (lfLines x).length - 1 := by omega
    exact (List.take_sublist_take_left hle).subset hd
  unfold headLines
  cases List.eq_nil_or_concat ((lfLines x).take ((lfLines x).length - n)) with
  | inl h => exact Or.inl (by rw [h]; rfl)
  | inr h =>
    obtain ⟨ds, d, h⟩ := h
    rw [h] at hclosed ⊢
    obtain ⟨e, rfl⟩ := hclosed d (by simp)
    exact Or.inr ⟨ds.flatten ++ e, by simp⟩

theorem feedAll_lines (ls : List Text) (cur : Text) (cr : Bool) (x : Text) :
    (Scan.mk ls cur cr).feedAll x = ⟨ls ++ ((Scan.mk [] cur cr).feedAll x).lines,
      ((Scan.mk [] cur cr).feedAll x).cur, ((Scan.mk [] cur cr).feedAll x).afterCR⟩ := by
  induction x generalizing ls cur cr with
  | nil => simp
  | cons c x ih =>
    simp only [feedAll_cons, Scan.feed]
    split_ifs with h1 h2
    · rw [ih ls cur false]
    · rw [ih (ls ++ [cur]), ih ([] ++ [cur])]
      simp
    · rw [ih ls]

theorem splitlines_append_closed (y x : Text) :
    splitlines (y ++ ['\n'] ++ x) = splitlines (y ++ ['\n']) ++ splitlines x := by
  have hscan : scan (y ++ ['\n']) = ⟨(scan (y ++ ['\n'])).lines, [], false⟩ := by
    have hcur : (scan (y ++ ['\n'])).cur = [] := (atLineStart_append_singleton y '\n').mpr rfl
    have hcr : (scan (y ++ ['\n'])).afterCR = false := by
      rw [scan_append, feedAll_cons, feedAll_nil, Scan.feed]
      split_ifs
      · rfl
      · rfl
      · rfl
    cases h : scan (y ++ ['\n'])
    simp_all
  unfold splitlines
  rw [scan_append, hscan, feedAll_lines]
  change (if (scan x).cur = [] then _ ++ (scan x).lines
      else _ ++ (scan x).lines ++ [(scan x).cur]) = _
  by_cases hcur : (scan x).cur = []
  · simp only [Scan.finish, hcur, if_true]
  · simp only [Scan.finish, hcur, if_true, if_false, List.append_assoc]

theorem splitlines_tailLines {n : ℕ} (hn : 0 < n) (x : Text) :
    splitlines x = splitlines (headLines n x) ++ splitlines (tailLines n x) := by
  have hcut := headLines_append_tailLines n x
  rcases headLines_closed hn x with hhead | ⟨y, hhead⟩
  · rw [hhead, List.nil_append] at hcut
    rw [hhead, hcut]
    rfl
  · conv_lhs => rw [← hcut, hhead]
    rw [splitlines_append_closed, hhead]

end TextLines
end PyFaaS
