import PyFaaS.JsonValue

/-!
# What a sandbox run reports

`SandboxResult` and the two readers of the combined output text of
`k8s_sandbox.py`. The scan for the result line keeps the number of the line it
stops at, so that a statement can say whose line was decoded.
-/

namespace PyFaaS
open TextLines

structure LogEntry where
  level : Text
  stream : Text
  message : Text
  deriving DecidableEq, Repr

/-- `error` is typed `str | None`, but the local path copies into it whatever
value the decoded result line carries. -/
structure SandboxResult where
  success : Bool
  result : Option Json
  error : Option Json
  logs : List LogEntry
  durationMs : Option ℤ
  timedOut : Bool
  k8sJobName : Option Text
  deriving DecidableEq, Repr

namespace SandboxResult

def failure (error : String) : SandboxResult :=
  ⟨false, none, some (.str error.toList), [], none, false, none⟩

end SandboxResult

namespace SandboxLogs

def marker : Text := "SOPM_RESULT:".toList

theorem marker_oneLine : OneLine marker := by decide

theorem marker_append_ne_nil (x : Text) : marker ++ x ≠ [] :=
  List.append_ne_nil_of_left_ne_nil (by decide) x

def isResultLine (line : Text) : Bool := marker.isPrefixOf line

theorem isResultLine_marker (x : Text) : isResultLine (marker ++ x) = true := by
  simp [isResultLine, List.isPrefixOf_iff_prefix]

/-- The first of the numbered lines that decodes. A line that does not decode is
skipped; any other exception of `json.loads` leaves the scan. -/
def firstDecoded (codec : JsonCodec) : List (Text × ℕ) → Except Text (Option (ℕ × Json))
  | [] => .ok none
  | (line, i) :: rest =>
    if isResultLine line then
      match codec.loads (line.drop marker.length) with
      | .ok j => .ok (some (i, j))
      | .error .decodeError => firstDecoded codec rest
      | .error (.raised message) => .error message
    else firstDecoded codec rest

/-- The scan of `_parse_result_from_logs`, with the number of the decoded line. -/
def decodedLine (codec : JsonCodec) (logs : Text) : Except Text (Option (ℕ × Json)) :=
  firstDecoded codec (splitlines logs).zipIdx.reverse

def parseResultFromLogs (codec : JsonCodec) (logs : Text) : Except Text (Option Json) :=
  (decodedLine codec logs).map fun found => found.bind fun numbered => numbered.2.toPython

def formatLogs (raw : Text) : List LogEntry :=
  ((splitlines raw).filter fun line => !isResultLine line).map fun line =>
    ⟨"INFO".toList, "stdout".toList, line⟩

theorem decodedLine_of_atLineStart (codec : JsonCodec) {x body : Text} {r : Json}
    (hx : AtLineStart x) (hbody : OneLine body) (hloads : codec.loads body = .ok r) :
    decodedLine codec (x ++ (marker ++ body ++ ['\n'])) = .ok (some ((scan x).lines.length, r)) := by
  have hline : OneLine (marker ++ body) := oneLine_append marker_oneLine hbody
  unfold decodedLine
  rw [splitlines_append_line x hline (marker_append_ne_nil body), hx, List.nil_append, List.zipIdx_append,
    List.reverse_append]
  simp [firstDecoded, isResultLine_marker, hloads]

/-- A result line printed behind an open line is the tail of a longer line, so
no line of the text is the printed one. -/
theorem not_printed_line_of_open {x body : Text} (hx : ¬ AtLineStart x) (hbody : OneLine body) :
    (splitlines (x ++ (marker ++ body ++ ['\n'])))[(scan x).lines.length]? ≠ some (marker ++ body) := by
  have hline : OneLine (marker ++ body) := oneLine_append marker_oneLine hbody
  rw [splitlines_append_line x hline (marker_append_ne_nil body)]
  intro h
  simp only [List.getElem?_append_right (Nat.le_refl _), Nat.sub_self, List.getElem?_cons_zero,
    Option.some.injEq] at h
  exact hx (List.append_left_eq_self.mp h)

/-! ## Reading a text in two parts -/

theorem firstDecoded_append (codec : JsonCodec) (ls ms : List (Text × ℕ)) :
    firstDecoded codec (ls ++ ms) = match firstDecoded codec ls with
      | .ok none => firstDecoded codec ms
      | found => found := by
  induction ls with
  | nil => rfl
  | cons l ls ih =>
    obtain ⟨line, i⟩ := l
    simp only [List.cons_append, firstDecoded]
    split_ifs
    · cases codec.loads (line.drop marker.length) with
      | ok j => rfl
      | error err =>
        cases err with
        | decodeError => exact ih
        | raised message => rfl
    · exact ih

theorem firstDecoded_value (codec : JsonCodec) {ls ms : List (Text × ℕ)}
    (h : ls.map Prod.fst = ms.map Prod.fst) :
    (firstDecoded codec ls).map (Option.map Prod.snd) =
      (firstDecoded codec ms).map (Option.map Prod.snd) := by
  induction ls generalizing ms with
  | nil =>
    obtain rfl : ms = [] := List.map_eq_nil_iff.mp h.symm
    rfl
  | cons l ls ih =>
    cases ms with
    | nil => simp at h
    | cons m ms =>
      obtain ⟨line, i⟩ := l
      obtain ⟨line', i'⟩ := m
      obtain ⟨rfl, htail⟩ := List.cons.inj h
      simp only [firstDecoded]
      split_ifs
      · cases codec.loads (List.drop marker.length _) with
        | ok j => rfl
        | error err =>
          cases err with
          | decodeError => exact ih htail
          | raised message => rfl
      · exact ih htail

def lastValue (codec : JsonCodec) (lines : List Text) : Except Text (Option Json) :=
  (firstDecoded codec lines.zipIdx.reverse).map (Option.map Prod.snd)

theorem lastValue_append (codec : JsonCodec) (ls ms : List Text) :
    lastValue codec (ls ++ ms) = match lastValue codec ms with
      | .ok none => lastValue codec ls
      | found => found := by
  have hms : (firstDecoded codec (ms.zipIdx ls.length).reverse).map (Option.map Prod.snd) =
      lastValue codec ms :=
    firstDecoded_value codec (by simp [List.map_reverse])
  unfold lastValue at hms ⊢
  rw [List.zipIdx_append, List.reverse_append, firstDecoded_append, Nat.zero_add, ← hms]
  cases firstDecoded codec (ms.zipIdx ls.length).reverse with
  | error exc => rfl
  | ok found =>
    cases found with
    | none => rfl
    | some numbered => rfl

theorem parse_eq_lastValue (codec : JsonCodec) (logs : Text) :
    parseResultFromLogs codec logs =
      (lastValue codec (splitlines logs)).map fun found => found.bind Json.toPython := by
  unfold parseResultFromLogs decodedLine lastValue
  cases firstDecoded codec (splitlines logs).zipIdx.reverse with
  | error exc => rfl
  | ok found => cases found <;> rfl

theorem lastValue_none_iff (codec : JsonCodec) (logs : Text) :
    lastValue codec (splitlines logs) = .ok none ↔ decodedLine codec logs = .ok none := by
  unfold decodedLine lastValue
  cases firstDecoded codec (splitlines logs).zipIdx.reverse with
  | error exc => simp [Except.map]
  | ok found => simp [Except.map]

theorem firstDecoded_some {codec : JsonCodec} {lines : List (Text × ℕ)} {i : ℕ} {j : Json}
    (h : firstDecoded codec lines = .ok (some (i, j))) :
    ∃ line, (line, i) ∈ lines ∧ isResultLine line = true ∧ codec.loads (line.drop marker.length) = .ok j := by
  induction lines with
  | nil => cases h
  | cons line lines ih =>
    obtain ⟨text, k⟩ := line
    have hlater : firstDecoded codec lines = .ok (some (i, j)) → ∃ line, (line, i) ∈ (text, k) :: lines ∧
        isResultLine line = true ∧ codec.loads (line.drop marker.length) = .ok j := by
      intro hrest
      obtain ⟨line, hmem, hline⟩ := ih hrest
      exact ⟨line, List.mem_cons_of_mem _ hmem, hline⟩
    rw [firstDecoded] at h
    split_ifs at h with hresult
    · cases hloads : codec.loads (text.drop marker.length) with
      | ok value =>
        simp only [hloads] at h
        cases h
        exact ⟨text, List.mem_cons_self, hresult, hloads⟩
      | error err =>
        cases err with
        | decodeError =>
          simp only [hloads] at h
          exact hlater h
        | raised message => simp [hloads] at h
    · exact hlater h

theorem decodedLine_append_closed (codec : JsonCodec) (y x : Text) :
    decodedLine codec (y ++ ['\n'] ++ x) =
      match firstDecoded codec ((splitlines x).zipIdx (splitlines (y ++ ['\n'])).length).reverse with
      | .ok none => decodedLine codec (y ++ ['\n'])
      | found => found := by
  unfold decodedLine
  rw [splitlines_append_closed, List.zipIdx_append, List.reverse_append, firstDecoded_append, Nat.zero_add]

theorem firstDecoded_none_iff (codec : JsonCodec) (x : Text) (n : ℕ) :
    firstDecoded codec ((splitlines x).zipIdx n).reverse = .ok none ↔ decodedLine codec x = .ok none := by
  have hvalue : (firstDecoded codec ((splitlines x).zipIdx n).reverse).map (Option.map Prod.snd) =
      lastValue codec (splitlines x) := firstDecoded_value codec (by simp [List.map_reverse])
  rw [← lastValue_none_iff, ← hvalue]
  cases firstDecoded codec ((splitlines x).zipIdx n).reverse with
  | error exc => simp [Except.map]
  | ok found => simp [Except.map]

end SandboxLogs
end PyFaaS
