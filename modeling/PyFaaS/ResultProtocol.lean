import PyFaaS.Runner

/-!
# The result line on the shared pipe

The runner prints its report on a pipe that user code shares. The reader finds this
very line exactly if the streams still lead to the pipe, the report starts at a
line start, that is, user code left no open line behind the last line of `main`, and
nothing decodable is written behind it.
-/

namespace PyFaaS.Runner
open BufferedOutput TextLines SandboxLogs

/-! ## What user code leaves open -/

/-- The console behind the line on stderr, up to the result line. -/
def Raised.leftOpen (g : Console) (exc : Raised) : Console :=
  (g.writes exc.describe.writes).afterPrintErr.writes exc.again.writes

def Called.leftOpen (g : Console) (ran : UserRun Called) : Console :=
  let g := g.writes ran.writes
  match ran.ends with
  | .escape _ => g
  | .raised exc => exc.leftOpen g
  | .returned v =>
    let g := g.afterPrint.writes v.dumps.writes
    match v.dumps.ends with
    | .raised exc => exc.leftOpen g
    | _ => g

/-- The console without the whole lines up to the last one that `main` printed
itself: what stays in the buffer when that line goes to stderr, what user code
called for the report writes, and where the streams lead. -/
def leftOpen (codec : JsonCodec) (env : Environment) (w : World) : Console :=
  if (setUp env w).failure.isSome then .start
  else
    let g := Console.start.writes w.load.writes
    match w.load.ends with
    | .escape _ => g
    | .raised exc => exc.leftOpen g
    | .handler =>
      match parsePayload codec env.payload with
      | .error _ => g
      | .ok payload => Called.leftOpen g.afterPrint (w.call payload)

def Framed (codec : JsonCodec) (f : Finished) (g : Console) : Prop :=
  ∀ c r, f.report = some (c, r) → g.Lies c ∧ f.console = c.print (marker ++ codec.dumps r) ∧
    ∃ code, f.exit = .returned code

variable {codec : JsonCodec} {g c : Console}

theorem framed_stop (c : Console) (e : Escape) (g : Console) : Framed codec (stop c e) g := by
  intro c' r h
  cases h

theorem framed_emitResult {r : Json} {code : ℤ} (h : g.Lies c) : Framed codec (emitResult codec c r code) g := by
  intro c' r' hreport
  obtain ⟨rfl, rfl⟩ := Prod.mk.inj (Option.some.inj hreport)
  exact ⟨h, rfl, code, rfl⟩

theorem framed_reportRaised (h : g.Lies c) (exc : Raised) (line : Text → Text → Text)
    (result : Text → Text → Json) : Framed codec (reportRaised codec c exc line result) (exc.leftOpen g) := by
  unfold reportRaised Raised.leftOpen
  cases hdescribe : exc.describe.ends with
  | error e => exact framed_stop _ _ _
  | ok described =>
    obtain ⟨text, traceback⟩ := described
    simp only
    cases hagain : exc.again.ends with
    | error e => exact framed_stop _ _ _
    | ok text' => exact framed_emitResult (((h.writes _).printErr _).writes _)

theorem framed_executionFailed (h : g.Lies c) (exc : Raised) :
    Framed codec (executionFailed codec c exc) (exc.leftOpen g) := by
  unfold executionFailed
  split_ifs
  · exact framed_reportRaised h _ _ _
  · exact framed_reportRaised h _ _ _

theorem framed_execute (h : g.Lies c) (ran : UserRun Called) :
    Framed codec (execute codec ran c) (Called.leftOpen g ran) := by
  unfold execute Called.leftOpen
  cases hran : ran.ends with
  | escape e => exact framed_stop _ _ _
  | raised exc => exact framed_executionFailed (h.writes _) exc
  | returned v =>
    have hdumps := ((h.writes ran.writes).print
      ("[sopm-runner] completed in ".toList ++ v.seconds ++ ['s'])).writes v.dumps.writes
    simp only
    cases hends : v.dumps.ends with
    | escape e => exact framed_stop _ _ _
    | raised exc => exact framed_executionFailed hdumps exc
    | encodes j => exact framed_emitResult hdumps

theorem framed_loadAndExecute (env : Environment) {w : World} (h : Console.start.Lies c)
    (hsetUp : (setUp env w).failure = none) :
    Framed codec (loadAndExecute codec env w c) (leftOpen codec env w) := by
  have hload := h.writes w.load.writes
  unfold loadAndExecute leftOpen
  simp only [hsetUp, Option.isSome_none, Bool.false_eq_true, if_false]
  cases hends : w.load.ends with
  | escape e => exact framed_stop _ _ _
  | raised exc => exact framed_reportRaised hload _ _ _
  | handler =>
    simp only
    cases hparse : parsePayload codec env.payload with
    | error traceback => exact framed_stop _ _ _
    | ok payload => exact framed_execute (hload.print _) _

theorem framed_main (env : Environment) (w : World) :
    Framed codec (main codec env w) (leftOpen codec env w) := by
  unfold main
  cases hprologue : w.prologue with
  | some e => exact framed_stop _ _ _
  | none =>
    have hlines := Console.lies_start.prints (setUp env w).lines
    simp only
    cases hsetUp : (setUp env w).failure with
    | none => exact framed_loadAndExecute env hlines hsetUp
    | some failure =>
      simp only [leftOpen, hsetUp, Option.isSome_some, if_true]
      exact framed_emitResult (hlines.printErr _)

/-! ## What stands behind the report -/

def lateText (late : UserRun (Option ℤ)) : Text := closing .start late

theorem closing_flushed (hpending : c.pending = []) (late : UserRun (Option ℤ)) :
    closing c late = c.pipe ++ lateText late := by
  have hbehind :
      Console.writes (.behind c.pipe .start) late.writes = (Console.start.writes late.writes).behind c.pipe :=
    Console.writes_behind _ _ _
  obtain ⟨hpipe, hrest⟩ := Console.writes_congr (c := c) (d := .behind c.pipe .start)
    (by simp [Console.behind, Console.start]) hpending late.writes
  rw [hbehind] at hpipe hrest
  unfold lateText closing
  cases late.ends with
  | none => rw [Console.text, hpipe, hrest, Console.behind, List.append_assoc, Console.text]
  | some status => exact hpipe

theorem output_of_report {f : Finished} {r : Json} {late : UserRun (Option ℤ)} (h : Framed codec f g)
    (hreport : f.report = some (c, r)) (hstdout : c.stdout = true) :
    f.output late = c.text ++ (marker ++ codec.dumps r ++ ['\n']) ++ lateText late := by
  obtain ⟨-, hconsole, code, hexit⟩ := h c r hreport
  obtain ⟨hpipe, hpending⟩ := Console.text_print hstdout (marker ++ codec.dumps r)
  rw [Finished.output, hexit, hconsole, ← hpipe]
  exact closing_flushed hpending late

/-! ## The round trip -/

/-- The report of `main` reached the pipe, the reader decodes its line, which stands
in front of what is written late, and the line carries `r`. -/
def Delivers (codec : JsonCodec) (late output : Text) (c : Console) (r : Json) : Prop :=
  c.stdout = true ∧ ∃ i, decodedLine codec output = .ok (some (i, r)) ∧
    i + 1 + (splitlines late).length = (splitlines output).length ∧
    (splitlines output)[i]? = some (marker ++ codec.dumps r)

/-- The streams still lead to the pipe, no line is open where the report goes, and
no line behind it is read for another one. -/
structure Undisturbed (codec : JsonCodec) (g : Console) (late : UserRun (Option ℤ)) : Prop where
  stdout : g.stdout = true
  lineStart : AtLineStart g.text
  late : decodedLine codec (lateText late) = .ok none

theorem undisturbed_iff {late : UserRun (Option ℤ)} : Undisturbed codec g late ↔
    g.stdout = true ∧ AtLineStart g.text ∧ decodedLine codec (lateText late) = .ok none :=
  ⟨fun h => ⟨h.stdout, h.lineStart, h.late⟩, fun h => ⟨h.1, h.2.1, h.2.2⟩⟩

instance (codec : JsonCodec) (g : Console) (late : UserRun (Option ℤ)) : Decidable (Undisturbed codec g late) :=
  decidable_of_iff _ undisturbed_iff.symm

theorem decodedLine_front {y late : Text} {i : ℕ} {r : Json} (hi : i < (splitlines (y ++ ['\n'])).length) :
    decodedLine codec (y ++ ['\n'] ++ late) = .ok (some (i, r)) ↔
      decodedLine codec (y ++ ['\n']) = .ok (some (i, r)) ∧ decodedLine codec late = .ok none := by
  rw [decodedLine_append_closed, ← firstDecoded_none_iff codec late (splitlines (y ++ ['\n'])).length]
  cases hlate : firstDecoded codec ((splitlines late).zipIdx (splitlines (y ++ ['\n'])).length).reverse with
  | error exc => simp
  | ok found =>
    cases found with
    | none => simp
    | some numbered =>
      obtain ⟨k, j⟩ := numbered
      obtain ⟨line, hmem, -⟩ := firstDecoded_some hlate
      have hk := (List.mem_zipIdx (List.mem_reverse.mp hmem)).1
      have hne : k ≠ i := by omega
      simp [hne]

theorem delivers_iff {x late : Text} {r : Json} (hr : codec.Carries r) :
    Delivers codec late (x ++ (marker ++ codec.dumps r ++ ['\n']) ++ late) c r ↔
      c.stdout = true ∧ AtLineStart x ∧ decodedLine codec late = .ok none := by
  have hbody := JsonCodec.oneLine_of_printable hr.printable
  have hline := splitlines_append_line x (oneLine_append marker_oneLine hbody) (marker_append_ne_nil _)
  have hassoc : x ++ (marker ++ codec.dumps r ++ ['\n']) = x ++ (marker ++ codec.dumps r) ++ ['\n'] := by simp
  have hlength : (splitlines (x ++ (marker ++ codec.dumps r ++ ['\n']))).length = (scan x).lines.length + 1 := by
    rw [hline, List.length_append, List.length_singleton]
  have hsplit := splitlines_append_closed (x ++ (marker ++ codec.dumps r)) late
  rw [← hassoc] at hsplit
  have hfront := @decodedLine_front codec (x ++ (marker ++ codec.dumps r)) late (scan x).lines.length r
  rw [← hassoc, hlength] at hfront
  constructor
  · rintro ⟨hstdout, i, hi, hlen, hget⟩
    rw [hsplit, List.length_append, hlength] at hlen
    obtain rfl : i = (scan x).lines.length := by omega
    refine ⟨hstdout, ?_, ((hfront (by omega)).mp hi).2⟩
    by_contra hx
    rw [hsplit, List.getElem?_append_left (by omega)] at hget
    exact not_printed_line_of_open hx hbody hget
  · rintro ⟨hstdout, hx, hlate⟩
    refine ⟨hstdout, (scan x).lines.length, ?_, ?_, ?_⟩
    · exact (hfront (by omega)).mpr ⟨decodedLine_of_atLineStart codec hx hbody hr.inverse, hlate⟩
    · rw [hsplit, List.length_append, hlength]
    · rw [hsplit, List.getElem?_append_left (by omega), hline, hx]
      simp

/-- What the claim on the protocol takes for granted: the streams of `main` stay in
place and nothing is written behind it. -/
structure PlainStreams (codec : JsonCodec) (env : Environment) (w : World) : Prop where
  stdout : (leftOpen codec env w).stdout = true
  late : w.late = ⟨[], none⟩

theorem PlainStreams.undisturbed_iff {env : Environment} {w : World} (h : PlainStreams codec env w) :
    Undisturbed codec (leftOpen codec env w) w.late ↔ AtLineStart (leftOpen codec env w).text := by
  have hlate : decodedLine codec (lateText w.late) = .ok none := by
    rw [h.late]
    rfl
  exact ⟨fun hundisturbed => hundisturbed.lineStart, fun hopen => ⟨h.stdout, hopen, hlate⟩⟩

theorem delivered_iff {env : Environment} {w : World} {r : Json}
    (hreport : (main codec env w).report = some (c, r)) (hr : codec.Carries r) :
    Delivers codec (lateText w.late) (processOutput codec env w) c r ↔
      Undisturbed codec (leftOpen codec env w) w.late := by
  have hframed : Framed codec (main codec env w) (leftOpen codec env w) := framed_main env w
  have hlies := (hframed c r hreport).1
  rw [undisturbed_iff, ← hlies.stdout, ← hlies.atLineStart_iff]
  by_cases hstdout : c.stdout = true
  · rw [processOutput, output_of_report hframed hreport hstdout, delivers_iff hr]
  · exact iff_of_false (fun h => hstdout h.1) fun h => hstdout h.1

/-- The reported object arrives, read off the line the runner printed, exactly if the
report is not disturbed: as long as the streams stay in place and nothing is written
behind `main`, exactly if the text left open before the report ends at a line start. -/
theorem result_delivered_iff {env : Environment} {w : World} {r : Json}
    (hreport : (main codec env w).report = some (c, r)) (hr : codec.Carries r) :
    (Delivers codec (lateText w.late) (processOutput codec env w) c r ↔
      Undisturbed codec (leftOpen codec env w) w.late) ∧
    (PlainStreams codec env w → (Delivers codec (lateText w.late) (processOutput codec env w) c r ↔
      AtLineStart (leftOpen codec env w).text)) :=
  ⟨delivered_iff hreport hr, fun hplain => (delivered_iff hreport hr).trans hplain.undisturbed_iff⟩

/-! ## A handler that leaves a line open -/

def sampleEnvironment : Environment where
  executionId := "1".toList
  artifactPath := some []
  entrypoint := "handler.handler".toList
  payload := "{}".toList
  sourceCode := some "def handler(): return {}".toList
  workDir := "/tmp/sopm-exec-1".toList

def sampleWorld (ran : UserRun Called) : World where
  prologue := none
  extracted := false
  writeInlineSource := .ok ()
  downloadArtifact := .ok ()
  extractArchive := .ok ()
  requirements := .absent
  load := ⟨[], .handler⟩
  call := fun _ => ran
  late := ⟨[], none⟩

def boom : Raised where
  isTimeout := false
  describe := ⟨[], .ok ("boom".toList, "ValueError: boom\n".toList)⟩
  again := ⟨[], .ok "boom".toList⟩

def alarmRaised : Raised where
  isTimeout := true
  describe := ⟨[], .ok ("Execution exceeded timeout of 30s".toList, [])⟩
  again := ⟨[], .ok "Execution exceeded timeout of 30s".toList⟩

def sampleCodec : JsonCodec := .ofTable
  [(.obj [], "\x7b\x7d".toList),
    (.obj [("success".toList, .bool true), ("result".toList, .obj []), ("duration_ms".toList, .int 0)],
      "\x7b\"success\": true, \"result\": \x7b\x7d, \"duration_ms\": 0\x7d".toList),
    (.obj [("success".toList, .bool false), ("error".toList, .str "boom".toList),
        ("traceback".toList, .str "ValueError: boom\n".toList)],
      "\x7b\"success\": false, \"error\": \"boom\", \"traceback\": \"ValueError: boom\\n\"\x7d".toList),
    (.obj [("success".toList, .bool false), ("error".toList, .str "Execution exceeded timeout of 30s".toList),
        ("timed_out".toList, .bool true)],
      "\x7b\"success\": false, \"error\": \"Execution exceeded timeout of 30s\", \"timed_out\": true\x7d".toList)]

/-- `print("x", end="")` and then a plain return. -/
def printingWorld : World :=
  sampleWorld ⟨[.out "x".toList], .returned ⟨true, "0.000".toList, 0, ⟨[], .encodes (.obj [])⟩⟩⟩

theorem result_delivered_printed : ∃ c r, (main sampleCodec sampleEnvironment printingWorld).report = some (c, r) ∧
    r = .obj [("success".toList, .bool true), ("result".toList, .obj []), ("duration_ms".toList, .int 0)] ∧
    Delivers sampleCodec [] (processOutput sampleCodec sampleEnvironment printingWorld) c r :=
  ⟨_, _, rfl, rfl, ((result_delivered_iff (by rfl) ⟨by decide, by rfl⟩).2 ⟨by rfl, rfl⟩).mpr (by decide)⟩

/-- `print("x", end="")` and then `raise ValueError("boom")`. -/
theorem result_lost_behind_open_line :
    ¬ ∀ (codec : JsonCodec) (env : Environment) (w : World) (c : Console) (r : Json),
      PlainStreams codec env w → (main codec env w).report = some (c, r) → codec.Carries r →
        parseResultFromLogs codec (processOutput codec env w) = .ok r.toPython := by
  intro hclaim
  have hparse := hclaim sampleCodec sampleEnvironment (sampleWorld ⟨[.out "x".toList], .raised boom⟩)
    _ _ ⟨by rfl, rfl⟩ rfl ⟨by decide, by rfl⟩
  have hnone : parseResultFromLogs sampleCodec (processOutput sampleCodec sampleEnvironment
      (sampleWorld ⟨[.out "x".toList], .raised boom⟩)) = .ok none := by
    decide +kernel
  rw [hnone] at hparse
  exact absurd hparse (by decide)

end PyFaaS.Runner
