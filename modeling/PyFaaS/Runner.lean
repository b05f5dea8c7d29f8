import PyFaaS.BufferedOutput
import PyFaaS.SandboxLogs

/-!
# The runner process

`main` of `sandbox/runner.py`: the preparation of the work directory, the import
of the handler module, the call and the report. User code runs at the import, in
the call, in the encoding of the returned object and in the conversion of an
exception to text; each time it may write and may end in any way. It may also put
an object of its own in the place of a stream: what such an object passes on, or
raises, belongs to the user code that runs next. Behind `main` finalizers, exit
hooks and threads of user code may still write. What the file system, the artifact
store and pip answer is given.
-/

namespace PyFaaS.Runner
open BufferedOutput TextLines SandboxLogs

inductive SystemExitCode where
  | none
  | int (n : ℤ)
  | other (message : Text)
  deriving DecidableEq, Repr

/-- The ways past every `except Exception` of `main`. A killed process flushes
nothing. -/
inductive Escape where
  | systemExit (code : SystemExitCode)
  | uncaught (traceback : Text)
  | interrupt (traceback : Text)
  | killed (status : ℤ)
  deriving DecidableEq, Repr

structure UserRun (α : Type) where
  writes : List Write
  ends : α
  deriving DecidableEq, Repr

/-- An exception that `except Exception` catches: its text and traceback for the
line on stderr, and its text once more for the result. -/
structure Raised where
  isTimeout : Bool
  describe : UserRun (Except Escape (Text × Text))
  again : UserRun (Except Escape Text)
  deriving DecidableEq

inductive Loaded where
  | handler
  | raised (exc : Raised)
  | escape (e : Escape)
  deriving DecidableEq

inductive Dumped where
  | encodes (j : Json)
  | raised (exc : Raised)
  | escape (e : Escape)
  deriving DecidableEq

structure Returned where
  isDict : Bool
  seconds : Text
  durationMs : ℤ
  dumps : UserRun Dumped
  deriving DecidableEq

inductive Called where
  | returned (v : Returned)
  | raised (exc : Raised)
  | escape (e : Escape)
  deriving DecidableEq

inductive Requirements where
  | absent
  | installed
  | blocked (exc : Text)
  | install (outcome : Except Text Unit)

structure Environment where
  executionId : Text
  artifactPath : Option Text
  entrypoint : Text
  payload : Text
  sourceCode : Option Text
  workDir : Text

/-- User code behind `main` may end the process with another status than the one
`main` leaves with; the buffer is lost then. -/
structure World where
  prologue : Option Escape
  extracted : Bool
  writeInlineSource : Except Text Unit
  downloadArtifact : Except Text Unit
  extractArchive : Except Text Unit
  requirements : Requirements
  load : UserRun Loaded
  call : Json → UserRun Called
  late : UserRun (Option ℤ)

/-! ## Before any user code -/

/-- Lines on stdout, and the line on stderr with the report of a failed step. -/
structure Setup where
  lines : List Text
  failure : Option (Text × Json)

def Setup.done (lines : List Text) : Setup := ⟨lines, none⟩

def Setup.refuse (lines : List Text) (message : Text) (extra : List (Text × Json)) : Setup :=
  ⟨lines, some ("[sopm-runner] ERROR: ".toList ++ message,
    .obj ([("error".toList, .str message), ("success".toList, .bool false)] ++ extra))⟩

def Setup.andThen (s t : Setup) : Setup :=
  match s.failure with
  | some _ => s
  | none => ⟨s.lines ++ t.lines, t.failure⟩

def fetchSource (env : Environment) (w : World) : Setup :=
  match env.sourceCode with
  | some _ =>
    let lines := ["[sopm-runner] using inline source for ".toList ++ env.entrypoint]
    match w.writeInlineSource with
    | .error exc => .refuse lines ("inline source write failed: ".toList ++ exc) []
    | .ok () => .done lines
  | none =>
    if w.extracted then .done ["[sopm-runner] using cached artifact: ".toList ++ env.workDir]
    else match env.artifactPath with
      | none => .refuse [] "SOPM_ARTIFACT_PATH is required without SOPM_SOURCE_CODE".toList []
      | some path =>
        if path.isEmpty then
          .refuse [] "SOPM_ARTIFACT_PATH is required without SOPM_SOURCE_CODE".toList []
        else
          let lines := ["[sopm-runner] downloading artifact: ".toList ++ path]
          match w.downloadArtifact with
          | .error exc => .refuse lines ("artifact download failed: ".toList ++ exc) []
          | .ok () =>
            match w.extractArchive with
            | .error exc => .refuse lines ("archive extraction failed: ".toList ++ exc) []
            | .ok () => .done lines

def installRequirementsIfNeeded (w : World) : Setup :=
  let phase := [("phase".toList, Json.str "dependency_install".toList)]
  match w.requirements with
  | .absent => .done []
  | .installed => .done []
  | .blocked exc => .refuse [] ("dependency install failed: ".toList ++ exc) phase
  | .install outcome =>
    let lines := ["[sopm-runner] installing dependencies from requirements.txt".toList]
    match outcome with
    | .error exc => .refuse lines ("dependency install failed: ".toList ++ exc) phase
    | .ok () => .done lines

def setUp (env : Environment) (w : World) : Setup :=
  (Setup.done ["[sopm-runner] execution_id=".toList ++ env.executionId]).andThen
    ((fetchSource env w).andThen (installRequirementsIfNeeded w))

/-! ## Reports -/

inductive Exit where
  | returned (code : ℤ)
  | escape (e : Escape)
  deriving DecidableEq, Repr

/-- `report` keeps what was written before the result line, and the object. -/
structure Finished where
  console : Console
  exit : Exit
  report : Option (Console × Json)

def stop (c : Console) (e : Escape) : Finished := ⟨c, .escape e, none⟩

section
variable (codec : JsonCodec)

def emitResult (c : Console) (r : Json) (code : ℤ) : Finished :=
  ⟨c.print (marker ++ codec.dumps r), .returned code, some (c, r)⟩

def reportRaised (c : Console) (exc : Raised) (line : Text → Text → Text)
    (result : Text → Text → Json) : Finished :=
  match exc.describe.ends with
  | .error e => stop (c.writes exc.describe.writes) e
  | .ok (text, traceback) =>
    let c := ((c.writes exc.describe.writes).printErr (line text traceback)).writes exc.again.writes
    match exc.again.ends with
    | .error e => stop c e
    | .ok text => emitResult codec c (result text traceback) 1

def loadFailed (c : Console) (exc : Raised) : Finished :=
  reportRaised codec c exc
    (fun text _ => "[sopm-runner] ERROR: handler load failed: ".toList ++ text)
    (fun text _ => .obj [("error".toList, .str ("handler load failed: ".toList ++ text)),
      ("success".toList, .bool false)])

def executionFailed (c : Console) (exc : Raised) : Finished :=
  if exc.isTimeout then
    reportRaised codec c exc
      (fun text _ => "[sopm-runner] TIMEOUT: ".toList ++ text)
      (fun text _ => .obj [("success".toList, .bool false), ("error".toList, .str text),
        ("timed_out".toList, .bool true)])
  else
    reportRaised codec c exc
      (fun text traceback => "[sopm-runner] ERROR: ".toList ++ text ++ ['\n'] ++ traceback)
      (fun text traceback => .obj [("success".toList, .bool false), ("error".toList, .str text),
        ("traceback".toList, .str traceback)])

def successResult (v : Returned) (j : Json) : Json :=
  .obj [("success".toList, .bool true),
    ("result".toList, if v.isDict then j else .obj [("return_value".toList, j)]),
    ("duration_ms".toList, .int v.durationMs)]

def execute (ran : UserRun Called) (c : Console) : Finished :=
  let c := c.writes ran.writes
  match ran.ends with
  | .escape e => stop c e
  | .raised exc => executionFailed codec c exc
  | .returned v =>
    let c := (c.print ("[sopm-runner] completed in ".toList ++ v.seconds ++ ['s'])).writes v.dumps.writes
    match v.dumps.ends with
    | .escape e => stop c e
    | .raised exc => executionFailed codec c exc
    | .encodes j => emitResult codec c (successResult v j) 0

def parsePayload (raw : Text) : Except Text Json :=
  match codec.loads raw with
  | .ok payload => .ok payload
  | .error .decodeError => .ok (.obj [])
  | .error (.raised message) => .error message

def loadAndExecute (env : Environment) (w : World) (c : Console) : Finished :=
  let c := c.writes w.load.writes
  match w.load.ends with
  | .escape e => stop c e
  | .raised exc => loadFailed codec c exc
  | .handler =>
    match parsePayload codec env.payload with
    | .error traceback => stop c (.uncaught traceback)
    | .ok payload =>
      execute codec (w.call payload) (c.print ("[sopm-runner] executing ".toList ++ env.entrypoint))

def main (env : Environment) (w : World) : Finished :=
  match w.prologue with
  | some e => stop .start e
  | none =>
    let c := (setUp env w).lines.foldl Console.print .start
    match (setUp env w).failure with
    | some (line, r) => emitResult codec (c.printErr line) r 1
    | none => loadAndExecute codec env w c

def calledWith (env : Environment) (w : World) : Option Json :=
  match w.prologue, (setUp env w).failure, w.load.ends with
  | none, none, .handler => (parsePayload codec env.payload).toOption
  | _, _, _ => none

theorem main_calls_not {env : Environment} {w : World} (h : calledWith codec env w = none)
    (call : Json → UserRun Called) : main codec env { w with call := call } = main codec env w := by
  have hsetUp : setUp env { w with call := call } = setUp env w := rfl
  simp only [main, hsetUp]
  cases hprologue : w.prologue with
  | some e => rfl
  | none =>
    cases hfailure : (setUp env w).failure with
    | some failure => rfl
    | none =>
      simp only [loadAndExecute]
      cases hload : w.load.ends with
      | escape e => rfl
      | raised exc => rfl
      | handler =>
        cases hparse : parsePayload codec env.payload with
        | error traceback => rfl
        | ok payload => simp [calledWith, hprologue, hfailure, hload, hparse, Except.toOption] at h

end

/-! ## The signature of the handler -/

structure Signature where
  hasVarargs : Bool
  required : ℕ

def Signature.arguments (signature : Signature) (payload context : Json) : List Json :=
  if signature.hasVarargs || decide (2 ≤ signature.required) then [payload, context]
  else if signature.required = 1 then [payload]
  else []

def Signature.takesEvent (signature : Signature) : Bool :=
  signature.hasVarargs || decide (1 ≤ signature.required)

theorem Signature.arguments_head {signature : Signature} {payload context event : Json} :
    (signature.arguments payload context).head? = some event ↔ signature.takesEvent = true ∧ payload = event := by
  unfold arguments takesEvent
  by_cases hvarargs : signature.hasVarargs = true
  · simp [hvarargs]
  · by_cases htwo : 2 ≤ signature.required
    · simp [htwo, show 1 ≤ signature.required by omega]
    · by_cases hone : signature.required = 1
      · simp [hvarargs, hone]
      · simp [hvarargs, htwo, hone, show ¬ 1 ≤ signature.required by omega]

/-! ## The end of the process -/

def SystemExitCode.status : SystemExitCode → ℤ
  | .none => 0
  | .int n => if -9223372036854775808 ≤ n ∧ n < 9223372036854775808 then n % 256 else 255
  | .other _ => 1

def Escape.status : Escape → ℤ
  | .systemExit code => code.status
  | .uncaught _ => 1
  | .interrupt _ => -2
  | .killed status => status

def Exit.status : Exit → ℤ
  | .returned code => code
  | .escape e => e.status

/-- The pipe at the end of a process whose buffer is flushed unless user code ends it. -/
def closing (c : Console) (late : UserRun (Option ℤ)) : Text :=
  match late.ends with
  | none => (c.writes late.writes).text
  | some _ => (c.writes late.writes).pipe

/-- The interpreter writes an uncaught exception to stderr before it runs what is
left of user code. -/
def Finished.output (f : Finished) (late : UserRun (Option ℤ)) : Text :=
  match f.exit with
  | .returned _ => closing f.console late
  | .escape (.systemExit (.other message)) => closing (f.console.printErr message) late
  | .escape (.systemExit _) => closing f.console late
  | .escape (.uncaught traceback) => closing (f.console.writeErr traceback) late
  | .escape (.interrupt traceback) => closing (f.console.writeErr traceback) late
  | .escape (.killed _) => f.console.pipe

def Finished.status (f : Finished) (late : UserRun (Option ℤ)) : ℤ :=
  match f.exit with
  | .escape (.killed status) => status
  | exit => late.ends.getD exit.status

def processOutput (codec : JsonCodec) (env : Environment) (w : World) : Text := (main codec env w).output w.late

def processStatus (codec : JsonCodec) (env : Environment) (w : World) : ℤ := (main codec env w).status w.late

end PyFaaS.Runner
