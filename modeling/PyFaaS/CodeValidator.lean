import PyFaaS.PythonSyntax
import Mathlib.Data.List.Infix

/-!
# The code validator

`shared/security/code_validator.py`: the deny lists, the visitor that reports each
forbidden construct, and the checks of an uploaded archive around it. `zipfile`,
the decoder and `ast.parse` are given.
-/

namespace PyFaaS.CodeValidator
open PythonSyntax

def texts (words : List String) : List Text := words.map String.toList

def deniedBuiltins : List Text := texts ["eval", "exec", "compile", "__import__", "open", "input"]

def deniedModules : List Text := texts
  ["subprocess", "socket", "os", "sys", "ctypes", "cffi", "importlib", "imp", "builtins", "shutil", "pathlib",
    "glob", "tempfile", "pty", "atexit", "signal", "multiprocessing", "threading", "concurrent", "asyncio", "ssl",
    "http", "urllib", "ftplib", "smtplib", "telnetlib", "xmlrpc", "pickle", "shelve", "marshal", "copyreg", "code",
    "codeop", "dis", "inspect", "gc", "weakref"]

def deniedAttributes : List Text := texts
  ["system", "popen", "spawn", "exec", "execve", "execvp", "fork", "kill", "listdir", "getcwd", "chdir", "environ",
    "__dict__", "__class__", "__bases__", "__subclasses__", "__mro__", "__globals__", "__builtins__", "__code__",
    "__closure__"]

def listed (names : List Text) (name : Text) : Bool := names.any fun n => decide (n = name)

theorem listed_eq_false {names : List Text} {name : Text} : listed names name = false ↔ name ∉ names := by
  rw [listed, List.any_eq_false, ← List.forall_mem_ne']
  simp only [decide_eq_true_iff]

def maxFileSize : ℕ := 10 * 1024 * 1024

def maxFiles : ℕ := 50

structure ValidationViolation where
  file : Text
  line : ℕ
  col : ℕ
  message : Text
  severity : Text
  deriving DecidableEq

structure ValidationResult where
  isValid : Bool
  violations : List ValidationViolation
  filesChecked : ℕ
  error : Option Text
  deriving DecidableEq

namespace ValidationResult

def addViolation (r : ValidationResult) (file : Text) (line col : ℕ) (message : Text) : ValidationResult :=
  { r with violations := r.violations ++ [⟨file, line, col, message, "ERROR".toList⟩], isValid := false }

def fail (r : ValidationResult) (error : Text) : ValidationResult := { r with isValid := false, error := some error }

end ValidationResult

/-! ## The visitor -/

section
variable (file : Text) (node : Node) (genericVisit : ValidationResult → ValidationResult) (r : ValidationResult)

def flagIf (c : Bool) (message : Text) : ValidationResult :=
  if c then r.addViolation file node.label.lineno node.label.colOffset message else r

def root (name : Text) : Text := name.takeWhile fun c => c != '.'

def visitImport (names : List Alias) : ValidationResult :=
  genericVisit (names.foldl (fun r a => flagIf file node r (listed deniedModules (root a.name))
    ("Forbidden import: '".toList ++ a.name ++ "'".toList)) r)

def visitImportFrom (module : Option Text) : ValidationResult :=
  let module := module.getD []
  genericVisit (flagIf file node r (listed deniedModules (root module))
    ("Forbidden import: 'from ".toList ++ module ++ " import ...'".toList))

def visitCall : ValidationResult :=
  match node.func.map Node.shape with
  | some (.name id) =>
    let r := flagIf file node r (listed deniedBuiltins id) ("Forbidden call: '".toList ++ id ++ "()'".toList)
    genericVisit (flagIf file node r (decide (id = "__import__".toList))
      "Dynamic imports via __import__() are forbidden".toList)
  | some (.attribute attr) =>
    genericVisit (flagIf file node r (listed deniedAttributes attr)
      ("Forbidden attribute access: '.".toList ++ attr ++ "'".toList))
  | _ => genericVisit r

def visitAttribute (attr : Text) : ValidationResult :=
  genericVisit (flagIf file node r (listed deniedAttributes attr)
    ("Forbidden attribute: '.".toList ++ attr ++ "'".toList))

def visitName (id : Text) : ValidationResult :=
  genericVisit (flagIf file node r (listed deniedBuiltins id)
    ("Use of forbidden name: '".toList ++ id ++ "'".toList))

def visitGlobal (names : List Text) : ValidationResult :=
  genericVisit (names.foldl (fun r name => flagIf file node r (decide (name = "__builtins__".toList))
    "Manipulation of '__builtins__' is forbidden".toList) r)

/-- The `visit_` method for the class of the node; a class without one is visited by
`generic_visit`. -/
def visitMethod : ValidationResult :=
  match node.shape with
  | .import names => visitImport file node genericVisit r names
  | .importFrom module _ _ => visitImportFrom file node genericVisit r module
  | .call => visitCall file node genericVisit r
  | .attribute attr => visitAttribute file node genericVisit r attr
  | .name id => visitName file node genericVisit r id
  | .global names => visitGlobal file node genericVisit r names
  | _ => genericVisit r

end

/-! ## Files -/

structure SyntaxError where
  lineno : Option ℕ
  offset : Option ℕ
  msg : Text

/-- `bytes.decode("utf-8", errors="replace")` and `ast.parse`. -/
structure Python where
  decode : List UInt8 → Text
  parse : Text → Text → Except SyntaxError Node

structure Member where
  name : Text
  fileSize : ℕ
  data : List UInt8

variable (python : Python)

def validateSource (source filename : Text) (r : ValidationResult) : ValidationResult :=
  match python.parse source filename with
  | .error exc =>
    r.addViolation filename (exc.lineno.getD 0) (exc.offset.getD 0) ("Syntax error: ".toList ++ exc.msg)
  | .ok tree => tree.visit (visitMethod filename) r

def getinfo (members : List Member) (member : Member) : Member :=
  (members.filter fun m => decide (m.name = member.name)).getLast?.getD member

def checkFiles (members : List Member) : List Member → ValidationResult → ValidationResult
  | [], r => r
  | member :: rest, r =>
    let info := getinfo members member
    if maxFileSize < info.fileSize then r.fail ("File ".toList ++ member.name ++ " exceeds size limit".toList)
    else
      let r := validateSource python (python.decode info.data) member.name { r with filesChecked := r.filesChecked + 1 }
      -- too many violations
      if !r.isValid && decide (10 < r.violations.length) then r else checkFiles members rest r

def suspicious (name : Text) : Bool := decide ("/".toList <+: name) || decide ("..".toList <:+: name)

def isPython (member : Member) : Bool := decide (".py".toList <:+ member.name)

/-- `none` is no ZIP archive. -/
def validateArchive (zip : Option (List Member)) : ValidationResult :=
  let result : ValidationResult := ⟨true, [], 0, none⟩
  match zip with
  | none => result.fail "Uploaded file is not a valid ZIP archive".toList
  | some members =>
    if maxFiles < members.length then
      result.fail ("Archive contains too many files: ".toList ++ (toString members.length).toList ++ " > ".toList ++
        (toString maxFiles).toList)
    else
      match (members.map Member.name).find? suspicious with
      | some name => result.fail ("Suspicious path in archive: ".toList ++ name)
      | none =>
        let pyFiles := members.filter isPython
        if pyFiles.isEmpty then result.fail "Archive contains no Python (.py) files".toList
        else checkFiles python members pyFiles result

end PyFaaS.CodeValidator
