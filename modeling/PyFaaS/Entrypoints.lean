import Mathlib.Computability.Language
import Mathlib.Data.List.DropRight
import PyFaaS.Directories
import PyFaaS.Submissions

/-!
# Entrypoints

The pattern that `FunctionVersionCreateRequest` and `EphemeralExecutionRequest` ask of an
entrypoint, and the file that `_write_inline_source` writes and `_load_handler` executes
for it in `sandbox/runner.py`.
-/

namespace PyFaaS.Entrypoints
open Api Directories
open scoped Computability

/-! ## The pattern -/

def one (p : Char → Bool) : Language Char := {w | ∃ c, p c = true ∧ w = [c]}

/-- `^[a-zA-Z_][a-zA-Z0-9_.]*\.[a-zA-Z_][a-zA-Z0-9_]*$` -/
def entrypointPattern : Language Char :=
  one isIdentifierStart * (one fun c => isIdentifierPart c || decide (c = '.'))∗ * one (fun c => decide (c = '.')) *
    (one isIdentifierStart * (one isIdentifierPart)∗)

variable {p : Char → Bool} {L : Language Char} {w x y suffix module func entrypoint : Text} {c : Char}

theorem mem_one_mul : w ∈ one p * L ↔ ∃ c x, p c = true ∧ x ∈ L ∧ w = c :: x := by
  constructor
  · intro h
    obtain ⟨-, ⟨c, hc, rfl⟩, x, hx, rfl⟩ := Language.mem_mul.mp h
    exact ⟨c, x, hc, hx, rfl⟩
  · intro ⟨c, x, hc, hx, hw⟩
    exact Language.mem_mul.mpr ⟨[c], ⟨c, hc, rfl⟩, x, hx, hw.symm⟩

theorem mem_one_kstar : w ∈ (one p)∗ ↔ w.all p = true := by
  rw [Language.mem_kstar, List.all_eq_true]
  constructor
  · intro ⟨parts, hw, hparts⟩ c hc
    rw [hw, List.mem_flatten] at hc
    obtain ⟨part, hpart, hc⟩ := hc
    obtain ⟨d, hd, rfl⟩ := hparts part hpart
    rwa [List.mem_singleton.mp hc]
  · intro h
    refine ⟨w.map fun c => [c], (List.flatMap_singleton' w).symm, fun part hpart => ?_⟩
    obtain ⟨c, hc, rfl⟩ := List.mem_map.mp hpart
    exact ⟨c, h c hc, rfl⟩

theorem mem_entrypointPattern : w ∈ entrypointPattern ↔ ∃ c x d y, isIdentifierStart c = true ∧
    x.all (fun c => isIdentifierPart c || decide (c = '.')) = true ∧ isIdentifierStart d = true ∧
      y.all isIdentifierPart = true ∧ w = c :: x ++ '.' :: d :: y := by
  rw [entrypointPattern, mul_assoc, mul_assoc]
  constructor
  · intro h
    obtain ⟨c, r, hc, hr, rfl⟩ := mem_one_mul.mp h
    obtain ⟨x, hx, behind, hbehind, rfl⟩ := Language.mem_mul.mp hr
    obtain ⟨dot, func, hdot, hfunc, rfl⟩ := mem_one_mul.mp hbehind
    obtain ⟨d, y, hd, hy, rfl⟩ := mem_one_mul.mp hfunc
    rw [of_decide_eq_true hdot]
    exact ⟨c, x, d, y, hc, mem_one_kstar.mp hx, hd, mem_one_kstar.mp hy, rfl⟩
  · intro ⟨c, x, d, y, hc, hx, hd, hy, hw⟩
    have hfunc := mem_one_mul.mpr ⟨d, y, hd, mem_one_kstar.mpr hy, rfl⟩
    have hdot : '.' :: d :: y ∈ one (fun c => decide (c = '.')) * _ :=
      mem_one_mul.mpr ⟨'.', d :: y, rfl, hfunc, rfl⟩
    exact mem_one_mul.mpr ⟨c, _, hc, Language.append_mem_mul (mem_one_kstar.mpr hx) hdot, hw⟩

/-! ## The two functions of the runner -/

def rsplit (value : Text) : List Text :=
  if '.' ∈ value then
    [(value.rdropWhile fun c => decide (c ≠ '.')).dropLast, value.rtakeWhile fun c => decide (c ≠ '.')]
  else [value]

def moduleFile (module : Text) : Text :=
  (module.map fun c => if c = '.' then '/' else c) ++ ".py".toList

def isAbsolute (path : Text) : Bool := decide (path.head? = some '/')

def parts (path : Text) : List Text :=
  (path.splitOn '/').filter fun part => decide (part ≠ []) && decide (part ≠ ['.'])

def joinPath (workDir : List Text) (path : Text) : List Text :=
  if isAbsolute path then parts path else workDir ++ parts path

inductive WriteError where
  | unpack
  | refused
  | os (fault : Fault)
  deriving DecidableEq

/-- `admits` is what the system itself takes: names that are not too long, texts it has space for. -/
def writeInlineSource (admits : List Text → Text → Bool) (workDir : List Text) (entrypoint sourceCode : Text)
    (tree : Directory Text Text) : Except WriteError (Directory Text Text) :=
  match rsplit entrypoint with
  | [modulePath, _] =>
    let path := joinPath workDir (moduleFile modulePath)
    if admits path sourceCode then (place tree path (.file sourceCode)).mapError .os else .error .refused
  | _ => .error .unpack

inductive LoadError where
  | format (entrypoint : Text)
  | fileNotFound (path : List Text)
  | cannotLoad (path : List Text)
  | isADirectory (path : List Text)
  deriving DecidableEq

structure Executed where
  path : List Text
  sourceCode : Text
  function : Text
  deriving DecidableEq

/-- `importlib` has a loader for a source file by its suffix. -/
def hasLoader (path : List Text) : Bool := path.getLast?.any fun name => decide (".py".toList <:+ name)

def loadHandler (workDir : List Text) (entrypoint : Text) (tree : Directory Text Text) : Except LoadError Executed :=
  match rsplit entrypoint with
  | [modulePath, funcName] =>
    let path := joinPath workDir (moduleFile modulePath)
    match tree path with
    | none => .error (.fileNotFound path)
    | some item =>
      if hasLoader path then
        match item with
        | .file sourceCode => .ok ⟨path, sourceCode, funcName⟩
        | .directory => .error (.isADirectory path)
      else .error (.cannotLoad path)
  | _ => .error (.format entrypoint)

/-! ## Splitting -/

theorem rsplit_eq (h : '.' ∉ func) : rsplit (module ++ '.' :: func) = [module, func] := by
  have hnone : ∀ c ∈ func.reverse, decide (c ≠ '.') = true := by
    intro c hc
    refine decide_eq_true ?_
    rintro rfl
    exact h (List.mem_reverse.mp hc)
  have hreverse : (module ++ '.' :: func).reverse = func.reverse ++ '.' :: module.reverse := by simp
  rw [rsplit, if_pos (by simp), List.rdropWhile, List.rtakeWhile, hreverse, List.dropWhile_append_of_pos hnone,
    List.takeWhile_append_of_pos hnone]
  simp

theorem exists_last {a : Char} (h : a ∈ w) : ∃ x y, w = x ++ a :: y ∧ a ∉ y := by
  obtain ⟨x, y, hw, hx⟩ := List.eq_append_cons_of_mem (List.mem_reverse.mpr h)
  refine ⟨y.reverse, x.reverse, ?_, by simpa using hx⟩
  have hreverse := congrArg List.reverse hw
  simpa using hreverse

theorem splitOn_of_notMem {a : Char} (h : a ∉ y) : y.splitOn a = [y] := by
  rw [List.splitOn_eq_splitOnP]
  refine List.splitOnP_eq_singleton fun c hc => ?_
  rw [beq_eq_false_iff_ne]
  rintro rfl
  exact h hc

theorem splitOn_append_cons {a : Char} (h : a ∉ y) : (x ++ a :: y).splitOn a = x.splitOn a ++ [y] := by
  rw [← splitOn_of_notMem h]
  simp only [List.splitOn_eq_splitOnP]
  exact List.splitOnP_append_cons _ _ (beq_self_eq_true a)

/-! ## What the pattern admits -/

theorem dot_not_part : isIdentifierPart '.' = false := by decide

theorem dot_notMem (h : y.all isIdentifierPart = true) : '.' ∉ y := by
  intro hdot
  have hpart := List.all_eq_true.mp h '.' hdot
  rw [dot_not_part] at hpart
  cases hpart

theorem start_part (h : isIdentifierStart c = true) : isIdentifierPart c = true := by
  rw [isIdentifierPart, h, Bool.true_or]

theorem validEntrypoint_iff : validEntrypoint entrypoint = true ↔ entrypoint ∈ entrypointPattern := by
  rw [mem_entrypointPattern]
  constructor
  · intro h
    unfold validEntrypoint at h
    split at h
    · rename_i d name first hlast hhead
      simp only [Bool.and_eq_true, decide_eq_true_iff] at h
      obtain ⟨⟨⟨⟨hd, hname⟩, hfirst⟩, hall⟩, hdot⟩ := h
      obtain ⟨x, y, rfl, hy⟩ := exists_last hdot
      rw [splitOn_append_cons hy, List.getLast?_concat, Option.some.injEq] at hlast
      cases x with
      | nil =>
        cases hhead
        cases hfirst
      | cons c x =>
        cases hhead
        rw [List.all_append, Bool.and_eq_true, List.all_cons, Bool.and_eq_true] at hall
        exact ⟨first, x, d, name, hfirst, hall.1.2, hd, hname, by rw [hlast]⟩
    · cases h
  · intro ⟨c, x, d, y, hc, hx, hd, hy, hw⟩
    have hfunc : (d :: y).all isIdentifierPart = true := by rw [List.all_cons, start_part hd, hy, Bool.true_and]
    have hlast : (entrypoint.splitOn '.').getLast? = some (d :: y) := by
      rw [hw, splitOn_append_cons (dot_notMem hfunc), List.getLast?_concat]
    have hhead : entrypoint.head? = some c := by rw [hw]; rfl
    have hall : entrypoint.all (fun c => isIdentifierPart c || decide (c = '.')) = true := by
      have hwiden : ∀ z : Text, z.all isIdentifierPart = true →
          z.all (fun c => isIdentifierPart c || decide (c = '.')) = true := by
        intro z hz
        rw [List.all_eq_true] at hz ⊢
        intro c hc
        rw [hz c hc, Bool.true_or]
      have hdot : isIdentifierPart '.' || decide ('.' = '.') = true := by simp
      rw [hw, List.all_append, List.all_cons, List.all_cons, start_part hc, hx, hwiden _ hfunc]
      simp
    have hmem : '.' ∈ entrypoint := by rw [hw]; simp
    simp only [validEntrypoint, hlast, hhead, hd, hy, hc, hall, hmem, decide_true, Bool.and_self]

theorem parts_concat (h : '/' ∉ suffix) (hsuffix : ".py".toList <:+ suffix) : ∃ above name,
    parts (x ++ suffix) = above ++ [name] ∧ ".py".toList <:+ name := by
  have hkept : ∀ {name : Text}, ".py".toList <:+ name →
      [name].filter (fun part => decide (part ≠ []) && decide (part ≠ ['.'])) = [name] := by
    intro name hname
    have hlength := hname.length_le
    refine List.filter_eq_self.mpr fun part hpart => ?_
    rw [List.mem_singleton.mp hpart, Bool.and_eq_true, decide_eq_true_iff, decide_eq_true_iff]
    constructor <;> rintro rfl <;> simp at hlength
  by_cases hslash : '/' ∈ x
  · obtain ⟨a, b, rfl, hb⟩ := exists_last hslash
    have hname : '/' ∉ b ++ suffix := by simp [hb, h]
    have hpy : ".py".toList <:+ b ++ suffix := hsuffix.trans (List.suffix_append b suffix)
    refine ⟨parts a, b ++ suffix, ?_, hpy⟩
    rw [parts, List.append_assoc, List.cons_append, splitOn_append_cons hname, List.filter_append, hkept hpy]
    rfl
  · have hpy : ".py".toList <:+ x ++ suffix := hsuffix.trans (List.suffix_append x suffix)
    refine ⟨[], x ++ suffix, ?_, hpy⟩
    rw [parts, splitOn_of_notMem (by simp [hslash, h]), hkept hpy, List.nil_append]

theorem parts_moduleFile (module : Text) : ∃ above name, parts (moduleFile module) = above ++ [name] ∧
    ".py".toList <:+ name := parts_concat (by decide) (List.suffix_refl ".py".toList)

theorem splitOn_sublist {a : Char} : ∀ y ∈ w.splitOn a, y.Sublist w := by
  simp only [List.splitOn_eq_splitOnP]
  induction w with
  | nil => simp
  | cons c w ih =>
    rw [List.splitOnP_cons_eq_if_modifyHead]
    split_ifs
    · exact List.forall_mem_cons.mpr ⟨List.nil_sublist _, fun y hy => (ih y hy).cons c⟩
    · cases hsplit : w.splitOnP (· == a) with
      | nil => exact absurd hsplit (List.splitOnP_ne_nil _ _)
      | cons first rest =>
        rw [hsplit, List.forall_mem_cons] at ih
        rw [List.modifyHead_cons]
        exact List.forall_mem_cons.mpr ⟨ih.1.cons_cons c, fun y hy => (ih.2 y hy).cons c⟩

theorem parent_notMem_parts : "..".toList ∉ parts (moduleFile module) := by
  intro h
  have hcount := (splitOn_sublist _ (List.mem_filter.mp h).1).count_le '.'
  have hnone : (module.map fun c => if c = '.' then '/' else c).count '.' = 0 := by
    refine List.count_eq_zero.mpr fun hdot => ?_
    obtain ⟨c, -, hc⟩ := List.mem_map.mp hdot
    split_ifs at hc with hdot
    · cases hc
    · exact hdot hc
  rw [moduleFile, List.count_append, hnone] at hcount
  revert hcount
  decide

def Identifier (func : Text) : Prop := ∃ c y, func = c :: y ∧ isIdentifierStart c = true ∧ y.all isIdentifierPart = true

/-- What an entrypoint stands for: a module, whose file is below every work directory,
and a function of it. -/
structure Resolves (entrypoint module func : Text) : Prop where
  split : rsplit entrypoint = [module, func]
  nonempty : module ≠ []
  identifier : Identifier func
  relative : isAbsolute (moduleFile module) = false
  noParent : "..".toList ∉ parts (moduleFile module)
  inside : ∀ workDir, ∃ above name, joinPath workDir (moduleFile module) = workDir ++ above ++ [name]

theorem resolves (h : entrypoint ∈ entrypointPattern) : ∃ module func, Resolves entrypoint module func := by
  obtain ⟨c, x, d, y, hc, hx, hd, hy, rfl⟩ := mem_entrypointPattern.mp h
  have hfunc : (d :: y).all isIdentifierPart = true := by rw [List.all_cons, start_part hd, hy, Bool.true_and]
  have hrelative : isAbsolute (moduleFile (c :: x)) = false := by
    refine decide_eq_false fun hslash => ?_
    have hhead : (if c = '.' then '/' else c) = '/' := Option.some.inj hslash
    split_ifs at hhead with hdot
    · rw [hdot] at hc
      cases hc
    · rw [hhead] at hc
      cases hc
  refine ⟨c :: x, d :: y, rsplit_eq (dot_notMem hfunc), List.cons_ne_nil c x, ⟨d, y, rfl, hd, hy⟩, hrelative,
    parent_notMem_parts, fun workDir => ?_⟩
  obtain ⟨above, name, hparts, -⟩ := parts_moduleFile (c :: x)
  refine ⟨above, name, ?_⟩
  rw [joinPath, if_neg (by simp [hrelative]), hparts, List.append_assoc]

/-! ## Writing and loading -/

theorem hasLoader_joinPath (workDir : List Text) (module : Text) :
    hasLoader (joinPath workDir (moduleFile module)) = true := by
  obtain ⟨above, name, hparts, hname⟩ := parts_moduleFile module
  have hlast : (joinPath workDir (moduleFile module)).getLast? = some name := by
    rw [joinPath, hparts]
    split_ifs
    · exact List.getLast?_concat
    · rw [← List.append_assoc]
      exact List.getLast?_concat
  rw [hasLoader, hlast]
  exact decide_eq_true hname

structure EmptyBelow (tree : Directory Text Text) (workDir : List Text) : Prop where
  below : ∀ q, workDir <+: q → q ≠ workDir → tree q = none
  above : ∀ q, q <+: workDir → isFile tree q = false

variable {admits : List Text → Text → Bool} {workDir : List Text} {sourceCode : Text}
  {tree written : Directory Text Text}

theorem room_of_empty (h : Resolves entrypoint module func) (hempty : EmptyBelow tree workDir) :
    Room tree (joinPath workDir (moduleFile module)) true := by
  obtain ⟨above, name, hpath⟩ := h.inside workDir
  have hinside : workDir <+: joinPath workDir (moduleFile module) := by
    rw [hpath, List.append_assoc]
    exact List.prefix_append _ _
  have hbelow : joinPath workDir (moduleFile module) ≠ workDir := by
    rw [hpath, List.append_assoc]
    exact fun hsame => absurd (List.append_right_eq_self.mp hsame) (by simp)
  constructor
  · intro q hq hne
    rcases List.prefix_or_prefix_of_prefix hq hinside with habove | hunder
    · exact hempty.above q habove
    · by_cases hsame : q = workDir
      · exact hempty.above q (hsame ▸ List.prefix_rfl)
      · rw [isFile, hempty.below q hunder hsame]
        rfl
  · intro _
    refine ⟨by rw [hpath]; simp, ?_⟩
    rw [hempty.below _ hinside hbelow]
    intro hdir
    cases hdir
  · intro hfile
    cases hfile

theorem writeInlineSource_iff (h : Resolves entrypoint module func) :
    writeInlineSource admits workDir entrypoint sourceCode tree = .ok written ↔
      (admits (joinPath workDir (moduleFile module)) sourceCode = true ∧
        Room tree (joinPath workDir (moduleFile module)) true) ∧
      written = placed tree (joinPath workDir (moduleFile module)) (.file sourceCode) := by
  simp only [writeInlineSource, h.split]
  by_cases hadmits : admits (joinPath workDir (moduleFile module)) sourceCode = true
  · have hplace : place tree (joinPath workDir (moduleFile module)) (.file sourceCode) = .ok written ↔ _ := place_iff
    rw [if_pos hadmits, and_assoc, and_iff_right hadmits, ← show Item.isFile (.file sourceCode) = true from rfl,
      ← hplace]
    cases place tree (joinPath workDir (moduleFile module)) (.file sourceCode) with
    | error fault => simp [Except.mapError]
    | ok t => simp [Except.mapError]
  · simp [hadmits]

theorem loadHandler_written (h : Resolves entrypoint module func)
    (hwrite : writeInlineSource admits workDir entrypoint sourceCode tree = .ok written) :
    loadHandler workDir entrypoint written = .ok ⟨joinPath workDir (moduleFile module), sourceCode, func⟩ := by
  have hfile : written (joinPath workDir (moduleFile module)) = some (.file sourceCode) := by
    rw [((writeInlineSource_iff h).mp hwrite).2, placed_self]
  simp only [loadHandler, h.split, hfile, hasLoader_joinPath, if_true]

theorem format_unreachable (h : Resolves entrypoint module func) (admits : List Text → Text → Bool)
    (workDir : List Text) (sourceCode : Text) (tree : Directory Text Text) :
    writeInlineSource admits workDir entrypoint sourceCode tree ≠ .error .unpack ∧
      loadHandler workDir entrypoint tree ≠ .error (.format entrypoint) := by
  constructor
  · simp only [writeInlineSource, h.split]
    split_ifs
    · cases place tree (joinPath workDir (moduleFile module)) (.file sourceCode) with
      | error fault => simp [Except.mapError]
      | ok t => simp [Except.mapError]
    · simp
  · simp only [loadHandler, h.split, hasLoader_joinPath, if_true]
    cases tree (joinPath workDir (moduleFile module)) with
    | none => simp
    | some item => cases item <;> simp

/-- The source is written whenever the system takes it and there is room, as in every
empty work directory, and what is written is what is executed. -/
theorem entrypoint_resolves (h : entrypoint ∈ entrypointPattern) : ∃ module func, Resolves entrypoint module func ∧
    ∀ admits workDir sourceCode tree,
      ((∃ written, writeInlineSource admits workDir entrypoint sourceCode tree = .ok written) ↔
        admits (joinPath workDir (moduleFile module)) sourceCode = true ∧
          Room tree (joinPath workDir (moduleFile module)) true) ∧
      (EmptyBelow tree workDir → Room tree (joinPath workDir (moduleFile module)) true) ∧
      (∀ written, writeInlineSource admits workDir entrypoint sourceCode tree = .ok written →
        written = placed tree (joinPath workDir (moduleFile module)) (.file sourceCode) ∧
          loadHandler workDir entrypoint written = .ok ⟨joinPath workDir (moduleFile module), sourceCode, func⟩) ∧
      writeInlineSource admits workDir entrypoint sourceCode tree ≠ .error .unpack ∧
      loadHandler workDir entrypoint tree ≠ .error (.format entrypoint) := by
  obtain ⟨module, func, hresolves⟩ := resolves h
  refine ⟨module, func, hresolves, fun admits workDir sourceCode tree => ⟨?_, room_of_empty hresolves, ?_,
    format_unreachable hresolves admits workDir sourceCode tree⟩⟩
  · simp only [writeInlineSource_iff hresolves, exists_and_left, exists_eq, and_true]
  · intro written hwrite
    exact ⟨((writeInlineSource_iff hresolves).mp hwrite).2, loadHandler_written hresolves hwrite⟩

theorem emptyBelow_fresh : EmptyBelow fresh [] where
  below q _ hq := by simp [fresh, hq]
  above q hq := by
    rw [List.prefix_nil.mp hq]
    rfl

/-- `app..v1.handler` is written into an empty directory and executed from there. -/
theorem entrypoint_resolves_nested : ∃ written,
    writeInlineSource (fun _ _ => true) [] "app..v1.handler".toList "def handler(): return 1".toList fresh =
      .ok written ∧
    written ["app".toList, "v1.py".toList] = some (.file "def handler(): return 1".toList) ∧
    loadHandler [] "app..v1.handler".toList written =
      .ok ⟨["app".toList, "v1.py".toList], "def handler(): return 1".toList, "handler".toList⟩ := by
  obtain ⟨module, func, hresolves, hall⟩ :=
    entrypoint_resolves (show "app..v1.handler".toList ∈ entrypointPattern from validEntrypoint_iff.mp (by decide))
  have hsplit : rsplit "app..v1.handler".toList = ["app..v1".toList, "handler".toList] := by decide
  obtain ⟨rfl, hfunc⟩ := List.cons.inj (hresolves.split.symm.trans hsplit)
  obtain rfl : func = "handler".toList := List.cons.inj hfunc |>.1
  have hpath : joinPath [] (moduleFile "app..v1".toList) = ["app".toList, "v1.py".toList] := by decide
  obtain ⟨hwrites, hroom, hwritten, -⟩ := hall (fun _ _ => true) [] "def handler(): return 1".toList fresh
  obtain ⟨written, hwrite⟩ := hwrites.mpr ⟨rfl, hroom emptyBelow_fresh⟩
  obtain ⟨hplaced, hload⟩ := hwritten written hwrite
  rw [hpath] at hplaced hload
  exact ⟨written, hwrite, by rw [hplaced, placed_self], hload⟩

/-! ## The two requests -/

theorem versionForm_entrypoint {form : VersionForm} (h : form.valid = true) : form.entrypoint ∈ entrypointPattern := by
  simp only [VersionForm.valid, Bool.and_eq_true] at h
  exact validEntrypoint_iff.mp h.1.1.1.1.1

theorem ephemeral_entrypoint {settings : Submissions.PlatformSettings} {codec : JsonCodec}
    {body : Submissions.EphemeralExecution}
    (h : Submissions.acceptsEphemeral settings codec body = true) : body.entrypoint ∈ entrypointPattern := by
  simp only [Submissions.acceptsEphemeral, Bool.and_eq_true] at h
  exact validEntrypoint_iff.mp h.1.1.1.1.1.1.2

end PyFaaS.Entrypoints
