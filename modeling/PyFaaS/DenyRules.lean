import Mathlib.Data.List.Nodup
import PyFaaS.CodeValidator

/-!
# What the code validator accepts

An archive is accepted exactly if no name, size or node of its Python files is
denied. The visitor looks at attribute nodes only, so an attribute that is read by
a class pattern or by a from-import passes.
-/

namespace PyFaaS.CodeValidator
open PythonSyntax

def Allowed (node : Node) : Prop :=
  match node.shape with
  | .import names => ∀ a ∈ names, root a.name ∉ deniedModules
  | .importFrom module _ _ => root (module.getD []) ∉ deniedModules
  | .name id => id ∉ deniedBuiltins
  | .attribute attr => attr ∉ deniedAttributes
  | .global names => "__builtins__".toList ∉ names
  | _ => True

def CalleeAllowed : Option Shape → Prop
  | some (.name id) => id ∉ deniedBuiltins
  | some (.attribute attr) => attr ∉ deniedAttributes
  | _ => True

variable {file : Text} {node : Node} {r : ValidationResult}

/-! ## Nodes -/

theorem flagIf_isValid {c : Bool} {message : Text} :
    (flagIf file node r c message).isValid = true ↔ r.isValid = true ∧ c = false := by
  cases c with
  | false => simp [flagIf]
  | true => simp [flagIf, ValidationResult.addViolation]

theorem foldl_flagIf_isValid {β : Type} {c : β → Bool} {message : β → Text} (xs : List β) (r : ValidationResult) :
    (xs.foldl (fun r x => flagIf file node r (c x) (message x)) r).isValid = true ↔
      r.isValid = true ∧ ∀ x ∈ xs, c x = false := by
  induction xs generalizing r with
  | nil => simp
  | cons x xs ih => rw [List.foldl_cons, ih, flagIf_isValid, List.forall_mem_cons, and_assoc]

theorem visitCall_isValid : (visitCall file node id r).isValid = true ↔
    r.isValid = true ∧ CalleeAllowed (node.func.map Node.shape) := by
  have himport : ∀ name : Text, name ∉ deniedBuiltins → name ≠ "__import__".toList := by
    rintro _ hdenied rfl
    exact hdenied (by decide)
  unfold visitCall
  generalize node.func.map Node.shape = callee
  cases callee with
  | none => exact (and_iff_left trivial).symm
  | some shape =>
    cases shape with
    | name name =>
      change (flagIf file node (flagIf file node r _ _) _ _).isValid = true ↔ r.isValid = true ∧ name ∉ deniedBuiltins
      rw [flagIf_isValid, flagIf_isValid, listed_eq_false, decide_eq_false_iff_not, and_assoc]
      exact and_congr_right fun _ => and_iff_left_of_imp (himport name)
    | «attribute» attr =>
      change (flagIf file node r _ _).isValid = true ↔ r.isValid = true ∧ attr ∉ deniedAttributes
      rw [flagIf_isValid, listed_eq_false]
    | _ => exact (and_iff_left trivial).symm

theorem visitMethod_eq (file : Text) (node : Node) (genericVisit : ValidationResult → ValidationResult)
    (r : ValidationResult) : visitMethod file node genericVisit r = genericVisit (visitMethod file node id r) := by
  unfold visitMethod
  split
  · rfl
  · rfl
  · unfold visitCall
    split <;> rfl
  · rfl
  · rfl
  · rfl
  · rfl

theorem visitMethod_isValid : (visitMethod file node id r).isValid = true ↔
    r.isValid = true ∧ Allowed node ∧ (node.shape = .call → CalleeAllowed (node.func.map Node.shape)) := by
  have hcall : (visitCall file node id r).isValid = true ↔ _ := visitCall_isValid
  have hother : ∀ {p : Prop} {shape : Shape}, shape ≠ .call →
      (p ∧ (shape = .call → CalleeAllowed (node.func.map Node.shape)) ↔ p) :=
    fun h => and_iff_left fun hshape => absurd hshape h
  unfold visitMethod Allowed
  generalize node.shape = shape
  cases shape with
  | call =>
    rw [true_and]
    exact hcall.trans (and_congr_right fun _ => ⟨fun h _ => h, fun h => h rfl⟩)
  | «import» names =>
    change (names.foldl _ r).isValid = true ↔ _
    rw [hother (by simp), foldl_flagIf_isValid]
    simp only [listed_eq_false]
  | importFrom module names level =>
    change (flagIf file node r _ _).isValid = true ↔ _
    rw [hother (by simp), flagIf_isValid, listed_eq_false]
  | «attribute» attr =>
    change (flagIf file node r _ _).isValid = true ↔ _
    rw [hother (by simp), flagIf_isValid, listed_eq_false]
  | name id =>
    change (flagIf file node r _ _).isValid = true ↔ _
    rw [hother (by simp), flagIf_isValid, listed_eq_false]
  | global names =>
    change (names.foldl _ r).isValid = true ↔ _
    rw [hother (by simp), foldl_flagIf_isValid]
    simp only [decide_eq_false_iff_not, List.forall_mem_ne']
  | _ =>
    rw [hother (by simp)]
    exact (and_iff_left trivial).symm

/-! ## Files -/

variable {python : Python}

/-- The callee of a call is a node of its own, so the rule of the call adds nothing. -/
theorem callee_allowed {tree : Node} (h : ∀ n ∈ tree.subtrees, Allowed n) (hnode : node ∈ tree.subtrees) :
    CalleeAllowed (node.func.map Node.shape) := by
  cases hfunc : node.func with
  | none => trivial
  | some callee =>
    have hchild : callee ∈ node.children := List.mem_of_mem_head? hfunc
    have hallowed := h callee (SyntaxTree.child_mem_subtrees hnode hchild)
    rw [Option.map_some]
    unfold Allowed at hallowed
    generalize callee.shape = shape at hallowed
    cases shape with
    | name id => exact hallowed
    | «attribute» attr => exact hallowed
    | _ => trivial

theorem foldl_visitMethod_isValid (nodes : List Node) (r : ValidationResult) :
    (nodes.foldl (fun r node => visitMethod file node id r) r).isValid = true ↔ r.isValid = true ∧
      ∀ node ∈ nodes, Allowed node ∧ (node.shape = .call → CalleeAllowed (node.func.map Node.shape)) := by
  induction nodes generalizing r with
  | nil => simp
  | cons node nodes ih => rw [List.foldl_cons, ih, visitMethod_isValid, List.forall_mem_cons, and_assoc]

theorem visit_isValid {tree : Node} : (tree.visit (visitMethod file) r).isValid = true ↔
    r.isValid = true ∧ ∀ n ∈ tree.subtrees, Allowed n := by
  rw [SyntaxTree.visit_eq (visitMethod_eq file), foldl_visitMethod_isValid]
  apply and_congr_right
  intro _
  constructor
  · exact fun h n hn => (h n hn).1
  · exact fun h n hn => ⟨h n hn, fun _ => callee_allowed h hn⟩

theorem validateSource_isValid {source filename : Text} : (validateSource python source filename r).isValid = true ↔
    r.isValid = true ∧ ∃ tree, python.parse source filename = .ok tree ∧ ∀ n ∈ tree.subtrees, Allowed n := by
  unfold validateSource
  cases hparse : python.parse source filename with
  | error exc => simp [ValidationResult.addViolation]
  | ok tree => simp [visit_isValid]

def FileAllowed (python : Python) (member : Member) : Prop :=
  member.fileSize ≤ maxFileSize ∧ ∃ tree, python.parse (python.decode member.data) member.name = .ok tree ∧
    ∀ n ∈ tree.subtrees, Allowed n

theorem last_named {β : Type} {name : β → Text} {members : List β} (hdistinct : (members.map name).Nodup)
    {member : β} (h : member ∈ members) :
    (members.filter fun m => decide (name m = name member)).getLast?.getD member = member := by
  have honly : ∀ m ∈ members.filter (fun m => decide (name m = name member)), m = member := by
    intro m hm
    obtain ⟨hm, hname⟩ := List.mem_filter.mp hm
    exact List.inj_on_of_nodup_map hdistinct hm h (of_decide_eq_true hname)
  cases hlast : (members.filter fun m => decide (name m = name member)).getLast? with
  | none => rfl
  | some m => exact honly m (List.mem_of_getLast? hlast)

theorem getinfo_eq {members : List Member} (hdistinct : (members.map Member.name).Nodup) {member : Member}
    (h : member ∈ members) : getinfo members member = member := last_named hdistinct h

theorem checkFiles_isValid {members : List Member} (hdistinct : (members.map Member.name).Nodup)
    {files : List Member} (hfiles : ∀ f ∈ files, f ∈ members) (r : ValidationResult) :
    (checkFiles python members files r).isValid = true ↔
      r.isValid = true ∧ ∀ f ∈ files, FileAllowed python f := by
  induction files generalizing r with
  | nil => simp [checkFiles]
  | cons f files ih =>
    have hchecked : ∀ r' : ValidationResult, r' = validateSource python (python.decode f.data) f.name
        { r with filesChecked := r.filesChecked + 1 } → f.fileSize ≤ maxFileSize →
          (r'.isValid = true ↔ r.isValid = true ∧ FileAllowed python f) := by
      rintro _ rfl hsize
      rw [validateSource_isValid, FileAllowed]
      exact and_congr_right fun _ => (and_iff_right hsize).symm
    rw [checkFiles, getinfo_eq hdistinct (hfiles f List.mem_cons_self), List.forall_mem_cons, ← and_assoc]
    split_ifs with hsize
    · have hlarge : ¬ FileAllowed python f := fun h => absurd h.1 (Nat.not_le_of_lt hsize)
      simp [ValidationResult.fail, hlarge]
    · have hvalid := hchecked _ rfl (Nat.le_of_not_lt hsize)
      dsimp only
      split_ifs with hmany
      · -- the early exit leaves an invalid result
        rw [← hvalid]
        have hinvalid := (Bool.and_eq_true_iff.mp hmany).1
        rw [Bool.not_eq_true'] at hinvalid
        simp [hinvalid]
      · rw [ih fun f hf => hfiles f (List.mem_cons_of_mem _ hf), hvalid]

def importJson : Node := .node ⟨.module, 0, 0⟩ [.node ⟨.import [⟨"json".toList, none⟩], 1, 0⟩ []]

def importDict : Node :=
  .node ⟨.module, 0, 0⟩ [.node ⟨.importFrom (some "m".toList) [⟨"__dict__".toList, none⟩] 0, 1, 0⟩ []]

def patternSource : Text := "import math\nmatch math.pi:\n    case float(real=r): print(r)".toList

def patternTree : Node :=
  .node ⟨.module, 0, 0⟩
    [.node ⟨.import [⟨"math".toList, none⟩], 1, 0⟩ [],
      .node ⟨.match, 2, 0⟩
        [.node ⟨.attribute "pi".toList, 2, 6⟩ [.node ⟨.name "math".toList, 2, 6⟩ []],
          .node ⟨.matchCase, 0, 0⟩
            [.node ⟨.matchClass ["real".toList], 3, 9⟩
                [.node ⟨.name "float".toList, 3, 9⟩ [], .node ⟨.matchAs (some "r".toList), 3, 20⟩ []],
              .node ⟨.expr, 3, 24⟩
                [.node ⟨.call, 3, 24⟩
                  [.node ⟨.name "print".toList, 3, 24⟩ [], .node ⟨.name "r".toList, 3, 30⟩ []]]]]]

def samplePython : Python where
  decode data := data.map fun b => Char.ofNat b.toNat
  parse source _ :=
    if source = "import json".toList then .ok importJson
    else if source = "from m import __dict__".toList then .ok importDict
    else if source = patternSource then .ok patternTree
    else .error ⟨some 1, some 1, "invalid syntax".toList⟩

def sampleMember (name : String) (source : Text) : Member :=
  ⟨name.toList, source.length, source.map fun c => c.toNat.toUInt8⟩

theorem pattern_isValid :
    (validateSource samplePython patternSource "lib/shapes.py".toList ⟨true, [], 0, none⟩).isValid = true := by
  decide

/-- The string-valued fields that name attributes, which no method of the visitor
looks at. -/
def NamesAllowed (node : Node) : Prop :=
  match node.shape with
  | .importFrom _ names _ => ∀ a ∈ names, a.name ∉ deniedAttributes
  | .matchClass kwdAttrs => ∀ attr ∈ kwdAttrs, attr ∉ deniedAttributes
  | _ => True

theorem attributesRead_iff (hallowed : Allowed node) :
    (∀ a ∈ node.shape.attributesRead, a ∉ deniedAttributes) ↔ NamesAllowed node := by
  rw [Shape.attributesRead_eq]
  unfold NamesAllowed
  unfold Allowed at hallowed
  generalize node.shape = shape at hallowed
  cases shape with
  | «attribute» attr => exact iff_of_true (List.forall_mem_singleton.mpr hallowed) trivial
  | importFrom module names level => exact List.forall_mem_map
  | matchClass kwdAttrs => exact Iff.rfl
  | _ => exact iff_of_true (List.forall_mem_nil _) trivial

/-- An accepted source reads no denied attribute exactly if none of its class patterns
and from-imports names one. -/
theorem accepted_reads_iff {source filename : Text} {tree : Node}
    (hparse : python.parse source filename = .ok tree)
    (haccept : (validateSource python source filename r).isValid = true) :
    (∀ n ∈ tree.subtrees, ∀ a ∈ (Node.shape n).attributesRead, a ∉ deniedAttributes) ↔
      ∀ n ∈ tree.subtrees, NamesAllowed n := by
  obtain ⟨-, parsed, hparsed, hallowed⟩ := validateSource_isValid.mp haccept
  obtain rfl : tree = parsed := Except.ok.inj (hparse.symm.trans hparsed)
  exact forall₂_congr fun n hn => attributesRead_iff (hallowed n hn)

/-- An attribute is read in an expression and another one by a keyword pattern. -/
theorem accepted_reads_iff_pattern :
    (∀ n ∈ patternTree.subtrees, ∀ a ∈ (Node.shape n).attributesRead, a ∉ deniedAttributes) ↔
      ∀ n ∈ patternTree.subtrees, NamesAllowed n := by
  have hparse : samplePython.parse patternSource "lib/shapes.py".toList = .ok patternTree := rfl
  exact accepted_reads_iff hparse pattern_isValid

/-- The source `from m import __dict__` is accepted and reads `__dict__`. -/
theorem accepted_reads_dict : ∃ tree,
    samplePython.parse "from m import __dict__".toList "handler.py".toList = .ok tree ∧
    (validateSource samplePython "from m import __dict__".toList "handler.py".toList ⟨true, [], 0, none⟩).isValid =
      true ∧
    ¬ ∀ n ∈ tree.subtrees, ∀ a ∈ (Node.shape n).attributesRead, a ∉ deniedAttributes := by
  have hparse : samplePython.parse "from m import __dict__".toList "handler.py".toList = .ok importDict := rfl
  refine ⟨importDict, hparse, ?_, by decide⟩
  unfold validateSource
  rw [hparse]
  decide

end PyFaaS.CodeValidator
