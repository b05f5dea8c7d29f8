import PyFaaS.SyntaxTree
import PyFaaS.TextLines

/-!
# Syntax trees of Python

The node classes of the `ast` module. A shape holds the names that a node carries
as plain strings; its children are the nodes in its fields, in the order of
`_fields`. The aliases of an import belong to its shape, and the operators and
expression contexts, which have no fields, are one shape.
-/

namespace PyFaaS.PythonSyntax

structure Alias where
  name : Text
  asname : Option Text
  deriving DecidableEq

inductive Shape where
  -- modules and statements
  | module
  | functionDef (name : Text)
  | asyncFunctionDef (name : Text)
  | classDef (name : Text)
  | «return»
  | delete
  | assign
  | typeAlias
  | augAssign
  | annAssign
  | «for»
  | asyncFor
  | while
  | «if»
  | «with»
  | asyncWith
  | «match»
  | raise
  | «try»
  | tryStar
  | assert
  | «import» (names : List Alias)
  | importFrom (module : Option Text) (names : List Alias) (level : ℕ)
  | global (names : List Text)
  | nonlocal (names : List Text)
  | expr
  | pass
  | break
  | continue
  -- expressions
  | boolOp
  | namedExpr
  | binOp
  | unaryOp
  | lambda
  | ifExp
  | dict
  | set
  | listComp
  | setComp
  | dictComp
  | generatorExp
  | await
  | yield
  | yieldFrom
  | compare
  | call
  | formattedValue
  | joinedStr
  | constant
  | attribute (attr : Text)
  | subscript
  | starred
  | name (id : Text)
  | list
  | tuple
  | slice
  -- what statements and expressions are made of
  | comprehension
  | exceptHandler (name : Option Text)
  | arguments
  | arg (arg : Text)
  | keyword (arg : Option Text)
  | withitem
  | matchCase
  | operator
  -- patterns
  | matchValue
  | matchSingleton
  | matchSequence
  | matchMapping (rest : Option Text)
  | matchClass (kwdAttrs : List Text)
  | matchStar (name : Option Text)
  | matchAs (name : Option Text)
  | matchOr
  -- type parameters
  | typeVar (name : Text)
  | paramSpec (name : Text)
  | typeVarTuple (name : Text)
  deriving DecidableEq

/-- A shape with its `lineno` and `col_offset`, 0 for a node without a place. -/
structure Label where
  shape : Shape
  lineno : ℕ
  colOffset : ℕ
  deriving DecidableEq

abbrev Node := SyntaxTree Label

namespace Node

def shape (n : Node) : Shape := n.label.shape

def func (n : Node) : Option Node := n.children.head?

end Node

/-! ## Names -/

inductive NameUse where
  | attribute
  | variable
  | binding
  | module
  | parameter
  deriving DecidableEq

namespace Shape

def bound (id : Option Text) : List (NameUse × Text) := id.toList.map (NameUse.binding, ·)

def aliasNames (use : NameUse) (a : Alias) : List (NameUse × Text) := (use, a.name) :: bound a.asname

/-- All plain strings of a node. `from m import name` reads the attribute `name` of
`m`, and a keyword pattern reads that attribute of the subject. -/
def names : Shape → List (NameUse × Text)
  | .functionDef id | .asyncFunctionDef id | .classDef id => [(.binding, id)]
  | .import aliases => aliases.flatMap (aliasNames .module)
  | .importFrom source aliases _ => source.toList.map (NameUse.module, ·) ++ aliases.flatMap (aliasNames .attribute)
  | .global ids | .nonlocal ids => ids.map (NameUse.variable, ·)
  | .attribute attr => [(.attribute, attr)]
  | .name id => [(.variable, id)]
  | .exceptHandler id | .matchStar id | .matchAs id | .matchMapping id => bound id
  | .arg id => [(.parameter, id)]
  | .keyword id => id.toList.map (NameUse.parameter, ·)
  | .matchClass kwdAttrs => kwdAttrs.map (NameUse.attribute, ·)
  | .typeVar id | .paramSpec id | .typeVarTuple id => [(.binding, id)]
  | _ => []

def attributesRead (s : Shape) : List Text := (s.names.filter fun p => decide (p.1 = .attribute)).map Prod.snd

theorem filter_bound (id : Option Text) : (bound id).filter (fun p => decide (p.1 = .attribute)) = [] := by
  cases id <;> rfl

theorem filter_use (use : NameUse) (ids : List Text) :
    (ids.map (use, ·)).filter (fun p => decide (p.1 = .attribute)) =
      if use = .attribute then ids.map (use, ·) else [] := by
  split_ifs with huse
  · apply List.filter_eq_self.mpr
    intro p hp
    obtain ⟨id, -, rfl⟩ := List.mem_map.mp hp
    exact decide_eq_true huse
  · apply List.filter_eq_nil_iff.mpr
    intro p hp
    obtain ⟨id, -, rfl⟩ := List.mem_map.mp hp
    simpa using huse

theorem filter_aliases (use : NameUse) (aliases : List Alias) :
    (aliases.flatMap (aliasNames use)).filter (fun p => decide (p.1 = .attribute)) =
      if use = .attribute then (aliases.map Alias.name).map (use, ·) else [] := by
  induction aliases with
  | nil => split_ifs <;> rfl
  | cons a aliases ih =>
    rw [List.flatMap_cons, List.filter_append, ih, aliasNames, List.filter_cons, filter_bound]
    split_ifs with h₁ h₂ h₂
    · rfl
    · exact absurd (of_decide_eq_true h₁) h₂
    · exact absurd (decide_eq_true h₂) h₁
    · rfl

theorem attributesRead_eq (s : Shape) : s.attributesRead = match s with
    | .attribute attr => [attr]
    | .matchClass kwdAttrs => kwdAttrs
    | .importFrom _ aliases _ => aliases.map Alias.name
    | _ => [] := by
  have hmap : ∀ ids : List Text, (ids.map (NameUse.attribute, ·)).map Prod.snd = ids := by
    intro ids
    rw [List.map_map]
    exact List.map_id ids
  unfold attributesRead
  cases s with
  | «import» aliases => simp [names, filter_aliases]
  | importFrom source aliases level =>
    have hmodule : ¬ NameUse.module = NameUse.attribute := by decide
    rw [names, List.filter_append, filter_use, filter_aliases, if_neg hmodule, if_pos rfl, List.nil_append, hmap]
  | global ids => simp [names, filter_use]
  | nonlocal ids => simp [names, filter_use]
  | exceptHandler id => simp [names, filter_bound]
  | matchStar id => simp [names, filter_bound]
  | matchAs id => simp [names, filter_bound]
  | matchMapping id => simp [names, filter_bound]
  | keyword id => simp [names, filter_use]
  | matchClass kwdAttrs => simp only [names, filter_use, if_true, hmap]
  | _ => rfl

end Shape
end PyFaaS.PythonSyntax
