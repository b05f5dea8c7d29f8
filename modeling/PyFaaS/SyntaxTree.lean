import Mathlib.Data.List.Basic

/-!
# Labelled trees and their visitors

A visitor has a method for each node, which is given what remains to be visited
below it. When every method goes on below, a visit takes in all subtrees in order.
-/

namespace PyFaaS
variable {α σ : Type*}

inductive SyntaxTree (α : Type*) where
  | node (label : α) (children : List (SyntaxTree α))

namespace SyntaxTree

def label : SyntaxTree α → α
  | .node label _ => label

def children : SyntaxTree α → List (SyntaxTree α)
  | .node _ children => children

mutual

def subtrees : SyntaxTree α → List (SyntaxTree α)
  | .node label children => .node label children :: subtreesOf children

def subtreesOf : List (SyntaxTree α) → List (SyntaxTree α)
  | [] => []
  | t :: ts => t.subtrees ++ subtreesOf ts

end

mutual

/-- The method of a node takes the visit of its children. -/
def visit (method : SyntaxTree α → (σ → σ) → σ → σ) : SyntaxTree α → σ → σ
  | .node label children, s => method (.node label children) (visitChildren method children) s

def visitChildren (method : SyntaxTree α → (σ → σ) → σ → σ) : List (SyntaxTree α) → σ → σ
  | [], s => s
  | t :: ts, s => visitChildren method ts (t.visit method s)

end

theorem subtreesOf_eq (ts : List (SyntaxTree α)) : subtreesOf ts = ts.flatMap subtrees := by
  induction ts with
  | nil => rfl
  | cons t ts ih => rw [subtreesOf, ih, List.flatMap_cons]

theorem self_mem_subtrees (t : SyntaxTree α) : t ∈ t.subtrees := by
  cases t with
  | node label children => exact List.mem_cons_self

theorem mem_subtrees {t c : SyntaxTree α} : c ∈ t.subtrees ↔ c = t ∨ ∃ d ∈ t.children, c ∈ d.subtrees := by
  cases t with
  | node label children => rw [subtrees, subtreesOf_eq, List.mem_cons, List.mem_flatMap]; rfl

theorem tree_induction {P : SyntaxTree α → Prop} (h : ∀ t, (∀ c ∈ t.children, P c) → P t) (t : SyntaxTree α) : P t :=
  SyntaxTree.rec (motive_1 := P) (motive_2 := fun ts => ∀ c ∈ ts, P c) (fun label children ih => h _ ih)
    (fun _ hc => absurd hc List.not_mem_nil) (fun t ts ht hts c hc => by
      rcases List.mem_cons.mp hc with rfl | hc
      · exact ht
      · exact hts c hc) t

theorem child_mem_subtrees {t c d : SyntaxTree α} (hc : c ∈ t.subtrees) (hd : d ∈ c.children) : d ∈ t.subtrees := by
  induction t using tree_induction with
  | h t ih =>
    rcases mem_subtrees.mp hc with rfl | ⟨e, he, hc⟩
    · exact mem_subtrees.mpr (Or.inr ⟨d, hd, self_mem_subtrees d⟩)
    · exact mem_subtrees.mpr (Or.inr ⟨e, he, ih e he hc⟩)

/-- A visitor all of whose methods go on below notes every subtree in order. -/
theorem visit_eq {method : SyntaxTree α → (σ → σ) → σ → σ} {note : SyntaxTree α → σ → σ}
    (h : ∀ t below s, method t below s = below (note t s)) (t : SyntaxTree α) (s : σ) :
    t.visit method s = t.subtrees.foldl (fun s t => note t s) s := by
  induction t using tree_induction generalizing s with
  | h t ih =>
    have hchildren : ∀ (ts : List (SyntaxTree α)), (∀ c ∈ ts, ∀ s, c.visit method s =
        c.subtrees.foldl (fun s t => note t s) s) → ∀ s, visitChildren method ts s =
          (subtreesOf ts).foldl (fun s t => note t s) s := by
      intro ts hts
      induction ts with
      | nil => exact fun _ => rfl
      | cons c ts ihts =>
        intro s
        rw [visitChildren, subtreesOf, List.foldl_append, hts c List.mem_cons_self]
        exact ihts (fun c hc => hts c (List.mem_cons_of_mem _ hc)) _
    cases t with
    | node label children =>
      rw [visit, h, hchildren children ih, subtrees, List.foldl_cons]

end SyntaxTree
end PyFaaS
