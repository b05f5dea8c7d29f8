import Mathlib.Data.List.Basic
import Mathlib.Logic.Function.Basic

/-!
# Trees of files

A file that is opened for writing is empty at first and holds its content once it
has been written. A directory is filled by writing one file behind the other, and
what was in a file before does not matter.
-/

namespace PyFaaS.FileTree
variable {P C : Type*}

inductive File (C : Type*) where
  | torn
  | whole (content : C)
  deriving DecidableEq

abbrev Tree (P C : Type*) := P → Option (File C)

def empty : Tree P C := fun _ => none

variable [DecidableEq P]

def put (t : Tree P C) (path : P) (f : File C) : Tree P C := Function.update t path (some f)

def erase (t : Tree P C) (path : P) : Tree P C := Function.update t path none

def fill (t : Tree P C) (writes : List (P × C)) : Tree P C :=
  writes.foldl (fun t w => put t w.1 (.whole w.2)) t

variable {t t' : Tree P C} {path : P} {c : C} {writes more : List (P × C)}

theorem put_put (f f' : File C) : put (put t path f) path f' = put t path f' :=
  Function.update_idem _ _ _

theorem put_of_ne {other : P} (h : other ≠ path) (f : File C) : put t path f other = t other :=
  Function.update_of_ne h _ _

theorem fill_cons : fill t ((path, c) :: writes) = fill (put t path (.whole c)) writes := rfl

theorem fill_append : fill t (writes ++ more) = fill (fill t writes) more := List.foldl_append

theorem fill_snoc : fill t (writes ++ [(path, c)]) = put (fill t writes) path (.whole c) := fill_append

theorem fill_put_torn : fill (put t path .torn) ((path, c) :: writes) = fill t ((path, c) :: writes) := by
  rw [fill_cons, put_put, fill_cons]

theorem fill_outside (h : path ∉ writes.map Prod.fst) : fill t writes path = t path := by
  induction writes generalizing t with
  | nil => rfl
  | cons w writes ih =>
    obtain ⟨hne, hrest⟩ := List.ne_and_not_mem_of_not_mem_cons h
    change fill (put t w.1 (.whole w.2)) writes path = t path
    rw [ih hrest, put_of_ne hne]

theorem fill_congr (h : ∀ path, path ∉ writes.map Prod.fst → t path = t' path) : fill t writes = fill t' writes := by
  induction writes generalizing t t' with
  | nil => exact funext fun path => h path List.not_mem_nil
  | cons w writes ih =>
    apply ih
    intro path hrest
    change put t w.1 (.whole w.2) path = put t' w.1 (.whole w.2) path
    by_cases hpath : path = w.1
    · simp [put, hpath]
    · rw [put_of_ne hpath, put_of_ne hpath]
      exact h path (List.not_mem_cons_of_ne_of_not_mem hpath hrest)

theorem fill_ne_torn (h : ∀ path, t path ≠ some .torn) : ∀ path, fill t writes path ≠ some .torn := by
  induction writes generalizing t with
  | nil => exact h
  | cons w writes ih =>
    apply ih
    intro path
    change put t w.1 (.whole w.2) path ≠ some .torn
    by_cases hpath : path = w.1
    · simp [put, hpath]
    · rw [put_of_ne hpath]
      exact h path

theorem whole_of_fill_empty {f : File C} (h : fill empty writes path = some f) : ∃ c, f = .whole c := by
  cases f with
  | torn => exact absurd h (fill_ne_torn (fun _ hempty => by cases hempty) path)
  | whole c => exact ⟨c, rfl⟩

end PyFaaS.FileTree
