import Mathlib.Data.List.Basic
import Mathlib.Data.Nat.Notation

/-!
# Scans with a cursor

A server hands out a collection page by page. Each reply names the cursor of the
next call, and the cursor zero ends the scan. A loop over the pages that leaves at
the first entry with an answer finds what a search of all visited entries finds.
-/

namespace PyFaaS.CursorScan
variable {α ρ : Type*}

/-- The reply to a call with a cursor: the next cursor and a page. -/
abbrev Server (α : Type*) := ℕ → ℕ → ℕ × List α

inductive Pages (server : Server α) : ℕ → ℕ → List (List α) → Prop
  | last {call cursor : ℕ} {page : List α} (h : server call cursor = (0, page)) : Pages server call cursor [page]
  | more {call cursor next : ℕ} {page : List α} {pages : List (List α)} (h : server call cursor = (next, page))
      (hnext : next ≠ 0) (hrest : Pages server (call + 1) next pages) : Pages server call cursor (page :: pages)

def scan (server : Server α) (answer : α → Option ρ) : ℕ → ℕ → ℕ → Option (Option ρ)
  | 0, _, _ => none
  | fuel + 1, call, cursor =>
    let (next, page) := server call cursor
    match page.findSome? answer with
    | some r => some (some r)
    | none => if next = 0 then some none else scan server answer fuel (call + 1) next

variable {server : Server α} {answer : α → Option ρ} {call cursor fuel : ℕ} {pages : List (List α)}

theorem scan_eq (h : Pages server call cursor pages) (hfuel : pages.length ≤ fuel) :
    scan server answer fuel call cursor = some (pages.flatten.findSome? answer) := by
  induction h generalizing fuel with
  | @last call cursor page h =>
    cases fuel with
    | zero => simp at hfuel
    | succ fuel => cases hpage : page.findSome? answer <;> simp [scan, h, hpage]
  | @more call cursor next page pages h hnext hrest ih =>
    cases fuel with
    | zero => simp at hfuel
    | succ fuel =>
      have hrec := @ih fuel (by simpa using hfuel)
      cases hpage : page.findSome? answer with
      | some r => simp [scan, h, hpage]
      | none => simp [scan, h, hpage, hnext, hrec]

end PyFaaS.CursorScan
