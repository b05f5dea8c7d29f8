import PyFaaS.Runs
import PyFaaS.SortedPages

/-!
# Reading a growing listing page by page

A reader asks now and then for some rows behind those that it has, while rows are added
and each answer may list rows of one key in any order. What it reads is how every listing
begins exactly if the rows that a step adds stand behind all that are there.
-/

namespace PyFaaS.Tailing
open Runs SortedPages
variable {σ α ρ κ : Type*} [LinearOrder κ] {key : ρ → κ} {view : σ → List ρ} {rows new more l l' got got' : List ρ}
  {s t : σ} {path : List (α × σ)} {most : ℕ}

def last : σ → List (α × σ) → σ
  | s, [] => s
  | _, (_, t) :: path => last t path

/-- The reader has `got` in front of the path and `got'` behind it. An answer has at most
`most` rows. -/
inductive Reading (key : ρ → κ) (view : σ → List ρ) (most : ℕ) : σ → List (α × σ) → List ρ → List ρ → Prop
  | done (s : σ) (got : List ρ) : Reading key view most s [] got got
  | poll {s : σ} {path : List (α × σ)} {got got' l : List ρ} {limit : ℕ} (hlimit : limit ≤ most)
      (hl : Listing key (view s) l)
      (hrest : Reading key view most s path (got ++ (l.drop got.length).take limit) got') :
      Reading key view most s path got got'
  | step {s t : σ} {a : α} {path : List (α × σ)} {got got' : List ρ} (hrest : Reading key view most t path got got') :
      Reading key view most s ((a, t) :: path) got got'

def Begins (key : ρ → κ) (rows got : List ρ) : Prop := ∀ l, Listing key rows l → got <+: l

def Behind (key : ρ → κ) (rows new : List ρ) : Prop := ∀ x ∈ rows, ∀ y ∈ new, key x < key y

def Grows (key : ρ → κ) (view : σ → List ρ) (s : σ) (p : α × σ) : Prop :=
  ∃ new, view p.2 = view s ++ new ∧ (new.map key).Nodup

def GrowsBehind (key : ρ → κ) (view : σ → List ρ) (s : σ) (p : α × σ) : Prop :=
  ∀ new, view p.2 = view s ++ new → Behind key (view s) new

/-! ## Listings -/

theorem listing_unique (hl : Listing key rows l) (hl' : Listing key rows l') (h : (rows.map key).Nodup) :
    l = l' := by
  apply (hl.perm.trans hl'.perm.symm).eq_of_pairwise _ hl.sorted hl'.sorted
  intro a b ha hb hab hba
  exact List.inj_on_of_nodup_map h (hl.perm.mem_iff.mp ha) (hl'.perm.mem_iff.mp hb) (le_antisymm hab hba)

theorem Behind.nodup_append (h : Behind key rows new) (hrows : (rows.map key).Nodup) (hnew : (new.map key).Nodup) :
    ((rows ++ new).map key).Nodup := by
  rw [List.map_append, List.nodup_append]
  refine ⟨hrows, hnew, ?_⟩
  intro a ha b hb hab
  obtain ⟨x, hx, rfl⟩ := List.mem_map.mp ha
  obtain ⟨y, hy, rfl⟩ := List.mem_map.mp hb
  exact (h x hx y hy).ne hab

theorem Behind.not_straddles (h : Behind key rows new) : ¬ Straddles key (rows ++ new) rows.length := by
  intro ⟨t, hbefore, hbehind⟩
  obtain ⟨y, hy, hyt⟩ : ∃ y ∈ new, key y ≤ t := by
    by_contra hnone
    have hzero : (new.countP fun r => decide (key r ≤ t)) = 0 :=
      List.countP_eq_zero.mpr fun y hy hyt => hnone ⟨y, hy, of_decide_eq_true hyt⟩
    have hle : (rows.countP fun r => decide (key r ≤ t)) ≤ rows.length := List.countP_le_length
    rw [List.countP_append, hzero] at hbehind
    omega
  have hall : (rows.countP fun r => decide (key r < t)) = rows.length :=
    List.countP_eq_length.mpr fun x hx => decide_eq_true (lt_of_lt_of_le (h x hx y hy) hyt)
  rw [List.countP_append, hall] at hbefore
  omega

theorem Behind.take_listing (h : Behind key rows new) (hl : Listing key (rows ++ new) l) :
    Listing key rows (l.take rows.length) := by
  obtain ⟨l₁, h₁⟩ := exists_listing key rows
  obtain ⟨l₂, h₂⟩ := exists_listing key new
  have hjoined : Listing key (rows ++ new) (l₁ ++ l₂) := by
    refine ⟨h₁.perm.append h₂.perm, List.pairwise_append.mpr ⟨h₁.sorted, h₂.sorted, ?_⟩⟩
    intro x hx y hy
    exact (h x (h₁.perm.mem_iff.mp hx) y (h₂.perm.mem_iff.mp hy)).le
  have hfront : (l.take rows.length).Perm l₁ := by
    have htake := hl.take_perm hjoined h.not_straddles
    rwa [List.take_left' h₁.perm.length_eq] at htake
  exact ⟨hfront.trans h₁.perm, hl.sorted.sublist (List.take_sublist _ _)⟩

theorem Begins.append (hgot : Begins key rows got) (h : Behind key rows new) : Begins key (rows ++ new) got :=
  fun _ hl => (hgot _ (h.take_listing hl)).trans (List.take_prefix _ _)

theorem Begins.poll (hgot : Begins key rows got) (h : (rows.map key).Nodup) (hl : Listing key rows l) (limit : ℕ) :
    Begins key rows (got ++ (l.drop got.length).take limit) := by
  intro l' hl'
  rw [listing_unique hl' hl h]
  obtain ⟨rest, rfl⟩ := hgot l hl
  rw [List.drop_left]
  exact (List.prefix_append_right_inj got).mpr (List.take_prefix limit rest)

theorem Reading.idle (s : σ) (path : List (α × σ)) (got : List ρ) : Reading key view most s path got got := by
  induction path generalizing s with
  | nil => exact .done s got
  | cons p path ih => exact .step (ih p.2)

/-- Row by row a reader gets to the end of a listing. -/
theorem Reading.all (hmost : 0 < most) (hl : Listing key (view s) l) (hrest : Reading key view most s path l got') :
    Reading key view most s path [] got' := by
  have hfrom : ∀ left n, n + left = l.length → Reading key view most s path (l.take n) got' := by
    intro left
    induction left with
    | zero =>
      rintro n rfl
      rwa [List.take_length]
    | succ left ih =>
      intro n hn
      refine .poll hmost hl ?_
      have hlength : (l.take n).length = n := List.length_take_of_le (by omega)
      rw [hlength, ← List.take_add]
      exact ih (n + 1) (by omega)
  exact hfrom l.length 0 (Nat.zero_add _)

theorem Reading.begins (h : Reading key view most s path got got') (hgrow : Along reached (Grows key view) s path)
    (hbehind : Along reached (GrowsBehind key view) s path) (hkeys : ((view s).map key).Nodup)
    (hgot : Begins key (view s) got) : Begins key (view (last s path)) got' := by
  induction h with
  | done s got => exact hgot
  | poll hlimit hl hrest ih => exact ih hgrow hbehind hkeys (hgot.poll hkeys hl _)
  | @step s t a path got got' hrest ih =>
    obtain ⟨⟨new, hnew, hnewKeys⟩, hgrow⟩ := hgrow
    have hnewBehind : Behind key (view s) new := hbehind.1 new hnew
    change view t = view s ++ new at hnew
    refine ih hgrow hbehind.2 ?_ ?_
    · rw [hnew]
      exact hnewBehind.nodup_append hkeys hnewKeys
    · rw [hnew]
      exact hgot.append hnewBehind

end PyFaaS.Tailing
