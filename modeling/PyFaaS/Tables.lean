import Mathlib.Data.List.Nodup

/-!
# Tables of keyed rows

A table is the list of its rows in insertion order. `get?` reads a row by its
key and `modify` edits the rows of one key in place.
-/

namespace PyFaaS

class Keyed (ρ : Type*) (κ : outParam Type*) where
  key : ρ → κ

namespace Table
variable {ρ κ : Type*} [Keyed ρ κ] [DecidableEq κ]

def get? (t : List ρ) (k : κ) : Option ρ := t.find? fun r => Keyed.key r = k

def modify (t : List ρ) (k : κ) (f : ρ → ρ) : List ρ := t.map fun r => if Keyed.key r = k then f r else r

theorem key_of_get? {t : List ρ} {k : κ} {r : ρ} (h : get? t k = some r) : Keyed.key r = k := by
  simpa using List.find?_some h

theorem get?_of_mem {t : List ρ} {r : ρ} (hkeys : (t.map (Keyed.key : ρ → κ)).Nodup) (h : r ∈ t) :
    get? t (Keyed.key r : κ) = some r := by
  cases hget : get? t (Keyed.key r : κ) with
  | none => exact absurd (decide_eq_true rfl) (List.find?_eq_none.mp hget r h)
  | some r' => rw [List.inj_on_of_nodup_map hkeys (List.mem_of_find?_eq_some hget) h (key_of_get? hget)]

theorem get?_modify_self {t : List ρ} {k : κ} {f : ρ → ρ}
    (hf : ∀ r, (Keyed.key (f r) : κ) = Keyed.key r) : get? (modify t k f) k = (get? t k).map f := by
  induction t with
  | nil => rfl
  | cons r t ih =>
    unfold get? modify at ih ⊢
    by_cases hr : (Keyed.key r : κ) = k
    · simp [hr, hf]
    · simp only [List.map_cons, hr, if_false]
      rw [List.find?_cons_of_neg (by simpa using hr), List.find?_cons_of_neg (by simpa using hr)]
      exact ih

theorem get?_modify_of_ne {t : List ρ} {k j : κ} {f : ρ → ρ}
    (hf : ∀ r, (Keyed.key (f r) : κ) = Keyed.key r) (hjk : j ≠ k) :
    get? (modify t k f) j = get? t j := by
  induction t with
  | nil => rfl
  | cons r t ih =>
    unfold get? modify at ih ⊢
    by_cases hr : (Keyed.key r : κ) = k
    · have hfr : (Keyed.key (f r) : κ) ≠ j := by simpa [hf, hr] using hjk.symm
      have hrj : (Keyed.key r : κ) ≠ j := by simpa [hr] using hjk.symm
      simp only [List.map_cons, hr, if_true]
      rw [List.find?_cons_of_neg (by simpa using hfr), List.find?_cons_of_neg (by simpa using hrj)]
      exact ih
    · simp only [List.map_cons, hr, if_false, List.find?_cons, ih]

theorem mem_modify {t : List ρ} {k : κ} {f : ρ → ρ} {r : ρ} (h : r ∈ modify t k f) :
    r ∈ t ∧ Keyed.key r ≠ k ∨ ∃ r₀ ∈ t, Keyed.key r₀ = k ∧ r = f r₀ := by
  obtain ⟨r₀, hr₀, rfl⟩ := List.mem_map.mp h
  by_cases hk : (Keyed.key r₀ : κ) = k
  · rw [if_pos hk]
    exact Or.inr ⟨r₀, hr₀, hk, rfl⟩
  · rw [if_neg hk]
    exact Or.inl ⟨hr₀, hk⟩

theorem map_modify {β : Type*} {t : List ρ} {k : κ} {f : ρ → ρ} {g : ρ → β} (h : ∀ r, g (f r) = g r) :
    (modify t k f).map g = t.map g := by
  rw [modify, List.map_map]
  apply List.map_congr_left
  intro r _
  rw [Function.comp_apply]
  split_ifs
  · exact h r
  · rfl

theorem countP_modify {t : List ρ} {k : κ} {f : ρ → ρ} {r : ρ} (p : ρ → Bool)
    (hkeys : (t.map (Keyed.key : ρ → κ)).Nodup) (hr : r ∈ t) (hk : Keyed.key r = k) :
    (modify t k f).countP p + (p r).toNat = t.countP p + (p (f r)).toNat := by
  induction t with
  | nil => cases hr
  | cons r₀ t ih =>
    obtain ⟨hnot, hkeys⟩ := List.nodup_cons.mp hkeys
    have hcount : ∀ x (xs : List ρ), (x :: xs).countP p = xs.countP p + (p x).toNat := by
      intro x xs
      rw [List.countP_cons]
      cases p x <;> rfl
    rcases List.mem_cons.mp hr with rfl | hr
    · have hrest : modify t k f = t := by
        apply (List.map_congr_left fun x hx => if_neg ?_).trans (List.map_id' t)
        rintro rfl
        exact hnot (List.mem_map.mpr ⟨x, hx, hk.symm⟩)
      have hhead : modify (r :: t) k f = f r :: modify t k f := by simp [modify, hk]
      rw [hhead, hrest, hcount, hcount]
      omega
    · have hne : (Keyed.key r₀ : κ) ≠ k := by
        rintro rfl
        exact hnot (List.mem_map.mpr ⟨r, hr, hk⟩)
      have hhead : modify (r₀ :: t) k f = r₀ :: modify t k f := by simp [modify, hne]
      rw [hhead, hcount, hcount]
      have := ih hkeys hr
      omega

/-! ## Joins -/

section
variable {α β : Type*} {on : α → β → Bool} {rows : List α} {others : List β}

/-- Every row with each row that it matches, or once with none. -/
def outerJoin (on : α → β → Bool) (rows : List α) (others : List β) : List (α × Option β) :=
  rows.flatMap fun a =>
    match others.filter (on a) with
    | [] => [(a, none)]
    | matched => matched.map fun b => (a, some b)

theorem exists_mem_outerJoin {a : α} (h : a ∈ rows) : ∃ b, (a, b) ∈ outerJoin on rows others := by
  cases hmatched : others.filter (on a) with
  | nil => exact ⟨none, List.mem_flatMap.mpr ⟨a, h, by simp [hmatched]⟩⟩
  | cons b matched => exact ⟨some b, List.mem_flatMap.mpr ⟨a, h, by simp [hmatched]⟩⟩

theorem mem_of_mem_outerJoin {x : α × Option β} (h : x ∈ outerJoin on rows others) : x.1 ∈ rows := by
  obtain ⟨a, ha, hx⟩ := List.mem_flatMap.mp h
  cases hmatched : others.filter (on a) with
  | nil =>
    rw [hmatched] at hx
    rwa [List.mem_singleton.mp hx]
  | cons b matched =>
    rw [hmatched] at hx
    obtain ⟨b, -, rfl⟩ := List.mem_map.mp hx
    exact ha

theorem outerJoin_eq_map (h : ∀ a ∈ rows, (others.filter (on a)).length ≤ 1) :
    outerJoin on rows others = rows.map fun a => (a, others.find? (on a)) := by
  rw [outerJoin, List.map_eq_flatMap]
  refine List.flatMap_congr fun a ha => ?_
  have hfind : others.find? (on a) = (others.filter (on a)).head? := List.head?_filter.symm
  rw [hfind]
  have hone := h a ha
  cases hmatched : others.filter (on a) with
  | nil => rfl
  | cons b matched =>
    rw [hmatched, List.length_cons] at hone
    have hnil : matched = [] := List.length_eq_zero_iff.mp (by omega)
    rw [hnil]
    rfl

end

/-! ## The rows of one owner -/

section
variable {ρ : Type*} {own own' p : ρ → Bool} {f : ρ → ρ} {t : List ρ}

theorem filter_owned (h : ∀ r ∈ t, p r → own r) : t.filter p = (t.filter own).filter p := by
  rw [List.filter_filter]
  apply List.filter_congr
  intro r hr
  cases hp : p r with
  | false => rfl
  | true => rw [h r hr hp, Bool.and_self]

theorem find?_owned (h : ∀ r ∈ t, p r → own r) : t.find? p = (t.filter own).find? p := by
  rw [← List.head?_filter, ← List.head?_filter, filter_owned h]

theorem filter_map (h : ∀ r ∈ t, own' (f r) = own r) : (t.map f).filter own' = (t.filter own).map f := by
  rw [List.filter_map]
  congr 1
  exact List.filter_congr h

theorem filter_map_of_unchanged (h : ∀ r ∈ t, own' (f r) = own r) (hf : ∀ r ∈ t, own r → f r = r) :
    (t.map f).filter own' = t.filter own := by
  rw [filter_map h]
  have hid : ∀ r ∈ t.filter own, f r = r := fun r hr =>
    hf r (List.mem_of_mem_filter hr) (List.of_mem_filter hr)
  rw [List.map_congr_left hid, List.map_id']

theorem filter_filter_of_unchanged (h : ∀ r ∈ t, own r → p r) : (t.filter p).filter own = t.filter own := by
  rw [List.filter_comm]
  apply List.filter_eq_self.mpr
  intro r hr
  exact h r (List.mem_of_mem_filter hr) (List.of_mem_filter hr)

end

theorem filter_modify {t : List ρ} {k : κ} {f : ρ → ρ} {own : ρ → Bool} (h : ∀ r ∈ t, own (f r) = own r) :
    (modify t k f).filter own = modify (t.filter own) k f := by
  apply filter_map
  intro r hr
  split_ifs
  · exact h r hr
  · rfl

theorem filter_modify_of_ne {t : List ρ} {k : κ} {f : ρ → ρ} {own : ρ → Bool}
    (h : ∀ r ∈ t, own (f r) = own r) (hk : ∀ r ∈ t, own r → Keyed.key r ≠ k) :
    (modify t k f).filter own = t.filter own := by
  apply filter_map_of_unchanged
  · intro r hr
    split_ifs
    · exact h r hr
    · rfl
  · intro r hr hown
    exact if_neg (hk r hr hown)

end Table
end PyFaaS
