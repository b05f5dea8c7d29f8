import Mathlib.Data.List.Induction
import Mathlib.Data.List.Nodup

/-!
# Maps that keep their order

Entries stand in the order in which their keys came in; a new value takes the place of the
old one. An entry that is a partial record takes patches, and the last patch with a field
decides what is read there.
-/

namespace PyFaaS.Overlays
variable {ι β φ υ : Type*}

structure OrderedMap (ι β : Type*) where
  entries : List (ι × β)
  nodup : (entries.map Prod.fst).Nodup

def setEntry [DecidableEq ι] (i : ι) (b : β) : List (ι × β) → List (ι × β)
  | [] => [(i, b)]
  | x :: rest => if x.1 = i then (i, b) :: rest else x :: setEntry i b rest

def overlay (old patch : φ → Option υ) : φ → Option υ := fun k => (patch k).or (old k)

section
variable [DecidableEq ι] {i j : ι} {b : β} {es : List (ι × β)}

theorem keys_setEntry : (setEntry i b es).map Prod.fst =
    if i ∈ es.map Prod.fst then es.map Prod.fst else es.map Prod.fst ++ [i] := by
  induction es with
  | nil => rfl
  | cons x rest ih =>
    rw [setEntry]
    by_cases hx : x.1 = i
    · simp [hx]
    · have hne : i ≠ x.1 := fun h => hx h.symm
      rw [if_neg hx, List.map_cons, ih, List.map_cons]
      simp only [List.mem_cons, hne, false_or]
      split_ifs <;> rfl

theorem nodup_setEntry (h : (es.map Prod.fst).Nodup) : ((setEntry i b es).map Prod.fst).Nodup := by
  rw [keys_setEntry]
  split_ifs with hi
  · exact h
  · exact List.nodup_append.mpr ⟨h, List.nodup_singleton i, fun a ha c hc => by
      rw [List.mem_singleton.mp hc]
      exact fun hac => hi (hac ▸ ha)⟩

theorem find?_setEntry : (setEntry i b es).find? (fun x => decide (x.1 = j)) =
    if j = i then some (i, b) else es.find? fun x => decide (x.1 = j) := by
  induction es with
  | nil => by_cases h : j = i <;> simp [setEntry, h, eq_comm]
  | cons x rest ih =>
    rw [setEntry]
    by_cases hx : x.1 = i
    · by_cases hj : j = i
      · simp [hx, hj]
      · have hi : ¬ i = j := fun h => hj h.symm
        simp [hx, hi, hj]
    · rw [if_neg hx, List.find?_cons, ih, List.find?_cons]
      by_cases hj : j = i
      · simp [hj, hx]
      · simp [hj]
end

namespace OrderedMap

def empty : OrderedMap ι β := ⟨[], List.nodup_nil⟩

def keys (m : OrderedMap ι β) : List ι := m.entries.map Prod.fst

section
variable [DecidableEq ι] {m : OrderedMap ι β} {i j : ι} {b : β}

def set (m : OrderedMap ι β) (i : ι) (b : β) : OrderedMap ι β := ⟨setEntry i b m.entries, nodup_setEntry m.nodup⟩

def get? (m : OrderedMap ι β) (i : ι) : Option β := (m.entries.find? fun x => decide (x.1 = i)).map Prod.snd

theorem keys_set : (m.set i b).keys = if i ∈ m.keys then m.keys else m.keys ++ [i] := keys_setEntry

theorem get?_set : (m.set i b).get? j = if j = i then some b else m.get? j := by
  rw [get?, set, find?_setEntry]
  split_ifs
  · rfl
  · rfl
end

/-! ## Partial records -/

variable [DecidableEq ι] {m : OrderedMap ι (φ → Option υ)} {i j : ι} {p : φ → Option υ} {k : φ}

def upsert (m : OrderedMap ι (φ → Option υ)) (i : ι) (p : φ → Option υ) : OrderedMap ι (φ → Option υ) :=
  m.set i (overlay ((m.get? i).getD fun _ => none) p)

def field (m : OrderedMap ι (φ → Option υ)) (i : ι) (k : φ) : Option υ := (m.get? i).bind fun r => r k

theorem field_upsert : (m.upsert i p).field j k = if j = i then (p k).or (m.field j k) else m.field j k := by
  rw [field, upsert, get?_set]
  by_cases h : j = i
  · rw [if_pos h, if_pos h, Option.bind_some, overlay, field, h]
    cases m.get? i <;> rfl
  · rw [if_neg h, if_neg h, field]

end OrderedMap

def lastWrite [DecidableEq ι] (patches : List (ι × (φ → Option υ))) (i : ι) (k : φ) : Option υ :=
  patches.reverse.findSome? fun x => if x.1 = i then x.2 k else none

def upserts [DecidableEq ι] (patches : List (ι × (φ → Option υ))) : OrderedMap ι (φ → Option υ) :=
  patches.foldl (fun m x => m.upsert x.1 x.2) .empty

section
variable [DecidableEq ι] {patches : List (ι × (φ → Option υ))} {x : ι × (φ → Option υ)} {i : ι} {k : φ}

theorem upserts_concat : upserts (patches ++ [x]) = (upserts patches).upsert x.1 x.2 := by
  rw [upserts, List.foldl_append]
  rfl

theorem lastWrite_concat :
    lastWrite (patches ++ [x]) i k = (if i = x.1 then x.2 k else none).or (lastWrite patches i k) := by
  rw [lastWrite, List.reverse_append, List.reverse_singleton, List.singleton_append, List.findSome?_cons]
  by_cases h : x.1 = i
  · rw [if_pos h, if_pos h.symm]
    cases x.2 k <;> rfl
  · rw [if_neg h, if_neg fun h' => h h'.symm]
    rfl

theorem field_upserts (patches : List (ι × (φ → Option υ))) (i : ι) (k : φ) :
    (upserts patches).field i k = lastWrite patches i k := by
  induction patches using List.reverseRecOn with
  | nil => rfl
  | append_singleton patches x ih =>
    rw [upserts_concat, OrderedMap.field_upsert, lastWrite_concat, ih]
    split_ifs
    · rfl
    · rfl

theorem lastWrite_own : lastWrite (patches.filter fun x => decide (x.1 = i)) i k = lastWrite patches i k := by
  induction patches using List.reverseRecOn with
  | nil => rfl
  | append_singleton patches x ih =>
    rw [lastWrite_concat, List.filter_append]
    by_cases h : x.1 = i
    · rw [List.filter_singleton, decide_eq_true h, cond_true, lastWrite_concat, ih]
    · rw [List.filter_singleton, decide_eq_false h, cond_false, List.append_nil, ih, if_neg fun h' => h h'.symm]
      rfl

theorem keys_upserts (patches : List (ι × (φ → Option υ))) :
    (upserts patches).keys = (patches.map Prod.fst).eraseDups := by
  induction patches using List.reverseRecOn with
  | nil => rfl
  | append_singleton patches x ih =>
    rw [upserts_concat, OrderedMap.upsert, OrderedMap.keys_set, ih, List.map_append, List.eraseDups_append]
    by_cases h : x.1 ∈ patches.map Prod.fst
    · simp [List.removeAll, h]
    · simp [List.removeAll, List.eraseDups_cons, h]

end
end PyFaaS.Overlays
