import Mathlib.Data.List.Basic
import Mathlib.Data.List.Infix
import Mathlib.Logic.Function.Basic

/-!
# Files below a directory

A path is a list of names below the directory, which itself is the empty path.
What is placed at a path makes a directory of every path above it.
-/

namespace PyFaaS.Directories
variable {α C : Type*}

inductive Item (C : Type*) where
  | file (content : C)
  | directory
  deriving DecidableEq

abbrev Directory (α C : Type*) := List α → Option (Item C)

inductive Fault where
  | fileExists
  | notADirectory
  | isADirectory
  deriving DecidableEq

def Item.isFile : Item C → Bool
  | .file _ => true
  | .directory => false

def isFile (t : Directory α C) (path : List α) : Bool := (t path).any Item.isFile

variable [DecidableEq α]

def fresh : Directory α C := fun path => if path = [] then some .directory else none

/-- `os.makedirs` with `exist_ok`: no path on the way may be a file. -/
def makedirs (t : Directory α C) (path : List α) : Except Fault (Directory α C) :=
  if path.inits.any (isFile t) then .error .notADirectory
  else .ok fun q => if q <+: path then some .directory else t q

def mkdir (t : Directory α C) (path : List α) : Except Fault (Directory α C) :=
  match t path with
  | some (.file _) => .error .fileExists
  | some .directory => .ok t
  | none => .ok (Function.update t path (some .directory))

def write (t : Directory α C) (path : List α) (content : C) : Except Fault (Directory α C) :=
  match t path.dropLast, t path with
  | some .directory, some .directory => .error .isADirectory
  | some .directory, _ => .ok (Function.update t path (some (.file content)))
  | _, _ => .error .notADirectory

def place (t : Directory α C) (path : List α) (item : Item C) : Except Fault (Directory α C) :=
  (makedirs t path.dropLast).bind fun t =>
    match item with
    | .file content => write t path content
    | .directory => mkdir t path

def placed (t : Directory α C) (path : List α) (item : Item C) : Directory α C := fun q =>
  if q = path then some item else if q <+: path then some .directory else t q

/-- Nothing of the other kind stands in the way of a file or a directory. -/
structure Room (t : Directory α C) (path : List α) (asFile : Bool) : Prop where
  above : ∀ q, q <+: path → q ≠ path → isFile t q = false
  file : asFile = true → path ≠ [] ∧ t path ≠ some .directory
  directory : asFile = false → isFile t path = false

variable {t t' : Directory α C} {path q : List α} {item : Item C}

theorem placed_self : placed t path item path = some item := by simp [placed]

theorem placed_above (h : q <+: path) (hne : q ≠ path) : placed t path item q = some .directory := by
  simp [placed, h, hne]

theorem placed_outside (h : ¬ q <+: path) : placed t path item q = t q := by
  have hne : q ≠ path := fun heq => h (heq ▸ List.prefix_rfl)
  simp [placed, h, hne]

theorem makedirs_iff : makedirs t path = .ok t' ↔
    (∀ q, q <+: path → isFile t q = false) ∧ t' = fun q => if q <+: path then some .directory else t q := by
  have hfree : path.inits.any (isFile t) = false ↔ ∀ q, q <+: path → isFile t q = false := by
    simp only [List.any_eq_false, List.mem_inits, Bool.not_eq_true]
  rw [← hfree, makedirs]
  cases path.inits.any (isFile t) with
  | false => simp [eq_comm]
  | true => simp

theorem write_iff {content : C} (habove : t path.dropLast = some .directory) :
    write t path content = .ok t' ↔
      t path ≠ some .directory ∧ t' = Function.update t path (some (.file content)) := by
  rw [write, habove]
  cases t path with
  | none => simp [eq_comm]
  | some item => cases item <;> simp [eq_comm]

theorem mkdir_iff : mkdir t path = .ok t' ↔
    isFile t path = false ∧ t' = Function.update t path (some .directory) := by
  have hsame : t path = some .directory → Function.update t path (some .directory) = t :=
    fun h => Function.update_eq_self_iff.mpr h.symm
  unfold mkdir isFile
  cases hitem : t path with
  | none => simp [eq_comm]
  | some item =>
    cases item with
    | file content => simp [Item.isFile]
    | directory => simp [Item.isFile, hsame hitem, eq_comm]

theorem place_nil : place t [] item = .ok t' ↔ Room t [] item.isFile ∧ t' = placed t [] item := by
  have hmade : ∀ t₁, makedirs t [] = .ok t₁ ↔ isFile t [] = false ∧ t₁ = placed t [] .directory := by
    intro t₁
    have hplaced : placed t [] .directory = fun q => if q <+: [] then some .directory else t q := by
      funext q
      by_cases hq : q = [] <;> simp [placed, hq]
    rw [makedirs_iff, hplaced]
    simp [List.prefix_nil]
  have hroot : placed t [] .directory [] = some .directory := placed_self
  rw [place, List.dropLast_nil]
  cases hitem : makedirs t [] with
  | error fault =>
    have hfile : isFile t [] = true := by
      by_contra hfree
      have hok := (hmade _).mpr ⟨by simpa using hfree, rfl⟩
      rw [hitem] at hok
      cases hok
    refine iff_of_false (by simp [Except.bind]) fun h => ?_
    cases item with
    | file content => exact (h.1.file rfl).1 rfl
    | directory => simp [h.1.directory rfl] at hfile
  | ok t₁ =>
    obtain ⟨hfree, rfl⟩ := (hmade t₁).mp hitem
    cases item with
    | file content =>
      refine iff_of_false (fun h => ?_) fun h => (h.1.file rfl).1 rfl
      have hwrite : write (placed t [] .directory) [] content = .ok t' := h
      exact ((write_iff hroot).mp hwrite).1 hroot
    | directory =>
      have hroom : Room t [] false :=
        ⟨fun q hq hne => absurd (List.prefix_nil.mp hq) hne, by simp, fun _ => hfree⟩
      rw [Item.isFile, and_iff_right hroom]
      change mkdir (placed t [] .directory) [] = .ok t' ↔ _
      simp [mkdir, hroot, eq_comm]

theorem update_eq_placed {above : List α} {name : α} :
    Function.update (fun q => if q <+: above then some Item.directory else t q) (above ++ [name]) (some item) =
      placed t (above ++ [name]) item := by
  funext q
  by_cases hq : q = above ++ [name]
  · simp [placed, hq]
  · simp [placed, hq, List.prefix_concat_iff]

theorem place_concat {above : List α} {name : α} : place t (above ++ [name]) item = .ok t' ↔
    Room t (above ++ [name]) item.isFile ∧ t' = placed t (above ++ [name]) item := by
  have habove : ∀ q, q <+: above ↔ q <+: above ++ [name] ∧ q ≠ above ++ [name] := by
    intro q
    rw [List.prefix_concat_iff]
    constructor
    · intro h
      refine ⟨Or.inr h, fun heq => ?_⟩
      have hlength := h.length_le
      simp only [heq, List.length_append, List.length_singleton] at hlength
      omega
    · exact fun h => h.1.resolve_left h.2
  have hself : ¬ above ++ [name] <+: above := fun h => ((habove _).mp h).2 rfl
  rw [place, List.dropLast_concat]
  cases hmade : makedirs t above with
  | error fault =>
    refine iff_of_false (by simp [Except.bind]) fun h => ?_
    have hfree : ∀ q, q <+: above → isFile t q = false :=
      fun q hq => h.1.above q ((habove q).mp hq).1 ((habove q).mp hq).2
    have hok := makedirs_iff.mpr ⟨hfree, rfl⟩
    rw [hmade] at hok
    cases hok
  | ok t₁ =>
    obtain ⟨hfree, rfl⟩ := makedirs_iff.mp hmade
    have hroot : ∀ made : Directory α C, made = (fun q => if q <+: above then some Item.directory else t q) →
        made (above ++ [name]).dropLast = some .directory := by
      intro made hmade
      simp [hmade]
    have hfree' : ∀ q, q <+: above ++ [name] → q ≠ above ++ [name] → isFile t q = false :=
      fun q hq hne => hfree q ((habove q).mpr ⟨hq, hne⟩)
    rw [← update_eq_placed]
    simp only [Except.bind]
    cases item with
    | file content =>
      refine (write_iff (hroot _ rfl)).trans (and_congr_left fun _ => ?_)
      simp only [hself, if_false]
      exact ⟨fun h => ⟨hfree', fun _ => ⟨by simp, h⟩, by simp [Item.isFile]⟩, fun h => (h.file rfl).2⟩
    | directory =>
      refine mkdir_iff.trans (and_congr_left fun _ => ?_)
      simp only [isFile, hself, if_false]
      exact ⟨fun h => ⟨hfree', by simp [Item.isFile], fun _ => h⟩, fun h => h.directory rfl⟩

theorem place_iff : place t path item = .ok t' ↔ Room t path item.isFile ∧ t' = placed t path item := by
  cases List.eq_nil_or_concat' path with
  | inl h =>
    rw [h]
    exact place_nil
  | inr h =>
    obtain ⟨above, name, h⟩ := h
    rw [h]
    exact place_concat

/-! ## Many items -/

def Compatible (x y : List α × Item C) : Prop :=
  (x.2.isFile = true → ¬ x.1 <+: y.1) ∧ (y.2.isFile = true → ¬ y.1 <+: x.1)

def placedAll (t : Directory α C) (items : List (List α × Item C)) : Directory α C :=
  items.foldl (fun t x => placed t x.1 x.2) t

variable {x y : List α × Item C} {items : List (List α × Item C)}

theorem isFile_placed (h : Room t path item.isFile) (hq : q = path → item.isFile = false) :
    isFile (placed t path item) q = isFile t q := by
  by_cases hself : q = path
  · have hitem := hq hself
    rw [hself, h.directory hitem]
    simpa [isFile, placed_self] using hitem
  · by_cases habove : q <+: path
    · rw [h.above q habove hself, isFile, placed_above habove hself]
      rfl
    · rw [isFile, isFile, placed_outside habove]

theorem placed_eq_directory (h : Room t path item.isFile) : placed t path item q = some .directory ↔
    t q = some .directory ∨ q <+: path ∧ (q = path → item.isFile = false) := by
  by_cases hself : q = path
  · subst hself
    rw [placed_self]
    cases item with
    | file content => simp [Item.isFile, (h.file rfl).2]
    | directory => simp [Item.isFile]
  · by_cases habove : q <+: path
    · simp [placed_above habove hself, habove, hself]
    · simp [placed_outside habove, habove]

theorem room_placed_iff {other : List α} {asFile : Bool} (hroom : Room t path item.isFile)
    (hitem : item.isFile = true → ¬ path <+: other) (hother : asFile = true → ¬ other <+: path) :
    Room (placed t path item) other asFile ↔ Room t other asFile := by
  have hdirectory : path <+: other → item.isFile = false := fun h => by simpa using mt hitem (not_not.mpr h)
  have habove : ∀ q, q <+: other → isFile (placed t path item) q = isFile t q :=
    fun q hq => isFile_placed hroom fun hself => hdirectory (hself ▸ hq)
  have hfile : asFile = true → placed t path item other = t other :=
    fun h => placed_outside (hother h)
  constructor
  · intro h
    refine ⟨fun q hq hne => ?_, fun hfiled => ?_, fun hfiled => ?_⟩
    · exact (habove q hq).symm.trans (h.above q hq hne)
    · exact hfile hfiled ▸ h.file hfiled
    · exact (habove other List.prefix_rfl).symm.trans (h.directory hfiled)
  · intro h
    refine ⟨fun q hq hne => ?_, fun hfiled => ?_, fun hfiled => ?_⟩
    · exact (habove q hq).trans (h.above q hq hne)
    · exact (hfile hfiled).symm ▸ h.file hfiled
    · exact (habove other List.prefix_rfl).trans (h.directory hfiled)

theorem placedAll_cons : placedAll t (x :: items) = placedAll (placed t x.1 x.2) items := rfl

theorem placedAll_outside (h : ∀ x ∈ items, ¬ q <+: x.1) : placedAll t items q = t q := by
  induction items generalizing t with
  | nil => rfl
  | cons x items ih =>
    obtain ⟨hx, hitems⟩ := List.forall_mem_cons.mp h
    rw [placedAll_cons, ih hitems, placed_outside hx]

theorem placedAll_file (hcompatible : items.Pairwise Compatible) (hx : x ∈ items) (hfile : x.2.isFile = true) :
    placedAll t items x.1 = some x.2 := by
  induction items generalizing t with
  | nil => cases hx
  | cons y items ih =>
    obtain ⟨hy, hitems⟩ := List.pairwise_cons.mp hcompatible
    cases List.mem_cons.mp hx with
    | inl h =>
      subst h
      rw [placedAll_cons, placedAll_outside fun z hz => (hy z hz).1 hfile, placed_self]
    | inr h => exact ih hitems h

theorem placedAll_eq_directory (hcompatible : items.Pairwise Compatible)
    (hroom : ∀ x ∈ items, Room t x.1 x.2.isFile) : placedAll t items q = some .directory ↔
      t q = some .directory ∨ ∃ x ∈ items, q <+: x.1 ∧ (q = x.1 → x.2.isFile = false) := by
  induction items generalizing t with
  | nil => simp [placedAll]
  | cons y items ih =>
    obtain ⟨hy, hitems⟩ := List.pairwise_cons.mp hcompatible
    obtain ⟨hyroom, hrooms⟩ := List.forall_mem_cons.mp hroom
    have hnext : ∀ x ∈ items, Room (placed t y.1 y.2) x.1 x.2.isFile :=
      fun x hx => (room_placed_iff hyroom (hy x hx).1 (hy x hx).2).mpr (hrooms x hx)
    rw [placedAll_cons, ih hitems hnext, placed_eq_directory hyroom, or_assoc]
    simp only [List.mem_cons, or_and_right, exists_or, exists_eq_left]

theorem placedAll_eq_file (hcompatible : items.Pairwise Compatible) (hroom : ∀ x ∈ items, Room t x.1 x.2.isFile)
    {content : C} : placedAll t items q = some (.file content) ↔
      (q, Item.file content) ∈ items ∨ (∀ x ∈ items, ¬ q <+: x.1) ∧ t q = some (.file content) := by
  by_cases hbelow : ∃ x ∈ items, q <+: x.1
  · obtain ⟨x, hx, hq⟩ := hbelow
    by_cases hown : q = x.1 ∧ x.2.isFile = true
    · obtain ⟨rfl, hfile⟩ := hown
      rw [placedAll_file hcompatible hx hfile]
      constructor
      · intro h
        exact Or.inl (Option.some.inj h ▸ hx)
      · intro h
        rcases h with hmem | ⟨hnone, -⟩
        · exact (placedAll_file hcompatible hx hfile).symm.trans (placedAll_file (t := t) hcompatible hmem rfl)
        · exact absurd List.prefix_rfl (hnone x hx)
    · have hdirectory : placedAll t items q = some .directory :=
        (placedAll_eq_directory hcompatible hroom).mpr
          (Or.inr ⟨x, hx, hq, fun hself => by simpa [hself] using hown⟩)
      rw [hdirectory]
      refine iff_of_false (by simp) fun h => ?_
      rcases h with hmem | ⟨hnone, -⟩
      · have hfile := placedAll_file (t := t) hcompatible hmem rfl
        rw [hdirectory] at hfile
        cases hfile
      · exact hnone x hx hq
  · have hnone : ∀ x ∈ items, ¬ q <+: x.1 := fun x hx hq => hbelow ⟨x, hx, hq⟩
    rw [placedAll_outside hnone]
    constructor
    · exact fun h => Or.inr ⟨hnone, h⟩
    · intro h
      rcases h with hmem | ⟨-, h⟩
      · exact absurd List.prefix_rfl (hnone _ hmem)
      · exact h

end PyFaaS.Directories
