import Mathlib.Data.List.Nodup
import PyFaaS.TextLines

/-!
# The environment of a process

A dictionary from names to texts. The operating system passes each entry on as
one string and starts no process when one of the strings is too long.
-/

namespace PyFaaS.ProcessEnvironment
open TextLines

abbrev Environ := List (Text × Text)

def set (env : Environ) (name value : Text) : Environ :=
  (name, value) :: env.filter fun entry => !decide (entry.1 = name)

def unset (env : Environ) (name : Text) : Environ := env.filter fun entry => !decide (entry.1 = name)

def setAll (env : Environ) (entries : List (Text × Text)) : Environ :=
  entries.foldl (fun env entry => set env entry.1 entry.2) env

def stringSize (entry : Text × Text) : ℕ := utf8Length entry.1 + 1 + utf8Length entry.2 + 1

/-- `MAX_ARG_STRLEN` for pages of 4096 bytes. -/
def maxStringSize : ℕ := 131072

def stringsFit (env : Environ) : Bool := env.all fun entry => decide (stringSize entry ≤ maxStringSize)

structure Only (env : Environ) (name value : Text) : Prop where
  mem : (name, value) ∈ env
  only : ∀ entry ∈ env, entry.1 = name → entry.2 = value

variable {env : Environ} {name value : Text}

@[simp] theorem setAll_nil (env : Environ) : setAll env [] = env := rfl

theorem mem_set {other : Text} {x : Text} {entry : Text × Text} :
    entry ∈ set env other x ↔ entry = (other, x) ∨ entry ∈ env ∧ entry.1 ≠ other := by
  simp [set]

theorem mem_setAll {entries : List (Text × Text)} {entry : Text × Text} (h : entry ∈ setAll env entries) :
    entry ∈ env ∨ entry ∈ entries := by
  induction entries generalizing env with
  | nil => exact Or.inl h
  | cons next entries ih =>
    rcases ih h with henv | hrest
    · rcases mem_set.mp henv with rfl | ⟨hold, -⟩
      · exact Or.inr List.mem_cons_self
      · exact Or.inl hold
    · exact Or.inr (List.mem_cons_of_mem _ hrest)

theorem only_set (env : Environ) (name value : Text) : Only (set env name value) name value := by
  refine ⟨List.mem_cons_self, fun entry hentry hname => ?_⟩
  rcases mem_set.mp hentry with rfl | ⟨-, hne⟩
  · rfl
  · exact absurd hname hne

theorem Only.set (h : Only env name value) {other : Text} (hne : name ≠ other) (x : Text) :
    Only (set env other x) name value := by
  refine ⟨mem_set.mpr (Or.inr ⟨h.mem, hne⟩), fun entry hentry hname => ?_⟩
  rcases mem_set.mp hentry with rfl | ⟨hold, -⟩
  · exact absurd hname.symm hne
  · exact h.only entry hold hname

theorem Only.unset (h : Only env name value) {other : Text} (hne : name ≠ other) :
    Only (unset env other) name value :=
  ⟨List.mem_filter.mpr ⟨h.mem, by simpa using hne⟩,
    fun entry hentry hname => h.only entry (List.mem_filter.mp hentry).1 hname⟩

theorem Only.setAll {entries : List (Text × Text)} (h : Only env name value)
    (hne : name ∉ entries.map Prod.fst) : Only (setAll env entries) name value := by
  induction entries generalizing env with
  | nil => exact h
  | cons entry entries ih =>
    obtain ⟨hentry, hentries⟩ := List.ne_and_not_mem_of_not_mem_cons hne
    exact ih (h.set hentry entry.2) hentries

theorem Only.of_nodup {entries : List (Text × Text)} (hmem : (name, value) ∈ entries)
    (hnames : (entries.map Prod.fst).Nodup) : Only entries name value := by
  refine ⟨hmem, fun entry hentry hname => ?_⟩
  exact congrArg Prod.snd (List.inj_on_of_nodup_map hnames hentry hmem hname)

theorem Only.setAll_entries {entries : List (Text × Text)} (h : Only entries name value) (env : Environ) :
    Only (ProcessEnvironment.setAll env entries) name value := by
  obtain ⟨hmem, honly⟩ := h
  induction entries generalizing env with
  | nil => cases hmem
  | cons entry entries ih =>
    by_cases hrest : (name, value) ∈ entries
    · exact ih (ProcessEnvironment.set env entry.1 entry.2) hrest
        fun other hother => honly other (List.mem_cons_of_mem _ hother)
    · obtain rfl : (name, value) = entry := (List.mem_cons.mp hmem).resolve_right hrest
      apply (only_set env name value).setAll
      intro hname
      obtain ⟨other, hother, hfst⟩ := List.mem_map.mp hname
      have hsnd := honly other (List.mem_cons_of_mem _ hother) hfst
      have hsame : other = (name, value) := Prod.ext hfst hsnd
      exact hrest (hsame ▸ hother)

theorem Only.lookup (h : Only env name value) : env.lookup name = some value := by
  obtain ⟨hmem, honly⟩ := h
  induction env with
  | nil => cases hmem
  | cons entry env ih =>
    by_cases hname : entry.1 = name
    · rw [← honly entry List.mem_cons_self hname, ← hname]
      exact List.lookup_cons_self
    · have hrest : (name, value) ∈ env := by
        rcases List.mem_cons.mp hmem with rfl | hrest
        · exact absurd rfl hname
        · exact hrest
      have hbeq : (name == entry.1) = false := by simpa using Ne.symm hname
      rw [List.lookup_cons, hbeq]
      exact ih hrest fun other hother => honly other (List.mem_cons_of_mem _ hother)

theorem Only.stringsFit_iff (h : Only env name value) :
    stringsFit env = true ↔ stringSize (name, value) ≤ maxStringSize ∧
      ∀ entry ∈ env, entry.1 ≠ name → stringSize entry ≤ maxStringSize := by
  simp only [stringsFit, List.all_eq_true, decide_eq_true_eq]
  constructor
  · intro hall
    exact ⟨hall _ h.mem, fun entry hentry _ => hall entry hentry⟩
  · rintro ⟨hown, hothers⟩ entry hentry
    by_cases hname : entry.1 = name
    · have hentry : entry = (name, value) := Prod.ext hname (h.only entry hentry hname)
      exact hentry ▸ hown
    · exact hothers entry hentry hname

end PyFaaS.ProcessEnvironment
