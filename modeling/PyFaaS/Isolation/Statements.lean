import PyFaaS.Api
import PyFaaS.Noninterference
import PyFaaS.Confinement.Deletes

/-!
# Isolated queries and statements

The rules of the noninterference library at the database, with the queries that
most routes begin with.
-/

namespace PyFaaS.Api
open Noninterference Transactions Database

def tenants : Observed Uuid Database Database := ⟨view, WellFormed⟩

structure Supplied (settings : ApiSettings) (g : Given) (s : Database) : Prop where
  id : Fresh s g.newId
  hash : ∀ k ∈ s.apiKeys, k.keyHash ≠ settings.hashApiKey g.rawKey

theorem supplied_iff {settings : ApiSettings} {g : Given} {s : Database} :
    (s.unused g.newId && s.apiKeys.all fun k => k.keyHash != settings.hashApiKey g.rawKey) = true ↔
      Supplied settings g s := by
  simp only [Bool.and_eq_true, unused_iff, List.all_eq_true, bne_iff_ne]
  exact ⟨fun h => ⟨h.1, h.2⟩, fun h => ⟨h.id, h.hash⟩⟩

instance (settings : ApiSettings) (g : Given) (s : Database) : Decidable (Supplied settings g s) :=
  decidable_of_iff _ supplied_iff

abbrev IsolatedFor (u : Uuid) (P : Database → Prop) {α : Type} (m : Session α)
    (Q : α → Database → Prop) : Prop :=
  Isolated tenants u P m Q

variable {u : Uuid} {P : Database → Prop} {α : Type} {s : Database}

theorem isolated_query {f : Database → α} (h : ∀ s, WellFormed s → P s → f s = f (view u s)) :
    IsolatedFor u P (query f) fun a s => P s ∧ a = f s :=
  Isolated.query f h

theorem isolated_write {f : Database → Database} {R : Database → Prop}
    (h : ∀ s, WellFormed s → P s → Confined u f s ∧ R (f s)) :
    IsolatedFor u P (write f) fun _ => R := by
  apply Isolated.write f
  intro s hs hp
  obtain ⟨hconfined, hr⟩ := h s hs hp
  exact ⟨hconfined.wellFormed, hr, hconfined.own, hconfined.others⟩

theorem isolated_pure (a : α) : IsolatedFor u P (pure a) fun _ => P :=
  fun _ _ h => .ok ⟨h, .refl _ _ _, .refl _ _ _⟩

theorem isolated_return (a : α) : IsolatedFor u P (pure a) fun _ _ => True :=
  (isolated_pure a).post fun _ _ _ _ => trivial

theorem isolated_abort (e : HttpError) {Q : α → Database → Prop} : IsolatedFor u P (abort e) Q :=
  Isolated.abort e

/-! ## Functions of the user -/

def Holds (u : Uuid) (fn : Function) (s : Database) : Prop := fn ∈ s.functions ∧ fn.ownerId = u

theorem Holds.owns {fn : Function} (h : Holds u fn s) : s.ownsFunction u fn.id = true :=
  ownsFunction_iff.mpr ⟨fn, h.1, rfl, h.2⟩

theorem holds_of_find {functionId : Uuid} {fn : Function}
    (h : s.functions.find? (fun f => decide (f.id = functionId) && decide (f.ownerId = u)) = some fn) :
    Holds u fn s ∧ fn.id = functionId := by
  have hprop := List.find?_some h
  simp only [Bool.and_eq_true, decide_eq_true_eq] at hprop
  exact ⟨⟨List.mem_of_find?_eq_some h, hprop.2⟩, hprop.1⟩

theorem find_function_view (functionId : Uuid) :
    s.functions.find? (fun f => decide (f.id = functionId) && decide (f.ownerId = u)) =
      (view u s).functions.find? fun f => decide (f.id = functionId) && decide (f.ownerId = u) := by
  apply Table.find?_owned
  intro f _ hf
  exact (Bool.and_eq_true_iff.mp hf).2

theorem version_view {functionId : Uuid} (hown : s.ownsFunction u functionId = true) {p : FunctionVersion → Bool}
    (hp : ∀ v ∈ s.versions, p v = true → v.functionId = functionId) :
    s.versions.find? p = (view u s).versions.find? p ∧ s.versions.filter p = (view u s).versions.filter p := by
  have hmine : ∀ v ∈ s.versions, p v = true → s.ownsFunction u v.functionId = true := by
    intro v hv hpv
    rwa [hp v hv hpv]
  exact ⟨Table.find?_owned hmine, Table.filter_owned hmine⟩

theorem withVersions_view (hs : WellFormed s) {fn : Function} (h : Holds u fn s) :
    withVersions s fn = withVersions (view u s) fn := by
  have hload : ∀ ref : Option Uuid, s.VersionOf fn.id ref →
      (ref.bind fun id => Table.get? s.versions id) = ref.bind fun id => Table.get? (view u s).versions id := by
    intro ref href
    cases ref with
    | none => rfl
    | some id =>
      apply (version_view h.owns _).1
      intro v hv hid
      exact href v hv (congrArg some (of_decide_eq_true hid).symm)
  obtain ⟨hactive, hcanary⟩ := hs.functionVersions fn h.1
  rw [withVersions, withVersions, hload _ hactive, hload _ hcanary]

theorem findFunctionOr404_isolated (functionId : Uuid) :
    IsolatedFor u P (findFunctionOr404 functionId u) fun fn s => P s ∧ Holds u fn s ∧ fn.id = functionId := by
  unfold findFunctionOr404
  refine Isolated.bind (isolated_query ?_) fun row => (Isolated.found row _).post ?_
  · exact fun s _ _ => find_function_view functionId
  · rintro fn s hs ⟨⟨hp, hrow⟩, rfl⟩
    exact ⟨hp, holds_of_find hrow.symm⟩

theorem getFunctionOr404_isolated (functionId : Uuid) :
    IsolatedFor u P (getFunctionOr404 functionId u) fun fn s =>
      P s ∧ Holds u fn.row s ∧ fn.row.id = functionId := by
  unfold getFunctionOr404
  refine Isolated.bind (findFunctionOr404_isolated functionId) fun fn => (isolated_query ?_).post ?_
  · rintro s hs ⟨-, hfn, -⟩
    exact withVersions_view hs hfn
  · rintro loaded s hs ⟨hfn, rfl⟩
    exact hfn

end PyFaaS.Api
