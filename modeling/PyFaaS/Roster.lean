import Mathlib.Data.List.Basic

/-!
# Members that are granted and withdrawn

A roster keeps every member that was ever granted and whether it is still live. After any
list of events a member is live exactly if it has been granted and nothing behind its
grant withdraws it.
-/

namespace PyFaaS.Roster
variable {ι α : Type*} [DecidableEq ι]

structure Member (ι α : Type*) where
  id : ι
  value : α
  live : Bool

/-- A withdrawal names an id and spares the members that it may not touch. -/
inductive Event (ι α : Type*) where
  | grant (id : ι) (value : α)
  | withdraw (id : ι) (may : α → Bool)
  | other

def Event.withdraws (id : ι) (value : α) : Event ι α → Bool
  | .withdraw id' may => decide (id' = id) && may value
  | _ => false

def retire (id : ι) (may : α → Bool) (m : Member ι α) : Member ι α :=
  if m.id = id ∧ may m.value = true then { m with live := false } else m

def enter (ms : List (Member ι α)) : Event ι α → List (Member ι α)
  | .grant id value => ms ++ [⟨id, value, true⟩]
  | .withdraw id may => ms.map (retire id may)
  | .other => ms

variable {ms : List (Member ι α)} {es : List (Event ι α)} {id : ι} {value : α}

theorem live_retire {id' : ι} {may : α → Bool} : (⟨id, value, true⟩ : Member ι α) ∈ ms.map (retire id' may) ↔
    ⟨id, value, true⟩ ∈ ms ∧ (Event.withdraw id' may).withdraws id value = false := by
  have hspared : (Event.withdraw id' may).withdraws id value = false ↔ ¬ (id = id' ∧ may value = true) := by
    rw [Event.withdraws, ← Bool.not_eq_true, Bool.and_eq_true, decide_eq_true_eq, eq_comm (a := id')]
  rw [hspared, List.mem_map]
  constructor
  · intro h
    obtain ⟨m, hm, hretired⟩ := h
    unfold retire at hretired
    split_ifs at hretired with hmay
    · cases hretired
    · cases hretired
      exact ⟨hm, hmay⟩
  · intro h
    exact ⟨_, h.1, if_neg h.2⟩

theorem live_enter {e : Event ι α} : (⟨id, value, true⟩ : Member ι α) ∈ enter ms e ↔
    ⟨id, value, true⟩ ∈ ms ∧ e.withdraws id value = false ∨ e = .grant id value := by
  cases e with
  | grant id' value' =>
    simp only [enter, List.mem_append, List.mem_singleton, Member.mk.injEq, Event.withdraws, Event.grant.injEq,
      and_true]
    exact or_congr Iff.rfl (and_congr eq_comm eq_comm)
  | withdraw id' may =>
    simp only [enter, live_retire, reduceCtorEq, or_false]
  | other =>
    simp only [enter, Event.withdraws, and_true, reduceCtorEq, or_false]

theorem live_iff : (⟨id, value, true⟩ : Member ι α) ∈ es.foldl enter ms ↔
    ⟨id, value, true⟩ ∈ ms ∧ (∀ e ∈ es, e.withdraws id value = false) ∨
      ∃ before after, es = before ++ .grant id value :: after ∧ ∀ e ∈ after, e.withdraws id value = false := by
  induction es generalizing ms with
  | nil => simp
  | cons e es ih =>
    rw [List.foldl_cons, ih, live_enter]
    constructor
    · intro h
      rcases h with ⟨⟨hms, hspared⟩ | rfl, hrest⟩ | ⟨before, after, rfl, hafter⟩
      · exact Or.inl ⟨hms, List.forall_mem_cons.mpr ⟨hspared, hrest⟩⟩
      · exact Or.inr ⟨[], es, rfl, hrest⟩
      · exact Or.inr ⟨e :: before, after, rfl, hafter⟩
    · intro h
      rcases h with ⟨hms, hall⟩ | ⟨before, after, hes, hafter⟩
      · obtain ⟨hspared, hrest⟩ := List.forall_mem_cons.mp hall
        exact Or.inl ⟨Or.inl ⟨hms, hspared⟩, hrest⟩
      · cases before with
        | nil =>
          obtain ⟨rfl, rfl⟩ := List.cons.inj hes
          exact Or.inl ⟨Or.inr rfl, hafter⟩
        | cons first before =>
          obtain ⟨-, rfl⟩ := List.cons.inj hes
          exact Or.inr ⟨before, after, rfl, hafter⟩

end PyFaaS.Roster
