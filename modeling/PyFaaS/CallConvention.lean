import PyFaaS.Runner

/-!
# The call of the handler

How Python binds the positional arguments of a call to the parameters of a function,
and the call that `main` of `sandbox/runner.py` chooses from a signature. `main` counts
the parameters without a default, so that a handler whose parameters all have one is
called without the event.
-/

namespace PyFaaS.CallConvention
open Runner

inductive ParameterKind where
  | positionalOnly
  | positionalOrKeyword
  | varPositional
  | keywordOnly
  | varKeyword
  deriving DecidableEq

namespace ParameterKind

def rank : ParameterKind → ℕ
  | positionalOnly => 0
  | positionalOrKeyword => 1
  | varPositional => 2
  | keywordOnly => 3
  | varKeyword => 4

def positional : ParameterKind → Bool
  | positionalOnly | positionalOrKeyword => true
  | _ => false

def variadic : ParameterKind → Bool
  | varPositional | varKeyword => true
  | _ => false

end ParameterKind

structure Parameter where
  name : Text
  kind : ParameterKind
  hasDefault : Bool
  deriving DecidableEq

structure Precedes (p q : Parameter) : Prop where
  ordered : p.kind.rank ≤ q.kind.rank
  once : p.kind.variadic = true → p.kind ≠ q.kind
  defaults : p.kind.positional = true → q.kind.positional = true → p.hasDefault = true → q.hasDefault = true

structure HandlerSignature where
  parameters : List Parameter
  names : (parameters.map Parameter.name).Nodup
  wellOrdered : parameters.Pairwise Precedes
  variadics : ∀ p ∈ parameters, p.kind.variadic = true → p.hasDefault = false

/-! ## Binding -/

inductive TypeError where
  | tooManyArguments
  | missingArgument (name : Text)
  deriving DecidableEq

inductive Bound (α : Type) where
  | argument (a : α)
  | default
  | varArguments (as : List α)
  | keywords

section
variable {α : Type}

def bindParameter (p : Parameter) (args : List α) : Except TypeError (Bound α × List α) :=
  match p.kind, args with
  | .positionalOnly, a :: args | .positionalOrKeyword, a :: args => .ok (.argument a, args)
  | .varPositional, args => .ok (.varArguments args, [])
  | .varKeyword, [] => .ok (.keywords, [])
  | .keywordOnly, _ :: _ | .varKeyword, _ :: _ => .error .tooManyArguments
  | .positionalOnly, [] | .positionalOrKeyword, [] | .keywordOnly, [] =>
    if p.hasDefault then .ok (.default, []) else .error (.missingArgument p.name)

def bindArguments : List Parameter → List α → Except TypeError (List (Parameter × Bound α))
  | [], [] => .ok []
  | [], _ :: _ => .error .tooManyArguments
  | p :: ps, args =>
    match bindParameter p args with
    | .error err => .error err
    | .ok (x, rest) => (bindArguments ps rest).map fun bound => (p, x) :: bound

def Bound.first : Bound α → Option α
  | .argument a => some a
  | .varArguments as => as.head?
  | .default | .keywords => none

def firstArgument (bound : List (Parameter × Bound α)) : Option α := bound.head?.bind fun b => b.2.first

end

/-! ## The choice of `main` -/

def requires (p : Parameter) : Bool := p.kind.positional && !p.hasDefault

namespace HandlerSignature

def inspected (s : HandlerSignature) : Signature where
  hasVarargs := s.parameters.any fun p => decide (p.kind = .varPositional)
  required := (s.parameters.filter requires).length

def Accepts (s : HandlerSignature) : Prop :=
  ∃ (event : Json) (args : List Json), (bindArguments s.parameters (event :: args)).isOk = true

/-- The call of `main` binds, and hands over the payload where the handler can take it. -/
structure Delivers (s : HandlerSignature) : Prop where
  binds : ∀ payload context, (bindArguments s.parameters (s.inspected.arguments payload context)).isOk = true
  event : s.Accepts → ∀ payload context bound,
    bindArguments s.parameters (s.inspected.arguments payload context) = .ok bound → firstArgument bound = some payload

end HandlerSignature

variable {α : Type} {p q : Parameter} {ps : List Parameter} {args : List α} {s : HandlerSignature}

/-! ## When a call binds -/

def positionals (ps : List Parameter) : ℕ := ps.countP fun p => p.kind.positional

def required (ps : List Parameter) : ℕ := ps.countP requires

def hasVarargs (ps : List Parameter) : Bool := ps.any fun p => decide (p.kind = .varPositional)

def KeywordsOptional (ps : List Parameter) : Prop := ∀ p ∈ ps, p.kind = .keywordOnly → p.hasDefault = true

theorem required_le_positionals (ps : List Parameter) : required ps ≤ positionals ps :=
  List.countP_mono_left fun _ _ h => (Bool.and_eq_true_iff.mp h).1

theorem required_eq_zero (h : (p :: ps).Pairwise Precedes) (hp : p.kind.positional = true)
    (hdefault : p.hasDefault = true) : required ps = 0 := by
  refine List.countP_eq_zero.mpr fun q hq hrequires => ?_
  obtain ⟨hpositional, hnone⟩ := Bool.and_eq_true_iff.mp hrequires
  have hq := ((List.pairwise_cons.mp h).1 q hq).defaults hp hpositional hdefault
  simp [hq] at hnone

theorem positional_iff {kind : ParameterKind} : kind.positional = true ↔ kind.rank ≤ 1 := by
  cases kind <;> simp [ParameterKind.positional, ParameterKind.rank]

theorem positionals_eq_zero (h : (p :: ps).Pairwise Precedes) (hp : 2 ≤ p.kind.rank) : positionals ps = 0 := by
  refine List.countP_eq_zero.mpr fun q hq hpositional => ?_
  have hrank := ((List.pairwise_cons.mp h).1 q hq).ordered
  have hlow := positional_iff.mp hpositional
  omega

theorem hasVarargs_eq_false (h : (p :: ps).Pairwise Precedes) (hp : 2 ≤ p.kind.rank) : hasVarargs ps = false := by
  refine List.any_eq_false.mpr fun q hq hvarargs => ?_
  have hkind : q.kind = .varPositional := of_decide_eq_true hvarargs
  have hprecedes := (List.pairwise_cons.mp h).1 q hq
  have hrank := hprecedes.ordered
  have honce := hprecedes.once
  cases hp' : p.kind <;> simp [hp', hkind, ParameterKind.rank, ParameterKind.variadic] at hp hrank honce

section
variable {a : α} {x : Bound α} {rest : List α}

theorem bindParameter_positional (hp : p.kind.positional = true) :
    bindParameter p (a :: args) = .ok (.argument a, args) := by
  cases hkind : p.kind <;> simp [hkind, ParameterKind.positional] at hp <;> simp [bindParameter, hkind]

theorem bindParameter_missing (hp : p.kind.variadic = false) : bindParameter p ([] : List α) =
    if p.hasDefault then .ok (.default, []) else .error (.missingArgument p.name) := by
  cases hkind : p.kind <;> simp [hkind, ParameterKind.variadic] at hp <;> simp [bindParameter, hkind]

theorem first_of_bindParameter (h : bindParameter p args = .ok (x, rest)) : x.first = args.head? := by
  cases args with
  | nil =>
    cases hkind : p.kind with
    | varPositional | varKeyword =>
      simp only [bindParameter, hkind] at h
      cases h
      rfl
    | positionalOnly | positionalOrKeyword | keywordOnly =>
      simp only [bindParameter, hkind] at h
      split_ifs at h
      cases h
      rfl
  | cons a args =>
    cases hkind : p.kind with
    | positionalOnly | positionalOrKeyword | varPositional =>
      simp only [bindParameter, hkind] at h
      cases h
      rfl
    | keywordOnly | varKeyword => simp [bindParameter, hkind] at h

theorem bindArguments_cons (h : bindParameter p args = .ok (x, rest)) : bindArguments (p :: ps) args =
    (bindArguments ps rest).map fun bound => (p, x) :: bound := by
  simp only [bindArguments, h]

theorem isOk_cons (h : bindParameter p args = .ok (x, rest)) :
    (bindArguments (p :: ps) args).isOk = (bindArguments ps rest).isOk := by
  rw [bindArguments_cons h]
  cases bindArguments ps rest <;> rfl

theorem isOk_missing (hp : p.kind.variadic = false) : (bindArguments (p :: ps) ([] : List α)).isOk =
    (p.hasDefault && (bindArguments ps ([] : List α)).isOk) := by
  have hparameter : bindParameter p ([] : List α) = _ := bindParameter_missing hp
  cases hdefault : p.hasDefault with
  | false =>
    rw [hdefault] at hparameter
    simp [bindArguments, hparameter, Except.isOk, Except.toBool]
  | true =>
    rw [hdefault] at hparameter
    rw [isOk_cons hparameter, Bool.true_and]

end

theorem bindArguments_isOk_iff (h : ps.Pairwise Precedes) : (bindArguments ps args).isOk = true ↔
    required ps ≤ args.length ∧ (hasVarargs ps = true ∨ args.length ≤ positionals ps) ∧ KeywordsOptional ps := by
  induction ps generalizing args with
  | nil =>
    cases args <;> simp [bindArguments, Except.isOk, Except.toBool, required, hasVarargs, positionals, KeywordsOptional]
  | cons p ps ih =>
    have htail := (List.pairwise_cons.mp h).2
    have hle := required_le_positionals ps
    have hkeywords : KeywordsOptional (p :: ps) ↔ (p.kind = .keywordOnly → p.hasDefault = true) ∧ KeywordsOptional ps :=
      List.forall_mem_cons
    have hvarargs : hasVarargs (p :: ps) = (decide (p.kind = .varPositional) || hasVarargs ps) := List.any_cons
    rw [hkeywords, hvarargs, required, positionals, List.countP_cons, List.countP_cons, ← required, ← positionals,
      requires]
    cases hpositional : p.kind.positional with
    | true =>
      have hnot : p.kind ≠ .keywordOnly ∧ p.kind ≠ .varPositional ∧ p.kind.variadic = false := by
        cases hkind : p.kind <;> simp [hkind, ParameterKind.positional, ParameterKind.variadic] at hpositional ⊢
      cases args with
      | nil =>
        rw [isOk_missing hnot.2.2, Bool.and_eq_true, ih htail]
        cases hdefault : p.hasDefault with
        | false => simp
        | true => simp [hnot]
      | cons a args =>
        rw [isOk_cons (bindParameter_positional hpositional), ih htail]
        cases hdefault : p.hasDefault with
        | false => simp [hnot]
        | true => simp [hnot, required_eq_zero h hpositional hdefault]
    | false =>
      -- nothing positional and no `*args` follows
      have hrank : 2 ≤ p.kind.rank := by
        have hhigh : ¬ p.kind.rank ≤ 1 := by simp [← positional_iff, hpositional]
        omega
      have hnone := positionals_eq_zero h hrank
      have hno := hasVarargs_eq_false h hrank
      have hzero : required ps = 0 := by omega
      cases hkind : p.kind with
      | positionalOnly => simp [hkind, ParameterKind.positional] at hpositional
      | positionalOrKeyword => simp [hkind, ParameterKind.positional] at hpositional
      | varPositional =>
        have hparameter : bindParameter p args = .ok (.varArguments args, []) := by simp [bindParameter, hkind]
        rw [isOk_cons hparameter, ih htail]
        simp [hzero]
      | keywordOnly =>
        cases args with
        | nil =>
          rw [isOk_missing (by rw [hkind]; rfl), Bool.and_eq_true, ih htail]
          simp [hzero]
        | cons a args => simp [bindArguments, bindParameter, hkind, Except.isOk, Except.toBool, hno, hnone]
      | varKeyword =>
        cases args with
        | nil =>
          have hparameter : bindParameter p ([] : List α) = .ok (.keywords, []) := by simp [bindParameter, hkind]
          rw [isOk_cons hparameter, ih htail]
          simp [hzero]
        | cons a args => simp [bindArguments, bindParameter, hkind, Except.isOk, Except.toBool, hno, hnone]

theorem firstArgument_eq {bound : List (Parameter × Bound α)} (h : bindArguments ps args = .ok bound) :
    firstArgument bound = args.head? := by
  cases ps with
  | nil =>
    cases args with
    | nil =>
      cases h
      rfl
    | cons a args => cases h
  | cons p ps =>
    cases hparameter : bindParameter p args with
    | error err => simp [bindArguments, hparameter] at h
    | ok r =>
      obtain ⟨x, rest⟩ := r
      rw [bindArguments_cons hparameter] at h
      have hfirst := first_of_bindParameter hparameter
      cases hrest : bindArguments ps rest with
      | error err => simp [hrest, Except.map] at h
      | ok tail =>
        rw [hrest] at h
        cases h
        exact hfirst

/-! ## What `main` calls -/

namespace HandlerSignature

theorem inspected_required (s : HandlerSignature) : s.inspected.required = required s.parameters :=
  List.countP_eq_length_filter.symm

theorem inspected_hasVarargs (s : HandlerSignature) : s.inspected.hasVarargs = hasVarargs s.parameters := rfl

theorem binds_of_required (hrequired : required s.parameters ≤ 2) (hkeywords : KeywordsOptional s.parameters)
    (payload context : Json) :
    (bindArguments s.parameters (s.inspected.arguments payload context)).isOk = true := by
  have hle := required_le_positionals s.parameters
  rw [bindArguments_isOk_iff s.wellOrdered, Signature.arguments, inspected_required, inspected_hasVarargs]
  cases hvarargs : hasVarargs s.parameters with
  | true => exact ⟨by simpa using hrequired, Or.inl rfl, hkeywords⟩
  | false =>
    by_cases htwo : 2 ≤ required s.parameters
    · simp [htwo]
      exact ⟨hrequired, by omega, hkeywords⟩
    · by_cases hone : required s.parameters = 1
      · simp [hone]
        exact ⟨by omega, hkeywords⟩
      · simp [htwo, hone]
        exact ⟨by omega, hkeywords⟩

theorem accepts_iff (hkeywords : KeywordsOptional s.parameters) :
    s.Accepts ↔ hasVarargs s.parameters = true ∨ 1 ≤ positionals s.parameters := by
  have hle := required_le_positionals s.parameters
  constructor
  · intro ⟨event, args, hbinds⟩
    obtain ⟨-, hroom, -⟩ := (bindArguments_isOk_iff s.wellOrdered).mp hbinds
    refine hroom.imp_right fun hlength => ?_
    rw [List.length_cons] at hlength
    omega
  · intro h
    refine ⟨.null, List.replicate (positionals s.parameters - 1) .null, ?_⟩
    rw [bindArguments_isOk_iff s.wellOrdered, List.length_cons, List.length_replicate]
    refine ⟨by omega, ?_, hkeywords⟩
    refine h.imp_right fun hone => ?_
    omega

/-- `takesEvent` is the condition under which the payload is in the call. -/
theorem delivers_of_required (hrequired : required s.parameters ≤ 2) (hkeywords : KeywordsOptional s.parameters) :
    s.Delivers ↔ s.inspected.takesEvent = true ∨ positionals s.parameters = 0 := by
  constructor
  · intro h
    by_cases hnone : positionals s.parameters = 0
    · exact Or.inr hnone
    · left
      have haccepts := (accepts_iff hkeywords).mpr (Or.inr (Nat.one_le_iff_ne_zero.mpr hnone))
      have hbinds := h.binds .null .null
      cases hbound : bindArguments s.parameters (s.inspected.arguments .null .null) with
      | error err => simp [hbound, Except.isOk, Except.toBool] at hbinds
      | ok bound =>
        have hevent := h.event haccepts .null .null bound hbound
        rw [firstArgument_eq hbound] at hevent
        exact (Signature.arguments_head.mp hevent).1
  · intro h
    refine ⟨binds_of_required hrequired hkeywords, fun haccepts payload context bound hbound => ?_⟩
    rw [firstArgument_eq hbound, Signature.arguments_head]
    refine ⟨?_, rfl⟩
    cases h with
    | inl h => exact h
    | inr hnone =>
      have hvarargs := ((accepts_iff hkeywords).mp haccepts).resolve_right (by omega)
      rw [Signature.takesEvent, inspected_hasVarargs, hvarargs, Bool.true_or]

/-- The call delivers the event exactly if the handler has `*args` or a parameter without
a default, or has no place for the event at all. -/
theorem handlerDelivers_iff (hrequired : (s.parameters.filter requires).length ≤ 2)
    (hkeywords : ∀ p ∈ s.parameters, p.kind = .keywordOnly → p.hasDefault = true) :
    s.Delivers ↔ (∃ p ∈ s.parameters, p.kind = .varPositional ∨ requires p = true) ∨
      ∀ p ∈ s.parameters, p.kind.positional = false := by
  rw [← List.countP_eq_length_filter] at hrequired
  rw [delivers_of_required hrequired hkeywords]
  refine or_congr ?_ ?_
  · rw [Signature.takesEvent, inspected_hasVarargs, inspected_required, Bool.or_eq_true, decide_eq_true_iff, required,
      Nat.one_le_iff_ne_zero, ← Nat.pos_iff_ne_zero, List.countP_pos_iff, hasVarargs, List.any_eq_true]
    simp only [decide_eq_true_iff, and_or_left, exists_or]
  · simp [positionals, List.countP_eq_zero]

end HandlerSignature

def eventHandler : HandlerSignature where
  parameters := [⟨"event".toList, .positionalOrKeyword, false⟩, ⟨"context".toList, .positionalOrKeyword, true⟩]
  names := by decide
  wellOrdered := by
    refine List.pairwise_pair.mpr ⟨by decide, by decide, by decide⟩
  variadics := by decide

def optionalEventHandler : HandlerSignature where
  parameters := [⟨"event".toList, .positionalOrKeyword, true⟩]
  names := by decide
  wellOrdered := List.pairwise_singleton _ _
  variadics := by decide

theorem eventHandler_delivers : eventHandler.Delivers :=
  (HandlerSignature.handlerDelivers_iff (by decide) (by decide)).mpr (by decide)

theorem optionalEventHandler_called_without : ¬ optionalEventHandler.Delivers := by
  intro h
  have hkeywords : KeywordsOptional optionalEventHandler.parameters := by
    unfold KeywordsOptional
    decide
  have hevent := (HandlerSignature.delivers_of_required (by decide) hkeywords).mp h
  revert hevent
  decide

end PyFaaS.CallConvention
