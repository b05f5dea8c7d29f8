import Mathlib.Data.List.Dedup
import PyFaaS.FixedPattern
import PyFaaS.TextLines

/-!
# Endpoint labels of the HTTP metrics

`MetricsMiddleware` records each request under its path, in which `_normalise_path`
replaces hyphenated lower-case UUIDs, but only behind an `/executions/`. Two requests to
one route share their label exactly if they share the path or all their ids are replaced.
-/

namespace PyFaaS.MetricLabels
open FixedPattern

/-! ## The middleware -/

def isLowerHex (c : Char) : Bool := c.isDigit || decide ('a' ≤ c ∧ c ≤ 'f')

def isHyphen (c : Char) : Bool := decide (c = '-')

def grouped (digit : Char → Bool) : List (Char → Bool) :=
  let four := List.replicate 4 digit
  List.replicate 8 digit ++ isHyphen :: four ++ isHyphen :: four ++ isHyphen :: four ++
    isHyphen :: List.replicate 12 digit

def normalisePath (path : Text) : Text := sub (grouped isLowerHex) "{id}".toList path

def endpoint (path : Text) : Text :=
  if "/executions/".toList <:+: path ∧ 2 < path.count '/' then normalisePath path else path

structure RequestLabels where
  method : Text
  endpoint : Text
  statusCode : Text
  deriving DecidableEq, Repr

/-- One entry for each increment of the counter and each observation of the histogram. -/
structure HttpMetrics where
  requestsTotal : List RequestLabels
  requestDuration : List ((Text × Text) × ℕ)
  deriving DecidableEq, Repr

structure Exchange (E : Type) where
  method : Text
  path : Text
  callNext : Except E ℕ
  duration : ℕ

/-- Nothing is recorded where `call_next` raises. -/
def HttpMetrics.dispatch {E : Type} (m : HttpMetrics) (r : Exchange E) : HttpMetrics :=
  match r.callNext with
  | .error _ => m
  | .ok statusCode =>
    ⟨m.requestsTotal ++ [⟨r.method, MetricLabels.endpoint r.path, Nat.toDigits 10 statusCode⟩],
      m.requestDuration ++ [((r.method, MetricLabels.endpoint r.path), r.duration)]⟩

def HttpMetrics.dispatchAll {E : Type} (m : HttpMetrics) (exchanges : List (Exchange E)) : HttpMetrics :=
  exchanges.foldl HttpMetrics.dispatch m

/-! ## The routes -/

structure Route where
  method : Text
  template : Text
  deriving DecidableEq, Repr

def mounted (base : String) (paths : List (String × String)) : List Route :=
  paths.map fun r => ⟨r.1.toList, base.toList ++ r.2.toList⟩

def includeRouter (base : String) (router : List Route) : List Route :=
  router.map fun r => { r with template := base.toList ++ r.template }

def healthRouter : List Route := mounted "" [("GET", "/health"), ("GET", "/ready"), ("GET", "/metrics")]

def authRouter : List Route := mounted "/auth"
  [("POST", "/register"), ("POST", "/login"), ("POST", "/refresh"), ("GET", "/me")]

def functionsRouter : List Route := mounted "/functions"
  [("GET", ""), ("POST", ""), ("GET", "/{function_id}"), ("PATCH", "/{function_id}"),
    ("DELETE", "/{function_id}"), ("POST", "/{function_id}/versions"), ("GET", "/{function_id}/versions"),
    ("GET", "/{function_id}/versions/{version_id}"), ("POST", "/{function_id}/versions/{version_id}/activate"),
    ("PATCH", "/{function_id}/canary"), ("GET", "/{function_id}/activations")]

def executionsRouter : List Route := mounted ""
  [("POST", "/functions/{function_id}/execute"), ("GET", "/executions"), ("GET", "/executions/{execution_id}"),
    ("GET", "/executions/{execution_id}/logs"), ("DELETE", "/executions/{execution_id}")]

def schedulesRouter : List Route := mounted "/schedules"
  [("GET", ""), ("POST", ""), ("GET", "/{schedule_id}"), ("PATCH", "/{schedule_id}"), ("DELETE", "/{schedule_id}")]

def keysRouter : List Route := mounted "/keys" [("GET", ""), ("POST", ""), ("DELETE", "/{key_id}")]

def invokeRouter : List Route := mounted "/invoke"
  [("GET", "/functions"), ("GET", "/executions/{execution_id}"), ("GET", "/executions/{execution_id}/logs"),
    ("POST", "/{function_id}")]

def ephemeralRouter : List Route := mounted "" [("POST", "/execute-ephemeral")]

def dashboardRouter : List Route := mounted ""
  [("GET", "/dashboard"), ("GET", "/health"), ("GET", "/health/detailed"), ("GET", "/metrics/executions"),
    ("GET", "/metrics/workers"), ("GET", "/metrics/queue"), ("GET", "/metrics/deployments")]

def routes : List Route :=
  let api := "/api/v1"
  healthRouter ++ includeRouter api authRouter ++ includeRouter api functionsRouter ++
    includeRouter api executionsRouter ++ includeRouter api schedulesRouter ++ includeRouter api keysRouter ++
    includeRouter api invokeRouter ++ includeRouter api ephemeralRouter ++ includeRouter api dashboardRouter ++
    dashboardRouter

def isParameter (part : Text) : Bool := decide (part.head? = some '{')

def Fills (accepts : Text → Bool) (t part : Text) : Prop := if isParameter t then accepts part = true else part = t

instance (accepts : Text → Bool) : DecidableRel (Fills accepts) :=
  fun t part => inferInstanceAs (Decidable (if isParameter t then accepts part = true else part = t))

def Route.Matches (accepts : Text → Bool) (route : Route) (path : Text) : Prop :=
  List.Forall₂ (Fills accepts) (route.template.splitOn '/') (path.splitOn '/')

/-! ## The spellings of a UUID -/

def isHex (c : Char) : Bool := isLowerHex c || decide ('A' ≤ c ∧ c ≤ 'F')

inductive Wrapping where
  | bare
  | braces
  | urn
  deriving DecidableEq, Repr

def Wrapping.around : Wrapping → Text → Text
  | .bare, x => x
  | .braces, x => '{' :: (x ++ ['}'])
  | .urn, x => "urn:uuid".toList ++ ':' :: x

def Wrapping.width : Wrapping → ℕ
  | .bare => 0
  | .braces => 2
  | .urn => 9

def Simple (x : Text) : Prop := x.length = 32 ∧ x.all isHex = true

/-- The validation of a path parameter takes 32 hex digits, or a hyphenated UUID. -/
structure ReadsUuids (accepts : Text → Bool) : Prop where
  spelled : ∀ x, accepts x = true → Simple x ∨ ∃ (w : Wrapping) (core : Text),
    FixedPattern.Matches (grouped isHex) core ∧ x = w.around core

/-- The same text, or two hyphenated lower-case UUIDs with the same text around them. -/
def Alike (x y : Text) : Prop :=
  x = y ∨ ∃ (w : Wrapping) (core core' : Text), FixedPattern.Matches (grouped isLowerHex) core ∧
    FixedPattern.Matches (grouped isLowerHex) core' ∧ x = w.around core ∧ y = w.around core'

variable {accepts : Text → Bool} {route : Route} {path path₁ path₂ x y t core core' : Text} {w w' : Wrapping} {c : Char}

/-! ## The label of a UUID -/

theorem grouped_length (digit : Char → Bool) : (grouped digit).length = 36 := rfl

theorem outside_grouped (hdigit : isLowerHex c = false) (hhyphen : c ≠ '-') : Outside (grouped isLowerHex) c := by
  intro p hp
  have hcases : p = isLowerHex ∨ p = isHyphen := by
    simp only [grouped, List.mem_append, List.mem_cons, List.mem_replicate] at hp
    tauto
  rcases hcases with rfl | rfl
  · exact hdigit
  · exact decide_eq_false hhyphen

theorem normalisePath_append {sep : Char} (houtside : Outside (grouped isLowerHex) sep) :
    normalisePath (x ++ sep :: y) = normalisePath x ++ sep :: normalisePath y :=
  sub_append_sep (by rw [grouped_length]; omega) houtside

theorem normalisePath_short (h : x.length < 36) : normalisePath x = x := sub_of_short (by rwa [grouped_length])

theorem normalisePath_simple (h : Simple x) : normalisePath x = x := by
  obtain ⟨hlength, -⟩ := h
  exact normalisePath_short (by omega)

theorem normalisePath_around (w : Wrapping) (x : Text) : normalisePath (w.around x) = w.around (normalisePath x) := by
  cases w with
  | bare => rfl
  | braces =>
    have hbehind : normalisePath (x ++ '}' :: []) = normalisePath x ++ '}' :: [] :=
      normalisePath_append (outside_grouped (by decide) (by decide))
    have hfront : normalisePath ([] ++ '{' :: (x ++ ['}'])) = [] ++ '{' :: normalisePath (x ++ ['}']) :=
      normalisePath_append (outside_grouped (by decide) (by decide))
    rw [List.nil_append, List.nil_append, hbehind] at hfront
    exact hfront
  | urn =>
    have hfront : normalisePath ("urn:uuid".toList ++ ':' :: x) =
        normalisePath "urn:uuid".toList ++ ':' :: normalisePath x :=
      normalisePath_append (outside_grouped (by decide) (by decide))
    have hname : normalisePath "urn:uuid".toList = "urn:uuid".toList := normalisePath_short (by decide)
    rw [hname] at hfront
    exact hfront

theorem normalisePath_lowercase (h : FixedPattern.Matches (grouped isLowerHex) x) :
    normalisePath x = "{id}".toList := by
  have hsub : normalisePath x = if matchesFront (grouped isLowerHex) x then "{id}".toList else x :=
    sub_of_width (by rw [grouped_length]; omega) h.1
  rw [hsub, if_pos h.2]

theorem normalisePath_other (hlength : x.length = 36) (h : ¬FixedPattern.Matches (grouped isLowerHex) x) :
    normalisePath x = x := by
  have hsub : normalisePath x = if matchesFront (grouped isLowerHex) x then "{id}".toList else x :=
    sub_of_width (by rw [grouped_length]; omega) (by rwa [grouped_length])
  rw [hsub, if_neg]
  intro hmatch
  exact h ⟨by rwa [grouped_length], hmatch⟩

theorem around_length (w : Wrapping) (x : Text) : (w.around x).length = w.width + x.length := by
  cases w with
  | bare => exact (Nat.zero_add _).symm
  | braces =>
    have hparts : Wrapping.braces.around x = ['{'] ++ x ++ ['}'] := rfl
    rw [hparts, List.length_append, List.length_append, Wrapping.width]
    simp only [List.length_cons, List.length_nil]
    omega
  | urn =>
    have hfront : "urn:uuid".toList.length = 8 := by decide
    have hparts : Wrapping.urn.around x = "urn:uuid".toList ++ ':' :: x := rfl
    rw [hparts, List.length_append, List.length_cons, hfront, Wrapping.width]
    omega

theorem around_injective (h : w.around x = w.around y) : x = y := by
  cases w with
  | bare => exact h
  | braces => exact List.append_cancel_right (List.cons.inj h).2
  | urn => exact (List.cons.inj (List.append_cancel_left h)).2

theorem wrapping_eq (hx : x.length = 36 ∨ x.length = 4) (hy : y.length = 36 ∨ y.length = 4)
    (h : (w.around x).length = (w'.around y).length) : w = w' ∧ x.length = y.length := by
  rw [around_length, around_length] at h
  cases w <;> cases w' <;> simp only [Wrapping.width] at h <;> first
    | exact ⟨rfl, by omega⟩
    | omega

theorem normalisePath_length (h : x.length = 36) : (normalisePath x).length = 36 ∨ (normalisePath x).length = 4 := by
  by_cases hlower : FixedPattern.Matches (grouped isLowerHex) x
  · right
    rw [normalisePath_lowercase hlower]
    decide
  · left
    rw [normalisePath_other h hlower, h]

theorem alike_of_around (hx : x.length = 36) (hy : y.length = 36)
    (h : normalisePath (w.around x) = normalisePath (w'.around y)) : Alike (w.around x) (w'.around y) := by
  rw [normalisePath_around, normalisePath_around] at h
  obtain ⟨rfl, -⟩ := wrapping_eq (normalisePath_length hx) (normalisePath_length hy) (congrArg List.length h)
  have hsame : normalisePath x = normalisePath y := around_injective h
  have hlabel : "{id}".toList.length = 4 := by decide
  by_cases hlowerx : FixedPattern.Matches (grouped isLowerHex) x
  · by_cases hlowery : FixedPattern.Matches (grouped isLowerHex) y
    · exact .inr ⟨w, x, y, hlowerx, hlowery, rfl, rfl⟩
    · rw [normalisePath_lowercase hlowerx, normalisePath_other hy hlowery] at hsame
      rw [← hsame, hlabel] at hy
      omega
  · by_cases hlowery : FixedPattern.Matches (grouped isLowerHex) y
    · rw [normalisePath_lowercase hlowery, normalisePath_other hx hlowerx] at hsame
      rw [hsame, hlabel] at hx
      omega
    · rw [normalisePath_other hx hlowerx, normalisePath_other hy hlowery] at hsame
      exact .inl (congrArg _ hsame)

theorem around_long (hread : FixedPattern.Matches (grouped isHex) x) : (normalisePath (w.around x)).length ≠ 32 := by
  have hlength : x.length = 36 := hread.1.trans (grouped_length _)
  rw [normalisePath_around, around_length]
  rcases normalisePath_length hlength with h | h <;> rw [h] <;> cases w <;> simp [Wrapping.width]

theorem alike_of_normalisePath_eq (hread : ReadsUuids accepts) (hx : accepts x = true) (hy : accepts y = true)
    (h : normalisePath x = normalisePath y) : Alike x y := by
  rcases hread.spelled x hx with hsimple | ⟨w, core, hcore, rfl⟩ <;>
    rcases hread.spelled y hy with hsimple' | ⟨w', core', hcore', rfl⟩
  · rw [normalisePath_simple hsimple, normalisePath_simple hsimple'] at h
    exact .inl h
  · rw [normalisePath_simple hsimple] at h
    exact absurd (h ▸ hsimple.1) (around_long hcore')
  · rw [normalisePath_simple hsimple'] at h
    exact absurd (h ▸ hsimple'.1) (around_long hcore)
  · exact alike_of_around (hcore.1.trans (grouped_length _)) (hcore'.1.trans (grouped_length _)) h

theorem normalisePath_eq_of_alike (h : Alike x y) : normalisePath x = normalisePath y := by
  rcases h with rfl | ⟨w, core, core', hcore, hcore', rfl, rfl⟩
  · rfl
  · rw [normalisePath_around, normalisePath_around, normalisePath_lowercase hcore, normalisePath_lowercase hcore']

/-! ## The label of a path -/

theorem splitOn_normalisePath (path : Text) :
    (normalisePath path).splitOn '/' = (path.splitOn '/').map normalisePath :=
  splitOn_sub (by rw [grouped_length]; omega) (outside_grouped (by decide) (by decide)) (by decide)

theorem forall₂_iff_of_common {α β : Type} {R : α → β → Prop} {S S' : β → β → Prop} {ts : List α} {xs ys : List β}
    (hxs : List.Forall₂ R ts xs) (hys : List.Forall₂ R ts ys)
    (h : ∀ t x y, R t x → R t y → (S x y ↔ S' x y)) : List.Forall₂ S xs ys ↔ List.Forall₂ S' xs ys := by
  induction hxs generalizing ys with
  | nil =>
    cases hys
    simp
  | cons hx _ ih =>
    cases hys with
    | cons hy hys => rw [List.forall₂_cons, List.forall₂_cons, h _ _ _ hx hy, ih hys]

instance : DecidablePred (route.Matches accepts) :=
  fun path => inferInstanceAs (Decidable (List.Forall₂ (Fills accepts) (route.template.splitOn '/') (path.splitOn '/')))

theorem Route.Matches.alike (hread : ReadsUuids accepts) (h₁ : route.Matches accepts path₁)
    (h₂ : route.Matches accepts path₂) : normalisePath path₁ = normalisePath path₂ ↔
      List.Forall₂ Alike (path₁.splitOn '/') (path₂.splitOn '/') := by
  have hparts : normalisePath path₁ = normalisePath path₂ ↔
      (path₁.splitOn '/').map normalisePath = (path₂.splitOn '/').map normalisePath := by
    rw [← splitOn_normalisePath, ← splitOn_normalisePath]
    exact splitOn_injective.eq_iff.symm
  have hequal : (path₁.splitOn '/').map normalisePath = (path₂.splitOn '/').map normalisePath ↔
      List.Forall₂ (fun x y => normalisePath x = normalisePath y) (path₁.splitOn '/') (path₂.splitOn '/') := by
    rw [← List.forall₂_eq_eq_eq, List.forall₂_map_left_iff, List.forall₂_map_right_iff]
  rw [hparts, hequal]
  refine forall₂_iff_of_common h₁ h₂ fun t x y hx hy => ⟨fun h => ?_, normalisePath_eq_of_alike⟩
  by_cases hparameter : isParameter t = true
  · rw [Fills, if_pos hparameter] at hx hy
    exact alike_of_normalisePath_eq hread hx hy h
  · rw [Fills, if_neg hparameter] at hx hy
    exact .inl (hx.trans hy.symm)

theorem length_of_accepts (hread : ReadsUuids accepts) (h : accepts x = true) : 32 ≤ x.length := by
  rcases hread.spelled x h with ⟨hlength, -⟩ | ⟨w, core, hcore, rfl⟩
  · omega
  · have hwidth : core.length = 36 := hcore.1.trans (grouped_length _)
    rw [around_length]
    omega

theorem Route.Matches.executions_iff (hread : ReadsUuids accepts) (h : route.Matches accepts path) :
    "/executions/".toList <:+: path ↔ "/executions/".toList <:+: route.template := by
  let named : Text → Bool := fun part => decide (part = "executions".toList)
  have hnamed : (route.template.splitOn '/').map named = (path.splitOn '/').map named := by
    rw [← List.forall₂_eq_eq_eq, List.forall₂_map_left_iff, List.forall₂_map_right_iff]
    refine h.imp fun t part hfills => ?_
    by_cases hparameter : isParameter t = true
    · rw [Fills, if_pos hparameter] at hfills
      have hlong : 32 ≤ part.length := length_of_accepts hread hfills
      have hpart : part ≠ "executions".toList := by
        rintro rfl
        exact absurd hlong (by decide)
      have ht : t ≠ "executions".toList := by
        rintro rfl
        exact absurd hparameter (by decide)
      exact (decide_eq_false ht).trans (decide_eq_false hpart).symm
    · rw [Fills, if_neg hparameter] at hfills
      rw [hfills]
  have hbetween : ∀ text : Text, "/executions/".toList <:+: text ↔
      true ∈ ((text.splitOn '/').map named).tail.dropLast := by
    intro text
    have hsep : "/executions/".toList = '/' :: "executions".toList ++ ['/'] := by decide
    rw [hsep, between_infix_iff (by decide), ← List.map_tail, ← List.map_dropLast]
    have hmem : ∀ parts : List Text, true ∈ parts.map named ↔ "executions".toList ∈ parts := by
      intro parts
      simp only [List.mem_map, named, decide_eq_true_eq, exists_eq_right]
    rw [hmem]
  rw [hbetween, hbetween, hnamed]

theorem Route.Matches.count_eq (h : route.Matches accepts path) : path.count '/' = route.template.count '/' := by
  have hlength : (route.template.splitOn '/').length = (path.splitOn '/').length := h.length_eq
  rw [length_splitOn, length_splitOn] at hlength
  omega

theorem routes_deep : ∀ route ∈ routes, "/executions/".toList <:+: route.template → 2 < route.template.count '/' := by
  decide +kernel

theorem endpoint_of_executions (hread : ReadsUuids accepts) (hroute : route ∈ routes) (h : route.Matches accepts path)
    (hexecutions : "/executions/".toList <:+: route.template) : endpoint path = normalisePath path := by
  have hdeep : 2 < path.count '/' := by
    rw [h.count_eq]
    exact routes_deep route hroute hexecutions
  exact if_pos ⟨(h.executions_iff hread).mpr hexecutions, hdeep⟩

theorem endpoint_of_other (hread : ReadsUuids accepts) (h : route.Matches accepts path)
    (hother : ¬"/executions/".toList <:+: route.template) : endpoint path = path := by
  refine if_neg fun hguard => hother ?_
  exact (h.executions_iff hread).mp hguard.1

/-! ## The number of labels -/

def Route.label (route : Route) : Text :=
  ['/'].intercalate ((route.template.splitOn '/').map fun part => if isParameter part then "{id}".toList else part)

def isLowercaseUuid (x : Text) : Bool := decide (FixedPattern.Matches (grouped isLowerHex) x)

/-- A path with lower-case ids to a route of an execution, or to a route without ids. -/
structure Settled (route : Route) (path : Text) : Prop where
  fills : route.Matches isLowercaseUuid path
  routed : "/executions/".toList <:+: route.template ∨ ∀ part ∈ route.template.splitOn '/', isParameter part = false

theorem routes_literals_short : ∀ route ∈ routes, ∀ part ∈ route.template.splitOn '/', part.length < 36 := by
  decide

theorem isLowercaseUuid_reads : ReadsUuids isLowercaseUuid := by
  constructor
  intro x h
  have hlower : FixedPattern.Matches (grouped isLowerHex) x := of_decide_eq_true h
  have hdigit : ∀ c, isLowerHex c = true → isHex c = true := fun c hc => by rw [isHex, hc, Bool.true_or]
  have hgroups : List.Forall₂ (fun p p' => ∀ c, p c = true → p' c = true) (grouped isLowerHex) (grouped isHex) := by
    simp only [grouped, List.replicate_succ, List.replicate_zero, List.cons_append, List.nil_append,
      List.forall₂_cons, imp_self, implies_true, List.forall₂_nil_left_iff, and_true, true_and, and_self]
    exact hdigit
  exact .inr ⟨.bare, x, hlower.mono hgroups, rfl⟩

theorem Settled.endpoint_eq (h : Settled route path) (hroute : route ∈ routes) : endpoint path = route.label := by
  by_cases hexecutions : "/executions/".toList <:+: route.template
  · have hparts : (path.splitOn '/').map normalisePath =
        (route.template.splitOn '/').map fun part => if isParameter part then "{id}".toList else part := by
      have hliteral := routes_literals_short route hroute
      symm
      rw [← List.forall₂_eq_eq_eq, List.forall₂_map_left_iff, List.forall₂_map_right_iff]
      refine ((List.forall₂_and_left _ _).mpr ⟨hliteral, h.fills⟩).imp fun t part hfills => ?_
      obtain ⟨hshort, hfills⟩ := hfills
      by_cases hparameter : isParameter t = true
      · rw [Fills, if_pos hparameter] at hfills
        rw [if_pos hparameter, normalisePath_lowercase (of_decide_eq_true hfills)]
      · rw [Fills, if_neg hparameter] at hfills
        rw [if_neg hparameter, hfills, normalisePath_short hshort]
    rw [endpoint_of_executions isLowercaseUuid_reads hroute h.fills hexecutions, Route.label, ← hparts,
      ← splitOn_normalisePath, List.intercalate_splitOn]
  · have hliteral := h.routed.resolve_left hexecutions
    have hparts : (route.template.splitOn '/').map (fun part => if isParameter part then "{id}".toList else part) =
        path.splitOn '/' := by
      rw [← List.forall₂_eq_eq_eq, List.forall₂_map_left_iff]
      refine ((List.forall₂_and_left _ _).mpr ⟨hliteral, h.fills⟩).imp fun t part hfills => ?_
      obtain ⟨hnone, hfills⟩ := hfills
      rw [Fills, hnone] at hfills
      rw [hnone]
      exact hfills.symm
    rw [endpoint_of_other isLowercaseUuid_reads h.fills hexecutions, Route.label, hparts, List.intercalate_splitOn]

theorem mem_dispatchAll {E : Type} {exchanges : List (Exchange E)} {m : HttpMetrics} {l : RequestLabels}
    (h : l ∈ (m.dispatchAll exchanges).requestsTotal) :
    l ∈ m.requestsTotal ∨ ∃ r ∈ exchanges, l.endpoint = endpoint r.path := by
  induction exchanges generalizing m with
  | nil => exact .inl h
  | cons r exchanges ih =>
    rcases ih h with hbefore | ⟨later, hmem, hlater⟩
    · rw [HttpMetrics.dispatch] at hbefore
      split at hbefore
      · exact .inl hbefore
      · rcases List.mem_append.mp hbefore with hold | hnew
        · exact .inl hold
        · rw [List.mem_singleton.mp hnew]
          exact .inr ⟨r, List.mem_cons_self, rfl⟩
    · exact .inr ⟨later, List.mem_cons_of_mem _ hmem, hlater⟩

theorem dispatchAll_bounded {E : Type} {exchanges : List (Exchange E)}
    (h : ∀ r ∈ exchanges, ∃ route ∈ routes, Settled route r.path) :
    ((HttpMetrics.dispatchAll ⟨[], []⟩ exchanges).requestsTotal.map RequestLabels.endpoint).dedup.length ≤
      routes.length := by
  have hlength : (routes.map Route.label).length = routes.length := List.length_map _
  rw [← hlength]
  apply (List.nodup_dedup _).length_le_of_subset
  intro label hlabel
  obtain ⟨l, hl, rfl⟩ := List.mem_map.mp (List.mem_dedup.mp hlabel)
  rcases mem_dispatchAll hl with hnone | ⟨r, hmem, hendpoint⟩
  · simp at hnone
  · obtain ⟨route, hroute, hsettled⟩ := h r hmem
    rw [hendpoint, hsettled.endpoint_eq hroute]
    exact List.mem_map_of_mem hroute

/-! ## Requests that share a label -/

def unwrapped (x : Text) : Wrapping → Text
  | .bare => x
  | .braces => (x.drop 1).take 36
  | .urn => x.drop 9

def readsUuid (x : Text) : Bool :=
  decide (x.length = 32) && x.all isHex || [Wrapping.bare, .braces, .urn].any fun w =>
    decide (FixedPattern.Matches (grouped isHex) (unwrapped x w) ∧ x = w.around (unwrapped x w))

theorem readsUuid_reads : ReadsUuids readsUuid := by
  constructor
  intro x h
  simp only [readsUuid, Bool.or_eq_true, Bool.and_eq_true, decide_eq_true_eq, List.any_eq_true] at h
  cases h with
  | inl hsimple => exact .inl hsimple
  | inr hspelled =>
    obtain ⟨w, -, hcore, hx⟩ := hspelled
    exact .inr ⟨w, unwrapped x w, hcore, hx⟩

def getFunction : Route := ⟨"GET".toList, "/api/v1/functions/{function_id}".toList⟩

def getExecutionLogs : Route := ⟨"GET".toList, "/api/v1/executions/{execution_id}/logs".toList⟩

def firstId : Text := "6f9619ff-8b86-4011-b42d-00cf4fc964ff".toList

def secondId : Text := "0b5a3c1e-57d2-4e8f-9a6b-1c2d3e4f5a6b".toList

def logsPath (id : Text) : Text := "/api/v1/executions/".toList ++ id ++ "/logs".toList

def functionPath (id : Text) : Text := "/api/v1/functions/".toList ++ id

/-- Two requests to a route share a label exactly if they share the path, or the route is one of
an execution and its ids are spelled alike. -/
theorem endpoint_eq_iff (hread : ReadsUuids accepts) (hroute : route ∈ routes) (h₁ : route.Matches accepts path₁)
    (h₂ : route.Matches accepts path₂) : endpoint path₁ = endpoint path₂ ↔ path₁ = path₂ ∨
      "/executions/".toList <:+: route.template ∧
        List.Forall₂ Alike (path₁.splitOn '/') (path₂.splitOn '/') := by
  by_cases hexecutions : "/executions/".toList <:+: route.template
  · rw [endpoint_of_executions hread hroute h₁ hexecutions, endpoint_of_executions hread hroute h₂ hexecutions]
    constructor
    · intro h
      exact .inr ⟨hexecutions, (h₁.alike hread h₂).mp h⟩
    · intro h
      rcases h with rfl | ⟨-, halike⟩
      · rfl
      · exact (h₁.alike hread h₂).mpr halike
  · rw [endpoint_of_other hread h₁ hexecutions, endpoint_of_other hread h₂ hexecutions]
    constructor
    · exact .inl
    · intro h
      rcases h with rfl | ⟨hwithin, -⟩
      · rfl
      · exact absurd hwithin hexecutions

theorem endpoint_eq_logs : endpoint (logsPath firstId) = endpoint (logsPath secondId) := by
  have hroute : getExecutionLogs ∈ routes := by decide
  have hfirst : getExecutionLogs.Matches readsUuid (logsPath firstId) := by decide
  have hsecond : getExecutionLogs.Matches readsUuid (logsPath secondId) := by decide
  have halike : Alike firstId secondId := .inr ⟨.bare, firstId, secondId, by decide, by decide, rfl, rfl⟩
  have hparts : ∀ id ∈ [firstId, secondId], (logsPath id).splitOn '/' =
      [[], "api".toList, "v1".toList, "executions".toList] ++ [id, "logs".toList] := by decide
  refine (endpoint_eq_iff readsUuid_reads hroute hfirst hsecond).mpr (.inr ⟨by decide, ?_⟩)
  rw [hparts firstId (by simp), hparts secondId (by simp)]
  have hfront : List.Forall₂ Alike [[], "api".toList, "v1".toList, "executions".toList]
      [[], "api".toList, "v1".toList, "executions".toList] := List.forall₂_same.mpr fun _ _ => .inl rfl
  exact List.rel_append hfront (.cons halike (.cons (.inl rfl) .nil))

theorem endpoint_tells_functions : ¬∀ accepts, ReadsUuids accepts → ∀ route ∈ routes, ∀ path₁ path₂,
    route.Matches accepts path₁ → route.Matches accepts path₂ → endpoint path₁ = endpoint path₂ := by
  intro h
  have hsame : endpoint (functionPath firstId) = endpoint (functionPath secondId) :=
    h readsUuid readsUuid_reads getFunction (by decide) _ _ (by decide) (by decide)
  exact absurd hsame (by decide)

end PyFaaS.MetricLabels
