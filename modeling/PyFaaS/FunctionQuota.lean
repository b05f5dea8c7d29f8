import PyFaaS.RouteEffects
import PyFaaS.TenantIsolation

/-!
# The quota of functions

`create_function` counts the functions of the user that are not deprecated.
`update_function` may take a function out of DEPRECATED without counting.
-/

namespace PyFaaS.FunctionQuota
open Api Database Transactions
open Runs (Along Throughout)

inductive FunctionRequest where
  | create (name : Text) (description : Option Text) (tags : Json)
  | update (functionId : Uuid) (body : FunctionUpdate)
  | delete (functionId : Uuid)

def FunctionRequest.route : FunctionRequest → UserRequest
  | .create name description tags => .createFunction name description tags
  | .update functionId body => .updateFunction functionId body
  | .delete functionId => .deleteFunction functionId

section
variable (settings : ApiSettings)

abbrev next (db : Database) (c : Call FunctionRequest) : Database := after settings FunctionRequest.route db c

def WithinQuota (db : Database) : Prop := ∀ u, quotaCount u db ≤ settings.maxFunctionsPerUser

def reactivates (fn : Function) (body : FunctionUpdate) : Bool :=
  decide (fn.status = .deprecated) && !decide ((body.edit fn).status = .deprecated)

/-- An update that takes a function of its user out of DEPRECATED finds the user
below the quota. -/
def LeavesRoom (db : Database) (c : Call FunctionRequest) : Prop :=
  match c.request with
  | .update functionId body => ∀ fn ∈ db.functions, fn.id = functionId → fn.ownerId = c.user →
      reactivates fn body = true → quotaCount c.user db < settings.maxFunctionsPerUser
  | _ => True

end

variable {settings : ApiSettings} {db : Database} {u : Uuid}

/-! ## What the requests do to the count -/

def counts (u : Uuid) (f : Function) : Bool := decide (f.ownerId = u) && !decide (f.status = .deprecated)

theorem quotaCount_eq (u : Uuid) (db : Database) : quotaCount u db = db.functions.countP (counts u) :=
  List.countP_eq_length_filter.symm

theorem quotaCount_insertFunction (fn : Function) (u : Uuid) :
    quotaCount u (insertFunction fn db) = quotaCount u db + (counts u fn).toNat := by
  rw [quotaCount_eq, quotaCount_eq, insertFunction, List.countP_append]
  cases h : counts u fn <;> simp [h]

theorem quotaCount_updateFunction (hdb : WellFormed db) {fn : Function} (hfn : fn ∈ db.functions)
    (f : Function → Function) (u : Uuid) :
    quotaCount u (Database.updateFunction fn.id f db) + (counts u fn).toNat =
      quotaCount u db + (counts u (f fn)).toNat := by
  rw [quotaCount_eq, quotaCount_eq]
  exact Table.countP_modify (counts u) hdb.functionIds hfn rfl

theorem functions_deleteStatements (g : Given) (functionId : Uuid) (versionIds : List Uuid) :
    (deleteStatements u g functionId versionIds db).functions =
      (Table.modify db.functions functionId (touchFunction g.now clearVersions)).filter fun f =>
        !decide (f.id = functionId) := by
  unfold deleteStatements
  cases versionIds with
  | nil => rfl
  | cons id ids => rfl

theorem quotaCount_deleteStatements (g : Given) (functionId : Uuid) (versionIds : List Uuid) (w : Uuid) :
    quotaCount w (deleteStatements u g functionId versionIds db) ≤ quotaCount w db := by
  rw [quotaCount_eq, quotaCount_eq, functions_deleteStatements, Table.filter_modify_of_ne]
  · exact List.filter_sublist.countP_le
  · intro f _
    rw [touchFunction_eq]
    rfl
  · intro f _ hf
    exact of_decide_eq_false ((Bool.not_eq_true' _).mp hf)

/-! ## Steps -/

theorem create_withinQuota {name : Text} {description : Option Text} {tags : Json} {g : Given}
    (hq : WithinQuota settings db) : WithinQuota settings (next settings db ⟨u, .create name description tags, g⟩) := by
  refine after_keeps hq fun p hrun => ?_
  have hrun : createFunction settings u g name description tags db = .ok p := hrun
  obtain ⟨hcount, fn, ht, -, howner, -⟩ := createFunction_ok hrun
  rw [ht]
  intro w
  rw [quotaCount_insertFunction]
  by_cases hw : w = u
  · subst hw
    cases counts w fn <;> simp <;> omega
  · have hnot : counts w fn = false := by simp [counts, howner, Ne.symm hw]
    have := hq w
    simpa [hnot] using this

theorem delete_withinQuota {functionId : Uuid} {g : Given} (hq : WithinQuota settings db) :
    WithinQuota settings (next settings db ⟨u, .delete functionId, g⟩) := by
  refine after_keeps hq fun p hrun => ?_
  obtain ⟨fn, -, -, ht⟩ := deleteFunction_ok hrun
  rw [ht]
  intro w
  exact (quotaCount_deleteStatements _ _ _ w).trans (hq w)

theorem update_count {functionId : Uuid} {body : FunctionUpdate} {g : Given} (hdb : WellFormed db)
    {fn : Function} (hfn : fn ∈ db.functions) (hid : fn.id = functionId) (howner : fn.ownerId = u) (w : Uuid) :
    quotaCount w (next settings db ⟨u, .update functionId body, g⟩) + (counts w fn).toNat =
      quotaCount w db + (counts w (body.edit fn)).toNat := by
  obtain ⟨a, t, h⟩ := updateFunction_runs hfn hid howner
  obtain ⟨-, -, rfl⟩ := updateFunction_ok h
  have hnext : next settings db ⟨u, .update functionId body, g⟩ = _ := perform_of_ok h
  rw [hnext, ← hid, quotaCount_updateFunction hdb hfn, touchFunction_eq]
  rfl

theorem reactivates_iff {body : FunctionUpdate} {fn : Function} (howner : fn.ownerId = u) :
    reactivates fn body = true ↔ counts u fn = false ∧ counts u (body.edit fn) = true := by
  have hsame : (body.edit fn).ownerId = u := howner
  simp [reactivates, counts, howner, hsame]

theorem update_count_le {functionId : Uuid} {body : FunctionUpdate} {g : Given} (hdb : WellFormed db) {fn : Function}
    (hfn : fn ∈ db.functions) (hid : fn.id = functionId) (howner : fn.ownerId = u) {w : Uuid}
    (h : w = u → reactivates fn body = false) :
    quotaCount w (next settings db ⟨u, .update functionId body, g⟩) ≤ quotaCount w db := by
  have hcount : quotaCount w (next settings db ⟨u, .update functionId body, g⟩) + (counts w fn).toNat =
      quotaCount w db + (counts w (body.edit fn)).toNat := update_count hdb hfn hid howner w
  have hle : (counts w (body.edit fn)).toNat ≤ (counts w fn).toNat := by
    by_cases hw : w = u
    · subst hw
      have hkept : ¬ (counts w fn = false ∧ counts w (body.edit fn) = true) := by
        rw [← reactivates_iff howner, h rfl]
        exact Bool.false_ne_true
      cases hold : counts w fn with
      | true => exact Bool.toNat_le _
      | false =>
        have hnew : counts w (body.edit fn) = false := by simpa [hold] using hkept
        rw [hnew]
    · have hsame : (body.edit fn).ownerId = u := howner
      have hnew : counts w (body.edit fn) = false := by simp [counts, hsame, Ne.symm hw]
      rw [hnew]
      exact Nat.zero_le _
  omega

theorem update_count_succ {functionId : Uuid} {body : FunctionUpdate} {g : Given} (hdb : WellFormed db) {fn : Function}
    (hfn : fn ∈ db.functions) (hid : fn.id = functionId) (howner : fn.ownerId = u) (h : reactivates fn body = true) :
    quotaCount u (next settings db ⟨u, .update functionId body, g⟩) = quotaCount u db + 1 := by
  have hcount : quotaCount u (next settings db ⟨u, .update functionId body, g⟩) + (counts u fn).toNat =
      quotaCount u db + (counts u (body.edit fn)).toNat := update_count hdb hfn hid howner u
  obtain ⟨hold, hnew⟩ := (reactivates_iff howner).mp h
  simpa only [hold, hnew, Bool.toNat_false, Bool.toNat_true, Nat.add_zero] using hcount

theorem update_missing {functionId : Uuid} {body : FunctionUpdate} {g : Given}
    (h : ¬ ∃ fn ∈ db.functions, fn.id = functionId ∧ fn.ownerId = u) :
    next settings db ⟨u, .update functionId body, g⟩ = db := by
  cases hrun : updateFunction u g functionId body db with
  | error e => exact perform_of_error hrun
  | ok p =>
    obtain ⟨fn, hfn, -⟩ := updateFunction_ok hrun
    exact absurd ⟨fn, hfn.holds.1, hfn.id, hfn.holds.2⟩ h

theorem update_withinQuota_iff {functionId : Uuid} {body : FunctionUpdate} {g : Given} (hdb : WellFormed db)
    (hq : WithinQuota settings db) : WithinQuota settings (next settings db ⟨u, .update functionId body, g⟩) ↔
      LeavesRoom settings db ⟨u, .update functionId body, g⟩ := by
  by_cases hexists : ∃ fn ∈ db.functions, fn.id = functionId ∧ fn.ownerId = u
  · obtain ⟨fn, hfn, hid, howner⟩ := hexists
    constructor
    · intro hq' fn' hfn' hid' _ hback
      obtain rfl : fn' = fn := function_unique hdb hfn' hfn (hid'.trans hid.symm)
      have hgrown : quotaCount u (next settings db ⟨u, .update functionId body, g⟩) = quotaCount u db + 1 :=
        update_count_succ hdb hfn hid howner hback
      have hbound := hq' u
      change quotaCount u db < settings.maxFunctionsPerUser
      omega
    · intro hroom w
      by_cases hgrows : w = u ∧ reactivates fn body = true
      · obtain ⟨rfl, hback⟩ := hgrows
        have hlt : quotaCount w db < settings.maxFunctionsPerUser := hroom fn hfn hid howner hback
        have hgrown : quotaCount w (next settings db ⟨w, .update functionId body, g⟩) = quotaCount w db + 1 :=
          update_count_succ hdb hfn hid howner hback
        omega
      · refine (update_count_le hdb hfn hid howner fun hw => ?_).trans (hq w)
        rw [← Bool.not_eq_true]
        exact fun hback => hgrows ⟨hw, hback⟩
  · rw [update_missing hexists]
    exact iff_of_true hq fun fn hfn hid howner => absurd ⟨fn, hfn, hid, howner⟩ hexists

theorem next_withinQuota_iff (hdb : WellFormed db) {c : Call FunctionRequest} (hq : WithinQuota settings db) :
    WithinQuota settings (next settings db c) ↔ LeavesRoom settings db c := by
  obtain ⟨u, request, g⟩ := c
  cases request with
  | create name description tags => exact ⟨fun _ => trivial, fun _ => create_withinQuota hq⟩
  | update functionId body => exact update_withinQuota_iff hdb hq
  | delete functionId => exact ⟨fun _ => trivial, fun _ => delete_withinQuota hq⟩

/-- The quota holds in every state of a sequence of requests exactly if every
update that takes a function out of DEPRECATED finds its user below the quota. -/
theorem quota_throughout_iff {calls : List (Call FunctionRequest)}
    (hsupplied : Along (next settings) (SuppliedCall settings) empty calls) :
    Throughout (next settings) (WithinQuota settings) empty calls ↔
      Along (next settings) (LeavesRoom settings) empty calls := by
  apply Runs.throughout_iff (J := WellFormed)
  · exact fun _ _ hdb hc => after_wellFormed hdb hc
  · exact fun _ _ hdb _ hq => next_withinQuota_iff hdb hq
  · exact hsupplied
  · exact wellFormed_empty
  · exact fun u => Nat.zero_le _

def oneFunction : ApiSettings := { sampleSettings with maxFunctionsPerUser := 1 }

def sampleCreate (id : Uuid) (name : String) : Call FunctionRequest :=
  ⟨7, .create name.toList none (.obj []), sampleGiven id⟩

def sampleStatus (id : Uuid) (status : FunctionStatus) : Call FunctionRequest :=
  ⟨7, .update id ⟨none, some status, none⟩, sampleGiven 9⟩

theorem quota_throughout_reactivated : Throughout (next oneFunction) (WithinQuota oneFunction) empty
    [sampleCreate 1 "first", sampleStatus 1 .deprecated, sampleStatus 1 .active] := by
  apply (quota_throughout_iff (by decide)).mpr
  refine ⟨trivial, ?_, ?_, trivial⟩
  · intro fn hfn _ _ hback
    obtain rfl := List.mem_singleton.mp hfn
    cases hback
  · intro fn _ _ _ _
    decide

/-- A second function is created while the first is deprecated, and the first is
made active again. -/
theorem quota_exceeded : ¬ ∀ (settings : ApiSettings) (calls : List (Call FunctionRequest)),
    Along (next settings) (SuppliedCall settings) empty calls →
      Throughout (next settings) (WithinQuota settings) empty calls := by
  intro hclaim
  have hall := hclaim oneFunction [sampleCreate 1 "first", sampleStatus 1 .deprecated,
    sampleCreate 2 "second", sampleStatus 1 .active] (by decide)
  obtain ⟨-, -, -, -, hlast⟩ := hall
  exact absurd (hlast 7) (by decide)

end PyFaaS.FunctionQuota
