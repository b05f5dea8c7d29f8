import Mathlib.Data.List.Nodup
import PyFaaS.Routers.Auth

/-!
# Registration

`register` of `api/routers/auth.py`. One query asks for the users with the username or
with the email, and its result accessor takes one row at most.
-/

namespace PyFaaS.Api
open Transactions Database

structure UserRegister where
  username : Text
  email : Text
  password : Text

/-- `scalar_one_or_none`, which raises `MultipleResultsFound` on more than one row. -/
def scalarOneOrNone {α : Type} : List α → AccountSession (Option α)
  | [] => pure none
  | [row] => pure (some row)
  | _ :: _ :: _ => abort .internal

def UserRegister.matches (body : UserRegister) (user : User) : Bool :=
  decide (user.username = body.username) || decide (user.email = body.email)

/-- The unique columns of the table. -/
def clashes (user row : User) : Bool :=
  decide (row.id = user.id) || decide (row.username = user.username) || decide (row.email = user.email)

/-- The flush of a new user, which raises `IntegrityError` on a clash. -/
def insertUser (user : User) : AccountSession Unit := do
  let clash ← query fun s => s.users.any (clashes user)
  require (!clash) .internal
  write fun s => { s with users := s.users ++ [user] }

section
variable (hashPassword : Text → Option Text) (g : Given)

/-- An answer is a 201; `hashPassword` has no answer where bcrypt raises. -/
def register (body : UserRegister) : AccountSession User := do
  let rows ← query fun s => s.users.filter body.matches
  let existing ← scalarOneOrNone rows
  require existing.isNone (.exception 409 "Username or email already registered".toList)
  let hashedPassword ← found (hashPassword body.password) .internal
  let user : User := ⟨g.newId, body.username, body.email, hashedPassword, true, false⟩
  insertUser user
  return user

end

variable {hashPassword : Text → Option Text} {g : Given} {s : Accounts} {body : UserRegister}

def Taken (s : Accounts) (body : UserRegister) : Prop :=
  (∃ user ∈ s.users, user.username = body.username) ∨ ∃ user ∈ s.users, user.email = body.email

/-- A conflict is answered with 409 and leaves the table alone; any other request adds
its user. -/
structure AnswersRightly (hashPassword : Text → Option Text) (g : Given) (s : Accounts) (body : UserRegister) :
    Prop where
  conflict : Taken s body → transact (register hashPassword g body) s =
    (.error (.exception 409 "Username or email already registered".toList), s)
  created : ¬ Taken s body → ∃ user, user.username = body.username ∧ user.email = body.email ∧
    transact (register hashPassword g body) s = (.ok user, { s with users := s.users ++ [user] })

def TakenTwice (s : Accounts) (body : UserRegister) : Prop :=
  ∃ u ∈ s.users, ∃ v ∈ s.users, u ≠ v ∧ u.username = body.username ∧ v.email = body.email

theorem matches_iff {user : User} : body.matches user = true ↔
    user.username = body.username ∨ user.email = body.email := by
  rw [UserRegister.matches, Bool.or_eq_true, decide_eq_true_iff, decide_eq_true_iff]

theorem taken_iff : Taken s body ↔ ∃ user ∈ s.users, body.matches user = true := by
  simp only [Taken, matches_iff, and_or_left, exists_or]

theorem not_taken_iff : ¬ Taken s body ↔ s.users.filter body.matches = [] := by
  rw [taken_iff, List.filter_eq_nil_iff]
  simp

/-! ## The three row counts -/

theorem register_none (h : s.users.filter body.matches = []) (hfresh : ∀ user ∈ s.users, user.id ≠ g.newId) :
    register hashPassword g body s = match hashPassword body.password with
      | some hashed => .ok (⟨g.newId, body.username, body.email, hashed, true, false⟩,
          { s with users := s.users ++ [⟨g.newId, body.username, body.email, hashed, true, false⟩] })
      | none => .error .internal := by
  rw [register, query_bind, h]
  cases hhash : hashPassword body.password with
  | none => rfl
  | some hashed =>
    have hclash : s.users.any (clashes ⟨g.newId, body.username, body.email, hashed, true, false⟩) = false := by
      refine List.any_eq_false.mpr fun row hrow hclash => ?_
      have hnot := List.filter_eq_nil_iff.mp h row hrow
      rw [matches_iff, not_or] at hnot
      simp [clashes, hfresh row hrow, hnot] at hclash
    have hinsert : ∀ user, s.users.any (clashes user) = false → insertUser user s =
        .ok ((), { s with users := s.users ++ [user] }) := by
      intro user huser
      rw [insertUser, query_bind, huser]
      rfl
    change (insertUser ⟨g.newId, body.username, body.email, hashed, true, false⟩ >>= fun _ => pure _) s = _
    rw [bind_run (hinsert _ hclash)]
    rfl

theorem register_one {user : User} (h : s.users.filter body.matches = [user]) : register hashPassword g body s =
    .error (.exception 409 "Username or email already registered".toList) := by
  rw [register, query_bind, h]
  rfl

theorem register_more {u v : User} {rest : List User} (h : s.users.filter body.matches = u :: v :: rest) :
    register hashPassword g body s = .error .internal := by
  rw [register, query_bind, h]
  rfl

theorem takenTwice_of_more (hnames : (s.users.map User.username).Nodup) (hemails : (s.users.map User.email).Nodup)
    {u v : User} {rest : List User} (h : s.users.filter body.matches = u :: v :: rest) : TakenTwice s body := by
  have hdistinct : (s.users.filter body.matches).Nodup := (List.Nodup.of_map _ hnames).filter _
  have hu : u ∈ s.users.filter body.matches := by rw [h]; exact List.mem_cons_self
  have hv : v ∈ s.users.filter body.matches := by rw [h]; exact List.mem_cons_of_mem _ List.mem_cons_self
  have hne : u ≠ v := by
    rintro rfl
    rw [h] at hdistinct
    simp at hdistinct
  obtain ⟨humem, humatch⟩ := List.mem_filter.mp hu
  obtain ⟨hvmem, hvmatch⟩ := List.mem_filter.mp hv
  cases matches_iff.mp humatch with
  | inl huname =>
    cases matches_iff.mp hvmatch with
    | inl hvname => exact absurd (List.inj_on_of_nodup_map hnames humem hvmem (huname.trans hvname.symm)) hne
    | inr hvemail => exact ⟨u, humem, v, hvmem, hne, huname, hvemail⟩
  | inr huemail =>
    cases matches_iff.mp hvmatch with
    | inl hvname => exact ⟨v, hvmem, u, humem, hne.symm, hvname, huemail⟩
    | inr hvemail => exact absurd (List.inj_on_of_nodup_map hemails humem hvmem (huemail.trans hvemail.symm)) hne

theorem takenTwice_more (h : TakenTwice s body) : ∃ u v rest, s.users.filter body.matches = u :: v :: rest := by
  obtain ⟨u, humem, v, hvmem, hne, huname, hvemail⟩ := h
  have hu : u ∈ s.users.filter body.matches := List.mem_filter.mpr ⟨humem, matches_iff.mpr (Or.inl huname)⟩
  have hv : v ∈ s.users.filter body.matches := List.mem_filter.mpr ⟨hvmem, matches_iff.mpr (Or.inr hvemail)⟩
  cases hrows : s.users.filter body.matches with
  | nil =>
    rw [hrows] at hu
    cases hu
  | cons a rows =>
    cases rows with
    | nil =>
      rw [hrows, List.mem_singleton] at hu hv
      exact absurd (hu.trans hv.symm) hne
    | cons b rest => exact ⟨a, b, rest, rfl⟩

theorem not_answersRightly_of_takenTwice (h : TakenTwice s body) : ¬ AnswersRightly hashPassword g s body := by
  intro hright
  obtain ⟨u, v, rest, hrows⟩ := takenTwice_more h
  have htaken : Taken s body := by
    by_contra hnot
    rw [not_taken_iff.mp hnot] at hrows
    cases hrows
  have hanswer := hright.conflict htaken
  rw [transact_error (register_more hrows)] at hanswer
  simp at hanswer

/-- `register` answers as it should exactly if the query finds one row at most, and
bcrypt hashes the password of a new user. -/
theorem register_answersRightly_iff (hnames : (s.users.map User.username).Nodup)
    (hemails : (s.users.map User.email).Nodup) (hfresh : ∀ user ∈ s.users, user.id ≠ g.newId) :
    AnswersRightly hashPassword g s body ↔
      ¬ TakenTwice s body ∧ (¬ Taken s body → (hashPassword body.password).isSome = true) := by
  constructor
  · intro h
    refine ⟨fun htwice => not_answersRightly_of_takenTwice htwice h, fun hnot => ?_⟩
    obtain ⟨user, -, -, hanswer⟩ := h.created hnot
    cases hhash : hashPassword body.password with
    | some hashed => rfl
    | none =>
      have hrun : register hashPassword g body s = _ := register_none (not_taken_iff.mp hnot) hfresh
      rw [hhash] at hrun
      rw [transact_error hrun] at hanswer
      simp at hanswer
  · intro ⟨hnot, hhash⟩
    cases hrows : s.users.filter body.matches with
    | nil =>
      have hfree := not_taken_iff.mpr hrows
      refine ⟨fun htaken => absurd htaken hfree, fun _ => ?_⟩
      obtain ⟨hashed, hhashed⟩ := Option.isSome_iff_exists.mp (hhash hfree)
      have hrun : register hashPassword g body s = _ := register_none hrows hfresh
      rw [hhashed] at hrun
      exact ⟨_, rfl, rfl, transact_ok hrun⟩
    | cons u rows =>
      cases rows with
      | nil =>
        refine ⟨fun _ => transact_error (register_one hrows), fun hfree => ?_⟩
        rw [not_taken_iff.mp hfree] at hrows
        cases hrows
      | cons v rest => exact absurd (takenTwice_of_more hnames hemails hrows) hnot

def twoUsers : Accounts :=
  ⟨[⟨1, "ada".toList, "ada@example.org".toList, "x".toList, true, false⟩,
    ⟨2, "bob".toList, "bob@example.org".toList, "x".toList, true, false⟩], .empty⟩

def sampleSource : Given := ⟨0, 3, 0, [], fun _ => false, none, [], true⟩

theorem register_answersRightly_sample : AnswersRightly some sampleSource twoUsers
    ⟨"ada".toList, "new@example.org".toList, "password".toList⟩ := by
  refine (register_answersRightly_iff (by decide) (by decide) (by decide)).mpr ⟨?_, fun _ => rfl⟩
  rintro ⟨u, -, v, hv, -, -, hemail⟩
  have hnone : ∀ v ∈ twoUsers.users, v.email ≠ "new@example.org".toList := by decide
  exact hnone v hv hemail

theorem register_raises : ¬ AnswersRightly some sampleSource twoUsers
    ⟨"ada".toList, "bob@example.org".toList, "password".toList⟩ := by
  refine not_answersRightly_of_takenTwice ⟨_, List.mem_cons_self, _, List.mem_cons_of_mem _ List.mem_cons_self, ?_⟩
  decide

end PyFaaS.Api
