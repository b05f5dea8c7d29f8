import PyFaaS.ExecutionPages
import PyFaaS.Routers.Functions

/-!
# `cli/sopm.py`

The client asks for `/functions?size=100`. The server declares `page`, `page_size` and
`status` and leaves other parameters alone, so that the client sees the first page of
the default size.
-/

namespace PyFaaS.CommandLine
open Api Transactions Database SortedPages

abbrev QueryString := List (Text × Text)

def boundText (params : QueryString) (name : String) : Option Text :=
  (params.reverse.find? fun param => decide (param.1 = name.toList)).map Prod.snd

section
variable (parseInt : Text → Option ℤ)

/-- An `int` parameter with its default and its bounds; `none` is a 422. -/
def boundInt (params : QueryString) (name : String) (default : ℕ) (accepts : ℤ → Bool) : Option ℕ :=
  match boundText params name with
  | none => some default
  | some text => ((parseInt text).filter accepts).map Int.toNat

def paginationQuery (params : QueryString) : Option Page := do
  let page ← boundInt parseInt params "page" 1 fun n => decide (1 ≤ n)
  let pageSize ← boundInt parseInt params "page_size" 20 fun n => decide (1 ≤ n) && decide (n ≤ 100)
  return paginationParams page pageSize

end

def statusQuery (params : QueryString) : Option (Option FunctionStatus) :=
  match boundText params "status" with
  | none => some none
  | some text =>
    if text = "ACTIVE".toList then some (some .active)
    else if text = "INACTIVE".toList then some (some .inactive)
    else if text = "DEPRECATED".toList then some (some .deprecated)
    else none

def listFunctionsIn (sorting : CreatedOrder Function.createdAt) (user : Uuid) (p : Page)
    (statusFilter : Option FunctionStatus) : Session Response := do
  let rows ← query fun db => db.functions.filter fun f =>
    decide (f.ownerId = user) && statusFilter.all fun s => decide (f.status = s)
  let items ← query fun db => (p.take (sorting.sort rows)).map (withVersions db)
  return .functionList items rows.length p.number p.limit

/-! ## The client -/

/-- How a command ends early: on a refusal of a parameter, on an error of a route, or
on an answer that is not what it reads. -/
inductive Exit where
  | unprocessable
  | http (err : HttpError)
  | unexpected
  deriving DecidableEq

/-- A command over the server's database; every request commits or rolls back alone. -/
abbrev Command := ExceptT Exit (StateM Database)

def http (route : Session Response) : Command Response := fun db =>
  match transact route db with
  | (.ok a, db') => (.ok a, db')
  | (.error err, db') => (.error (.http err), db')

section
variable (parseInt : Text → Option ℤ) (sorting : CreatedOrder Function.createdAt) (user : Uuid)

def getFunctions (params : QueryString) : Command Response :=
  match paginationQuery parseInt params, statusQuery params with
  | some p, some statusFilter => http (listFunctionsIn sorting user p statusFilter)
  | _, _ => throw .unprocessable

def clientQuery : QueryString := [("size".toList, "100".toList)]

def findFunction (name : Text) : Command (Option FunctionResponse) := do
  match ← getFunctions parseInt sorting user clientQuery with
  | .functionList items _ _ _ => return items.find? fun fn => decide (fn.row.name = name)
  | _ => throw .unexpected

structure Deploy where
  function : Text
  archive : Archive
  form : VersionForm

variable (settings : ApiSettings) (creating uploading : Given)

def uploadVersion (args : Deploy) (functionId : Uuid) : Command Response :=
  http (createVersion settings user uploading functionId args.archive args.form)

def cmdDeploy (args : Deploy) : Command Response := do
  match ← findFunction parseInt sorting user args.function with
  | some fn => uploadVersion user settings uploading args fn.row.id
  | none =>
    match ← http (createFunction settings user creating args.function none (.obj [])) with
    | .function fn => uploadVersion user settings uploading args fn.row.id
    | _ => throw .unexpected

end

variable {parseInt : Text → Option ℤ} {sorting : CreatedOrder Function.createdAt} {user : Uuid} {db : Database}
  {fn : Function} {name : Text} {settings : ApiSettings} {creating uploading : Given} {args : Deploy}

/-! ## What the client is shown -/

def functionsOf (user : Uuid) (db : Database) : List Function :=
  db.functions.filter fun f => decide (f.ownerId = user)

theorem clientQuery_unbound {declared : String} (h : declared ∈ ["page", "page_size", "status"]) :
    boundText clientQuery declared = none := by
  have hall : ∀ declared ∈ ["page", "page_size", "status"], boundText clientQuery declared = none := by decide
  exact hall declared h

theorem paginationQuery_client : paginationQuery parseInt clientQuery = some (paginationParams 1 20) := by
  simp [paginationQuery, boundInt, clientQuery_unbound]

theorem statusQuery_client : statusQuery clientQuery = some none := by
  simp [statusQuery, clientQuery_unbound]

theorem findFunction_eq : (findFunction parseInt sorting user name).run.run db =
    (.ok ((((sorting.sort (functionsOf user db)).take 20).map (withVersions db)).find?
      fun fn => decide (fn.row.name = name)), db) := by
  have hget : getFunctions parseInt sorting user clientQuery =
      http (listFunctionsIn sorting user (paginationParams 1 20) none) := by
    simp only [getFunctions, paginationQuery_client, statusQuery_client]
  have hrows : (db.functions.filter fun f => decide (f.ownerId = user) && (none : Option FunctionStatus).all fun s =>
      decide (f.status = s)) = functionsOf user db := by simp [functionsOf]
  have hpage : (paginationParams 1 20).take (sorting.sort (functionsOf user db)) =
      (sorting.sort (functionsOf user db)).take 20 := rfl
  rw [findFunction, hget, ← hpage, ← hrows]
  rfl

theorem names_nodup (h : (db.functions.map fun f => (f.ownerId, f.name)).Nodup) :
    ((functionsOf user db).map Function.name).Nodup := by
  have hpairs : ((functionsOf user db).map fun f => (f.ownerId, f.name)).Nodup :=
    h.sublist (List.filter_sublist.map _)
  have howned : (functionsOf user db).map (fun f => (f.ownerId, f.name)) =
      ((functionsOf user db).map Function.name).map (Prod.mk user) := by
    rw [List.map_map]
    refine List.map_congr_left fun f hf => ?_
    have howner : f.ownerId = user := of_decide_eq_true (List.mem_filter.mp hf).2
    rw [Function.comp_apply, howner]
  rw [howned] at hpairs
  exact List.Nodup.of_map _ hpairs

theorem findFunction_found (h : ((functionsOf user db).map Function.name).Nodup) (hfn : fn ∈ functionsOf user db) :
    (findFunction parseInt sorting user fn.name).run.run db = (.ok (some (withVersions db fn)), db) ↔
      fn ∈ (sorting.sort (functionsOf user db)).take 20 := by
  have hrow : ∀ f, (withVersions db f).row = f := fun _ => rfl
  rw [findFunction_eq, List.find?_map]
  constructor
  · intro hfound
    have hshown := Except.ok.inj (Prod.mk.inj hfound).1
    obtain ⟨f, hf, hrecord⟩ := Option.map_eq_some_iff.mp hshown
    have hsame : f = fn := congrArg FunctionResponse.row hrecord
    exact hsame ▸ List.mem_of_find?_eq_some hf
  · intro hmem
    have hfound : ((sorting.sort (functionsOf user db)).take 20).find?
        ((fun r => decide (r.row.name = fn.name)) ∘ withVersions db) = some fn := by
      cases hf : ((sorting.sort (functionsOf user db)).take 20).find?
          ((fun r => decide (r.row.name = fn.name)) ∘ withVersions db) with
      | none =>
        have hnot := List.find?_eq_none.mp hf fn hmem
        simp [hrow] at hnot
      | some f =>
        have hname := List.find?_some hf
        rw [Function.comp_apply, hrow, decide_eq_true_iff] at hname
        have hlisted : f ∈ functionsOf user db :=
          (sorting.listing _).perm.mem_iff.mp (List.mem_of_mem_take (List.mem_of_find?_eq_some hf))
        rw [List.inj_on_of_nodup_map h hlisted hfn hname]
    rw [hfound]
    rfl

theorem command_bind {α β : Type} {m : Command α} {k : α → Command β} {a : α} {db db' : Database}
    (h : m.run.run db = (.ok a, db')) : (m >>= k).run.run db = (k a).run.run db' := by
  rw [ExceptT.run_bind, StateT.run_bind, h]
  rfl

theorem command_bind_error {α β : Type} {m : Command α} {k : α → Command β} {exit : Exit} {db db' : Database}
    (h : m.run.run db = (.error exit, db')) : (m >>= k).run.run db = (.error exit, db') := by
  rw [ExceptT.run_bind, StateT.run_bind, h]
  rfl

structure Finds (parseInt : Text → Option ℤ) (sorting : CreatedOrder Function.createdAt) (user : Uuid)
    (db : Database) (fn : Function) : Prop where
  found : (findFunction parseInt sorting user fn.name).run.run db = (.ok (some (withVersions db fn)), db)
  uploads : ∀ settings creating uploading args, args.function = fn.name →
    (cmdDeploy parseInt sorting user settings creating uploading args).run.run db =
      (uploadVersion user settings uploading args fn.id).run.run db

theorem finds_of_found
    (h : (findFunction parseInt sorting user fn.name).run.run db = (.ok (some (withVersions db fn)), db)) :
    Finds parseInt sorting user db fn := by
  refine ⟨h, fun settings creating uploading args hargs => ?_⟩
  rw [cmdDeploy, hargs, command_bind h]
  rfl

theorem cmdDeploy_refused (hfn : fn ∈ functionsOf user db) (hargs : args.function = fn.name)
    (h : (findFunction parseInt sorting user fn.name).run.run db = (.ok none, db)) :
    ∃ detail status, (status = 409 ∨ status = 429) ∧
      (cmdDeploy parseInt sorting user settings creating uploading args).run.run db =
        (.error (.http (.exception status detail)), db) := by
  obtain ⟨hmem, howner⟩ := List.mem_filter.mp hfn
  have hexists : (db.functions.find? fun f =>
      decide (f.ownerId = user) && decide (f.name = fn.name)).isNone = false := by
    rw [Option.isNone_eq_false_iff, List.find?_isSome]
    exact ⟨fn, hmem, by rw [howner, decide_eq_true rfl]; rfl⟩
  have hcreate : ∃ detail status, (status = 409 ∨ status = 429) ∧
      createFunction settings user creating fn.name none (.obj []) db = .error (.exception status detail) := by
    rw [createFunction, query_bind]
    cases decide ((db.functions.filter fun f => decide (f.ownerId = user) && !decide (f.status = .deprecated)).length <
      settings.maxFunctionsPerUser) with
    | false => exact ⟨_, 429, Or.inr rfl, rfl⟩
    | true =>
      refine ⟨"Function '".toList ++ fn.name ++ "' already exists".toList, 409, Or.inl rfl, ?_⟩
      have hpass : ∀ err, require true err = (pure () : Session Unit) := fun _ => rfl
      rw [hpass, pure_bind, query_bind, hexists]
      rfl
  obtain ⟨detail, status, hstatus, hcreate⟩ := hcreate
  refine ⟨detail, status, hstatus, ?_⟩
  rw [cmdDeploy, hargs, command_bind h]
  have hhttp : (http (createFunction settings user creating fn.name none (.obj []))).run.run db =
      (.error (.http (.exception status detail)), db) := by
    have htransact := transact_error hcreate
    simp only [http, ExceptT.run, StateT.run, htransact]
  exact command_bind_error hhttp

/-- The newest twenty functions are shown, so every order of the database shows the
function exactly if there are at most twenty that are as new as it is, itself included. -/
theorem shown_iff (hnames : ((functionsOf user db).map Function.name).Nodup) (hfn : fn ∈ functionsOf user db) :
    (∀ sorting : CreatedOrder Function.createdAt, fn ∈ (sorting.sort (functionsOf user db)).take 20) ↔
      (db.functions.countP fun f => decide (f.ownerId = user) && decide (fn.createdAt ≤ f.createdAt)) ≤ 20 := by
  have hcount : (db.functions.countP fun f => decide (f.ownerId = user) && decide (fn.createdAt ≤ f.createdAt)) =
      (functionsOf user db).countP fun f =>
        decide (newest Function.createdAt f ≤ newest Function.createdAt fn) := by
    rw [functionsOf, List.countP_filter]
    exact List.countP_congr fun f _ => by rw [Bool.and_comm]; rfl
  rw [hcount, ← mem_take_iff (List.Nodup.of_map _ hnames) hfn]
  constructor
  · intro h l hl
    obtain ⟨sorting, rfl⟩ := hl.exists_sorting
    exact h sorting
  · exact fun h sorting => h _ (sorting.listing _)

theorem findFunction_finds_iff (hnames : (db.functions.map fun f => (f.ownerId, f.name)).Nodup)
    (hfn : fn ∈ db.functions) (howner : fn.ownerId = user) :
    (∀ sorting, Finds parseInt sorting user db fn) ↔
      (db.functions.countP fun f => decide (f.ownerId = user) && decide (fn.createdAt ≤ f.createdAt)) ≤ 20 := by
  have hmem : fn ∈ functionsOf user db := List.mem_filter.mpr ⟨hfn, decide_eq_true howner⟩
  rw [← shown_iff (names_nodup hnames) hmem]
  refine forall_congr' fun sorting => ?_
  have hfound : (findFunction parseInt sorting user fn.name).run.run db = (.ok (some (withVersions db fn)), db) ↔
      fn ∈ (sorting.sort (functionsOf user db)).take 20 := findFunction_found (names_nodup hnames) hmem
  rw [← hfound]
  exact ⟨Finds.found, finds_of_found⟩

def manyFunctions (count : ℕ) : Database :=
  { empty with functions := (List.range count).map fun i =>
    ⟨i, 7, List.replicate (i + 1) 'f', none, "python3.12".toList, .active, none, none, 0, .obj [], i, i⟩ }

def oldestFunction : Function := ⟨0, 7, ['f'], none, "python3.12".toList, .active, none, none, 0, .obj [], 0, 0⟩

theorem findFunction_finds_sample :
    Finds (fun _ => none) (newestSorting _) 7 (manyFunctions 20) oldestFunction := by
  have hnames : ((manyFunctions 20).functions.map fun f => (f.ownerId, f.name)).Nodup := by decide
  have hfn : oldestFunction ∈ (manyFunctions 20).functions := by decide
  exact (findFunction_finds_iff hnames hfn rfl).mpr (by decide) _

theorem findFunction_misses :
    ¬ ∀ sorting, Finds (fun _ => none) sorting 7 (manyFunctions 21) oldestFunction := by
  intro h
  have hnames : ((manyFunctions 21).functions.map fun f => (f.ownerId, f.name)).Nodup := by decide
  have hfn : oldestFunction ∈ functionsOf 7 (manyFunctions 21) := by decide
  have hshown := (shown_iff (names_nodup hnames) hfn).mp fun sorting =>
    (findFunction_found (names_nodup hnames) hfn).mp (h sorting).found
  exact absurd hshown (by decide)

end PyFaaS.CommandLine
