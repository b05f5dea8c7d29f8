import Mathlib.Order.OrderDual
import PyFaaS.Ownership
import PyFaaS.Routers.Executions
import PyFaaS.SortedPages

/-!
# Pages of the executions

`list_executions` builds two statements side by side, one for the rows of a page and
one for the total. The rows are in the order of `created_at` alone, so that the
database may list executions of one instant in any order. One row that the response
model does not take costs the answer for its page.
-/

namespace PyFaaS.Api
open Database SortedPages
variable {user : Uuid} {filter : ExecutionFilter} {db : Database} {size : ℕ}

abbrev Clause := Execution × Option Function → Bool

structure Select where
  clauses : List Clause

namespace Select

def both (s : Select) (clause : Clause) : Select := ⟨s.clauses ++ [clause]⟩

def rows (s : Select) (db : Database) : List Execution :=
  let joined := Table.outerJoin (fun e f => decide (e.functionId = some f.id)) db.executions db.functions
  (joined.filter fun row => s.clauses.all fun clause => clause row).map Prod.fst

end Select

def ownerClause (user : Uuid) : Clause := fun row =>
  (row.2.any fun f => decide (f.ownerId = user)) || decide (row.1.triggeredBy = some user)

def ofKinds (kinds : List Text) (kind : FailureKind) : Bool :=
  kinds.any fun text => decide (text = failureKindText kind)

def executionSelects (user : Uuid) (filter : ExecutionFilter) : Select × Select := Id.run do
  let mut base : Select := ⟨[ownerClause user]⟩
  let mut countBase : Select := ⟨[ownerClause user]⟩
  if let some functionId := filter.functionId then
    base := base.both fun row => decide (row.1.functionId = some functionId)
    countBase := countBase.both fun row => decide (row.1.functionId = some functionId)
  if let some status := filter.status then
    base := base.both fun row => decide (row.1.status = status)
    countBase := countBase.both fun row => decide (row.1.status = status)
  if let some failureKind := filter.failureKind then
    if !failureKind.isEmpty then
      let kinds := ((failureKind.splitOn ',').map strip).filter fun kind => !kind.isEmpty
      if !kinds.isEmpty then
        base := base.both fun row => row.1.failureKind.any (ofKinds kinds)
        countBase := countBase.both fun row => row.1.failureKind.any (ofKinds kinds)
  if let some source := filter.source then
    base := base.both fun row => decide (row.1.executionType = source)
    countBase := countBase.both fun row => decide (row.1.executionType = source)
  return (base, countBase)

def newest {ρ : Type} (createdAt : ρ → Time) (row : ρ) : Timeᵒᵈ := OrderDual.toDual (createdAt row)

abbrev CreatedOrder {ρ : Type} (createdAt : ρ → Time) := Sorting (newest createdAt)

def paginationParams (page pageSize : ℕ) : Page := ⟨(page - 1) * pageSize, pageSize⟩

/-- `list_executions`, where the database lists the rows in an order of its choice. -/
def listExecutionsIn (sorting : CreatedOrder Execution.createdAt) (user : Uuid) (p : Page) (filter : ExecutionFilter)
    (db : Database) : Except HttpError Response :=
  let (base, countBase) := executionSelects user filter
  let total := (countBase.rows db).length
  let executions := p.take (sorting.sort (base.rows db))
  match executions.mapM ExecutionResponse.modelValidate with
  | some items => .ok (.executionList items total p.number p.limit)
  | none => .error .internal

/-! ## The two statements -/

def matching (user : Uuid) (filter : ExecutionFilter) (db : Database) : List Execution :=
  db.executions.filter fun e => executionOwnerClause user db e && filter.accepts e

theorem strip_nil : strip [] = [] := rfl

theorem ofKinds_eq (kinds : List Text) (kind : FailureKind) :
    ofKinds kinds kind = decide (failureKindText kind ∈ kinds) := by
  rw [Bool.eq_iff_iff, ofKinds, List.any_eq_true, decide_eq_true_eq]
  simp only [decide_eq_true_eq, exists_eq_right]

theorem executionSelects_eq (user : Uuid) (filter : ExecutionFilter) : ∃ s, executionSelects user filter = (s, s) ∧
    ∀ row, (s.clauses.all fun clause => clause row) = (ownerClause user row && filter.accepts row.1) := by
  obtain ⟨functionId, status, failureKind, source⟩ := filter
  cases functionId <;> cases status <;> cases source <;> cases failureKind with
  | none =>
    refine ⟨_, rfl, fun row => ?_⟩
    simp [Select.both, ExecutionFilter.accepts, ExecutionFilter.kinds, Bool.and_assoc]
  | some text =>
    cases text with
    | nil =>
      refine ⟨_, rfl, fun row => ?_⟩
      simp [Select.both, ExecutionFilter.accepts, ExecutionFilter.kinds, strip_nil, Bool.and_assoc]
    | cons c text =>
      cases hkinds : ((((c :: text).splitOn ',').map strip).filter fun kind => !kind.isEmpty) with
      | nil =>
        refine ⟨_, by simp only [executionSelects, hkinds]; rfl, fun row => ?_⟩
        simp [Select.both, ExecutionFilter.accepts, ExecutionFilter.kinds, hkinds, Bool.and_assoc]
      | cons kind kinds =>
        refine ⟨_, by simp only [executionSelects, hkinds]; rfl, fun row => ?_⟩
        have hclause : ofKinds (kind :: kinds) = fun failure => decide (failureKindText failure ∈ kind :: kinds) :=
          funext (ofKinds_eq _)
        simp [Select.both, ExecutionFilter.accepts, ExecutionFilter.kinds, hkinds, hclause, Bool.and_assoc]

theorem joined_le_one (h : (db.functions.map Function.id).Nodup) (e : Execution) :
    (db.functions.filter fun f => decide (e.functionId = some f.id)).length ≤ 1 := by
  have hdistinct : ((db.functions.filter fun f => decide (e.functionId = some f.id)).map Function.id).Nodup :=
    h.sublist (List.filter_sublist.map Function.id)
  have hjoined : ∀ f ∈ db.functions.filter fun f => decide (e.functionId = some f.id), e.functionId = some f.id :=
    fun f hf => of_decide_eq_true (List.mem_filter.mp hf).2
  cases hfound : db.functions.filter fun f => decide (e.functionId = some f.id) with
  | nil => simp
  | cons f found =>
    cases found with
    | nil => simp
    | cons f' found =>
      rw [hfound] at hdistinct hjoined
      have hid : some f.id = some f'.id := (hjoined f (by simp)).symm.trans (hjoined f' (by simp))
      simp [Option.some.inj hid] at hdistinct

theorem ownerClause_find? (h : (db.functions.map Function.id).Nodup) (e : Execution) :
    ownerClause user (e, db.functions.find? fun f => decide (e.functionId = some f.id)) =
      executionOwnerClause user db e := by
  have howns : ((db.functions.find? fun f => decide (e.functionId = some f.id)).any
      fun f => decide (f.ownerId = user)) = e.functionId.any (db.ownsFunction user) := by
    rw [Bool.eq_iff_iff, Option.any_eq_true, Option.any_eq_true]
    constructor
    · intro ⟨f, hfound, howner⟩
      have hid := List.find?_some hfound
      refine ⟨f.id, of_decide_eq_true hid, ?_⟩
      exact ownsFunction_iff.mpr ⟨f, List.mem_of_find?_eq_some hfound, rfl, of_decide_eq_true howner⟩
    · intro ⟨functionId, hid, howns⟩
      obtain ⟨f, hf, rfl, howner⟩ := ownsFunction_iff.mp howns
      refine ⟨f, ?_, decide_eq_true howner⟩
      have hmem : f ∈ db.functions.filter fun f => decide (e.functionId = some f.id) :=
        List.mem_filter.mpr ⟨hf, decide_eq_true hid⟩
      obtain ⟨g, hg⟩ := List.length_eq_one_iff.mp
        (Nat.le_antisymm (joined_le_one h e) (List.length_pos_of_mem hmem))
      have hfg : f = g := List.mem_singleton.mp (hg ▸ hmem)
      rw [← List.head?_filter, hg, hfg]
      rfl
  rw [ownerClause, executionOwnerClause, howns]

theorem rows_eq (h : (db.functions.map Function.id).Nodup) {s : Select}
    (hs : ∀ row, (s.clauses.all fun clause => clause row) = (ownerClause user row && filter.accepts row.1)) :
    s.rows db = matching user filter db := by
  have hjoin : Table.outerJoin (fun e f => decide (e.functionId = some f.id)) db.executions db.functions =
      db.executions.map fun e => (e, db.functions.find? fun f => decide (e.functionId = some f.id)) :=
    Table.outerJoin_eq_map fun e _ => joined_le_one h e
  rw [Select.rows, hjoin, List.filter_map, List.map_map]
  have hid : (Prod.fst ∘ fun e : Execution =>
      (e, db.functions.find? fun f => decide (e.functionId = some f.id))) = id := rfl
  rw [hid, List.map_id, matching]
  refine List.filter_congr fun e _ => ?_
  rw [Function.comp_apply, hs, ownerClause_find? h]

/-! ## The answer for a page -/

theorem modelValidate_all (rows : List Execution) : rows.mapM ExecutionResponse.modelValidate =
    if ∀ e ∈ rows, ExecutionResponse.takes e then some (rows.map ExecutionResponse.ofRow) else none := by
  induction rows with
  | nil => rfl
  | cons e rows ih =>
    rw [List.mapM_cons, ih, ExecutionResponse.modelValidate]
    simp only [List.forall_mem_cons]
    by_cases he : ExecutionResponse.takes e = true
    · rw [if_pos he]
      by_cases hrows : ∀ e ∈ rows, ExecutionResponse.takes e = true
      · rw [if_pos hrows, if_pos ⟨he, hrows⟩]
        rfl
      · rw [if_neg hrows, if_neg fun h : _ ∧ _ => hrows h.2]
        rfl
    · rw [if_neg he, if_neg fun h : _ ∧ _ => he h.1]
      rfl

def answerFor (rows : List Execution) (total : ℕ) (p : Page) : Except HttpError Response :=
  if ∀ e ∈ rows, ExecutionResponse.takes e then
    .ok (.executionList (rows.map ExecutionResponse.ofRow) total p.number p.limit)
  else .error .internal

theorem listExecutionsIn_eq (h : (db.functions.map Function.id).Nodup)
    (sorting : CreatedOrder Execution.createdAt) (p : Page) : listExecutionsIn sorting user p filter db =
      answerFor (p.take (sorting.sort (matching user filter db))) (matching user filter db).length p := by
  obtain ⟨s, hs, hclauses⟩ := executionSelects_eq user filter
  simp only [listExecutionsIn, hs, rows_eq h hclauses, modelValidate_all, answerFor]
  split_ifs <;> rfl

def newestSorting {ρ : Type} (createdAt : ρ → Time) : CreatedOrder createdAt where
  sort := newestFirst createdAt
  listing rows := by
    refine ⟨List.mergeSort_perm rows _, ?_⟩
    have hsorted : (newestFirst createdAt rows).Pairwise fun a b => decide (createdAt b ≤ createdAt a) = true := by
      apply List.pairwise_mergeSort
      · intro a b c hab hbc
        exact decide_eq_true (le_trans (of_decide_eq_true hbc) (of_decide_eq_true hab))
      · intro a b
        rw [Bool.or_eq_true, decide_eq_true_iff, decide_eq_true_iff]
        exact le_total _ _
    exact hsorted.imp of_decide_eq_true

theorem listExecutions_eq (h : (db.functions.map Function.id).Nodup) (p : Page) :
    (listExecutions user p filter).run db =
      (listExecutionsIn (newestSorting _) user p filter db).map fun answer => (answer, db) := by
  rw [listExecutionsIn_eq h, StateT.run, listExecutions, Transactions.query_bind, modelValidate_all]
  change _ = Except.map _ (answerFor (p.take (newestFirst Execution.createdAt (matching user filter db))) _ p)
  rw [answerFor, matching]
  split_ifs <;> rfl

/-! ## Pages -/

/-- Executions of one instant stand on both sides of the boundary in front of position `k`. -/
def Tied (rows : List Execution) (k : ℕ) : Prop :=
  ∃ t : Time, (rows.countP fun e => decide (t < e.createdAt)) < k ∧
    k < rows.countP fun e => decide (t ≤ e.createdAt)

theorem tied_iff {rows : List Execution} {k : ℕ} :
    Tied rows k ↔ Straddles (newest Execution.createdAt) rows k := Iff.rfl

def pageCount (total size : ℕ) : ℕ := (total + size - 1) / size

/-- The answers for the pages `1`, `2`, … report the page and the total, and list the
rows once. -/
def Partitions (rows : List Execution) (size : ℕ) (answer : ℕ → Except HttpError Response) : Prop :=
  ∃ items : ℕ → List ExecutionResponse,
    (∀ i < pageCount rows.length size, answer (i + 1) = .ok (.executionList (items i) rows.length (i + 1) size)) ∧
    ((List.range (pageCount rows.length size)).flatMap items).Perm (rows.map ExecutionResponse.ofRow)

theorem le_pageCount_mul {total : ℕ} (hsize : 1 ≤ size) : total ≤ pageCount total size * size := by
  have hdiv := Nat.div_add_mod (total + size - 1) size
  have hmod := Nat.mod_lt (total + size - 1) hsize
  rw [Nat.mul_comm] at hdiv
  rw [pageCount]
  omega

theorem number_paginationParams (hsize : 1 ≤ size) (i : ℕ) : (paginationParams (i + 1) size).number = i + 1 := by
  rw [Page.number, paginationParams, Nat.add_sub_cancel, Nat.mul_div_cancel i hsize]

theorem listExecutionsIn_page (hfunctions : (db.functions.map Function.id).Nodup)
    (sorting : CreatedOrder Execution.createdAt) (i : ℕ) :
    listExecutionsIn sorting user (paginationParams (i + 1) size) filter db =
      answerFor (page size i (sorting.sort (matching user filter db))) (matching user filter db).length
        (paginationParams (i + 1) size) := by
  rw [listExecutionsIn_eq hfunctions]
  simp only [page, Page.take, paginationParams, Nat.add_sub_cancel]

theorem answerFor_ok {rows : List Execution} {total number limit : ℕ} {p : Page} {items : List ExecutionResponse}
    (h : answerFor rows total p = .ok (.executionList items total number limit)) :
    (∀ e ∈ rows, ExecutionResponse.takes e) ∧ items = rows.map ExecutionResponse.ofRow := by
  unfold answerFor at h
  split_ifs at h with htakes
  injection h with hanswer
  injection hanswer with hitems
  exact ⟨htakes, hitems.symm⟩

theorem partitions_of_untied (hfunctions : (db.functions.map Function.id).Nodup) (hsize : 1 ≤ size)
    (htakes : ∀ e ∈ matching user filter db, ExecutionResponse.takes e)
    (h : ∀ k, ¬ Tied (matching user filter db) (k * size)) (sortings : ℕ → CreatedOrder Execution.createdAt) :
    Partitions (matching user filter db) size fun page =>
      listExecutionsIn (sortings page) user (paginationParams page size) filter db := by
  refine ⟨fun i => (page size i ((sortings (i + 1)).sort (matching user filter db))).map ExecutionResponse.ofRow,
    fun i _ => ?_, ?_⟩
  · have hpage : ∀ e ∈ page size i ((sortings (i + 1)).sort (matching user filter db)), ExecutionResponse.takes e := by
      intro e he
      have hlisted := List.mem_of_mem_drop (List.mem_of_mem_take he)
      exact htakes e (((sortings (i + 1)).listing _).perm.mem_iff.mp hlisted)
    change listExecutionsIn (sortings (i + 1)) user (paginationParams (i + 1) size) filter db = _
    rw [listExecutionsIn_page hfunctions, answerFor, if_pos hpage, number_paginationParams hsize]
    rfl
  · rw [← List.map_flatMap]
    refine List.Perm.map _ ?_
    exact pages_perm (fun i => (sortings (i + 1)).listing (matching user filter db)) h (le_pageCount_mul hsize)

theorem takes_of_partitions (hfunctions : (db.functions.map Function.id).Nodup) (hsize : 1 ≤ size)
    (sorting : CreatedOrder Execution.createdAt)
    (h : Partitions (matching user filter db) size fun page =>
      listExecutionsIn sorting user (paginationParams page size) filter db) :
    ∀ e ∈ matching user filter db, ExecutionResponse.takes e := by
  obtain ⟨items, hreported, -⟩ := h
  intro e he
  have hlisting := (sorting.listing (matching user filter db)).perm
  have hall : e ∈ (List.range (pageCount (matching user filter db).length size)).flatMap fun i =>
      page size i (sorting.sort (matching user filter db)) := by
    rw [flatMap_page, List.take_of_length_le (hlisting.length_eq ▸ le_pageCount_mul hsize)]
    exact hlisting.mem_iff.mpr he
  obtain ⟨i, hi, hpage⟩ := List.mem_flatMap.mp hall
  have hanswer : listExecutionsIn sorting user (paginationParams (i + 1) size) filter db = _ :=
    hreported i (List.mem_range.mp hi)
  rw [listExecutionsIn_page hfunctions] at hanswer
  exact (answerFor_ok hanswer).1 e hpage

theorem matching_nodup (hexecutions : (db.executions.map Execution.id).Nodup) :
    ((matching user filter db).map Execution.id).Nodup :=
  hexecutions.sublist (List.filter_sublist.map Execution.id)

theorem exists_repeating (hfunctions : (db.functions.map Function.id).Nodup)
    (hexecutions : (db.executions.map Execution.id).Nodup) (hsize : 1 ≤ size) {k : ℕ}
    (h : Tied (matching user filter db) (k * size)) :
    ∃ sortings : ℕ → CreatedOrder Execution.createdAt, ¬ Partitions (matching user filter db) size fun page =>
      listExecutionsIn (sortings page) user (paginationParams page size) filter db := by
  obtain ⟨answers, hanswers, hrepeated⟩ := exists_repeated hsize (tied_iff.mp h) (le_pageCount_mul hsize)
  choose sortings hsortings using fun i => (hanswers i).exists_sorting
  refine ⟨fun page => sortings (page - 1), fun ⟨items, hreported, honce⟩ => hrepeated ?_⟩
  have hitems : ∀ i ∈ List.range (pageCount (matching user filter db).length size),
      items i = (page size i (answers i)).map ExecutionResponse.ofRow := by
    intro i hi
    have hanswer : listExecutionsIn (sortings i) user (paginationParams (i + 1) size) filter db = _ :=
      hreported i (List.mem_range.mp hi)
    rw [listExecutionsIn_page hfunctions, hsortings] at hanswer
    exact (answerFor_ok hanswer).2
  rw [List.flatMap_congr hitems, ← List.map_flatMap] at honce
  have hids := honce.map ExecutionResponse.id
  rw [List.map_map, List.map_map] at hids
  exact List.Nodup.of_map _ (hids.nodup_iff.mpr (matching_nodup hexecutions))

/-- The pages list every matching execution once, in whichever order the database
answers each request, exactly if the response model takes every matching execution and no
page ends between executions of one instant. -/
theorem listExecutions_partitions_iff (hfunctions : (db.functions.map Function.id).Nodup)
    (hexecutions : (db.executions.map Execution.id).Nodup) (hsize : 1 ≤ size) :
    (∀ sortings : ℕ → CreatedOrder Execution.createdAt, Partitions (matching user filter db) size fun page =>
      listExecutionsIn (sortings page) user (paginationParams page size) filter db) ↔
    (∀ e ∈ matching user filter db, ExecutionResponse.takes e) ∧
      ∀ k, ¬ Tied (matching user filter db) (k * size) := by
  constructor
  · intro h
    refine ⟨takes_of_partitions hfunctions hsize (newestSorting _) (h fun _ => newestSorting _), fun k htied => ?_⟩
    obtain ⟨sortings, hnot⟩ := exists_repeating hfunctions hexecutions hsize htied
    exact hnot (h sortings)
  · rintro ⟨htakes, huntied⟩
    exact partitions_of_untied hfunctions hsize htakes huntied

def everything : ExecutionFilter := ⟨none, none, none, none⟩

def twoExecutions (createdAt : Time) (result : Json) : Database :=
  { empty with executions := [{ sampleRequest.row with createdAt := 50, result := some result },
    { sampleRequest.row with id := 2, createdAt := createdAt }] }

def dictResult : Json := .obj [("return_value".toList, .int 1)]

theorem listExecutions_partitions_sample :
    Partitions (matching 7 everything (twoExecutions 60 dictResult)) 1 fun page =>
      listExecutionsIn (newestSorting _) 7 (paginationParams page 1) everything (twoExecutions 60 dictResult) := by
  refine (listExecutions_partitions_iff (by decide) (by decide) le_rfl).mpr ⟨by decide, fun k htied => ?_⟩ fun _ =>
    newestSorting _
  exact not_straddles_of_nodup (by decide) _ (tied_iff.mp htied)

theorem listExecutions_repeats : ¬ ∀ sortings : ℕ → CreatedOrder Execution.createdAt,
    Partitions (matching 7 everything (twoExecutions 50 dictResult)) 1 fun page =>
      listExecutionsIn (sortings page) 7 (paginationParams page 1) everything (twoExecutions 50 dictResult) := by
  intro h
  have htied : Tied (matching 7 everything (twoExecutions 50 dictResult)) (1 * 1) := ⟨50, by decide, by decide⟩
  obtain ⟨sortings, hnot⟩ := exists_repeating (by decide) (by decide) le_rfl htied
  exact hnot (h sortings)

/-! A handler that has printed a list as its result costs its page. -/

example : ¬ Partitions (matching 7 everything (twoExecutions 60 (.arr [.int 1]))) 20 fun page =>
    listExecutionsIn (newestSorting _) 7 (paginationParams page 20) everything (twoExecutions 60 (.arr [.int 1])) :=
  fun h => absurd (takes_of_partitions (by decide) (by decide) (newestSorting _) h) (by decide)

end PyFaaS.Api
