import PyFaaS.Submissions
import PyFaaS.TenantIsolation

/-!
# The fields of a cron expression

The schemas of `create_schedule` and `update_schedule` both ask croniter, and only
the first one counts the fields. Which expressions croniter accepts is left open.
-/

namespace PyFaaS.CronFields
open Api Database Transactions Submissions
open Runs (Along Throughout)

/-! ## The two validators -/

def parts (v : Text) : List Text := ((strip v).splitOnP isSpace).filter fun part => !part.isEmpty

def cronParts : ℕ := 5

/-- `croniter(v)` answers with the error that it raises. -/
abbrev Croniter := Text → Except Text Unit

def parse (croniter : Croniter) (v : Text) : Except Text Text :=
  match croniter v with
  | .error exc => .error ("Invalid cron expression: ".toList ++ exc)
  | .ok () => .ok v

def validateCron (croniter : Croniter) (v : Text) : Except Text Text := do
  let v ← parse croniter v
  if (parts v).length ≠ cronParts then
    .error "Cron expression must have exactly 5 parts".toList
  else .ok v

def validateCronUpdate (croniter : Croniter) : Option Text → Except Text (Option Text)
  | none => .ok none
  | some v => (parse croniter v).map some

def FivePart (v : Text) : Prop := (parts v).length = cronParts

instance (v : Text) : Decidable (FivePart v) := inferInstanceAs (Decidable (_ = _))

section
variable {croniter : Croniter} {v : Text}

theorem parse_toBool : (parse croniter v).toBool = (croniter v).toBool := by
  unfold parse
  cases croniter v <;> rfl

theorem validateCron_toBool :
    (validateCron croniter v).toBool = true ↔ (croniter v).toBool = true ∧ FivePart v := by
  unfold validateCron parse FivePart
  cases croniter v with
  | error exc => simp [bind, Except.bind, Except.toBool]
  | ok _ =>
    by_cases hfive : (parts v).length = cronParts
    · simp [bind, Except.bind, Except.toBool, hfive]
    · simp [bind, Except.bind, Except.toBool, hfive]

theorem validateCronUpdate_toBool : (validateCronUpdate croniter (some v)).toBool = (croniter v).toBool := by
  have hparse : (parse croniter v).toBool = (croniter v).toBool := parse_toBool
  rw [← hparse, validateCronUpdate]
  cases parse croniter v with
  | error exc => rfl
  | ok v => rfl

end

/-! ## Requests -/

inductive ScheduleRequest where
  | create (functionId : Uuid) (body : ScheduleCreate)
  | update (scheduleId : Uuid) (body : ScheduleUpdate)

def ScheduleRequest.route : ScheduleRequest → UserRequest
  | .create functionId body => .createSchedule functionId body
  | .update scheduleId body => .updateSchedule scheduleId body

def validName (name : Text) : Bool := decide (1 ≤ name.length) && decide (name.length ≤ 128)

def ScheduleRequest.accepted (croniter : Croniter) : ScheduleRequest → Bool
  | .create _ body => validName body.name && (validateCron croniter body.cronExpression).toBool && body.payload.isDict
  | .update _ body => body.name.all validName && (validateCronUpdate croniter body.cronExpression).toBool &&
      body.payload.all Json.isDict

section
variable (croniter : Croniter) (settings : ApiSettings)

/-- A body that its schema rejects does not get to the route. -/
def next (db : Database) (c : Call ScheduleRequest) : Database :=
  if c.request.accepted croniter then after settings ScheduleRequest.route db c else db

def FiveFields (db : Database) : Prop := ∀ row ∈ db.schedules, FivePart row.cronExpression

/-- An accepted update that finds a schedule of its user brings in five parts, if it
brings in an expression with a next run. -/
def KeepsFive (db : Database) (c : Call ScheduleRequest) : Prop :=
  match c.request with
  | .create _ _ => True
  | .update scheduleId body => c.request.accepted croniter = true →
      (∃ row ∈ db.schedules, row.id = scheduleId ∧ row.ownerId = c.user) →
        ∀ cron, body.cronExpression = some cron → (settings.nextRun cron c.given.now).isSome = true → FivePart cron

end

variable {croniter : Croniter} {settings : ApiSettings} {db t : Database} {u : Uuid} {g : Given}

/-! ## Steps -/

theorem touchSchedule_cron (now : Time) (edit : Schedule → Schedule) (row : Schedule) :
    (touchSchedule now edit row).cronExpression = (edit row).cronExpression := by
  unfold touchSchedule
  split_ifs with h
  · rw [h]
  · rfl

theorem findScheduleOr404_ok {scheduleId : Uuid} {row : Schedule}
    (h : findScheduleOr404 u scheduleId db = .ok (row, t)) :
    db = t ∧ row ∈ db.schedules ∧ row.id = scheduleId ∧ row.ownerId = u := by
  simp only [findScheduleOr404, query_bind, found_ok] at h
  obtain ⟨row', hfind, hret⟩ := h
  obtain ⟨rfl, rfl⟩ := Prod.mk.inj hret
  have hprop := List.find?_some hfind
  simp only [Bool.and_eq_true, decide_eq_true_eq] at hprop
  exact ⟨rfl, List.mem_of_find?_eq_some hfind, hprop.1, hprop.2⟩

theorem updateSchedule_ok {scheduleId : Uuid} {body : ScheduleUpdate} {a : Response}
    (h : Api.updateSchedule settings u g scheduleId body db = .ok (a, t)) :
    (∃ row ∈ db.schedules, row.id = scheduleId ∧ row.ownerId = u) ∧
      ∃ next, body.nextRun settings g = some next ∧
        t = Database.updateSchedule scheduleId (touchSchedule g.now (body.edit next)) db := by
  obtain ⟨row, s', hfind, hrest⟩ := bind_ok.mp h
  obtain ⟨rfl, hrow, hid, howner⟩ := findScheduleOr404_ok hfind
  obtain ⟨next, hnext, hrest⟩ := found_bind_ok.mp hrest
  rw [write_bind] at hrest
  obtain ⟨-, rfl⟩ := Prod.mk.inj (return_ok.mp hrest)
  rw [hid]
  exact ⟨⟨row, hrow, hid, howner⟩, next, hnext, rfl⟩

theorem nextRun_of_edit {body : ScheduleUpdate} {cron : Text} {next : Option Time}
    (hcron : body.cronExpression = some cron) (hnext : body.nextRun settings g = some next) :
    (settings.nextRun cron g.now).isSome = true := by
  simp only [ScheduleUpdate.nextRun, hcron, Option.map_eq_some_iff] at hnext
  obtain ⟨at', hrun, -⟩ := hnext
  rw [hrun]
  rfl

theorem updateSchedule_runs {scheduleId : Uuid} {body : ScheduleUpdate} {row : Schedule}
    (hrow : row ∈ db.schedules) (hid : row.id = scheduleId) (howner : row.ownerId = u) {next : Option Time}
    (hnext : body.nextRun settings g = some next) :
    ∃ a t, Api.updateSchedule settings u g scheduleId body db = .ok (a, t) := by
  have hsome : (db.schedules.find? fun r => decide (r.id = scheduleId) && decide (r.ownerId = u)).isSome := by
    apply List.find?_isSome.mpr
    exact ⟨row, hrow, by simp [hid, howner]⟩
  obtain ⟨row', hfind⟩ := Option.isSome_iff_exists.mp hsome
  refine ⟨_, _, bind_ok.mpr ⟨row', db, ?_, found_bind_ok.mpr ⟨next, hnext, rfl⟩⟩⟩
  rw [findScheduleOr404, query_bind, hfind]
  rfl

theorem create_fiveFields {functionId : Uuid} {body : ScheduleCreate} (hdb : FiveFields db) :
    FiveFields (next croniter settings db ⟨u, .create functionId body, g⟩) := by
  unfold next
  split_ifs with haccepted
  · refine after_keeps hdb fun p hrun => ?_
    have hrun : Api.createSchedule settings u g functionId body db = .ok p := hrun
    obtain ⟨next, -, hinserts⟩ := createSchedule_inserts hrun
    rw [hinserts]
    intro row hrow
    rcases List.mem_append.mp hrow with hrow | hrow
    · exact hdb row hrow
    · obtain rfl := List.mem_singleton.mp hrow
      simp only [ScheduleRequest.accepted, Bool.and_eq_true] at haccepted
      exact (validateCron_toBool.mp haccepted.1.2).2
  · exact hdb

theorem fiveFields_updateSchedule (hdb : FiveFields db) {scheduleId : Uuid} {body : ScheduleUpdate} {next : Option Time}
    (hexists : ∃ row ∈ db.schedules, row.id = scheduleId ∧ row.ownerId = u) :
    FiveFields (Database.updateSchedule scheduleId (touchSchedule g.now (body.edit next)) db) ↔
      ∀ cron, body.cronExpression = some cron → FivePart cron := by
  have hcron : ∀ row : Schedule, (touchSchedule g.now (body.edit next) row).cronExpression =
      body.cronExpression.getD row.cronExpression := fun row => touchSchedule_cron _ _ row
  constructor
  · intro hfive cron hbody
    obtain ⟨row, hrow, hid, -⟩ := hexists
    have hkept := hfive _ (List.mem_map.mpr ⟨row, hrow, if_pos hid⟩)
    rwa [hcron, hbody, Option.getD_some] at hkept
  · intro hbody row' hrow'
    rcases Table.mem_modify hrow' with ⟨hrow', -⟩ | ⟨row, hrow, -, rfl⟩
    · exact hdb row' hrow'
    · rw [hcron]
      cases hnew : body.cronExpression with
      | none => exact hdb row hrow
      | some cron => exact hbody cron hnew

/-- An update without a next run is rolled back. -/
theorem update_found_iff {scheduleId : Uuid} {body : ScheduleUpdate} (hdb : FiveFields db)
    (hexists : ∃ row ∈ db.schedules, row.id = scheduleId ∧ row.ownerId = u) :
    FiveFields (after settings ScheduleRequest.route db ⟨u, .update scheduleId body, g⟩) ↔
      ∀ cron, body.cronExpression = some cron → (settings.nextRun cron g.now).isSome = true → FivePart cron := by
  cases hnext : body.nextRun settings g with
  | some next =>
    obtain ⟨row, hrow, hid, howner⟩ := id hexists
    obtain ⟨a, t, hrun⟩ : ∃ a t, Api.updateSchedule settings u g scheduleId body db = .ok (a, t) :=
      updateSchedule_runs hrow hid howner hnext
    obtain ⟨-, next', -, rfl⟩ := updateSchedule_ok hrun
    have hafter : after settings ScheduleRequest.route db ⟨u, .update scheduleId body, g⟩ = _ := perform_of_ok hrun
    rw [hafter, fiveFields_updateSchedule hdb hexists]
    exact forall₂_congr fun cron hcron => (imp_iff_right (nextRun_of_edit hcron hnext)).symm
  | none =>
    refine iff_of_true (after_keeps hdb fun p hrun => ?_) fun cron hcron hsome => ?_
    · obtain ⟨-, next, hsome, -⟩ := updateSchedule_ok hrun
      rw [hnext] at hsome
      cases hsome
    · simp only [ScheduleUpdate.nextRun, hcron, Option.map_eq_none_iff] at hnext
      rw [hnext] at hsome
      cases hsome

theorem update_fiveFields_iff {scheduleId : Uuid} {body : ScheduleUpdate} (hdb : FiveFields db) :
    FiveFields (next croniter settings db ⟨u, .update scheduleId body, g⟩) ↔
      KeepsFive croniter settings db ⟨u, .update scheduleId body, g⟩ := by
  unfold next KeepsFive
  split_ifs with haccepted
  · by_cases hexists : ∃ row ∈ db.schedules, row.id = scheduleId ∧ row.ownerId = u
    · refine (update_found_iff hdb hexists).trans ⟨fun hbody _ _ => hbody, fun hbody => hbody haccepted hexists⟩
    · have hkept : FiveFields (after settings ScheduleRequest.route db ⟨u, .update scheduleId body, g⟩) := by
        refine after_keeps hdb fun p hrun => ?_
        exact absurd (updateSchedule_ok hrun).1 hexists
      exact iff_of_true hkept fun _ h => absurd h hexists
  · exact iff_of_true hdb fun h => absurd h haccepted

theorem next_fiveFields_iff {c : Call ScheduleRequest} (hdb : FiveFields db) :
    FiveFields (next croniter settings db c) ↔ KeepsFive croniter settings db c := by
  obtain ⟨u, request, g⟩ := c
  cases request with
  | create functionId body => exact iff_of_true (create_fiveFields hdb) trivial
  | update scheduleId body => exact update_fiveFields_iff hdb

/-- All schedules have five fields in every state of a sequence of requests exactly if
every accepted update of a schedule that is there brings in five parts or an
expression without a next run. The validators
agree on an expression exactly if croniter does not accept it with another number. -/
theorem five_fields_throughout_iff {calls : List (Call ScheduleRequest)} (hdb : FiveFields db) :
    (Throughout (next croniter settings) FiveFields db calls ↔
      Along (next croniter settings) (KeepsFive croniter settings) db calls) ∧
    ∀ v, ((validateCron croniter v).toBool = (validateCronUpdate croniter (some v)).toBool ↔
      ((croniter v).toBool = true → FivePart v)) := by
  constructor
  · apply Runs.throughout_iff (J := fun _ => True) (H := fun _ _ => True)
    · exact fun _ _ _ _ => trivial
    · exact fun _ _ _ _ hfive => next_fiveFields_iff hfive
    · exact Along.of_true calls
    · trivial
    · exact hdb
  · intro v
    rw [validateCronUpdate_toBool, Bool.eq_iff_iff, validateCron_toBool]
    constructor
    · exact fun h haccepts => (h.mpr haccepts).2
    · exact fun h => ⟨And.left, fun haccepts => ⟨haccepts, h haccepts⟩⟩

/-! A schedule of one function that is updated once, with croniter accepting any text. -/

def acceptsAll : Croniter := fun _ => .ok ()

def sampleCreated : Call ScheduleRequest :=
  ⟨8, .create 1 ⟨"hourly".toList, "0 * * * *".toList, .obj []⟩, sampleGiven 3⟩

def sampleUpdated (cron : String) : Call ScheduleRequest :=
  ⟨8, .update 3 ⟨none, some cron.toList, none, none⟩, sampleGiven 4⟩

theorem sampleDatabase_fiveFields : FiveFields sampleDatabase := by
  have hnone : sampleDatabase.schedules = [] := by rfl
  intro row hrow
  rw [hnone] at hrow
  cases hrow

theorem five_fields_throughout_sample :
    Throughout (next acceptsAll sampleSettings) FiveFields sampleDatabase
      [sampleCreated, sampleUpdated "30 6 * * 1"] := by
  refine (five_fields_throughout_iff sampleDatabase_fiveFields).1.mpr ⟨trivial, ?_, trivial⟩
  intro _ _ cron hcron _
  obtain rfl := Option.some.inj hcron
  decide

/-- A schedule is updated to an alias of croniter. -/
theorem five_fields_alias : ¬ ∀ (croniter : Croniter) (settings : ApiSettings) (db : Database)
    (calls : List (Call ScheduleRequest)), FiveFields db →
      Throughout (next croniter settings) FiveFields db calls := by
  intro hclaim
  have hfive : FiveFields (next acceptsAll sampleSettings (next acceptsAll sampleSettings sampleDatabase sampleCreated)
      (sampleUpdated "@hourly")) :=
    (hclaim acceptsAll sampleSettings sampleDatabase [sampleCreated, sampleUpdated "@hourly"]
      sampleDatabase_fiveFields).2.2
  have hrow : ∃ row ∈ (next acceptsAll sampleSettings (next acceptsAll sampleSettings sampleDatabase sampleCreated)
      (sampleUpdated "@hourly")).schedules, row.cronExpression = "@hourly".toList := by decide
  obtain ⟨row, hrow, hcron⟩ := hrow
  have hparts := hfive row hrow
  rw [hcron] at hparts
  revert hparts
  decide

end PyFaaS.CronFields
