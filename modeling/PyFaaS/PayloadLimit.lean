import PyFaaS.Circulation
import PyFaaS.Submissions

/-!
# The payload limit

The schemas of the trigger route and of the ephemeral route refuse a payload that
is too large. The schema of the invoke route has no such check, nor have those of
the two schedule routes, whose payloads the scheduler submits.
-/

namespace PyFaaS.Submissions
open Runs Api Platform TextLines

variable {W Q R : Type}

def Fits (c : Config) (payload : Json) : Prop := encodedSize c.codec payload ≤ payloadLimit

structure PlatformWithin (c : Config) (p : Platform W Q) : Prop where
  rows : ∀ id e, p.db.row id = some e → Fits c e.payload
  jobs : ∀ job, p.queue.Holds job → Fits c job.payload

def WithinLimit (c : Config) (s : State W Q R) : Prop := PlatformWithin c s.platform

/-- The payloads that no schema has checked are within the limit where an
execution is made from them. -/
def UncheckedFits (c : Config) (s : State W Q R) (p : Action W Q R × State W Q R) : Prop :=
  match p.1 with
  | .invoke _ _ _ _ _ payload => Fits c payload
  | .fire r _ _ _ _ => ∀ d, s.firing r = some (.loaded d) → Fits c d.fresh.payload
  | _ => True

def BodiesFit (c : Config) (_ : State W Q R) (p : Action W Q R × State W Q R) : Prop :=
  match p.1 with
  | .invoke _ _ _ _ _ payload => Fits c payload
  | .createSchedule _ _ _ body => Fits c body.payload
  | .updateSchedule _ _ body => ∀ payload, body.payload = some payload → Fits c payload
  | _ => True

variable {c : Config}

theorem platformWithin_initial : PlatformWithin c (Platform.initial : Platform W Q) := by
  constructor
  · intro id e he
    simp [Platform.initial, ExecutionTable.empty, ExecutionTable.row] at he
  · intro job hjob
    exact absurd hjob (SortedSet.holds_nil job)

variable [DecidableEq W] [DecidableEq Q]

/-! ## The platform -/

theorem PlatformWithin.create_iff {p p' : Platform W Q} {q : Q} {origin : Execution.Origin} {n : NewExecution}
    (h : PlatformWithin c p) (hstep : Platform.Step p (.create q origin n) p') :
    PlatformWithin c p' ↔ Fits c n.payload := by
  cases hstep with
  | create hq fresh =>
    constructor
    · intro hwithin
      exact hwithin.rows n.row.id n.row (ExecutionTable.row_insert_self fresh)
    · intro hfits
      refine ⟨fun id e he => ?_, h.jobs⟩
      change (p.db.insert n.row fresh).row id = some e at he
      by_cases hid : n.row.id = id
      · subst hid
        rw [ExecutionTable.row_insert_self] at he
        exact Option.some.inj he ▸ hfits
      · rw [ExecutionTable.row_insert_of_ne fresh hid] at he
        exact h.rows id e he

theorem PlatformWithin.internal {p p' : Platform W Q} {a : Platform.Action W Q} (h : PlatformWithin c p)
    (hbacked : Backed p) (ha : internal a = true) (hstep : Platform.Step p a p') : PlatformWithin c p' := by
  constructor
  · intro id e' he'
    rcases hstep.row_back he' with ⟨e, he, -, -, -, -, -, -, -, hpayload, -⟩ | ⟨q, origin, n, rfl, -⟩
    · rw [hpayload]
      exact h.rows id e he
    · cases ha
  · intro job hjob
    rcases hstep.queued hjob with hold | ⟨q, phase, n, hp, hn, rfl⟩ | ⟨score, rfl⟩
    · exact h.jobs job hold
    · obtain ⟨e, he, hdescribes⟩ := hbacked.row _ (.requested hp hn rfl)
      rw [hdescribes.payload]
      exact h.rows _ e he
    · cases ha

omit [DecidableEq W] [DecidableEq Q] in
theorem enqueued_of_internal {a : Platform.Action W Q} (ha : internal a = true) : Enqueued a := by
  rintro job score rfl
  cases ha

omit [DecidableEq W] [DecidableEq Q] in
theorem enqueued_create {q : Q} {origin : Execution.Origin} {n : NewExecution} :
    Enqueued (.create q origin n : Platform.Action W Q) := by
  rintro job score ⟨⟩

/-! ## Steps -/

variable [DecidableEq R] {s t : State W Q R} {a : Action W Q R}

theorem Step.platform_backed (hbacked : Backed s.platform) (hstep : Step c s a t) : Backed t.platform := by
  cases hstep with
  | trigger hbody hversion hstep => exact hbacked.step enqueued_create hstep
  | invoke hbody hversion hstep => exact hbacked.step enqueued_create hstep
  | ephemeral hbody hstep => exact hbacked.step enqueued_create hstep
  | fire hr hversion hstep => exact hbacked.step enqueued_create hstep
  | platform ha hstep => exact hbacked.step (enqueued_of_internal ha) hstep
  | _ => exact hbacked

theorem withinLimit_iff (hdefault : c.platform.maxPayloadSizeBytes = payloadLimit) (hbacked : Backed s.platform)
    (h : WithinLimit c s) (hstep : Step c s a t) : WithinLimit c t ↔ UncheckedFits c s (a, t) := by
  cases hstep with
  | trigger hbody hversion hstep =>
    exact (h.create_iff hstep).trans ⟨fun _ => trivial, fun _ => acceptsTrigger_payload hbody⟩
  | invoke hbody hversion hstep => exact h.create_iff hstep
  | ephemeral hbody hstep =>
    refine (h.create_iff hstep).trans ⟨fun _ => trivial, fun _ => ?_⟩
    rw [Fits, ← hdefault]
    exact acceptsEphemeral_event hbody
  | @fire r q d id fn version p hr hversion hstep =>
    refine (h.create_iff hstep).trans ⟨fun hfits d' hd' => ?_, fun hfits => hfits d hr⟩
    rw [hr] at hd'
    cases hd'
    exact hfits
  | platform ha hstep => exact ⟨fun _ => trivial, fun _ => h.internal hbacked ha hstep⟩
  | _ => exact ⟨fun _ => trivial, fun _ => h⟩

/-! ## Payloads on their way through a schedule -/

structure SchedulesFit (c : Config) (s : State W Q R) : Prop where
  stored : ∀ row ∈ s.schedules, Fits c row.payload
  firing : ∀ r f, s.firing r = some f → Fits c f.dueRow.fresh.payload

omit [DecidableEq W] [DecidableEq Q] in
theorem SchedulesFit.setFiring (h : SchedulesFit c s) {r : R} {f : Option Scheduler.Firing}
    (hf : ∀ f', f = some f' → Fits c f'.dueRow.fresh.payload) : SchedulesFit c (s.setFiring r f) := by
  refine ⟨h.stored, fun r' f' hr' => ?_⟩
  by_cases hr : r' = r
  · subst hr
    exact hf f' (by simpa [State.setFiring] using hr')
  · exact h.firing r' f' (by simpa [State.setFiring, hr] using hr')

omit [DecidableEq W] [DecidableEq Q] in
theorem SchedulesFit.endFiring (h : SchedulesFit c s) (r : R) : SchedulesFit c (s.setFiring r none) :=
  h.setFiring fun f' hf' => by cases hf'

omit [DecidableEq W] [DecidableEq Q] [DecidableEq R] in
theorem schedulesFit_initial : SchedulesFit c (initial : State W Q R) :=
  ⟨fun _ hrow => absurd hrow List.not_mem_nil, fun _ _ hr => by cases hr⟩

omit [DecidableEq W] [DecidableEq Q] [DecidableEq R] in
theorem SchedulesFit.editSchedule (h : SchedulesFit c s) {id : Uuid} {edit : Schedule → Schedule} {now : Time}
    (hedit : ∀ row, Fits c row.payload → Fits c (edit row).payload) :
    SchedulesFit c (s.editSchedule id (touchSchedule now edit)) := by
  refine ⟨fun row hrow => ?_, h.firing⟩
  obtain ⟨old, hold, rfl⟩ := List.mem_map.mp hrow
  split_ifs
  · unfold touchSchedule
    split_ifs
    · exact h.stored old hold
    · exact hedit old (h.stored old hold)
  · exact h.stored old hold

omit [DecidableEq W] [DecidableEq Q] [DecidableEq R] in
theorem SchedulesFit.loaded (h : SchedulesFit c s) {id : Uuid} {now : Time} {d : Scheduler.DueRow}
    (hrow : Scheduler.refetch now (Table.get? s.schedules id) = some d) : Fits c d.fresh.payload :=
  h.stored d.fresh (List.mem_of_find?_eq_some (Scheduler.refetch_some hrow))

theorem SchedulesFit.step (h : SchedulesFit c s) (hbodies : BodiesFit c s (a, t)) (hstep : Step c s a t) :
    SchedulesFit c t := by
  cases hstep with
  | createSchedule hbody hnext =>
    refine ⟨fun row hrow => ?_, h.firing⟩
    rcases List.mem_append.mp hrow with hold | hnew
    · exact h.stored row hold
    · rw [List.mem_singleton.mp hnew]
      exact hbodies
  | @updateSchedule id g body next hbody hnext =>
    refine h.editSchedule fun row hrow => ?_
    cases hpayload : body.payload with
    | none => simpa [ScheduleUpdate.edit, hpayload] using hrow
    | some payload => simpa [ScheduleUpdate.edit, hpayload] using hbodies payload hpayload
  | deleteSchedules => exact ⟨fun row hrow => h.stored row (List.mem_filter.mp hrow).1, h.firing⟩
  | refetch hrow =>
    refine h.setFiring fun f' hf' => ?_
    cases hf'
    exact h.loaded hrow
  | advance hr => exact (h.endFiring _).editSchedule fun _ hrow => hrow
  | @fire r q d id fn version p hr hversion hstep =>
    have hloaded : Fits c d.fresh.payload := h.firing r (.loaded d) hr
    have hset := h.setFiring (r := r) (f := some (.updating d (Scheduler.newExecution id d fn version) none)) <| by
      intro f' hf'
      cases hf'
      exact hloaded
    exact ⟨hset.stored, hset.firing⟩
  | recordRun hr => exact (h.endFiring _).editSchedule fun _ hrow => hrow
  | drop => exact h.endFiring _
  | createVersion hform htimeout henvironment => exact ⟨h.stored, h.firing⟩
  | deleteVersions => exact ⟨h.stored, h.firing⟩
  | trigger hbody hversion hstep => exact ⟨h.stored, h.firing⟩
  | invoke hbody hversion hstep => exact ⟨h.stored, h.firing⟩
  | ephemeral hbody hstep => exact ⟨h.stored, h.firing⟩
  | platform ha hstep => exact ⟨h.stored, h.firing⟩

omit [DecidableEq W] [DecidableEq Q] [DecidableEq R] in
theorem SchedulesFit.uncheckedFits (h : SchedulesFit c s) {p : Action W Q R × State W Q R}
    (hbodies : BodiesFit c s p) : UncheckedFits c s p := by
  obtain ⟨a, t⟩ := p
  cases a with
  | invoke q key g fn version payload => exact hbodies
  | fire r q id fn version => exact fun d hd => h.firing r _ hd
  | _ => trivial

/-! ## Runs -/

/-- The limit holds in every state of a run exactly if it holds of every invoked and of
every fired payload; for that it is enough that it holds of every body. -/
theorem payload_limit_iff (hdefault : c.platform.maxPayloadSizeBytes = payloadLimit)
    {path : List (Action W Q R × State W Q R)} (hpath : Path (Step c) initial path) :
    (Throughout reached (WithinLimit c) initial path ↔ Along reached (UncheckedFits c) initial path) ∧
      (Along reached (BodiesFit c) initial path → Throughout reached (WithinLimit c) initial path) := by
  have hiff : Throughout reached (WithinLimit c) initial path ↔ Along reached (UncheckedFits c) initial path := by
    apply throughout_iff (J := fun s => Backed s.platform) _ _ hpath backed_initial platformWithin_initial
    · exact fun _ _ hbacked hstep => hstep.platform_backed hbacked
    · exact fun _ _ hbacked hstep h => withinLimit_iff hdefault hbacked h hstep
  refine ⟨hiff, fun hbodies => hiff.mpr ?_⟩
  apply along_of_invariant (J := SchedulesFit c) _ _ (hpath.and hbodies) schedulesFit_initial
  · exact fun _ _ h hstep => h.step hstep.2 hstep.1
  · exact fun _ _ h hstep => h.uncheckedFits hstep.2

/-! Runs with the configuration of the platform and a given codec. -/

def sampleConfig (codec : JsonCodec) : Config where
  codec := codec
  platform := .default
  api := ⟨100, 50, 10485760, id, fun _ now => some (now + 60000000), fun id => (toString id).toList⟩
  validCron _ := true
  cronParts _ := 5

def sampleGiven : Given where
  now := 0
  newId := 1
  draw := 0
  rawKey := []
  storageFails _ := false
  enqueueFails := none
  observed := []
  lazyLoads := true

def sampleKey : ApiKey := ⟨3, 7, "ci".toList, [], [], none, none, 0⟩

def emptyCodec : JsonCodec := .ofTable [(.obj [], "\x7b\x7d".toList)]

def sampleEphemeral : EphemeralExecution :=
  ⟨"def handler(): return 1".toList, "handler.handler".toList, .obj [], 30, 128⟩

def sampleForm : VersionForm := ⟨"handler.handler".toList, 300, 128, none⟩

def sampleVersion : FunctionVersion :=
  ⟨5, 4, 1, "handler.handler".toList, [], [], 0, .obj [], 300, 128, true, none, 0⟩

def sampleFunction : Function := ⟨4, 7, [], none, [], .active, some 5, none, 0, .obj [], 0, 0⟩

def eventPayload : Json := .obj [("city".toList, .str "Pune".toList)]

def eventCodec : JsonCodec := .ofTable [(eventPayload, "\x7b\"city\": \"Pune\"\x7d".toList)]

def eventSchedule : ScheduleCreate := ⟨"hourly".toList, "0 * * * *".toList, eventPayload⟩

def eventEphemeral : EphemeralExecution := { sampleEphemeral with event := eventPayload }

/-- One payload by each of the four ways in. -/
theorem payload_limit_iff_entries :
    ∃ path : List (Action Unit (Fin 4) Unit × State Unit (Fin 4) Unit),
      path.map Prod.fst =
        [.createVersion sampleForm sampleVersion, .createSchedule 7 4 sampleGiven eventSchedule,
          .trigger 0 7 sampleGiven sampleFunction sampleVersion ⟨eventPayload, none, none⟩,
          .invoke 1 sampleKey { sampleGiven with newId := 2 } sampleFunction sampleVersion eventPayload,
          .ephemeral 2 sampleKey { sampleGiven with newId := 3 } eventEphemeral,
          .refetch () 1 60000000, .fire () 3 4 sampleFunction sampleVersion] ∧
        Throughout reached (WithinLimit (sampleConfig eventCodec)) initial path := by
  have hfits : Fits (sampleConfig eventCodec) eventPayload := by
    unfold Fits
    decide
  have hversion : sampleVersion ∈ [] ++ [sampleVersion] := List.mem_singleton_self _
  refine ⟨[(_, _), (_, _), (_, _), (_, _), (_, _), (_, _), (_, _)], rfl, (payload_limit_iff rfl
    (.cons (.createVersion (by decide) rfl rfl)
      (.cons (.createSchedule (by decide) rfl)
      (.cons (.trigger (by decide) hversion (.create rfl rfl))
      (.cons (.invoke (by decide) hversion (.create rfl rfl))
      (.cons (.ephemeral (by decide) (.create rfl rfl))
      (.cons (.refetch rfl)
      (.cons (.fire rfl hversion (.create rfl rfl)) .nil)))))))).1.mpr
    (.cons trivial (.cons trivial (.cons trivial (.cons hfits (.cons trivial (.cons trivial (.cons ?_ .nil)))))))⟩
  intro d hd
  cases hd
  exact hfits

/-! The body of an invocation is a megabyte long, and a little more when it is encoded. -/

def longText : Text := List.replicate payloadLimit 'a'

def longPayload : Json := .obj [("k".toList, .str longText)]

def longEncoding : Text := "\x7b\"k\": \"".toList ++ longText ++ "\"\x7d".toList

def longCodec : JsonCodec := .ofTable [(longPayload, longEncoding)]

theorem lt_utf8Length_padded (n : ℕ) {head : Text} (tail : Text) (h : 0 < utf8Length head) :
    n < utf8Length (head ++ List.replicate n 'a' ++ tail) := by
  have hsize : utf8Length (List.replicate n 'a') = n := by
    have ha : 'a'.utf8Size = 1 := by decide
    simp [utf8Length, ha]
  simp only [utf8Length, List.map_append, List.sum_append] at h hsize ⊢
  omega

theorem longCodec_dumps : longCodec.dumps longPayload = longEncoding := JsonCodec.ofTable_dumps_head _ _ _

theorem acceptsInvoke_longPayload : acceptsInvoke longPayload = true := rfl

theorem not_fits_longPayload : ¬ Fits (sampleConfig longCodec) longPayload := by
  have hsize : payloadLimit < encodedSize longCodec longPayload := by
    rw [encodedSize, longCodec_dumps]
    exact lt_utf8Length_padded payloadLimit _ (by decide)
  exact Nat.not_le.mpr hsize

/-- The invoke route takes a payload of any size. -/
theorem invoked_payload_too_large : ¬ ∀ c : Config, c.platform.maxPayloadSizeBytes = payloadLimit →
    ∀ path : List (Action Unit Unit Unit × State Unit Unit Unit), Path (Step c) initial path →
      Throughout reached (WithinLimit c) initial path := by
  intro hclaim
  have hrun : ∃ path : List (Action Unit Unit Unit × State Unit Unit Unit),
      Path (Step (sampleConfig longCodec)) initial path ∧
        ¬ Throughout reached (WithinLimit (sampleConfig longCodec)) initial path := by
    refine ⟨[(.createVersion sampleForm sampleVersion, _),
      (.invoke () sampleKey sampleGiven sampleFunction sampleVersion longPayload, _)],
      .cons (.createVersion (by decide) rfl rfl)
        (.cons (.invoke acceptsInvoke_longPayload (List.mem_singleton_self _) (.create rfl rfl)) .nil), ?_⟩
    intro hall
    have hlast := hall.2.2.rows 1 _ (by rfl)
    exact not_fits_longPayload hlast
  obtain ⟨path, hpath, hnot⟩ := hrun
  exact hnot (hclaim _ rfl path hpath)

end PyFaaS.Submissions
