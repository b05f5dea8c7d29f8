import PyFaaS.ExpiringCounter
import PyFaaS.Models
import PyFaaS.Runs
import Mathlib.Data.List.Nodup
import Mathlib.Data.List.Perm.Subperm

/-!
# The rate limit of ephemeral executions

`_enforce_rate_limits` increments a counter named after the key and the minute.
The request that made the counter sets its expiry, which may fail or be lost, and
each request is checked against the number that its own increment returned.
-/

namespace PyFaaS.EphemeralRate
open ExpiringCounter Runs

structure MinuteLabel where
  text : Text
  digits : text.all Char.isDigit = true
  deriving DecidableEq

def rateKey (uuidText : Uuid → Text) (keyId : Uuid) (minute : MinuteLabel) : Text :=
  "sopm:ephemeral:rate:".toList ++ uuidText keyId ++ ":".toList ++ minute.text

/-- Where a request stands: before the answer of INCR, or before that of EXPIRE. -/
inductive RatePhase where
  | incrementing (keyId : Uuid) (minute : MinuteLabel)
  | expiring (keyId : Uuid) (minute : MinuteLabel) (count : ℕ)
  deriving DecidableEq

structure Passed where
  keyId : Uuid
  minute : MinuteLabel
  count : ℕ
  deriving DecidableEq

/-- `passed` only records what has happened. -/
structure RateState (Q : Type) where
  redis : Store Text
  requests : Q → Option RatePhase
  passed : List Passed

inductive RateAction (Q : Type) where
  | begin (q : Q) (keyId : Uuid) (minute : MinuteLabel)
  | incr (q : Q)
  | incrLost (q : Q)
  | expire (q : Q)
  | expireLost (q : Q)
  | abandon (q : Q)
  | evict (key : Text)
  | tick (now : Time)

structure EphemeralSettings where
  uuidText : Uuid → Text
  ephemeralRateLimitPerMinute : ℕ
  ephemeralConcurrencyLimit : ℕ

def timeToLive : Time := 120 * 1000000

namespace RateState
variable {Q : Type}

def initial (now : Time) : RateState Q := ⟨.empty now, fun _ => none, []⟩

def command (s : RateState Q) (cmd : Command Text) : RateState Q := { s with redis := s.redis.apply cmd }

variable [DecidableEq Q]

def setRequest (s : RateState Q) (q : Q) (phase : Option RatePhase) : RateState Q :=
  { s with requests := Function.update s.requests q phase }

def check (settings : EphemeralSettings) (s : RateState Q) (q : Q) (keyId : Uuid) (minute : MinuteLabel)
    (count : ℕ) : RateState Q :=
  if settings.ephemeralRateLimitPerMinute < count then s.setRequest q none
  else { s.setRequest q none with passed := ⟨keyId, minute, count⟩ :: s.passed }

def counted (settings : EphemeralSettings) (s : RateState Q) (q : Q) (keyId : Uuid) (minute : MinuteLabel)
    (count : ℕ) : RateState Q :=
  if count = 1 then s.setRequest q (some (.expiring keyId minute count))
  else s.check settings q keyId minute count

/-- A command may be applied and its answer lost; the client then sends it again
or the request ends with an exception. -/
inductive Step (settings : EphemeralSettings) (s : RateState Q) : RateAction Q → RateState Q → Prop where
  | begin {q : Q} {keyId : Uuid} {minute : MinuteLabel} (hq : s.requests q = none) :
      Step settings s (.begin q keyId minute) (s.setRequest q (some (.incrementing keyId minute)))
  | incr {q : Q} {keyId : Uuid} {minute : MinuteLabel} (hq : s.requests q = some (.incrementing keyId minute)) :
      Step settings s (.incr q)
        ((s.command (.incr (rateKey settings.uuidText keyId minute))).counted settings q keyId minute
          (s.redis.count (rateKey settings.uuidText keyId minute) + 1))
  | incrLost {q : Q} {keyId : Uuid} {minute : MinuteLabel}
      (hq : s.requests q = some (.incrementing keyId minute)) :
      Step settings s (.incrLost q) (s.command (.incr (rateKey settings.uuidText keyId minute)))
  | expire {q : Q} {keyId : Uuid} {minute : MinuteLabel} {count : ℕ}
      (hq : s.requests q = some (.expiring keyId minute count)) :
      Step settings s (.expire q)
        ((s.command (.expire (rateKey settings.uuidText keyId minute) timeToLive)).check settings q keyId
          minute count)
  | expireLost {q : Q} {keyId : Uuid} {minute : MinuteLabel} {count : ℕ}
      (hq : s.requests q = some (.expiring keyId minute count)) :
      Step settings s (.expireLost q)
        (s.command (.expire (rateKey settings.uuidText keyId minute) timeToLive))
  | abandon {q : Q} : Step settings s (.abandon q) (s.setRequest q none)
  | evict {key : Text} (hexpired : s.redis.Expired key) :
      Step settings s (.evict key) (s.command (.remove key))
  | tick {now : Time} (hforward : s.redis.now ≤ now) : Step settings s (.tick now) (s.command (.advance now))

end RateState

/-! ## Minutes -/

def minuteOf (key : Text) : Text := (key.reverse.takeWhile fun c => c != ':').reverse

theorem minuteOf_append (head : Text) {text : Text} (h : ':' ∉ text) : minuteOf (head ++ ':' :: text) = text := by
  have hall : ∀ c ∈ text.reverse, (c != ':') = true := by
    intro c hc
    rw [bne_iff_ne]
    rintro rfl
    exact h (List.mem_reverse.mp hc)
  have hreverse : (head ++ ':' :: text).reverse = text.reverse ++ ':' :: head.reverse := by simp
  rw [minuteOf, hreverse, List.takeWhile_append_of_pos hall]
  simp

theorem minuteOf_rateKey (uuidText : Uuid → Text) (keyId : Uuid) (minute : MinuteLabel) :
    minuteOf (rateKey uuidText keyId minute) = minute.text := by
  have hcolon : ':' ∉ minute.text := by
    intro hmem
    exact absurd (List.all_eq_true.mp minute.digits ':' hmem) (by decide)
  have hkey : rateKey uuidText keyId minute =
      ("sopm:ephemeral:rate:".toList ++ uuidText keyId) ++ ':' :: minute.text := List.append_assoc _ [':'] _
  rw [hkey, minuteOf_append _ hcolon]

def windowOf (start : Text → Time) (key : Text) : Window :=
  ⟨start (minuteOf key), start (minuteOf key) + 60 * 1000000⟩

variable {Q : Type} {settings : EphemeralSettings} {start : Text → Time} {s t : RateState Q} {a : RateAction Q}

def WithinMinute (start : Text → Time) (s : RateState Q) : RateAction Q → Prop
  | .incr q | .incrLost q => ∀ keyId minute, s.requests q = some (.incrementing keyId minute) →
      start minute.text ≤ s.redis.now ∧ s.redis.now < start minute.text + 60 * 1000000
  | _ => True

/-! ## The numbers that are given out -/

def Passed.ticket (settings : EphemeralSettings) (p : Passed) : Text × ℕ :=
  (rateKey settings.uuidText p.keyId p.minute, p.count)

def RatePhase.expiring? : RatePhase → Option Passed
  | .expiring keyId minute count => some ⟨keyId, minute, count⟩
  | .incrementing _ _ => none

def RateState.waiting (s : RateState Q) (q : Q) : Option Passed := (s.requests q).bind RatePhase.expiring?

/-- Every request that has passed or waits has a number of its own for its key. -/
structure Limited (settings : EphemeralSettings) (start : Text → Time) (s : RateState Q) : Prop where
  lasting : Lasting (windowOf start) s.redis
  passed : ∀ p ∈ s.passed, 1 ≤ p.count ∧ p.count ≤ settings.ephemeralRateLimitPerMinute ∧
    Spent (windowOf start) s.redis (p.ticket settings).1 p.count
  distinct : (s.passed.map (Passed.ticket settings)).Nodup
  first : ∀ q p, s.waiting q = some p → p.count = 1 ∧
    Spent (windowOf start) s.redis (p.ticket settings).1 1 ∧ p.ticket settings ∉ s.passed.map (Passed.ticket settings)
  single : ∀ q q' p p', s.waiting q = some p → s.waiting q' = some p' →
    (p.ticket settings).1 = (p'.ticket settings).1 → q = q'

theorem limited_initial (now : Time) : Limited settings start (RateState.initial now : RateState Q) :=
  ⟨lasting_empty now, nofun, List.nodup_nil, nofun, nofun⟩

theorem Limited.command (h : Limited settings start s) {cmd : Command Text}
    (hcmd : Timely (windowOf start) s.redis cmd) : Limited settings start (s.command cmd) where
  lasting := h.lasting.apply hcmd
  passed p hp := by
    obtain ⟨hpos, hle, hspent⟩ := h.passed p hp
    exact ⟨hpos, hle, hspent.apply h.lasting hcmd⟩
  distinct := h.distinct
  first q p hq := by
    obtain ⟨hone, hspent, hnew⟩ := h.first q p hq
    exact ⟨hone, hspent.apply h.lasting hcmd, hnew⟩
  single := h.single

variable [DecidableEq Q]

theorem waiting_setRequest (s : RateState Q) (q q' : Q) (phase : Option RatePhase) :
    (s.setRequest q phase).waiting q' = if q' = q then phase.bind RatePhase.expiring? else s.waiting q' := by
  by_cases h : q' = q
  · simp [RateState.waiting, RateState.setRequest, h]
  · simp [RateState.waiting, RateState.setRequest, h]

theorem waiting_of_setRequest {q q' : Q} {phase : Option RatePhase} {p : Passed}
    (hphase : phase.bind RatePhase.expiring? = none) (h : (s.setRequest q phase).waiting q' = some p) :
    q' ≠ q ∧ s.waiting q' = some p := by
  rw [waiting_setRequest] at h
  split_ifs at h with hq
  · rw [hphase] at h
    cases h
  · exact ⟨hq, h⟩

theorem Limited.setRequest (h : Limited settings start s) (q : Q) {phase : Option RatePhase}
    (hphase : phase.bind RatePhase.expiring? = none) : Limited settings start (s.setRequest q phase) where
  lasting := h.lasting
  passed := h.passed
  distinct := h.distinct
  first q' p hq := h.first q' p (waiting_of_setRequest hphase hq).2
  single q₁ q₂ p₁ p₂ h₁ h₂ :=
    h.single q₁ q₂ p₁ p₂ (waiting_of_setRequest hphase h₁).2 (waiting_of_setRequest hphase h₂).2

theorem Limited.check (h : Limited settings start s) {q : Q} {p : Passed} (hpos : 1 ≤ p.count)
    (hspent : Spent (windowOf start) s.redis (p.ticket settings).1 p.count)
    (hnew : p.ticket settings ∉ s.passed.map (Passed.ticket settings))
    (hothers : ∀ q' p', q' ≠ q → s.waiting q' = some p' → p'.ticket settings ≠ p.ticket settings) :
    Limited settings start (s.check settings q p.keyId p.minute p.count) := by
  have hidle : Limited settings start (s.setRequest q none) := h.setRequest q rfl
  unfold RateState.check
  split_ifs with hlimit
  · exact hidle
  · refine ⟨h.lasting, ?_, List.nodup_cons.mpr ⟨hnew, h.distinct⟩, ?_, hidle.single⟩
    · intro p' hp'
      rcases List.mem_cons.mp hp' with rfl | hp'
      · exact ⟨hpos, Nat.le_of_not_lt hlimit, hspent⟩
      · exact h.passed p' hp'
    · intro q' p' hq'
      obtain ⟨hone, hspent', hnew'⟩ := hidle.first q' p' hq'
      obtain ⟨hne, hwaiting⟩ := waiting_of_setRequest rfl hq'
      exact ⟨hone, hspent', List.not_mem_cons_of_ne_of_not_mem (hothers q' p' hne hwaiting) hnew'⟩

theorem Limited.wait (h : Limited settings start s) {q : Q} {p : Passed} (hcount : p.count = 1)
    (hspent : Spent (windowOf start) s.redis (p.ticket settings).1 1)
    (hnew : p.ticket settings ∉ s.passed.map (Passed.ticket settings))
    (hothers : ∀ q' p', s.waiting q' = some p' → (p'.ticket settings).1 ≠ (p.ticket settings).1) :
    Limited settings start (s.setRequest q (some (.expiring p.keyId p.minute p.count))) where
  lasting := h.lasting
  passed := h.passed
  distinct := h.distinct
  first q' p' hq' := by
    rw [waiting_setRequest] at hq'
    split_ifs at hq'
    · obtain rfl : p = p' := Option.some.inj hq'
      exact ⟨hcount, hspent, hnew⟩
    · exact h.first q' p' hq'
  single q₁ q₂ p₁ p₂ h₁ h₂ hkey := by
    rw [waiting_setRequest] at h₁ h₂
    split_ifs at h₁ h₂ with hq₁ hq₂ hq₂
    · rw [hq₁, hq₂]
    · obtain rfl : p = p₁ := Option.some.inj h₁
      exact absurd hkey.symm (hothers q₂ p₂ h₂)
    · obtain rfl : p = p₂ := Option.some.inj h₂
      exact absurd hkey (hothers q₁ p₁ h₁)
    · exact h.single q₁ q₂ p₁ p₂ h₁ h₂ hkey

theorem Limited.counted (h : Limited settings start s) {q : Q} {keyId : Uuid} {minute : MinuteLabel}
    (hcmd : Timely (windowOf start) s.redis (.incr (rateKey settings.uuidText keyId minute))) :
    Limited settings start ((s.command (.incr (rateKey settings.uuidText keyId minute))).counted settings q
      keyId minute (s.redis.count (rateKey settings.uuidText keyId minute) + 1)) := by
  have hcommand := h.command hcmd
  have hpos : 1 ≤ s.redis.count (rateKey settings.uuidText keyId minute) + 1 := Nat.le_add_left 1 _
  have hspent : Spent (windowOf start) (s.redis.apply (.incr (rateKey settings.uuidText keyId minute)))
      (rateKey settings.uuidText keyId minute) (s.redis.count (rateKey settings.uuidText keyId minute) + 1) :=
    spent_incr (Nat.le_refl _)
  have hpassed : ∀ p ∈ s.passed, (p.ticket settings).1 = rateKey settings.uuidText keyId minute →
      p.count ≠ s.redis.count (rateKey settings.uuidText keyId minute) + 1 := by
    intro p hp hkey
    exact (hkey ▸ (h.passed p hp).2.2).ne_next hcmd
  have hwaiting : ∀ q' p, s.waiting q' = some p → (p.ticket settings).1 = rateKey settings.uuidText keyId minute →
      1 ≠ s.redis.count (rateKey settings.uuidText keyId minute) + 1 := by
    intro q' p hq' hkey
    exact (hkey ▸ (h.first q' p hq').2.1).ne_next hcmd
  generalize s.redis.count (rateKey settings.uuidText keyId minute) + 1 = n at hpos hspent hpassed hwaiting ⊢
  have hnew : Passed.ticket settings ⟨keyId, minute, n⟩ ∉ s.passed.map (Passed.ticket settings) := by
    intro hmem
    obtain ⟨p, hp, hticket⟩ := List.mem_map.mp hmem
    exact hpassed p hp (congrArg Prod.fst hticket) (congrArg Prod.snd hticket)
  unfold RateState.counted
  split_ifs with hone
  · refine hcommand.wait (p := ⟨keyId, minute, n⟩) hone (hone ▸ hspent) hnew ?_
    intro q' p' hq' hkey
    exact hwaiting q' p' hq' hkey hone.symm
  · refine hcommand.check (p := ⟨keyId, minute, n⟩) hpos hspent hnew ?_
    intro q' p' _ hq' hticket
    have hcount : p'.count = n := congrArg Prod.snd hticket
    exact hone (hcount.symm.trans (h.first q' p' hq').1)

/-! ## Runs -/

omit [DecidableEq Q] in
theorem timely_incr {keyId : Uuid} {minute : MinuteLabel}
    (h : start minute.text ≤ s.redis.now ∧ s.redis.now < start minute.text + 60 * 1000000) :
    Timely (windowOf start) s.redis (.incr (rateKey settings.uuidText keyId minute)) := by
  change (windowOf start _).start ≤ s.redis.now ∧ s.redis.now < (windowOf start _).stop
  rw [windowOf, minuteOf_rateKey]
  exact h

theorem timely_expire (redis : Store Text) (key : Text) :
    Timely (windowOf start) redis (.expire key timeToLive) := by
  have hlate : ∀ x : ℤ, x + 60 * 1000000 ≤ x + 120 * 1000000 := by
    intro x
    omega
  exact hlate _

theorem Limited.step (h : Limited settings start s) (hwithin : WithinMinute start s a)
    (hstep : RateState.Step settings s a t) : Limited settings start t := by
  cases hstep with
  | begin hq => exact h.setRequest _ rfl
  | incr hq => exact h.counted (timely_incr (hwithin _ _ hq))
  | incrLost hq => exact h.command (timely_incr (hwithin _ _ hq))
  | @expire q keyId minute count hq =>
    have hwaits : s.waiting q = some ⟨keyId, minute, count⟩ := by simp [RateState.waiting, hq, RatePhase.expiring?]
    have hcommand := h.command (timely_expire s.redis (rateKey settings.uuidText keyId minute))
    obtain ⟨hone, hspent, hnew⟩ := hcommand.first q _ hwaits
    obtain rfl : count = 1 := hone
    refine hcommand.check (p := ⟨keyId, minute, 1⟩) (Nat.le_refl 1) hspent hnew ?_
    intro q' p' hne hq' hticket
    exact hne (h.single q' q p' _ hq' hwaits (congrArg Prod.fst hticket))
  | expireLost hq => exact h.command (timely_expire _ _)
  | abandon => exact h.setRequest _ rfl
  | evict hexpired => exact h.command hexpired
  | tick hforward => exact h.command hforward

def passedWith (keyId : Uuid) (minute : MinuteLabel) (s : RateState Q) : List Passed :=
  s.passed.filter fun p => decide (p.keyId = keyId ∧ p.minute = minute)

omit [DecidableEq Q] in
theorem Limited.length_le (h : Limited settings start s) (keyId : Uuid) (minute : MinuteLabel) :
    (passedWith keyId minute s).length ≤ settings.ephemeralRateLimitPerMinute := by
  have hown : ∀ p ∈ passedWith keyId minute s, p ∈ s.passed ∧ p.keyId = keyId ∧ p.minute = minute := by
    intro p hp
    simpa [passedWith] using hp
  have htickets : (passedWith keyId minute s).map (Passed.ticket settings) =
      ((passedWith keyId minute s).map Passed.count).map (Prod.mk (rateKey settings.uuidText keyId minute)) := by
    rw [List.map_map]
    apply List.map_congr_left
    intro p hp
    obtain ⟨-, hkey, hminute⟩ := hown p hp
    simp [Passed.ticket, hkey, hminute]
  have hdistinct : ((passedWith keyId minute s).map Passed.count).Nodup := by
    apply List.Nodup.of_map (Prod.mk (rateKey settings.uuidText keyId minute))
    rw [← htickets]
    exact h.distinct.sublist (List.filter_sublist.map _)
  have hrange : (passedWith keyId minute s).map Passed.count ⊆
      List.range' 1 settings.ephemeralRateLimitPerMinute := by
    intro n hn
    obtain ⟨p, hp, rfl⟩ := List.mem_map.mp hn
    obtain ⟨hpos, hle, -⟩ := h.passed p (hown p hp).1
    rw [List.mem_range'_1]
    omega
  have hlength := (List.subperm_of_subset hdistinct hrange).length_le
  simpa using hlength

/-- However INCR and EXPIRE interleave, are lost or are left out, at most
`ephemeral_rate_limit_per_minute` requests of a key and a minute pass the check. -/
theorem rate_limit_holds {now : Time} {as : List (RateAction Q)}
    (h : Run (fun s a t => WithinMinute start s a ∧ RateState.Step settings s a t) (RateState.initial now) as s)
    (keyId : Uuid) (minute : MinuteLabel) :
    (passedWith keyId minute s).length ≤ settings.ephemeralRateLimitPerMinute := by
  have hlimited : Limited settings start s :=
    h.invariant (fun _ _ _ hs hstep => hs.step hstep.1 hstep.2) (limited_initial now)
  exact hlimited.length_le keyId minute

def sampleMinute : MinuteLabel := ⟨"202601010000".toList, by decide⟩

def sampleRates : EphemeralSettings := ⟨fun id => (toString id).toList, 1, 1⟩

/-- Two requests count before the first of them sends EXPIRE; the second is refused. -/
theorem rate_limit_holds_two : ∃ s : RateState ℕ, s.passed = [⟨3, sampleMinute, 1⟩] ∧
    (passedWith 3 sampleMinute s).length ≤ 1 := by
  have hwithin : ∀ (s : RateState ℕ) (q : ℕ), s.redis.now = 5 → WithinMinute (fun _ => 0) s (.incr q) := by
    intro s q hnow keyId minute _
    simp [hnow]
  have hrun : ∃ s : RateState ℕ, Run (fun s a t => WithinMinute (fun _ => 0) s a ∧
      RateState.Step sampleRates s a t) (RateState.initial 5) [.begin 0 3 sampleMinute,
        .begin 1 3 sampleMinute, .incr 0, .incr 1, .expire 0] s ∧ s.passed = [⟨3, sampleMinute, 1⟩] :=
    ⟨_, .cons ⟨trivial, .begin rfl⟩ (.cons ⟨trivial, .begin rfl⟩ (.cons ⟨hwithin _ _ rfl, .incr rfl⟩
      (.cons ⟨hwithin _ _ rfl, .incr rfl⟩ (.cons ⟨trivial, .expire rfl⟩ (.nil _))))), rfl⟩
  obtain ⟨s, hs, hpassed⟩ := hrun
  exact ⟨s, hpassed, rate_limit_holds hs 3 sampleMinute⟩

end PyFaaS.EphemeralRate
