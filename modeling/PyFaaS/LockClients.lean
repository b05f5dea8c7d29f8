import PyFaaS.DistributedLock
import PyFaaS.Models
import PyFaaS.Runs

/-!
# The clients of one distributed lock

Each `acquire` draws a new token and sends SET NX until it succeeds or its time is
up; `release` sends the check-and-delete script with the token. The commands and
their answers may be late or lost, so Redis may carry one out for a client that
has given up, and a key may expire under a client that still works.
-/

namespace PyFaaS.LockClients
open DistributedLock Runs

variable {C τ : Type} [DecidableEq C] [DecidableEq τ]

/-- `EX` of the clients; Redis takes no other than positive ones. -/
structure LockSettings (C : Type) where
  timeout : C → Time
  positive : ∀ c, 0 < timeout c

structure Entry (τ : Type) where
  token : τ
  expiresAt : Time

/-- `won` is the time at which Redis has set the key for the token last. A client
that is idle keeps the token of its last `acquire`. -/
inductive Phase (τ : Type) where
  | idle (token : Option τ)
  | acquiring (token : τ) (won : Option Time)
  | acquired (token : τ) (won : Time)
  | failed (token : τ)

structure Win (C τ : Type) where
  client : C
  token : τ
  time : Time

/-- `sets` and `releases` are the commands under way, `issued` tells who has drawn a
token, and `wins` lists the successful SET NX, the latest first. -/
structure State (C τ : Type) where
  now : Time
  key : Option (Entry τ)
  client : C → Phase τ
  sets : List (C × τ)
  releases : List (C × τ)
  issued : τ → Option C
  wins : List (Win C τ)

def initial : State C τ := ⟨0, none, fun _ => .idle none, [], [], fun _ => none, []⟩

inductive Action (C τ : Type) where
  | acquire (c : C) (token : τ)
  | sendSet (c : C)
  | applySet (c : C) (token : τ)
  | dropSet (c : C) (token : τ)
  | succeed (c : C)
  | fail (c : C)
  | release (c : C)
  | releaseLost (c : C)
  | applyRelease (c : C) (token : τ)
  | dropRelease (c : C) (token : τ)
  | tick (now : Time)
  | expire

def State.heldToken (s : State C τ) : Option τ := s.key.map Entry.token

def State.enter (s : State C τ) (c : C) (ph : Phase τ) : State C τ :=
  { s with client := Function.update s.client c ph }

def Phase.win (ph : Phase τ) (token : τ) (now : Time) : Phase τ :=
  match ph with
  | .acquiring own won => .acquiring own (if own = token then some now else won)
  | ph => ph

def Phase.releasable : Phase τ → Option τ
  | .idle token => token
  | .acquiring _ _ => none
  | .acquired token _ | .failed token => some token

inductive Step (settings : LockSettings C) (s : State C τ) : Action C τ → State C τ → Prop where
  | acquire {c : C} {token : τ} {old : Option τ} (hc : s.client c = .idle old) (hnew : s.issued token = none) :
      Step settings s (.acquire c token)
        { s.enter c (.acquiring token none) with issued := Function.update s.issued token (some c) }
  | sendSet {c : C} {token : τ} {won : Option Time} (hc : s.client c = .acquiring token won) :
      Step settings s (.sendSet c) { s with sets := (c, token) :: s.sets }
  | setWon {c : C} {token : τ} (hset : (c, token) ∈ s.sets) (hwon : (setNx s.heldToken token).2 = true) :
      Step settings s (.applySet c token)
        { s.enter c ((s.client c).win token s.now) with
          key := some ⟨token, s.now + settings.timeout c⟩
          sets := s.sets.erase (c, token)
          wins := ⟨c, token, s.now⟩ :: s.wins }
  | setRefused {c : C} {token : τ} (hset : (c, token) ∈ s.sets) (hwon : (setNx s.heldToken token).2 = false) :
      Step settings s (.applySet c token) { s with sets := s.sets.erase (c, token) }
  | dropSet {c : C} {token : τ} : Step settings s (.dropSet c token) { s with sets := s.sets.erase (c, token) }
  | succeed {c : C} {token : τ} {won : Time} (hc : s.client c = .acquiring token (some won)) :
      Step settings s (.succeed c) (s.enter c (.acquired token won))
  | fail {c : C} {token : τ} {won : Option Time} (hc : s.client c = .acquiring token won) :
      Step settings s (.fail c) (s.enter c (.failed token))
  | release {c : C} {token : τ} (hc : (s.client c).releasable = some token) :
      Step settings s (.release c) { s.enter c (.idle (some token)) with releases := (c, token) :: s.releases }
  | releaseLost {c : C} {token : τ} (hc : (s.client c).releasable = some token) :
      Step settings s (.releaseLost c) (s.enter c (.idle (some token)))
  | applyRelease {c : C} {token : τ} (hrelease : (c, token) ∈ s.releases) :
      Step settings s (.applyRelease c token)
        { s with
          key := s.key.filter fun e => decide (releaseScript (some e.token) token = some e.token)
          releases := s.releases.erase (c, token) }
  | dropRelease {c : C} {token : τ} :
      Step settings s (.dropRelease c token) { s with releases := s.releases.erase (c, token) }
  | tick {now : Time} (hforward : s.now ≤ now) : Step settings s (.tick now) { s with now := now }
  | expire {e : Entry τ} (hkey : s.key = some e) (hexpired : e.expiresAt ≤ s.now) :
      Step settings s .expire { s with key := none }

/-! ## Ownership -/

def Phase.since : Phase τ → Option Time
  | .acquiring _ won => won
  | .acquired _ won => some won
  | _ => none

structure Owned (settings : LockSettings C) (s : State C τ) : Prop where
  /-- The key holds the token of the latest winner. -/
  latest : ∀ e, s.key = some e → ∃ w, s.wins.head? = some w ∧ w.token = e.token ∧ s.issued w.token = some w.client
  /-- Of two clients with the lock the earlier has had it for its whole timeout. -/
  overlap : ∀ a b since since', a ≠ b → (s.client a).since = some since → (s.client b).since = some since' →
    since ≤ since' → since + settings.timeout a ≤ s.now

def SparesKey (s : State C τ) (p : Action C τ × State C τ) : Prop :=
  match p.1 with
  | .applyRelease c _ => (∀ w, s.wins.head? = some w → w.client ≠ c) → p.2.key = s.key
  | .release _ | .releaseLost _ | .dropRelease _ _ => p.2.key = s.key
  | _ => True

/-! ## The invariant -/

def Phase.token : Phase τ → Option τ
  | .idle token => token
  | .acquiring token _ | .acquired token _ | .failed token => some token

def Phase.current : Phase τ → Option τ
  | .acquiring token _ | .acquired token _ => some token
  | _ => none

def Holds (settings : LockSettings C) (s : State C τ) (c : C) (since : Time) : Prop :=
  ∃ e, s.key = some e ∧ (s.client c).current = some e.token ∧ e.expiresAt = since + settings.timeout c

structure Issued (s : State C τ) : Prop where
  clients : ∀ c token, (s.client c).token = some token → s.issued token = some c
  sets : ∀ c token, (c, token) ∈ s.sets → s.issued token = some c
  releases : ∀ c token, (c, token) ∈ s.releases → s.issued token = some c
  unreleased : ∀ c token, (s.client c).current = some token → (c, token) ∉ s.releases

structure Inv (settings : LockSettings C) (s : State C τ) : Prop where
  issued : Issued s
  latest : ∀ e, s.key = some e → ∃ w, s.wins.head? = some w ∧ w.token = e.token ∧ s.issued w.token = some w.client
  past : ∀ c since, (s.client c).since = some since → since ≤ s.now
  held : ∀ c since, (s.client c).since = some since → since + settings.timeout c ≤ s.now ∨ Holds settings s c since
  apart : ∀ a b since since', a ≠ b → (s.client a).since = some since → (s.client b).since = some since' →
    since + settings.timeout a ≤ since' ∨ since' + settings.timeout b ≤ since

variable {settings : LockSettings C} {s t : State C τ} {c : C} {token : τ}

omit [DecidableEq τ] in
theorem Phase.token_of_current {ph : Phase τ} (h : ph.current = some token) : ph.token = some token := by
  cases ph <;> simp_all [Phase.current, Phase.token]

omit [DecidableEq τ] in
theorem Phase.token_of_releasable {ph : Phase τ} (h : ph.releasable = some token) : ph.token = some token := by
  cases ph <;> simp_all [Phase.releasable, Phase.token]

omit [DecidableEq C] [DecidableEq τ] in
theorem inv_initial : Inv settings (initial : State C τ) := by
  constructor
  · constructor <;> simp [initial, Phase.token, Phase.current]
  all_goals simp [initial, Phase.since]

omit [DecidableEq τ] in
theorem Inv.enter (h : Inv settings s) {p : Phase τ} (hissued : Issued t)
    (hclient : t.client = Function.update s.client c p) (hkey : t.key = s.key) (hnow : t.now = s.now)
    (hwins : t.wins = s.wins)
    (hkept : ∀ token owner, s.issued token = some owner → t.issued token = some owner)
    (hsince : ∀ since, p.since = some since → (s.client c).since = some since ∧ p.current = (s.client c).current) :
    Inv settings t := by
  have hold : ∀ a since, (t.client a).since = some since →
      (s.client a).since = some since ∧ (t.client a).current = (s.client a).current := by
    intro a since ha
    rw [hclient] at ha ⊢
    by_cases hac : a = c
    · subst hac
      rw [Function.update_self] at ha ⊢
      exact hsince since ha
    · rw [Function.update_of_ne hac] at ha ⊢
      exact ⟨ha, rfl⟩
  constructor
  · exact hissued
  · intro e he
    obtain ⟨w, hw, htoken, howner⟩ := h.latest e (hkey ▸ he)
    exact ⟨w, hwins ▸ hw, htoken, hkept _ _ howner⟩
  · intro a since ha
    rw [hnow]
    exact h.past a since (hold a since ha).1
  · intro a since ha
    obtain ⟨hbefore, hcurrent⟩ := hold a since ha
    rw [hnow]
    rcases h.held a since hbefore with hexpired | ⟨e, he, htoken, htime⟩
    · exact Or.inl hexpired
    · exact Or.inr ⟨e, hkey.trans he, hcurrent.trans htoken, htime⟩
  · intro a b since since' hne ha hb
    exact h.apart a b since since' hne (hold a since ha).1 (hold b since' hb).1

omit [DecidableEq C] [DecidableEq τ] in
theorem Issued.next (h : Issued s)
    (hkept : ∀ token owner, s.issued token = some owner → t.issued token = some owner)
    (hclients : ∀ a token, (t.client a).token = some token →
      (s.client a).token = some token ∨ t.issued token = some a)
    (hsets : ∀ a token, (a, token) ∈ t.sets → (a, token) ∈ s.sets ∨ t.issued token = some a)
    (hreleases : ∀ a token, (a, token) ∈ t.releases →
      (a, token) ∈ s.releases ∨ t.issued token = some a ∧ (t.client a).current ≠ some token)
    (hcurrent : ∀ a token, (t.client a).current = some token →
      (s.client a).current = some token ∨ (a, token) ∉ s.releases) : Issued t := by
  constructor
  · intro a token ha
    exact (hclients a token ha).elim (fun hold => hkept _ _ (h.clients a token hold)) id
  · intro a token ha
    exact (hsets a token ha).elim (fun hold => hkept _ _ (h.sets a token hold)) id
  · intro a token ha
    exact (hreleases a token ha).elim (fun hold => hkept _ _ (h.releases a token hold)) And.left
  · intro a token ha hrelease
    rcases hreleases a token hrelease with hold | ⟨-, hne⟩
    · rcases hcurrent a token ha with hbefore | hnot
      · exact h.unreleased a token hbefore hold
      · exact hnot hold
    · exact hne ha

omit [DecidableEq C] [DecidableEq τ] in
theorem Inv.commands (h : Inv settings s) {sets releases : List (C × τ)}
    (hsets : ∀ a token, (a, token) ∈ sets → (a, token) ∈ s.sets ∨ s.issued token = some a)
    (hreleases : ∀ p ∈ releases, p ∈ s.releases) :
    Inv settings { s with sets := sets, releases := releases } := by
  refine ⟨?_, h.latest, h.past, h.held, h.apart⟩
  exact h.issued.next (fun _ _ => id) (fun _ _ => Or.inl) hsets
    (fun a token ha => Or.inl (hreleases _ ha)) (fun _ _ => Or.inl)

omit [DecidableEq C] [DecidableEq τ] in
theorem Inv.expired (h : Inv settings s) (hkey : s.key = none) {a : C} {since : Time}
    (ha : (s.client a).since = some since) : since + settings.timeout a ≤ s.now := by
  rcases h.held a since ha with hexpired | ⟨e, he, -⟩
  · exact hexpired
  · rw [hkey] at he
    cases he

theorem Phase.win_token (ph : Phase τ) (now : Time) : (ph.win token now).token = ph.token ∧
    (ph.win token now).current = ph.current := by
  cases ph <;> exact ⟨rfl, rfl⟩

theorem Phase.win_since {ph : Phase τ} {now since : Time} (h : (ph.win token now).since = some since) :
    ph.since = some since ∨ since = now ∧ ph.current = some token := by
  cases ph with
  | acquiring own won =>
    by_cases hown : own = token
    · simp [Phase.win, Phase.since, hown] at h
      exact Or.inr ⟨h.symm, congrArg some hown⟩
    · simp [Phase.win, Phase.since, hown] at h
      exact Or.inl h
  | _ => exact Or.inl h

theorem Inv.setWon (h : Inv settings s) (hset : (c, token) ∈ s.sets) (hkey : s.key = none) :
    Inv settings { s.enter c ((s.client c).win token s.now) with
      key := some ⟨token, s.now + settings.timeout c⟩
      sets := s.sets.erase (c, token)
      wins := ⟨c, token, s.now⟩ :: s.wins } := by
  have hself : (Function.update s.client c ((s.client c).win token s.now)) c = (s.client c).win token s.now :=
    Function.update_self ..
  have hother : ∀ a, a ≠ c → (Function.update s.client c ((s.client c).win token s.now)) a = s.client a :=
    fun a ha => Function.update_of_ne ha ..
  have htoken : ∀ a, ((Function.update s.client c ((s.client c).win token s.now)) a).token = (s.client a).token ∧
      ((Function.update s.client c ((s.client c).win token s.now)) a).current = (s.client a).current := by
    intro a
    by_cases ha : a = c
    · subst ha
      rw [hself]
      exact Phase.win_token _ _
    · rw [hother a ha]
      exact ⟨rfl, rfl⟩
  have hsince : ∀ a since, ((Function.update s.client c ((s.client c).win token s.now)) a).since = some since →
      (s.client a).since = some since ∨ a = c ∧ since = s.now ∧ (s.client c).current = some token := by
    intro a since ha
    by_cases hac : a = c
    · subst hac
      rw [hself] at ha
      exact (Phase.win_since ha).imp id fun hnew => ⟨rfl, hnew⟩
    · rw [hother a hac] at ha
      exact Or.inl ha
  constructor
  · refine h.issued.next (fun _ _ howner => howner) ?_ ?_ ?_ ?_
    · exact fun a token ha => Or.inl ((htoken a).1 ▸ ha)
    · exact fun a token ha => Or.inl (List.mem_of_mem_erase ha)
    · exact fun _ _ => Or.inl
    · exact fun a token ha => Or.inl ((htoken a).2 ▸ ha)
  · intro e he
    cases he
    exact ⟨⟨c, token, s.now⟩, rfl, rfl, h.issued.sets c token hset⟩
  · intro a since ha
    rcases hsince a since ha with hold | ⟨-, rfl, -⟩
    · exact h.past a since hold
    · exact Int.le_refl s.now
  · intro a since ha
    rcases hsince a since ha with hold | ⟨rfl, rfl, hcurrent⟩
    · exact Or.inl (h.expired hkey hold)
    · exact Or.inr ⟨_, rfl, (htoken a).2.trans hcurrent, rfl⟩
  · intro a b since since' hne ha hb
    rcases hsince a since ha with hold | ⟨rfl, rfl, -⟩
    · rcases hsince b since' hb with hold' | ⟨rfl, rfl, -⟩
      · exact h.apart a b since since' hne hold hold'
      · exact Or.inl (h.expired hkey hold)
    · rcases hsince b since' hb with hold' | ⟨rfl, -, -⟩
      · exact Or.inr (h.expired hkey hold')
      · exact absurd rfl hne

omit [DecidableEq τ] in
theorem Inv.move (h : Inv settings s) {ph : Phase τ} {releases : List (C × τ)}
    (htoken : ∀ token, ph.token = some token → (s.client c).token = some token)
    (hcurrent : ∀ token, ph.current = some token → (s.client c).current = some token)
    (hsince : ∀ since, ph.since = some since → (s.client c).since = some since ∧ ph.current = (s.client c).current)
    (hreleases : ∀ a token, (a, token) ∈ releases →
      (a, token) ∈ s.releases ∨ a = c ∧ ph.token = some token ∧ ph.current = none) :
    Inv settings { s.enter c ph with releases := releases } := by
  have hself : Function.update s.client c ph c = ph := Function.update_self ..
  refine h.enter (c := c) (p := ph) ?_ rfl rfl rfl rfl (fun _ _ howner => howner) hsince
  refine h.issued.next (fun _ _ howner => howner) ?_ (fun _ _ => Or.inl) ?_ ?_
  · apply Function.forall_update_iff s.client (fun a ph' => ∀ token, ph'.token = some token →
      (s.client a).token = some token ∨ s.issued token = some a) |>.mpr
    exact ⟨fun token hph => Or.inl (htoken token hph), fun a _ token ha => Or.inl ha⟩
  · intro a token ha
    rcases hreleases a token ha with hold | ⟨rfl, hph, hnone⟩
    · exact Or.inl hold
    · refine Or.inr ⟨h.issued.clients a token (htoken token hph), ?_⟩
      change (Function.update s.client a ph a).current ≠ some token
      rw [hself, hnone]
      nofun
  · apply Function.forall_update_iff s.client (fun a ph' => ∀ token, ph'.current = some token →
      (s.client a).current = some token ∨ (a, token) ∉ s.releases) |>.mpr
    exact ⟨fun token hph => Or.inl (hcurrent token hph), fun a _ token ha => Or.inl ha⟩

theorem Inv.acquire (h : Inv settings s) (hnew : s.issued token = none) : Inv settings
      { s.enter c (.acquiring token none) with issued := Function.update s.issued token (some c) } := by
  have hkept : ∀ token' owner, s.issued token' = some owner →
      Function.update s.issued token (some c) token' = some owner := by
    intro token' owner howner
    have hne : token' ≠ token := by
      rintro rfl
      rw [hnew] at howner
      cases howner
    rw [Function.update_of_ne hne, howner]
  refine h.enter (c := c) (p := .acquiring token none) ?_ rfl rfl rfl rfl hkept nofun
  refine h.issued.next hkept ?_ (fun _ _ => Or.inl) (fun _ _ => Or.inl) ?_
  · apply Function.forall_update_iff s.client (fun a ph' => ∀ token', ph'.token = some token' →
      (s.client a).token = some token' ∨ Function.update s.issued token (some c) token' = some a) |>.mpr
    refine ⟨fun token' htoken => Or.inr ?_, fun a _ token' ha => Or.inl ha⟩
    cases htoken
    exact Function.update_self ..
  · apply Function.forall_update_iff s.client (fun a ph' => ∀ token', ph'.current = some token' →
      (s.client a).current = some token' ∨ (a, token') ∉ s.releases) |>.mpr
    refine ⟨fun token' htoken => Or.inr fun hrelease => ?_, fun a _ token' ha => Or.inl ha⟩
    cases htoken
    have howner := h.issued.releases c token hrelease
    rw [hnew] at howner
    cases howner

theorem Inv.applyRelease (h : Inv settings s) (hrelease : (c, token) ∈ s.releases) : Inv settings
    { s with
      key := s.key.filter fun e => decide (releaseScript (some e.token) token = some e.token)
      releases := s.releases.erase (c, token) } := by
  refine ⟨?_, fun e he => h.latest e (Option.eq_some_of_filter_eq_some he), h.past, ?_, h.apart⟩
  · exact h.issued.next (fun _ _ howner => howner) (fun _ _ => Or.inl) (fun _ _ => Or.inl)
      (fun _ _ hp => Or.inl (List.mem_of_mem_erase hp)) fun _ _ => Or.inl
  · intro a since ha
    rcases h.held a since ha with hexpired | ⟨e, he, hcurrent, htime⟩
    · exact Or.inl hexpired
    · have hne : e.token ≠ token := by
        rintro rfl
        have howner := h.issued.clients a e.token (Phase.token_of_current hcurrent)
        rw [h.issued.releases c e.token hrelease] at howner
        cases howner
        exact h.issued.unreleased _ _ hcurrent hrelease
      refine Or.inr ⟨e, ?_, hcurrent, htime⟩
      change s.key.filter _ = some e
      rw [he, Option.filter_some, if_pos]
      exact decide_eq_true (releaseScript_other rfl hne)

theorem Inv.step {a : Action C τ} (h : Inv settings s) (hstep : Step settings s a t) : Inv settings t := by
  cases hstep with
  | acquire hc hnew => exact h.acquire hnew
  | @sendSet c token won hc =>
    refine h.commands (fun a token' hset => ?_) fun _ => id
    rcases List.mem_cons.mp hset with hnew | hold
    · cases hnew
      exact Or.inr (h.issued.clients c token (by rw [hc]; rfl))
    · exact Or.inl hold
  | setWon hset hwon =>
    have habsent : s.heldToken = none := (setNx_acquired hwon).1
    exact h.setWon hset (Option.map_eq_none_iff.mp habsent)
  | setRefused hset hwon => exact h.commands (fun _ _ hp => Or.inl (List.mem_of_mem_erase hp)) fun _ => id
  | dropSet => exact h.commands (fun _ _ hp => Or.inl (List.mem_of_mem_erase hp)) fun _ => id
  | @succeed c token won hc =>
    refine h.move (fun token' htoken => ?_) (fun token' htoken => ?_) (fun since hsince => ?_) fun _ _ => Or.inl
    · rw [hc]
      exact htoken
    · rw [hc]
      exact htoken
    · rw [hc]
      exact ⟨hsince, rfl⟩
  | @fail c token won hc =>
    refine h.move (fun token' htoken => ?_) nofun nofun fun _ _ => Or.inl
    rw [hc]
    exact htoken
  | @release c token hc =>
    refine h.move (fun token' htoken => ?_) nofun nofun fun a token' hrelease => ?_
    · cases htoken
      exact Phase.token_of_releasable hc
    · rcases List.mem_cons.mp hrelease with hnew | hold
      · cases hnew
        exact Or.inr ⟨rfl, rfl, rfl⟩
      · exact Or.inl hold
  | @releaseLost c token hc =>
    refine h.move (fun token' htoken => ?_) nofun nofun fun _ _ => Or.inl
    cases htoken
    exact Phase.token_of_releasable hc
  | applyRelease hrelease => exact h.applyRelease hrelease
  | dropRelease => exact h.commands (fun _ _ => Or.inl) fun _ => List.mem_of_mem_erase
  | tick hforward =>
    refine ⟨⟨h.issued.clients, h.issued.sets, h.issued.releases, h.issued.unreleased⟩, h.latest, ?_, ?_, h.apart⟩
    · intro a since ha
      exact Int.le_trans (h.past a since ha) hforward
    · intro a since ha
      rcases h.held a since ha with hexpired | hholds
      · exact Or.inl (Int.le_trans hexpired hforward)
      · exact Or.inr hholds
  | @expire e hkey hexpired =>
    refine ⟨⟨h.issued.clients, h.issued.sets, h.issued.releases, h.issued.unreleased⟩, nofun, h.past, ?_, h.apart⟩
    intro a since ha
    rcases h.held a since ha with hbefore | ⟨e', he', -, htime⟩
    · exact Or.inl hbefore
    · rw [hkey] at he'
      cases he'
      exact Or.inl (htime ▸ hexpired)

omit [DecidableEq C] [DecidableEq τ] in
theorem Inv.owned (h : Inv settings s) : Owned settings s := by
  refine ⟨h.latest, fun a b since since' hne ha hb hle => ?_⟩
  have hnow := h.past b since' hb
  have hpositive := settings.positive b
  rcases h.apart a b since since' hne ha hb with hfirst | hsecond
  · exact Int.le_trans hfirst hnow
  · have hafter : since' < since' + settings.timeout b := Int.lt_add_of_pos_right since' hpositive
    exact absurd (Int.le_trans hsecond hle) (Int.not_le.mpr hafter)

theorem Inv.sparesKey (h : Inv settings s) {a : Action C τ} (hstep : Step settings s a t) : SparesKey s (a, t) := by
  cases hstep with
  | @applyRelease c token hrelease =>
    intro hother
    cases hkey : s.key with
    | none => rfl
    | some e =>
      obtain ⟨w, hw, htoken, howner⟩ := h.latest e hkey
      have hne : e.token ≠ token := by
        rintro rfl
        have hclient := h.issued.releases c e.token hrelease
        rw [← htoken, howner] at hclient
        exact hother w hw (Option.some.inj hclient)
      change (some e).filter (fun e => decide (releaseScript (some e.token) token = some e.token)) = some e
      rw [Option.filter_some, if_pos]
      exact decide_eq_true (releaseScript_other rfl hne)
  | release | releaseLost | dropRelease => rfl
  | _ => trivial

/-- Whatever is late or lost, the key holds the token of the latest winner, nobody
else's release touches it, and a lock is in two hands only after its timeout. -/
theorem lock_ownership {path : List (Action C τ × State C τ)} (hpath : Path (Step settings) initial path) :
    Throughout reached (Owned settings) initial path ∧ Along reached SparesKey initial path := by
  have hinv : Throughout reached (Inv settings) initial path := by
    apply throughout_of_step _ hpath inv_initial
    exact fun s p hstep h => h.step hstep
  refine ⟨hinv.imp fun s h => h.owned, ?_⟩
  apply along_of_invariant (J := Inv settings) _ _ hpath inv_initial
  · exact fun s p h hstep => h.step hstep
  · exact fun s p h hstep => h.sparesKey hstep

def halfMinute : LockSettings Bool := ⟨fun _ => 30000000, fun _ => by decide⟩

/-- A client whose key has expired releases the lock under the next one. -/
theorem lock_ownership_late : ∃ path : List (Action Bool ℕ × State Bool ℕ),
    path.map Prod.fst = [.acquire false 1, .sendSet false, .applySet false 1, .succeed false, .tick 30000000, .expire,
      .acquire true 2, .sendSet true, .applySet true 2, .succeed true, .release false, .applyRelease false 1] ∧
      Throughout reached (Owned halfMinute) initial path ∧ Along reached SparesKey initial path := by
  refine ⟨[(_, _), (_, _), (_, _), (_, _), (_, _), (_, _), (_, _), (_, _), (_, _), (_, _), (_, _), (_, _)], rfl,
    lock_ownership (.cons (.acquire rfl rfl) (.cons (.sendSet rfl) (.cons (.setWon (.head _) rfl) (.cons (.succeed rfl)
      (.cons (.tick (by decide)) (.cons (.expire rfl (by decide)) (.cons (.acquire rfl rfl) (.cons (.sendSet rfl)
        (.cons (.setWon (.head _) rfl) (.cons (.succeed rfl) (.cons (.release rfl)
          (.cons (.applyRelease (.head _)) .nil))))))))))))⟩

end PyFaaS.LockClients
