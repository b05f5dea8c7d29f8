import PyFaaS.Routers.Auth
import PyFaaS.Routers.Ephemeral
import PyFaaS.TenantIsolation

/-!
# Deactivated accounts

Three of the four ways to authenticate look at `is_active`. What a request does
once it is authenticated stays with its user, so a deactivated account acts
exactly as long as it has a key.
-/

namespace PyFaaS.Api
open Noninterference Transactions Database Submissions
open EphemeralRate (EphemeralSettings)

/-! ## Requests with their credentials -/

inductive Credential where
  | accessToken (token : Text)
  | refreshToken (token : Text)
  | password (username plain : Text)
  | apiKey (value : Text)

inductive KeyRequest where
  | invoke (r : InvokeRequest)
  | ephemeral (gate : EphemeralGate) (body : EphemeralExecution) (count : Option ℕ) (wait : Bool)

inductive AccountRequest where
  | withToken (token : Text) (r : UserRequest)
  | withKey (xSopmKey : Text) (r : KeyRequest)

section
variable (settings : ApiSettings) (limits : EphemeralSettings) (security : Security) (g : Given)

def authenticate : Credential → AccountSession User
  | .accessToken token => getCurrentUser security token
  | .refreshToken token => do
    let (user, _) ← refreshToken settings security token
    return user
  | .password username plain => do
    let (user, _) ← login settings security username plain
    return user
  | .apiKey value => do
    let principal ← getPrincipal settings g (some value)
    return principal.user

def KeyRequest.handle (key : ApiKey) : KeyRequest → Session Response
  | .invoke r => r.handle g key
  | .ephemeral gate body count wait => executeEphemeral limits key gate g body count wait

def AccountRequest.handle : AccountRequest → AccountSession Response
  | .withToken token r => do
    let user ← getCurrentUser security token
    onDatabase (r.handle settings g user.id)
  | .withKey xSopmKey r => do
    let principal ← getPrincipal settings g (some xSopmKey)
    onDatabase (r.handle limits g principal.key)

def Credential.Of (s : Accounts) (user : User) : Credential → Prop
  | .accessToken token | .refreshToken token => security.subject token = some user.id
  | .password username plain =>
    username = user.username ∧ security.verifyPassword plain user.hashedPassword = true
  | .apiKey value => ∃ key, LiveKey settings s user value key

def AccountRequest.credential : AccountRequest → Credential
  | .withToken token _ => .accessToken token
  | .withKey xSopmKey _ => .apiKey xSopmKey

/-- No credential of the user is accepted, and no request leaves a new execution
that the user has triggered. -/
structure Powerless (s : Accounts) (user : User) : Prop where
  refused : ∀ g c, c.Of settings security s user → ∃ e, authenticate settings security g c s = .error e
  rejected : ∀ (r : AccountRequest) g, r.credential.Of settings security s user →
    ∃ e, r.handle settings limits security g s = .error e
  creates : ∀ (r : AccountRequest) g, Supplied settings g s.db →
    ∀ e ∈ (transact (r.handle settings limits security g) s).2.db.executions,
      e.triggeredBy = some user.id → e ∈ s.db.executions

end

structure Accounts.WellFormed (s : Accounts) : Prop where
  userIds : (s.users.map User.id).Nodup
  usernames : (s.users.map User.username).Nodup
  database : s.db.WellFormed

variable {settings : ApiSettings} {limits : EphemeralSettings} {security : Security} {g : Given} {u : Uuid}
  {s t : Accounts} {user : User}

/-! ## The ephemeral route is isolated -/

theorem enforceRateLimits_isolated {key : ApiKey} {count : Option ℕ} {P : Database → Prop}
    (hP : ∀ db, P db → Principal u key db) :
    IsolatedFor u P (enforceRateLimits limits key count) fun _ => P := by
  unfold enforceRateLimits
  refine Isolated.bind (Isolated.found _ _) fun count' => Isolated.bind (Isolated.require _ _) fun _ =>
    Isolated.bind (isolated_query ?_) fun active => (Isolated.require _ _).post fun _ _ _ h => h.1.1.1.1
  rintro db hdb ⟨⟨hp, -⟩, -⟩
  have hrow := hP db hp
  congr 1
  apply Table.filter_owned
  intro e he hactive
  simp only [EphemeralConcurrency.isActive, Bool.and_eq_true, decide_eq_true_eq] at hactive
  obtain ⟨k, hk, hid, rfl⟩ := hrow.row
  exact ownsExecution_iff.mpr (Or.inr ((hdb.executionRefs e he).key k hk (hid ▸ hactive.1.1)))

theorem executeEphemeral_isolated {key : ApiKey} (hkey : key.ownerId = u) (gate : EphemeralGate)
    (body : EphemeralExecution) (count : Option ℕ) (wait : Bool) :
    IsolatedFor u (fun db => Supplied settings g db ∧ Principal u key db)
      (executeEphemeral limits key gate g body count wait) fun _ _ => True := by
  unfold executeEphemeral enforceEphemeralGate
  refine Isolated.bind ((Isolated.require _ _).post fun _ _ _ h => h.1) fun _ =>
    Isolated.bind (enforceRateLimits_isolated fun _ h => h.2) fun _ =>
      Isolated.bind (submit_isolated ?_) fun execution =>
        Isolated.bind (awaitTerminal_isolated _ _ execution) fun _ => isolated_return _
  rintro db hdb ⟨hsupplied, hprincipal⟩
  refine ⟨ownsExecution_iff.mpr (Or.inr (congrArg some hkey)), ⟨nofun, nofun, nofun, ?_⟩, hsupplied.id⟩
  intro k hk hid
  rw [hprincipal.keyOwner hdb hk (Option.some.inj hid).symm, ← hkey]
  rfl

theorem KeyRequest.isolated (r : KeyRequest) {key : ApiKey} (hkey : key.ownerId = u) :
    IsolatedFor u (fun db => Supplied settings g db ∧ Principal u key db) (r.handle limits g key)
      fun _ _ => True := by
  cases r with
  | invoke r => exact r.isolated hkey
  | ephemeral gate body count wait => exact executeEphemeral_isolated hkey gate body count wait

/-! ## Whom a request acts for -/

theorem triggered_of_view {v : Uuid} {db db' : Database} (hview : view v db' = view v db) {e : Execution}
    (he : e ∈ db'.executions) (htriggered : e.triggeredBy = some v) : e ∈ db.executions := by
  have hmem : e ∈ (view v db').executions :=
    List.mem_filter.mpr ⟨he, ownsExecution_iff.mpr (Or.inr htriggered)⟩
  rw [hview] at hmem
  exact List.mem_of_mem_filter hmem

theorem spares_of_isolated {P : Database → Prop} {α : Type} {m : Session α} {Q : α → Database → Prop}
    (h : IsolatedFor u P m Q) {db db' : Database} {a : α} (hdb : WellFormed db) (hp : P db)
    (hrun : m db = .ok (a, db')) {v : Uuid} (hne : v ≠ u) : view v db' = view v db := by
  have hspares := (h.transact (s := db) (t := db) ⟨hdb, hdb, rfl, hp, hp⟩).2.2 v hne
  rwa [transact_ok hrun] at hspares

theorem handle_acts_for (hs : s.WellFormed) (hg : Supplied settings g s.db) {r : AccountRequest} {a : Response}
    (hrun : r.handle settings limits security g s = .ok (a, t)) :
    ∃ actor ∈ s.users, (actor.isActive = true ∨ ∃ value key, LiveKey settings s actor value key) ∧
      ∀ v, v ≠ actor.id → view v t.db = view v s.db := by
  cases r with
  | withToken token r =>
    obtain ⟨actor, s', hauth, hrest⟩ := bind_ok.mp hrun
    obtain ⟨rfl, hactor, -, hactive⟩ := getCurrentUser_ok hauth
    obtain ⟨a', db, hdb, hret⟩ := onDatabase_ok.mp hrest
    obtain ⟨-, rfl⟩ := Prod.mk.inj hret
    refine ⟨actor, hactor, Or.inl hactive, fun v hne => ?_⟩
    exact spares_of_isolated r.isolated hs.database hg hdb hne
  | withKey xSopmKey r =>
    obtain ⟨principal, s', hauth, hrest⟩ := bind_ok.mp hrun
    obtain ⟨hactor, ⟨key, hlive, hkey⟩, rfl⟩ := getPrincipal_ok hauth
    obtain ⟨a', db, hdb, hret⟩ := onDatabase_ok.mp hrest
    obtain ⟨-, rfl⟩ := Prod.mk.inj hret
    refine ⟨principal.user, hactor, Or.inr ⟨_, key, hlive⟩, fun v hne => ?_⟩
    rw [hkey] at hdb
    have hconfined : Confined principal.user.id
        (updateApiKey key.id fun row => { row with lastUsedAt := some g.now }) s.db :=
      updateApiKey_confined hs.database hlive.row hlive.owner fun _ => ⟨rfl, rfl, rfl⟩
    have hsupplied : Supplied settings g
        (updateApiKey key.id (fun row => { row with lastUsedAt := some g.now }) s.db) :=
      supplied_updateApiKey hg fun _ => ⟨rfl, rfl⟩
    have hrow : ∃ k ∈ (updateApiKey key.id (fun row => { row with lastUsedAt := some g.now }) s.db).apiKeys,
        k.id = key.id ∧ k.ownerId = principal.user.id :=
      ⟨_, List.mem_map.mpr ⟨key, hlive.row, if_pos rfl⟩, rfl, hlive.owner⟩
    have hview := spares_of_isolated (r.isolated hlive.owner) hconfined.wellFormed
      ⟨hsupplied, hlive.owner, hrow⟩ hdb hne
    exact hview.trans (hconfined.others v hne)

/-! ## Deactivated accounts -/

theorem user_unique (hs : s.WellFormed) {other : User} (huser : user ∈ s.users) (hother : other ∈ s.users)
    (hid : other.id = user.id) : other = user :=
  List.inj_on_of_nodup_map hs.userIds hother huser hid

theorem authenticate_token {token : Text} {actor : User}
    (hrun : authenticate settings security g (.accessToken token) s = .ok (actor, t) ∨
      authenticate settings security g (.refreshToken token) s = .ok (actor, t)) :
    actor ∈ s.users ∧ security.subject token = some actor.id ∧ actor.isActive = true := by
  rcases hrun with hrun | hrun
  · exact (getCurrentUser_ok hrun).2
  · obtain ⟨answer, s', hrefresh, hret⟩ := bind_ok.mp hrun
    obtain ⟨rfl, rfl⟩ := Prod.mk.inj (return_ok.mp hret)
    exact (refreshToken_ok hrefresh).2

theorem authenticate_password {username plain : Text} {actor : User}
    (hrun : authenticate settings security g (.password username plain) s = .ok (actor, t)) :
    actor ∈ s.users ∧ actor.username = username ∧ actor.isActive = true := by
  obtain ⟨answer, s', hlogin, hret⟩ := bind_ok.mp hrun
  obtain ⟨rfl, rfl⟩ := Prod.mk.inj (return_ok.mp hret)
  exact (login_ok hlogin).2

theorem authenticate_apiKey {value : Text} {key : ApiKey} (huser : user ∈ s.users)
    (hlive : LiveKey settings s user value key) :
    ∃ p, authenticate settings security g (.apiKey value) s = .ok p := by
  obtain ⟨p, hp⟩ := getPrincipal_of_liveKey (g := g) huser hlive
  exact ⟨_, bind_ok.mpr ⟨p.1, p.2, hp, rfl⟩⟩

theorem refused_of_inactive (hs : s.WellFormed) (huser : user ∈ s.users) (hinactive : user.isActive = false)
    (hkeys : ∀ value key, ¬ LiveKey settings s user value key) {c : Credential}
    (hc : c.Of settings security s user) : ∃ e, authenticate settings security g c s = .error e := by
  cases hrun : authenticate settings security g c s with
  | error e => exact ⟨e, rfl⟩
  | ok p =>
    have htoken : ∀ token, security.subject token = some user.id →
        ¬ (p.1 ∈ s.users ∧ security.subject token = some p.1.id ∧ p.1.isActive = true) := by
      rintro token hsubject ⟨hactor, hactorId, hactive⟩
      obtain hsame := user_unique hs huser hactor (Option.some.inj (hactorId.symm.trans hsubject))
      rw [hsame, hinactive] at hactive
      cases hactive
    cases c with
    | accessToken token => exact absurd (authenticate_token (Or.inl hrun)) (htoken token hc)
    | refreshToken token => exact absurd (authenticate_token (Or.inr hrun)) (htoken token hc)
    | password username plain =>
      obtain ⟨hactor, hname, hactive⟩ := authenticate_password hrun
      have hsame : p.1 = user := List.inj_on_of_nodup_map hs.usernames hactor huser (hname.trans hc.1)
      rw [hsame, hinactive] at hactive
      cases hactive
    | apiKey value =>
      obtain ⟨key, hlive⟩ := hc
      exact absurd hlive (hkeys value key)

theorem authenticated_of_handle {r : AccountRequest} {p : Response × Accounts}
    (hrun : r.handle settings limits security g s = .ok p) :
    ∃ q, authenticate settings security g r.credential s = .ok q := by
  cases r with
  | withToken token r =>
    obtain ⟨actor, s', hauth, -⟩ := bind_ok.mp hrun
    exact ⟨_, hauth⟩
  | withKey xSopmKey r =>
    obtain ⟨principal, s', hauth, -⟩ := bind_ok.mp hrun
    exact ⟨_, bind_ok.mpr ⟨principal, s', hauth, rfl⟩⟩

theorem rejected_of_refused {r : AccountRequest}
    (h : ∃ e, authenticate settings security g r.credential s = .error e) :
    ∃ e, r.handle settings limits security g s = .error e := by
  cases hrun : r.handle settings limits security g s with
  | error e => exact ⟨e, rfl⟩
  | ok p =>
    obtain ⟨e, herror⟩ := h
    obtain ⟨q, hok⟩ := authenticated_of_handle hrun
    rw [herror] at hok
    cases hok

theorem creates_of_inactive (hs : s.WellFormed) (huser : user ∈ s.users) (hinactive : user.isActive = false)
    (hkeys : ∀ value key, ¬ LiveKey settings s user value key) (r : AccountRequest) (hg : Supplied settings g s.db) :
    ∀ e ∈ (transact (r.handle settings limits security g) s).2.db.executions,
      e.triggeredBy = some user.id → e ∈ s.db.executions := by
  intro e he htriggered
  cases hrun : r.handle settings limits security g s with
  | error err => rwa [transact_error hrun] at he
  | ok p =>
    rw [transact_ok hrun] at he
    obtain ⟨actor, hactor, hauth, hspares⟩ := handle_acts_for hs hg hrun
    have hne : user.id ≠ actor.id := by
      intro hid
      obtain rfl := user_unique hs huser hactor hid.symm
      rcases hauth with hactive | ⟨value, key, hlive⟩
      · rw [hinactive] at hactive
        cases hactive
      · exact hkeys value key hlive
    exact triggered_of_view (hspares user.id hne) he htriggered

/-- A deactivated account can do nothing exactly if it has no key that is not revoked. -/
theorem deactivated_powerless_iff (hs : s.WellFormed) (huser : user ∈ s.users) (hinactive : user.isActive = false) :
    Powerless settings limits security s user ↔ ∀ value key, ¬ LiveKey settings s user value key := by
  constructor
  · intro hpowerless value key hlive
    have g : Given := ⟨0, 0, 0, [], fun _ => false, none, [], true⟩
    obtain ⟨e, herror⟩ := hpowerless.refused g (.apiKey value) ⟨key, hlive⟩
    obtain ⟨p, hok⟩ : ∃ p, authenticate settings security g (.apiKey value) s = .ok p :=
      authenticate_apiKey huser hlive
    rw [hok] at herror
    cases herror
  · intro hkeys
    exact ⟨fun g c hc => refused_of_inactive hs huser hinactive hkeys hc,
      fun r g hc => rejected_of_refused (refused_of_inactive hs huser hinactive hkeys hc),
      fun r g hg => creates_of_inactive hs huser hinactive hkeys r hg⟩

/-! A deactivated account without a key, and one with a key. -/

def sampleAccount : User := ⟨7, "ada".toList, "ada@example.org".toList, "x".toList, false, false⟩

def sampleSecurity : Security where
  decodeToken token := if token = "token".toList then some ⟨some "access".toList, some "7".toList⟩ else none
  createAccessToken _ := "token".toList
  createRefreshToken _ := []
  verifyPassword plain hashed := decide (plain = hashed)
  parseUuid sub := if sub = "7".toList then some 7 else none
  accessTokenExpireMinutes := 30

def keylessAccounts : Accounts := ⟨[sampleAccount], .empty⟩

theorem keylessAccounts_wellFormed : keylessAccounts.WellFormed :=
  ⟨List.nodup_singleton _, List.nodup_singleton _, wellFormed_empty⟩

theorem deactivated_powerless_iff_keyless :
    Powerless sampleSettings ⟨fun _ => [], 20, 5⟩ sampleSecurity keylessAccounts sampleAccount := by
  apply (deactivated_powerless_iff keylessAccounts_wellFormed (List.mem_singleton_self _) rfl).mpr
  intro value key hlive
  cases hlive.row

def ownedKey : ApiKey := ⟨3, 7, "ci".toList, "key".toList, "key".toList, none, none, 0⟩

def keyedAccounts : Accounts := ⟨[sampleAccount], insertApiKey ownedKey .empty⟩

theorem keyedAccounts_wellFormed : keyedAccounts.WellFormed := by
  have hfresh : Fresh .empty ownedKey.id := by constructor <;> exact fun _ h => by cases h
  have hhash : ∀ k ∈ Database.empty.apiKeys, k.keyHash ≠ ownedKey.keyHash := fun _ h => by cases h
  exact ⟨List.nodup_singleton _, List.nodup_singleton _,
    (insertApiKey_confined wellFormed_empty rfl hfresh hhash).wellFormed⟩

def oneLiner : EphemeralExecution := ⟨"def handler(): return 1".toList, "handler.handler".toList, .obj [], 30, 128⟩

def ownedExecution : Execution :=
  (newEphemeralExecution ownedKey ⟨0, 9, 0, [], fun _ => false, none, [], true⟩ oneLiner).row

/-- With the key of a deactivated account code still runs. -/
theorem deactivated_account_executes : ¬ ∀ (settings : ApiSettings) (limits : EphemeralSettings)
    (security : Security) (s : Accounts) (user : User), s.WellFormed → user ∈ s.users → user.isActive = false →
    Powerless settings limits security s user := by
  intro hclaim
  have hpowerless := hclaim sampleSettings ⟨fun _ => [], 20, 5⟩ sampleSecurity keyedAccounts sampleAccount
    keyedAccounts_wellFormed (List.mem_singleton_self _) rfl
  have hnew := hpowerless.creates (.withKey "key".toList (.ephemeral ⟨true, false⟩ oneLiner (some 1) false))
    ⟨0, 9, 0, [], fun _ => false, none, [], true⟩ (by decide) ownedExecution (by decide) rfl
  cases hnew

end PyFaaS.Api
