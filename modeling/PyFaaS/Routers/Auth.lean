import PyFaaS.Routers.Keys

/-!
# `api/routers/auth.py` and the dependencies that authenticate a request

The users stand beside the tables of the resource routers. The libraries for
tokens and passwords are given.
-/

namespace PyFaaS.Api
open Transactions Database

structure User where
  id : Uuid
  username : Text
  email : Text
  hashedPassword : Text
  isActive : Bool
  isSuperuser : Bool
  deriving DecidableEq

instance : Keyed User Uuid := ⟨User.id⟩

structure Accounts where
  users : List User
  db : Database

abbrev AccountSession := StateT Accounts (Except HttpError)

def onDatabase {α : Type} (m : Session α) : AccountSession α := fun s =>
  (m s.db).map fun p => (p.1, { s with db := p.2 })

structure Claims where
  type : Option Text
  sub : Option Text

/-- `decodeToken` has no answer where jose raises `JWTError`, and `parseUuid` none
where `uuid.UUID` raises. -/
structure Security where
  decodeToken : Text → Option Claims
  createAccessToken : Text → Text
  createRefreshToken : Text → Text
  verifyPassword : Text → Text → Bool
  parseUuid : Text → Option Uuid
  accessTokenExpireMinutes : ℕ

structure TokenResponse where
  accessToken : Text
  refreshToken : Text
  expiresIn : ℕ
  deriving DecidableEq

section
variable (settings : ApiSettings) (security : Security) (g : Given)

def getCurrentUser (token : Text) : AccountSession User := do
  let credentialsException : HttpError := .exception 401 "Could not validate credentials".toList
  let payload ← found (security.decodeToken token) credentialsException
  require (decide (payload.type = some "access".toList)) credentialsException
  let sub ← found payload.sub credentialsException
  let userId ← found (security.parseUuid sub) .internal
  let row ← query fun s => Table.get? s.users userId
  let user ← found row credentialsException
  require user.isActive credentialsException
  return user

def tokensFor (user : User) : TokenResponse where
  accessToken := security.createAccessToken (settings.uuidText user.id)
  refreshToken := security.createRefreshToken (settings.uuidText user.id)
  expiresIn := security.accessTokenExpireMinutes * 60

def login (username password : Text) : AccountSession (User × TokenResponse) := do
  let incorrect : HttpError := .exception 401 "Incorrect username or password".toList
  let row ← query fun s => s.users.find? fun user => decide (user.username = username)
  let user ← found row incorrect
  require (security.verifyPassword password user.hashedPassword) incorrect
  require user.isActive (.exception 403 "Account is inactive".toList)
  return (user, tokensFor settings security user)

def refreshToken (token : Text) : AccountSession (User × TokenResponse) := do
  let credentialsException : HttpError := .exception 401 "Invalid refresh token".toList
  let payload ← found (security.decodeToken token) credentialsException
  require (decide (payload.type = some "refresh".toList)) credentialsException
  let sub ← found (payload.sub.filter fun sub => !sub.isEmpty) credentialsException
  let userId ← found (security.parseUuid sub) .internal
  let row ← query fun s => Table.get? s.users userId
  let user ← found row credentialsException
  require user.isActive credentialsException
  return (user, tokensFor settings security user)

structure ApiKeyPrincipal where
  key : ApiKey
  user : User

def Accounts.principals (s : Accounts) : List ApiKeyPrincipal :=
  s.db.apiKeys.flatMap fun key =>
    (s.users.filter fun user => decide (key.ownerId = user.id)).map fun user => ⟨key, user⟩

/-- `get_api_key_principal` with the user that it joins. -/
def getPrincipal (xSopmKey : Option Text) : AccountSession ApiKeyPrincipal := do
  let value ← found (xSopmKey.filter fun value => !value.isEmpty) (.exception 401 "Missing API key".toList)
  let row ← query fun s => s.principals.find? fun p =>
    decide (p.key.keyHash = settings.hashApiKey value) && p.key.revokedAt.isNone
  let p ← found row (.exception 401 "Invalid API key".toList)
  onDatabase (write (updateApiKey p.key.id fun row => { row with lastUsedAt := some g.now }))
  return { p with key := { p.key with lastUsedAt := some g.now } }

end

/-! ## What has authenticated -/

variable {settings : ApiSettings} {security : Security} {g : Given} {s t : Accounts}

theorem onDatabase_ok {α : Type} {m : Session α} {p : α × Accounts} :
    onDatabase m s = .ok p ↔ ∃ a db, m s.db = .ok (a, db) ∧ p = (a, { s with db := db }) := by
  unfold onDatabase
  cases h : m s.db with
  | error e => simp [Except.map]
  | ok q =>
    simp only [Except.map, Except.ok.injEq]
    constructor
    · rintro rfl
      exact ⟨q.1, q.2, rfl, rfl⟩
    · rintro ⟨a, db, rfl, rfl⟩
      rfl

theorem mem_principals {p : ApiKeyPrincipal} :
    p ∈ s.principals ↔ p.key ∈ s.db.apiKeys ∧ p.user ∈ s.users ∧ p.key.ownerId = p.user.id := by
  simp only [Accounts.principals, List.mem_flatMap, List.mem_map, List.mem_filter, decide_eq_true_eq]
  constructor
  · rintro ⟨key, hkey, user, ⟨huser, howner⟩, rfl⟩
    exact ⟨hkey, huser, howner⟩
  · rintro ⟨hkey, huser, howner⟩
    exact ⟨p.key, hkey, p.user, ⟨huser, howner⟩, rfl⟩

theorem get_user_mem {userId : Uuid} {user : User} (h : Table.get? s.users userId = some user) :
    user ∈ s.users ∧ user.id = userId :=
  ⟨List.mem_of_find?_eq_some h, Table.key_of_get? h⟩

def Security.subject (security : Security) (token : Text) : Option Uuid :=
  ((security.decodeToken token).bind Claims.sub).bind security.parseUuid

theorem getCurrentUser_ok {token : Text} {user : User} (h : getCurrentUser security token s = .ok (user, t)) :
    s = t ∧ user ∈ s.users ∧ security.subject token = some user.id ∧ user.isActive = true := by
  simp only [getCurrentUser, found_bind_ok, require_bind_ok, query_bind, return_ok] at h
  obtain ⟨payload, hdecode, -, sub, hsub, userId, hparse, user', hrow, hactive, hret⟩ := h
  obtain ⟨rfl, rfl⟩ := Prod.mk.inj hret
  obtain ⟨hmem, rfl⟩ := get_user_mem hrow
  exact ⟨rfl, hmem, by simp [Security.subject, hdecode, hsub, hparse], hactive⟩

theorem refreshToken_ok {token : Text} {user : User} {tokens : TokenResponse}
    (h : refreshToken settings security token s = .ok ((user, tokens), t)) :
    s = t ∧ user ∈ s.users ∧ security.subject token = some user.id ∧ user.isActive = true := by
  simp only [refreshToken, found_bind_ok, require_bind_ok, query_bind, return_ok] at h
  obtain ⟨payload, hdecode, -, sub, hsub, userId, hparse, user', hrow, hactive, hret⟩ := h
  obtain ⟨hanswer, rfl⟩ := Prod.mk.inj hret
  obtain ⟨rfl, -⟩ := Prod.mk.inj hanswer
  obtain ⟨hmem, rfl⟩ := get_user_mem hrow
  have hsub' := Option.eq_some_of_filter_eq_some hsub
  exact ⟨rfl, hmem, by simp [Security.subject, hdecode, hsub', hparse], hactive⟩

theorem login_ok {username password : Text} {user : User} {tokens : TokenResponse}
    (h : login settings security username password s = .ok ((user, tokens), t)) :
    s = t ∧ user ∈ s.users ∧ user.username = username ∧ user.isActive = true := by
  simp only [login, found_bind_ok, require_bind_ok, query_bind, return_ok] at h
  obtain ⟨user', hrow, -, hactive, hret⟩ := h
  obtain ⟨hanswer, rfl⟩ := Prod.mk.inj hret
  obtain ⟨rfl, -⟩ := Prod.mk.inj hanswer
  have hname := List.find?_some hrow
  exact ⟨rfl, List.mem_of_find?_eq_some hrow, of_decide_eq_true hname, hactive⟩

structure LiveKey (settings : ApiSettings) (s : Accounts) (user : User) (value : Text) (key : ApiKey) : Prop where
  nonempty : value ≠ []
  row : key ∈ s.db.apiKeys
  hash : key.keyHash = settings.hashApiKey value
  unrevoked : key.revokedAt = none
  owner : key.ownerId = user.id

theorem getPrincipal_ok {value : Text} {p : ApiKeyPrincipal}
    (h : getPrincipal settings g (some value) s = .ok (p, t)) :
    p.user ∈ s.users ∧ (∃ key, LiveKey settings s p.user value key ∧ p.key = { key with lastUsedAt := some g.now }) ∧
      t = { s with db := updateApiKey p.key.id (fun row => { row with lastUsedAt := some g.now }) s.db } := by
  simp only [getPrincipal, found_bind_ok, query_bind] at h
  obtain ⟨value', hvalue, p', hrow, hrest⟩ := h
  obtain rfl : value = value' := Option.some.inj (Option.eq_some_of_filter_eq_some hvalue)
  obtain ⟨written, t', hwrite, hret⟩ := bind_ok.mp hrest
  obtain ⟨written', db, hdb, hwritten⟩ := onDatabase_ok.mp hwrite
  obtain ⟨-, rfl⟩ := Prod.mk.inj (Except.ok.inj hdb)
  obtain ⟨-, rfl⟩ := Prod.mk.inj hwritten
  obtain ⟨rfl, rfl⟩ := Prod.mk.inj (return_ok.mp hret)
  obtain ⟨hkey, huser, howner⟩ := mem_principals.mp (List.mem_of_find?_eq_some hrow)
  have hprop := List.find?_some hrow
  simp only [Bool.and_eq_true, decide_eq_true_eq, Option.isNone_iff_eq_none] at hprop
  have hnonempty := Option.filter_eq_some_iff.mp hvalue
  refine ⟨huser, ⟨p'.key, ⟨?_, hkey, hprop.1, hprop.2, howner⟩, rfl⟩, rfl⟩
  simpa using hnonempty.2

theorem getPrincipal_of_liveKey {user : User} (huser : user ∈ s.users) {value : Text} {key : ApiKey}
    (h : LiveKey settings s user value key) : ∃ r, getPrincipal settings g (some value) s = .ok r := by
  have hfound : (s.principals.find? fun p =>
      decide (p.key.keyHash = settings.hashApiKey value) && p.key.revokedAt.isNone).isSome := by
    apply List.find?_isSome.mpr
    exact ⟨⟨key, user⟩, mem_principals.mpr ⟨h.row, huser, h.owner⟩, by simp [h.hash, h.unrevoked]⟩
  obtain ⟨p, hp⟩ := Option.isSome_iff_exists.mp hfound
  have hvalue : (some value).filter (fun value => !value.isEmpty) = some value := by
    simp [Option.filter, h.nonempty]
  rw [getPrincipal, hvalue, found_some_bind, query_bind, hp]
  exact ⟨_, rfl⟩

end PyFaaS.Api
