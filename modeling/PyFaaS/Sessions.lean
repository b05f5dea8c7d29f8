import PyFaaS.Deactivation
import PyFaaS.Runs

/-!
# Tokens and the log-ins behind them

`shared/security/auth.py` signs tokens that name a user, a type and an expiry.
`login` and `refresh_token` give them out, and `get_current_user` takes them. The
JWT library is given: it verifies what it has signed, until the expiry.
-/

namespace PyFaaS.Sessions
open Api Transactions Runs

structure TokenClaims where
  sub : Text
  exp : ℤ
  type : Text
  deriving DecidableEq

/-- `jwt.encode` and `jwt.decode` with the secret key; `decode` reads the clock in
whole seconds and has no answer where it raises. -/
structure Jwt where
  encode : TokenClaims → Text
  decode : ℤ → Text → Option TokenClaims

/-- A token is verified exactly if it was signed with the key and is not past its expiry. -/
def Jwt.Verifies (jwt : Jwt) : Prop :=
  ∀ now token claims, jwt.decode now token = some claims ↔ jwt.encode claims = token ∧ now ≤ claims.exp

structure AuthSettings where
  accessTokenExpireMinutes : ℕ
  refreshTokenExpireDays : ℕ
  verifyPassword : Text → Text → Bool
  parseUuid : Text → Option Uuid

section
variable (jwt : Jwt) (auth : AuthSettings) (now : ℤ)

def accessClaims (subject : Text) : TokenClaims :=
  ⟨subject, now + auth.accessTokenExpireMinutes * 60, "access".toList⟩

def refreshClaims (subject : Text) : TokenClaims :=
  ⟨subject, now + auth.refreshTokenExpireDays * 86400, "refresh".toList⟩

def createAccessToken (subject : Text) : Text := jwt.encode (accessClaims auth now subject)

def createRefreshToken (subject : Text) : Text := jwt.encode (refreshClaims auth now subject)

def decodeToken (token : Text) : Option Claims :=
  (jwt.decode now token).map fun claims => ⟨some claims.type, some claims.sub⟩

def securityAt : Security where
  decodeToken := decodeToken jwt now
  createAccessToken := createAccessToken jwt auth now
  createRefreshToken := createRefreshToken jwt auth now
  verifyPassword := auth.verifyPassword
  parseUuid := auth.parseUuid
  accessTokenExpireMinutes := auth.accessTokenExpireMinutes

end

/-! ## The service over time -/

inductive Source where
  | password (plain : Text)
  | refresh (token : Text)

/-- A token that a response has given out, with the row of the user at that time. -/
structure Issue where
  token : Text
  claims : TokenClaims
  user : User
  issuedAt : ℤ
  source : Source

structure World where
  now : ℤ
  accounts : Accounts
  issued : List Issue

/-- The rows of the users may change in any way between two requests. -/
inductive Action where
  | advance (now : ℤ)
  | edit (accounts : Accounts)
  | login (username password : Text)
  | refresh (token : Text)

section
variable (settings : ApiSettings) (jwt : Jwt) (auth : AuthSettings)

def issues (now : ℤ) (user : User) (tokens : TokenResponse) (source : Source) : List Issue :=
  [⟨tokens.accessToken, accessClaims auth now (settings.uuidText user.id), user, now, source⟩,
    ⟨tokens.refreshToken, refreshClaims auth now (settings.uuidText user.id), user, now, source⟩]

def World.answer (s : World) (source : Source) :
    Except HttpError ((User × TokenResponse) × Accounts) → World
  | .error _ => s
  | .ok ((user, tokens), accounts) =>
    { s with
      accounts := accounts
      issued := issues settings auth s.now user tokens source ++ s.issued }

def step (s : World) : Action → Option World
  | .advance now => if s.now ≤ now then some { s with now := now } else none
  | .edit accounts => some { s with accounts := accounts }
  | .login username password =>
    some (s.answer settings auth (.password password)
      (login settings (securityAt jwt auth s.now) username password s.accounts))
  | .refresh token =>
    some (s.answer settings auth (.refresh token)
      (refreshToken settings (securityAt jwt auth s.now) token s.accounts))

end

/-- A client without the key has no signed token but those of the responses. -/
def Known (jwt : Jwt) (s : World) (token : Text) : Prop :=
  ∀ claims, jwt.encode claims = token → ∃ i ∈ s.issued, i.token = token

def Presented (jwt : Jwt) (s : World) : Action → Prop
  | .refresh token => Known jwt s token
  | _ => True

def Started (s : World) : Prop := s.issued = []

/-- The times at which tokens were given to the user in a session: at a log-in with
the user's password, and then behind a refresh token of the session, each time for an
active account. -/
inductive Session (auth : AuthSettings) (issued : List Issue) (u : Uuid) : ℤ → Prop
  | login {i : Issue} {plain : Text} (hi : i ∈ issued) (hsource : i.source = .password plain) (huser : i.user.id = u)
      (hactive : i.user.isActive = true) (hverified : auth.verifyPassword plain i.user.hashedPassword = true) :
      Session auth issued u i.issuedAt
  | refresh {i j : Issue} (hprev : Session auth issued u j.issuedAt) (hj : j ∈ issued)
      (htype : j.claims.type = "refresh".toList) (hi : i ∈ issued) (hsource : i.source = .refresh j.token)
      (huser : i.user.id = u) (hactive : i.user.isActive = true) (hafter : j.issuedAt ≤ i.issuedAt)
      (hbefore : i.issuedAt ≤ j.issuedAt + auth.refreshTokenExpireDays * 86400) : Session auth issued u i.issuedAt

variable {settings : ApiSettings} {jwt : Jwt} {auth : AuthSettings} {s t : World} {u : Uuid} {at' : ℤ} {token : Text}
  {issued later : List Issue}

theorem Session.mono (h : Session auth issued u at') (hsub : issued ⊆ later) : Session auth later u at' := by
  induction h with
  | login hi hsource huser hactive hverified => exact .login (hsub hi) hsource huser hactive hverified
  | refresh _ hj htype hi hsource huser hactive hafter hbefore ih =>
    exact .refresh ih (hsub hj) htype (hsub hi) hsource huser hactive hafter hbefore

/-! ## What the routes accept -/

theorem encode_injective (hlaw : jwt.Verifies) : Function.Injective jwt.encode := by
  intro a b h
  have ha := (hlaw (min a.exp b.exp) (jwt.encode a) a).mpr ⟨rfl, min_le_left ..⟩
  have hb := (hlaw (min a.exp b.exp) (jwt.encode a) b).mpr ⟨h.symm, min_le_right ..⟩
  exact Option.some.inj (ha.symm.trans hb)

theorem currentUser_accepts {accounts accounts' : Accounts} {user : User}
    (h : getCurrentUser (securityAt jwt auth s.now) token accounts = .ok (user, accounts')) :
    ∃ claims, jwt.decode s.now token = some claims ∧ claims.type = "access".toList ∧
      auth.parseUuid claims.sub = some user.id ∧ user ∈ accounts.users ∧ user.isActive = true := by
  simp only [getCurrentUser, found_bind_ok, require_bind_ok, query_bind, return_ok] at h
  obtain ⟨payload, hdecode, htype, sub, hsub, userId, hparse, user', hrow, hactive, hret⟩ := h
  obtain ⟨rfl, -⟩ := Prod.mk.inj hret
  obtain ⟨hmem, rfl⟩ := get_user_mem hrow
  obtain ⟨claims, hclaims, rfl⟩ := Option.map_eq_some_iff.mp hdecode
  obtain rfl := Option.some.inj hsub
  exact ⟨claims, hclaims, Option.some.inj (of_decide_eq_true htype), hparse, hmem, hactive⟩

theorem refresh_accepts {now : ℤ} {accounts accounts' : Accounts} {user : User} {tokens : TokenResponse}
    (h : refreshToken settings (securityAt jwt auth now) token accounts = .ok ((user, tokens), accounts')) :
    ∃ claims, jwt.decode now token = some claims ∧ claims.type = "refresh".toList ∧
      auth.parseUuid claims.sub = some user.id ∧ user.isActive = true ∧
      tokens = tokensFor settings (securityAt jwt auth now) user := by
  simp only [refreshToken, found_bind_ok, require_bind_ok, query_bind, return_ok] at h
  obtain ⟨payload, hdecode, htype, sub, hsub, userId, hparse, user', hrow, hactive, hret⟩ := h
  obtain ⟨hanswer, -⟩ := Prod.mk.inj hret
  obtain ⟨rfl, rfl⟩ := Prod.mk.inj hanswer
  obtain ⟨-, rfl⟩ := get_user_mem hrow
  obtain ⟨claims, hclaims, rfl⟩ := Option.map_eq_some_iff.mp hdecode
  obtain rfl := Option.some.inj (Option.eq_some_of_filter_eq_some hsub)
  exact ⟨claims, hclaims, Option.some.inj (of_decide_eq_true htype), hparse, hactive, rfl⟩

theorem login_accepts {now : ℤ} {username plain : Text} {accounts accounts' : Accounts} {user : User}
    {tokens : TokenResponse}
    (h : login settings (securityAt jwt auth now) username plain accounts = .ok ((user, tokens), accounts')) :
    auth.verifyPassword plain user.hashedPassword = true ∧ user.isActive = true ∧
      tokens = tokensFor settings (securityAt jwt auth now) user := by
  simp only [login, found_bind_ok, require_bind_ok, query_bind, return_ok] at h
  obtain ⟨user', hrow, hverify, hactive, hret⟩ := h
  obtain ⟨hanswer, -⟩ := Prod.mk.inj hret
  obtain ⟨rfl, rfl⟩ := Prod.mk.inj hanswer
  exact ⟨hverify, hactive, rfl⟩

/-! ## The invariant -/

structure Issue.Carries (settings : ApiSettings) (jwt : Jwt) (auth : AuthSettings) (i : Issue) : Prop where
  signed : i.token = jwt.encode i.claims
  subject : i.claims.sub = settings.uuidText i.user.id
  expires : i.claims.type = "access".toList ∧ i.claims.exp = i.issuedAt + auth.accessTokenExpireMinutes * 60 ∨
    i.claims.type = "refresh".toList ∧ i.claims.exp = i.issuedAt + auth.refreshTokenExpireDays * 86400

structure Sound (settings : ApiSettings) (jwt : Jwt) (auth : AuthSettings) (s : World) : Prop where
  carries : ∀ i ∈ s.issued, i.Carries settings jwt auth
  past : ∀ i ∈ s.issued, i.issuedAt ≤ s.now
  session : ∀ i ∈ s.issued, Session auth s.issued i.user.id i.issuedAt

theorem issues_carry {now : ℤ} {user : User} {source : Source} :
    ∀ i ∈ issues settings auth now user (tokensFor settings (securityAt jwt auth now) user) source,
      i.Carries settings jwt auth ∧ i.user = user ∧ i.issuedAt = now ∧ i.source = source := by
  intro i hi
  simp only [issues, List.mem_cons, List.not_mem_nil, or_false] at hi
  rcases hi with rfl | rfl
  · exact ⟨⟨rfl, rfl, Or.inl ⟨rfl, rfl⟩⟩, rfl, rfl, rfl⟩
  · exact ⟨⟨rfl, rfl, Or.inr ⟨rfl, rfl⟩⟩, rfl, rfl, rfl⟩

theorem Sound.issue {user : User} {source : Source} {accounts : Accounts} (hs : Sound settings jwt auth s)
    (hsession : ∀ issued, s.issued ⊆ issued →
      (∃ i ∈ issued, i.user = user ∧ i.issuedAt = s.now ∧ i.source = source) → Session auth issued user.id s.now) :
    Sound settings jwt auth { s with
      accounts := accounts
      issued := issues settings auth s.now user (tokensFor settings (securityAt jwt auth s.now) user) source ++
        s.issued } := by
  have hold : s.issued ⊆
      issues settings auth s.now user (tokensFor settings (securityAt jwt auth s.now) user) source ++ s.issued :=
    fun i hi => List.mem_append_right _ hi
  constructor
  · intro i hi
    rcases List.mem_append.mp hi with hnew | hprev
    · exact (issues_carry i hnew).1
    · exact hs.carries i hprev
  · intro i hi
    rcases List.mem_append.mp hi with hnew | hprev
    · exact (issues_carry i hnew).2.2.1.le
    · exact hs.past i hprev
  · intro i hi
    rcases List.mem_append.mp hi with hnew | hprev
    · obtain ⟨-, rfl, hat, hsource⟩ := issues_carry i hnew
      rw [hat]
      exact hsession _ hold ⟨i, hi, rfl, hat, hsource⟩
    · exact (hs.session i hprev).mono hold

theorem issued_of_decoded (hlaw : jwt.Verifies) (hs : Sound settings jwt auth s) (hknown : Known jwt s token)
    {claims : TokenClaims} (h : jwt.decode s.now token = some claims) :
    ∃ i ∈ s.issued, i.token = token ∧ i.claims = claims ∧ s.now ≤ claims.exp := by
  obtain ⟨hsigned, hexp⟩ := (hlaw s.now token claims).mp h
  obtain ⟨i, hi, rfl⟩ := hknown claims hsigned
  have hsame := encode_injective hlaw (hsigned.trans (hs.carries i hi).signed)
  exact ⟨i, hi, rfl, hsame.symm, hexp⟩

theorem access_ne_refresh : "access".toList ≠ "refresh".toList := by decide

theorem Sound.step {a : Action} (hlaw : jwt.Verifies)
    (hid : ∀ id, auth.parseUuid (settings.uuidText id) = some id) (hs : Sound settings jwt auth s)
    (h : FiresWhen (Presented jwt) (step settings jwt auth) s a t) : Sound settings jwt auth t := by
  obtain ⟨hpresented, hfires⟩ := h
  cases a with
  | advance now =>
    simp only [Sessions.step] at hfires
    split_ifs at hfires with hnow
    obtain rfl := Option.some.inj hfires
    exact ⟨hs.carries, fun i hi => (hs.past i hi).trans hnow, hs.session⟩
  | edit accounts =>
    obtain rfl := Option.some.inj hfires
    exact ⟨hs.carries, hs.past, hs.session⟩
  | login username plain =>
    obtain rfl := Option.some.inj hfires
    cases hlogin : login settings (securityAt jwt auth s.now) username plain s.accounts with
    | error e => exact hs
    | ok answer =>
      obtain ⟨⟨user, tokens⟩, accounts⟩ := answer
      obtain ⟨hverified, hactive, rfl⟩ := login_accepts hlogin
      refine hs.issue fun issued _ hnew => ?_
      obtain ⟨i, hi, rfl, hat, hsource⟩ := hnew
      rw [← hat]
      exact .login hi hsource rfl hactive hverified
  | refresh token =>
    obtain rfl := Option.some.inj hfires
    cases hrefresh : refreshToken settings (securityAt jwt auth s.now) token s.accounts with
    | error e => exact hs
    | ok answer =>
      obtain ⟨⟨user, tokens⟩, accounts⟩ := answer
      obtain ⟨claims, hdecode, htype, hparse, hactive, rfl⟩ := refresh_accepts hrefresh
      obtain ⟨j, hj, rfl, rfl, hexp⟩ := issued_of_decoded hlaw hs hpresented hdecode
      have hcarries := hs.carries j hj
      have hsame : j.user.id = user.id := by
        rw [hcarries.subject, hid] at hparse
        exact Option.some.inj hparse
      refine hs.issue fun issued hsub hnew => ?_
      obtain ⟨i, hi, rfl, hat, hsource⟩ := hnew
      rw [← hat]
      have hprev := (hs.session j hj).mono hsub
      rw [hsame] at hprev
      have hbefore : s.now ≤ j.issuedAt + auth.refreshTokenExpireDays * 86400 := by
        rcases hcarries.expires with ⟨haccess, -⟩ | ⟨-, hexpires⟩
        · exact absurd (haccess.symm.trans htype) access_ne_refresh
        · exact hexp.trans hexpires.le
      exact .refresh hprev (hsub hj) htype hi hsource rfl hactive (hat ▸ hs.past j hj) (hat ▸ hbefore)

theorem sound (hlaw : jwt.Verifies) (hid : ∀ id, auth.parseUuid (settings.uuidText id) = some id)
    (hs : Reachable (FiresWhen (Presented jwt) (step settings jwt auth)) Started s) : Sound settings jwt auth s := by
  refine Reachable.invariant ?_ (fun _ _ _ hs hstep => hs.step hlaw hid hstep) hs
  intro s hstarted
  have hempty : s.issued = [] := hstarted
  constructor <;> simp [hempty]

/-! ## The two kinds of tokens -/

theorem same_claims (hlaw : jwt.Verifies) {now now' : ℤ} {claims claims' : TokenClaims}
    (h : jwt.decode now token = some claims) (h' : jwt.decode now' token = some claims') : claims = claims' :=
  encode_injective hlaw (((hlaw now token claims).mp h).1.trans ((hlaw now' token claims').mp h').1.symm)

theorem refresh_refuses (hlaw : jwt.Verifies) {now : ℤ} {claims : TokenClaims}
    (h : jwt.decode now token = some claims) (htype : claims.type = "access".toList) (now' : ℤ) (accounts : Accounts) :
    ∃ e, refreshToken settings (securityAt jwt auth now') token accounts = .error e := by
  cases hrun : refreshToken settings (securityAt jwt auth now') token accounts with
  | error e => exact ⟨e, rfl⟩
  | ok answer =>
    obtain ⟨⟨user, tokens⟩, accounts'⟩ := answer
    obtain ⟨claims', hdecode, hrefresh, -⟩ := refresh_accepts hrun
    rw [← same_claims hlaw h hdecode, htype] at hrefresh
    exact absurd hrefresh access_ne_refresh

theorem access_refuses (hlaw : jwt.Verifies) {now : ℤ} {claims : TokenClaims}
    (h : jwt.decode now token = some claims) (htype : claims.type = "refresh".toList) (s' : World) :
    ∃ e, getCurrentUser (securityAt jwt auth s'.now) token s'.accounts = .error e := by
  cases hrun : getCurrentUser (securityAt jwt auth s'.now) token s'.accounts with
  | error e => exact ⟨e, rfl⟩
  | ok answer =>
    obtain ⟨user, accounts'⟩ := answer
    obtain ⟨claims', hdecode, haccess, -⟩ := currentUser_accepts hrun
    rw [← same_claims hlaw h hdecode, htype] at haccess
    exact absurd haccess.symm access_ne_refresh

/-- Whatever requests come before, a token that authenticates a user goes back to a
log-in with the user's password, over refresh tokens that were each used in time and
for an active account, and is not past its own time. No token does the work of the
other kind, now or later. -/
theorem session_behind (settings : ApiSettings) (jwt : Jwt) (auth : AuthSettings) (hlaw : jwt.Verifies)
    (hid : ∀ id, auth.parseUuid (settings.uuidText id) = some id) {s : World}
    (hs : Reachable (FiresWhen (Presented jwt) (step settings jwt auth)) Started s) {token : Text}
    (hknown : Known jwt s token) :
    (∀ user accounts, getCurrentUser (securityAt jwt auth s.now) token s.accounts = .ok (user, accounts) →
      user.isActive = true ∧
      (∃ at', Session auth s.issued user.id at' ∧ at' ≤ s.now ∧
        s.now ≤ at' + auth.accessTokenExpireMinutes * 60) ∧
      ∀ now accounts', ∃ e, refreshToken settings (securityAt jwt auth now) token accounts' = .error e) ∧
    (∀ user tokens accounts,
      refreshToken settings (securityAt jwt auth s.now) token s.accounts = .ok ((user, tokens), accounts) →
      user.isActive = true ∧
      (∃ at', Session auth s.issued user.id at' ∧ at' ≤ s.now ∧
        s.now ≤ at' + auth.refreshTokenExpireDays * 86400) ∧
      ∀ s' : World, ∃ e, getCurrentUser (securityAt jwt auth s'.now) token s'.accounts = .error e) := by
  have hsound := sound hlaw hid hs
  constructor
  · intro user accounts hrun
    obtain ⟨claims, hdecode, htype, hparse, -, hactive⟩ := currentUser_accepts hrun
    obtain ⟨i, hi, -, rfl, hexp⟩ := issued_of_decoded hlaw hsound hknown hdecode
    have hcarries := hsound.carries i hi
    rw [hcarries.subject, hid] at hparse
    have huser : i.user.id = user.id := Option.some.inj hparse
    refine ⟨hactive, ⟨i.issuedAt, huser ▸ hsound.session i hi, hsound.past i hi, ?_⟩,
      refresh_refuses hlaw hdecode htype⟩
    rcases hcarries.expires with ⟨-, hexpires⟩ | ⟨hrefresh, -⟩
    · exact hexp.trans hexpires.le
    · exact absurd (htype.symm.trans hrefresh) access_ne_refresh
  · intro user tokens accounts hrun
    obtain ⟨claims, hdecode, htype, hparse, hactive, -⟩ := refresh_accepts hrun
    obtain ⟨i, hi, -, rfl, hexp⟩ := issued_of_decoded hlaw hsound hknown hdecode
    have hcarries := hsound.carries i hi
    rw [hcarries.subject, hid] at hparse
    have huser : i.user.id = user.id := Option.some.inj hparse
    refine ⟨hactive, ⟨i.issuedAt, huser ▸ hsound.session i hi, hsound.past i hi, ?_⟩, access_refuses hlaw hdecode htype⟩
    rcases hcarries.expires with ⟨haccess, -⟩ | ⟨-, hexpires⟩
    · exact absurd (haccess.symm.trans htype) access_ne_refresh
    · exact hexp.trans hexpires.le

/-! ## A sample -/

def stroked (n : ℕ) (rest : Text) : Text := List.replicate n 'x' ++ '.' :: rest

def readStrokes (x : Text) : ℕ × Text := ((x.takeWhile (· == 'x')).length, (x.dropWhile (· == 'x')).tail)

theorem readStrokes_stroked (n : ℕ) (rest : Text) : readStrokes (stroked n rest) = (n, rest) := by
  induction n with
  | zero => rfl
  | succ n ih =>
    have hstep : stroked (n + 1) rest = 'x' :: stroked n rest := rfl
    obtain ⟨hcount, hrest⟩ := Prod.mk.inj ih
    rw [hstep]
    refine Prod.ext ?_ ?_
    · simpa [readStrokes] using hcount
    · simpa [readStrokes] using hrest

def plainEncode (c : TokenClaims) : Text :=
  stroked c.exp.toNat (stroked (-c.exp).toNat (stroked c.type.length (c.type ++ c.sub)))

def plainRead (token : Text) : TokenClaims :=
  let (late, rest) := readStrokes token
  let (early, rest) := readStrokes rest
  let (width, rest) := readStrokes rest
  ⟨rest.drop width, late - early, rest.take width⟩

/-- Signed by nothing, but read back as signed tokens are. -/
def plainJwt : Jwt where
  encode := plainEncode
  decode now token :=
    let claims := plainRead token
    if plainEncode claims = token ∧ now ≤ claims.exp then some claims else none

theorem plainRead_encode (c : TokenClaims) : plainRead (plainEncode c) = c := by
  obtain ⟨sub, exp, type⟩ := c
  have hexp : ((exp.toNat : ℕ) : ℤ) - ((-exp).toNat : ℕ) = exp := by omega
  simp only [plainRead, plainEncode, readStrokes_stroked, hexp, List.drop_left, List.take_left]

theorem plainJwt_verifies : plainJwt.Verifies := by
  intro now token claims
  simp only [plainJwt]
  constructor
  · intro h
    split_ifs at h with hsigned
    obtain rfl := Option.some.inj h
    exact hsigned
  · rintro ⟨rfl, hexp⟩
    rw [plainRead_encode]
    exact if_pos ⟨rfl, hexp⟩

def strokedIds : ApiSettings := { sampleSettings with uuidText := fun id => List.replicate id 'x' }

def plainAuth : AuthSettings := ⟨60, 7, fun plain hashed => decide (plain = hashed), fun x => some x.length⟩

def ada : User := ⟨7, "ada".toList, "ada@example.org".toList, "secret".toList, true, false⟩

def loggedIn : World :=
  { now := 0
    accounts := ⟨[ada], .empty⟩
    issued := issues strokedIds plainAuth 0 ada (tokensFor strokedIds (securityAt plainJwt plainAuth 0) ada)
      (.password "secret".toList) }

theorem loggedIn_reachable :
    Reachable (FiresWhen (Presented plainJwt) (step strokedIds plainJwt plainAuth)) Started loggedIn :=
  ⟨⟨0, ⟨[ada], .empty⟩, []⟩, [.login "ada".toList "secret".toList], rfl, .single ⟨trivial, rfl⟩⟩

def adasToken : Text := createAccessToken plainJwt plainAuth 0 (List.replicate 7 'x')

theorem adasToken_accepted :
    getCurrentUser (securityAt plainJwt plainAuth loggedIn.now) adasToken loggedIn.accounts =
      .ok (ada, loggedIn.accounts) := by
  have hverified : plainJwt.decode 0 adasToken = some (accessClaims plainAuth 0 (List.replicate 7 'x')) :=
    (plainJwt_verifies 0 adasToken _).mpr ⟨rfl, by decide⟩
  have hdecode : decodeToken plainJwt 0 adasToken = some ⟨some "access".toList, some (List.replicate 7 'x')⟩ := by
    rw [decodeToken, hverified]
    rfl
  simp only [getCurrentUser, securityAt, loggedIn, hdecode]
  rfl

theorem session_behind_sample : ada.isActive = true ∧
    (∃ at', Session plainAuth loggedIn.issued ada.id at' ∧ at' ≤ loggedIn.now ∧
      loggedIn.now ≤ at' + plainAuth.accessTokenExpireMinutes * 60) ∧
    ∀ now accounts', ∃ e, refreshToken strokedIds (securityAt plainJwt plainAuth now) adasToken accounts' = .error e :=
  (session_behind strokedIds plainJwt plainAuth plainJwt_verifies (fun id => by simp [plainAuth, strokedIds])
    loggedIn_reachable fun _ _ => ⟨_, List.mem_cons_self .., rfl⟩).1 ada loggedIn.accounts adasToken_accepted

end PyFaaS.Sessions
