import Llmtrace.Auth.Cookies
import Llmtrace.Auth.Login
import Llmtrace.Storage.Retention

/-! Sign-in sessions (`auth.rs`, `storage/audit.rs`, `storage/retention.rs`): the two tables
    `ui_sessions` and `oauth_states`, and the requests that work on them.

    A request is cut at its awaits, and between two of its parts any number of others run. Clocks of the
    application and of the database are separate: every part is given the instant it reads.

        login          verify ▶ record ─────────────────────────────▶ insert session
        oauth start    insert state
        oauth callback check cookie ▶ consume state ▶ ask provider ──▶ insert session
        logout, revocation, retention                                  delete sessions

    Tokens that were drawn and sessions that were created are kept as history. -/

namespace Llmtrace.Auth
open Schemes

/-- `LoginMethod` -/
inductive LoginMethod where
  | localAdmin | oauth
  deriving DecidableEq

/-- `LoginMethod::as_str` -/
def LoginMethod.asStr : LoginMethod → List Char
  | .localAdmin => "local".toList
  | .oauth => "oauth".toList

/-- `LoginMethod::from_str` -/
def LoginMethod.parse (value : List Char) : Option LoginMethod :=
  if value = "local".toList then some .localAdmin
  else if value = "oauth".toList then some .oauth
  else none

theorem LoginMethod.parse_asStr (m : LoginMethod) : LoginMethod.parse m.asStr = some m := by
  cases m <;> decide

/-- Who is signed in. -/
structure MeResponse where
  userId : List Char
  displayName : List Char
  loginMethod : LoginMethod
  deriving DecidableEq

/-- The section `auth.local_admin`. -/
structure LocalAdminConfig where
  username : List Char
  password : Option (List Char)
  passwordHash : Option (List Char)

/-- The section `auth.oauth`. -/
structure OAuthConfig where
  enabled : Bool
  issuerUrl : List Char
  clientId : List Char
  requireEmailVerified : Bool
  allowedEmails : List (List Char)
  allowedDomains : List (List Char)

/-- `server.public_url` and what is read of `auth`. -/
structure AuthConfig where
  publicUrl : List Char
  sessionTtlHours : ℤ
  loginRateLimit : LoginRateLimitConfig
  localAdmin : LocalAdminConfig
  oauth : OAuthConfig

/-- An OAuth state is good for ten minutes. -/
def oauthStateTtl : ℤ := 10 * Storage.minute

/-- The lifetime of a session, from `session_ttl_hours`. -/
def sessionTtl (cfg : AuthConfig) : ℤ := cfg.sessionTtlHours * (60 * Storage.minute)

section
variable (cfg : AuthConfig) (lib : AuthLib)

/-! ### Local credentials -/

/-- The comparison of SHA-256 digests. -/
def constantTimeEq (left right : Bytes) : Bool := lib.sha256Hex left == lib.sha256Hex right

/-- `verify_password`: against the Argon2 hash where it is one, else against the development password. -/
def verifyPassword (password : List Char) (hash developmentPassword : Option (List Char)) : Bool :=
  match hash.bind lib.passwordHash with
  | some matchesHash => matchesHash (utf8 password)
  | none => developmentPassword.any fun expected => constantTimeEq lib (utf8 expected) (utf8 password)

/-- `verify_local_admin_credentials` -/
def verifyLocalAdminCredentials (payload : LoginRequest) : Bool :=
  let admin := cfg.localAdmin
  verifyPassword lib payload.password admin.passwordHash admin.password &&
    constantTimeEq lib (utf8 admin.username) (utf8 payload.username)

/-- The user that a login with the right password creates a session for. -/
def localUser : MeResponse := ⟨cfg.localAdmin.username, cfg.localAdmin.username, .localAdmin⟩

/-! ### The OAuth provider -/

/-- The endpoints of the provider's metadata. -/
structure OidcMetadata where
  authorizationEndpoint : Option (List Char)
  tokenEndpoint : Option (List Char)
  userinfoEndpoint : Option (List Char)

/-- The check of one endpoint in `validate_oauth_metadata_endpoints`. -/
def validateOauthMetadataEndpoint (field : String) (endpoint : Option (List Char)) : Except String Unit :=
  match endpoint with
  | none => .ok ()
  | some endpoint =>
    match lib.parseUrl endpoint with
    | none => .error s!"oauth {field} is not a valid URL"
    | some url =>
      if url.host.isNone then .error s!"oauth {field} must include a host"
      else if url.scheme ≠ "http".toList ∧ url.scheme ≠ "https".toList then
        .error s!"oauth {field} must use http or https"
      else if url.username ≠ [] ∨ url.password.isSome then
        .error s!"oauth {field} must not contain credentials"
      else .ok ()

/-- `validate_oauth_metadata_endpoints` -/
def validateOauthMetadataEndpoints (metadata : OidcMetadata) : Except String Unit := do
  validateOauthMetadataEndpoint lib "authorization_endpoint" metadata.authorizationEndpoint
  validateOauthMetadataEndpoint lib "token_endpoint" metadata.tokenEndpoint
  validateOauthMetadataEndpoint lib "userinfo_endpoint" metadata.userinfoEndpoint

/-- `discovery` is the answer to the request for the metadata, `none` when it fails or is no success. -/
def oauthMetadata (discovery : Option (Except String OidcMetadata)) : Except String OidcMetadata := do
  let issuer := (cfg.oauth.issuerUrl.reverse.dropWhile (· == '/')).reverse
  let metadata ← discovery.getD (.ok ⟨some (issuer ++ "/authorize".toList),
    some (issuer ++ "/token".toList), some (issuer ++ "/userinfo".toList)⟩)
  validateOauthMetadataEndpoints lib metadata
  return metadata

/-- `eq_ignore_ascii_case` -/
def eqIgnoreAsciiCase (left right : List Char) : Bool := toAsciiLowercase left == toAsciiLowercase right

/-- `enforce_oauth_email_verified` -/
def enforceOauthEmailVerified (userinfo : Json) : Except String Unit :=
  if cfg.oauth.requireEmailVerified then
    match (userinfo.get "email_verified").bind Json.asBool with
    | some true => .ok ()
    | some false => .error "oauth email is not verified"
    | none => .error "oauth userinfo missing true email_verified claim"
  else .ok ()

/-- `enforce_oauth_allowlist`: by address, then by domain; two empty lists allow everybody. -/
def enforceOauthAllowlist (email : List Char) : Except String Unit :=
  if cfg.oauth.allowedEmails.any fun allowed => eqIgnoreAsciiCase allowed email then .ok ()
  else if (rsplitOnce '@' email).any fun cut =>
      cfg.oauth.allowedDomains.any fun allowed => eqIgnoreAsciiCase allowed cut.2 then .ok ()
  else if cfg.oauth.allowedEmails = [] ∧ cfg.oauth.allowedDomains = [] then .ok ()
  else .error "oauth account is not allowed"

/-- `MAX_SESSION_IDENTITY_BYTES` -/
def maxSessionIdentityBytes : ℕ := 1024

/-- `validate_identity_field` -/
def validateIdentityField (field : String) (value : List Char) : Except String Unit :=
  if maxSessionIdentityBytes < Schemes.utf8Len value then
    .error s!"{field} must be at most {maxSessionIdentityBytes} bytes"
  else .ok ()

/-- What the provider answers to the three requests of `finish_oauth`. -/
structure ProviderAnswers where
  discovery : Option (Except String OidcMetadata)
  token : Except String Json
  userinfo : Except String Json

/-- `ok_or_else` -/
def required {α : Type} (value : Option α) (message : String) : Except String α :=
  match value with
  | some value => .ok value
  | none => .error message

/-- `finish_oauth`: from the provider's answers to the user, or to the first error. -/
def finishOauth (answers : ProviderAnswers) : Except String MeResponse := do
  let metadata ← oauthMetadata cfg lib answers.discovery
  let _ ← required metadata.tokenEndpoint "oauth provider has no token endpoint"
  let _ ← required metadata.userinfoEndpoint "oauth provider has no userinfo endpoint"
  let token ← answers.token
  let _ ← required ((token.get "access_token").bind Json.asStr)
    "oauth token response missing access_token"
  let userinfo ← answers.userinfo
  let email ← required ((userinfo.get "email").bind Json.asStr) "oauth userinfo missing email"
  let email := toAsciiLowercase email.toList
  enforceOauthEmailVerified cfg userinfo
  enforceOauthAllowlist cfg email
  let displayName := (((userinfo.get "name").bind Json.asStr).map String.toList).getD email
  validateIdentityField "oauth email" email
  validateIdentityField "oauth display name" displayName
  return ⟨email, displayName, .oauth⟩

/-! ### The tables -/

/-- A row of `ui_sessions` but for its id. -/
structure UiSession where
  userId : List Char
  displayName : List Char
  loginMethod : List Char
  createdAt : ℤ
  expiresAt : ℤ

/-- A row of `oauth_states` but for its state. -/
structure OauthState where
  createdAt : ℤ
  expiresAt : ℤ

/-- A request between two of its awaits. -/
inductive Pending where
  | insertingState (state : Token) (expiresAt : ℤ)
  | consuming (state : Token) (code : List Char)
  | finishing (state : Token) (code : List Char)
  /-- `via` is the state of the callback, if it is one. -/
  | creating (token : Token) (user : MeResponse) (expiresAt : ℤ) (via : Option Token)
  | revoking (sessionHash : List Char)

/-- A session that was created. -/
structure Issued where
  token : Token
  user : MeResponse
  via : Option Token

/-- The throttle, the two tables and the requests under way. -/
structure AuthState where
  logins : Server
  uiSessions : Table Token UiSession
  oauthStates : Table Token OauthState
  /-- The requests under way, by number. -/
  pending : Table ℕ Pending
  next : ℕ
  drawn : List Token
  issued : List Issued

/-- An empty database. -/
def AuthState.initial : AuthState := ⟨Server.initial, ∅, ∅, ∅, 0, [], []⟩

/-- What becomes of a statement: it is executed, it is executed but its caller gives up waiting for the
    answer, or it is not executed. -/
inductive DbOutcome where
  | done | lost | failed
  deriving DecidableEq

/-! ### Who is signed in -/

/-- The user of the session in the cookie. Fails when the lookup is not answered, by an error of the
    database or in time, and on a login method that is none. -/
def currentUser (s : AuthState) (headers : Proxy.HeaderMap) (now : ℤ) (lookup : DbOutcome) :
    Except Unit (Option MeResponse) :=
  match sessionCookie lib headers with
  | none => .ok none
  | some id =>
    if lookup = .done then
      match s.uiSessions.lookup id with
      | none => .ok none
      | some row =>
        if now < row.expiresAt then
          match LoginMethod.parse row.loginMethod with
          | some method => .ok (some ⟨row.userId, row.displayName, method⟩)
          | none => .error ()
        else .ok none
    else .error ()

/-- What `require_auth` does with a request. -/
inductive AuthDecision where
  | crossSiteRejected | loginRequired | serverError
  | next (user : MeResponse)
  deriving DecidableEq

/-- `require_auth` -/
def requireAuth (s : AuthState) (method : Method) (headers : Proxy.HeaderMap) (now : ℤ)
    (lookup : DbOutcome) : AuthDecision :=
  if sameOriginRequestAllowed lib cfg.publicUrl method headers then
    match currentUser lib s headers now lookup with
    | .ok (some user) => .next user
    | .ok none => .loginRequired
    | .error () => .serverError
  else .crossSiteRejected

/-- `MAX_OAUTH_CODE_BYTES` -/
def maxOauthCodeBytes : ℕ := 4096

/-- `valid_oauth_code` -/
def validOauthCode (code : List Char) : Bool :=
  !code.isEmpty && decide (Schemes.utf8Len code ≤ maxOauthCodeBytes)

/-- `UI_SESSION_HASH_BYTES` -/
def uiSessionHashBytes : ℕ := 64

/-- `char::is_ascii_hexdigit` -/
def isAsciiHexdigit (c : Char) : Bool :=
  c.isDigit || decide ('a' ≤ c ∧ c ≤ 'f') || decide ('A' ≤ c ∧ c ≤ 'F')

/-- `normalize_ui_session_hash` -/
def normalizeUiSessionHash (value : List Char) : Except String (List Char) :=
  let value := trim value
  if Schemes.utf8Len value ≠ uiSessionHashBytes then
    .error s!"session_hash must be a {uiSessionHashBytes}-character hexadecimal SHA-256 value"
  else if value.all isAsciiHexdigit then .ok (toAsciiLowercase value)
  else .error "session_hash must contain only hexadecimal characters"

/-! ### Parts of requests -/

/-- `n` is the number of the request that the part belongs to; the parts that begin one or let it go
    on after a login take the next number. -/
inductive AuthAct where
  | login (headers : Proxy.HeaderMap) (payload : LoginRequest) (remoteAddr : List Char) (now : ℕ)
  | verify (i : ℕ) (ok : Bool)
  | record (n i now : ℕ) (victim : LoginThrottleKey) (bytes : TokenBytes) (signedInAt : ℤ)
  | oauthStart (n : ℕ) (discovery : Option (Except String OidcMetadata)) (bytes : TokenBytes) (now : ℤ)
  | insertState (n : ℕ) (outcome : DbOutcome) (now : ℤ)
  | oauthCallback (n : ℕ) (headers : Proxy.HeaderMap) (state : Token) (code : List Char)
  | consumeState (n : ℕ) (outcome : DbOutcome) (now : ℤ)
  | provider (n : ℕ) (answers : ProviderAnswers) (bytes : TokenBytes) (now : ℤ)
  | insertSession (n : ℕ) (outcome : DbOutcome) (now : ℤ)
  | logout (headers : Proxy.HeaderMap) (outcome : DbOutcome)
  | revokeRequest (n : ℕ) (headers : Proxy.HeaderMap) (sessionHash : List Char) (now : ℤ)
      (lookup : DbOutcome)
  | revoke (n : ℕ) (outcome : DbOutcome)
  | pruneSessions (now : ℤ) (batch : ℕ) (order : List (Token × ℤ))
  | pruneStates (now : ℤ) (batch : ℕ) (order : List (Token × ℤ))

/-- Request `n` waits with what it has so far. -/
def AuthState.park (s : AuthState) (n : ℕ) (p : Pending) : AuthState :=
  { s with pending := s.pending.insert n p }

/-- Request `n` is over. -/
def AuthState.leave (s : AuthState) (n : ℕ) : AuthState := { s with pending := s.pending.erase n }

/-- `create_session` up to its insertion. -/
def AuthState.createSession (s : AuthState) (n : ℕ) (user : MeResponse) (bytes : TokenBytes) (now : ℤ)
    (via : Option Token) : AuthState :=
  match (validateIdentityField "session user_id" user.userId).bind fun _ =>
      validateIdentityField "session display_name" user.displayName with
  | .error _ => s.leave n
  | .ok _ => { s.park n (.creating (randomToken bytes) user (now + sessionTtl cfg) via) with
      drawn := randomToken bytes :: s.drawn }

/-- The hash that `REVOKE_UI_SESSION_SQL` compares. -/
def sessionHash (id : Token) : List Char := lib.sha256Hex (utf8 id)

/-- The keys that a retention pass deletes, with the rows in an order that its statement allows. -/
def expiredKeys {β : Type} (expiresAt : β → ℤ) (rows : Table Token β) (now : ℤ) (batch : ℕ)
    (order : List (Token × ℤ)) : Option (List Token) :=
  Storage.selectDoomed Storage.byStamp (fun r => decide (r.2 < now)) batch order
    (rows.entries.map fun r => (r.1, expiresAt r.2))

/-- A part of a login handler that concerns the throttle. -/
def throttled (s : AuthState) (act : Act) : Option Server :=
  serverStep cfg.loginRateLimit (verifyLocalAdminCredentials cfg lib) s.logins act

/-- A part of a request, or a retention pass over one of the tables. -/
def authStep (s : AuthState) : AuthAct → Option AuthState
  | .login headers payload remoteAddr now =>
    if sameOriginRequestAllowed lib cfg.publicUrl .post headers then
      (throttled cfg lib s (.login payload remoteAddr now)).map fun logins => { s with logins }
    else some s
  | .verify i ok => (throttled cfg lib s (.verify i ok)).map fun logins => { s with logins }
  | .record n i now victim bytes signedInAt =>
    match s.logins.handlers[i]?, throttled cfg lib s (.record i now victim) with
    | some h, some logins =>
      if n ≠ s.next then none
      else if h.stage = .right then
        some (({ s with logins, next := n + 1 } : AuthState).createSession cfg n (localUser cfg) bytes
          signedInAt none)
      else some { s with logins }
    | _, _ => none
  | .oauthStart n discovery bytes now =>
    if n ≠ s.next then none
    else if cfg.oauth.enabled ∧ cfg.oauth.clientId ≠ [] ∧ cfg.oauth.issuerUrl ≠ [] then
      match oauthMetadata cfg lib discovery with
      | .ok ⟨some _, _, _⟩ => some { s.park n (.insertingState (randomToken bytes) (now + oauthStateTtl)) with
          next := n + 1, drawn := randomToken bytes :: s.drawn }
      | _ => some s
    else some s
  | .insertState n outcome now =>
    match s.pending.lookup n with
    | some (.insertingState state expiresAt) =>
      -- the primary key lets no state in twice
      if outcome = .failed ∨ state ∈ s.oauthStates then some (s.leave n)
      else some { s.leave n with oauthStates := s.oauthStates.insert state ⟨now, expiresAt⟩ }
    | _ => none
  | .oauthCallback n headers state code =>
    if n ≠ s.next then none
    else if validAuthToken state ∧ oauthStateCookie lib headers = some state ∧ validOauthCode code then
      some { s.park n (.consuming state code) with next := n + 1 }
    else some s
  | .consumeState n outcome now =>
    match s.pending.lookup n with
    | some (.consuming state code) =>
      if (s.oauthStates.lookup state).any (fun row => decide (now < row.expiresAt)) ∧ outcome ≠ .failed then
        let s := { s with oauthStates := s.oauthStates.erase state }
        some (if outcome = .done then s.park n (.finishing state code) else s.leave n)
      else some (s.leave n)
    | _ => none
  | .provider n answers bytes now =>
    match s.pending.lookup n with
    | some (.finishing state _) =>
      match finishOauth cfg lib answers with
      | .ok user => some (s.createSession cfg n user bytes now (some state))
      | .error _ => some (s.leave n)
    | _ => none
  | .insertSession n outcome now =>
    match s.pending.lookup n with
    | some (.creating token user expiresAt via) =>
      if outcome = .failed ∨ token ∈ s.uiSessions then some (s.leave n)
      else some { s.leave n with
        uiSessions := s.uiSessions.insert token
          ⟨user.userId, user.displayName, user.loginMethod.asStr, now, expiresAt⟩
        issued := ⟨token, user, via⟩ :: s.issued }
    | _ => none
  | .logout headers outcome =>
    if sameOriginRequestAllowed lib cfg.publicUrl .post headers then
      match sessionCookie lib headers with
      -- a failure of the deletion is not reported
      | some id => some (if outcome = .failed then s else { s with uiSessions := s.uiSessions.erase id })
      | none => some s
    else some s
  | .revokeRequest n headers sessionHash now lookup =>
    if n ≠ s.next then none
    else
      match requireAuth cfg lib s .delete headers now lookup, normalizeUiSessionHash sessionHash with
      | .next _, .ok sessionHash => some { s.park n (.revoking sessionHash) with next := n + 1 }
      | _, _ => some s
  | .revoke n outcome =>
    match s.pending.lookup n with
    | some (.revoking hash) =>
      if outcome = .failed then some (s.leave n)
      else some { s.leave n with
        uiSessions := s.uiSessions.retainKeys fun id => decide (sessionHash lib id ≠ hash) }
    | _ => none
  | .pruneSessions now batch order =>
    (expiredKeys UiSession.expiresAt s.uiSessions now batch order).map fun keys =>
      { s with uiSessions := s.uiSessions.retainKeys fun id => !keys.contains id }
  | .pruneStates now batch order =>
    (expiredKeys OauthState.expiresAt s.oauthStates now batch order).map fun keys =>
      { s with oauthStates := s.oauthStates.retainKeys fun state => !keys.contains state }

theorem createSession_cases (s : AuthState) (n : ℕ) (user : MeResponse) (bytes : TokenBytes) (now : ℤ)
    (via : Option Token) :
    s.createSession cfg n user bytes now via = s.leave n ∨
    s.createSession cfg n user bytes now via =
      { s.park n (.creating (randomToken bytes) user (now + sessionTtl cfg) via) with
        drawn := randomToken bytes :: s.drawn } := by
  rw [AuthState.createSession]
  split
  · exact .inl rfl
  · exact .inr rfl

/-! ### What each part can do -/

section
variable {cfg lib} {s s' : AuthState} {n : ℕ}

theorem login_cases {headers : Proxy.HeaderMap} {payload : LoginRequest} {remoteAddr : List Char} {now : ℕ}
    (h : authStep cfg lib s (.login headers payload remoteAddr now) = some s') :
    s' = s ∨ ∃ logins, sameOriginRequestAllowed lib cfg.publicUrl .post headers = true ∧
      throttled cfg lib s (.login payload remoteAddr now) = some logins ∧ s' = { s with logins } := by
  simp only [authStep] at h
  split at h
  · rename_i horigin
    obtain ⟨logins, hlogins, rfl⟩ := Option.map_eq_some_iff.mp h
    exact .inr ⟨logins, horigin, hlogins, rfl⟩
  · cases h
    exact .inl rfl

theorem verify_cases {i : ℕ} {ok : Bool} (h : authStep cfg lib s (.verify i ok) = some s') :
    ∃ logins, throttled cfg lib s (.verify i ok) = some logins ∧ s' = { s with logins } := by
  obtain ⟨logins, hlogins, rfl⟩ := Option.map_eq_some_iff.mp h
  exact ⟨logins, hlogins, rfl⟩

theorem record_cases {i now : ℕ} {victim : LoginThrottleKey} {bytes : TokenBytes} {signedInAt : ℤ}
    (h : authStep cfg lib s (.record n i now victim bytes signedInAt) = some s') :
    ∃ handler logins, s.logins.handlers[i]? = some handler ∧
      throttled cfg lib s (.record i now victim) = some logins ∧
      (s' = { s with logins } ∨
        handler.stage = .right ∧ s' = ({ s with logins, next := n + 1 } : AuthState).createSession cfg n
          (localUser cfg) bytes signedInAt none) := by
  simp only [authStep] at h
  split at h
  · rename_i handler logins hi hlogins
    refine ⟨handler, logins, hi, hlogins, ?_⟩
    split_ifs at h with hn hright
    · cases h
      exact .inr ⟨hright, rfl⟩
    · cases h
      exact .inl rfl
  · cases h

theorem oauthStart_cases {discovery : Option (Except String OidcMetadata)} {bytes : TokenBytes} {now : ℤ}
    (h : authStep cfg lib s (.oauthStart n discovery bytes now) = some s') :
    s' = s ∨ s' = { s.park n (.insertingState (randomToken bytes) (now + oauthStateTtl)) with
      next := n + 1, drawn := randomToken bytes :: s.drawn } := by
  simp only [authStep] at h
  split_ifs at h
  · split at h
    · cases h
      exact .inr rfl
    · cases h
      exact .inl rfl
  · cases h
    exact .inl rfl

theorem insertState_cases {outcome : DbOutcome} {now : ℤ}
    (h : authStep cfg lib s (.insertState n outcome now) = some s') :
    ∃ state expiresAt, s.pending.lookup n = some (.insertingState state expiresAt) ∧
      (s' = s.leave n ∨
        s' = { s.leave n with oauthStates := s.oauthStates.insert state ⟨now, expiresAt⟩ }) := by
  simp only [authStep] at h
  split at h
  · rename_i state expiresAt hp
    refine ⟨state, expiresAt, hp, ?_⟩
    split_ifs at h
    · cases h
      exact .inl rfl
    · cases h
      exact .inr rfl
  · cases h

theorem oauthCallback_cases {headers : Proxy.HeaderMap} {state : Token} {code : List Char}
    (h : authStep cfg lib s (.oauthCallback n headers state code) = some s') :
    s' = s ∨ oauthStateCookie lib headers = some state ∧
      s' = { s.park n (.consuming state code) with next := n + 1 } := by
  simp only [authStep] at h
  split_ifs at h with hn hok
  · cases h
    exact .inr ⟨hok.2.1, rfl⟩
  · cases h
    exact .inl rfl

theorem consumeState_cases {outcome : DbOutcome} {now : ℤ}
    (h : authStep cfg lib s (.consumeState n outcome now) = some s') :
    ∃ state code, s.pending.lookup n = some (.consuming state code) ∧
      (s' = s.leave n ∨ ∃ row, s.oauthStates.lookup state = some row ∧ now < row.expiresAt ∧
        (s' = { s.leave n with oauthStates := s.oauthStates.erase state } ∨
          outcome = .done ∧ s' = { s.park n (.finishing state code) with
            oauthStates := s.oauthStates.erase state })) := by
  simp only [authStep] at h
  split at h
  · rename_i state code hp
    refine ⟨state, code, hp, ?_⟩
    split_ifs at h with hfound hdone
    all_goals cases h
    · obtain ⟨row, hrow, hlive⟩ := Option.any_eq_true _ _ |>.mp hfound.1
      exact .inr ⟨row, hrow, of_decide_eq_true hlive, .inr ⟨hdone, rfl⟩⟩
    · obtain ⟨row, hrow, hlive⟩ := Option.any_eq_true _ _ |>.mp hfound.1
      exact .inr ⟨row, hrow, of_decide_eq_true hlive, .inl rfl⟩
    · exact .inl rfl
  · cases h

theorem provider_cases {answers : ProviderAnswers} {bytes : TokenBytes} {now : ℤ}
    (h : authStep cfg lib s (.provider n answers bytes now) = some s') :
    ∃ state code, s.pending.lookup n = some (.finishing state code) ∧
      (s' = s.leave n ∨ ∃ user, finishOauth cfg lib answers = .ok user ∧
        s' = s.createSession cfg n user bytes now (some state)) := by
  simp only [authStep] at h
  split at h
  · rename_i state code hp
    refine ⟨state, code, hp, ?_⟩
    split at h
    · rename_i user huser
      cases h
      exact .inr ⟨user, huser, rfl⟩
    · cases h
      exact .inl rfl
  · cases h

theorem insertSession_cases {outcome : DbOutcome} {now : ℤ}
    (h : authStep cfg lib s (.insertSession n outcome now) = some s') :
    ∃ token user expiresAt via, s.pending.lookup n = some (.creating token user expiresAt via) ∧
      (s' = s.leave n ∨ token ∉ s.uiSessions ∧ s' = { s.leave n with
        uiSessions := s.uiSessions.insert token
          ⟨user.userId, user.displayName, user.loginMethod.asStr, now, expiresAt⟩
        issued := ⟨token, user, via⟩ :: s.issued }) := by
  simp only [authStep] at h
  split at h
  · rename_i token user expiresAt via hp
    refine ⟨token, user, expiresAt, via, hp, ?_⟩
    split_ifs at h with hout
    · cases h
      exact .inl rfl
    · cases h
      exact .inr ⟨fun hmem => hout (.inr hmem), rfl⟩
  · cases h

theorem logout_cases {headers : Proxy.HeaderMap} {outcome : DbOutcome}
    (h : authStep cfg lib s (.logout headers outcome) = some s') :
    s' = s ∨ ∃ id, s' = { s with uiSessions := s.uiSessions.erase id } := by
  simp only [authStep] at h
  split at h
  · split at h
    · rename_i id _
      cases h
      split
      · exact .inl rfl
      · exact .inr ⟨id, rfl⟩
    · cases h
      exact .inl rfl
  · cases h
    exact .inl rfl

theorem revokeRequest_cases {headers : Proxy.HeaderMap} {hash : List Char} {now : ℤ} {lookup : DbOutcome}
    (h : authStep cfg lib s (.revokeRequest n headers hash now lookup) = some s') :
    s' = s ∨ ∃ hash, s' = { s.park n (.revoking hash) with next := n + 1 } := by
  simp only [authStep] at h
  split_ifs at h
  split at h
  · rename_i hash _ _
    cases h
    exact .inr ⟨hash, rfl⟩
  · cases h
    exact .inl rfl

theorem revoke_cases {outcome : DbOutcome} (h : authStep cfg lib s (.revoke n outcome) = some s') :
    ∃ hash, s.pending.lookup n = some (.revoking hash) ∧
      (s' = s.leave n ∨ s' = { s.leave n with
        uiSessions := s.uiSessions.retainKeys fun id => decide (sessionHash lib id ≠ hash) }) := by
  simp only [authStep] at h
  split at h
  · rename_i hash hp
    refine ⟨hash, hp, ?_⟩
    split_ifs at h
    · cases h
      exact .inl rfl
    · cases h
      exact .inr rfl
  · cases h

end

/-- No token is drawn a second time. -/
def FreshTokens (s : AuthState) : AuthAct → Prop
  | .record _ _ _ _ bytes _ | .oauthStart _ _ bytes _ | .provider _ _ bytes _ =>
    randomToken bytes ∉ s.drawn
  | _ => True

instance (s : AuthState) (a : AuthAct) : Decidable (FreshTokens s a) := by
  cases a
  case record | oauthStart | provider => exact inferInstanceAs (Decidable (_ ∉ _))
  all_goals exact inferInstanceAs (Decidable True)

end

/-- Sign-in at one provider, for one domain, with verified addresses. -/
def sampleAuthConfig : AuthConfig where
  publicUrl := "https://traces.test".toList
  sessionTtlHours := 24
  loginRateLimit := {}
  localAdmin := ⟨"admin".toList, some "secret".toList, none⟩
  oauth := {
    enabled := true
    issuerUrl := "https://idp.test/".toList
    clientId := "traces".toList
    requireEmailVerified := true
    allowedEmails := []
    allowedDomains := ["Example.com".toList] }

/-- Another draw for the samples. -/
def oneBytes : TokenBytes := ⟨List.replicate 32 1, by decide⟩

/-- A user that comes from the provider. -/
def sampleUser : MeResponse := ⟨"ada@example.com".toList, "Ada".toList, .oauth⟩

/-- Answers of a provider that lets `sampleUser` in. -/
def sampleAnswers : ProviderAnswers where
  discovery := none
  token := .ok (.obj [("access_token", .str "t")])
  userinfo := .ok (.obj [("email", .str "Ada@example.com"), ("email_verified", .bool true),
    ("name", .str "Ada")])

/-- A `Cookie` header with one token. -/
def tokenCookie (name : List Char) (token : Token) : Proxy.HeaderMap :=
  [("cookie".toList, utf8 (name ++ '=' :: token))]

/-- A sign-in with the provider, up to its session. -/
def sampleSignIn : List AuthAct :=
  [.oauthStart 0 none zeroBytes 0, .insertState 0 .done 1,
    .oauthCallback 1 (tokenCookie oauthStateCookieName (randomToken zeroBytes)) (randomToken zeroBytes)
      "code".toList,
    .consumeState 1 .done 2, .provider 1 sampleAnswers oneBytes 3, .insertSession 1 .lost 4]

end Llmtrace.Auth
