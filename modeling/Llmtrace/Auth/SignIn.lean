import Llmtrace.Auth.Sessions

/-! How sessions come to be, over whole runs of the sign-in requests: each token is in one place only, so
    an OAuth state gives at most one session; and whoever is signed in has given the right password, or
    has come back from the provider with a state that was issued to him and had not expired. -/

namespace Llmtrace.Auth
open Schemes

/-! ### One place for a token -/

/-- The request holds the token, as a state or for a session. -/
def Pending.carries (t : Token) : Pending → Bool
  | .insertingState state _ | .finishing state _ => state == t
  | .creating token _ _ via => token == t || via == some t
  | .consuming _ _ | .revoking _ => false

/-- The session was created with the token, or from it. -/
def Issued.carries (t : Token) (i : Issued) : Bool := i.token == t || i.via == some t

/-- A request that holds the token counts once. -/
def Pending.weight (t : Token) (p : Pending) : ℕ := if p.carries t then 1 else 0

/-- The rows of `oauth_states`, the requests and the sessions that stand for a token. -/
def load (s : AuthState) (t : Token) : ℕ :=
  ((s.oauthStates.lookup t).elim 0 fun _ => 1) + s.pending.total (Pending.weight t) +
    s.issued.countP (Issued.carries t)

section
variable {cfg : AuthConfig} {lib : AuthLib} {s s' : AuthState} {a : AuthAct} {n : ℕ} {t : Token}

theorem load_leave (s : AuthState) (n : ℕ) (t : Token) : load (s.leave n) t ≤ load s t := by
  have := Table.total_erase_le (Pending.weight t) n s.pending
  simp only [load, AuthState.leave]
  omega

theorem load_park (s : AuthState) (n : ℕ) (p : Pending) (t : Token) :
    load (s.park n p) t ≤ load s t + p.weight t := by
  have := Table.total_erase_le (Pending.weight t) n s.pending
  simp only [load, AuthState.park, Table.total_insert]
  omega

/-- A request that goes on leaves its place. -/
theorem total_erase_pending {p : Pending} (hp : s.pending.lookup n = some p) :
    p.weight t + Table.total (Pending.weight t) (s.pending.erase n) =
      s.pending.total (Pending.weight t) := Table.total_erase _ hp

/-- A row that is consumed gives its place away. -/
theorem load_eraseState {state : Token} {p : OauthState → Bool}
    (hrow : (s.oauthStates.lookup state).any p = true) (t : Token) :
    load { s with oauthStates := s.oauthStates.erase state } t + (if state = t then 1 else 0) ≤
      load s t := by
  obtain ⟨row, hrow, -⟩ := Option.any_eq_true _ _ |>.mp hrow
  simp only [load]
  by_cases ht : t = state
  · subst ht
    rw [AList.lookup_erase, hrow, if_pos rfl]
    simp only [Option.elim_none, Option.elim_some]
    omega
  · rw [AList.lookup_erase_ne ht, if_neg (Ne.symm ht), Nat.add_zero]

theorem load_createSession {via : Option Token} (user : MeResponse) (bytes : TokenBytes) (now : ℤ)
    (hroom : (if via = some t then 1 else 0) + Table.total (Pending.weight t) (s.pending.erase n) ≤
      s.pending.total (Pending.weight t)) :
    (s.createSession cfg n user bytes now via).drawn = s.drawn ∧
      load (s.createSession cfg n user bytes now via) t ≤ load s t ∨
    (s.createSession cfg n user bytes now via).drawn = randomToken bytes :: s.drawn ∧
      load (s.createSession cfg n user bytes now via) t ≤
        load s t + if randomToken bytes = t then 1 else 0 := by
  rcases createSession_cases cfg s n user bytes now via with h | h
  · rw [h]
    exact .inl ⟨rfl, load_leave s n t⟩
  · refine .inr ⟨by rw [h], ?_⟩
    rw [h]
    have hweight : (Pending.creating (randomToken bytes) user (now + sessionTtl cfg) via).weight t ≤
        (if via = some t then 1 else 0) + if randomToken bytes = t then 1 else 0 := by
      simp only [Pending.weight, Pending.carries, Bool.or_eq_true, beq_iff_eq]
      split_ifs <;> simp_all
    simp only [load, AuthState.park, Table.total_insert]
    omega

/-- A state that is stored takes the place of the request that brought it. -/
theorem load_insertState {state : Token} {expiresAt : ℤ} (row : OauthState)
    (hp : s.pending.lookup n = some (.insertingState state expiresAt)) (t : Token) :
    load { s.leave n with oauthStates := s.oauthStates.insert state row } t ≤ load s t := by
  have hsum := total_erase_pending (t := t) hp
  simp only [load, AuthState.leave, Pending.weight, Pending.carries, beq_iff_eq] at hsum ⊢
  by_cases ht : t = state
  · subst ht
    simp only [AList.lookup_insert, Option.elim_some, if_true] at hsum ⊢
    omega
  · rw [AList.lookup_insert_ne ht]
    omega

theorem load_consume {state : Token} {code : List Char} {row : OauthState}
    (hrow : s.oauthStates.lookup state = some row) (t : Token) :
    load { s.park n (.finishing state code) with oauthStates := s.oauthStates.erase state } t ≤
      load s t := by
  have hle := load_eraseState (p := fun _ => true) (by rw [hrow]; rfl) t
  have hpark := load_park { s with oauthStates := s.oauthStates.erase state } n (.finishing state code) t
  simp only [Pending.weight, Pending.carries, beq_iff_eq] at hpark
  exact hpark.trans hle

/-- So does a session. -/
theorem load_insertSession {token : Token} {user : MeResponse} {expiresAt : ℤ} {via : Option Token}
    (row : UiSession) (hp : s.pending.lookup n = some (.creating token user expiresAt via)) (t : Token) :
    load { s.leave n with
      uiSessions := s.uiSessions.insert token row
      issued := ⟨token, user, via⟩ :: s.issued } t ≤ load s t := by
  have hsum := total_erase_pending (t := t) hp
  have hweight : (Pending.creating token user expiresAt via).weight t =
      if Issued.carries t ⟨token, user, via⟩ then 1 else 0 := rfl
  rw [hweight] at hsum
  simp only [load, AuthState.leave, List.countP_cons]
  omega

/-- A part of a request adds no place for a token: it draws nothing, or it draws one token and adds
    at most the place of that one. -/
def Moves (s : AuthState) (a : AuthAct) (s' : AuthState) (t : Token) : Prop :=
  s'.drawn = s.drawn ∧ load s' t ≤ load s t ∨
  ∃ token, (FreshTokens s a → token ∉ s.drawn) ∧ s'.drawn = token :: s.drawn ∧
    load s' t ≤ load s t + if token = t then 1 else 0

theorem record_moves {i now : ℕ} {victim : LoginThrottleKey} {bytes : TokenBytes} {signedInAt : ℤ}
    (h : authStep cfg lib s (.record n i now victim bytes signedInAt) = some s') (t : Token) :
    Moves s (.record n i now victim bytes signedInAt) s' t := by
  obtain ⟨handler, logins, -, -, rfl | ⟨-, rfl⟩⟩ := record_cases h
  · exact .inl ⟨rfl, le_rfl⟩
  · have hmoves := @load_createSession cfg { s with logins, next := n + 1 } n t none (localUser cfg)
      bytes signedInAt (by simpa using Table.total_erase_le _ _ _)
    exact hmoves.imp id fun hnew => ⟨_, id, hnew⟩

theorem oauthStart_moves {discovery : Option (Except String OidcMetadata)} {bytes : TokenBytes} {now : ℤ}
    (h : authStep cfg lib s (.oauthStart n discovery bytes now) = some s') (t : Token) :
    Moves s (.oauthStart n discovery bytes now) s' t := by
  rcases oauthStart_cases h with rfl | rfl
  · exact .inl ⟨rfl, le_rfl⟩
  · refine .inr ⟨_, id, rfl, (load_park s n _ t).trans (Nat.add_le_add_left ?_ _)⟩
    simp [Pending.weight, Pending.carries]

theorem provider_moves {answers : ProviderAnswers} {bytes : TokenBytes} {now : ℤ}
    (h : authStep cfg lib s (.provider n answers bytes now) = some s') (t : Token) :
    Moves s (.provider n answers bytes now) s' t := by
  obtain ⟨state, code, hp, rfl | ⟨user, -, rfl⟩⟩ := provider_cases h
  · exact .inl ⟨rfl, load_leave s n t⟩
  · have hsum := total_erase_pending (t := t) hp
    simp only [Pending.weight, Pending.carries, beq_iff_eq] at hsum
    have hmoves := @load_createSession cfg s n t (some state) user bytes now
      (by simp only [Option.some.injEq]; omega)
    exact hmoves.imp id fun hnew => ⟨_, id, hnew⟩

theorem consumeState_moves {outcome : DbOutcome} {now : ℤ}
    (h : authStep cfg lib s (.consumeState n outcome now) = some s') (t : Token) :
    Moves s (.consumeState n outcome now) s' t := by
  obtain ⟨state, code, -, rfl | ⟨row, hrow, -, rfl | ⟨-, rfl⟩⟩⟩ := consumeState_cases h
  · exact .inl ⟨rfl, load_leave s n t⟩
  · have hle := load_eraseState (p := fun _ => true) (by rw [hrow]; rfl) t
    exact .inl ⟨rfl, (load_leave { s with oauthStates := s.oauthStates.erase state } n t).trans (by omega)⟩
  · exact .inl ⟨rfl, load_consume hrow t⟩

theorem load_step (h : authStep cfg lib s a = some s') (t : Token) : Moves s a s' t := by
  cases a with
  | login headers payload remoteAddr now =>
    rcases login_cases h with rfl | ⟨logins, -, -, rfl⟩
    · exact .inl ⟨rfl, le_rfl⟩
    · exact .inl ⟨rfl, le_rfl⟩
  | verify i ok =>
    obtain ⟨logins, -, rfl⟩ := verify_cases h
    exact .inl ⟨rfl, le_rfl⟩
  | record m i now victim bytes signedInAt => exact record_moves h t
  | oauthStart m discovery bytes now => exact oauthStart_moves h t
  | insertState m outcome now =>
    obtain ⟨state, expiresAt, hp, rfl | rfl⟩ := insertState_cases h
    · exact .inl ⟨rfl, load_leave s m t⟩
    · exact .inl ⟨rfl, load_insertState _ hp t⟩
  | oauthCallback m headers state code =>
    rcases oauthCallback_cases h with rfl | ⟨-, rfl⟩
    · exact .inl ⟨rfl, le_rfl⟩
    · exact .inl ⟨rfl, load_park s m _ t⟩
  | consumeState m outcome now => exact consumeState_moves h t
  | provider m answers bytes now => exact provider_moves h t
  | insertSession m outcome now =>
    obtain ⟨token, user, expiresAt, via, hp, rfl | ⟨-, rfl⟩⟩ := insertSession_cases h
    · exact .inl ⟨rfl, load_leave s m t⟩
    · exact .inl ⟨rfl, load_insertSession _ hp t⟩
  | logout headers outcome =>
    rcases logout_cases h with rfl | ⟨id, rfl⟩
    · exact .inl ⟨rfl, le_rfl⟩
    · exact .inl ⟨rfl, le_rfl⟩
  | revokeRequest m headers hash now lookup =>
    rcases revokeRequest_cases h with rfl | ⟨hash, rfl⟩
    · exact .inl ⟨rfl, le_rfl⟩
    · exact .inl ⟨rfl, load_park s m _ t⟩
  | revoke m outcome =>
    obtain ⟨hash, -, rfl | rfl⟩ := revoke_cases h
    · exact .inl ⟨rfl, load_leave s m t⟩
    · exact .inl ⟨rfl, load_leave s m t⟩
  | pruneSessions now batch order =>
    obtain ⟨keys, -, rfl⟩ := Option.map_eq_some_iff.mp h
    exact .inl ⟨rfl, le_rfl⟩
  | pruneStates now batch order =>
    obtain ⟨keys, -, rfl⟩ := Option.map_eq_some_iff.mp h
    refine .inl ⟨rfl, ?_⟩
    simp only [load, Table.lookup_retainKeys]
    split
    · exact le_rfl
    · simp only [Option.elim_none]
      omega

/-- A token stands in one place, and in none before it was drawn. -/
def OnePlace (s : AuthState) : Prop := ∀ t, load s t ≤ 1 ∧ (t ∉ s.drawn → load s t = 0)

theorem onePlace_step (hinv : OnePlace s) (hfresh : FreshTokens s a)
    (h : authStep cfg lib s a = some s') : OnePlace s' := by
  intro t
  obtain ⟨hle, hfree⟩ := hinv t
  rcases load_step h t with ⟨hdrawn, hload⟩ | ⟨token, hnew, hdrawn, hload⟩
  · rw [hdrawn]
    exact ⟨hload.trans hle, fun ht => Nat.le_zero.mp (hload.trans_eq (hfree ht))⟩
  · rw [hdrawn]
    by_cases ht : token = t
    · subst ht
      rw [if_pos rfl, hfree (hnew hfresh)] at hload
      exact ⟨hload, fun hout => absurd List.mem_cons_self hout⟩
    · rw [if_neg ht, Nat.add_zero] at hload
      refine ⟨hload.trans hle, fun hout => ?_⟩
      exact Nat.le_zero.mp (hload.trans_eq (hfree fun hin => hout (List.mem_cons_of_mem _ hin)))

theorem reaches_onePlace (h : Reaches (authStep cfg lib) FreshTokens AuthState.initial s) :
    OnePlace s := by
  refine h.inv (I := OnePlace) (fun s a t hinv hfresh hst => onePlace_step hinv hfresh hst) fun t => ?_
  exact ⟨Nat.zero_le _, fun _ => rfl⟩

theorem countP_issued_le (hinv : OnePlace s) {p : Issued → Bool} {t : Token}
    (hp : ∀ i, p i = true → i.carries t = true) : s.issued.countP p ≤ 1 := by
  have hle : s.issued.countP p ≤ s.issued.countP (Issued.carries t) :=
    List.countP_mono_left fun i _ => hp i
  have hone : load s t ≤ 1 := (hinv t).1
  simp only [load] at hone
  omega

/-- CORRECT: however the requests of any number of browsers interleave, and whatever statements are
    executed without an answer, an OAuth state gives at most one session, and no two sessions have
    the same token. -/
theorem oauth_state_signs_in_once (cfg : AuthConfig) (lib : AuthLib) (s : AuthState)
    (hrun : Reaches (authStep cfg lib) FreshTokens AuthState.initial s) :
    (∀ state, (s.issued.countP fun i => decide (i.via = some state)) ≤ 1) ∧
    (s.issued.map Issued.token).Nodup := by
  have hinv := reaches_onePlace hrun
  constructor
  · intro state
    exact countP_issued_le (t := state) hinv fun i hi => by simp_all [Issued.carries]
  · refine List.nodup_iff_count_le_one.mpr fun token => ?_
    rw [List.count, List.countP_map]
    exact countP_issued_le (t := token) hinv fun i hi => by simp_all [Issued.carries]

end

/-! ### What a session comes from -/

/-- An OAuth state on its way through the server. -/
structure OauthVisit where
  opened : ℕ
  discovery : Option (Except String OidcMetadata)
  bytes : TokenBytes
  openedAt : ℤ
  stored : DbOutcome
  storedAt : ℤ
  request : ℕ
  headers : Proxy.HeaderMap
  code : List Char
  consumedAt : ℤ

/-- The state that was issued for the visit. -/
def OauthVisit.state (v : OauthVisit) : Token := randomToken v.bytes

/-- The parts of requests in `log` by which the state was issued, came back in the query and in the
    cookie of a callback, and was consumed before it expired. -/
structure OauthVisit.Consumed (lib : AuthLib) (v : OauthVisit) (log : List AuthAct) : Prop where
  issued : [.oauthStart v.opened v.discovery v.bytes v.openedAt,
    .insertState v.opened v.stored v.storedAt,
    .consumeState v.request .done v.consumedAt].Sublist log
  calledBack : [.oauthCallback v.request v.headers v.state v.code,
    .consumeState v.request .done v.consumedAt].Sublist log
  cookie : oauthStateCookie lib v.headers = some v.state
  inTime : v.consumedAt < v.openedAt + oauthStateTtl

/-- In `log` there is a login with these credentials, from the same origin, to which the check of the
    throttle answered Allowed: `s` is the state in which it came. -/
def LetIn (cfg : AuthConfig) (lib : AuthLib) (log : List AuthAct) (payload : LoginRequest)
    (remoteAddr : List Char) : Prop :=
  ∃ earlier s headers now, earlier ++ [.login headers payload remoteAddr now] <+: log ∧
    run (authStep cfg lib) AuthState.initial earlier = some s ∧
    sameOriginRequestAllowed lib cfg.publicUrl .post headers = true ∧
    (checkAt cfg.loginRateLimit s.logins.attempts payload.username remoteAddr now).2 = .allowed

/-- The ways to a session: request `n` creates `token` for `user`, up to an instant. -/
inductive SignIn (cfg : AuthConfig) (lib : AuthLib) (log : List AuthAct) :
    ℕ → Token → MeResponse → ℤ → Prop
  | password {earlier : List AuthAct} {payload : LoginRequest} {remoteAddr : List Char}
      {n i recorded : ℕ} {victim : LoginThrottleKey} {bytes : TokenBytes} {signedInAt : ℤ} :
      LetIn cfg lib earlier payload remoteAddr →
      verifyLocalAdminCredentials cfg lib payload = true →
      earlier ++ [.record n i recorded victim bytes signedInAt] <+: log →
      SignIn cfg lib log n (randomToken bytes) (localUser cfg) (signedInAt + sessionTtl cfg)
  | oauth {v : OauthVisit} {answers : ProviderAnswers} {bytes : TokenBytes} {answeredAt : ℤ}
      {user : MeResponse} :
      v.Consumed lib log →
      finishOauth cfg lib answers = .ok user →
      [.consumeState v.request .done v.consumedAt,
        .provider v.request answers bytes answeredAt].Sublist log →
      SignIn cfg lib log v.request (randomToken bytes) user (answeredAt + sessionTtl cfg)

section
variable (cfg : AuthConfig) (lib : AuthLib)

/-- What `log` says about a request under way. -/
def Pending.Explained (log : List AuthAct) (n : ℕ) : Pending → Prop
  | .insertingState state expiresAt => ∃ discovery bytes openedAt,
      .oauthStart n discovery bytes openedAt ∈ log ∧ randomToken bytes = state ∧
        expiresAt = openedAt + oauthStateTtl
  | .consuming state code => ∃ headers, .oauthCallback n headers state code ∈ log ∧
      oauthStateCookie lib headers = some state
  | .finishing state code => ∃ v : OauthVisit, v.Consumed lib log ∧ v.request = n ∧ v.state = state ∧
      v.code = code
  | .creating token user expiresAt _ => SignIn cfg lib log n token user expiresAt
  | .revoking _ => True

/-- The row of a state that was issued. -/
def OauthState.Explained (log : List AuthAct) (state : Token) (row : OauthState) : Prop :=
  ∃ m discovery bytes openedAt outcome storedAt,
    [AuthAct.oauthStart m discovery bytes openedAt, .insertState m outcome storedAt].Sublist log ∧
    randomToken bytes = state ∧ row.expiresAt = openedAt + oauthStateTtl

/-- The row of a session: it was inserted after a sign-in of its user. -/
def UiSession.Explained (log : List AuthAct) (token : Token) (row : UiSession) : Prop :=
  ∃ n user before outcome createdAt, before ++ [.insertSession n outcome createdAt] <+: log ∧
    SignIn cfg lib before n token user row.expiresAt ∧ row.userId = user.userId ∧
    row.displayName = user.displayName ∧ row.loginMethod = user.loginMethod.asStr

/-- A handler was let in, and goes on as signed in with the right password only. -/
def Handler.Explained (log : List AuthAct) (h : Handler) : Prop :=
  LetIn cfg lib log h.payload h.remoteAddr ∧
  (h.stage = .right → verifyLocalAdminCredentials cfg lib h.payload = true)

/-- Where everything in a state that `log` leads to comes from. -/
structure Explained (log : List AuthAct) (s : AuthState) : Prop where
  reached : run (authStep cfg lib) AuthState.initial log = some s
  handlers : ∀ h ∈ s.logins.handlers, h.Explained cfg lib log
  pending : ∀ n p, s.pending.lookup n = some p → p.Explained cfg lib log n
  states : ∀ state row, s.oauthStates.lookup state = some row → row.Explained log state
  sessions : ∀ token row, s.uiSessions.lookup token = some row → row.Explained cfg lib log token

end

section
variable {cfg : AuthConfig} {lib : AuthLib} {log : List AuthAct} {s s' : AuthState} {a : AuthAct}
  {n : ℕ}

theorem SignIn.later {token : Token} {user : MeResponse} {expiresAt : ℤ}
    (h : SignIn cfg lib log n token user expiresAt) : SignIn cfg lib (log ++ [a]) n token user expiresAt := by
  have hlog : log.Sublist (log ++ [a]) := List.sublist_append_left log [a]
  cases h with
  | password hlet hverify hacts =>
    exact .password hlet hverify (hacts.trans (List.prefix_append log [a]))
  | oauth hvisit huser hacts =>
    exact .oauth ⟨hvisit.issued.trans hlog, hvisit.calledBack.trans hlog, hvisit.cookie, hvisit.inTime⟩
      huser (hacts.trans hlog)

theorem Pending.Explained.later {p : Pending} (h : p.Explained cfg lib log n) :
    p.Explained cfg lib (log ++ [a]) n := by
  have hlog : log.Sublist (log ++ [a]) := List.sublist_append_left log [a]
  cases p with
  | insertingState state expiresAt =>
    obtain ⟨discovery, bytes, openedAt, hmem, hrest⟩ := h
    exact ⟨discovery, bytes, openedAt, hlog.subset hmem, hrest⟩
  | consuming state code =>
    obtain ⟨headers, hmem, hcookie⟩ := h
    exact ⟨headers, hlog.subset hmem, hcookie⟩
  | finishing state code =>
    obtain ⟨v, hv, hrest⟩ := h
    exact ⟨v, ⟨hv.issued.trans hlog, hv.calledBack.trans hlog, hv.cookie, hv.inTime⟩, hrest⟩
  | creating token user expiresAt via => exact SignIn.later h
  | revoking hash => trivial

theorem OauthState.Explained.later {state : Token} {row : OauthState} (h : row.Explained log state) :
    row.Explained (log ++ [a]) state := by
  obtain ⟨m, discovery, bytes, openedAt, outcome, storedAt, hacts, hrest⟩ := h
  exact ⟨m, discovery, bytes, openedAt, outcome, storedAt,
    hacts.trans (List.sublist_append_left log [a]), hrest⟩

theorem UiSession.Explained.later {token : Token} {row : UiSession}
    (h : row.Explained cfg lib log token) : row.Explained cfg lib (log ++ [a]) token := by
  obtain ⟨n, user, before, outcome, createdAt, hprefix, hrest⟩ := h
  exact ⟨n, user, before, outcome, createdAt, hprefix.trans (List.prefix_append log [a]), hrest⟩

theorem Handler.Explained.later {h : Handler} (hh : h.Explained cfg lib log) :
    h.Explained cfg lib (log ++ [a]) := by
  obtain ⟨⟨earlier, s, headers, now, hprefix, hrest⟩, hright⟩ := hh
  exact ⟨⟨earlier, s, headers, now, hprefix.trans (List.prefix_append log [a]), hrest⟩, hright⟩

/-- What was explained stays so; a part of a request has to explain what it adds. -/
theorem Explained.extend (hinv : Explained cfg lib log s) (h : authStep cfg lib s a = some s')
    (hhandlers : ∀ h ∈ s'.logins.handlers, h ∈ s.logins.handlers ∨ h.Explained cfg lib (log ++ [a]))
    (hpending : ∀ n p, s'.pending.lookup n = some p →
      s.pending.lookup n = some p ∨ p.Explained cfg lib (log ++ [a]) n)
    (hstates : ∀ state row, s'.oauthStates.lookup state = some row →
      s.oauthStates.lookup state = some row ∨ row.Explained (log ++ [a]) state)
    (hsessions : ∀ token row, s'.uiSessions.lookup token = some row →
      s.uiSessions.lookup token = some row ∨ row.Explained cfg lib (log ++ [a]) token) :
    Explained cfg lib (log ++ [a]) s' where
  reached := by rw [run_append, hinv.reached, Option.bind_some, run, h, Option.bind_some, run]
  handlers h hh := (hhandlers h hh).elim (fun hold => (hinv.handlers h hold).later) id
  pending n p hp := (hpending n p hp).elim (fun hold => (hinv.pending n p hold).later) id
  states state row hr := (hstates state row hr).elim (fun hold => (hinv.states state row hold).later) id
  sessions token row hr :=
    (hsessions token row hr).elim (fun hold => (hinv.sessions token row hold).later) id

theorem lookup_leave {m : ℕ} {p : Pending} (h : (s.leave n).pending.lookup m = some p) :
    s.pending.lookup m = some p := (Table.lookup_of_erase h).2

theorem lookup_park {m : ℕ} {p q : Pending} (h : (s.park n q).pending.lookup m = some p) :
    s.pending.lookup m = some p ∨ m = n ∧ p = q :=
  (Table.lookup_insert_cases h).symm.imp And.right id

theorem pair_sublist {b : AuthAct} (h : b ∈ log) : [b, a].Sublist (log ++ [a]) :=
  (List.singleton_sublist.mpr h).append (List.Sublist.refl [a])

/-- The handlers of logins after a part of one of them. -/
theorem serverStep_handlers {rate : LoginRateLimitConfig} {verify : LoginRequest → Bool} {r r' : Server}
    {act : Act} (h : serverStep rate verify r act = some r') : ∀ x ∈ r'.handlers, x ∈ r.handlers ∨
      (∃ now, act = .login x.payload x.remoteAddr now ∧ x.stage ≠ .right ∧
        (checkAt rate r.attempts x.payload.username x.remoteAddr now).2 = .allowed) ∨
      ∃ y ∈ r.handlers, x.payload = y.payload ∧ x.remoteAddr = y.remoteAddr ∧
        (x.stage = .right → verify x.payload = true) := by
  intro x hx
  cases act with
  | login payload remoteAddr now =>
    simp only [serverStep] at h
    split at h
    swap
    · cases h
    split at h
    · cases h
      exact .inl hx
    · rename_i attempts hcheck
      cases h
      rcases List.mem_cons.mp hx with rfl | hx
      · exact .inr (.inl ⟨now, rfl, by dsimp only; split <;> simp, by rw [hcheck]⟩)
      · exact .inl hx
  | verify i ok =>
    simp only [serverStep] at h
    split at h
    · cases h
    · rename_i y hy
      split at h
      swap
      · cases h
      split at h
      · cases h
        rcases pool_mem_set hy hx with rfl | hx
        · exact .inr (.inr ⟨y, pool_mem hy, rfl, rfl, by dsimp only; split <;> simp_all⟩)
        · exact .inl (List.mem_of_mem_eraseIdx hx)
      · cases h
        exact .inl (List.mem_of_mem_eraseIdx hx)
  | record i now victim =>
    simp only [serverStep] at h
    split at h
    · cases h
    · split_ifs at h
      obtain ⟨result, -, rfl⟩ := Option.map_eq_some_iff.mp h
      exact .inl (List.mem_of_mem_eraseIdx hx)

/-- The requests under way when a session is about to be created. -/
theorem explained_createSession {user : MeResponse} {bytes : TokenBytes} {now : ℤ} {via : Option Token}
    (hsign : SignIn cfg lib (log ++ [a]) n (randomToken bytes) user (now + sessionTtl cfg)) :
    ∀ m p, (s.createSession cfg n user bytes now via).pending.lookup m = some p →
      s.pending.lookup m = some p ∨ p.Explained cfg lib (log ++ [a]) m := by
  intro m p hp
  rcases createSession_cases cfg s n user bytes now via with h | h
  · rw [h] at hp
    exact .inl (lookup_leave hp)
  · rw [h] at hp
    rcases lookup_park hp with hold | ⟨rfl, rfl⟩
    · exact .inl hold
    · exact .inr hsign

variable (cfg) in
theorem createSession_tables (s : AuthState) (n : ℕ) (user : MeResponse) (bytes : TokenBytes) (now : ℤ)
    (via : Option Token) :
    (s.createSession cfg n user bytes now via).logins = s.logins ∧
    (s.createSession cfg n user bytes now via).oauthStates = s.oauthStates ∧
    (s.createSession cfg n user bytes now via).uiSessions = s.uiSessions ∧
    (s.createSession cfg n user bytes now via).issued = s.issued := by
  rcases createSession_cases cfg s n user bytes now via with h | h <;> rw [h]
  · exact ⟨rfl, rfl, rfl, rfl⟩
  · exact ⟨rfl, rfl, rfl, rfl⟩

/-- A login handler goes on only with what its request brought. -/
theorem throttled_explained (hinv : Explained cfg lib log s) {act : Act} {logins : Server}
    (h : throttled cfg lib s act = some logins)
    (hlogin : ∀ payload remoteAddr now, act = .login payload remoteAddr now →
      ∃ headers, sameOriginRequestAllowed lib cfg.publicUrl .post headers = true ∧
        a = .login headers payload remoteAddr now) :
    ∀ x ∈ logins.handlers, x ∈ s.logins.handlers ∨ x.Explained cfg lib (log ++ [a]) := by
  intro x hx
  rcases serverStep_handlers h x hx with
    hold | ⟨now, hact, hstage, hallowed⟩ | ⟨y, hy, hpayload, haddr, hright⟩
  · exact .inl hold
  · obtain ⟨headers, horigin, rfl⟩ := hlogin _ _ _ hact
    exact .inr ⟨⟨log, s, headers, now, List.prefix_rfl, hinv.reached, horigin, hallowed⟩,
      fun h => absurd h hstage⟩
  · have hlet := ((hinv.handlers y hy).later (a := a)).1
    exact .inr ⟨by rwa [hpayload, haddr], hright⟩

/-- Nothing was added. -/
theorem Explained.shrink (hinv : Explained cfg lib log s) (h : authStep cfg lib s a = some s')
    (hlogins : s'.logins = s.logins)
    (hpending : ∀ n p, s'.pending.lookup n = some p → s.pending.lookup n = some p)
    (hstates : ∀ state row, s'.oauthStates.lookup state = some row →
      s.oauthStates.lookup state = some row)
    (hsessions : ∀ token row, s'.uiSessions.lookup token = some row →
      s.uiSessions.lookup token = some row) : Explained cfg lib (log ++ [a]) s' :=
  hinv.extend h (fun _ hh => .inl (hlogins ▸ hh)) (fun n p hp => .inl (hpending n p hp))
    (fun state row hr => .inl (hstates state row hr)) fun token row hr => .inl (hsessions token row hr)

theorem Explained.idle (hinv : Explained cfg lib log s) (h : authStep cfg lib s a = some s) :
    Explained cfg lib (log ++ [a]) s :=
  hinv.shrink h rfl (fun _ _ => id) (fun _ _ => id) fun _ _ => id

theorem Explained.left (hinv : Explained cfg lib log s) (h : authStep cfg lib s a = some (s.leave n)) :
    Explained cfg lib (log ++ [a]) (s.leave n) :=
  hinv.shrink h rfl (fun _ _ => lookup_leave) (fun _ _ => id) fun _ _ => id

/-- One request more is under way. -/
theorem Explained.parked (hinv : Explained cfg lib log s) {p : Pending} {next : ℕ} {drawn : List Token}
    (h : authStep cfg lib s a = some { s.park n p with next, drawn })
    (hp : p.Explained cfg lib (log ++ [a]) n) :
    Explained cfg lib (log ++ [a]) { s.park n p with next, drawn } := by
  refine hinv.extend h (fun _ => .inl) (fun m q hq => (lookup_park hq).imp id ?_) (fun _ _ => .inl)
    fun _ _ => .inl
  rintro ⟨rfl, rfl⟩
  exact hp

/-! ### Part by part -/

/-- Only the handlers of logins have changed. -/
theorem Explained.throttled (hinv : Explained cfg lib log s) {act : Act} {logins : Server}
    (h : authStep cfg lib s a = some { s with logins }) (hact : Auth.throttled cfg lib s act = some logins)
    (hlogin : ∀ payload remoteAddr now, act = .login payload remoteAddr now →
      ∃ headers, sameOriginRequestAllowed lib cfg.publicUrl .post headers = true ∧
        a = .login headers payload remoteAddr now) :
    Explained cfg lib (log ++ [a]) { s with logins } :=
  hinv.extend h (throttled_explained hinv hact hlogin) (fun _ _ => .inl) (fun _ _ => .inl)
    fun _ _ => .inl

theorem explained_login {headers : Proxy.HeaderMap} {payload : LoginRequest} {remoteAddr : List Char}
    {now : ℕ} (hinv : Explained cfg lib log s)
    (h : authStep cfg lib s (.login headers payload remoteAddr now) = some s') :
    Explained cfg lib (log ++ [.login headers payload remoteAddr now]) s' := by
  rcases login_cases h with rfl | ⟨logins, horigin, hlogins, rfl⟩
  · exact hinv.idle h
  · refine hinv.throttled h hlogins ?_
    rintro _ _ _ ⟨⟩
    exact ⟨headers, horigin, rfl⟩

theorem explained_record {i now : ℕ} {victim : LoginThrottleKey} {bytes : TokenBytes} {signedInAt : ℤ}
    (hinv : Explained cfg lib log s)
    (h : authStep cfg lib s (.record n i now victim bytes signedInAt) = some s') :
    Explained cfg lib (log ++ [.record n i now victim bytes signedInAt]) s' := by
  have hnone : ∀ payload remoteAddr at', Act.record i now victim = .login payload remoteAddr at' →
      ∃ headers, sameOriginRequestAllowed lib cfg.publicUrl .post headers = true ∧
        AuthAct.record n i now victim bytes signedInAt = .login headers payload remoteAddr at' := by
    rintro _ _ _ ⟨⟩
  obtain ⟨handler, logins, hi, hlogins, rfl | ⟨hright, rfl⟩⟩ := record_cases h
  · exact hinv.throttled h hlogins hnone
  · obtain ⟨hlet, hverify⟩ := hinv.handlers handler (pool_mem hi)
    have hsign : SignIn cfg lib (log ++ [.record n i now victim bytes signedInAt]) n (randomToken bytes)
        (localUser cfg) (signedInAt + sessionTtl cfg) :=
      .password hlet (hverify hright) List.prefix_rfl
    obtain ⟨hl, hs, hu, -⟩ := createSession_tables cfg { s with logins, next := n + 1 } n
      (localUser cfg) bytes signedInAt none
    refine hinv.extend h ?_ (explained_createSession hsign) (fun _ _ hr => ?_) fun _ _ hr => ?_
    · rw [hl]
      exact throttled_explained hinv hlogins hnone
    · exact .inl (by rwa [hs] at hr)
    · exact .inl (by rwa [hu] at hr)

theorem explained_insertState {outcome : DbOutcome} {now : ℤ} (hinv : Explained cfg lib log s)
    (h : authStep cfg lib s (.insertState n outcome now) = some s') :
    Explained cfg lib (log ++ [.insertState n outcome now]) s' := by
  obtain ⟨state, expiresAt, hp, rfl | rfl⟩ := insertState_cases h
  · exact hinv.left h
  · refine hinv.extend h (fun _ => .inl) (fun _ _ hp => .inl (lookup_leave hp)) (fun k row hr => ?_)
      fun _ _ => .inl
    refine (Table.lookup_insert_cases hr).symm.imp And.right ?_
    rintro ⟨rfl, rfl⟩
    obtain ⟨discovery, bytes, openedAt, hmem, hstate, hexp⟩ := hinv.pending n _ hp
    exact ⟨n, discovery, bytes, openedAt, outcome, now, pair_sublist hmem, hstate, hexp⟩

/-- The state was issued, and came back in time. -/
theorem explained_consumeState {outcome : DbOutcome} {now : ℤ} (hinv : Explained cfg lib log s)
    (h : authStep cfg lib s (.consumeState n outcome now) = some s') :
    Explained cfg lib (log ++ [.consumeState n outcome now]) s' := by
  obtain ⟨state, code, hp, rfl | ⟨row, hrow, hlive, hend⟩⟩ := consumeState_cases h
  · exact hinv.left h
  have hkept : ∀ k row, (s.oauthStates.erase state).lookup k = some row →
      s.oauthStates.lookup k = some row := fun _ _ hr => (Table.lookup_of_erase hr).2
  rcases hend with rfl | ⟨rfl, rfl⟩
  · exact hinv.shrink h rfl (fun _ _ => lookup_leave) hkept fun _ _ => id
  · obtain ⟨opened, discovery, bytes, openedAt, stored, storedAt, hacts, rfl, hexp⟩ :=
      hinv.states state row hrow
    obtain ⟨headers, hmem, hcookie⟩ := hinv.pending n _ hp
    refine hinv.extend h (fun _ => .inl) (fun k p hp => ?_) (fun k r hr => .inl (hkept k r hr))
      fun _ _ => .inl
    refine (lookup_park hp).imp id ?_
    rintro ⟨rfl, rfl⟩
    refine ⟨⟨opened, discovery, bytes, openedAt, stored, storedAt, k, headers, code, now⟩, ?_, rfl,
      rfl, rfl⟩
    exact ⟨hacts.append (List.Sublist.refl _), pair_sublist hmem, hcookie, by simpa [hexp] using hlive⟩

theorem explained_provider {answers : ProviderAnswers} {bytes : TokenBytes} {now : ℤ}
    (hinv : Explained cfg lib log s)
    (h : authStep cfg lib s (.provider n answers bytes now) = some s') :
    Explained cfg lib (log ++ [.provider n answers bytes now]) s' := by
  obtain ⟨state, code, hp, rfl | ⟨user, huser, rfl⟩⟩ := provider_cases h
  · exact hinv.left h
  obtain ⟨v, hv, rfl, -, -⟩ := hinv.pending n _ hp
  have hmem : .consumeState v.request .done v.consumedAt ∈ log := hv.calledBack.subset (by simp)
  have hsign : SignIn cfg lib (log ++ [.provider v.request answers bytes now]) v.request
      (randomToken bytes) user (now + sessionTtl cfg) := .oauth
    ⟨hv.issued.trans (List.sublist_append_left log _),
      hv.calledBack.trans (List.sublist_append_left log _), hv.cookie, hv.inTime⟩
    huser (pair_sublist hmem)
  obtain ⟨hl, hs, hu, -⟩ := createSession_tables cfg s v.request user bytes now (some state)
  refine hinv.extend h (fun _ hh => ?_) (explained_createSession hsign) (fun _ _ hr => ?_)
    fun _ _ hr => ?_
  · exact .inl (by rwa [hl] at hh)
  · exact .inl (by rwa [hs] at hr)
  · exact .inl (by rwa [hu] at hr)

theorem explained_insertSession {outcome : DbOutcome} {now : ℤ} (hinv : Explained cfg lib log s)
    (h : authStep cfg lib s (.insertSession n outcome now) = some s') :
    Explained cfg lib (log ++ [.insertSession n outcome now]) s' := by
  obtain ⟨token, user, expiresAt, via, hp, rfl | ⟨-, rfl⟩⟩ := insertSession_cases h
  · exact hinv.left h
  · refine hinv.extend h (fun _ => .inl) (fun _ _ hp => .inl (lookup_leave hp)) (fun _ _ => .inl)
      fun k row hr => ?_
    refine (Table.lookup_insert_cases hr).symm.imp And.right ?_
    rintro ⟨rfl, rfl⟩
    exact ⟨n, user, log, outcome, now, List.prefix_rfl, hinv.pending n _ hp, rfl, rfl, rfl⟩

theorem explained_step (hinv : Explained cfg lib log s) (h : authStep cfg lib s a = some s') :
    Explained cfg lib (log ++ [a]) s' := by
  have hadd : a ∈ log ++ [a] := by simp
  cases a with
  | login headers payload remoteAddr now => exact explained_login hinv h
  | verify i ok =>
    obtain ⟨logins, hlogins, rfl⟩ := verify_cases h
    exact hinv.throttled h hlogins (by rintro _ _ _ ⟨⟩)
  | record m i now victim bytes signedInAt => exact explained_record hinv h
  | oauthStart m discovery bytes now =>
    rcases oauthStart_cases h with rfl | rfl
    · exact hinv.idle h
    · exact hinv.parked h ⟨discovery, bytes, now, hadd, rfl, rfl⟩
  | insertState m outcome now => exact explained_insertState hinv h
  | oauthCallback m headers state code =>
    rcases oauthCallback_cases h with rfl | ⟨hcookie, rfl⟩
    · exact hinv.idle h
    · exact hinv.parked h ⟨headers, hadd, hcookie⟩
  | consumeState m outcome now => exact explained_consumeState hinv h
  | provider m answers bytes now => exact explained_provider hinv h
  | insertSession m outcome now => exact explained_insertSession hinv h
  | logout headers outcome =>
    rcases logout_cases h with rfl | ⟨id, rfl⟩
    · exact hinv.idle h
    · exact hinv.shrink h rfl (fun _ _ hp => hp) (fun _ _ hr => hr)
        fun _ _ hr => (Table.lookup_of_erase hr).2
  | revokeRequest m headers hash now lookup =>
    rcases revokeRequest_cases h with rfl | ⟨hash, rfl⟩
    · exact hinv.idle h
    · exact hinv.parked h trivial
  | revoke m outcome =>
    obtain ⟨hash, -, rfl | rfl⟩ := revoke_cases h
    · exact hinv.left h
    · exact hinv.shrink h rfl (fun _ _ => lookup_leave) (fun _ _ => id)
        fun _ _ => Table.lookup_of_retainKeys
  | pruneSessions now batch order =>
    obtain ⟨keys, -, rfl⟩ := Option.map_eq_some_iff.mp h
    exact hinv.shrink h rfl (fun _ _ => id) (fun _ _ => id) fun _ _ => Table.lookup_of_retainKeys
  | pruneStates now batch order =>
    obtain ⟨keys, -, rfl⟩ := Option.map_eq_some_iff.mp h
    exact hinv.shrink h rfl (fun _ _ => id) (fun _ _ => Table.lookup_of_retainKeys) fun _ _ => id

theorem reached_explained (hrun : run (authStep cfg lib) AuthState.initial log = some s) :
    Explained cfg lib log s := by
  refine run_inv (I := Explained cfg lib) hrun ⟨rfl, ?_, ?_, ?_, ?_⟩ fun done a s t hinv hst =>
    explained_step hinv hst
  · simp [AuthState.initial, Server.initial]
  all_goals
    intro _ _ h
    cases h

/-- The user of an OAuth sign-in: verified where that is required, and on the allowlist. -/
structure Permitted (cfg : AuthConfig) (answers : ProviderAnswers) (user : MeResponse) : Prop where
  method : user.loginMethod = .oauth
  email : ∃ userinfo text, answers.userinfo = .ok userinfo ∧
    (userinfo.get "email").bind Json.asStr = some text ∧ user.userId = toAsciiLowercase text.toList ∧
    (cfg.oauth.requireEmailVerified = true →
      (userinfo.get "email_verified").bind Json.asBool = some true)
  allowed : (cfg.oauth.allowedEmails = [] ∧ cfg.oauth.allowedDomains = []) ∨
    (∃ allowed ∈ cfg.oauth.allowedEmails, toAsciiLowercase allowed = toAsciiLowercase user.userId) ∨
    ∃ allowed ∈ cfg.oauth.allowedDomains, ∃ mailbox domain, user.userId = mailbox ++ '@' :: domain ∧
      '@' ∉ domain ∧ toAsciiLowercase allowed = toAsciiLowercase domain

theorem required_eq_ok {α : Type} {value : Option α} {message : String} {a : α} :
    required value message = .ok a ↔ value = some a := by
  cases value <;> simp [required]

theorem enforceOauthAllowlist_ok {email : List Char} {u : Unit}
    (h : enforceOauthAllowlist cfg email = .ok u) :
    (cfg.oauth.allowedEmails = [] ∧ cfg.oauth.allowedDomains = []) ∨
    (∃ allowed ∈ cfg.oauth.allowedEmails, toAsciiLowercase allowed = toAsciiLowercase email) ∨
    ∃ allowed ∈ cfg.oauth.allowedDomains, ∃ mailbox domain, email = mailbox ++ '@' :: domain ∧
      '@' ∉ domain ∧ toAsciiLowercase allowed = toAsciiLowercase domain := by
  rw [enforceOauthAllowlist] at h
  split at h
  · rename_i hemail
    obtain ⟨allowed, hmem, heq⟩ := List.any_eq_true.mp hemail
    exact .inr (.inl ⟨allowed, hmem, by simpa [eqIgnoreAsciiCase] using heq⟩)
  split at h
  · rename_i hdomain
    obtain ⟨⟨mailbox, domain⟩, hcut, hany⟩ := Option.any_eq_true _ _ |>.mp hdomain
    obtain ⟨allowed, hmem, heq⟩ := List.any_eq_true.mp hany
    obtain ⟨hemail, hat⟩ := rsplitOnce_eq_some.mp hcut
    exact .inr (.inr ⟨allowed, hmem, mailbox, domain, hemail, hat,
      by simpa [eqIgnoreAsciiCase] using heq⟩)
  split at h
  · rename_i hnone
    exact .inl hnone
  · cases h

theorem enforceOauthEmailVerified_ok {userinfo : Json} {u : Unit}
    (h : enforceOauthEmailVerified cfg userinfo = .ok u) (hrequired : cfg.oauth.requireEmailVerified = true) :
    (userinfo.get "email_verified").bind Json.asBool = some true := by
  rw [enforceOauthEmailVerified, if_pos hrequired] at h
  split at h
  · assumption
  · cases h
  · cases h

theorem finishOauth_permitted {answers : ProviderAnswers} {user : MeResponse}
    (h : finishOauth cfg lib answers = .ok user) : Permitted cfg answers user := by
  simp only [finishOauth, bind_eq_ok, required_eq_ok] at h
  obtain ⟨metadata, -, _, -, _, -, token, -, _, -, userinfo, huserinfo, email, hemail, _, hverified, _,
    hallowed, _, -, _, -, huser⟩ := h
  cases huser
  exact ⟨rfl, ⟨userinfo, email, huserinfo, hemail, rfl, enforceOauthEmailVerified_ok hverified⟩,
    enforceOauthAllowlist_ok hallowed⟩

theorem SignIn.permitted {token : Token} {user : MeResponse} {expiresAt : ℤ}
    (h : SignIn cfg lib log n token user expiresAt) (hoauth : user.loginMethod = .oauth) :
    ∃ answers, Permitted cfg answers user := by
  cases h with
  | password => cases hoauth
  | oauth _ huser _ => exact ⟨_, finishOauth_permitted huser⟩

/-- A user of the session in the cookie has a live row. -/
theorem currentUser_eq_some {headers : Proxy.HeaderMap} {now : ℤ} {lookup : DbOutcome} {user : MeResponse}
    (h : currentUser lib s headers now lookup = .ok (some user)) :
    ∃ token row, sessionCookie lib headers = some token ∧ s.uiSessions.lookup token = some row ∧
      now < row.expiresAt ∧ LoginMethod.parse row.loginMethod = some user.loginMethod ∧
      row.userId = user.userId ∧ row.displayName = user.displayName := by
  simp only [currentUser] at h
  split at h
  · cases h
  rename_i token htoken
  split_ifs at h
  split at h
  · cases h
  rename_i row hrow
  split_ifs at h with hlive
  · split at h
    · rename_i m hm
      cases h
      exact ⟨token, row, htoken, hrow, hlive, hm, rfl, rfl⟩
    · cases h
  · cases h

end

/-- A run of the sample sign-in, in which every token is new. -/
theorem sampleSignIn_run : ∃ s : AuthState, s.issued.length = 1 ∧
    Reaches (authStep sampleAuthConfig sampleAuthLib) FreshTokens AuthState.initial s := by
  have hrun : (run (fun s a => if FreshTokens s a then authStep sampleAuthConfig sampleAuthLib s a else none)
      AuthState.initial sampleSignIn).map (fun s => s.issued.length) = some 1 := by decide +kernel
  obtain ⟨s, hs, hlen⟩ := Option.map_eq_some_iff.mp hrun
  exact ⟨s, hlen, reaches_of_run_if hs⟩

theorem oauth_state_signs_in_once_sample : ∃ s : AuthState, s.issued.length = 1 ∧
    (s.issued.countP fun i => decide (i.via = some (randomToken zeroBytes))) ≤ 1 := by
  obtain ⟨s, hlen, hrun⟩ := sampleSignIn_run
  exact ⟨s, hlen, (oauth_state_signs_in_once sampleAuthConfig sampleAuthLib s hrun).1 _⟩

end Llmtrace.Auth
