import Llmtrace.Auth.SignIn

/-! How sessions end, over whole runs of the sign-in requests: logout, revocation by hash and retention
    are the only ways, until then a session serves its user to its last instant, and afterwards its token
    is worth nothing.

        insert session ──▶ live ──▶ logout │ revoke │ prune ──▶ gone for good -/

namespace Llmtrace.Auth
open Schemes

section
variable (cfg : AuthConfig) (lib : AuthLib)

/-- A logout with the token, or the revocation of its hash, that reaches the database. -/
def SignsOut (s : AuthState) (a : AuthAct) (token : Token) : Prop :=
  match a with
  | .logout headers outcome => sameOriginRequestAllowed lib cfg.publicUrl .post headers = true ∧
      sessionCookie lib headers = some token ∧ outcome ≠ .failed
  | .revoke n outcome => s.pending.lookup n = some (.revoking (sessionHash lib token)) ∧
      outcome ≠ .failed
  | _ => False

/-- The part deletes the session of `token`. -/
def Ends (s : AuthState) (a : AuthAct) (token : Token) : Prop :=
  match a with
  | .pruneSessions now batch order =>
    ∃ keys, expiredKeys UiSession.expiresAt s.uiSessions now batch order = some keys ∧ token ∈ keys
  | a => SignsOut cfg lib s a token

end

section
variable {cfg : AuthConfig} {lib : AuthLib} {s s' : AuthState} {a : AuthAct} {token : Token}

/-- The parts that work on sessions. -/
def onSessions : AuthAct → Bool
  | .insertSession _ _ _ | .logout _ _ | .revoke _ _ | .pruneSessions _ _ _ => true
  | _ => false

theorem sessions_untouched (h : authStep cfg lib s a = some s') (hoff : onSessions a = false) :
    s'.uiSessions = s.uiSessions ∧ s'.issued = s.issued := by
  cases a with
  | insertSession | logout | revoke | pruneSessions => cases hoff
  | login headers payload remoteAddr now =>
    rcases login_cases h with rfl | ⟨logins, -, -, rfl⟩ <;> exact ⟨rfl, rfl⟩
  | verify i ok =>
    obtain ⟨logins, -, rfl⟩ := verify_cases h
    exact ⟨rfl, rfl⟩
  | record n i now victim bytes signedInAt =>
    obtain ⟨handler, logins, -, -, rfl | ⟨-, rfl⟩⟩ := record_cases h
    · exact ⟨rfl, rfl⟩
    · exact (createSession_tables _ _ _ _ _ _ _).2.2
  | oauthStart n discovery bytes now =>
    rcases oauthStart_cases h with rfl | rfl <;> exact ⟨rfl, rfl⟩
  | insertState n outcome now =>
    obtain ⟨state, expiresAt, -, rfl | rfl⟩ := insertState_cases h <;> exact ⟨rfl, rfl⟩
  | oauthCallback n headers state code =>
    rcases oauthCallback_cases h with rfl | ⟨-, rfl⟩ <;> exact ⟨rfl, rfl⟩
  | consumeState n outcome now =>
    obtain ⟨state, code, -, rfl | ⟨row, -, -, rfl | ⟨-, rfl⟩⟩⟩ := consumeState_cases h <;> exact ⟨rfl, rfl⟩
  | provider n answers bytes now =>
    obtain ⟨state, code, -, rfl | ⟨user, -, rfl⟩⟩ := provider_cases h
    · exact ⟨rfl, rfl⟩
    · exact (createSession_tables _ _ _ _ _ _ _).2.2
  | revokeRequest n headers hash now lookup =>
    rcases revokeRequest_cases h with rfl | ⟨hash, rfl⟩ <;> exact ⟨rfl, rfl⟩
  | pruneStates now batch order =>
    obtain ⟨keys, -, rfl⟩ := Option.map_eq_some_iff.mp h
    exact ⟨rfl, rfl⟩

/-- A request under way creates the session of `token`, which is not there. -/
def Begins (s : AuthState) (token : Token) : Prop :=
  ∃ n user expiresAt via, s.pending.lookup n = some (.creating token user expiresAt via) ∧
    token ∉ s.uiSessions

/-- What a part of a request does to the session of `token`: nothing, its end, or its beginning. -/
inductive Fate (cfg : AuthConfig) (lib : AuthLib) (s s' : AuthState) (a : AuthAct) (token : Token) : Prop
  | kept : ¬ Ends cfg lib s a token → s'.uiSessions.lookup token = s.uiSessions.lookup token →
    Fate cfg lib s s' a token
  | ended : Ends cfg lib s a token → s'.uiSessions.lookup token = none → Fate cfg lib s s' a token
  | begun : ¬ Ends cfg lib s a token → Begins s token → (∃ i ∈ s'.issued, i.token = token) →
    Fate cfg lib s s' a token

theorem insertSession_fate {n : ℕ} {outcome : DbOutcome} {now : ℤ}
    (h : authStep cfg lib s (.insertSession n outcome now) = some s') (token : Token) :
    Fate cfg lib s s' (.insertSession n outcome now) token := by
  obtain ⟨token', user, expiresAt, via, hp, rfl | ⟨hnew, rfl⟩⟩ := insertSession_cases h
  · exact .kept id rfl
  · by_cases ht : token = token'
    · subst ht
      exact .begun id ⟨n, user, expiresAt, via, hp, hnew⟩ ⟨_, List.mem_cons_self, rfl⟩
    · exact .kept id (AList.lookup_insert_ne ht)

theorem logout_fate {headers : Proxy.HeaderMap} {outcome : DbOutcome}
    (h : authStep cfg lib s (.logout headers outcome) = some s') (token : Token) :
    Fate cfg lib s s' (.logout headers outcome) token := by
  simp only [authStep] at h
  split at h
  · rename_i horigin
    split at h
    · rename_i cookie hcookie
      cases h
      split_ifs with hout
      · exact .kept (fun hend => hend.2.2 hout) rfl
      · by_cases ht : token = cookie
        · subst ht
          exact .ended ⟨horigin, hcookie, hout⟩ (by simp)
        · refine .kept (fun hend => ht ?_) (AList.lookup_erase_ne ht)
          exact (Option.some.inj (hcookie.symm.trans hend.2.1)).symm
    · rename_i hcookie
      cases h
      refine .kept (fun hend => ?_) rfl
      rw [hend.2.1] at hcookie
      cases hcookie
  · rename_i horigin
    cases h
    exact .kept (fun hend => horigin hend.1) rfl

theorem revoke_fate {n : ℕ} {outcome : DbOutcome} (h : authStep cfg lib s (.revoke n outcome) = some s')
    (token : Token) : Fate cfg lib s s' (.revoke n outcome) token := by
  simp only [authStep] at h
  split at h
  · rename_i hash hp
    split_ifs at h with hout
    · cases h
      exact .kept (fun hend => hend.2 hout) rfl
    · cases h
      by_cases ht : sessionHash lib token = hash
      · subst ht
        exact .ended ⟨hp, hout⟩ (by simp [Table.lookup_retainKeys])
      · refine .kept (fun hend => ht ?_) (by simp [Table.lookup_retainKeys, ht])
        have hsame := hp.symm.trans hend.1
        simpa using hsame.symm
  · cases h

theorem pruneSessions_fate {now : ℤ} {batch : ℕ} {order : List (Token × ℤ)}
    (h : authStep cfg lib s (.pruneSessions now batch order) = some s') (token : Token) :
    Fate cfg lib s s' (.pruneSessions now batch order) token := by
  obtain ⟨keys, hkeys, rfl⟩ := Option.map_eq_some_iff.mp h
  by_cases ht : token ∈ keys
  · exact .ended ⟨keys, hkeys, ht⟩ (by simp [Table.lookup_retainKeys, ht])
  · refine .kept ?_ (by simp [Table.lookup_retainKeys, ht])
    rintro ⟨keys', hkeys', hmem⟩
    exact ht (Option.some.inj (hkeys.symm.trans hkeys') ▸ hmem)

theorem session_fate (h : authStep cfg lib s a = some s') (token : Token) : Fate cfg lib s s' a token := by
  rcases hon : onSessions a with _ | _
  · refine .kept ?_ (by rw [(sessions_untouched h hon).1])
    cases a <;> first | exact id | cases hon
  cases a with
  | insertSession n outcome now => exact insertSession_fate h token
  | logout headers outcome => exact logout_fate h token
  | revoke n outcome => exact revoke_fate h token
  | pruneSessions now batch order => exact pruneSessions_fate h token
  | _ => cases hon

/-- What was created stays on record. -/
theorem issued_grows (h : authStep cfg lib s a = some s') : s.issued ⊆ s'.issued := by
  rcases hon : onSessions a with _ | _
  · rw [(sessions_untouched h hon).2]
    exact fun _ => id
  cases a with
  | insertSession n outcome now =>
    obtain ⟨token, user, expiresAt, via, -, rfl | ⟨-, rfl⟩⟩ := insertSession_cases h
    · exact fun _ => id
    · exact List.subset_cons_self _ _
  | logout headers outcome =>
    rcases logout_cases h with rfl | ⟨token, rfl⟩ <;> exact fun _ => id
  | revoke n outcome =>
    obtain ⟨hash, -, rfl | rfl⟩ := revoke_cases h <;> exact fun _ => id
  | pruneSessions now batch order =>
    obtain ⟨keys, -, rfl⟩ := Option.map_eq_some_iff.mp h
    exact fun _ => id
  | _ => cases hon

/-! ### Until the end -/

/-- Nothing happens that could end a session with this expiry before its time. -/
def Undisturbed (cfg : AuthConfig) (lib : AuthLib) (token : Token) (expiresAt : ℤ) (s : AuthState)
    (a : AuthAct) : Prop :=
  ¬ SignsOut cfg lib s a token ∧ ∀ now batch order, a = .pruneSessions now batch order → now ≤ expiresAt

theorem not_ends {row : UiSession} (hrow : s.uiSessions.lookup token = some row)
    (h : Undisturbed cfg lib token row.expiresAt s a) : ¬ Ends cfg lib s a token := by
  obtain ⟨hout, hprune⟩ := h
  cases a with
  | pruneSessions now batch order =>
    rintro ⟨keys, hkeys, hmem⟩
    obtain ⟨r, hr, hexpired, rfl⟩ := (Storage.selectDoomed_spec hkeys).1 token hmem
    obtain ⟨entry, hentry, rfl⟩ := List.mem_map.mp hr
    rw [Table.lookup_eq_some.mpr hentry, Option.some.injEq] at hrow
    have := hprune now batch order rfl
    simp only [decide_eq_true_eq, hrow] at hexpired
    omega
  | _ => exact hout

/-- A session stays as it is through every run that does not disturb it. -/
theorem session_kept {row : UiSession} {t : AuthState} (hrow : s.uiSessions.lookup token = some row)
    (h : Reaches (authStep cfg lib) (Undisturbed cfg lib token row.expiresAt) s t) :
    t.uiSessions.lookup token = some row := by
  refine h.inv (I := fun s => s.uiSessions.lookup token = some row) ?_ hrow
  intro s a t hrow hgoes hst
  rcases session_fate hst token with ⟨-, hsame⟩ | ⟨hend, -⟩ | ⟨-, ⟨n, user, _, via, -, hnew⟩, -⟩
  · rw [hsame, hrow]
  · exact absurd hend (not_ends hrow hgoes)
  · exact absurd (Table.mem_of_lookup hrow) hnew

/-- CORRECT: from the moment a session is there, whatever other requests do, it answers every request
    of the same origin that carries its token, and whose lookup is answered, with its user, up to the
    instant of its expiry and not after it, as long as nobody logs out with it or revokes it. Retention
    does not shorten it. A lookup that is not answered is an error of the server, not a sign-out. -/
theorem session_serves_until_expiry (cfg : AuthConfig) (lib : AuthLib) {log : List AuthAct}
    {s : AuthState} (hrun : run (authStep cfg lib) AuthState.initial log = some s) {token : Token}
    {row : UiSession} (hrow : s.uiSessions.lookup token = some row) :
    ∃ user : MeResponse, user.userId = row.userId ∧ user.displayName = row.displayName ∧
      ∀ t, Reaches (authStep cfg lib) (Undisturbed cfg lib token row.expiresAt) s t →
        ∀ method headers now lookup, sameOriginRequestAllowed lib cfg.publicUrl method headers = true →
          sessionCookie lib headers = some token →
          requireAuth cfg lib t method headers now lookup =
            if lookup = .done then if now < row.expiresAt then .next user else .loginRequired
            else .serverError := by
  obtain ⟨n, user, -, -, -, -, -, hid, hname, hmethod⟩ := (reached_explained hrun).sessions token row hrow
  refine ⟨user, hid.symm, hname.symm, fun t hreach method headers now lookup horigin hcookie => ?_⟩
  have hkept := session_kept hrow hreach
  have hparse : LoginMethod.parse row.loginMethod = some user.loginMethod := by
    rw [hmethod, LoginMethod.parse_asStr]
  rw [requireAuth, if_pos horigin, currentUser, hcookie]
  by_cases hanswered : lookup = .done
  · simp only [if_pos hanswered, hkept]
    by_cases hlive : now < row.expiresAt
    · simp only [if_pos hlive, hparse, hid, hname]
    · simp only [if_neg hlive]
  · simp only [if_neg hanswered]

/-! ### After the end -/

/-- The session of `token` was created, and is no more. -/
def Ended (token : Token) (s : AuthState) : Prop :=
  (∃ i ∈ s.issued, i.token = token) ∧ s.uiSessions.lookup token = none

/-- A token that was issued has no request that would create its session again. -/
theorem not_begins (hone : OnePlace s) (hissued : ∃ i ∈ s.issued, i.token = token) : ¬ Begins s token := by
  rintro ⟨n, user, expiresAt, via, hp, -⟩
  obtain ⟨i, hi, rfl⟩ := hissued
  have hpending := Table.le_total (Pending.weight i.token) hp
  have hcount : 0 < s.issued.countP (Issued.carries i.token) :=
    List.countP_pos_iff.mpr ⟨i, hi, by simp [Issued.carries]⟩
  have hle : load s i.token ≤ 1 := (hone i.token).1
  simp only [Pending.weight, Pending.carries, beq_self_eq_true, Bool.true_or, if_true] at hpending
  simp only [load] at hle
  omega

theorem ended_step (hone : OnePlace s) (hended : Ended token s) (h : authStep cfg lib s a = some s') :
    Ended token s' := by
  obtain ⟨⟨i, hi, htoken⟩, hrow⟩ := hended
  refine ⟨⟨i, issued_grows h hi, htoken⟩, ?_⟩
  rcases session_fate h token with ⟨-, hsame⟩ | ⟨-, hnone⟩ | ⟨-, hbegins, -⟩
  · rw [hsame, hrow]
  · exact hnone
  · exact absurd hbegins (not_begins hone ⟨i, hi, htoken⟩)

/-- Every session that is there was created. -/
def AllIssued (s : AuthState) : Prop :=
  ∀ token row, s.uiSessions.lookup token = some row → ∃ i ∈ s.issued, i.token = token

theorem allIssued_step (hall : AllIssued s) (h : authStep cfg lib s a = some s') : AllIssued s' := by
  intro token row hrow
  rcases session_fate h token with ⟨-, hsame⟩ | ⟨-, hnone⟩ | ⟨-, -, hnew⟩
  · obtain ⟨i, hi, htoken⟩ := hall token row (hsame ▸ hrow)
    exact ⟨i, issued_grows h hi, htoken⟩
  · rw [hnone] at hrow
    cases hrow
  · exact hnew

theorem freshTokens_of_ends (hend : Ends cfg lib s a token) : FreshTokens s a := by
  cases a <;> trivial

/-- CORRECT: once a logout, a revocation or a retention pass has deleted a session, no request with its
    token is let through again, whatever happens afterwards: no part of a request that is still under
    way brings the session back. -/
theorem ended_session_stays_out (cfg : AuthConfig) (lib : AuthLib) {s s₁ t : AuthState} {a : AuthAct}
    {token : Token} {row : UiSession}
    (hrun : Reaches (authStep cfg lib) FreshTokens AuthState.initial s)
    (hrow : s.uiSessions.lookup token = some row) (hend : Ends cfg lib s a token)
    (hstep : authStep cfg lib s a = some s₁) (hrest : Reaches (authStep cfg lib) FreshTokens s₁ t)
    (method : Method) (headers : Proxy.HeaderMap) (now : ℤ) (lookup : DbOutcome)
    (hcookie : sessionCookie lib headers = some token) :
    requireAuth cfg lib t method headers now lookup =
      if sameOriginRequestAllowed lib cfg.publicUrl method headers then
        if lookup = .done then .loginRequired else .serverError
      else .crossSiteRejected := by
  have hall : AllIssued s := by
    refine hrun.inv (I := AllIssued) (fun s a t hall _ hst => allIssued_step hall hst) ?_
    intro token row h
    cases h
  have hrun₁ : Reaches (authStep cfg lib) FreshTokens AuthState.initial s₁ :=
    hrun.tail (freshTokens_of_ends hend) hstep
  have hended : Ended token s₁ := by
    rcases session_fate hstep token with ⟨hnot, -⟩ | ⟨-, hnone⟩ | ⟨hnot, -⟩
    · exact absurd hend hnot
    · obtain ⟨i, hi, htoken⟩ := hall token row hrow
      exact ⟨⟨i, issued_grows hstep hi, htoken⟩, hnone⟩
    · exact absurd hend hnot
  have hlast : OnePlace t ∧ Ended token t := by
    refine hrest.inv (I := fun s => OnePlace s ∧ Ended token s) ?_ ⟨reaches_onePlace hrun₁, hended⟩
    rintro s a t ⟨hone, hended⟩ hfresh hst
    exact ⟨onePlace_step hone hfresh hst, ended_step hone hended hst⟩
  by_cases horigin : sameOriginRequestAllowed lib cfg.publicUrl method headers = true
  · rw [requireAuth, if_pos horigin, if_pos horigin, currentUser, hcookie]
    by_cases hanswered : lookup = .done
    · simp only [if_pos hanswered, hlast.2.2]
    · simp only [if_neg hanswered]
  · rw [requireAuth, if_neg horigin, if_neg horigin]

end

/-- The sample sign-in and the session it created. -/
theorem sampleSession : ∃ s row,
    run (authStep sampleAuthConfig sampleAuthLib) AuthState.initial sampleSignIn = some s ∧
    s.uiSessions.lookup (randomToken oneBytes) = some row := by
  have hrun : (run (authStep sampleAuthConfig sampleAuthLib) AuthState.initial sampleSignIn).map
      (fun s => (s.uiSessions.lookup (randomToken oneBytes)).isSome) = some true := by decide +kernel
  obtain ⟨s, hs, hrow⟩ := Option.map_eq_some_iff.mp hrun
  obtain ⟨row, hrow⟩ := Option.isSome_iff_exists.mp hrow
  exact ⟨s, row, hs, hrow⟩

/-- The session cookie of a user who is signed in. -/
def sampleCookie : Proxy.HeaderMap := tokenCookie sessionCookieName (randomToken oneBytes)

theorem sampleCookie_token : sessionCookie sampleAuthLib sampleCookie = some (randomToken oneBytes) := by
  decide +kernel

theorem session_serves_until_expiry_sample : ∃ s row user,
    s.uiSessions.lookup (randomToken oneBytes) = some row ∧
    requireAuth sampleAuthConfig sampleAuthLib s .get sampleCookie 5 .done =
      if 5 < row.expiresAt then .next user else .loginRequired := by
  obtain ⟨s, row, hs, hrow⟩ := sampleSession
  obtain ⟨user, -, -, hserves⟩ :=
    session_serves_until_expiry sampleAuthConfig sampleAuthLib hs hrow
  exact ⟨s, row, user, hrow, hserves s (.refl s) .get sampleCookie 5 .done (by decide +kernel)
    sampleCookie_token⟩

/-- After a logout from the session of the sample. -/
theorem ended_session_stays_out_after_logout : ∃ s s₁,
    authStep sampleAuthConfig sampleAuthLib s (.logout sampleCookie .lost) = some s₁ ∧
    requireAuth sampleAuthConfig sampleAuthLib s₁ .get sampleCookie 5 .done = .loginRequired := by
  have hrun : (run (fun s a => if FreshTokens s a then authStep sampleAuthConfig sampleAuthLib s a else none)
      AuthState.initial sampleSignIn).map
      (fun s => (s.uiSessions.lookup (randomToken oneBytes)).isSome) = some true := by decide +kernel
  obtain ⟨s, hs, hrow⟩ := Option.map_eq_some_iff.mp hrun
  obtain ⟨row, hrow⟩ := Option.isSome_iff_exists.mp hrow
  have horigin : sameOriginRequestAllowed sampleAuthLib sampleAuthConfig.publicUrl .post sampleCookie =
      true := by decide +kernel
  have hstep : authStep sampleAuthConfig sampleAuthLib s (.logout sampleCookie .lost) =
      some { s with uiSessions := s.uiSessions.erase (randomToken oneBytes) } := by
    simp only [authStep, horigin, sampleCookie_token, if_true]
    rfl
  have hend : Ends sampleAuthConfig sampleAuthLib s (.logout sampleCookie .lost) (randomToken oneBytes) :=
    ⟨horigin, sampleCookie_token, by decide⟩
  exact ⟨s, _, hstep, ended_session_stays_out sampleAuthConfig sampleAuthLib (reaches_of_run_if hs) hrow
    hend hstep (.refl _) .get sampleCookie 5 .done sampleCookie_token⟩

end Llmtrace.Auth
