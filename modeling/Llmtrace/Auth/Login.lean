import Llmtrace.Schemes.Pool
import Llmtrace.Auth.Pruning

/-! Concurrent login handlers (`auth.rs`, `login`) over the throttle. A handler checks the throttle,
    verifies the password off the runtime, and then records what came out; between its check and its
    record any number of other handlers run.

        login:  check ▶ verifying ▶ wrong ▶ record_failure
                  │         └─────▶ right ▶ record_success
                  └───▶ oversized ▶ record_failure

    Failures count only once they are recorded, so handlers that were let in together may verify more
    wrong passwords than the limit allows. How many of them are under way is therefore part of the
    condition under which the limit holds.

    How many passwords were guessed is read off the history of what handlers recorded, by the windows
    of the reference machine; the table of the throttle has no part in it. -/

namespace Llmtrace.Auth
open Schemes

/-- The payload of `POST /api/auth/login`. -/
structure LoginRequest where
  username : List Char
  password : List Char

/-- `MAX_LOGIN_USERNAME_BYTES` -/
def maxLoginUsernameBytes : ℕ := 320

/-- `MAX_LOGIN_PASSWORD_BYTES` -/
def maxLoginPasswordBytes : ℕ := 4096

/-- The length of a string in bytes. -/
def utf8Len (s : List Char) : ℕ := (s.map Char.utf8Size).sum

/-- `login_payload_size_error` -/
def loginPayloadSizeError (payload : LoginRequest) : Option String :=
  if maxLoginUsernameBytes < utf8Len payload.username then some "username_too_long"
  else if maxLoginPasswordBytes < utf8Len payload.password then some "password_too_long"
  else none

/-- Where a handler is between its check and its end. -/
inductive Stage where
  | verifying | wrong | right | oversized
  deriving DecidableEq

/-- A handler that its check let in. -/
structure Handler where
  payload : LoginRequest
  remoteAddr : List Char
  stage : Stage

/-- The key under which the throttle knows the handler. -/
def Handler.key (h : Handler) : LoginThrottleKey := .new h.payload.username h.remoteAddr

/-- How a handler ended, and when. -/
structure Note where
  key : LoginThrottleKey
  outcome : Stage
  now : ℕ

/-- The throttle and the handlers of `login` that are under way. -/
structure Server where
  attempts : Attempts
  clock : ℕ
  handlers : List Handler
  /-- What the handlers recorded, from the latest to the first. -/
  history : List Note

/-- Nobody has tried to log in. -/
def Server.initial : Server := ⟨∅, 0, [], []⟩

/-- The parts of the handlers: the check, the verification, and what is recorded after it. -/
inductive Act where
  | login (payload : LoginRequest) (remoteAddr : List Char) (now : ℕ)
  | verify (i : ℕ) (ok : Bool)
  | record (i : ℕ) (now : ℕ) (victim : LoginThrottleKey)

section
variable (cfg : LoginRateLimitConfig)

/-- The reference machine after a history. -/
def Reference.after : List Note → Reference
  | [] => fun _ => none
  | note :: older =>
    match note.outcome with
    | .right => (Reference.after older).recordSuccess note.key
    | _ => ((Reference.after older).recordFailure cfg note.key note.now).1

/-- A window is open at `now`: its lockout lasts, or it never came to one and is not over. -/
def Strikes.isOpen (st : Strikes) (now : ℕ) : Bool :=
  (limitedUntil st.lockedUntil now).isSome ||
    st.lockedUntil.isNone && decide (now - st.firstFailure ≤ secs cfg.windowSecs)

/-- The history of `key` has a failure window open at `now`. -/
def windowOpen (history : List Note) (key : LoginThrottleKey) (now : ℕ) : Bool :=
  (Reference.after cfg history key).any fun st => st.isOpen cfg now

/-- The failed verifications of `key` recorded in the window that is open at `now`. -/
def guessesAt (key : LoginThrottleKey) : List Note → ℕ → ℕ
  | [], _ => 0
  | note :: older, now =>
    if windowOpen cfg (note :: older) key now then
      if note.key = key then guessesAt key older note.now + if note.outcome = .wrong then 1 else 0
      else guessesAt key older now
    else 0

-- `verify_local_admin_credentials` for the configured administrator
variable (verify : LoginRequest → Bool)

/-- The handler is about to verify a wrong password, or has done so. -/
def failing (key : LoginThrottleKey) (h : Handler) : Bool :=
  h.key == key && (h.stage == .wrong || h.stage == .verifying && !verify h.payload)

/-- The handlers of `key` between their check and their record, with a wrong password. -/
def Server.inFlight (s : Server) (key : LoginThrottleKey) : ℕ :=
  s.handlers.countP (failing verify key)

/-- The failed verifications of `key` that were performed in its current window: those on record,
    and those of handlers that have still to record them. -/
def Server.performed (s : Server) (key : LoginThrottleKey) : ℕ :=
  guessesAt cfg key s.history s.clock + s.handlers.countP fun h => h.key == key && h.stage == .wrong

/-- The end of a handler. -/
def recordOutcome (s : Server) (h : Handler) (now : ℕ) (victim : LoginThrottleKey) : Option Attempts :=
  match h.stage with
  | .verifying => none
  | .right => some (recordSuccessAt cfg s.attempts h.payload.username h.remoteAddr)
  | _ => (recordFailureAt cfg s.attempts h.payload.username h.remoteAddr now victim).map Prod.fst

/-- A part of a handler; between two parts of one, those of the others may come. -/
def serverStep (s : Server) : Act → Option Server
  | .login payload remoteAddr now =>
    if s.clock ≤ now then
      match checkAt cfg s.attempts payload.username remoteAddr now with
      | (attempts, .limited _) => some { s with attempts, clock := now }
      | (attempts, .allowed) =>
        let stage := if (loginPayloadSizeError payload).isSome then .oversized else .verifying
        some { s with attempts, clock := now, handlers := ⟨payload, remoteAddr, stage⟩ :: s.handlers }
    else none
  | .verify i ok =>
    match s.handlers[i]? with
    | none => none
    | some h =>
      if h.stage = .verifying then
        if ok then some { s with
          handlers := s.handlers.set i { h with stage := if verify h.payload then .right else .wrong } }
        -- the verification task failed: `server_error`
        else some { s with handlers := s.handlers.eraseIdx i }
      else none
  | .record i now victim =>
    match s.handlers[i]? with
    | none => none
    | some h =>
      if s.clock ≤ now then
        (recordOutcome cfg s h now victim).map fun attempts =>
          { s with
            attempts
            clock := now
            handlers := s.handlers.eraseIdx i
            history := ⟨h.key, h.stage, now⟩ :: s.history }
      else none

/-- Fewer keys than `max_tracked_entries` are tracked. -/
def Roomy (s : Server) : Act → Prop
  | .record _ now _ => (pruneExpired cfg s.attempts now).size < cfg.maxTrackedEntries
  | _ => True

/-- A handler with a wrong password that is let in while others of its key are under way finds room
    for one more guess. A handler that is alone is under no condition. -/
def Spaced (s : Server) : Act → Prop
  | .login payload remoteAddr now => verify payload = false → loginPayloadSizeError payload = none →
      (checkAt cfg s.attempts payload.username remoteAddr now).2 = .allowed →
      s.inFlight verify (.new payload.username remoteAddr) = 0 ∨
        guessesAt cfg (.new payload.username remoteAddr) s.history now +
          s.inFlight verify (.new payload.username remoteAddr) < cfg.maxFailures
  | _ => True

/-- A handler of `key` records its success. -/
def Clears (key : LoginThrottleKey) (s : Server) : Act → Prop
  | .record i _ _ => ∃ h ∈ s.handlers[i]?, h.key = key ∧ h.stage = .right
  | _ => False

/-! ### The invariant -/

/-- The table mirrors the history, and what was guessed leaves room for what is under way. -/
structure ServerInv (s : Server) : Prop where
  mirrors : ∃ keys, Simulates cfg keys ⟨s.attempts, s.clock⟩ (Reference.after cfg s.history)
  bound : ∀ key, guessesAt cfg key s.history s.clock + s.inFlight verify key ≤ cfg.maxFailures

end

section
variable {cfg : LoginRateLimitConfig} {verify : LoginRequest → Bool} {history : List Note}
  {key : LoginThrottleKey} {now later : ℕ}

/-! ### Histories -/

theorem maxFailures_pos (hactive : cfg.active = true) : 0 < cfg.maxFailures := by
  simp only [LoginRateLimitConfig.active, Bool.and_eq_true, decide_eq_true_eq] at hactive
  exact hactive.1.1.1.2

theorem limitedUntil_isSome {lockedUntil : Option ℕ} :
    (limitedUntil lockedUntil now).isSome = true ↔ ∃ limit ∈ lockedUntil, now < limit := by
  rcases lockedUntil with _ | limit
  · simp [limitedUntil]
  · simp only [limitedUntil, Option.mem_def, Option.some.injEq, exists_eq_left']
    split <;> simp <;> omega

theorem Strikes.isOpen_iff {st : Strikes} : st.isOpen cfg now = true ↔
    (∃ limit ∈ st.lockedUntil, now < limit) ∨
      st.lockedUntil = none ∧ now - st.firstFailure ≤ secs cfg.windowSecs := by
  simp only [Strikes.isOpen, Bool.or_eq_true, Bool.and_eq_true, limitedUntil_isSome,
    Option.isNone_iff_eq_none, decide_eq_true_eq]

theorem after_failure {note : Note} (h : note.outcome ≠ .right) : Reference.after cfg (note :: history) =
    ((Reference.after cfg history).recordFailure cfg note.key note.now).1 := by
  obtain ⟨k, outcome, at'⟩ := note
  cases outcome with
  | right => exact absurd rfl h
  | verifying | wrong | oversized => rfl

theorem after_success {note : Note} (h : note.outcome = .right) : Reference.after cfg (note :: history) =
    (Reference.after cfg history).recordSuccess note.key := by
  simp only [Reference.after, h]

theorem windowOpen_iff : windowOpen cfg history key now = true ↔
    ∃ st, Reference.after cfg history key = some st ∧ st.isOpen cfg now = true := by
  rw [windowOpen]
  cases Reference.after cfg history key <;> simp

/-- A window that is open later is open now. -/
theorem windowOpen_mono (hle : now ≤ later) (h : windowOpen cfg history key later = true) :
    windowOpen cfg history key now = true := by
  obtain ⟨st, hst, hopen⟩ := windowOpen_iff.mp h
  refine windowOpen_iff.mpr ⟨st, hst, Strikes.isOpen_iff.mpr ?_⟩
  rcases Strikes.isOpen_iff.mp hopen with ⟨limit, hlim, hlt⟩ | ⟨hnone, hwin⟩
  · exact .inl ⟨limit, hlim, by omega⟩
  · exact .inr ⟨hnone, by omega⟩

theorem guessesAt_closed (h : windowOpen cfg history key now = false) :
    guessesAt cfg key history now = 0 := by
  cases history with
  | nil => rfl
  | cons note older => rw [guessesAt, h, if_neg Bool.false_ne_true]

theorem guessesAt_mono (hle : now ≤ later) :
    guessesAt cfg key history later ≤ guessesAt cfg key history now := by
  induction history with
  | nil => exact le_rfl
  | cons note older ih =>
    rw [guessesAt]
    split
    · rename_i hopen
      rw [guessesAt, if_pos (windowOpen_mono hle hopen)]
      split
      · exact le_rfl
      · exact ih
    · exact Nat.zero_le _

/-- One more guess at most. -/
theorem guessesAt_cons_le {note : Note} (hkey : note.key = key) :
    guessesAt cfg key (note :: history) now ≤
      guessesAt cfg key history note.now + if note.outcome = .wrong then 1 else 0 := by
  rw [guessesAt]
  split
  · exact le_rfl
  · exact Nat.zero_le _

theorem guessesAt_cons_other {note : Note} (hkey : note.key ≠ key) :
    guessesAt cfg key (note :: history) now ≤ guessesAt cfg key history now := by
  rw [guessesAt]
  split
  · exact le_rfl
  · exact Nat.zero_le _

/-- A success closes the window. -/
theorem guessesAt_success (older : List Note) (at' : ℕ) :
    guessesAt cfg key (⟨key, .right, at'⟩ :: older) now = 0 := by
  refine guessesAt_closed ?_
  simp only [windowOpen, Reference.after, Reference.recordSuccess, Function.update_self, Option.any_none]

/-- Up to its lockout a window counts every guess; at its lockout it is full. -/
structure Counts (cfg : LoginRateLimitConfig) (guesses : ℕ) (st : Strikes) : Prop where
  counted : st.lockedUntil = none → guesses ≤ st.failures ∧ st.failures < cfg.maxFailures
  full : st.lockedUntil ≠ none → cfg.maxFailures ≤ st.failures

/-- A failure at a window that is open or over. -/
theorem Counts.fail {st : Strikes} {guesses δ : ℕ} (h : Counts cfg guesses st) (hδ : δ ≤ 1)
    (hclosed : st.isOpen cfg now = false → guesses = 0) :
    Counts cfg (guesses + δ) (st.fail cfg now).1 := by
  rcases hlim : limitedUntil st.lockedUntil now with _ | retryAfter
  · simp only [Strikes.fail, hlim, Strikes.count]
    by_cases hover : secs cfg.windowSecs < now - st.firstFailure
    · -- a new window, in which this is the first failure
      have hzero : guesses = 0 := by
        refine hclosed (Bool.eq_false_iff.mpr fun hopen => ?_)
        rcases Strikes.isOpen_iff.mp hopen with hlocked | ⟨-, hwin⟩
        · rw [← limitedUntil_isSome, hlim] at hlocked
          cases hlocked
        · omega
      simp only [if_pos hover]
      split
      · exact ⟨by simp, fun _ => by assumption⟩
      · rename_i hroom
        refine ⟨fun _ => ⟨?_, Nat.lt_of_not_le hroom⟩, by simp⟩
        show guesses + δ ≤ 0 + 1
        omega
    · simp only [if_neg hover]
      split
      · exact ⟨by simp, fun _ => by assumption⟩
      · rename_i hroom
        refine ⟨fun hnone => ?_, fun hsome => absurd (h.full hsome) (by omega)⟩
        exact ⟨Nat.add_le_add (h.counted hnone).1 hδ, Nat.lt_of_not_le hroom⟩
  · obtain ⟨limit, hlock, -, -⟩ := limitedUntil_some hlim
    simp only [Strikes.fail, hlim]
    exact ⟨fun hnone => (by rw [hlock] at hnone; cases hnone), h.full⟩

/-- What a history says of a key, the reference machine counts. -/
theorem counts_after (hactive : cfg.active = true) {st : Strikes}
    (h : Reference.after cfg history key = some st) (now : ℕ) :
    Counts cfg (guessesAt cfg key history now) st := by
  induction history generalizing st now with
  | nil => cases h
  | cons note older ih =>
    by_cases hkey : note.key = key
    · subst hkey
      have hfailure : ∀ δ ≤ 1, guessesAt cfg note.key (note :: older) now ≤
            guessesAt cfg note.key older note.now + δ →
          ((Reference.after cfg older).recordFailure cfg note.key note.now).1 note.key = some st →
          Counts cfg (guessesAt cfg note.key (note :: older) now) st := by
        intro δ hδ hle hst
        simp only [Reference.recordFailure, Function.update_self, Option.some.injEq] at hst
        have hold : Counts cfg (guessesAt cfg note.key older note.now)
            ((Reference.after cfg older note.key).getD ⟨0, note.now, none⟩) := by
          cases hold : Reference.after cfg older note.key with
          | some old => exact ih hold note.now
          | none =>
            have hclosed : windowOpen cfg older note.key note.now = false := by
              rw [windowOpen, hold, Option.any_none]
            rw [guessesAt_closed hclosed]
            exact ⟨fun _ => ⟨le_rfl, maxFailures_pos hactive⟩, fun hne => absurd rfl hne⟩
        have hnext : Counts cfg (guessesAt cfg note.key older note.now + δ) _ := hold.fail hδ fun hshut => by
          refine guessesAt_closed ?_
          cases hold' : Reference.after cfg older note.key with
          | some old =>
            rw [hold', Option.getD_some] at hshut
            rw [windowOpen, hold', Option.any_some, hshut]
          | none => rw [windowOpen, hold', Option.any_none]
        rw [hst] at hnext
        exact ⟨fun hnone => ⟨hle.trans (hnext.counted hnone).1, (hnext.counted hnone).2⟩, hnext.full⟩
      have hle : guessesAt cfg note.key (note :: older) now ≤ _ := guessesAt_cons_le rfl
      by_cases hright : note.outcome = .right
      · simp only [after_success hright, Reference.recordSuccess, Function.update_self, reduceCtorEq] at h
      · rw [after_failure hright] at h
        refine hfailure _ ?_ hle h
        split <;> omega
    · have hsame : Reference.after cfg (note :: older) key = Reference.after cfg older key := by
        by_cases hright : note.outcome = .right
        · rw [after_success hright]
          exact Function.update_of_ne (Ne.symm hkey) _ _
        · rw [after_failure hright]
          exact Function.update_of_ne (Ne.symm hkey) _ _
      have hold := ih (hsame ▸ h) now
      have hle : guessesAt cfg key (note :: older) now ≤ _ := guessesAt_cons_other hkey
      exact ⟨fun hnone => ⟨hle.trans (hold.counted hnone).1, (hold.counted hnone).2⟩, hold.full⟩

/-- A key that is let in has guesses left. -/
theorem guessesAt_lt_of_allowed (hactive : cfg.active = true)
    (h : (Reference.after cfg history).check key now = .allowed) :
    guessesAt cfg key history now < cfg.maxFailures := by
  cases hopen : windowOpen cfg history key now with
  | false =>
    rw [guessesAt_closed hopen]
    exact maxFailures_pos hactive
  | true =>
    obtain ⟨st, hst, hwin⟩ := windowOpen_iff.mp hopen
    have hnone : st.lockedUntil = none := by
      rcases Strikes.isOpen_iff.mp hwin with hlocked | ⟨hnone, -⟩
      · obtain ⟨retryAfter, hretry⟩ := Option.isSome_iff_exists.mp (limitedUntil_isSome.mpr hlocked)
        simp only [Reference.check, hst, Option.bind_some, hretry, reduceCtorEq] at h
      · exact hnone
    have hcounts := (counts_after hactive hst now).counted hnone
    exact hcounts.1.trans_lt hcounts.2

/-- A window with all its guesses used up is locked. -/
theorem locked_of_full (hactive : cfg.active = true)
    (h : guessesAt cfg key history now = cfg.maxFailures) :
    ∃ st limit, Reference.after cfg history key = some st ∧ st.lockedUntil = some limit ∧ now < limit := by
  have hpos := maxFailures_pos hactive
  cases hopen : windowOpen cfg history key now with
  | false =>
    rw [guessesAt_closed hopen] at h
    omega
  | true =>
    obtain ⟨st, hst, hwin⟩ := windowOpen_iff.mp hopen
    rcases Strikes.isOpen_iff.mp hwin with ⟨limit, hlock, hlt⟩ | ⟨hnone, -⟩
    · exact ⟨st, limit, hst, hlock, hlt⟩
    · have hcounts := (counts_after hactive hst now).counted hnone
      omega

/-! ### The table beside the history -/

theorem Mirrors.mono {e : Option LoginThrottleState} {r : Option Strikes} (h : Mirrors cfg now e r)
    (hle : now ≤ later) : Mirrors cfg later e r := by
  cases h with
  | absent => exact .absent
  | elapsed hover => exact .elapsed (hover.mono hle)
  | tracked hm => exact .tracked hm

theorem Mirrors.lockedUntil {attempts : Attempts} {st : Strikes} {limit : ℕ}
    (h : Mirrors cfg now (attempts.lookup key) (some st)) (hlock : st.lockedUntil = some limit)
    (hlt : now < limit) : LockedUntil attempts key limit := by
  generalize hentry : attempts.lookup key = entry at h
  cases h with
  | elapsed hover =>
    have := hover.1
    rw [hlock, limitedUntil_of_lt hlt] at this
    cases this
  | @tracked e _ hm => exact ⟨e, hentry, hm.locked.trans hlock⟩

theorem Simulates.mono {keys : List LoginThrottleKey} {s : State} {ref : Reference}
    (h : Simulates cfg keys s ref) (hle : s.clock ≤ now) : Simulates cfg keys ⟨s.attempts, now⟩ ref :=
  ⟨fun k => (h.mirrors k).mono hle, h.tracked⟩

theorem Simulates.more {keys : List LoginThrottleKey} {s : State} {ref : Reference}
    (h : Simulates cfg keys s ref) (key : LoginThrottleKey) : Simulates cfg (key :: keys) s ref :=
  ⟨h.mirrors, fun k hk => List.mem_cons_of_mem _ (h.tracked k hk)⟩

/-! ### One step -/

theorem login_inv {s t : Server} {payload : LoginRequest} {remoteAddr : List Char}
    (hactive : cfg.active = true) (hinv : ServerInv cfg verify s)
    (hspaced : Spaced cfg verify s (.login payload remoteAddr now))
    (h : serverStep cfg verify s (.login payload remoteAddr now) = some t) :
    ServerInv cfg verify t := by
  simp only [serverStep] at h
  split at h
  swap
  · cases h
  rename_i hle
  obtain ⟨keys, hsim⟩ := hinv.mirrors
  have hcheck : checkAt cfg s.attempts payload.username remoteAddr now = (pruneExpired cfg s.attempts now,
      (Reference.after cfg s.history).check (.new payload.username remoteAddr) now) :=
    hsim.check hactive hle payload.username remoteAddr
  have hpruned : ∃ keys, Simulates cfg keys ⟨pruneExpired cfg s.attempts now, now⟩
      (Reference.after cfg s.history) := ⟨keys, hsim.prune hle⟩
  have hguesses : ∀ k, guessesAt cfg k s.history now + s.inFlight verify k ≤ cfg.maxFailures :=
    fun k => (Nat.add_le_add_right (guessesAt_mono hle) _).trans (hinv.bound k)
  simp only [Spaced, hcheck] at hspaced
  rw [hcheck] at h
  cases hdecision : (Reference.after cfg s.history).check (.new payload.username remoteAddr) now with
  | limited retryAfter =>
    rw [hdecision] at h
    cases h
    exact ⟨hpruned, hguesses⟩
  | allowed =>
    rw [hdecision] at h
    cases h
    refine ⟨hpruned, fun k => ?_⟩
    have hk := hguesses k
    simp only [Server.inFlight, List.countP_cons] at hk ⊢
    by_cases hfail : failing verify k ⟨payload, remoteAddr,
        if (loginPayloadSizeError payload).isSome then .oversized else .verifying⟩ = true
    · -- the new handler has a wrong password and may verify it
      rw [if_pos hfail]
      simp only [failing, Handler.key, Bool.and_eq_true, Bool.or_eq_true, beq_iff_eq,
        Bool.not_eq_true'] at hfail
      obtain ⟨rfl, hstage⟩ := hfail
      have hsize : loginPayloadSizeError payload = none ∧ verify payload = false := by
        split at hstage <;> simp_all
      have hleft := guessesAt_lt_of_allowed hactive hdecision
      have hroom := hspaced hsize.2 hsize.1 hdecision
      simp only [Server.inFlight] at hroom
      omega
    · rw [if_neg hfail]
      omega

theorem verify_inv {s t : Server} {i : ℕ} {ok : Bool} (hinv : ServerInv cfg verify s)
    (h : serverStep cfg verify s (.verify i ok) = some t) : ServerInv cfg verify t := by
  simp only [serverStep] at h
  split at h
  · cases h
  rename_i handler hi
  split at h
  swap
  · cases h
  rename_i hstage
  split at h <;> cases h <;> refine ⟨hinv.mirrors, fun k => ?_⟩ <;> have hb := hinv.bound k <;>
    simp only [Server.inFlight, pool_countP hi] at hb ⊢
  · -- a wrong password stays wrong
    rw [pool_countP_set hi]
    have hsame : failing verify k { handler with
        stage := if verify handler.payload then .right else .wrong } =
        failing verify k handler := by
      simp only [failing, Handler.key, hstage]
      cases verify handler.payload <;> rfl
    rw [hsame]
    exact hb
  · omega

/-- Recording a failure: the history counts it if a password was verified. -/
theorem failure_inv {s : Server} {i : ℕ} {h : Handler} {victim : LoginThrottleKey}
    {r : Attempts × Option ℕ} (hactive : cfg.active = true) (hinv : ServerInv cfg verify s)
    (hroomy : Roomy cfg s (.record i now victim)) (hle : s.clock ≤ now) (hi : s.handlers[i]? = some h)
    (hright : h.stage ≠ .right)
    (hr : recordFailureAt cfg s.attempts h.payload.username h.remoteAddr now victim = some r) :
    ServerInv cfg verify ⟨r.1, now, s.handlers.eraseIdx i, ⟨h.key, h.stage, now⟩ :: s.history⟩ := by
  obtain ⟨keys, hsim⟩ := hinv.mirrors
  rw [recordFailureAt_room victim hactive (.inr hroomy), Option.some.injEq] at hr
  refine ⟨⟨h.key :: keys, ?_⟩, fun k => ?_⟩
  · have hnote : Reference.after cfg (⟨h.key, h.stage, now⟩ :: s.history) =
        ((Reference.after cfg s.history).recordFailure cfg h.key now).1 := after_failure hright
    rw [hnote, ← hr]
    exact ((hsim.more h.key).failure hle List.mem_cons_self).2
  · have hb := hinv.bound k
    have hm : guessesAt cfg k s.history now ≤ guessesAt cfg k s.history s.clock := guessesAt_mono hle
    simp only [Server.inFlight, pool_countP hi] at hb ⊢
    by_cases hk : h.key = k
    · have hg : guessesAt cfg k (⟨h.key, h.stage, now⟩ :: s.history) now ≤ _ := guessesAt_cons_le hk
      have hwrong : (if h.stage = .wrong then 1 else 0) ≤ if failing verify k h then 1 else 0 := by
        split
        · rename_i hstage
          rw [if_pos (by simp [failing, hk, hstage])]
        · exact Nat.zero_le _
      simp only at hg
      omega
    · have hg : guessesAt cfg k (⟨h.key, h.stage, now⟩ :: s.history) now ≤ _ :=
        guessesAt_cons_other hk
      omega

theorem record_inv {s t : Server} {i : ℕ} {victim : LoginThrottleKey}
    (hactive : cfg.active = true) (hinv : ServerInv cfg verify s)
    (hroomy : Roomy cfg s (.record i now victim))
    (h : serverStep cfg verify s (.record i now victim) = some t) : ServerInv cfg verify t := by
  simp only [serverStep] at h
  split at h
  · cases h
  rename_i handler hi
  split at h
  swap
  · cases h
  rename_i hle
  obtain ⟨attempts, ha, rfl⟩ := Option.map_eq_some_iff.mp h
  simp only [recordOutcome] at ha
  split at ha
  · cases ha
  · -- a success takes the entry of the key away, and closes its window
    rename_i hstage
    cases ha
    obtain ⟨keys, hsim⟩ := hinv.mirrors
    refine ⟨⟨keys, ?_⟩, fun k => ?_⟩
    · rw [recordSuccessAt, if_pos hactive, hstage]
      exact (hsim.success handler.key).mono hle
    · have hb := hinv.bound k
      have hm : guessesAt cfg k s.history now ≤ guessesAt cfg k s.history s.clock :=
        guessesAt_mono hle
      simp only [Server.inFlight, pool_countP hi] at hb ⊢
      by_cases hk : handler.key = k
      · rw [hk, hstage, guessesAt_success]
        omega
      · have hg : guessesAt cfg k (⟨handler.key, handler.stage, now⟩ :: s.history) now ≤ _ :=
          guessesAt_cons_other hk
        omega
  · rename_i stage hv hright
    obtain ⟨r, hr, rfl⟩ := Option.map_eq_some_iff.mp ha
    exact failure_inv hactive hinv hroomy hle hi hright hr

/-- A step that records no success of the key leaves its lock in place. -/
theorem serverStep_locked {s t : Server} {a : Act} {limit : ℕ} (hroomy : Roomy cfg s a)
    (hclears : ¬ Clears key s a) (h : serverStep cfg verify s a = some t)
    (hlock : s.clock < limit → LockedUntil s.attempts key limit) :
    t.clock < limit → LockedUntil t.attempts key limit := by
  intro hclock
  have hcall : ∀ {call : Call} {u : State}, step cfg ⟨s.attempts, s.clock⟩ call = some u →
      ¬ Lifts cfg key ⟨s.attempts, s.clock⟩ call → u.clock < limit → LockedUntil u.attempts key limit :=
    fun hu hnot => step_locked hu hnot hlock
  cases a with
  | login payload remoteAddr now =>
    simp only [serverStep] at h
    split at h
    swap
    · cases h
    rename_i hle
    have hstep : step cfg ⟨s.attempts, s.clock⟩ (.check payload.username remoteAddr now) =
        some ⟨(checkAt cfg s.attempts payload.username remoteAddr now).1, now⟩ := if_pos hle
    have hkept := hcall hstep not_false
    split at h
    · rename_i attempts retryAfter hcheck
      cases h
      rw [hcheck] at hkept
      exact hkept hclock
    · rename_i attempts hcheck
      cases h
      rw [hcheck] at hkept
      exact hkept hclock
  | verify i ok =>
    simp only [serverStep] at h
    split at h
    · cases h
    split at h
    · split at h <;> cases h <;> exact hlock hclock
    · cases h
  | record i now victim =>
    simp only [serverStep] at h
    split at h
    · cases h
    rename_i handler hi
    split at h
    swap
    · cases h
    rename_i hle
    obtain ⟨attempts, ha, rfl⟩ := Option.map_eq_some_iff.mp h
    simp only [recordOutcome] at ha
    split at ha
    · cases ha
    · rename_i hstage
      cases ha
      have hstep : step cfg ⟨s.attempts, s.clock⟩
          (.recordSuccess handler.payload.username handler.remoteAddr) =
          some ⟨recordSuccessAt cfg s.attempts handler.payload.username handler.remoteAddr, s.clock⟩ := rfl
      refine hcall hstep (fun hkey => ?_) (lt_of_le_of_lt hle hclock)
      exact hclears ⟨handler, hi, hkey, hstage⟩
    · obtain ⟨r, hr, rfl⟩ := Option.map_eq_some_iff.mp ha
      have hstep : step cfg ⟨s.attempts, s.clock⟩
          (.recordFailure handler.payload.username handler.remoteAddr now victim) =
          some ⟨r.1, now⟩ := by
        rw [step, if_pos hle, hr, Option.map_some]
      refine hcall hstep (fun hlifts => ?_) hclock
      exact absurd hroomy (Nat.not_lt.mpr hlifts.2.1)

/-! ### Whole runs -/

/-- CORRECT: with an active throttle and a table that never fills up, in every run in which a handler
    with a wrong password that overlaps with others of its key finds room for one more guess: the failed
    verifications of a key in one window never exceed `max_failures`, and once that many are on record
    every handler of the key is answered Limited until the lockout ends, through every continuation in
    which no success of the key is recorded. -/
theorem guesses_bounded (cfg : LoginRateLimitConfig) (verify : LoginRequest → Bool)
    (hactive : cfg.active = true) (s : Server)
    (hrun : Reaches (serverStep cfg verify)
      (fun s a => Roomy cfg s a ∧ Spaced cfg verify s a) Server.initial s)
    (key : LoginThrottleKey) :
    s.performed cfg key ≤ cfg.maxFailures ∧
    (guessesAt cfg key s.history s.clock = cfg.maxFailures →
      ∃ limit, s.clock < limit ∧ LockedUntil s.attempts key limit ∧
        ∀ t, Reaches (serverStep cfg verify) (fun s a => Roomy cfg s a ∧ ¬ Clears key s a) s t →
          ∀ username remoteAddr now, LoginThrottleKey.new username remoteAddr = key →
            t.clock ≤ now → now < limit →
            (checkAt cfg t.attempts username remoteAddr now).2 =
              .limited (max (limit - now) (secs 1))) := by
  have hinv : ServerInv cfg verify s := by
    refine hrun.inv (I := ServerInv cfg verify) ?_ ⟨⟨[], fun _ => .absent, ?_⟩, ?_⟩
    · rintro s a t hinv ⟨hroomy, hspaced⟩ hst
      cases a with
      | login payload remoteAddr now => exact login_inv hactive hinv hspaced hst
      | verify i ok => exact verify_inv hinv hst
      | record i now victim => exact record_inv hactive hinv hroomy hst
    · exact fun k hk => absurd hk (AList.notMem_empty k)
    · exact fun _ => Nat.zero_le _
  constructor
  · have hle : (s.handlers.countP fun h => h.key == key && h.stage == .wrong) ≤
        s.inFlight verify key := by
      refine List.countP_mono_left fun h _ hw => ?_
      simp only [Bool.and_eq_true, beq_iff_eq] at hw
      simp [failing, hw.1, hw.2]
    have := hinv.bound key
    simp only [Server.performed]
    omega
  · intro hfull
    obtain ⟨st, limit, hst, hlim, hlt⟩ := locked_of_full hactive hfull
    obtain ⟨keys, hsim⟩ := hinv.mirrors
    have hlock : LockedUntil s.attempts key limit :=
      (hst ▸ hsim.mirrors key).lockedUntil hlim hlt
    refine ⟨limit, hlt, hlock, fun t hlater username remoteAddr now hkey hle hnow => ?_⟩
    have hkept : t.clock < limit → LockedUntil t.attempts key limit :=
      hlater.inv (I := fun t => t.clock < limit → LockedUntil t.attempts key limit)
        (fun s a t hl hg hst => serverStep_locked hg.1 hg.2 hst hl) fun _ => hlock
    subst hkey
    exact checkAt_locked hactive (hkept (lt_of_le_of_lt hle hnow)) hnow

end

/-- One failure locks. -/
def strictConfig : LoginRateLimitConfig := { tinyConfig with maxTrackedEntries := 4096 }

/-- Only the password `admin` is right. -/
def sampleVerify (payload : LoginRequest) : Bool := payload.password == admin

/-- A payload for the samples. -/
def guess : LoginRequest := ⟨admin, localhost⟩

/-- One guess, verified and recorded: the limit is reached, and no other guess is let in. -/
theorem guesses_bounded_sample : ∃ s,
    Reaches (serverStep strictConfig sampleVerify)
      (fun s a => Roomy strictConfig s a ∧ Spaced strictConfig sampleVerify s a) Server.initial s ∧
    s.performed strictConfig (.new admin localhost) = strictConfig.maxFailures ∧
    ∃ limit, (checkAt strictConfig s.attempts admin localhost s.clock).2 = .limited limit := by
  have hrun : (Schemes.run (serverStep strictConfig sampleVerify) Server.initial
      [.login guess localhost 0, .verify 0 true, .record 0 0 (.new admin localhost)]).map
        (fun s => (s.performed strictConfig (.new admin localhost),
          guessesAt strictConfig (.new admin localhost) s.history s.clock)) = some (1, 1) := by
    decide +kernel
  obtain ⟨s, hs, hcounts⟩ := Option.map_eq_some_iff.mp hrun
  obtain ⟨hperf, hrecorded⟩ := Prod.mk.inj hcounts
  have hreach : Reaches (serverStep strictConfig sampleVerify)
      (fun s a => Roomy strictConfig s a ∧ Spaced strictConfig sampleVerify s a) Server.initial s := by
    simp only [Schemes.run, Option.bind_eq_some_iff, Option.some.injEq, exists_eq_right] at hs
    obtain ⟨u, hu, v, hv, hs⟩ := hs
    have hempty : v.attempts.size < strictConfig.maxTrackedEntries := by
      cases hu
      cases hv
      decide
    have hlogin : Roomy strictConfig Server.initial (.login guess localhost 0) ∧
        Spaced strictConfig sampleVerify Server.initial (.login guess localhost 0) :=
      ⟨trivial, fun _ _ _ => .inl rfl⟩
    have hverify : Roomy strictConfig u (.verify 0 true) ∧
        Spaced strictConfig sampleVerify u (.verify 0 true) := ⟨trivial, trivial⟩
    have hrecord : Roomy strictConfig v (.record 0 0 (.new admin localhost)) ∧
        Spaced strictConfig sampleVerify v (.record 0 0 (.new admin localhost)) :=
      ⟨(size_retain_le _).trans_lt hempty, trivial⟩
    exact .tail (.tail (.tail (.refl _) hlogin hu) hverify hv) hrecord hs
  obtain ⟨limit, hlt, -, hlimited⟩ := (guesses_bounded strictConfig sampleVerify (by decide) s hreach
    (.new admin localhost)).2 hrecorded
  exact ⟨s, hreach, hperf, _, hlimited s (.refl s) admin localhost s.clock rfl le_rfl hlt⟩

/-- Two handlers that are both let in before either of them records: two wrong passwords are
    verified where one failure should lock. -/
theorem concurrent_guesses_exceed : strictConfig.active = true ∧ ∃ s,
    Reaches (serverStep strictConfig sampleVerify) (Roomy strictConfig) Server.initial s ∧
    strictConfig.maxFailures < s.performed strictConfig (.new admin localhost) := by
  have hrun : (Schemes.run (serverStep strictConfig sampleVerify) Server.initial
      [.login guess localhost 0, .login guess localhost 0, .verify 0 true, .verify 1 true]).map
        (fun s => s.performed strictConfig (.new admin localhost)) = some 2 := by decide +kernel
  obtain ⟨s, hs, hperf⟩ := Option.map_eq_some_iff.mp hrun
  refine ⟨by decide, s, reaches_of_run_guarded ?_ hs, by rw [hperf]; decide⟩
  intro a ha s
  fin_cases ha <;> trivial

end Llmtrace.Auth
