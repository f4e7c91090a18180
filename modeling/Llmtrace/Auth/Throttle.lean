import Llmtrace.Schemes.Run
import Llmtrace.Schemes.Table
import Llmtrace.Schemes.Text

/-! The login throttle (`login_throttle.rs`): failures are counted for each pair of a normalised
    username and a remote address, and too many of them within the window lock the pair out.

    The table is shared by all keys. Every call prunes it, and a failure of a new key at a full table
    evicts the entry that was seen least recently, locked or not. That eviction and a success of the
    key itself are the only ways in which a lockout ends before its time. Instants and durations are
    nanoseconds. -/

namespace Llmtrace.Auth
open Schemes

/-- Seconds in nanoseconds. -/
def secs (n : ℕ) : ℕ := n * 1000000000

/-- `u32::MAX` -/
def u32Max : ℕ := 2 ^ 32 - 1

/-- `max_failures` is a `u32`. -/
structure LoginRateLimitConfig where
  enabled : Bool := true
  maxFailures : ℕ := 5
  windowSecs : ℕ := 300
  lockoutSecs : ℕ := 900
  maxTrackedEntries : ℕ := 4096
  maxFailures_le : maxFailures ≤ u32Max := by decide

/-- `LoginThrottle::enabled` -/
def LoginRateLimitConfig.active (cfg : LoginRateLimitConfig) : Bool :=
  cfg.enabled && decide (0 < cfg.maxFailures) && decide (0 < cfg.windowSecs) &&
    decide (0 < cfg.lockoutSecs) && decide (0 < cfg.maxTrackedEntries)

/-- `LoginThrottleDecision` -/
inductive LoginThrottleDecision where
  | allowed
  | limited (retryAfter : ℕ)
  deriving DecidableEq

/-- `LoginThrottleKey` -/
structure LoginThrottleKey where
  username : List Char
  remoteAddr : List Char
  deriving DecidableEq

/-- `LoginThrottleState` -/
structure LoginThrottleState where
  failures : ℕ
  firstFailure : ℕ
  lockedUntil : Option ℕ
  lastSeen : ℕ

/-- The hash map behind the mutex of `LoginThrottle`. -/
abbrev Attempts := Table LoginThrottleKey LoginThrottleState

/-! ### Keys -/

/-- `MAX_LOGIN_THROTTLE_USERNAME_BYTES` -/
def maxLoginThrottleUsernameBytes : ℕ := 320

/-- `LoginThrottleKey::new` -/
def LoginThrottleKey.new (username remoteAddr : List Char) : LoginThrottleKey :=
  ⟨truncateUtf8 (toAsciiLowercase (trim username)) maxLoginThrottleUsernameBytes, trim remoteAddr⟩

/-! ### The table -/

/-- `limited_until`: the time that is left, but at least a second. -/
def limitedUntil (lockedUntil : Option ℕ) (now : ℕ) : Option ℕ :=
  match lockedUntil with
  | none => none
  | some limit => if limit ≤ now then none else some (max (limit - now) (secs 1))

section
variable (cfg : LoginRateLimitConfig)

/-- `prune_expired`: entries that are neither locked nor within their window go. -/
def pruneExpired (attempts : Attempts) (now : ℕ) : Attempts :=
  attempts.retain fun st => (limitedUntil st.lockedUntil now).isSome ||
    decide (now - st.firstFailure ≤ secs cfg.windowSecs)

/-- `remove_oldest` may take any key that was seen least recently: the order of a hash map is not
    specified. -/
def isOldest (attempts : Attempts) (victim : LoginThrottleKey) : Bool :=
  match attempts.lookup victim with
  | none => false
  | some st => attempts.entries.all fun r => decide (st.lastSeen ≤ r.2.lastSeen)

/-- `check_at` -/
def checkAt (attempts : Attempts) (username remoteAddr : List Char) (now : ℕ) :
    Attempts × LoginThrottleDecision :=
  if cfg.active then
    let attempts := pruneExpired cfg attempts now
    match attempts.lookup (.new username remoteAddr) with
    | none => (attempts, .allowed)
    | some st =>
      match limitedUntil st.lockedUntil now with
      | some retryAfter => (attempts, .limited retryAfter)
      | none => (attempts, .allowed)
  else (attempts, .allowed)

/-- The entry with its count started anew when its window is over. -/
def restart (st : LoginThrottleState) (now : ℕ) : LoginThrottleState :=
  if secs cfg.windowSecs < now - st.firstFailure then
    { st with failures := 0, firstFailure := now, lockedUntil := none }
  else st

/-- One more failure on an entry that is not locked. -/
def countFailure (st : LoginThrottleState) (now : ℕ) : LoginThrottleState × Option ℕ :=
  let failures := min (st.failures + 1) u32Max
  if cfg.maxFailures ≤ failures then
    let limit := now + secs cfg.lockoutSecs
    ({ st with failures, lastSeen := now, lockedUntil := some limit }, limitedUntil (some limit) now)
  else ({ st with failures, lastSeen := now }, none)

/-- What a failure does to the entry of its key. -/
def bump (st : LoginThrottleState) (now : ℕ) : LoginThrottleState × Option ℕ :=
  match limitedUntil st.lockedUntil now with
  | some retryAfter => ({ st with lastSeen := now }, some retryAfter)
  | none => countFailure cfg (restart cfg st now) now

/-- `record_failure_at`; `none` when `victim` is not a key that an eviction could take. -/
def recordFailureAt (attempts : Attempts) (username remoteAddr : List Char) (now : ℕ)
    (victim : LoginThrottleKey) : Option (Attempts × Option ℕ) :=
  if cfg.active then
    let key := LoginThrottleKey.new username remoteAddr
    let attempts := pruneExpired cfg attempts now
    let full := key ∉ attempts ∧ cfg.maxTrackedEntries ≤ attempts.size
    if full ∧ isOldest attempts victim = false then none
    else
      let attempts := if full then attempts.erase victim else attempts
      let st := (attempts.lookup key).getD ⟨0, now, none, now⟩
      some (attempts.insert key (bump cfg st now).1, (bump cfg st now).2)
  else some (attempts, none)

/-- `record_success_at` -/
def recordSuccessAt (attempts : Attempts) (username remoteAddr : List Char) : Attempts :=
  if cfg.active then attempts.erase (.new username remoteAddr) else attempts

/-! ### Runs -/

/-- The calls that the handlers make. -/
inductive Call where
  | check (username remoteAddr : List Char) (now : ℕ)
  | recordFailure (username remoteAddr : List Char) (now : ℕ) (victim : LoginThrottleKey)
  | recordSuccess (username remoteAddr : List Char)

/-- The table between two calls. -/
structure State where
  attempts : Attempts
  /-- The time of the latest call. -/
  clock : ℕ

/-- A call; clocks do not run backwards. -/
def step (s : State) : Call → Option State
  | .check username remoteAddr now =>
    if s.clock ≤ now then some ⟨(checkAt cfg s.attempts username remoteAddr now).1, now⟩ else none
  | .recordFailure username remoteAddr now victim =>
    if s.clock ≤ now then
      (recordFailureAt cfg s.attempts username remoteAddr now victim).map fun r => ⟨r.1, now⟩
    else none
  | .recordSuccess username remoteAddr =>
    some { s with attempts := recordSuccessAt cfg s.attempts username remoteAddr }

/-- The call takes the entry of `key` away: it is a success of that key, or a failure of an
    untracked key at a full table that evicts it. -/
def Lifts (key : LoginThrottleKey) (s : State) : Call → Prop
  | .check _ _ _ => False
  | .recordSuccess username remoteAddr => .new username remoteAddr = key
  | .recordFailure username remoteAddr now victim =>
    .new username remoteAddr ∉ pruneExpired cfg s.attempts now ∧
      cfg.maxTrackedEntries ≤ (pruneExpired cfg s.attempts now).size ∧ victim = key

end

/-- The entry of `key` says that it is locked until `limit`. -/
def LockedUntil (attempts : Attempts) (key : LoginThrottleKey) (limit : ℕ) : Prop :=
  ∃ st, attempts.lookup key = some st ∧ st.lockedUntil = some limit

instance (attempts : Attempts) (key : LoginThrottleKey) (limit : ℕ) :
    Decidable (LockedUntil attempts key limit) :=
  decidable_of_iff ((attempts.lookup key).bind LoginThrottleState.lockedUntil = some limit)
    Option.bind_eq_some_iff

/-! ### What keeps a lock -/

section
variable {cfg : LoginRateLimitConfig} {attempts : Attempts} {key : LoginThrottleKey}
  {limit now : ℕ}

theorem limitedUntil_of_lt (h : now < limit) :
    limitedUntil (some limit) now = some (max (limit - now) (secs 1)) := by
  simp only [limitedUntil]
  rw [if_neg (by omega)]

theorem limitedUntil_some {lockedUntil : Option ℕ} {retryAfter : ℕ}
    (h : limitedUntil lockedUntil now = some retryAfter) :
    ∃ limit, lockedUntil = some limit ∧ now < limit ∧ retryAfter = max (limit - now) (secs 1) := by
  rcases lockedUntil with _ | limit
  · cases h
  · simp only [limitedUntil] at h
    split at h
    · cases h
    · cases h
      exact ⟨limit, rfl, by omega, rfl⟩

theorem LockedUntil.prune (h : LockedUntil attempts key limit) (hnow : now < limit) :
    LockedUntil (pruneExpired cfg attempts now) key limit := by
  obtain ⟨st, hst, hlock⟩ := h
  refine ⟨st, Table.lookup_retain.mpr ⟨hst, ?_⟩, hlock⟩
  simp [hlock, limitedUntil_of_lt hnow]

/-- A further failure of a locked key changes nothing but `last_seen`. -/
theorem bump_locked {st : LoginThrottleState} (h : st.lockedUntil = some limit)
    (hnow : now < limit) : (bump cfg st now).1.lockedUntil = some limit := by
  simp only [bump, h, limitedUntil_of_lt hnow]

theorem countFailure_limited {st : LoginThrottleState} {retryAfter : ℕ}
    (h : (countFailure cfg st now).2 = some retryAfter) :
    ∃ limit, (countFailure cfg st now).1.lockedUntil = some limit ∧ now < limit ∧
      retryAfter = max (limit - now) (secs 1) := by
  by_cases hfull : cfg.maxFailures ≤ min (st.failures + 1) u32Max
  · simp only [countFailure, if_pos hfull] at h ⊢
    exact limitedUntil_some h
  · simp only [countFailure, if_neg hfull, reduceCtorEq] at h

/-- A failure that answers with a delay has left the entry locked. -/
theorem bump_limited {st : LoginThrottleState} {retryAfter : ℕ}
    (h : (bump cfg st now).2 = some retryAfter) :
    ∃ limit, (bump cfg st now).1.lockedUntil = some limit ∧ now < limit ∧
      retryAfter = max (limit - now) (secs 1) := by
  rcases hlim : limitedUntil st.lockedUntil now with _ | retry
  · simp only [bump, hlim] at h ⊢
    exact countFailure_limited h
  · simp only [bump, hlim, Option.some.injEq] at h ⊢
    obtain ⟨limit, hl, hnow, hr⟩ := limitedUntil_some hlim
    exact ⟨limit, hl, hnow, h ▸ hr⟩

theorem recordFailureAt_cases {username remoteAddr : List Char} {victim : LoginThrottleKey}
    {r : Attempts × Option ℕ}
    (h : recordFailureAt cfg attempts username remoteAddr now victim = some r) :
    (cfg.active = false ∧ r = (attempts, none)) ∨
    ∃ kept st, r = (kept.insert (.new username remoteAddr) (bump cfg st now).1,
        (bump cfg st now).2) ∧
      st = (kept.lookup (.new username remoteAddr)).getD ⟨0, now, none, now⟩ ∧
      (kept = pruneExpired cfg attempts now ∨
        kept = (pruneExpired cfg attempts now).erase victim ∧
        .new username remoteAddr ∉ pruneExpired cfg attempts now ∧
        cfg.maxTrackedEntries ≤ (pruneExpired cfg attempts now).size) := by
  simp only [recordFailureAt] at h
  split at h
  · split at h
    · cases h
    cases h
    right
    by_cases hfull : LoginThrottleKey.new username remoteAddr ∉ pruneExpired cfg attempts now ∧
        cfg.maxTrackedEntries ≤ (pruneExpired cfg attempts now).size
    · refine ⟨(pruneExpired cfg attempts now).erase victim, _, ?_, rfl, .inr ⟨rfl, hfull⟩⟩
      simp only [if_pos hfull]
    · refine ⟨pruneExpired cfg attempts now, _, ?_, rfl, .inl rfl⟩
      simp only [if_neg hfull]
  · rename_i hoff
    cases h
    exact .inl ⟨by simpa using hoff, rfl⟩

/-- A call that does not lift a lock leaves it in place, as long as the lock lasts. -/
theorem step_locked {s t : State} {call : Call} (h : step cfg s call = some t)
    (hnot : ¬ Lifts cfg key s call) (hlock : s.clock < limit → LockedUntil s.attempts key limit)
    (hclock : t.clock < limit) : LockedUntil t.attempts key limit := by
  cases call with
  | check username remoteAddr now =>
    simp only [step] at h
    split at h
    · rename_i hle
      cases h
      have hl := hlock (lt_of_le_of_lt hle hclock)
      simp only [checkAt]
      split
      · have hp : LockedUntil (pruneExpired cfg s.attempts now) key limit := hl.prune hclock
        split
        · exact hp
        · split <;> exact hp
      · exact hl
    · cases h
  | recordFailure username remoteAddr now victim =>
    simp only [step] at h
    split at h
    · rename_i hle
      obtain ⟨r, hr, rfl⟩ := Option.map_eq_some_iff.mp h
      have hl := hlock (lt_of_le_of_lt hle hclock)
      rcases recordFailureAt_cases hr with ⟨-, rfl⟩ | ⟨kept, st, rfl, hst, hkept⟩
      · exact hl
      have hp : LockedUntil (pruneExpired cfg s.attempts now) key limit := hl.prune hclock
      have hk : LockedUntil kept key limit := by
        rcases hkept with rfl | ⟨rfl, hnew, hfull⟩
        · exact hp
        · obtain ⟨e, he, hle⟩ := hp
          refine ⟨e, ?_, hle⟩
          rw [AList.lookup_erase_ne]
          · exact he
          · rintro rfl
            exact hnot ⟨hnew, hfull, rfl⟩
      obtain ⟨e, he, hel⟩ := hk
      by_cases hkey : key = .new username remoteAddr
      · subst hkey
        refine ⟨_, AList.lookup_insert _, ?_⟩
        rw [he] at hst
        subst hst
        exact bump_locked hel hclock
      · exact ⟨e, by rw [AList.lookup_insert_ne hkey]; exact he, hel⟩
    · cases h
  | recordSuccess username remoteAddr =>
    simp only [step, Option.some.injEq] at h
    subst h
    obtain ⟨e, he, hel⟩ := hlock hclock
    refine ⟨e, ?_, hel⟩
    simp only [recordSuccessAt]
    split
    · rw [AList.lookup_erase_ne fun hk => hnot hk.symm]
      exact he
    · exact he

theorem checkAt_locked {username remoteAddr : List Char} (hactive : cfg.active = true)
    (h : LockedUntil attempts (.new username remoteAddr) limit) (hnow : now < limit) :
    (checkAt cfg attempts username remoteAddr now).2 = .limited (max (limit - now) (secs 1)) := by
  have hp : LockedUntil (pruneExpired cfg attempts now) _ limit := h.prune hnow
  obtain ⟨st, hst, hlock⟩ := hp
  simp only [checkAt, hactive, if_true, hst, hlock, limitedUntil_of_lt hnow]

end

/-! ### Whole runs -/

/-- The first failure locks, and the table holds one key. -/
def tinyConfig : LoginRateLimitConfig := { maxFailures := 1, maxTrackedEntries := 1 }

/-- A user name for the samples. -/
def admin : List Char := ['a', 'd', 'm', 'i', 'n']

/-- An address for the samples. -/
def localhost : List Char := ['1', '2', '7', '.', '0', '.', '0', '.', '1']

/-- Another address. -/
def neighbour : List Char := ['1', '2', '7', '.', '0', '.', '0', '.', '2']

end Llmtrace.Auth
