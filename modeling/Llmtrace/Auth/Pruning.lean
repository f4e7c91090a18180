import Llmtrace.Auth.Throttle

/-! Pruning and the caller. The reference machine keeps one state for each key and forgets it only at a
    success; the throttle prunes its table at every call. Within the capacity of the table nobody can
    tell the two apart: an entry goes only when neither a lock nor a window speaks of it any more, and
    from then on the reference machine would start its count anew as well.

        entry:   locked ──▶ in its window ──▶ over
        throttle:  kept        kept           gone
        reference: kept        kept           kept, restarted by the next failure -/

namespace Llmtrace.Auth
open Schemes

/-! ### The reference machine -/

/-- The state of one key; the count has no upper end. -/
structure Strikes where
  failures : ℕ
  firstFailure : ℕ
  lockedUntil : Option ℕ

/-- A table without a bound, from which nothing is pruned. -/
abbrev Reference := LoginThrottleKey → Option Strikes

section
variable (cfg : LoginRateLimitConfig)

/-- The failure is counted in the window that is open, or in a new one. -/
def Strikes.count (st : Strikes) (now : ℕ) : Strikes × Option ℕ :=
  let st : Strikes := if secs cfg.windowSecs < now - st.firstFailure then ⟨0, now, none⟩ else st
  if cfg.maxFailures ≤ st.failures + 1 then
    let limit := now + secs cfg.lockoutSecs
    (⟨st.failures + 1, st.firstFailure, some limit⟩, limitedUntil (some limit) now)
  else (⟨st.failures + 1, st.firstFailure, st.lockedUntil⟩, none)

/-- A failure of a key; a locked key only learns how long it has to wait. -/
def Strikes.fail (st : Strikes) (now : ℕ) : Strikes × Option ℕ :=
  match limitedUntil st.lockedUntil now with
  | some retryAfter => (st, some retryAfter)
  | none => st.count cfg now

/-- `check` on the unbounded table. -/
def Reference.check (ref : Reference) (key : LoginThrottleKey) (now : ℕ) : LoginThrottleDecision :=
  match (ref key).bind fun st => limitedUntil st.lockedUntil now with
  | some retryAfter => .limited retryAfter
  | none => .allowed

/-- `record_failure` on the unbounded table. -/
def Reference.recordFailure (ref : Reference) (key : LoginThrottleKey) (now : ℕ) :
    Reference × Option ℕ :=
  let r := ((ref key).getD ⟨0, now, none⟩).fail cfg now
  (Function.update ref key (some r.1), r.2)

/-- `record_success` on the unbounded table. -/
def Reference.recordSuccess (ref : Reference) (key : LoginThrottleKey) : Reference :=
  Function.update ref key none

/-! ### What the callers see -/

/-- What a call of the throttle returns. -/
inductive Answer where
  | decision (d : LoginThrottleDecision)
  | retryAfter (r : Option ℕ)
  | done
  deriving DecidableEq

/-- The key of a call. -/
def Call.key : Call → LoginThrottleKey
  | .check username remoteAddr _ | .recordFailure username remoteAddr _ _
  | .recordSuccess username remoteAddr => .new username remoteAddr

/-- A success does not read the clock. -/
def Call.time : Call → Option ℕ
  | .check _ _ now | .recordFailure _ _ now _ => some now
  | .recordSuccess _ _ => none

/-- What a call returns in a state. -/
def answer (s : State) : Call → Answer
  | .check username remoteAddr now => .decision (checkAt cfg s.attempts username remoteAddr now).2
  | .recordFailure username remoteAddr now victim =>
    .retryAfter ((recordFailureAt cfg s.attempts username remoteAddr now victim).bind Prod.snd)
  | .recordSuccess _ _ => .done

/-- The answers to a list of calls; `none` when one of them cannot be made. -/
def answers : State → List Call → Option (List Answer)
  | _, [] => some []
  | s, call :: calls =>
    (step cfg s call).bind fun t => (answers t calls).map fun rest => answer cfg s call :: rest

/-- A call of the reference. -/
def Reference.step (ref : Reference) : Call → Reference × Answer
  | .check username remoteAddr now => (ref, .decision (ref.check (.new username remoteAddr) now))
  | .recordFailure username remoteAddr now _ =>
    let r := ref.recordFailure cfg (.new username remoteAddr) now
    (r.1, .retryAfter r.2)
  | .recordSuccess username remoteAddr => (ref.recordSuccess (.new username remoteAddr), .done)

/-- The answers of the reference to a list of calls. -/
def Reference.answers : Reference → List Call → List Answer
  | _, [] => []
  | ref, call :: calls => (ref.step cfg call).2 :: Reference.answers (ref.step cfg call).1 calls

end

/-! ### Entries and states -/

/-- An entry says what the reference knows; its count stops at the largest `u32`. -/
structure Matches (st : LoginThrottleState) (r : Strikes) : Prop where
  failures : st.failures = min r.failures u32Max
  first : st.firstFailure = r.firstFailure
  locked : st.lockedUntil = r.lockedUntil

/-- Neither a lock nor a window speaks of the state any more. -/
def Strikes.Over (cfg : LoginRateLimitConfig) (r : Strikes) (now : ℕ) : Prop :=
  limitedUntil r.lockedUntil now = none ∧ secs cfg.windowSecs < now - r.firstFailure

/-- An entry of the table beside the state of its key. -/
inductive Mirrors (cfg : LoginRateLimitConfig) (now : ℕ) :
    Option LoginThrottleState → Option Strikes → Prop
  | absent : Mirrors cfg now none none
  | elapsed {r : Strikes} : r.Over cfg now → Mirrors cfg now none (some r)
  | tracked {st : LoginThrottleState} {r : Strikes} : Matches st r →
    Mirrors cfg now (some st) (some r)

section
variable {cfg : LoginRateLimitConfig} {attempts : Attempts} {key : LoginThrottleKey}
  {now later : ℕ}

theorem limitedUntil_none_mono {lockedUntil : Option ℕ} (h : limitedUntil lockedUntil now = none)
    (hle : now ≤ later) : limitedUntil lockedUntil later = none := by
  rcases lockedUntil with _ | limit
  · rfl
  · simp only [limitedUntil] at h ⊢
    split at h
    · rw [if_pos (by omega)]
    · cases h

theorem Strikes.Over.mono {r : Strikes} (h : r.Over cfg now) (hle : now ≤ later) :
    r.Over cfg later := by
  obtain ⟨hlock, hwin⟩ := h
  exact ⟨limitedUntil_none_mono hlock hle, by omega⟩

/-- A state that is over counts a failure as a new one does. -/
theorem Strikes.Over.fail_eq {r : Strikes} (h : r.Over cfg now) :
    r.fail cfg now = Strikes.fail cfg ⟨0, now, none⟩ now := by
  obtain ⟨hlock, hwin⟩ := h
  have hnew : ¬ secs cfg.windowSecs < now - now := by omega
  have hopen : limitedUntil none now = none := rfl
  simp only [Strikes.fail, hlock, hopen, Strikes.count, if_pos hwin, if_neg hnew]

theorem Mirrors.prune {e : Option Strikes} (h : Mirrors cfg now (attempts.lookup key) e)
    (hle : now ≤ later) :
    Mirrors cfg later ((pruneExpired cfg attempts later).lookup key) e := by
  have hnone : attempts.lookup key = none → (pruneExpired cfg attempts later).lookup key = none := by
    intro hn
    by_contra hsome
    obtain ⟨st, hst⟩ := Option.ne_none_iff_exists'.mp hsome
    rw [(Table.lookup_retain.mp hst).1] at hn
    cases hn
  generalize hlook : attempts.lookup key = entry at h hnone
  cases h with
  | absent =>
    rw [hnone rfl]
    exact .absent
  | elapsed hover =>
    rw [hnone rfl]
    exact .elapsed (hover.mono hle)
  | @tracked st r hm =>
    by_cases hkeep : ((limitedUntil st.lockedUntil later).isSome ||
        decide (later - st.firstFailure ≤ secs cfg.windowSecs)) = true
    · have hst : (pruneExpired cfg attempts later).lookup key = some st :=
        Table.lookup_retain.mpr ⟨hlook, hkeep⟩
      rw [hst]
      exact .tracked hm
    · -- the pruned entry is over
      have hgone : (pruneExpired cfg attempts later).lookup key = none := by
        by_contra hsome
        obtain ⟨st', hst'⟩ := Option.ne_none_iff_exists'.mp hsome
        obtain ⟨hl, hk⟩ := Table.lookup_retain.mp hst'
        rw [hlook, Option.some.injEq] at hl
        subst hl
        exact hkeep hk
      rw [hgone]
      simp only [Bool.or_eq_true, decide_eq_true_eq, not_or, Bool.not_eq_true, Option.isSome_eq_false_iff,
        Option.isNone_iff_eq_none] at hkeep
      rw [hm.locked, hm.first] at hkeep
      exact .elapsed ⟨hkeep.1, by omega⟩

theorem min_succ_min (a m : ℕ) : min (min a m + 1) m = min (a + 1) m := by omega

/-- The two counts lock at the same failure: the limit fits into the counter. -/
theorem Matches.countFailure {st : LoginThrottleState} {r : Strikes} (h : Matches st r) (now : ℕ) :
    (countFailure cfg (restart cfg st now) now).2 = (r.count cfg now).2 ∧
      Matches (countFailure cfg (restart cfg st now) now).1 (r.count cfg now).1 := by
  have hmax := cfg.maxFailures_le
  have hpos : 0 < u32Max := by decide
  obtain ⟨hf, hfirst, hlock⟩ := h
  by_cases hwin : secs cfg.windowSecs < now - r.firstFailure
  · have hrestart : restart cfg st now =
        { st with failures := 0, firstFailure := now, lockedUntil := none } :=
      if_pos (by rw [hfirst]; exact hwin)
    simp only [Auth.countFailure, hrestart, Strikes.count, if_pos hwin]
    by_cases hfull : cfg.maxFailures ≤ 0 + 1
    · rw [if_pos hfull, if_pos (by omega)]
      exact ⟨rfl, rfl, rfl, rfl⟩
    · rw [if_neg hfull, if_neg (by omega)]
      exact ⟨rfl, rfl, rfl, rfl⟩
  · have hrestart : restart cfg st now = st := if_neg (by rw [hfirst]; exact hwin)
    simp only [Auth.countFailure, hrestart, Strikes.count, if_neg hwin]
    by_cases hfull : cfg.maxFailures ≤ r.failures + 1
    · rw [if_pos hfull, if_pos (by omega)]
      exact ⟨rfl, by rw [hf]; exact min_succ_min _ _, hfirst, rfl⟩
    · rw [if_neg hfull, if_neg (by omega)]
      exact ⟨rfl, by rw [hf]; exact min_succ_min _ _, hfirst, hlock⟩

theorem Matches.bump {st : LoginThrottleState} {r : Strikes} (h : Matches st r) (now : ℕ) :
    (bump cfg st now).2 = (r.fail cfg now).2 ∧ Matches (bump cfg st now).1 (r.fail cfg now).1 := by
  rcases hlim : limitedUntil r.lockedUntil now with _ | retryAfter
  · simp only [Auth.bump, h.locked, hlim, Strikes.fail]
    exact h.countFailure now
  · simp only [Auth.bump, h.locked, hlim, Strikes.fail]
    exact ⟨trivial, h.failures, h.first, rfl⟩

theorem Mirrors.fail {e : Option LoginThrottleState} {r : Option Strikes} (h : Mirrors cfg now e r) :
    (bump cfg (e.getD ⟨0, now, none, now⟩) now).2 = ((r.getD ⟨0, now, none⟩).fail cfg now).2 ∧
      Matches (bump cfg (e.getD ⟨0, now, none, now⟩) now).1
        ((r.getD ⟨0, now, none⟩).fail cfg now).1 := by
  have hnew : Matches ⟨0, now, none, now⟩ ⟨0, now, none⟩ := ⟨by simp, rfl, rfl⟩
  cases h with
  | absent => exact hnew.bump now
  | elapsed hover =>
    simp only [Option.getD_some, Option.getD_none, hover.fail_eq]
    exact hnew.bump now
  | tracked hm => exact hm.bump now

theorem Mirrors.limited {e : Option LoginThrottleState} {r : Option Strikes}
    (h : Mirrors cfg now e r) :
    (e.bind fun st => limitedUntil st.lockedUntil now) =
      r.bind fun st => limitedUntil st.lockedUntil now := by
  cases h with
  | absent => rfl
  | elapsed hover => exact hover.1.symm
  | tracked hm => simp only [Option.bind_some, hm.locked]

/-! ### Whole runs -/

/-- The table beside the reference machine; `keys` are those that may be touched. -/
structure Simulates (cfg : LoginRateLimitConfig) (keys : List LoginThrottleKey) (s : State)
    (ref : Reference) : Prop where
  mirrors : ∀ key, Mirrors cfg s.clock (s.attempts.lookup key) (ref key)
  tracked : ∀ key ∈ s.attempts, key ∈ keys

variable {keys : List LoginThrottleKey} {s t : State} {ref : Reference}

theorem mem_of_mem_prune (h : key ∈ pruneExpired cfg attempts now) : key ∈ attempts := by
  obtain ⟨st, hst⟩ := Table.lookup_of_mem h
  exact Table.mem_of_lookup (Table.lookup_retain.mp hst).1

/-- A table within `keys` has room for one more of them. -/
theorem size_lt_of_notMem (hsub : ∀ k ∈ attempts, k ∈ keys) (hkey : key ∈ keys)
    (hnot : key ∉ attempts) : attempts.size < keys.length := by
  have hnodup : (key :: attempts.keys).Nodup := List.nodup_cons.mpr ⟨hnot, attempts.keys_nodup⟩
  have hmem : key :: attempts.keys ⊆ keys := by
    intro k hk
    rcases List.mem_cons.mp hk with rfl | hk
    · exact hkey
    · exact hsub k hk
  have hlen := (hnodup.subperm hmem).length_le
  rw [List.length_cons, AList.keys, List.keys, List.length_map] at hlen
  exact hlen

theorem recordFailureAt_room {username remoteAddr : List Char} (victim : LoginThrottleKey)
    (hactive : cfg.active = true)
    (hroom : .new username remoteAddr ∈ pruneExpired cfg attempts now ∨
      (pruneExpired cfg attempts now).size < cfg.maxTrackedEntries) :
    recordFailureAt cfg attempts username remoteAddr now victim =
      let st := ((pruneExpired cfg attempts now).lookup (.new username remoteAddr)).getD
        ⟨0, now, none, now⟩
      some ((pruneExpired cfg attempts now).insert (.new username remoteAddr) (bump cfg st now).1,
        (bump cfg st now).2) := by
  have hfull : ¬(LoginThrottleKey.new username remoteAddr ∉ pruneExpired cfg attempts now ∧
      cfg.maxTrackedEntries ≤ (pruneExpired cfg attempts now).size) := by
    rintro ⟨hnot, hle⟩
    rcases hroom with hmem | hlt
    · exact hnot hmem
    · omega
  simp only [recordFailureAt, hactive, if_true, hfull, false_and, if_false]

theorem Simulates.prune (h : Simulates cfg keys s ref) (hle : s.clock ≤ now) :
    Simulates cfg keys ⟨pruneExpired cfg s.attempts now, now⟩ ref :=
  ⟨fun key => (h.mirrors key).prune hle, fun key hkey => h.tracked key (mem_of_mem_prune hkey)⟩

theorem Simulates.check (hactive : cfg.active = true) (h : Simulates cfg keys s ref)
    (hle : s.clock ≤ now) (username remoteAddr : List Char) :
    checkAt cfg s.attempts username remoteAddr now =
      (pruneExpired cfg s.attempts now, ref.check (.new username remoteAddr) now) := by
  have hlimited := ((h.prune hle).mirrors (.new username remoteAddr)).limited
  simp only [checkAt, hactive, if_true, Reference.check, ← hlimited]
  cases (pruneExpired cfg s.attempts now).lookup (.new username remoteAddr) with
  | none => rfl
  | some st =>
    simp only [Option.bind_some]
    cases limitedUntil st.lockedUntil now <;> rfl

theorem Simulates.failure (h : Simulates cfg keys s ref) (hle : s.clock ≤ now) (hkey : key ∈ keys) :
    let st := ((pruneExpired cfg s.attempts now).lookup key).getD ⟨0, now, none, now⟩
    (bump cfg st now).2 = (ref.recordFailure cfg key now).2 ∧
      Simulates cfg keys ⟨(pruneExpired cfg s.attempts now).insert key (bump cfg st now).1, now⟩
        (ref.recordFailure cfg key now).1 := by
  have hpruned := h.prune hle
  obtain ⟨hanswer, hmatch⟩ := (hpruned.mirrors key).fail
  refine ⟨hanswer, fun k => ?_, fun k hk => ?_⟩
  · by_cases hk : k = key
    · subst hk
      simp only [AList.lookup_insert, Reference.recordFailure, Function.update_self]
      exact .tracked hmatch
    · simp only [AList.lookup_insert_ne hk, Reference.recordFailure, Function.update_of_ne hk]
      exact hpruned.mirrors k
  · rcases (AList.mem_insert _).mp hk with rfl | hk
    · exact hkey
    · exact hpruned.tracked k hk

theorem Simulates.success (h : Simulates cfg keys s ref) (key : LoginThrottleKey) :
    Simulates cfg keys { s with attempts := s.attempts.erase key } (ref.recordSuccess key) := by
  refine ⟨fun k => ?_, fun k hk => h.tracked k (AList.mem_erase.mp hk).2⟩
  by_cases hk : k = key
  · subst hk
    simp only [AList.lookup_erase, Reference.recordSuccess, Function.update_self]
    exact .absent
  · simp only [AList.lookup_erase_ne hk, Reference.recordSuccess, Function.update_of_ne hk]
    exact h.mirrors k

/-- One call: it can be made, it answers alike, and the two stay together. -/
theorem Simulates.step (hactive : cfg.active = true) (hcap : keys.length ≤ cfg.maxTrackedEntries)
    (h : Simulates cfg keys s ref) {call : Call} (hkey : call.key ∈ keys)
    (htime : ∀ now ∈ call.time, s.clock ≤ now) :
    ∃ t, step cfg s call = some t ∧ answer cfg s call = (ref.step cfg call).2 ∧
      Simulates cfg keys t (ref.step cfg call).1 ∧ t.clock = call.time.getD s.clock := by
  cases call with
  | check username remoteAddr now =>
    have hle := htime now rfl
    refine ⟨⟨pruneExpired cfg s.attempts now, now⟩, ?_, ?_, h.prune hle, rfl⟩
    · rw [Auth.step, if_pos hle, h.check hactive hle]
    · rw [answer, h.check hactive hle]
      rfl
  | recordFailure username remoteAddr now victim =>
    have hle := htime now rfl
    have hroom : .new username remoteAddr ∈ pruneExpired cfg s.attempts now ∨
        (pruneExpired cfg s.attempts now).size < cfg.maxTrackedEntries := by
      by_cases hmem : LoginThrottleKey.new username remoteAddr ∈ pruneExpired cfg s.attempts now
      · exact .inl hmem
      · exact .inr ((size_lt_of_notMem (h.prune hle).tracked hkey hmem).trans_le hcap)
    obtain ⟨hanswer, hnext⟩ := h.failure hle hkey
    refine ⟨_, ?_, ?_, hnext, rfl⟩
    · rw [Auth.step, if_pos hle, recordFailureAt_room victim hactive hroom]
      rfl
    · rw [answer, recordFailureAt_room victim hactive hroom]
      exact congrArg Answer.retryAfter hanswer
  | recordSuccess username remoteAddr =>
    refine ⟨_, rfl, rfl, ?_, rfl⟩
    rw [recordSuccessAt, if_pos hactive]
    exact h.success _

theorem Simulates.answers (hactive : cfg.active = true)
    (hcap : keys.length ≤ cfg.maxTrackedEntries) : ∀ {calls : List Call} {s : State} {ref : Reference},
    Simulates cfg keys s ref → (∀ call ∈ calls, call.key ∈ keys) →
    (∀ now ∈ calls.filterMap Call.time, s.clock ≤ now) →
    (calls.filterMap Call.time).Pairwise (· ≤ ·) →
    answers cfg s calls = some (ref.answers cfg calls)
  | [], _, _, _, _, _, _ => rfl
  | call :: calls, s, ref, h, hkeys, hclock, htimes => by
      have htime : ∀ now ∈ call.time, s.clock ≤ now := by
        intro now hnow
        exact hclock now (List.mem_filterMap.mpr ⟨call, List.mem_cons_self, hnow⟩)
      obtain ⟨t, ht, hanswer, hnext, hadvance⟩ :=
        h.step hactive hcap (hkeys call List.mem_cons_self) htime
      have hlater : ∀ now ∈ calls.filterMap Call.time, t.clock ≤ now := by
        intro now hnow
        rw [hadvance]
        cases hc : call.time with
        | none =>
          rw [List.filterMap_cons_none hc] at hclock
          exact hclock now hnow
        | some first =>
          rw [List.filterMap_cons_some hc, List.pairwise_cons] at htimes
          exact htimes.1 now hnow
      have hrest : (calls.filterMap Call.time).Pairwise (· ≤ ·) :=
        htimes.sublist ((List.sublist_cons_self call calls).filterMap _)
      have ih := Simulates.answers hactive hcap hnext
        (fun c hc => hkeys c (List.mem_cons_of_mem _ hc)) hlater hrest
      rw [Auth.answers, ht, Option.bind_some, ih, Option.map_some, hanswer, Reference.answers]

/-! ### The size of the table -/

theorem size_retain_le (p : LoginThrottleState → Bool) : (attempts.retain p).size ≤ attempts.size :=
  List.length_filter_le _ _

theorem size_erase_le (key : LoginThrottleKey) : (Table.size (attempts.erase key)) ≤ attempts.size := by
  by_cases hmem : key ∈ attempts
  · obtain ⟨st, hst⟩ := Table.lookup_of_mem hmem
    have := Table.size_erase hst
    omega
  · rw [Table.size_eq_total, Table.total_erase_of_notMem _ hmem, ← Table.size_eq_total]

theorem size_insert_le (key : LoginThrottleKey) (st : LoginThrottleState) :
    Table.size (attempts.insert key st) ≤ attempts.size + 1 := by
  by_cases hmem : key ∈ attempts
  · obtain ⟨old, hold⟩ := Table.lookup_of_mem hmem
    rw [Table.size_replace st hold]
    omega
  · rw [Table.size_insert hmem]

/-- A new key takes the place of another one when the table is full. -/
theorem recordFailureAt_size {username remoteAddr : List Char} {victim : LoginThrottleKey}
    {r : Attempts × Option ℕ}
    (h : recordFailureAt cfg attempts username remoteAddr now victim = some r)
    (hsize : attempts.size ≤ cfg.maxTrackedEntries) : r.1.size ≤ cfg.maxTrackedEntries := by
  simp only [recordFailureAt] at h
  generalize hp : pruneExpired cfg attempts now = pruned at h
  have hpruned : pruned.size ≤ cfg.maxTrackedEntries := by
    rw [← hp]
    exact (size_retain_le _).trans hsize
  split at h
  · split at h
    · cases h
    rename_i hvictim
    cases h
    by_cases hfull : LoginThrottleKey.new username remoteAddr ∉ pruned ∧
        cfg.maxTrackedEntries ≤ pruned.size
    · have hold : isOldest pruned victim = true := by
        by_contra hno
        exact hvictim ⟨hfull, by simpa using hno⟩
      obtain ⟨st, hst⟩ : ∃ st, pruned.lookup victim = some st := by
        simp only [isOldest] at hold
        split at hold
        · cases hold
        · exact ⟨_, by assumption⟩
      have hless := Table.size_erase hst
      simp only [if_pos hfull]
      refine (size_insert_le _ _).trans ?_
      omega
    · simp only [if_neg hfull]
      by_cases hmem : LoginThrottleKey.new username remoteAddr ∈ pruned
      · obtain ⟨old, hold⟩ := Table.lookup_of_mem hmem
        rw [Table.size_replace _ hold]
        exact hpruned
      · rw [Table.size_insert hmem]
        rw [not_and, not_le] at hfull
        exact hfull hmem
  · cases h
    exact hsize

theorem step_size {call : Call} (h : step cfg s call = some t)
    (hsize : s.attempts.size ≤ cfg.maxTrackedEntries) :
    t.attempts.size ≤ cfg.maxTrackedEntries := by
  cases call with
  | check username remoteAddr now =>
    simp only [step] at h
    split at h
    · cases h
      have hpruned : (pruneExpired cfg s.attempts now).size ≤ cfg.maxTrackedEntries :=
        (size_retain_le _).trans hsize
      simp only [checkAt]
      split
      · split
        · exact hpruned
        · split <;> exact hpruned
      · exact hsize
    · cases h
  | recordFailure username remoteAddr now victim =>
    simp only [step] at h
    split at h
    · obtain ⟨r, hr, rfl⟩ := Option.map_eq_some_iff.mp h
      exact recordFailureAt_size hr hsize
    · cases h
  | recordSuccess username remoteAddr =>
    simp only [step, Option.some.injEq] at h
    subst h
    simp only [recordSuccessAt]
    split
    · exact (size_erase_le _).trans hsize
    · exact hsize

end

end Llmtrace.Auth
