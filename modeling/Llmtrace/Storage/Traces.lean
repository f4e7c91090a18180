import Mathlib

/-! Trace rows and the minute rollup row they are counted in.

    A rollup row is maintained twice over: `update_rollup` (`ingest.rs`) adds a trace on insertion,
    the trigger `remove_deleted_trace_from_rollup` (migration 005) subtracts it on deletion, with its
    own reading of the nullable columns. This module has the two on one row; the tables come later.
    Instants are microseconds, the resolution of `timestamptz`. -/

namespace Llmtrace.Storage

/-- The columns of `request_traces` that rollups, sessions and retention read. The body sizes are
    counts of bytes that one connection carried: together they fit the `i64` they are added in. -/
structure Trace where
  id : ℕ
  startedAt : ℤ
  completedAt : Option ℤ
  status : Option ℤ
  error : Option String
  sessionKey : Option String
  sessionId : Option ℕ
  ttftMs : Option ℤ
  durationMs : Option ℤ
  requestBodyBytes : ℤ
  responseBodyBytes : ℤ
  /-- `octet_length(request_body_compressed)`: bodies that older versions kept in the row. -/
  requestBodyCompressed : ℕ := 0
  responseBodyCompressed : ℕ := 0
  ttft_nonneg : ∀ n ∈ ttftMs, 0 ≤ n := by simp
  duration_nonneg : ∀ n ∈ durationMs, 0 ≤ n := by simp
  request_nonneg : 0 ≤ requestBodyBytes := by decide
  response_nonneg : 0 ≤ responseBodyBytes := by decide
  bodies_fit : requestBodyBytes + responseBodyBytes < 2 ^ 63 := by decide
  deriving DecidableEq

/-- The counted columns of `trace_rollups_minute`. -/
inductive Counter where
  | total | errors | capturedBytes | durationCount | durationSumMs | ttftCount | ttftSumMs
  deriving DecidableEq

instance : Fintype Counter where
  elems := {.total, .errors, .capturedBytes, .durationCount, .durationSumMs, .ttftCount, .ttftSumMs}
  complete c := by cases c <;> decide

/-- A row of `trace_rollups_minute`, without its key. -/
structure Rollup where
  lastSeen : ℤ
  counts : Counter → ℤ
  deriving DecidableEq

/-- `ORDER BY started_at ASC, id ASC` -/
def Trace.Before (t u : Trace) : Prop :=
  t.startedAt < u.startedAt ∨ t.startedAt = u.startedAt ∧ t.id ≤ u.id

instance : DecidableRel Trace.Before := fun _ _ => inferInstanceAs (Decidable (_ ∨ _))

/-! ### Minutes -/

/-- `interval '1 minute'` -/
def minute : ℤ := 60000000

/-- `date_trunc('minute', t)` -/
def dateTruncMinute (t : ℤ) : ℤ := t - t % minute

/-- `started_at >= bucket AND started_at < bucket + interval '1 minute'` -/
def inBucket (bucket : ℤ) (t : Trace) : Bool :=
  decide (bucket ≤ t.startedAt) && decide (t.startedAt < bucket + minute)

/-- The bucket in which a trace is counted. -/
def Trace.bucket (t : Trace) : ℤ := dateTruncMinute t.startedAt

theorem inBucket_dateTruncMinute (x : ℤ) (t : Trace) :
    inBucket (dateTruncMinute x) t = decide (t.bucket = dateTruncMinute x) := by
  rw [inBucket, ← Bool.decide_and, decide_eq_decide]
  simp only [Trace.bucket, dateTruncMinute, minute]
  omega

theorem inBucket_self (t : Trace) : inBucket t.bucket t = true := by
  rw [Trace.bucket, inBucket_dateTruncMinute]
  exact decide_eq_true rfl

/-! ### Insertion -/

/-- What `update_rollup` adds for a trace. The body sizes are added in `i64`. -/
def Trace.added (t : Trace) : Counter → ℤ
  | .total => 1
  | .errors => if t.error.isSome || t.status.any (fun status => decide (400 ≤ status)) then 1 else 0
  | .capturedBytes => (t.requestBodyBytes + t.responseBodyBytes).bmod (2 ^ 64)
  | .durationCount => if t.durationMs.isSome then 1 else 0
  | .durationSumMs => t.durationMs.getD 0
  | .ttftCount => if t.ttftMs.isSome then 1 else 0
  | .ttftSumMs => t.ttftMs.getD 0

/-- A value of a `bigint` column; anything else is an error of the statement. -/
def isBigint (n : ℤ) : Bool := decide (-2 ^ 63 ≤ n) && decide (n < 2 ^ 63)

/-- The row that the upsert of `update_rollup` leaves, `none` if the statement fails. -/
def updateRollup (row : Option Rollup) (t : Trace) : Option Rollup :=
  match row with
  | none => some ⟨t.startedAt, t.added⟩
  | some r =>
    let counts := fun c => r.counts c + t.added c
    if ∀ c, isBigint (counts c) = true then some ⟨max r.lastSeen t.startedAt, counts⟩ else none

/-! ### Deletion -/

/-- `OR` of two SQL truth values, `none` being `NULL`. -/
def sqlOr : Option Bool → Option Bool → Option Bool
  | some true, _ => some true
  | _, some true => some true
  | some false, some false => some false
  | _, _ => none

/-- `CASE WHEN c THEN 1 ELSE 0 END`: a `NULL` condition falls through. -/
def caseWhen (c : Option Bool) : ℤ := if c = some true then 1 else 0

/-- A counter after the subtraction in the trigger, before the clamp. -/
def Trace.subtracted (t : Trace) (n : ℤ) : Counter → ℤ
  | .total => n - 1
  | .errors =>
    n - caseWhen (sqlOr (some t.error.isSome) (t.status.map fun status => decide (400 ≤ status)))
  | .capturedBytes => n - t.requestBodyBytes - t.responseBodyBytes
  | .durationCount => n - caseWhen (some t.durationMs.isSome)
  | .durationSumMs => n - t.durationMs.getD 0
  | .ttftCount => n - caseWhen (some t.ttftMs.isSome)
  | .ttftSumMs => n - t.ttftMs.getD 0

/-- `SELECT MAX(started_at)`: `NULL` over no rows. -/
def maxStartedAt (ts : List Trace) : Option ℤ := (ts.map Trace.startedAt).max?

/-- `remove_deleted_trace_from_rollup` on the row of the bucket of `t`: what is left of it when the
    trigger sees `retained` in `request_traces`, `none` if the row goes. -/
def removeDeletedTrace (retained : List Trace) (r : Rollup) (t : Trace) : Option Rollup :=
  let lastSeen :=
    if r.lastSeen = t.startedAt then
      (maxStartedAt (retained.filter (inBucket t.bucket))).getD r.lastSeen
    else r.lastSeen
  let counts := fun c => max 0 (t.subtracted (r.counts c) c)
  if counts .total = 0 then none else some ⟨lastSeen, counts⟩

/-! ### The two sides agree -/

theorem Trace.added_captured (t : Trace) :
    t.added .capturedBytes = t.requestBodyBytes + t.responseBodyBytes := by
  have h₁ := t.request_nonneg
  have h₂ := t.response_nonneg
  have h₃ := t.bodies_fit
  exact Int.bmod_eq_of_le (by omega) (by omega)

/-- Both readings of the nullable columns count the same. -/
theorem Trace.subtracted_eq (t : Trace) (n : ℤ) (c : Counter) :
    t.subtracted n c = n - t.added c := by
  cases c with
  | total => rfl
  | errors =>
    cases he : t.error <;> cases hs : t.status <;>
      simp [Trace.subtracted, Trace.added, he, hs, caseWhen, sqlOr]
    split <;> simp_all
  | capturedBytes =>
    rw [Trace.added_captured]
    simp only [Trace.subtracted]
    omega
  | durationCount => cases h : t.durationMs <;> simp [Trace.subtracted, Trace.added, h, caseWhen]
  | durationSumMs => rfl
  | ttftCount => cases h : t.ttftMs <;> simp [Trace.subtracted, Trace.added, h, caseWhen]
  | ttftSumMs => rfl

theorem Trace.added_nonneg (t : Trace) (c : Counter) : 0 ≤ t.added c := by
  have hopt : ∀ o : Option ℤ, (∀ n ∈ o, 0 ≤ n) → 0 ≤ o.getD 0 := by
    rintro (_ | n) h
    · exact le_refl 0
    · exact h n rfl
  cases c with
  | total => exact Int.one_nonneg
  | errors => simp only [Trace.added]; split <;> decide
  | capturedBytes =>
    rw [Trace.added_captured]
    exact Int.add_nonneg t.request_nonneg t.response_nonneg
  | durationCount => simp only [Trace.added]; split <;> decide
  | durationSumMs => exact hopt _ t.duration_nonneg
  | ttftCount => simp only [Trace.added]; split <;> decide
  | ttftSumMs => exact hopt _ t.ttft_nonneg

/-! ### Aggregates -/

/-- The trace counts as an error. -/
def Trace.isError (t : Trace) : Bool :=
  t.error.isSome || t.status.any (fun status => decide (400 ≤ status))

/-- What each counter stands for: the count or the sum over a list of traces. -/
def aggregate (ts : List Trace) : Counter → ℤ
  | .total => ts.length
  | .errors => ts.countP Trace.isError
  | .capturedBytes => (ts.map fun t => t.requestBodyBytes + t.responseBodyBytes).sum
  | .durationCount => ts.countP fun t => t.durationMs.isSome
  | .durationSumMs => (ts.filterMap Trace.durationMs).sum
  | .ttftCount => ts.countP fun t => t.ttftMs.isSome
  | .ttftSumMs => (ts.filterMap Trace.ttftMs).sum

@[simp] theorem aggregate_nil (c : Counter) : aggregate [] c = 0 := by cases c <;> rfl

@[simp] theorem aggregate_cons (t : Trace) (ts : List Trace) (c : Counter) :
    aggregate (t :: ts) c = t.added c + aggregate ts c := by
  have hopt : ∀ f : Trace → Option ℤ,
      ((t :: ts).filterMap f).sum = (f t).getD 0 + (ts.filterMap f).sum := by
    intro f
    cases h : f t <;> simp [h]
  cases c with
  | total => simp [aggregate, Trace.added]; omega
  | errors =>
    simp only [aggregate, Trace.added, List.countP_cons, Trace.isError, Nat.cast_add]
    split <;> simp_all [add_comm]
  | capturedBytes => rw [Trace.added_captured]; simp [aggregate]
  | durationCount =>
    simp only [aggregate, Trace.added, List.countP_cons, Nat.cast_add]
    split <;> simp_all [add_comm]
  | durationSumMs => exact hopt Trace.durationMs
  | ttftCount =>
    simp only [aggregate, Trace.added, List.countP_cons, Nat.cast_add]
    split <;> simp_all [add_comm]
  | ttftSumMs => exact hopt Trace.ttftMs

theorem aggregate_eq_sum (ts : List Trace) (c : Counter) :
    aggregate ts c = (ts.map fun t => t.added c).sum := by
  induction ts with
  | nil => simp
  | cons t ts ih => rw [aggregate_cons, ih, List.map_cons, List.sum_cons]

theorem aggregate_perm {ts us : List Trace} (h : ts.Perm us) (c : Counter) :
    aggregate ts c = aggregate us c := by
  rw [aggregate_eq_sum, aggregate_eq_sum]
  exact (h.map _).sum_eq

theorem aggregate_nonneg (ts : List Trace) (c : Counter) : 0 ≤ aggregate ts c := by
  rw [aggregate_eq_sum]
  refine List.sum_nonneg ?_
  simp only [List.mem_map, forall_exists_index, and_imp, forall_apply_eq_imp_iff₂]
  exact fun t _ => t.added_nonneg c

theorem aggregate_total_eq_zero {ts : List Trace} : aggregate ts .total = 0 ↔ ts = [] := by
  simp [aggregate]

/-- The traces counted in bucket `b`. -/
def inMinute (b : ℤ) (ts : List Trace) : List Trace := ts.filter fun t => decide (t.bucket = b)

theorem mem_inMinute {b : ℤ} {ts : List Trace} {t : Trace} :
    t ∈ inMinute b ts ↔ t ∈ ts ∧ t.bucket = b := by
  simp [inMinute]

theorem inMinute_cons_self (t : Trace) (ts : List Trace) :
    inMinute t.bucket (t :: ts) = t :: inMinute t.bucket ts := by
  simp [inMinute]

theorem inMinute_cons_ne {b : ℤ} {t : Trace} (h : t.bucket ≠ b) (ts : List Trace) :
    inMinute b (t :: ts) = inMinute b ts := by
  simp [inMinute, h]

theorem inMinute_append (b : ℤ) (ts us : List Trace) :
    inMinute b (ts ++ us) = inMinute b ts ++ inMinute b us :=
  List.filter_append ..

theorem inMinute_perm {ts us : List Trace} (h : ts.Perm us) (b : ℤ) :
    (inMinute b ts).Perm (inMinute b us) :=
  h.filter _

theorem filter_inBucket (t : Trace) (ts : List Trace) :
    ts.filter (inBucket t.bucket) = inMinute t.bucket ts :=
  List.filter_congr fun u _ => inBucket_dateTruncMinute t.startedAt u

/-- A trace of the first minute that failed after `ms` milliseconds. -/
def failedAt (id ms : ℕ) : Trace where
  id := id
  startedAt := 1000 * ms
  completedAt := none
  status := some 500
  error := none
  sessionKey := some "chat"
  sessionId := none
  ttftMs := none
  durationMs := some ms
  requestBodyBytes := 10
  responseBodyBytes := 20
  duration_nonneg := by simp

end Llmtrace.Storage
