import Llmtrace.Query.Search
import Llmtrace.Schemes.Grouping
import Llmtrace.Schemes.Ternary
import Llmtrace.Storage.Timeseries

/-! The list of requests (`list_requests` in `api.rs` and in `requests.rs`) and the lists beside it. What
    a query asks for is normalised first, and is then a condition of the statement, each part of which is
    dropped if nothing was asked for.

    Statuses may be missing, so the conditions have three truth values. The two halves of `has_error` and
    the classes of statuses are written out one by one, and none of them is the negation of another. -/

namespace Llmtrace.Storage
open Schemes

/-- The columns of `trace_requests` that lists, facets and summaries read. -/
structure TraceRequest where
  id : ℕ
  startedAt : ℤ
  upstreamUrl : String
  upstreamHost : Option String
  status : Option ℤ
  error : Option String
  requestKind : String
  model : Option String
  apiKeyHash : Option String
  sessionId : Option ℕ
  durationMs : Option ℤ
  bytesIn : ℤ
  bytesOut : ℤ
  requestBodyBytes : ℤ
  responseBodyBytes : ℤ

/-- The texts that other crates read. -/
structure FilterLib where
  parseUuid : String → Option ℕ
  parseTimestamp : String → Option ℤ

/-- `RequestListQuery` -/
structure RequestListQuery where
  q : Option String := none
  status : Option ℤ := none
  statusClass : Option String := none
  hasError : Option Bool := none
  upstreamHost : Option String := none
  model : Option String := none
  requestKind : Option String := none
  sessionId : Option String := none
  apiKeyHash : Option String := none
  since : Option String := none
  /-- `until` -/
  til : Option String := none
  minDurationMs : Option ℤ := none
  maxDurationMs : Option ℤ := none
  limit : Option ℤ := none
  offset : Option ℤ := none

/-- `RequestListFilters` -/
structure RequestListFilters where
  q : Option String
  status : Option ℤ
  statusClass : Option String
  hasError : Option Bool
  upstreamHost : Option String
  model : Option String
  requestKind : Option String
  sessionId : Option ℕ
  apiKeyHash : Option String
  since : Option ℤ
  /-- `until` -/
  til : Option ℤ
  minDurationMs : Option ℤ
  maxDurationMs : Option ℤ
  limit : Option ℤ
  offset : Option ℤ

/-! ### What a query asks for -/

/-- `MAX_REQUEST_SEARCH_BYTES` -/
def maxRequestSearchBytes : ℕ := 512

/-- `MAX_REQUEST_FILTER_BYTES` -/
def maxRequestFilterBytes : ℕ := 1024

/-- `MAX_REQUEST_TIME_FILTER_BYTES` -/
def maxRequestTimeFilterBytes : ℕ := 128

/-- `REQUEST_KIND_FILTERS` -/
def requestKindFilters : List String :=
  ["openai_chat_completions", "openai_responses", "anthropic_messages", "websocket", "generic_json",
    "generic_http"]

/-- `STATUS_CLASS_FILTERS` -/
def statusClassFilters : List String := ["no_status", "1xx", "2xx", "3xx", "4xx", "5xx", "other"]

/-- `normalize_text`: an empty text asks for nothing. -/
def normalizeText (field : String) (value : Option String) (maxBytes : ℕ) : Except String (Option String) :=
  match value.map fun value => trim value.toList with
  | none | some [] => .ok none
  | some value =>
    if maxBytes < utf8Len value then .error s!"{field} must be at most {maxBytes} bytes"
    else .ok (some (String.ofList value))

/-- `normalize_request_search` -/
def normalizeRequestSearch (q : Option String) : Except String (Option String) :=
  normalizeText "q" q maxRequestSearchBytes

/-- `normalize_request_filter` -/
def normalizeRequestFilter (field : String) (value : Option String) : Except String (Option String) :=
  normalizeText field value maxRequestFilterBytes

/-- `normalize_request_kind_filter` -/
def normalizeRequestKindFilter (value : Option String) : Except String (Option String) := do
  match ← normalizeRequestFilter "request_kind" value with
  | none => return none
  | some value =>
    if requestKindFilters.contains value then return some value
    else throw ("request_kind must be one of " ++ ", ".intercalate requestKindFilters)

/-- `normalize_status_class_filter` -/
def normalizeStatusClassFilter (value : Option String) : Except String (Option String) := do
  match ← normalizeRequestFilter "status_class" value with
  | none => return none
  | some value =>
    let value := String.ofList (toAsciiLowercase value.toList)
    if statusClassFilters.contains value then return some value
    else throw ("status_class must be one of " ++ ", ".intercalate statusClassFilters)

/-- `normalize_optional_uuid_filter` -/
def normalizeOptionalUuidFilter (lib : FilterLib) (field : String) (value : Option String) :
    Except String (Option ℕ) := do
  match ← normalizeRequestFilter field value with
  | none => return none
  | some value =>
    match lib.parseUuid value with
    | some id => return some id
    | none => throw s!"{field} must be a UUID"

/-- `normalize_optional_timestamp_filter` -/
def normalizeOptionalTimestampFilter (lib : FilterLib) (field : String) (value : Option String) :
    Except String (Option ℤ) := do
  match ← normalizeText field value maxRequestTimeFilterBytes with
  | none => return none
  | some value =>
    match lib.parseTimestamp value with
    | some t => return some t
    | none => throw s!"{field} must be an RFC3339 timestamp"

/-- `normalize_request_time_range` -/
def normalizeRequestTimeRange (lib : FilterLib) (since til : Option String) :
    Except String (Option ℤ × Option ℤ) := do
  let since ← normalizeOptionalTimestampFilter lib "since" since
  let til ← normalizeOptionalTimestampFilter lib "until" til
  if since.any fun since => til.any fun til => til < since then
    throw "since must be earlier than or equal to until"
  return (since, til)

/-- `normalize_optional_duration_filter` -/
def normalizeOptionalDurationFilter (field : String) (value : Option ℤ) : Except String (Option ℤ) :=
  if value.any fun value => value < 0 then .error s!"{field} must be greater than or equal to 0"
  else .ok value

/-- `normalize_request_duration_range` -/
def normalizeRequestDurationRange (minMs maxMs : Option ℤ) : Except String (Option ℤ × Option ℤ) := do
  let minMs ← normalizeOptionalDurationFilter "min_duration_ms" minMs
  let maxMs ← normalizeOptionalDurationFilter "max_duration_ms" maxMs
  if minMs.any fun minMs => maxMs.any fun maxMs => maxMs < minMs then
    throw "min_duration_ms must be less than or equal to max_duration_ms"
  return (minMs, maxMs)

/-- `request_list_filters` -/
def requestListFilters (lib : FilterLib) (query : RequestListQuery) : Except String RequestListFilters := do
  let q ← normalizeRequestSearch query.q
  let (since, til) ← normalizeRequestTimeRange lib query.since query.til
  let (minDurationMs, maxDurationMs) ← normalizeRequestDurationRange query.minDurationMs query.maxDurationMs
  let upstreamHost ← normalizeRequestFilter "upstream_host" query.upstreamHost
  let model ← normalizeRequestFilter "model" query.model
  let requestKind ← normalizeRequestKindFilter query.requestKind
  let sessionId ← normalizeOptionalUuidFilter lib "session_id" query.sessionId
  let apiKeyHash ← normalizeRequestFilter "api_key_hash" query.apiKeyHash
  let statusClass ← normalizeStatusClassFilter query.statusClass
  return {
    q, status := query.status, statusClass, hasError := query.hasError, upstreamHost, model, requestKind,
    sessionId, apiKeyHash, since, til, minDurationMs, maxDurationMs,
    limit := query.limit, offset := query.offset }

/-! ### The statement -/

section
open Ternary

/-- `$n IS NULL OR …` -/
def orUnasked {β : Type} (value : Option β) (c : Ternary) : Ternary := disj (isNull value) c

/-- `status BETWEEN lo AND hi` -/
def between (status : Option ℤ) (lo hi : ℤ) : Ternary :=
  conj (status.map fun status => lo ≤ status) (status.map fun status => status ≤ hi)

/-- `error IS NOT NULL OR status >= 400` -/
def TraceRequest.failed (r : TraceRequest) : Ternary :=
  disj (notNull r.error) (r.status.map fun status => 400 ≤ status)

/-- `error IS NULL AND (status IS NULL OR status < 400)` -/
def TraceRequest.unfailed (r : TraceRequest) : Ternary :=
  conj (isNull r.error) (disj (isNull r.status) (r.status.map fun status => status < 400))

/-- The condition of `has_error`. -/
def hasErrorCondition (hasError : Option Bool) (r : TraceRequest) : Ternary :=
  orUnasked hasError
    (disj (conj (hasError.map fun b => b == true) r.failed) (conj (hasError.map fun b => b == false) r.unfailed))

/-- The condition of `status_class`. -/
def statusClassCondition (statusClass : Option String) (status : Option ℤ) : Ternary :=
  let asked (name : String) : Ternary := statusClass.map fun asked => asked == name
  orUnasked statusClass (anyOf [
    conj (asked "no_status") (isNull status),
    conj (asked "1xx") (between status 100 199),
    conj (asked "2xx") (between status 200 299),
    conj (asked "3xx") (between status 300 399),
    conj (asked "4xx") (between status 400 499),
    conj (asked "5xx") (between status 500 599),
    allOf [asked "other", notNull status,
      disj (status.map fun status => status < 100) (status.map fun status => 599 < status)]])

/-- `STATUS_CLASS_SQL` -/
def statusClass (status : Option ℤ) : String :=
  firstOf [
    (isNull status, "no_status"),
    (between status 100 199, "1xx"),
    (between status 200 299, "2xx"),
    (between status 300 399, "3xx"),
    (between status 400 499, "4xx"),
    (between status 500 599, "5xx")] "other"

/-- A comparison of a column with what was asked for. -/
def askedAbout {β γ : Type} (value : Option β) (p : γ → β → Bool) (column : Option γ) : Ternary :=
  orUnasked value (compare p column value)

/-- The condition of `LIST_REQUESTS_SQL`; `none` is an error about the pattern of the search. -/
def RequestListFilters.condition (fold : Char → List Char) (f : RequestListFilters) (r : TraceRequest) :
    Option Ternary :=
  (Query.requestFound fold f.q r.upstreamUrl r.model r.requestKind).map fun found => allOf [
    some found,
    askedAbout f.status (· == ·) r.status,
    askedAbout f.upstreamHost (· == ·) r.upstreamHost,
    askedAbout f.model (· == ·) r.model,
    askedAbout f.requestKind (· == ·) (some r.requestKind),
    askedAbout f.sessionId (· == ·) r.sessionId,
    askedAbout f.apiKeyHash (· == ·) r.apiKeyHash,
    askedAbout f.since (fun startedAt since => since ≤ startedAt) (some r.startedAt),
    askedAbout f.til (fun startedAt til => startedAt ≤ til) (some r.startedAt),
    askedAbout f.minDurationMs (fun ms minMs => minMs ≤ ms) r.durationMs,
    askedAbout f.maxDurationMs (fun ms maxMs => ms ≤ maxMs) r.durationMs,
    hasErrorCondition f.hasError r,
    statusClassCondition f.statusClass r.status]

end

/-- `ORDER BY started_at DESC, id DESC` -/
def newestFirst : Ranking TraceRequest where
  le a b := decide (b.startedAt < a.startedAt) || decide (a.startedAt = b.startedAt) && decide (b.id ≤ a.id)
  trans a b c := by
    simp only [Bool.or_eq_true, Bool.and_eq_true, decide_eq_true_eq]
    omega
  total a b := by
    simp only [Bool.or_eq_true, Bool.and_eq_true, decide_eq_true_eq]
    omega

section
variable (fold : Char → List Char) (rows : List TraceRequest)

/-- The rows that a list goes through, all pages together. -/
def selectedRequests (f : RequestListFilters) : Option (List TraceRequest) :=
  (Ternary.select (f.condition fold) rows).map newestFirst.sort

/-- `list_requests` behind the API. -/
def requestList (lib : FilterLib) (query : RequestListQuery) :
    Except String (Option (Listing TraceRequest)) := do
  let f ← requestListFilters lib query
  return (selectedRequests fold rows f).map fun kept => listRequests kept f.limit f.offset

/-- The query is accepted and selects `n` rows. -/
def Selects (lib : FilterLib) (query : RequestListQuery) (n : ℕ) : Prop :=
  ∃ f kept, requestListFilters lib query = .ok f ∧ selectedRequests fold rows f = some kept ∧ kept.length = n

end

/-! ### The conditions under the filter -/

section
open Ternary

@[simp] theorem holds_askedAbout_none {β γ : Type} (p : γ → β → Bool) (column : Option γ) :
    holds (askedAbout none p column) = true := by
  rw [askedAbout, orUnasked, holds_disj]
  rfl

@[simp] theorem holds_askedAbout_some {β γ : Type} (value : β) (p : γ → β → Bool) (column : Option γ) :
    holds (askedAbout (some value) p column) = column.any fun a => p a value := by
  rw [askedAbout, orUnasked, holds_given, holds_compare]
  rfl

theorem TraceRequest.holds_failed (r : TraceRequest) :
    holds r.failed = (r.error.isSome || r.status.any fun status => decide (400 ≤ status)) := by
  rw [TraceRequest.failed, holds_disj, holds_notNull, holds_map]

/-- Nothing falls between the two halves. -/
theorem TraceRequest.holds_unfailed (r : TraceRequest) : holds r.unfailed = !holds r.failed := by
  rw [TraceRequest.holds_failed, TraceRequest.unfailed]
  simp only [holds_conj, holds_disj, holds_isNull, holds_map]
  cases hstatus : r.status with
  | none => cases r.error <;> rfl
  | some n =>
    have hlt : decide (n < 400) = !decide (400 ≤ n) := by
      rw [← decide_not]
      exact decide_eq_decide.mpr not_le.symm
    rw [Option.any_some, Option.any_some, hlt]
    cases r.error <;> simp

@[simp] theorem holds_hasErrorCondition_none (r : TraceRequest) : holds (hasErrorCondition none r) = true := by
  rw [hasErrorCondition, orUnasked, holds_disj]
  rfl

@[simp] theorem holds_hasErrorCondition_some (hasError : Bool) (r : TraceRequest) :
    holds (hasErrorCondition (some hasError) r) = (holds r.failed == hasError) := by
  rw [hasErrorCondition, orUnasked, holds_given]
  cases hasError with
  | false => simp [r.holds_unfailed]
  | true => simp

@[simp] theorem holds_statusClassCondition_none (status : Option ℤ) :
    holds (statusClassCondition none status) = true := by
  rw [statusClassCondition, orUnasked, holds_disj]
  rfl

theorem statusClass_some (n : ℤ) : statusClass (some n) =
    if 100 ≤ n ∧ n ≤ 199 then "1xx"
    else if 200 ≤ n ∧ n ≤ 299 then "2xx"
    else if 300 ≤ n ∧ n ≤ 399 then "3xx"
    else if 400 ≤ n ∧ n ≤ 499 then "4xx"
    else if 500 ≤ n ∧ n ≤ 599 then "5xx"
    else "other" := by
  simp only [statusClass, firstOf, between, List.find?_cons, List.find?_nil, holds_conj, Option.map_some,
    holds_some, holds_isNull, Option.isNone_some, ← Bool.decide_and]
  split_ifs <;> simp [*]

theorem statusClass_mem (status : Option ℤ) : statusClass status ∈ statusClassFilters := by
  cases status with
  | none => decide
  | some n =>
    rw [statusClass_some]
    split_ifs <;> simp [statusClassFilters]

/-- The classes are told apart the same way twice. -/
theorem holds_statusClassCondition_some {name : String} (hname : name ∈ statusClassFilters)
    (status : Option ℤ) :
    holds (statusClassCondition (some name) status) = (statusClass status == name) := by
  rw [statusClassCondition, orUnasked, holds_given]
  cases status with
  | none => fin_cases hname <;> decide
  | some n =>
    rw [statusClass_some]
    simp only [holds_anyOf, List.any_cons, List.any_nil, holds_conj, holds_allOf, List.all_cons, List.all_nil,
      holds_disj, Option.map_some, holds_some, holds_isNull, holds_notNull, between, Option.isNone_some,
      Option.isSome_some, ← Bool.decide_and, ← Bool.decide_or]
    fin_cases hname
    all_goals
      simp only [String.reduceBEq, Bool.false_and, Bool.true_and, Bool.false_or, Bool.or_false, Bool.and_true]
      split_ifs <;> simp <;> omega

end

/-! ### What is selected -/

section
variable {fold : Char → List Char} {rows : List TraceRequest} {lib : FilterLib} {query : RequestListQuery}

/-- Without a search the conditions cannot fail. -/
theorem select_condition {f : RequestListFilters} (hq : f.q = none) {p : TraceRequest → Bool}
    (hp : ∀ r, (f.condition fold r).map Ternary.holds = some (p r)) (rows : List TraceRequest) :
    Ternary.select (f.condition fold) rows = some (rows.filter p) := by
  have hfound (r : TraceRequest) :
      f.condition fold r = some (((f.condition fold r).getD none)) := by
    rw [RequestListFilters.condition, hq]
    rfl
  rw [Ternary.select_eq hfound]
  congr 2
  funext r
  have := hp r
  rw [hfound r, Option.map_some, Option.some_inj] at this
  exact this

theorem selects_of {f : RequestListFilters} (hf : requestListFilters lib query = .ok f) (hq : f.q = none)
    {p : TraceRequest → Bool} (hp : ∀ r, (f.condition fold r).map Ternary.holds = some (p r)) :
    Selects fold rows lib query (rows.countP p) := by
  refine ⟨f, newestFirst.sort (rows.filter p), hf, ?_, ?_⟩
  · rw [selectedRequests, select_condition hq hp, Option.map_some]
  · rw [(newestFirst.sort_perm _).length_eq, ← List.countP_eq_length_filter]

end

end Llmtrace.Storage
