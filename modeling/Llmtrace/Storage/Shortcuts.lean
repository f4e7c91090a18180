import Llmtrace.Storage.Facets

/-! The lists of recent errors, of slow requests and of the requests of a session (`recent_error_requests`,
    `slow_requests` and `list_session_requests` in `requests.rs`). Each is a statement of its own, with
    fewer conditions than the list of requests.

    They are pages of that list all the same: of the rows that it selects for the errors, the durations
    or the session, in its order, except that the slow requests are ordered by their duration. -/

namespace Llmtrace.Storage
open Schemes Ternary

/-- What `recent_error_requests` returns. -/
structure RecentErrors where
  sinceHours : ℤ
  startedAtGte : ℤ
  limit : ℤ
  hasMore : Bool
  items : List TraceRequest

/-- What `slow_requests` returns. -/
structure SlowRequests where
  sinceHours : ℤ
  startedAtGte : ℤ
  minDurationMs : ℤ
  listing : Listing TraceRequest

section
variable (rows : List TraceRequest)

/-- The rows of `RECENT_ERROR_REQUESTS_SQL`, before the limit. -/
def recentErrorRows (cutoff : ℤ) : List TraceRequest :=
  newestFirst.sort (rows.filter fun r => holds (conj (some (decide (cutoff ≤ r.startedAt))) r.failed))

/-- `recent_error_requests` -/
def recentErrorRequests (now : ℤ) (hours limit : Option ℤ) : RecentErrors :=
  let window := recentErrorWindow.resolve hours limit
  let fetched := (recentErrorRows rows (window.cutoff now)).take (window.limit + 1).toNat
  { sinceHours := window.sinceHours
    startedAtGte := window.cutoff now
    limit := window.limit
    hasMore := decide (window.limit.toNat < fetched.length)
    items := fetched.take window.limit.toNat }

/-- `ORDER BY duration_ms DESC, started_at DESC, id DESC`; no duration is missing. -/
def slowestFirst : Ranking TraceRequest := newestFirst.byWeight fun r => (r.durationMs.getD 0).toNat

/-- The rows of `SLOW_REQUESTS_SQL`, before the limit. -/
def slowRows (cutoff minDurationMs : ℤ) : List TraceRequest :=
  slowestFirst.sort (rows.filter fun r =>
    holds (conj (some (decide (cutoff ≤ r.startedAt))) (r.durationMs.map fun ms => minDurationMs ≤ ms)))

/-- `slow_requests` -/
def slowRequests (now : ℤ) (hours minDurationMs limit offset : Option ℤ) : SlowRequests :=
  let sinceHours := boundedHours hours (24 * 90)
  let cutoff := now - sinceHours * 60 * minute
  let minDurationMs := max (minDurationMs.getD 1000) 0
  { sinceHours := sinceHours
    startedAtGte := cutoff
    minDurationMs := minDurationMs
    listing := listRequests (slowRows rows cutoff minDurationMs) (limit.or (some 50)) offset }

/-- `none` for a session that does not exist. -/
def listSessionRequests (sessions : List ℕ) (sessionId : ℕ) (limit offset : Option ℤ) :
    Option (Listing TraceRequest) :=
  if sessions.contains sessionId then
    some (listRequests
      (newestFirst.sort (rows.filter fun r => holds (r.sessionId.map fun id => id == sessionId))) limit offset)
  else none

end

/-! ### As pages of the list -/

section
variable {lib : FilterLib} {fold : Char → List Char} {rows : List TraceRequest} {since : String} {cutoff : ℤ}

theorem requestList_eq {query : RequestListQuery} {f : RequestListFilters} (hf : requestListFilters lib query = .ok f)
    (hq : f.q = none) {p : TraceRequest → Bool} (hp : ∀ r, (f.condition fold r).map holds = some (p r)) :
    requestList fold rows lib query = .ok (some (listRequests (newestFirst.sort (rows.filter p)) f.limit f.offset)) := by
  rw [requestList, hf]
  change Except.ok ((selectedRequests fold rows f).map _) = _
  rw [selectedRequests, select_condition hq hp]
  rfl

/-- An error page is the first page of the list. -/
theorem recent_errors_page (hsince : normalizeOptionalTimestampFilter lib "since" (some since) = .ok (some cutoff))
    (limit : Option ℤ) :
    requestList fold rows lib { hasError := some true, since := some since, limit } =
      .ok (some (listRequests (recentErrorRows rows cutoff) limit none)) := by
  have hf : requestListFilters lib { hasError := some true, since := some since, limit } =
      .ok { linkFilters cutoff none none none none none (some true) with limit } := by
    simp only [requestListFilters, normalizeRequestTimeRange, hsince]
    rfl
  refine (requestList_eq hf rfl fun r => ?_)
  refine (link_condition none none none none none (some true) r).trans ?_
  simp

theorem session_page {id : String} {sessionId : ℕ}
    (hid : normalizeOptionalUuidFilter lib "session_id" (some id) = .ok (some sessionId))
    (limit offset : Option ℤ) :
    requestList fold rows lib { sessionId := some id, limit, offset } = .ok (some (listRequests
      (newestFirst.sort (rows.filter fun r => holds (r.sessionId.map fun id => id == sessionId))) limit offset)) := by
  have hf : requestListFilters lib { sessionId := some id, limit, offset } =
      .ok { q := none, status := none, statusClass := none, hasError := none, upstreamHost := none, model := none,
            requestKind := none, sessionId := some sessionId, apiKeyHash := none, since := none, til := none,
            minDurationMs := none, maxDurationMs := none, limit, offset } := by
    simp only [requestListFilters, hid]
    rfl
  refine requestList_eq hf rfl fun r => ?_
  simp [RequestListFilters.condition, requestFound_none]

theorem slow_rows (hsince : normalizeOptionalTimestampFilter lib "since" (some since) = .ok (some cutoff))
    {minDurationMs : ℤ} (hmin : 0 ≤ minDurationMs) :
    ∃ f kept, requestListFilters lib { minDurationMs := some minDurationMs, since := some since } = .ok f ∧
      selectedRequests fold rows f = some kept ∧ (slowRows rows cutoff minDurationMs).Perm kept := by
  have hf : requestListFilters lib { minDurationMs := some minDurationMs, since := some since } =
      .ok { linkFilters cutoff none none none none none none with minDurationMs := some minDurationMs } := by
    have hduration : normalizeRequestDurationRange (some minDurationMs) none = .ok (some minDurationMs, none) := by
      simp [normalizeRequestDurationRange, normalizeOptionalDurationFilter, not_lt.mpr hmin]
      rfl
    simp only [requestListFilters, normalizeRequestTimeRange, hsince, hduration]
    rfl
  refine ⟨_, _, hf, ?_, (slowestFirst.sort_perm _).trans (newestFirst.sort_perm _).symm⟩
  rw [selectedRequests, select_condition rfl fun r => ?_]
  · rfl
  · simp [RequestListFilters.condition, linkFilters, requestFound_none]

/-- A page of a listing, and whether rows are left behind it. -/
theorem listRequests_page {α : Type} (rows : List α) (limit offset : Option ℤ) :
    (listRequests rows limit offset).items = (rows.drop (Page.fromQuery limit offset).offset.toNat).take
      (Page.fromQuery limit offset).limit.toNat ∧
    (listRequests rows limit offset).page = (Page.fromQuery limit offset).info
      (decide ((Page.fromQuery limit offset).offset.toNat + (Page.fromQuery limit offset).limit.toNat <
        rows.length)) := by
  have hfetch : ((Page.fromQuery limit offset).limit + 1).toNat =
      (Page.fromQuery limit offset).limit.toNat + 1 := by
    simp only [Page.fromQuery, clamp]
    omega
  constructor
  · simp only [listRequests, selectRows, Page.fetchLimit, hfetch, List.take_take]
    congr 1
    omega
  · simp only [listRequests, selectRows, Page.fetchLimit, hfetch, List.length_take, List.length_drop]
    congr 1
    exact decide_eq_decide.mpr (by omega)

/-- The order of the slow requests, by what they are sorted by. -/
def SlowestFirst (a b : TraceRequest) : Prop :=
  ∃ ms ms', a.durationMs = some ms ∧ b.durationMs = some ms' ∧
    (ms' < ms ∨ ms' = ms ∧ (b.startedAt < a.startedAt ∨ b.startedAt = a.startedAt ∧ b.id ≤ a.id))

theorem mem_slowRows {minDurationMs : ℤ} {r : TraceRequest} (h : r ∈ slowRows rows cutoff minDurationMs) :
    ∃ ms, r.durationMs = some ms ∧ minDurationMs ≤ ms := by
  have hkept := (List.mem_filter.mp ((slowestFirst.sort_perm _).mem_iff.mp h)).2
  rw [holds_conj, holds_map, Bool.and_eq_true] at hkept
  simpa using (Option.any_eq_true _ _).mp hkept.2

/-- No duration of a slow request is negative, so the weights order them as the durations do. -/
theorem slowRows_ordered {minDurationMs : ℤ} (hmin : 0 ≤ minDurationMs) :
    (slowRows rows cutoff minDurationMs).Pairwise SlowestFirst := by
  refine (slowestFirst.sort_pairwise _).imp_of_mem fun {a b} ha hb hle => ?_
  obtain ⟨ms, hms, hge⟩ := mem_slowRows ha
  obtain ⟨ms', hms', hge'⟩ := mem_slowRows hb
  refine ⟨ms, ms', hms, hms', ?_⟩
  simp only [slowestFirst, Ranking.byWeight, newestFirst, hms, hms', Option.getD_some, Bool.or_eq_true,
    Bool.and_eq_true, decide_eq_true_eq] at hle
  omega

theorem recent_errors_listing (now : ℤ) (hours limit : Option ℤ) :
    let window := recentErrorWindow.resolve hours limit
    let recent := recentErrorRequests rows now hours limit
    let listing := listRequests (recentErrorRows rows (window.cutoff now)) (some window.limit) none
    listing.items = recent.items ∧ listing.page.hasMore = recent.hasMore := by
  intro window recent listing
  have hlimit : (Page.fromQuery (some window.limit) none).limit = window.limit := by
    simp only [Page.fromQuery, clamp, Option.getD_some, window, WindowSpec.resolve, recentErrorWindow]
    omega
  have hoffset : (Page.fromQuery (some window.limit) none).offset = 0 := rfl
  simp only [listing, recent, listRequests, recentErrorRequests, selectRows, Page.fetchLimit, Page.info, hlimit,
    hoffset, Int.toNat_zero, List.drop_zero]
  exact ⟨rfl, rfl⟩

end

/-- CORRECT: the recent errors are a page of the list of requests; the slow requests are a page of the rows
    of that list, ordered by duration from the longest down; and the requests of a session are the list's
    pages. -/
theorem shortcuts_are_pages (lib : FilterLib) (fold : Char → List Char) (rows : List TraceRequest) (now : ℤ)
    (since : String) :
    (∀ hours limit, normalizeOptionalTimestampFilter lib "since" (some since) =
        .ok (some ((recentErrorWindow.resolve hours limit).cutoff now)) →
      ∃ listing, requestList fold rows lib {
          hasError := some true, since := some since, limit := some (recentErrorWindow.resolve hours limit).limit } =
            .ok (some listing) ∧
        listing.items = (recentErrorRequests rows now hours limit).items ∧
        listing.page.hasMore = (recentErrorRequests rows now hours limit).hasMore) ∧
    (∀ hours minDurationMs limit offset,
      let slow := slowRequests rows now hours minDurationMs limit offset
      normalizeOptionalTimestampFilter lib "since" (some since) = .ok (some slow.startedAtGte) →
      ∃ (f : RequestListFilters) (kept ordered : List TraceRequest),
        requestListFilters lib { minDurationMs := some slow.minDurationMs, since := some since } = .ok f ∧
        selectedRequests fold rows f = some kept ∧ ordered.Perm kept ∧ ordered.Pairwise SlowestFirst ∧
        let page := Page.fromQuery (limit.or (some 50)) offset
        slow.listing.items = (ordered.drop page.offset.toNat).take page.limit.toNat ∧
        slow.listing.page = page.info (decide (page.offset.toNat + page.limit.toNat < ordered.length))) ∧
    ∀ sessions id sessionId limit offset, sessions.contains sessionId = true →
      normalizeOptionalUuidFilter lib "session_id" (some id) = .ok (some sessionId) →
      requestList fold rows lib { sessionId := some id, limit, offset } =
        .ok (listSessionRequests rows sessions sessionId limit offset) := by
  refine ⟨fun hours limit hsince => ?_, fun hours minDurationMs limit offset hsince => ?_, ?_⟩
  · exact ⟨_, recent_errors_page hsince _, recent_errors_listing now hours limit⟩
  · obtain ⟨f, kept, hf, hkept, hperm⟩ := slow_rows hsince (le_max_right _ _)
    exact ⟨f, kept, _, hf, hkept, hperm, slowRows_ordered (le_max_right _ _),
      listRequests_page _ (limit.or (some 50)) offset⟩
  · intro sessions id sessionId limit offset hsession hid
    rw [session_page hid, listSessionRequests, if_pos hsession]

theorem shortcuts_are_pages_sample : ∃ listing,
    requestList Query.asciiFold sampleRequests sampleFilterLib {
        hasError := some true, since := some "2026-07-01T00:00:00Z", limit := some 50 } = .ok (some listing) ∧
      listing.items.map TraceRequest.id = [3, 2] := by
  obtain ⟨listing, hlisting, hitems, -⟩ := (shortcuts_are_pages sampleFilterLib Query.asciiFold sampleRequests
    1782950400000000 "2026-07-01T00:00:00Z").1 none none (by rfl)
  refine ⟨listing, hlisting, ?_⟩
  rw [hitems]
  rfl

end Llmtrace.Storage
