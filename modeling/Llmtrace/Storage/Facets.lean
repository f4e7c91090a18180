import Llmtrace.Storage.Requests

/-! The facets beside the list of requests (`request_facets` in `requests.rs`): for each value of a column
    the number of requests that have it, from the most frequent one down.

    A facet is a link to the list. A facet shows the number of the requests that its link selects, and a
    value without a facet has no more requests than those that have one. -/

namespace Llmtrace.Storage
open Schemes

/-- `WindowSpec` -/
structure WindowSpec where
  defaultLimit : ℤ
  maxLimit : ℤ

/-- `REQUEST_FACET_WINDOW` -/
def requestFacetWindow : WindowSpec := ⟨25, 100⟩

/-- `RECENT_ERROR_WINDOW` -/
def recentErrorWindow : WindowSpec := ⟨50, 200⟩

/-- `Window` -/
structure Window where
  sinceHours : ℤ
  limit : ℤ

/-- `WindowSpec::resolve` -/
def WindowSpec.resolve (spec : WindowSpec) (hours limit : Option ℤ) : Window :=
  ⟨boundedHours hours (24 * 90), clamp (limit.getD spec.defaultLimit) 1 spec.maxLimit⟩

/-- `Window::cutoff` -/
def Window.cutoff (window : Window) (now : ℤ) : ℤ := now - window.sinceHours * 60 * minute

/-- A value with the number of its requests. -/
structure Facet (β : Type) where
  value : β
  requestCount : ℕ
  deriving DecidableEq

/-- The rows of the view from an instant on. -/
def rowsSince (rows : List TraceRequest) (cutoff : ℤ) : List TraceRequest :=
  rows.filter fun r => decide (cutoff ≤ r.startedAt)

/-- `true` before `false` -/
def trueFirst : Ranking Bool where
  le a b := a || !b
  trans a b c := by revert a b c; decide
  total a b := by revert a b; decide

section
variable {β : Type} [DecidableEq β]

/-- `SELECT value, COUNT(*) … GROUP BY value ORDER BY … LIMIT limit`, for the values of the rows. -/
def countedFacets (r : Ranking β) (limit : ℕ) (values : List β) : List (Facet β) :=
  (ranked id values r limit).map fun v => ⟨v, (group id values v).length⟩

/-- `ORDER BY request_count DESC, value ASC` -/
def rankedFacets (r : Ranking β) (limit : ℕ) (values : List β) : List (Facet β) :=
  countedFacets (r.byWeight fun v => (group id values v).length) limit values

end

/-- What `request_facets` returns. -/
structure RequestFacets where
  models : List (Facet String)
  upstreamHosts : List (Facet String)
  requestKinds : List (Facet String)
  statuses : List (Facet ℤ)
  statusClasses : List (Facet String)
  errorStates : List (Facet Bool)

/-- `column IS NOT NULL AND column <> ''` -/
def filled (column : Option String) : Option String := column.filter fun text => text ≠ ""

/-- `error IS NOT NULL OR COALESCE(status >= 400, false)` -/
def TraceRequest.errorState (r : TraceRequest) : Bool :=
  r.error.isSome || (r.status.map fun status => decide (400 ≤ status)).getD false

/-- Texts are ordered by the collation of the database. -/
def requestFacets (collation : Ranking String) (rows : List TraceRequest) (now : ℤ)
    (hours limit : Option ℤ) : RequestFacets :=
  let window := requestFacetWindow.resolve hours limit
  let rows := rowsSince rows (window.cutoff now)
  { models := rankedFacets collation window.limit.toNat (rows.filterMap fun r => filled r.model)
    upstreamHosts := rankedFacets collation window.limit.toNat (rows.filterMap fun r => filled r.upstreamHost)
    requestKinds :=
      rankedFacets collation window.limit.toNat (rows.filterMap fun r => filled (some r.requestKind))
    statuses := rankedFacets (.ascending ℤ) window.limit.toNat (rows.filterMap TraceRequest.status)
    statusClasses := rankedFacets collation window.limit.toNat (rows.map fun r => statusClass r.status)
    errorStates := countedFacets trueFirst rows.length (rows.map TraceRequest.errorState) }

/-! ### Facets as links -/

/-- Each facet shows the number of the requests that its link selects, if the API takes its value as it
    is. -/
def Linked {β : Type} (fold : Char → List Char) (rows : List TraceRequest) (lib : FilterLib)
    (link : β → RequestListQuery) (taken : β → Prop) (facets : List (Facet β)) : Prop :=
  ∀ facet ∈ facets, taken facet.value → Selects fold rows lib (link facet.value) facet.requestCount

/-- A value without a facet has no more requests than those with one, of which there are `limit`. -/
def Leading {β : Type} [DecidableEq β] (limit : ℕ) (values : List β) (facets : List (Facet β)) : Prop :=
  ∀ v ∈ values, (∃ facet ∈ facets, facet.value = v) ∨
    facets.length = limit ∧ ∀ facet ∈ facets, values.count v ≤ facet.requestCount

section
variable {β : Type} [DecidableEq β] {values : List β} {r : Ranking β} {limit : ℕ}

theorem group_id_length (v : β) : (group id values v).length = values.count v := by
  rw [group, List.count, List.countP_eq_length_filter]
  rfl

theorem mem_countedFacets {facet : Facet β} (h : facet ∈ countedFacets r limit values) :
    facet.value ∈ values ∧ facet.requestCount = values.count facet.value := by
  obtain ⟨v, hv, rfl⟩ := List.mem_map.mp h
  obtain ⟨row, hrow, rfl⟩ := mem_groupKeys.mp (mem_of_ranked hv)
  exact ⟨hrow, group_id_length row⟩

theorem length_countedFacets_sum (h : values.length ≤ limit) :
    ((countedFacets r limit values).map Facet.requestCount).sum = values.length := by
  have hfew : (groupKeys id values).length ≤ limit := by
    have := (List.dedup_sublist (values.map id)).length_le
    rw [List.length_map] at this
    exact this.trans h
  have hsum := @sum_ranked _ _ _ _ _ id values r limit (fun _ => 1) hfew
  rw [sum_one] at hsum
  rw [countedFacets, List.map_map, ← hsum]
  exact congrArg List.sum (List.map_congr_left fun v _ => (sum_one _).symm)

theorem leading_rankedFacets : Leading limit values (rankedFacets r limit values) := by
  intro v hv
  have hkey : v ∈ groupKeys id values := mem_groupKeys.mpr ⟨v, hv, rfl⟩
  rcases ranked_or_before hkey with hshown | ⟨hfull, hbefore⟩
  · exact .inl ⟨_, List.mem_map_of_mem hshown, rfl⟩
  · refine .inr ⟨(List.length_map _).trans hfull, fun facet hfacet => ?_⟩
    obtain ⟨shown, hshown, rfl⟩ := List.mem_map.mp hfacet
    have := hbefore shown hshown
    simp only [Ranking.byWeight, Bool.or_eq_true, Bool.and_eq_true, decide_eq_true_eq, group_id_length] at this
    rw [group_id_length]
    change values.count v ≤ values.count shown
    omega

end

/-- The rows with a value of a column, counted in the list of the values. -/
theorem count_filterMap {β : Type} [DecidableEq β] (rows : List TraceRequest) (cutoff : ℤ)
    (column : TraceRequest → Option β) (v : β) :
    ((rowsSince rows cutoff).filterMap column).count v =
      rows.countP fun r => decide (cutoff ≤ r.startedAt) && column r == some v := by
  rw [List.count, List.countP_filterMap, rowsSince, List.countP_filter]
  refine List.countP_congr fun r _ => ?_
  cases column r <;> simp [and_comm]

section
variable {fold : Char → List Char} {rows : List TraceRequest} {lib : FilterLib} {cutoff : ℤ}

theorem linked_of {β : Type} [DecidableEq β] {link : β → RequestListQuery} {taken : β → Prop}
    {facets : List (Facet β)} {column : TraceRequest → Option β}
    (hfacets : ∀ facet ∈ facets, facet.value ∈ (rowsSince rows cutoff).filterMap column ∧
      facet.requestCount = ((rowsSince rows cutoff).filterMap column).count facet.value)
    (hlink : ∀ v, (∃ r, column r = some v) → taken v → ∃ f, requestListFilters lib (link v) = .ok f ∧ f.q = none ∧
      ∀ r, (f.condition fold r).map Ternary.holds =
        some (decide (cutoff ≤ r.startedAt) && column r == some v)) :
    Linked fold rows lib link taken facets := by
  intro facet hfacet htaken
  obtain ⟨hvalue, hcount⟩ := hfacets facet hfacet
  obtain ⟨r, -, hr⟩ := List.mem_filterMap.mp hvalue
  obtain ⟨f, hf, hq, hp⟩ := hlink facet.value ⟨r, hr⟩ htaken
  rw [hcount, count_filterMap]
  exact selects_of hf hq hp

theorem requestFound_none (upstreamUrl : String) (model : Option String) (requestKind : String) :
    Query.requestFound fold none upstreamUrl model requestKind = some true := rfl

/-- The filters of a link: an instant, and what the facet is about. -/
def linkFilters (cutoff : ℤ) (model upstreamHost requestKind : Option String) (status : Option ℤ)
    (statusClass : Option String) (hasError : Option Bool) : RequestListFilters where
  q := none
  status := status
  statusClass := statusClass
  hasError := hasError
  upstreamHost := upstreamHost
  model := model
  requestKind := requestKind
  sessionId := none
  apiKeyHash := none
  since := some cutoff
  til := none
  minDurationMs := none
  maxDurationMs := none
  limit := none
  offset := none

theorem link_accepted {since : String}
    (hsince : normalizeOptionalTimestampFilter lib "since" (some since) = .ok (some cutoff))
    {model upstreamHost requestKind statusClass : Option String}
    (hmodel : normalizeRequestFilter "model" model = .ok model)
    (hhost : normalizeRequestFilter "upstream_host" upstreamHost = .ok upstreamHost)
    (hkind : normalizeRequestKindFilter requestKind = .ok requestKind)
    (hclass : normalizeStatusClassFilter statusClass = .ok statusClass) (status : Option ℤ)
    (hasError : Option Bool) :
    requestListFilters lib { model, upstreamHost, requestKind, status, statusClass, hasError, since := some since } =
      .ok (linkFilters cutoff model upstreamHost requestKind status statusClass hasError) := by
  simp only [requestListFilters, normalizeRequestTimeRange, hsince, hmodel, hhost, hkind, hclass]
  rfl

theorem link_condition (model upstreamHost requestKind : Option String) (status : Option ℤ)
    (statusClass : Option String) (hasError : Option Bool) (r : TraceRequest) :
    ((linkFilters cutoff model upstreamHost requestKind status statusClass hasError).condition fold r).map
        Ternary.holds =
      some (decide (cutoff ≤ r.startedAt) &&
        (Ternary.holds (askedAbout model (· == ·) r.model) &&
        Ternary.holds (askedAbout upstreamHost (· == ·) r.upstreamHost) &&
        Ternary.holds (askedAbout requestKind (· == ·) (some r.requestKind)) &&
        Ternary.holds (askedAbout status (· == ·) r.status) &&
        Ternary.holds (statusClassCondition statusClass r.status) &&
        Ternary.holds (hasErrorCondition hasError r))) := by
  rw [RequestListFilters.condition, linkFilters, requestFound_none, Option.map_some, Option.map_some,
    Ternary.holds_allOf]
  simp only [List.all_cons, List.all_nil, Ternary.holds_some, holds_askedAbout_none, holds_askedAbout_some,
    Option.any_some, Bool.true_and, Bool.and_true]
  congr 1
  ac_rfl

theorem filled_eq_some {column : Option String} {v : String} : filled column = some v ↔ column = some v ∧ v ≠ "" := by
  rw [filled, Option.filter_eq_some_iff]
  simp

/-- For a value that is not empty, `filled` makes no difference. -/
theorem filled_beq {v : String} (hv : v ≠ "") (column : Option String) :
    (filled column == some v) = column.any (· == v) := by
  rw [Bool.eq_iff_iff, beq_iff_eq, filled_eq_some, Option.any_eq_true]
  simp [hv]

theorem errorState_eq (r : TraceRequest) : r.errorState = Ternary.holds r.failed := by
  rw [TraceRequest.holds_failed, TraceRequest.errorState]
  cases r.status <;> rfl

theorem statusClass_taken {name : String} (h : name ∈ statusClassFilters) :
    normalizeStatusClassFilter (some name) = .ok (some name) := by
  fin_cases h <;> rfl

end

/-- CORRECT: the number beside a facet is the number of the requests that its link selects, for the values
    that the API takes as they are, which status classes and error states always are; and no value
    without a facet has more requests than one with a facet. -/
theorem facets_agree_with_list (lib : FilterLib) (fold : Char → List Char) (collation : Ranking String)
    (rows : List TraceRequest) (now : ℤ) (hours limit : Option ℤ) (since : String)
    (hsince : normalizeOptionalTimestampFilter lib "since" (some since) =
      .ok (some ((requestFacetWindow.resolve hours limit).cutoff now))) :
    let facets := requestFacets collation rows now hours limit
    let size := (requestFacetWindow.resolve hours limit).limit.toNat
    let recent := rowsSince rows ((requestFacetWindow.resolve hours limit).cutoff now)
    (Linked fold rows lib (fun v => { model := some v, since := some since })
        (fun v => normalizeRequestFilter "model" (some v) = .ok (some v)) facets.models ∧
      Linked fold rows lib (fun v => { upstreamHost := some v, since := some since })
        (fun v => normalizeRequestFilter "upstream_host" (some v) = .ok (some v)) facets.upstreamHosts ∧
      Linked fold rows lib (fun v => { requestKind := some v, since := some since })
        (fun v => normalizeRequestKindFilter (some v) = .ok (some v)) facets.requestKinds ∧
      Linked fold rows lib (fun v => { status := some v, since := some since }) (fun _ => True)
        facets.statuses ∧
      Linked fold rows lib (fun v => { statusClass := some v, since := some since }) (fun _ => True)
        facets.statusClasses ∧
      Linked fold rows lib (fun v => { hasError := some v, since := some since }) (fun _ => True)
        facets.errorStates) ∧
    Leading size (recent.filterMap fun r => filled r.model) facets.models ∧
      Leading size (recent.filterMap fun r => filled r.upstreamHost) facets.upstreamHosts ∧
      Leading size (recent.filterMap fun r => filled (some r.requestKind)) facets.requestKinds ∧
      Leading size (recent.filterMap TraceRequest.status) facets.statuses ∧
      Leading size (recent.map fun r => statusClass r.status) facets.statusClasses ∧
      (facets.errorStates.map Facet.requestCount).sum = recent.length := by
  intro facets size recent
  refine ⟨⟨?_, ?_, ?_, ?_, ?_, ?_⟩, leading_rankedFacets, leading_rankedFacets, leading_rankedFacets,
    leading_rankedFacets, leading_rankedFacets, ?_⟩
  · refine linked_of (fun facet => mem_countedFacets) fun v ⟨r, hr⟩ htaken => ?_
    refine ⟨_, link_accepted hsince htaken rfl rfl rfl none none, rfl, fun r => ?_⟩
    simp [link_condition, filled_beq (filled_eq_some.mp hr).2]
  · refine linked_of (fun facet => mem_countedFacets) fun v ⟨r, hr⟩ htaken => ?_
    refine ⟨_, link_accepted hsince rfl htaken rfl rfl none none, rfl, fun r => ?_⟩
    simp [link_condition, filled_beq (filled_eq_some.mp hr).2]
  · refine linked_of (fun facet => mem_countedFacets) fun v ⟨r, hr⟩ htaken => ?_
    refine ⟨_, link_accepted hsince rfl rfl htaken rfl none none, rfl, fun r => ?_⟩
    simp [link_condition, filled_beq (filled_eq_some.mp hr).2]
  · refine linked_of (fun facet => mem_countedFacets) fun v _ _ => ?_
    refine ⟨_, link_accepted hsince rfl rfl rfl rfl (some v) none, rfl, fun r => ?_⟩
    cases hstatus : r.status <;> simp [link_condition, hstatus]
  · have hvalues : recent.map (fun r => statusClass r.status) =
        recent.filterMap fun r => some (statusClass r.status) := (congrFun List.filterMap_eq_map recent).symm
    refine linked_of (fun facet hfacet => hvalues ▸ mem_countedFacets hfacet) fun v ⟨r, hr⟩ _ => ?_
    have hclass : v ∈ statusClassFilters := Option.some.inj hr ▸ statusClass_mem r.status
    refine ⟨_, link_accepted hsince rfl rfl rfl (statusClass_taken hclass) none none, rfl, fun r => ?_⟩
    simp [link_condition, holds_statusClassCondition_some hclass]
  · have hvalues : recent.map TraceRequest.errorState =
        recent.filterMap fun r => some r.errorState := (congrFun List.filterMap_eq_map recent).symm
    refine linked_of (fun facet hfacet => hvalues ▸ mem_countedFacets hfacet) fun v _ _ => ?_
    refine ⟨_, link_accepted hsince rfl rfl rfl rfl none (some v), rfl, fun r => ?_⟩
    simp [link_condition, errorState_eq]
  · exact (length_countedFacets_sum (List.length_map _).le).trans (List.length_map _)

/-- A library that reads one time. -/
def sampleFilterLib : FilterLib where
  parseUuid _ := none
  parseTimestamp text := if text = "2026-07-01T00:00:00Z" then some 1782864000000000 else none

/-- A request that was answered with `status`. -/
def sampleRequest (id : ℕ) (status : Option ℤ) (model : String) : TraceRequest where
  id := id
  startedAt := 1782864000000000 + id
  upstreamUrl := "https://api.openai.com/v1/chat/completions"
  upstreamHost := some "api.openai.com"
  status := status
  error := if status.isSome then none else some "upstream timed out"
  requestKind := "openai_chat_completions"
  model := some model
  apiKeyHash := none
  sessionId := none
  durationMs := none
  bytesIn := 0
  bytesOut := 0
  requestBodyBytes := 0
  responseBodyBytes := 0

/-- Three requests with different ends. -/
def sampleRequests : List TraceRequest :=
  [sampleRequest 1 (some 200) "large", sampleRequest 2 (some 429) "small", sampleRequest 3 none "large"]

theorem facets_agree_with_list_sample :
    Selects Query.asciiFold sampleRequests sampleFilterLib { model := some "large", since := some "2026-07-01T00:00:00Z" } 2 ∧
      Selects Query.asciiFold sampleRequests sampleFilterLib { hasError := some true, since := some "2026-07-01T00:00:00Z" }
        2 := by
  have hfacets := (facets_agree_with_list sampleFilterLib Query.asciiFold (.ascending String) sampleRequests
    1782950400000000 none none "2026-07-01T00:00:00Z" (by rfl)).1
  refine ⟨hfacets.1 ⟨"large", 2⟩ ?_ (by rfl), hfacets.2.2.2.2.2 ⟨true, 2⟩ ?_ trivial⟩
  · decide +kernel
  · decide +kernel

end Llmtrace.Storage
