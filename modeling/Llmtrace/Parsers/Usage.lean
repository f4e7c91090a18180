import Llmtrace.Parsers.Assembly

/-! The token counts of a response and what they cost (`observe` and `finish` of `parsers/response.rs`,
    `pricing.rs`).

    Every usage object of a response overwrites the counts it reports. Anthropic counts its input
    without the tokens read from and written to the cache: `finish` adds them, and `estimate_microusd`
    takes them off again to price them at their own rates. The sums are 64-bit on both sides, so one
    that does not fit has to make the usage incomplete. -/

namespace Llmtrace.Parsers
open Schemes ResponseParser

/-! ### The usage objects of a response -/

/-- What `ResponseDetails::parse` is given: a document, or the events of a stream. -/
inductive Response where
  | document (value : Json)
  | stream (events : List (SseEvent × ℕ))

section
variable (serialize : Json → String)

/-- `ResponseDetails::parse` -/
def Response.parse (kind : RequestKind) : Response → ResponseDetails
  | .document value => parseDocument serialize kind value
  | .stream events => parseStream serialize kind events

end

/-- The usage object of a value, where it has one. -/
def usageObject (value : Json) : List Json := ((value.get "usage").filter Json.isObject).toList

/-- The usage objects that the type of an event leads to. -/
def typedUsages (value : Json) : List Json :=
  match eventType value with
  | .messageStart => usageObject (value.field "message")
  | .responseFinal | .responseCreated => usageObject (value.field "response")
  | _ => []

/-- The usage objects of an event. -/
def eventUsages (value : Json) : List Json := usageObject value ++ typedUsages value

/-- All usage objects, in the order in which they are observed. -/
def Response.usages : Response → List Json
  | .document value => usageObject value
  | .stream events => (events.filterMap eventJson).flatMap eventUsages

/-! ### The counts of a usage object -/

/-- The input tokens, under either name. -/
def inputCount (usage : Json) : Option ℤ :=
  (count usage "input_tokens").or (count usage "prompt_tokens")

/-- The output tokens, under either name. -/
def outputCount (usage : Json) : Option ℤ :=
  (count usage "output_tokens").or (count usage "completion_tokens")

/-- The input tokens read from the cache, under any of their names. -/
def cachedCount (usage : Json) : Option ℤ :=
  ((count usage "cache_read_input_tokens").or
    ((Json.pointer ["input_tokens_details", "cached_tokens"] usage).bind nonnegative)).or
    ((Json.pointer ["prompt_tokens_details", "cached_tokens"] usage).bind nonnegative)

/-- The input tokens written to the cache. -/
def createdCount (usage : Json) : Option ℤ := count usage "cache_creation_input_tokens"

/-- The last count that was reported. -/
def lastCount (counted : Json → Option ℤ) (usages : List Json) : Option ℤ :=
  (usages.filterMap counted).getLast?

/-- The counts of a response as its usage objects report them, before `finish`. -/
def reported (usages : List Json) : TokenUsage where
  inputTokens := lastCount inputCount usages
  outputTokens := lastCount outputCount usages
  cachedInputTokens := lastCount cachedCount usages
  cacheCreationInputTokens := lastCount createdCount usages

theorem lastCount_snoc (counted : Json → Option ℤ) (usages : List Json) (usage : Json) :
    lastCount counted (usages ++ [usage]) = update (lastCount counted usages) (counted usage) := by
  unfold lastCount update
  rw [List.filterMap_append]
  cases h : counted usage with
  | none => simp [h]
  | some n => simp [h]

theorem foldl_observe (usages : List Json) : usages.foldl TokenUsage.observe {} = reported usages := by
  induction usages using List.reverseRecOn with
  | nil => rfl
  | append_singleton usages usage ih =>
    rw [List.foldl_append, ih, List.foldl_cons, List.foldl_nil]
    simp only [reported, lastCount_snoc]
    rfl

/-- A token count: not negative, and a 64-bit integer. -/
def IsCount (n : ℤ) : Prop := 0 ≤ n ∧ n < 2 ^ 63

theorem nonnegative_isCount {value : Json} {n : ℤ} (h : nonnegative value = some n) : IsCount n := by
  unfold nonnegative at h
  rw [Option.filter_eq_some_iff] at h
  obtain ⟨hread, hsign⟩ := h
  refine ⟨of_decide_eq_true hsign, ?_⟩
  cases value with
  | int m =>
    simp only [Json.asI64] at hread
    split at hread
    · rename_i hm
      cases hread
      exact hm.2
    · cases hread
  | _ => cases hread

theorem count_isCount {usage : Json} {key : String} {n : ℤ} (h : count usage key = some n) :
    IsCount n := by
  obtain ⟨value, -, hvalue⟩ := Option.bind_eq_some_iff.mp h
  exact nonnegative_isCount hvalue

theorem pointer_isCount {usage : Json} {path : List String} {n : ℤ}
    (h : (Json.pointer path usage).bind nonnegative = some n) : IsCount n := by
  obtain ⟨value, -, hvalue⟩ := Option.bind_eq_some_iff.mp h
  exact nonnegative_isCount hvalue

theorem lastCount_isCount {counted : Json → Option ℤ}
    (hcounted : ∀ usage n, counted usage = some n → IsCount n) {usages : List Json} {n : ℤ}
    (h : lastCount counted usages = some n) : IsCount n := by
  obtain ⟨usage, -, husage⟩ := List.mem_filterMap.mp (List.mem_of_getLast? h)
  exact hcounted usage n husage

theorem inputCount_isCount (usage : Json) (n : ℤ) (h : inputCount usage = some n) : IsCount n := by
  rcases Option.or_eq_some_iff.mp h with h | ⟨-, h⟩
  · exact count_isCount h
  · exact count_isCount h

theorem outputCount_isCount (usage : Json) (n : ℤ) (h : outputCount usage = some n) : IsCount n := by
  rcases Option.or_eq_some_iff.mp h with h | ⟨-, h⟩
  · exact count_isCount h
  · exact count_isCount h

theorem cachedCount_isCount (usage : Json) (n : ℤ) (h : cachedCount usage = some n) : IsCount n := by
  rcases Option.or_eq_some_iff.mp h with h | ⟨-, h⟩
  · rcases Option.or_eq_some_iff.mp h with h | ⟨-, h⟩
    · exact count_isCount h
    · exact pointer_isCount h
  · exact pointer_isCount h

/-- The counts a usage has. -/
def TokenUsage.counts (usage : TokenUsage) : List ℤ :=
  [usage.inputTokens, usage.outputTokens, usage.cachedInputTokens,
    usage.cacheCreationInputTokens].filterMap id

theorem TokenUsage.mem_counts {usage : TokenUsage} {n : ℤ} : n ∈ usage.counts ↔
    usage.inputTokens = some n ∨ usage.outputTokens = some n ∨ usage.cachedInputTokens = some n ∨
      usage.cacheCreationInputTokens = some n := by
  simp [TokenUsage.counts, eq_comm]

theorem reported_counts (usages : List Json) : ∀ n ∈ (reported usages).counts, IsCount n := by
  intro n hn
  rcases TokenUsage.mem_counts.mp hn with h | h | h | h
  · exact lastCount_isCount inputCount_isCount h
  · exact lastCount_isCount outputCount_isCount h
  · exact lastCount_isCount cachedCount_isCount h
  · exact lastCount_isCount (fun _ _ => count_isCount) h

/-- An absent count is zero. -/
theorem getD_isCount {n : Option ℤ} (h : ∀ m, n = some m → IsCount m) : IsCount (n.getD 0) := by
  cases n with
  | none => exact ⟨le_refl _, by decide⟩
  | some m => exact h m rfl

/-! ### What does not touch the counts -/

/-- The parsers differ in calls, texts and the marks of the end only. -/
structure Alike (p q : ResponseParser) : Prop where
  kind : q.kind = p.kind
  usage : q.details.usage = p.details.usage
  offset : q.details.firstOutputOffset = p.details.firstOutputOffset

theorem Alike.refl (p : ResponseParser) : Alike p p := ⟨rfl, rfl, rfl⟩

theorem Alike.trans {p q r : ResponseParser} (h : Alike p q) (h' : Alike q r) : Alike p r :=
  ⟨h'.kind.trans h.kind, h'.usage.trans h.usage, h'.offset.trans h.offset⟩

section
variable (serialize : Json → String)

theorem tool_alike (p : ResponseParser) (key : String) (value : Json) (append : Bool) :
    Alike p (p.tool serialize key value append) := by
  unfold tool
  split
  · exact ⟨rfl, rfl, rfl⟩
  · exact ⟨rfl, rfl, rfl⟩

theorem toolAll_alike (append : Bool) : ∀ (values : List (String × Json)) (p : ResponseParser),
    Alike p (p.toolAll serialize values append)
  | [], p => .refl p
  | e :: values, p => (tool_alike serialize p e.1 e.2 append).trans (toolAll_alike append values _)

theorem collectTools_alike (p : ResponseParser) (value : Json) :
    Alike p (p.collectTools serialize value) :=
  ((toolAll_alike serialize false _ p).trans (toolAll_alike serialize false _ _)).trans
    (toolAll_alike serialize false _ _)

theorem textDelta_alike (p : ResponseParser) (key : TextKey) (text : Option String) :
    Alike p (p.textDelta key text).1 := by
  unfold textDelta
  split
  · exact .refl p
  · split
    · exact .refl p
    · exact ⟨rfl, rfl, rfl⟩

theorem choiceEvent_alike (p : ResponseParser) (choice : Json) :
    Alike p (p.choiceEvent serialize choice).1 := by
  simp only [choiceEvent]
  split
  · exact (textDelta_alike p _ _).trans (toolAll_alike serialize true _ _)
  · exact toolAll_alike serialize true _ p

theorem choiceEvents_alike : ∀ (choices : List Json) (p : ResponseParser),
    Alike p (p.choiceEvents serialize choices).1
  | [], p => .refl p
  | choice :: choices, p =>
    (choiceEvent_alike serialize p choice).trans (choiceEvents_alike choices _)

/-! ### One event -/

/-- Model, error and status leave the counts as they are. -/
theorem details_observe (d : ResponseDetails) (value : Json) :
    (d.observe value).usage = (usageObject value).foldl TokenUsage.observe d.usage ∧
      (d.observe value).firstOutputOffset = d.firstOutputOffset := by
  simp only [ResponseDetails.observe, usageObject]
  -- Neither the error nor the status touches the counts.
  generalize (value.get "error").filter (fun error => !error.isNull) = error
  generalize (value.get "status").bind Json.asStr = status
  rcases (value.get "usage").filter Json.isObject with _ | usage
  · rcases error with _ | error <;> rcases status with _ | status
    · exact ⟨rfl, rfl⟩
    · simp only
      split <;> exact ⟨rfl, rfl⟩
    · exact ⟨rfl, rfl⟩
    · simp only
      split <;> exact ⟨rfl, rfl⟩
  · rcases error with _ | error <;> rcases status with _ | status
    · exact ⟨rfl, rfl⟩
    · simp only
      split <;> exact ⟨rfl, rfl⟩
    · exact ⟨rfl, rfl⟩
    · simp only
      split <;> exact ⟨rfl, rfl⟩

/-- The parser went on to `q`, and the usage objects are what it met on its way. -/
structure Counted (p q : ResponseParser) (usages : List Json) : Prop where
  kind : q.kind = p.kind
  usage : q.details.usage = usages.foldl TokenUsage.observe p.details.usage
  offset : q.details.firstOutputOffset = p.details.firstOutputOffset

theorem Alike.counted {p q : ResponseParser} (h : Alike p q) : Counted p q [] :=
  ⟨h.kind, h.usage, h.offset⟩

theorem Counted.trans {p q r : ResponseParser} {usages usages' : List Json}
    (h : Counted p q usages) (h' : Counted q r usages') : Counted p r (usages ++ usages') where
  kind := h'.kind.trans h.kind
  usage := by rw [h'.usage, h.usage, List.foldl_append]
  offset := h'.offset.trans h.offset

theorem Counted.alike {p q r : ResponseParser} {usages : List Json} (h : Counted p q usages)
    (h' : Alike q r) : Counted p r usages := by
  have := h.trans h'.counted
  rwa [List.append_nil] at this

theorem observe_counted (p : ResponseParser) (value : Json) :
    Counted p (p.observe value) (usageObject value) :=
  ⟨rfl, (details_observe p.details value).1, (details_observe p.details value).2⟩

theorem typedEvent_counted (p : ResponseParser) (value : Json) :
    Counted p (p.typedEvent serialize value).1 (typedUsages value) := by
  simp only [typedEvent, typedUsages]
  cases eventType value with
  | messageStart => exact observe_counted p _
  | responseCreated => exact observe_counted p _
  | messageStop => exact Alike.counted ⟨rfl, rfl, rfl⟩
  | other => exact Alike.counted (.refl p)
  | responseFinal =>
    have hread := (observe_counted p (value.field "response")).alike
      (collectTools_alike serialize _ (value.field "response"))
    simp only
    split
    · exact hread.alike ⟨rfl, rfl, rfl⟩
    · exact hread.alike ⟨rfl, rfl, rfl⟩
  | outputTextDelta => exact (textDelta_alike p _ _).counted
  | outputTextDone =>
    simp only
    split
    · exact Alike.counted (.refl p)
    · exact Alike.counted ⟨rfl, rfl, rfl⟩
  | outputItem =>
    simp only
    split
    · exact (tool_alike serialize p _ _ _).counted
    · exact Alike.counted (.refl p)
  | functionArgumentsDelta =>
    simp only
    exact (tool_alike serialize p _ _ _).counted
  | contentBlockStart =>
    simp only
    split
    · exact (tool_alike serialize p _ _ _).counted
    · exact (textDelta_alike p _ _).counted
  | contentBlockDelta =>
    simp only
    split
    · rename_i arguments _
      have htool := tool_alike serialize (p.textDelta (textKey (indexOf value "index") 0)
        ((value.field "delta").field "text").asStr).1 (anthropicKey (indexOf value "index"))
        (argumentsOnly arguments) true
      exact ((textDelta_alike p _ _).trans htool).counted
    · exact (textDelta_alike p _ _).counted

/-- The parser after an event, but for the offset of the first output. -/
def handled (p : ResponseParser) (value : Json) : ResponseParser × Bool :=
  let p := p.observe value
  let p := { p with finalUsageSeen := p.finalUsageSeen || isFinalUsage value }
  let (p, generated) := p.typedEvent serialize value
  let (p, generated') := p.choiceEvents serialize (choicesOf value)
  (p, generated || generated')

theorem event_eq (p : ResponseParser) (value : Json) (offset : ℕ) :
    p.event serialize value offset =
      if (handled serialize p value).2 && (handled serialize p value).1.details.firstOutputOffset.isNone
      then { (handled serialize p value).1 with
        details := { (handled serialize p value).1.details with firstOutputOffset := some offset } }
      else (handled serialize p value).1 := rfl

theorem handled_counted (p : ResponseParser) (value : Json) :
    Counted p (handled serialize p value).1 (eventUsages value) := by
  have hseen := (observe_counted p value).alike
    (⟨rfl, rfl, rfl⟩ : Alike (p.observe value) { p.observe value with
      finalUsageSeen := (p.observe value).finalUsageSeen || isFinalUsage value })
  exact (hseen.trans (typedEvent_counted serialize _ value)).alike (choiceEvents_alike serialize _ _)

theorem event_usage (p : ResponseParser) (value : Json) (offset : ℕ) :
    (p.event serialize value offset).kind = p.kind ∧
      (p.event serialize value offset).details.usage =
        (eventUsages value).foldl TokenUsage.observe p.details.usage := by
  have h := handled_counted serialize p value
  rw [event_eq]
  split
  · exact ⟨h.kind, h.usage⟩
  · exact ⟨h.kind, h.usage⟩

/-! ### A whole response -/

theorem stream_usage : ∀ (events : List (SseEvent × ℕ)) (p : ResponseParser),
    (events.foldl (streamEvent serialize) p).kind = p.kind ∧
      (events.foldl (streamEvent serialize) p).details.usage =
        ((events.filterMap eventJson).flatMap eventUsages).foldl TokenUsage.observe p.details.usage
  | [], _ => ⟨rfl, rfl⟩
  | (.json value, offset) :: events, p => by
      obtain ⟨hkind, husage⟩ := stream_usage events (p.event serialize value offset)
      obtain ⟨hkind', husage'⟩ := event_usage serialize p value offset
      refine ⟨hkind.trans hkind', ?_⟩
      simp only [List.filterMap_cons, eventJson, List.flatMap_cons, List.foldl_append, ← husage']
      exact husage
  | (.done, _) :: events, p => stream_usage events { p with terminal := true }
  | (.empty, _) :: events, p => stream_usage events p
  | (.other, _) :: events, p => stream_usage events p

/-- The parser of a response when it comes to `finish`. -/
def Response.parser (kind : RequestKind) : Response → ResponseParser
  | .document value =>
    { (ResponseParser.observe { kind } value).collectTools serialize value with
      terminal := true, finalUsageSeen := true }
  | .stream events =>
    let p := events.foldl (streamEvent serialize) { kind }
    { p with details := { p.details with streamComplete := some p.terminal } }

theorem parse_eq (kind : RequestKind) (response : Response) :
    response.parse serialize kind = (response.parser serialize kind).finish := by
  cases response <;> rfl

/-- What comes to `finish` is what was reported last. -/
theorem parser_usage (kind : RequestKind) (response : Response) :
    (response.parser serialize kind).kind = kind ∧
      (response.parser serialize kind).details.usage = reported response.usages := by
  rw [← foldl_observe]
  cases response with
  | document value =>
    have h := (observe_counted { kind } value).alike (collectTools_alike serialize _ value)
    exact ⟨h.kind, h.usage⟩
  | stream events => exact stream_usage serialize events { kind }

/-! ### The total input of `finish` -/

/-- The input with the cached tokens that a usage reports. -/
def TokenUsage.withCache (usage : TokenUsage) (input : ℤ) : ℤ :=
  input + usage.cachedInputTokens.getD 0 + usage.cacheCreationInputTokens.getD 0

/-- The sum of the three counts, where it is a 64-bit integer. -/
theorem totalInput_eq {usage : TokenUsage} (h : ∀ n ∈ usage.counts, IsCount n) :
    totalInput usage = usage.inputTokens.bind fun input => i64Fits (usage.withCache input) := by
  have hcreated : 0 ≤ usage.cacheCreationInputTokens.getD 0 :=
    (getD_isCount fun m hm => h m (TokenUsage.mem_counts.mpr (by simp [hm]))).1
  unfold totalInput
  congr 1
  funext input
  -- a first sum that is too large is no smaller with the third count
  by_cases hsum : input + usage.cachedInputTokens.getD 0 < 2 ^ 63
  · rw [i64Fits, if_pos hsum]
    rfl
  · have hlarge : ¬usage.withCache input < 2 ^ 63 := by
      unfold TokenUsage.withCache
      omega
    rw [i64Fits, if_neg hsum, i64Fits, if_neg hlarge]
    rfl

theorem finish_usage (p : ResponseParser) :
    p.finish.usage = if p.kind = .anthropicMessages
      then { p.details.usage with inputTokens := totalInput p.details.usage } else p.details.usage := rfl

theorem finish_usageComplete {p : ResponseParser} (h : p.finish.usageComplete = true) :
    p.finish.usage.inputTokens.isSome ∧ p.finish.usage.outputTokens.isSome := by
  have hboth : (((p.terminal && p.finalUsageSeen) && p.finish.usage.inputTokens.isSome) &&
      p.finish.usage.outputTokens.isSome) = true := h
  rw [Bool.and_eq_true, Bool.and_eq_true] at hboth
  exact ⟨hboth.1.2, hboth.2⟩

theorem finish_counts {p : ResponseParser} (h : ∀ n ∈ p.details.usage.counts, IsCount n) :
    ∀ n ∈ p.finish.usage.counts, IsCount n := by
  rw [finish_usage]
  split
  · intro n hn
    rcases TokenUsage.mem_counts.mp hn with hinput | hn
    · -- a sum of counts that fits
      have htotal := totalInput_eq h
      rw [show totalInput p.details.usage = some n from hinput, eq_comm, Option.bind_eq_some_iff] at htotal
      obtain ⟨input, hraw, hfits⟩ := htotal
      have hraw := h input (TokenUsage.mem_counts.mpr (.inl hraw))
      have hcached : IsCount (p.details.usage.cachedInputTokens.getD 0) :=
        getD_isCount fun m hm => h m (TokenUsage.mem_counts.mpr (by simp [hm]))
      have hcreated : IsCount (p.details.usage.cacheCreationInputTokens.getD 0) :=
        getD_isCount fun m hm => h m (TokenUsage.mem_counts.mpr (by simp [hm]))
      unfold i64Fits at hfits
      split at hfits
      · cases hfits
        unfold IsCount TokenUsage.withCache at *
        omega
      · cases hfits
    · exact h n (TokenUsage.mem_counts.mpr (.inr hn))
  · exact h

end

/-! ### Prices -/

/-- USD per million tokens. -/
structure ModelPrice where
  input : Float
  output : Float
  cacheRead : Option Float
  cacheWrite : Option Float

namespace ModelPrice

/-- `ModelPrice::valid` -/
def valid (price : ModelPrice) : Bool :=
  ([some price.input, some price.output, price.cacheRead, price.cacheWrite].filterMap id).all
    fun rate => rate.isFinite && decide (0.0 ≤ rate) && decide (rate ≤ 1000000.0)

/-- `n as f64` -/
def ofI64 (n : ℤ) : Float := (Int64.ofInt n).toFloat

/-- `i64::checked_sub` -/
def checkedSub (a b : ℤ) : Option ℤ := if -2 ^ 63 ≤ a - b ∧ a - b < 2 ^ 63 then some (a - b) else none

/-- The input that is neither read from the cache nor written to it. -/
def uncachedInput (usage : TokenUsage) : Option ℤ :=
  usage.inputTokens.bind fun input =>
    (checkedSub input (usage.cachedInputTokens.getD 0)).bind fun rest =>
      checkedSub rest (usage.cacheCreationInputTokens.getD 0)

/-- The cost of tokens of the four kinds, rounded once. -/
def charge (price : ModelPrice) (uncached output cached written : ℤ) : Option ℤ :=
  (if 0 < cached then price.cacheRead else some 0.0).bind fun cacheRead =>
    (if 0 < written then price.cacheWrite else some 0.0).bind fun cacheWrite =>
      let cost := (ofI64 uncached * price.input + ofI64 output * price.output +
        ofI64 cached * cacheRead + ofI64 written * cacheWrite).round
      if cost.isFinite && decide (cost < ofI64 (2 ^ 63 - 1)) then some cost.toInt64.toInt else none

/-- `estimate_microusd` -/
def estimateMicrousd (price : ModelPrice) (usage : TokenUsage) : Option ℤ :=
  usage.inputTokens.bind fun input =>
    usage.outputTokens.bind fun output =>
      let cached := usage.cachedInputTokens.getD 0
      let written := usage.cacheCreationInputTokens.getD 0
      if !price.valid || [input, output, cached, written].any (fun count => decide (count < 0)) then none
      else
        (uncachedInput usage).bind fun uncached =>
          if uncached < 0 then none else price.charge uncached output cached written

/-- More cached tokens than input is no usage to be priced. -/
theorem estimateMicrousd_overcached (price : ModelPrice) {usage : TokenUsage} {input : ℤ}
    (hinput : usage.inputTokens = some input)
    (h : input < usage.cachedInputTokens.getD 0 + usage.cacheCreationInputTokens.getD 0) :
    price.estimateMicrousd usage = none := by
  unfold estimateMicrousd
  rw [hinput, Option.bind_some]
  cases usage.outputTokens with
  | none => rfl
  | some output =>
    rw [Option.bind_some]
    simp only
    split
    · rfl
    · rw [Option.bind_eq_none_iff]
      intro uncached huncached
      -- where both differences are there, the second is negative
      rw [uncachedInput, hinput, Option.bind_some, Option.bind_eq_some_iff] at huncached
      obtain ⟨rest, hrest, hdiff⟩ := huncached
      unfold checkedSub at hrest hdiff
      split at hrest
      · split at hdiff
        · cases hrest
          cases hdiff
          rw [if_pos (by omega)]
        · cases hdiff
      · cases hrest

/-- What was added to the input comes off again. -/
theorem uncachedInput_total {usage : TokenUsage} {input : ℤ} (hcount : IsCount input)
    (hcached : 0 ≤ usage.cachedInputTokens.getD 0) (hcreated : 0 ≤ usage.cacheCreationInputTokens.getD 0)
    (hfits : usage.withCache input < 2 ^ 63) (h : usage.inputTokens = some (usage.withCache input)) :
    uncachedInput usage = some input := by
  unfold IsCount at hcount
  unfold TokenUsage.withCache at hfits h
  rw [uncachedInput, h, Option.bind_some, checkedSub, if_pos (by omega), Option.bind_some, checkedSub,
    if_pos (by omega), Option.some.injEq]
  omega

theorem estimateMicrousd_eq (price : ModelPrice) {usage : TokenUsage} {input output uncached : ℤ}
    (hcounts : ∀ n ∈ usage.counts, IsCount n) (hinput : usage.inputTokens = some input)
    (houtput : usage.outputTokens = some output) (huncached : uncachedInput usage = some uncached)
    (hsign : 0 ≤ uncached) :
    price.estimateMicrousd usage = if price.valid
      then price.charge uncached output (usage.cachedInputTokens.getD 0)
        (usage.cacheCreationInputTokens.getD 0)
      else none := by
  have h1 := (hcounts input (TokenUsage.mem_counts.mpr (.inl hinput))).1
  have h2 := (hcounts output (TokenUsage.mem_counts.mpr (.inr (.inl houtput)))).1
  have h3 : 0 ≤ usage.cachedInputTokens.getD 0 :=
    (getD_isCount fun m hm => hcounts m (TokenUsage.mem_counts.mpr (by simp [hm]))).1
  have h4 : 0 ≤ usage.cacheCreationInputTokens.getD 0 :=
    (getD_isCount fun m hm => hcounts m (TokenUsage.mem_counts.mpr (by simp [hm]))).1
  have hany : ([input, output, usage.cachedInputTokens.getD 0,
      usage.cacheCreationInputTokens.getD 0].any fun count => decide (count < 0)) = false := by
    simp [not_lt.mpr h1, not_lt.mpr h2, not_lt.mpr h3, not_lt.mpr h4]
  unfold estimateMicrousd
  rw [hinput, houtput, huncached]
  simp only [Option.bind_some, hany, Bool.or_false, if_neg (not_lt.mpr hsign)]
  cases price.valid <;> rfl

end ModelPrice

/-! ### Counts in, counts out -/

/-- The details of a response of Anthropic, against the counts that its usage objects report. -/
structure Normalised (price : ModelPrice) (raw : TokenUsage) (details : ResponseDetails) : Prop where
  total : ∀ input, raw.inputTokens = some input → raw.withCache input < 2 ^ 63 →
    details.usage = { raw with inputTokens := some (raw.withCache input) }
  overflow : (∀ input, raw.inputTokens = some input → 2 ^ 63 ≤ raw.withCache input) →
    details.usage = { raw with inputTokens := none } ∧ details.usageComplete = false
  recovered : details.usageComplete = true → ∃ input output,
    raw.inputTokens = some input ∧ raw.outputTokens = some output ∧ 0 ≤ input ∧
      ModelPrice.uncachedInput details.usage = some input ∧
      price.estimateMicrousd details.usage = if price.valid
        then price.charge input output (raw.cachedInputTokens.getD 0)
          (raw.cacheCreationInputTokens.getD 0)
        else none

theorem finish_normalised (price : ModelPrice) {p : ResponseParser} (hkind : p.kind = .anthropicMessages)
    (h : ∀ n ∈ p.details.usage.counts, IsCount n) : Normalised price p.details.usage p.finish := by
  have husage : p.finish.usage = { p.details.usage with inputTokens := totalInput p.details.usage } := by
    rw [finish_usage, if_pos hkind]
  have htotal := totalInput_eq h
  refine ⟨?_, ?_, ?_⟩
  · intro input hraw hfits
    rw [husage, htotal, hraw, Option.bind_some, i64Fits, if_pos hfits]
  · intro hlarge
    have hnone : totalInput p.details.usage = none := by
      rw [htotal, Option.bind_eq_none_iff]
      intro input hraw
      rw [i64Fits, if_neg (not_lt.mpr (hlarge input hraw))]
    refine ⟨by rw [husage, hnone], ?_⟩
    by_contra hcomplete
    have := (finish_usageComplete (Bool.of_not_eq_false hcomplete)).1
    rw [husage, hnone] at this
    cases this
  · intro hcomplete
    obtain ⟨hin, hout⟩ := finish_usageComplete hcomplete
    obtain ⟨output, hout⟩ := Option.isSome_iff_exists.mp hout
    obtain ⟨sum, hin⟩ := Option.isSome_iff_exists.mp hin
    rw [husage, htotal, Option.bind_eq_some_iff] at hin
    obtain ⟨input, hraw, hfits⟩ := hin
    unfold i64Fits at hfits
    split at hfits
    · rename_i hlt
      have hcount := h input (TokenUsage.mem_counts.mpr (.inl hraw))
      have hcached : IsCount (p.details.usage.cachedInputTokens.getD 0) :=
        getD_isCount fun m hm => h m (TokenUsage.mem_counts.mpr (by simp [hm]))
      have hcreated : IsCount (p.details.usage.cacheCreationInputTokens.getD 0) :=
        getD_isCount fun m hm => h m (TokenUsage.mem_counts.mpr (by simp [hm]))
      have hinput : p.finish.usage.inputTokens = some (p.details.usage.withCache input) := by
        rw [husage, htotal, hraw, Option.bind_some, i64Fits, if_pos hlt]
      have hsame : p.finish.usage.cachedInputTokens = p.details.usage.cachedInputTokens ∧
          p.finish.usage.cacheCreationInputTokens = p.details.usage.cacheCreationInputTokens := by
        rw [husage]
        exact ⟨rfl, rfl⟩
      have hcache : p.finish.usage.withCache input = p.details.usage.withCache input := by
        rw [TokenUsage.withCache, hsame.1, hsame.2]
        rfl
      have huncached : ModelPrice.uncachedInput p.finish.usage = some input := by
        refine ModelPrice.uncachedInput_total hcount ?_ ?_ ?_ ?_
        · rw [hsame.1]
          exact hcached.1
        · rw [hsame.2]
          exact hcreated.1
        · rw [hcache]
          exact hlt
        · rw [hcache]
          exact hinput
      refine ⟨input, output, hraw, by rw [husage] at hout; exact hout, hcount.1, huncached, ?_⟩
      rw [← hsame.1, ← hsame.2]
      exact ModelPrice.estimateMicrousd_eq price (finish_counts h) hinput hout huncached hcount.1
    · cases hfits

/-- Counts stay counts; what `finish` adds for Anthropic is what the estimate takes off; and a usage
    with more cached tokens than input has no estimate. -/
theorem usage_normalised (serialize : Json → String) (kind : RequestKind) (response : Response)
    (price : ModelPrice) :
    (∀ n ∈ (response.parse serialize kind).usage.counts, IsCount n) ∧
      (kind = .anthropicMessages →
        Normalised price (reported response.usages) (response.parse serialize kind)) ∧
      ∀ input, (response.parse serialize kind).usage.inputTokens = some input →
        input < (response.parse serialize kind).usage.cachedInputTokens.getD 0 +
          (response.parse serialize kind).usage.cacheCreationInputTokens.getD 0 →
        price.estimateMicrousd (response.parse serialize kind).usage = none := by
  obtain ⟨hkind, husage⟩ := parser_usage serialize kind response
  have hcounts : ∀ n ∈ (response.parser serialize kind).details.usage.counts, IsCount n := by
    rw [husage]
    exact reported_counts response.usages
  rw [parse_eq]
  refine ⟨finish_counts hcounts, ?_, ?_⟩
  · intro hanthropic
    rw [← husage]
    exact finish_normalised price (hkind.trans hanthropic) hcounts
  · intro input hinput hover
    exact price.estimateMicrousd_overcached hinput hover

end Llmtrace.Parsers
