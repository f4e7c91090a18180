import Llmtrace.Proxy.ResponseCapture
import Llmtrace.Parsers.Usage
import Llmtrace.Schemes.Search

/-! The time to the first token of a streamed response (`build_trace` in `trace.rs`).

    The parser keeps the offset at which the first event with generated output ends, and the marks of
    the chunks say how much had been captured when. The first mark at or behind the offset is found by
    binary search. The decoder of the events is a parameter; it yields an event when it has consumed
    the bytes up to its end. -/

namespace Llmtrace.Trace
open Schemes Proxy Parsers ResponseParser

/-! ### Events with generated output -/

/-- The type of an event brings output. -/
def typedGenerates (value : Json) : Bool :=
  let delta := value.field "delta"
  let block := value.field "content_block"
  match eventType value with
  | .outputTextDelta | .functionArgumentsDelta => hasText delta.asStr
  | .contentBlockStart => !isToolUse block && hasText (block.field "text").asStr
  | .contentBlockDelta =>
    hasText (delta.field "text").asStr || hasText (delta.field "partial_json").asStr ||
      hasText (delta.field "thinking").asStr
  | _ => false

/-- A choice of a chunk brings output. -/
def choiceGenerates (choice : Json) : Bool :=
  let delta := choice.field "delta"
  (decide (indexOf choice "index" = 0) && hasText (delta.field "content").asStr) ||
    hasText (delta.field "refusal").asStr ||
    (choiceTools choice).any fun entry =>
      hasText ((Json.pointer ["function", "arguments"] entry.2).bind Json.asStr)

/-- The event carries generated output: text, arguments of a call, a refusal or a thought. -/
def generates : SseEvent → Bool
  | .json value => typedGenerates value || (choicesOf value).any choiceGenerates
  | _ => false

section
variable (serialize : Json → String)

theorem textDelta_generated (p : ResponseParser) (key : TextKey) (text : Option String) :
    (p.textDelta key text).2 = hasText text := by
  cases text with
  | none => rfl
  | some text =>
    simp only [textDelta, hasText, Option.any_some]
    split
    · rename_i hempty
      rw [hempty]
      rfl
    · rename_i hempty
      rw [Bool.not_eq_true] at hempty
      rw [hempty]
      rfl

theorem typedEvent_generated (p : ResponseParser) (value : Json) :
    (p.typedEvent serialize value).2 = typedGenerates value := by
  simp only [typedEvent, typedGenerates]
  cases eventType value with
  | messageStart | messageStop | responseCreated | other => rfl
  | responseFinal =>
    simp only
    split <;> rfl
  | outputTextDelta => exact textDelta_generated p _ _
  | outputTextDone =>
    simp only
    split <;> rfl
  | outputItem =>
    simp only
    split <;> rfl
  | functionArgumentsDelta =>
    simp only
    cases (value.field "delta").asStr with
    | none => rfl
    | some text => rfl
  | contentBlockStart =>
    simp only
    split
    · rename_i htool
      rw [htool]
      rfl
    · rename_i htool
      rw [Bool.not_eq_true] at htool
      rw [htool]
      exact textDelta_generated p _ _
  | contentBlockDelta =>
    simp only
    split
    · rename_i arguments harguments
      simp only [textDelta_generated, harguments]
      rfl
    · rename_i harguments
      have hnone : hasText none = false := rfl
      simp only [textDelta_generated, harguments, hnone, Bool.or_false]

theorem choiceEvent_generated (p : ResponseParser) (choice : Json) :
    (p.choiceEvent serialize choice).2 = choiceGenerates choice := by
  simp only [choiceEvent, choiceGenerates]
  split
  · rename_i hindex
    rw [decide_eq_true hindex, textDelta_generated, Bool.true_and]
  · rename_i hindex
    rw [decide_eq_false hindex, Bool.false_and]

theorem choiceEvents_generated : ∀ (choices : List Json) (p : ResponseParser),
    (p.choiceEvents serialize choices).2 = choices.any choiceGenerates
  | [], _ => rfl
  | choice :: choices, p => by
      rw [choiceEvents, List.any_cons, ← choiceEvent_generated serialize p choice,
        ← choiceEvents_generated choices (p.choiceEvent serialize choice).1]

theorem handled_generated (p : ResponseParser) (value : Json) :
    (handled serialize p value).2 = generates (.json value) := by
  simp only [handled, choiceEvents_generated, typedEvent_generated, generates]

/-! ### The offset of the first output -/

/-- The offset of the first output stays, once it is there. -/
theorem streamEvent_offset (p : ResponseParser) (e : SseEvent × ℕ) :
    (streamEvent serialize p e).details.firstOutputOffset =
      p.details.firstOutputOffset.or (if generates e.1 then some e.2 else none) := by
  obtain ⟨event, offset⟩ := e
  cases event with
  | empty | other | done => simp [streamEvent, generates]
  | json value =>
    have hoffset := (handled_counted serialize p value).offset
    rw [streamEvent, event_eq, handled_generated, hoffset]
    cases hp : p.details.firstOutputOffset with
    | some first => simp [hoffset, hp]
    | none => cases generates (.json value) <;> simp [hoffset, hp]

theorem stream_offset : ∀ (events : List (SseEvent × ℕ)) (p : ResponseParser),
    (events.foldl (streamEvent serialize) p).details.firstOutputOffset =
      p.details.firstOutputOffset.or ((events.find? fun e => generates e.1).map Prod.snd)
  | [], p => by simp
  | e :: events, p => by
      rw [List.foldl_cons, stream_offset events, streamEvent_offset, List.find?_cons]
      cases p.details.firstOutputOffset with
      | some first => rfl
      | none => cases generates e.1 <;> simp

theorem parse_offset (kind : RequestKind) (response : Response) :
    (response.parse serialize kind).firstOutputOffset = match response with
      | .document _ => none
      | .stream events => (events.find? fun e => generates e.1).map Prod.snd := by
  cases response with
  | document value =>
    have h := (observe_counted { kind } value).alike (collectTools_alike serialize _ value)
    exact h.offset
  | stream events =>
    have h := stream_offset serialize events { kind }
    rw [Option.none_or] at h
    exact h

end

/-! ### The marks of the chunks -/

/-- How much of the chunks is captured. -/
def capturedLength (limit : ℕ) (chunks : List (Bytes × ℤ)) : ℕ := min limit (joined chunks).length

/-- The chunks that leave a mark. -/
def nonemptyChunks (chunks : List (Bytes × ℤ)) : List (Bytes × ℤ) :=
  chunks.filter fun chunk => !chunk.1.isEmpty

theorem length_marks (limit : ℕ) : ∀ (chunks : List (Bytes × ℤ)) (before : ℕ),
    (marks limit before chunks).length = (nonemptyChunks chunks).length
  | [], _ => rfl
  | (data, elapsed) :: chunks, before => by
      unfold marks nonemptyChunks
      cases hempty : data.isEmpty with
      | true =>
        rw [if_pos rfl, List.filter_cons_of_neg (by simp [hempty])]
        exact length_marks limit chunks _
      | false =>
        rw [if_neg Bool.false_ne_true, List.filter_cons_of_pos (by simp [hempty]), List.length_cons,
          List.length_cons, length_marks limit chunks]
        rfl

/-- A mark stands where its chunk ended, and carries its time. -/
theorem mem_marks {limit : ℕ} : ∀ {chunks : List (Bytes × ℤ)} {before : ℕ} {m : ℕ × ℤ},
    m ∈ marks limit before chunks →
      min limit before ≤ m.1 ∧ m.1 ≤ min limit (before + (joined chunks).length) ∧
        ∃ chunk ∈ chunks, chunk.2 = m.2
  | [], _, _, h => by cases h
  | (data, elapsed) :: chunks, before, m, h => by
      have hlen : (joined ((data, elapsed) :: chunks)).length = data.length + (joined chunks).length := by
        simp [joined]
      rw [hlen]
      unfold marks at h
      split at h
      · obtain ⟨hlow, hhigh, chunk, hchunk, htime⟩ := mem_marks h
        exact ⟨hlow, by omega, chunk, List.mem_cons_of_mem _ hchunk, htime⟩
      · rcases List.mem_cons.mp h with rfl | h
        · exact ⟨by dsimp only; omega, by dsimp only; omega, _, List.mem_cons_self, rfl⟩
        · obtain ⟨hlow, hhigh, chunk, hchunk, htime⟩ := mem_marks h
          exact ⟨by omega, by omega, chunk, List.mem_cons_of_mem _ hchunk, htime⟩

/-- Marks go up in both components. -/
theorem marks_nondecreasing {limit : ℕ} : ∀ {chunks : List (Bytes × ℤ)} {before : ℕ},
    (chunks.Pairwise fun a b => a.2 ≤ b.2) →
    (marks limit before chunks).Pairwise fun a b => a.1 ≤ b.1 ∧ a.2 ≤ b.2
  | [], _, _ => .nil
  | (data, elapsed) :: chunks, before, h => by
      obtain ⟨hfirst, hrest⟩ := List.pairwise_cons.mp h
      unfold marks
      split
      · exact marks_nondecreasing hrest
      · refine List.pairwise_cons.mpr ⟨fun m hm => ?_, marks_nondecreasing hrest⟩
        obtain ⟨hlow, -, chunk, hchunk, htime⟩ := mem_marks hm
        exact ⟨hlow, htime ▸ hfirst chunk hchunk⟩

/-! ### The first chunk that completes an event -/

/-- `ttft_ms` of `build_trace` -/
def ttftMs (event : StreamEvent) (response : ResponseDetails) : Option ℤ :=
  event.ttftMs.or (response.firstOutputOffset.bind fun offset =>
    let index := partitionPoint (fun mark => decide (mark.1 < offset)) event.responseChunkTimings
    event.responseChunkTimings[index]?.map Prod.snd)

/-- The time of the first chunk with which the capture reaches `offset`, if that chunk has left one of
    the marks that are kept. -/
def IsFirstReach (limit : ℕ) (chunks : List (Bytes × ℤ)) (offset : ℕ) (time : Option ℤ) : Prop :=
  ∃ before data elapsed after, chunks = before ++ (data, elapsed) :: after ∧
    capturedLength limit before < offset ∧
    offset ≤ capturedLength limit (before ++ [(data, elapsed)]) ∧
    time = if (nonemptyChunks before).length < maxChunkTimings then some elapsed else none

/-- An offset within the capture is reached by some chunk. -/
theorem exists_reach {limit offset : ℕ} (hpos : 0 < offset) : ∀ {chunks : List (Bytes × ℤ)},
    offset ≤ capturedLength limit chunks →
    ∃ before chunk after, chunks = before ++ chunk :: after ∧ capturedLength limit before < offset ∧
      offset ≤ capturedLength limit (before ++ [chunk]) := by
  intro chunks
  induction chunks using List.reverseRecOn with
  | nil =>
    intro h
    unfold capturedLength joined at h
    rw [List.flatMap_nil, List.length_nil] at h
    omega
  | append_singleton chunks chunk ih =>
    intro h
    by_cases hbefore : capturedLength limit chunks < offset
    · exact ⟨chunks, chunk, [], rfl, hbefore, h⟩
    · obtain ⟨before, c, after, rfl, hlow, hhigh⟩ := ih (Nat.le_of_not_lt hbefore)
      exact ⟨before, c, after ++ [chunk], by simp, hlow, hhigh⟩

/-- The search finds the mark of that chunk. -/
theorem search_marks {limit offset : ℕ} {before after : List (Bytes × ℤ)} {data : Bytes} {elapsed : ℤ}
    (hlow : capturedLength limit before < offset)
    (hhigh : offset ≤ capturedLength limit (before ++ [(data, elapsed)])) :
    let timings := (marks limit 0 (before ++ (data, elapsed) :: after)).take maxChunkTimings
    timings[partitionPoint (fun mark => decide (mark.1 < offset)) timings]?.map Prod.snd =
      if (nonemptyChunks before).length < maxChunkTimings then some elapsed else none := by
  unfold capturedLength at hlow hhigh
  rw [joined_snoc, List.length_append] at hhigh
  have hdata : data.isEmpty = false := by
    cases data with
    | nil => rw [List.length_nil] at hhigh; omega
    | cons b data => rfl
  set first := marks limit 0 before with hfirst
  set rest := marks limit ((joined before).length + data.length) after with hrest
  have hmarks : marks limit 0 (before ++ (data, elapsed) :: after) =
      first ++ (min limit ((joined before).length + data.length), elapsed) :: rest := by
    rw [marks_append, marks, hdata, if_neg Bool.false_ne_true, Nat.zero_add]
  have hbelow : ∀ m ∈ first, decide (m.1 < offset) = true := by
    intro m hm
    have := (mem_marks hm).2.1
    rw [decide_eq_true_eq]
    omega
  have habove : ∀ m ∈ (min limit ((joined before).length + data.length), elapsed) :: rest,
      decide (m.1 < offset) = false := by
    intro m hm
    rw [decide_eq_false_iff_not]
    rcases List.mem_cons.mp hm with rfl | hm
    · omega
    · have := (mem_marks hm).1
      omega
  have hcount : first.length = (nonemptyChunks before).length := length_marks limit before 0
  intro timings
  have htimings : timings = first.take maxChunkTimings ++
      ((min limit ((joined before).length + data.length), elapsed) :: rest).take
        (maxChunkTimings - first.length) := by
    rw [← List.take_append, ← hmarks]
  have hpoint : partitionPoint (fun mark => decide (mark.1 < offset)) timings =
      (first.take maxChunkTimings).length := by
    rw [htimings]
    exact partitionPoint_append (fun m hm => hbelow m (List.mem_of_mem_take hm))
      fun m hm => habove m (List.mem_of_mem_take hm)
  rw [hpoint, htimings, List.getElem?_append_right (Nat.le_refl _), Nat.sub_self, ← hcount]
  by_cases hkept : first.length < maxChunkTimings
  · obtain ⟨n, hn⟩ : ∃ n, maxChunkTimings - first.length = n + 1 :=
      ⟨maxChunkTimings - first.length - 1, by omega⟩
    rw [hn, List.take_succ_cons, if_pos hkept]
    rfl
  · rw [show maxChunkTimings - first.length = 0 by omega, if_neg hkept]
    rfl

/-! ### Time to first token -/

/-- What `parse_trace` makes of a body: a document where it is JSON, and else the events that the
    decoder yields, with what it has then consumed. -/
def readResponse (readJson : Bytes → Option Json) (decode : Bytes → List (SseEvent × ℕ)) (body : Bytes) :
    Response :=
  match readJson body with
  | some value => .document value
  | none => .stream (decode body)

/-- The events of a body that is read as a stream. -/
def eventsOf : Response → List (SseEvent × ℕ)
  | .document _ => []
  | .stream events => events

/-- When an event is yielded, the bytes up to its end are consumed. -/
def EndsWithin (decode : Bytes → List (SseEvent × ℕ)) : Prop :=
  ∀ body, ∀ e ∈ decode body, 0 < e.2 ∧ e.2 ≤ body.length

/-- The time to the first token is that of the first chunk with which the capture contains the whole
    first event with generated output. -/
theorem first_token_time (serialize : Json → String) (kind : RequestKind)
    (readJson : Bytes → Option Json) {decode : Bytes → List (SseEvent × ℕ)} (hdecode : EndsWithin decode)
    (event : TraceEvent) (limit : ℕ) (expected : Option ℕ) (polls : List (Polled × Readings))
    (last : Readings) (hclock : (chunksOf polls).Pairwise fun a b => a.2 ≤ b.2) :
    ∃ e, (ResponseCaptureStream.run event limit expected polls last).1 = [e] ∧
      (e.responseChunkTimings.Pairwise fun a b => a.1 ≤ b.1 ∧ a.2 ≤ b.2) ∧
      let response := readResponse readJson decode e.responseBody
      match (eventsOf response).find? fun e => generates e.1 with
      | none => ttftMs e (response.parse serialize kind) = none
      | some (_, offset) =>
        IsFirstReach limit (chunksOf polls) offset (ttftMs e (response.parse serialize kind)) := by
  obtain ⟨e, hone, he⟩ := ResponseCaptureStream.run_recorded event limit expected polls last
  refine ⟨e, hone, ?_, ?_⟩
  · rw [he.timings]
    exact (marks_nondecreasing hclock).sublist (List.take_sublist _ _)
  · intro response
    have hoffset : (response.parse serialize kind).firstOutputOffset =
        ((eventsOf response).find? fun e => generates e.1).map Prod.snd := by
      rw [parse_offset]
      cases response <;> rfl
    cases hfind : (eventsOf response).find? fun e => generates e.1 with
    | none =>
      rw [hfind] at hoffset
      rw [ttftMs, he.ttft, hoffset]
      rfl
    | some found =>
      rw [hfind] at hoffset
      -- the event lies within the capture, so some chunk completed it
      have hwithin : 0 < found.2 ∧ found.2 ≤ e.responseBody.length := by
        have hmem := List.mem_of_find?_eq_some hfind
        cases hread : readJson e.responseBody with
        | some value =>
          have hevents : eventsOf response = [] := by simp only [response, readResponse, hread, eventsOf]
          rw [hevents] at hmem
          cases hmem
        | none =>
          have hevents : eventsOf response = decode e.responseBody := by
            simp only [response, readResponse, hread, eventsOf]
          exact hdecode _ _ (hevents ▸ hmem)
      rw [he.body, List.length_take] at hwithin
      have hreach : found.2 ≤ capturedLength limit (chunksOf polls) := hwithin.2
      obtain ⟨before, ⟨data, elapsed⟩, after, hchunks, hlow, hhigh⟩ := exists_reach hwithin.1 hreach
      refine ⟨before, data, elapsed, after, hchunks, hlow, hhigh, ?_⟩
      rw [ttftMs, he.ttft, hoffset, he.timings, hchunks]
      exact search_marks hlow hhigh

/-- One event with the text of an answer. -/
def hiBody : Bytes :=
  utf8 "data: \x7b\"type\":\"response.output_text.delta\",\"delta\":\"hi\"\x7d\n\n".toList

/-- A text delta. -/
def hiEvent : Json := .obj [("delta", .str "hi"), ("type", .str "response.output_text.delta")]

/-- A decoder that knows one body. -/
def decodeHi (body : Bytes) : List (SseEvent × ℕ) :=
  if body = hiBody then [(.json hiEvent, body.length)] else []

/-- The event comes in two chunks, after 5 and after 7 milliseconds. -/
def hiPolls : List (Polled × Readings) :=
  [(.chunk (hiBody.take 10), ⟨5, 5, 0, {}⟩), (.pending, noReadings),
    (.chunk (hiBody.drop 10), ⟨7, 7, 0, {}⟩), (.ended, noReadings)]

theorem first_token_time_hi :
    EndsWithin decodeHi ∧ ∃ e,
      (ResponseCaptureStream.run {} 1024 none hiPolls noReadings).1 = [e] ∧
      (e.responseChunkTimings.Pairwise fun a b => a.1 ≤ b.1 ∧ a.2 ≤ b.2) ∧
      let response := readResponse (fun _ => none) decodeHi e.responseBody
      match (eventsOf response).find? fun e => generates e.1 with
      | none => ttftMs e (response.parse (fun _ => "") .openAiResponses) = none
      | some (_, offset) => IsFirstReach 1024 (chunksOf hiPolls) offset
          (ttftMs e (response.parse (fun _ => "") .openAiResponses)) := by
  have hends : EndsWithin decodeHi := by
    intro body e he
    unfold decodeHi at he
    split at he
    · rename_i hbody
      rw [List.mem_singleton.mp he, hbody]
      exact ⟨by decide, Nat.le_refl _⟩
    · cases he
  exact ⟨hends, first_token_time _ _ _ hends _ _ _ _ _ (by decide)⟩

end Llmtrace.Trace
