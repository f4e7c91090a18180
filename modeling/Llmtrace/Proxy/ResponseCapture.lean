import Llmtrace.Proxy.Capture

/-! The capture of a proxied response (`ResponseCaptureStream` in `proxy.rs`).

    The stream hands every chunk of the upstream to the client and keeps a copy of the first bytes. The
    event is recorded when the upstream ends or fails, or when the stream is dropped, whichever comes
    first; the client may go on polling. Each nonempty chunk leaves a mark on the event: how many bytes
    were captured with it, and when. -/

namespace Llmtrace.Proxy
open Schemes

/-! ### The stream -/

/-- The event of a response, with what its stream measures. -/
structure StreamEvent extends TraceEvent where
  completedAt : Option ℤ := none
  durationMs : Option ℤ := none
  ttfbMs : Option ℤ := none
  ttftMs : Option ℤ := none
  responseChunkTimings : List (ℕ × ℤ) := []

/-- The number of chunks whose times are kept. -/
def maxChunkTimings : ℕ := 8192

/-- What a poll of the upstream gives, and what the client gets from it. -/
inductive Polled where
  | pending
  | chunk (data : Bytes)
  | error (message : String)
  | ended
  deriving DecidableEq

/-- What the stream reads besides the upstream when it is polled or dropped: the elapsed milliseconds,
    those at the check for the first byte, the time, and the capture of the request as it then stands. -/
structure Readings where
  first : ℤ
  elapsed : ℤ
  now : ℤ
  request : BodyCapture

/-- `recorded` holds the events that were given to `TraceRecorder::record`. -/
structure ResponseCaptureStream where
  event : Option StreamEvent
  capture : BodyCapture
  firstByteMs : Option ℤ := none
  limit : ℕ
  recorded : List StreamEvent := []

namespace ResponseCaptureStream

/-- `ResponseCaptureStream::new` -/
def new (event : TraceEvent) (limit : ℕ) (expectedBytes : Option ℕ) : ResponseCaptureStream where
  event := some { event with }
  capture := { expectedBytes }
  limit

/-- `ResponseCaptureStream::finish` -/
def finish (s : ResponseCaptureStream) (error : Option String) (r : Readings) : ResponseCaptureStream :=
  match s.event with
  | none => s
  | some event =>
    let request := r.request.take.2
    let event := { event with
      completedAt := some r.now
      durationMs := some r.elapsed
      ttfbMs := s.firstByteMs
      error
      tags := if error.isSome then event.tags ++ ["capture_interrupted"] else event.tags
      requestBodyTruncated := request.incompleteRequest
      requestBody := request.bytes
      requestBodyBytes := request.totalBytes
      responseBody := s.capture.bytes
      responseBodyBytes := s.capture.totalBytes
      responseBodyTruncated := s.capture.truncated || error.isSome }
    { s with
      event := none
      capture := { s.capture with bytes := [] }
      recorded := s.recorded ++ [event] }

/-- A chunk that has come leaves its mark on the event, if that is still there. -/
def mark (event : Option StreamEvent) (data : Bytes) (stop : ℕ) (elapsed : ℤ) : Option StreamEvent :=
  event.map fun event =>
    if !data.isEmpty && decide (event.responseChunkTimings.length < maxChunkTimings) then
      { event with responseChunkTimings := event.responseChunkTimings ++ [(stop, elapsed)] }
    else event

/-- `ResponseCaptureStream::poll_next` -/
def pollNext (s : ResponseCaptureStream) (polled : Polled) (r : Readings) :
    ResponseCaptureStream × Polled :=
  match polled with
  | .chunk data =>
    let firstByteMs := if s.firstByteMs.isNone && !data.isEmpty then some r.first else s.firstByteMs
    let capture := s.capture.push data s.limit
    ({ s with firstByteMs, capture, event := mark s.event data capture.bytes.length r.elapsed },
      .chunk data)
  | .error message => (s.finish (some message) r, .error message)
  | .ended => (s.finish none r, .ended)
  | .pending => (s, .pending)

/-- `Drop for ResponseCaptureStream` -/
def dropped (s : ResponseCaptureStream) (r : Readings) : ResponseCaptureStream :=
  s.finish (dropError s.capture) r

/-- The polls of a client, and what it gets. -/
def pollAll : ResponseCaptureStream → List (Polled × Readings) → ResponseCaptureStream × List Polled
  | s, [] => (s, [])
  | s, (polled, r) :: polls =>
    let (s, item) := s.pollNext polled r
    let (s, items) := s.pollAll polls
    (s, item :: items)

/-- A stream from its making until it is dropped: the recorded events and what the client got. -/
def run (event : TraceEvent) (limit : ℕ) (expectedBytes : Option ℕ)
    (polls : List (Polled × Readings)) (last : Readings) : List StreamEvent × List Polled :=
  let (s, items) := (new event limit expectedBytes).pollAll polls
  ((s.dropped last).recorded, items)

end ResponseCaptureStream

/-! ### What was delivered -/

/-- The chunks until the upstream ends or fails, with the elapsed times at which they came. -/
def chunksOf : List (Polled × Readings) → List (Bytes × ℤ)
  | [] => []
  | (.chunk data, r) :: polls => (data, r.elapsed) :: chunksOf polls
  | (.pending, _) :: polls => chunksOf polls
  | (.error _, _) :: _ | (.ended, _) :: _ => []

/-- The upstream signals its end, and no failure before. -/
def endsClean : List (Polled × Readings) → Bool
  | [] => false
  | (.chunk _, _) :: polls | (.pending, _) :: polls => endsClean polls
  | (.error _, _) :: _ => false
  | (.ended, _) :: _ => true

/-- The bytes of chunks. -/
def joined (chunks : List (Bytes × ℤ)) : Bytes := chunks.flatMap Prod.fst

/-- The marks of chunks that come after `before` bytes. -/
def marks (limit : ℕ) : ℕ → List (Bytes × ℤ) → List (ℕ × ℤ)
  | _, [] => []
  | before, (data, elapsed) :: chunks =>
    if data.isEmpty then marks limit before chunks
    else (min limit (before + data.length), elapsed) :: marks limit (before + data.length) chunks

theorem joined_append (chunks chunks' : List (Bytes × ℤ)) :
    joined (chunks ++ chunks') = joined chunks ++ joined chunks' := List.flatMap_append

theorem joined_snoc (chunks : List (Bytes × ℤ)) (data : Bytes) (elapsed : ℤ) :
    joined (chunks ++ [(data, elapsed)]) = joined chunks ++ data := by
  rw [joined_append]
  simp [joined]

theorem marks_append (limit : ℕ) : ∀ (chunks chunks' : List (Bytes × ℤ)) (before : ℕ),
    marks limit before (chunks ++ chunks') =
      marks limit before chunks ++ marks limit (before + (joined chunks).length) chunks'
  | [], _, _ => rfl
  | (data, elapsed) :: chunks, chunks', before => by
      have hlen : (joined ((data, elapsed) :: chunks)).length = data.length + (joined chunks).length := by
        simp [joined]
      rw [List.cons_append, marks, marks, marks_append limit chunks, marks_append limit chunks, hlen,
        ← Nat.add_assoc]
      split
      · rename_i hempty
        rw [List.isEmpty_iff.mp hempty]
        rfl
      · rfl

/-! ### One poll -/

/-- The capture of a body of which `before` has come. -/
structure Captured (limit : ℕ) (expected : Option ℕ) (before : Bytes) (capture : BodyCapture) : Prop where
  bytes : capture.bytes = before.take limit
  total : capture.totalBytes = min before.length i64Max
  truncated : capture.truncated = decide (limit < before.length)
  expected : capture.expectedBytes = expected
  open_ : capture.finished = false

variable {limit : ℕ} {expected : Option ℕ}

theorem Captured.push {before : Bytes} {capture : BodyCapture} (h : Captured limit expected before capture)
    (data : Bytes) : Captured limit expected (before ++ data) (capture.push data limit) := by
  have hlen : capture.bytes.length = min limit before.length := by rw [h.bytes, List.length_take]
  have htotal : min (capture.totalBytes + min data.length i64Max) i64Max =
      min (before ++ data).length i64Max := by
    rw [h.total, List.length_append]
    omega
  unfold BodyCapture.push
  simp only [h.open_, Bool.false_eq_true, if_false]
  split
  · rename_i hroom
    refine ⟨?_, htotal, ?_, h.expected, rfl⟩
    · rw [List.take_append, ← h.bytes, hlen, show limit - min limit before.length = limit - before.length by omega,
        List.take_eq_take_iff.mpr (by omega : _ = min (limit - before.length) data.length)]
    · rw [h.truncated, List.length_append]
      grind
  · rename_i hfull
    refine ⟨?_, htotal, ?_, h.expected, rfl⟩
    · rw [h.bytes, List.take_append, show limit - before.length = 0 by omega, List.take_zero, List.append_nil]
    · rw [h.truncated, List.length_append]
      cases data with
      | nil => simp
      | cons b data => simp; omega

/-- Nothing was recorded yet, and the event has the marks of the chunks. -/
structure Holding (limit : ℕ) (expected : Option ℕ) (chunks : List (Bytes × ℤ))
    (s : ResponseCaptureStream) : Prop where
  captured : Captured limit expected (joined chunks) s.capture
  limit_eq : s.limit = limit
  fresh : s.recorded = []
  event : ∃ e, s.event = some e ∧ e.ttftMs = none ∧
    e.responseChunkTimings = (marks limit 0 chunks).take maxChunkTimings

/-- What is recorded of a response whose chunks these are; `clean` says that the upstream signalled its
    end. -/
structure Recorded (limit : ℕ) (expected : Option ℕ) (chunks : List (Bytes × ℤ)) (clean : Bool)
    (e : StreamEvent) : Prop where
  body : e.responseBody = (joined chunks).take limit
  total : e.responseBodyBytes = min (joined chunks).length i64Max
  truncated : e.responseBodyTruncated = (decide (limit < (joined chunks).length) || e.error.isSome)
  complete : e.error = none → clean = true ∨ expected = some (min (joined chunks).length i64Max)
  ttft : e.ttftMs = none
  timings : e.responseChunkTimings = (marks limit 0 chunks).take maxChunkTimings

namespace ResponseCaptureStream
variable {s : ResponseCaptureStream} {chunks : List (Bytes × ℤ)}

theorem holding_new (event : TraceEvent) (limit : ℕ) (expected : Option ℕ) :
    Holding limit expected [] (new event limit expected) :=
  ⟨⟨(List.take_nil).symm, rfl, rfl, rfl, rfl⟩, rfl, rfl, _, rfl, rfl, rfl⟩

theorem take_snoc_marks {α : Type*} (l : List α) (x : α) (n : ℕ) :
    (l ++ [x]).take n = if (l.take n).length < n then l.take n ++ [x] else l.take n := by
  rw [List.length_take, List.take_append]
  split
  · rw [List.take_of_length_le (by simp; omega : [x].length ≤ n - l.length)]
  · rw [show n - l.length = 0 by omega, List.take_zero, List.append_nil]

theorem pollNext_chunk (h : Holding limit expected chunks s) (data : Bytes) (r : Readings) :
    Holding limit expected (chunks ++ [(data, r.elapsed)]) (s.pollNext (.chunk data) r).1 := by
  obtain ⟨hcaptured, rfl, hfresh, e, hevent, httft, htimings⟩ := h
  have hpush := hcaptured.push data
  rw [← joined_snoc chunks data r.elapsed] at hpush
  refine ⟨hpush, rfl, hfresh, _, by rw [pollNext, mark, hevent]; rfl, ?_, ?_⟩
  · beta_reduce
    split
    · exact httft
    · exact httft
  · rw [marks_append, marks, Nat.zero_add]
    cases hempty : data.isEmpty with
    | true =>
      rw [if_pos rfl, marks, List.append_nil]
      exact htimings
    | false =>
      have hstop : (s.capture.push data s.limit).bytes.length =
          min s.limit ((joined chunks).length + data.length) := by
        rw [hpush.bytes, List.length_take, joined_snoc, List.length_append]
      rw [if_neg Bool.false_ne_true, marks, take_snoc_marks, ← htimings, hstop]
      simp only [Bool.not_false, Bool.true_and, decide_eq_true_eq]
      split
      · rfl
      · rfl

theorem finish_recorded (h : Holding limit expected chunks s) (clean : Bool) (error : Option String)
    (r : Readings)
    (hcomplete : error = none → clean = true ∨ expected = some (min (joined chunks).length i64Max)) :
    ∃ e, Recorded limit expected chunks clean e ∧ (s.finish error r).event = none ∧
      (s.finish error r).recorded = [e] := by
  obtain ⟨hcaptured, -, hfresh, e, hevent, httft, htimings⟩ := h
  unfold finish
  rw [hevent]
  refine ⟨_, ?_, rfl, by rw [hfresh]; rfl⟩
  exact ⟨hcaptured.bytes, hcaptured.total, by rw [hcaptured.truncated], hcomplete, httft, htimings⟩

/-! ### Whole runs -/

/-- After the event was taken nothing is recorded any more. -/
theorem finish_done (h : s.event = none) (error : Option String) (r : Readings) : s.finish error r = s := by
  rw [finish, h]

theorem pollNext_done (h : s.event = none) (polled : Polled) (r : Readings) :
    (s.pollNext polled r).1.event = none ∧ (s.pollNext polled r).1.recorded = s.recorded := by
  cases polled with
  | pending => exact ⟨h, rfl⟩
  | chunk data => exact ⟨by rw [pollNext, mark, h]; rfl, rfl⟩
  | error message =>
    rw [pollNext, finish_done h]
    exact ⟨h, rfl⟩
  | ended =>
    rw [pollNext, finish_done h]
    exact ⟨h, rfl⟩

theorem pollAll_done : ∀ (polls : List (Polled × Readings)) {s : ResponseCaptureStream},
    s.event = none → (s.pollAll polls).1.event = none ∧ (s.pollAll polls).1.recorded = s.recorded
  | [], _, h => ⟨h, rfl⟩
  | (polled, r) :: polls, s, h => by
      obtain ⟨hevent, hrecorded⟩ := pollNext_done h polled r
      obtain ⟨hevent', hrecorded'⟩ := pollAll_done polls hevent
      exact ⟨hevent', hrecorded'.trans hrecorded⟩

/-- The client gets what the upstream gives. -/
theorem pollAll_items : ∀ (polls : List (Polled × Readings)) (s : ResponseCaptureStream),
    (s.pollAll polls).2 = polls.map Prod.fst
  | [], _ => rfl
  | (polled, r) :: polls, s => by
      have hitem : (s.pollNext polled r).2 = polled := by cases polled <;> rfl
      rw [pollAll, List.map_cons, ← pollAll_items polls (s.pollNext polled r).1]
      exact congrArg (· :: _) hitem

theorem dropped_recorded (h : Holding limit expected chunks s) (r : Readings) :
    ∃ e, Recorded limit expected chunks false e ∧ (s.dropped r).recorded = [e] := by
  obtain ⟨e, he, -, hrecorded⟩ := finish_recorded h false (dropError s.capture) r (by
    intro hnone
    rw [dropError, h.captured.expected, h.captured.total] at hnone
    split at hnone
    · rename_i hsome
      exact .inr hsome
    · cases hnone)
  exact ⟨e, he, hrecorded⟩

/-- What is recorded once stays so until the stream is dropped. -/
theorem recorded_stays {e : StreamEvent} (polls : List (Polled × Readings)) (last : Readings)
    (hevent : s.event = none) (hrecorded : s.recorded = [e]) :
    ((s.pollAll polls).1.dropped last).recorded = [e] := by
  obtain ⟨hevent', hrecorded'⟩ := pollAll_done polls hevent
  rw [dropped, finish_done hevent', hrecorded', hrecorded]

theorem pollAll_recorded (last : Readings) : ∀ (polls : List (Polled × Readings))
    {s : ResponseCaptureStream} {chunks : List (Bytes × ℤ)}, Holding limit expected chunks s →
    ∃ e, Recorded limit expected (chunks ++ chunksOf polls) (endsClean polls) e ∧
      ((s.pollAll polls).1.dropped last).recorded = [e]
  | [], s, chunks, h => by
      rw [chunksOf, List.append_nil]
      exact dropped_recorded h last
  | (.pending, r) :: polls, s, chunks, h => pollAll_recorded last polls h
  | (.chunk data, r) :: polls, s, chunks, h => by
      have := pollAll_recorded last polls (pollNext_chunk h data r)
      rw [List.append_assoc, List.singleton_append] at this
      exact this
  | (.error message, r) :: polls, s, chunks, h => by
      rw [chunksOf, List.append_nil]
      obtain ⟨e, he, hevent, hrecorded⟩ := finish_recorded h false (some message) r (by rintro ⟨⟩)
      exact ⟨e, he, recorded_stays polls last hevent hrecorded⟩
  | (.ended, r) :: polls, s, chunks, h => by
      rw [chunksOf, List.append_nil]
      obtain ⟨e, he, hevent, hrecorded⟩ := finish_recorded h true none r (fun _ => .inl rfl)
      exact ⟨e, he, recorded_stays polls last hevent hrecorded⟩

/-- One event, with what has come until then. -/
theorem run_recorded (event : TraceEvent) (limit : ℕ) (expected : Option ℕ)
    (polls : List (Polled × Readings)) (last : Readings) :
    ∃ e, (run event limit expected polls last).1 = [e] ∧
      Recorded limit expected (chunksOf polls) (endsClean polls) e := by
  obtain ⟨e, he, hrecorded⟩ := pollAll_recorded last polls (holding_new event limit expected)
  exact ⟨e, hrecorded, he⟩

end ResponseCaptureStream

/-! ### Captured once, and exactly -/

/-- `MAX_RESPONSE_BODY_BYTES`, the largest limit that `validate_proxy` lets pass. -/
def maxResponseBodyBytes : ℕ := 1024 * 1024 * 1024

/-- `proxy.max_response_body_bytes`, as the configuration checks it. -/
structure ResponseLimit where
  bytes : ℕ
  positive : 0 < bytes
  atMost : bytes ≤ maxResponseBodyBytes

/-- A run of the stream against what the upstream delivered until the event was recorded; `count` is the
    number of bytes that is recorded. -/
structure Exact (count : Bytes → ℕ) (limit : ℕ) (expected : Option ℕ) (polls : List (Polled × Readings))
    (run : List StreamEvent × List Polled) : Prop where
  items : run.2 = polls.map Prod.fst
  once : ∃ e, run.1 = [e] ∧ e.responseBody = (joined (chunksOf polls)).take limit ∧
    e.responseBodyBytes = count (joined (chunksOf polls)) ∧
    (e.responseBodyTruncated = false → e.responseBody = joined (chunksOf polls) ∧
      (endsClean polls = true ∨ expected = some (joined (chunksOf polls)).length))

/-- Every run records one event, with the first bytes of what was delivered and their number, as far as
    that is a 64-bit integer. -/
theorem response_captured (event : TraceEvent) (limit : ResponseLimit) (expected : Option ℕ)
    (polls : List (Polled × Readings)) (last : Readings) :
    Exact (fun body => min body.length i64Max) limit.bytes expected polls
      (ResponseCaptureStream.run event limit.bytes expected polls last) := by
  refine ⟨ResponseCaptureStream.pollAll_items polls _, ?_⟩
  obtain ⟨e, hone, he⟩ := ResponseCaptureStream.run_recorded event limit.bytes expected polls last
  refine ⟨e, hone, he.body, he.total, ?_⟩
  intro hwhole
  rw [he.truncated, Bool.or_eq_false_iff, decide_eq_false_iff_not] at hwhole
  have hlen : (joined (chunksOf polls)).length ≤ limit.bytes := by omega
  refine ⟨by rw [he.body, List.take_of_length_le hlen], ?_⟩
  -- a body within the limit is far from the bound of the count
  have hsmall : min (joined (chunksOf polls)).length i64Max = (joined (chunksOf polls)).length := by
    have := limit.atMost
    unfold maxResponseBodyBytes at this
    unfold i64Max
    omega
  have hcomplete := he.complete (Option.not_isSome_iff_eq_none.mp (Bool.not_eq_true _ ▸ hwhole.2))
  rwa [hsmall] at hcomplete

/-- Readings for a stream whose times do not matter. -/
def noReadings : Readings := ⟨0, 0, 0, {}⟩

/-- A limit of 1 KiB. -/
def kibibyte : ResponseLimit := ⟨1024, by decide, by decide⟩

/-- A body of two chunks under a limit of a kibibyte. -/
theorem response_captured_hello :
    Exact (fun body => min body.length i64Max) 1024 none
      [(.chunk (utf8 "hel".toList), noReadings), (.chunk (utf8 "lo".toList), noReadings), (.ended, noReadings)]
      (ResponseCaptureStream.run {} 1024 none
        [(.chunk (utf8 "hel".toList), noReadings), (.chunk (utf8 "lo".toList), noReadings),
          (.ended, noReadings)] noReadings) :=
  response_captured {} kibibyte none _ noReadings

/-- As many chunks of a gibibyte as make up `2 ^ 63` bytes. -/
def hugePolls : List (Polled × Readings) :=
  List.replicate (2 ^ 33) (.chunk (List.replicate (2 ^ 30) 0), noReadings) ++ [(.ended, noReadings)]

theorem length_chunks (n : ℕ) (data : Bytes) (r : Readings) (polls : List (Polled × Readings)) :
    (joined (chunksOf (List.replicate n (.chunk data, r) ++ polls))).length =
      n * data.length + (joined (chunksOf polls)).length := by
  induction n with
  | zero => simp
  | succ n ih =>
    rw [List.replicate_succ, List.cons_append, chunksOf, joined, List.flatMap_cons, List.length_append]
    rw [joined] at ih
    rw [ih]
    ring

/-- The recorded number of bytes stops at the largest 64-bit integer. -/
theorem total_saturates : ¬Exact List.length maxResponseBodyBytes none hugePolls
    (ResponseCaptureStream.run {} maxResponseBodyBytes none hugePolls noReadings) := by
  rintro ⟨-, e, hone, -, htotal, -⟩
  obtain ⟨e', hone', he⟩ :=
    ResponseCaptureStream.run_recorded {} maxResponseBodyBytes none hugePolls noReadings
  obtain rfl : e = e' := List.singleton_injective (hone.symm.trans hone')
  rw [he.total, hugePolls, length_chunks, List.length_replicate] at htotal
  exact absurd htotal (by decide)

end Llmtrace.Proxy
