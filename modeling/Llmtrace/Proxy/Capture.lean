import Llmtrace.Schemes.Run
import Llmtrace.Proxy.Redaction

/-! The capture of a proxied request (`proxy_http` in `proxy.rs`): while the client's body streams to
    the upstream, a copy of it is kept, and the trace event is recorded from that copy when the
    exchange ends, wherever the upload then stands.

    `Exchange` runs one request. The upload and the response are polled concurrently, so their steps
    interleave in any order. An event that is not marked truncated holds the whole body, unless the
    request was refused by its `Content-Length`: then no body is read, and the event is not marked. -/

namespace Llmtrace.Proxy
open Schemes

/-! ### `content_length_exceeds` -/

/-- A number in decimal digits, of which there is one at least; no bound yet. -/
def decimal (digits : List Char) : Option ℕ :=
  if digits.isEmpty || digits.any (fun c => !c.isDigit) then none
  else some (digits.foldl (fun n c => 10 * n + (c.toNat - 48)) 0)

/-- `str::parse::<u128>`, which takes a leading plus sign. -/
def parseU128 (text : List Char) : Option ℕ :=
  let digits := if text.head? = some '+' then text.tail else text
  (decimal digits).filter fun n => n < 2 ^ 128

/-- The length that the headers announce. -/
def contentLength (headers : HeaderMap) : Option ℕ :=
  ((headers.first "content-length".toList).bind toStr).bind parseU128

/-- `content_length_exceeds` -/
def contentLengthExceeds (headers : HeaderMap) (limit : ℕ) : Bool :=
  (contentLength headers).any fun length => limit < length

/-! ### Captured bodies -/

/-- `i64::MAX` -/
def i64Max : ℕ := 2 ^ 63 - 1

/-- `BodyCapture` -/
structure BodyCapture where
  bytes : Bytes := []
  totalBytes : ℕ := 0
  truncated : Bool := false
  limitExceeded : Bool := false
  finished : Bool := false
  streamEnded : Bool := false
  expectedBytes : Option ℕ := none

/-- What marks a request body as truncated. -/
def BodyCapture.incompleteRequest (capture : BodyCapture) : Bool :=
  capture.truncated ||
    (!capture.streamEnded && decide (capture.expectedBytes ≠ some capture.totalBytes))

/-- `push_body_capture` -/
def BodyCapture.push (capture : BodyCapture) (chunk : Bytes) (limit : ℕ) : BodyCapture :=
  let capture :=
    { capture with totalBytes := min (capture.totalBytes + min chunk.length i64Max) i64Max }
  if capture.finished then capture
  else if capture.bytes.length < limit then
    let captured := min (limit - capture.bytes.length) chunk.length
    { capture with
      bytes := capture.bytes ++ chunk.take captured
      truncated := capture.truncated || decide (captured < chunk.length) }
  else { capture with truncated := capture.truncated || !chunk.isEmpty }

/-- A chunk of a request body, and whether the live limit is passed. -/
def BodyCapture.pushRequest (capture : BodyCapture) (chunk : Bytes) (captureLimit liveLimit : ℕ) :
    BodyCapture × Bool :=
  let capture := capture.push chunk captureLimit
  let capture :=
    { capture with limitExceeded := capture.limitExceeded || decide (liveLimit < capture.totalBytes) }
  (capture, capture.limitExceeded)

/-- What is left, and what is taken. -/
def BodyCapture.take (capture : BodyCapture) : BodyCapture × BodyCapture :=
  ({ capture with bytes := [], finished := true }, { capture with finished := true })

/-! ### One exchange -/

/-- The fields of a trace event that the exchange fills in from the two bodies. -/
structure TraceEvent where
  status : Option ℕ := none
  error : Option String := none
  tags : List String := []
  requestBody : Bytes := []
  requestBodyBytes : ℕ := 0
  requestBodyTruncated : Bool := false
  responseBody : Bytes := []
  responseBodyBytes : ℕ := 0
  responseBodyTruncated : Bool := false
  runPlugins : Bool := false

/-- The limits of the section `proxy`. -/
structure ProxyConfig where
  maxRequestBodyBytes : ℕ
  maxResponseBodyBytes : ℕ

/-- A request with the whole body that its client announced or sends. The fields of proof are what
    HTTP promises: the announced length, the exact size hint and a body that has ended before it
    began are those of this body. -/
structure Request where
  headers : HeaderMap
  whole : Bytes
  /-- `body.size_hint().exact()` -/
  exact : Option ℕ
  /-- `body.is_end_stream()`, before the first poll. -/
  ended : Bool
  announced : ∀ n, contentLength headers = some n → n = whole.length
  exact_eq : ∀ n, exact = some n → n = whole.length
  ended_eq : ended = true → whole = []

/-- Where an exchange is. -/
inductive Stage where
  | refused
  | sending
  | failed
  | responding
  deriving DecidableEq

/-- `delivered` is what the body has yielded, and `closed` says that its stream has given an error:
    whoever reads a stream stops there. `event` is the event that the response stream holds. -/
structure Exchange where
  stage : Stage
  capture : BodyCapture := {}
  delivered : Bytes := []
  closed : Bool := false
  response : BodyCapture := {}
  event : Option TraceEvent := none
  recorded : List TraceEvent := []

/-- What the client, the upstream and the connection do. -/
inductive ProxyAction where
  | chunk (data : Bytes)
  | uploadFailed
  | uploadEnded
  | sendFailed (message : String)
  | answered (status : ℕ) (expected : Option ℕ)
  | responseChunk (data : Bytes)
  | responseFailed (message : String)
  | responseEnded
  | responseDropped

/-- `request_body_limit_message` -/
def requestBodyLimitMessage (limit : ℕ) : String :=
  s!"request body exceeds configured limit of {limit} bytes"

/-- The event of a request that is refused before its body is read. -/
def refusedEvent (cfg : ProxyConfig) : TraceEvent :=
  { status := some 413, error := some (requestBodyLimitMessage cfg.maxRequestBodyBytes) }

/-- The exchange as the handler begins it. -/
def start (cfg : ProxyConfig) (request : Request) : Exchange :=
  if contentLengthExceeds request.headers cfg.maxRequestBodyBytes then
    { stage := .refused, recorded := [refusedEvent cfg] }
  else
    { stage := .sending
      capture := { expectedBytes := request.exact, streamEnded := request.ended } }

/-- The event of a request that could not be sent. -/
def sendFailedEvent (cfg : ProxyConfig) (request : BodyCapture) (message : String) : TraceEvent :=
  { status := if request.limitExceeded then some 413 else none
    error := some (if request.limitExceeded then requestBodyLimitMessage cfg.maxRequestBodyBytes
      else message)
    requestBody := request.bytes
    requestBodyBytes := request.totalBytes
    requestBodyTruncated := request.incompleteRequest
    runPlugins := true }

/-- `ResponseCaptureStream::finish` -/
def Exchange.finish (s : Exchange) (error : Option String) : Exchange :=
  match s.event with
  | none => s
  | some event =>
    let (left, request) := s.capture.take
    let event := { event with
      error
      tags := if error.isSome then event.tags ++ ["capture_interrupted"] else event.tags
      requestBody := request.bytes
      requestBodyBytes := request.totalBytes
      requestBodyTruncated := request.incompleteRequest
      responseBody := s.response.bytes
      responseBodyBytes := s.response.totalBytes
      responseBodyTruncated := s.response.truncated || error.isSome }
    { s with
      capture := left, event := none, recorded := s.recorded ++ [event]
      response := { s.response with bytes := [] } }

/-- The error of a response stream that is dropped. -/
def dropError (response : BodyCapture) : Option String :=
  if response.expectedBytes = some response.totalBytes then none
  else some "response stream dropped before completion"

/-- The upload may be polled. -/
def Exchange.polled (s : Exchange) : Bool := s.stage != .refused && !s.closed

/-- A step of an exchange. -/
def exchangeStep (cfg : ProxyConfig) (request : Request) (s : Exchange) : ProxyAction → Option Exchange
  | .chunk data =>
    if s.polled && (s.delivered ++ data).isPrefixOf request.whole then
      let (capture, exceeded) :=
        s.capture.pushRequest data cfg.maxRequestBodyBytes cfg.maxRequestBodyBytes
      some { s with capture, delivered := s.delivered ++ data, closed := exceeded }
    else none
  | .uploadFailed => if s.polled then some { s with closed := true } else none
  | .uploadEnded =>
    if s.polled && s.delivered == request.whole then
      some { s with capture := { s.capture with streamEnded := true } }
    else none
  | .sendFailed message =>
    if s.stage = .sending then
      let (left, taken) := s.capture.take
      some { s with
        stage := .failed, capture := left
        recorded := s.recorded ++ [sendFailedEvent cfg taken message] }
    else none
  | .answered status expected =>
    if s.stage = .sending then
      some { s with
        stage := .responding, response := { expectedBytes := expected }
        event := some { status := some status, runPlugins := true } }
    else none
  | .responseChunk data =>
    if s.stage = .responding then
      some { s with response := s.response.push data cfg.maxResponseBodyBytes }
    else none
  | .responseFailed message => if s.stage = .responding then some (s.finish (some message)) else none
  | .responseEnded => if s.stage = .responding then some (s.finish none) else none
  | .responseDropped =>
    if s.stage = .responding then some (s.finish (dropError s.response)) else none

/-- An event that is not marked holds the whole body. -/
def TraceEvent.Complete (request : Request) (event : TraceEvent) : Prop :=
  event.requestBodyTruncated = false → event.requestBody = request.whole

/-! ### What a capture knows -/

/-- The capture, until it is taken, in terms of what the body has yielded. -/
structure Tracks (request : Request) (capture : BodyCapture) (delivered : Bytes) : Prop where
  sofar : delivered <+: request.whole
  bytes : capture.truncated = false → capture.bytes = delivered
  total : capture.totalBytes ≤ delivered.length
  ended : capture.streamEnded = true → delivered = request.whole
  expected : capture.expectedBytes = request.exact
  open_ : capture.finished = false

variable {cfg : ProxyConfig} {request : Request} {s t : Exchange}

theorem Tracks.push {capture : BodyCapture} {delivered data : Bytes}
    (h : Tracks request capture delivered) (limit : ℕ) (hdata : delivered ++ data <+: request.whole) :
    Tracks request (capture.push data limit) (delivered ++ data) := by
  have htotal := h.total
  have hmin : min (capture.totalBytes + min data.length i64Max) i64Max ≤ (delivered ++ data).length := by
    rw [List.length_append]
    omega
  have hended : capture.streamEnded = true → delivered ++ data = request.whole := by
    intro hend
    obtain rfl : delivered = request.whole := h.ended hend
    obtain ⟨rest, hrest⟩ := hdata
    have : data = [] := by
      have := congrArg List.length hrest
      simp only [List.length_append] at this
      exact List.eq_nil_of_length_eq_zero (by omega)
    rw [this, List.append_nil]
  unfold BodyCapture.push
  simp only [h.open_, Bool.false_eq_true, if_false]
  split
  · refine ⟨hdata, fun hwhole => ?_, hmin, hended, h.expected, rfl⟩
    simp only [Bool.or_eq_false_iff, decide_eq_false_iff_not] at hwhole
    rw [List.take_of_length_le (by omega), h.bytes hwhole.1]
  · refine ⟨hdata, fun hwhole => ?_, hmin, hended, h.expected, rfl⟩
    simp only [Bool.or_eq_false_iff, Bool.not_eq_false', List.isEmpty_iff] at hwhole
    rw [h.bytes hwhole.1, hwhole.2, List.append_nil]

/-- A capture that does not call itself incomplete holds the whole body. -/
theorem Tracks.complete {capture : BodyCapture} {delivered : Bytes}
    (h : Tracks request capture delivered) (hdone : capture.incompleteRequest = false) :
    capture.bytes = request.whole := by
  rw [BodyCapture.incompleteRequest, Bool.or_eq_false_iff, Bool.and_eq_false_iff,
    Bool.not_eq_false', decide_eq_false_iff_not, not_not] at hdone
  obtain ⟨htrunc, hend | hexpected⟩ := hdone
  · rw [h.bytes htrunc, h.ended hend]
  · -- all announced bytes have come, though nobody has polled for the end
    rw [h.expected] at hexpected
    have hlen := request.exact_eq _ hexpected
    have hle := h.sofar.length_le
    have := h.total
    rw [h.bytes htrunc]
    exact h.sofar.eq_of_length (by omega)

/-! ### Runs -/

/-- Until it is taken, the capture tracks the upload; the recorded events are complete. -/
structure Sound (request : Request) (s : Exchange) : Prop where
  recorded : ∀ event ∈ s.recorded, event.Complete request
  sending : s.stage = .sending → Tracks request s.capture s.delivered ∧ s.event = none
  holding : s.event.isSome = true → Tracks request s.capture s.delivered

theorem sound_append {events : List TraceEvent} {event : TraceEvent}
    (h : ∀ event ∈ events, event.Complete request) (hnew : event.Complete request) :
    ∀ e ∈ events ++ [event], e.Complete request := by
  rintro e he
  rcases List.mem_append.mp he with he | he
  · exact h e he
  · rw [List.mem_singleton.mp he]
    exact hnew

theorem Sound.finish (h : Sound request s) (hstage : s.stage = .responding) (error : Option String) :
    Sound request (s.finish error) := by
  unfold Exchange.finish
  split
  · exact h
  rename_i event hevent
  have htracks := h.holding (by rw [hevent]; rfl)
  refine ⟨sound_append h.recorded fun hdone => htracks.complete hdone, ?_, ?_⟩
  · intro hsending
    rw [hstage] at hsending
    cases hsending
  · rintro ⟨⟩

/-- A step of the upload: what it does to the capture carries over to both stages that record. -/
theorem Sound.map (h : Sound request s) {capture : BodyCapture} {delivered : Bytes} {closed : Bool}
    (hmap : Tracks request s.capture s.delivered → Tracks request capture delivered) :
    Sound request { s with capture, delivered, closed } :=
  ⟨h.recorded, fun hs => ⟨hmap (h.sending hs).1, (h.sending hs).2⟩, fun he => hmap (h.holding he)⟩

theorem Sound.step (h : Sound request s) {a : ProxyAction}
    (hstep : exchangeStep cfg request s a = some t) : Sound request t := by
  cases a with
  | chunk data =>
    simp only [exchangeStep, Option.ite_none_right_eq_some, Option.some.injEq, Bool.and_eq_true,
      List.isPrefixOf_iff_prefix] at hstep
    obtain ⟨⟨-, hdata⟩, rfl⟩ := hstep
    refine h.map fun htracks => ?_
    exact { htracks.push cfg.maxRequestBodyBytes hdata with }
  | uploadFailed =>
    simp only [exchangeStep, Option.ite_none_right_eq_some, Option.some.injEq] at hstep
    obtain ⟨-, rfl⟩ := hstep
    exact h.map id
  | uploadEnded =>
    simp only [exchangeStep, Option.ite_none_right_eq_some, Option.some.injEq, Bool.and_eq_true,
      beq_iff_eq] at hstep
    obtain ⟨⟨-, hend⟩, rfl⟩ := hstep
    refine h.map fun htracks => ?_
    exact { htracks with ended := fun _ => hend }
  | sendFailed message =>
    simp only [exchangeStep, Option.ite_none_right_eq_some, Option.some.injEq] at hstep
    obtain ⟨hstage, rfl⟩ := hstep
    obtain ⟨htracks, hnone⟩ := h.sending hstage
    refine ⟨sound_append h.recorded fun hdone => htracks.complete hdone, ?_, ?_⟩
    · rintro ⟨⟩
    · intro hsome
      rw [hnone] at hsome
      cases hsome
  | answered status expected =>
    simp only [exchangeStep, Option.ite_none_right_eq_some, Option.some.injEq] at hstep
    obtain ⟨hstage, rfl⟩ := hstep
    refine ⟨h.recorded, ?_, fun _ => (h.sending hstage).1⟩
    rintro ⟨⟩
  | responseChunk data =>
    simp only [exchangeStep, Option.ite_none_right_eq_some, Option.some.injEq] at hstep
    obtain ⟨-, rfl⟩ := hstep
    exact ⟨h.recorded, h.sending, h.holding⟩
  | responseFailed message =>
    simp only [exchangeStep, Option.ite_none_right_eq_some, Option.some.injEq] at hstep
    obtain ⟨hstage, rfl⟩ := hstep
    exact h.finish hstage _
  | responseEnded =>
    simp only [exchangeStep, Option.ite_none_right_eq_some, Option.some.injEq] at hstep
    obtain ⟨hstage, rfl⟩ := hstep
    exact h.finish hstage _
  | responseDropped =>
    simp only [exchangeStep, Option.ite_none_right_eq_some, Option.some.injEq] at hstep
    obtain ⟨hstage, rfl⟩ := hstep
    exact h.finish hstage _

theorem sound_start (h : contentLengthExceeds request.headers cfg.maxRequestBodyBytes = false) :
    Sound request (start cfg request) := by
  rw [start, h]
  refine ⟨by simp, fun _ => ⟨⟨List.nil_prefix, fun _ => rfl, Nat.zero_le _, ?_, rfl, rfl⟩, rfl⟩, ?_⟩
  · exact fun hend => (request.ended_eq hend).symm
  · rintro ⟨⟩

/-- A request that is refused by its length has a body, and its event says otherwise. -/
theorem refused_incomplete (h : contentLengthExceeds request.headers cfg.maxRequestBodyBytes = true) :
    ¬(refusedEvent cfg).Complete request := by
  intro hcomplete
  obtain ⟨n, hn, hlt⟩ := (Option.any_eq_true _ _).mp h
  have hlen := request.announced n hn
  rw [← hcomplete rfl] at hlen
  rw [decide_eq_true_eq] at hlt
  simp only [refusedEvent, List.length_nil] at hlen
  omega

/-- The recorded events of all runs tell the truth about the body exactly when the request is not
    refused by its `Content-Length`. -/
theorem recorded_body_complete_iff (cfg : ProxyConfig) (request : Request) :
    (∀ s, Reaches (exchangeStep cfg request) anyAct (start cfg request) s →
      ∀ event ∈ s.recorded, event.Complete request) ↔
      contentLengthExceeds request.headers cfg.maxRequestBodyBytes = false := by
  constructor
  · intro hall
    rw [← Bool.not_eq_true]
    intro hrefused
    refine refused_incomplete hrefused (hall _ (.refl _) _ ?_)
    rw [start, if_pos hrefused]
    exact List.mem_singleton.mpr rfl
  · rintro h s hrun
    exact (hrun.inv (I := Sound request) (fun _ _ _ hs _ hstep => hs.step hstep)
      (sound_start h)).recorded

/-- A request of two bytes, under a limit of one. -/
def twoBytes : Request where
  headers := [("content-length".toList, utf8 ['2'])]
  whole := [0x78, 0x79]
  exact := some 2
  ended := false
  announced := by
    intro n hn
    have htwo : some 2 = some n := hn
    exact (Option.some.inj htwo).symm
  exact_eq := by simp
  ended_eq := by simp

/-- Its event is recorded with an empty body that is not marked truncated. -/
theorem refused_body_not_marked :
    ∃ s, Reaches (exchangeStep ⟨1, 1⟩ twoBytes) anyAct (start ⟨1, 1⟩ twoBytes) s ∧
      ∃ event ∈ s.recorded, event.requestBodyTruncated = false ∧ event.requestBody ≠ twoBytes.whole :=
  ⟨_, .refl _, refusedEvent ⟨1, 1⟩, List.mem_singleton.mpr rfl, rfl, by decide⟩

end Llmtrace.Proxy
