import Llmtrace.Schemes.Json
import Llmtrace.Schemes.Text

/-! The capture of a WebSocket session (`proxy_websocket` in `proxy.rs`). Two loops forward the messages
    of the client and of the upstream. Each holds the shared statistics while it counts a message and
    captures it, so a session is a sequence of arrivals from both sides in any order; a message that is
    too large ends it.

    Both directions fill one list of frames and share one budget of text bytes. A message that is not
    captured as it is, for whichever reason, sets the mark `frames_truncated`. -/

namespace Llmtrace.Proxy
open Schemes

/-! ### Messages -/

/-- A message of the client. -/
inductive AxumWsMessage where
  | text (content : String)
  | binary (bytes : Bytes)
  | ping (bytes : Bytes)
  | pong (bytes : Bytes)
  | close

/-- A message of the upstream. -/
inductive TungsteniteMessage where
  | text (content : String)
  | binary (bytes : Bytes)
  | ping (bytes : Bytes)
  | pong (bytes : Bytes)
  | close
  | frame

/-- What is captured of a message: its text, its type and length, or its type alone. -/
inductive WsPayload where
  | text (content : String)
  | sized (kind : String) (bytes : ℕ)
  | bare (kind : String)

/-- What is captured of a client's message. -/
def AxumWsMessage.payload : AxumWsMessage → WsPayload
  | .text content => .text content
  | .binary bytes => .sized "binary" bytes.length
  | .ping bytes => .sized "ping" bytes.length
  | .pong bytes => .sized "pong" bytes.length
  | .close => .bare "close"

/-- What is captured of an upstream's message. -/
def TungsteniteMessage.payload : TungsteniteMessage → WsPayload
  | .text content => .text content
  | .binary bytes => .sized "binary" bytes.length
  | .ping bytes => .sized "ping" bytes.length
  | .pong bytes => .sized "pong" bytes.length
  | .close => .bare "close"
  | .frame => .bare "frame"

/-- `ws_message_size` -/
def AxumWsMessage.size : AxumWsMessage → ℕ
  | .text content => utf8Len content.toList
  | .binary bytes | .ping bytes | .pong bytes => bytes.length
  | .close => 0

/-- `tungstenite_message_size` -/
def TungsteniteMessage.size : TungsteniteMessage → ℕ
  | .text content => utf8Len content.toList
  | .binary bytes | .ping bytes | .pong bytes => bytes.length
  | .close | .frame => 0

/-! ### The statistics -/

/-- `MAX_WEBSOCKET_CAPTURED_FRAMES` -/
def maxWebsocketCapturedFrames : ℕ := 200

/-- `WsStats` -/
structure WsStats where
  clientFrames : ℕ := 0
  upstreamFrames : ℕ := 0
  bytesIn : ℤ := 0
  bytesOut : ℤ := 0
  frames : List Json := []
  framesTruncated : Bool := false
  capturedTextBytes : ℕ := 0

/-- `utf8_prefix` -/
def utf8Prefix (value : String) (maxBytes : ℕ) : String :=
  if utf8Len value.toList ≤ maxBytes then value else String.ofList (truncateUtf8 value.toList maxBytes)

/-- The frame of a text, of which `captured` is kept. -/
def textFrame (direction captured : String) (textTruncated : Bool) : Json :=
  .obj ([("direction", .str direction), ("text", .str captured)] ++
    (if textTruncated then [("text_truncated", .bool true)] else []) ++ [("type", .str "text")])

/-- `capture_text_ws_frame` -/
def captureTextWsFrame (stats : WsStats) (direction text : String) (captureLimit : ℕ) : WsStats :=
  let remaining := captureLimit - stats.capturedTextBytes
  if remaining = 0 ∧ text ≠ "" then { stats with framesTruncated := true }
  else
    let captured := utf8Prefix text remaining
    let textTruncated := decide (utf8Len captured.toList < utf8Len text.toList)
    { stats with
      capturedTextBytes := min (stats.capturedTextBytes + utf8Len captured.toList) (2 ^ 64 - 1)
      framesTruncated := stats.framesTruncated || textTruncated
      frames := stats.frames ++ [textFrame direction captured textTruncated] }

/-- The frame of a message that is only measured. -/
def sizedFrame (direction kind : String) (bytes : ℕ) : Json :=
  .obj [("bytes", .int bytes), ("direction", .str direction), ("type", .str kind)]

/-- The frame of a message of which only the kind is kept. -/
def bareFrame (direction kind : String) : Json :=
  .obj [("direction", .str direction), ("type", .str kind)]

/-- What the two functions of the capture share. -/
def capturePayload (stats : WsStats) (direction : String) (payload : WsPayload) (captureLimit : ℕ) :
    WsStats :=
  if maxWebsocketCapturedFrames ≤ stats.frames.length then { stats with framesTruncated := true }
  else
    match payload with
    | .text text => captureTextWsFrame stats direction text captureLimit
    | .sized kind bytes => { stats with frames := stats.frames ++ [sizedFrame direction kind bytes] }
    | .bare kind => { stats with frames := stats.frames ++ [bareFrame direction kind] }

/-- `capture_ws_message` -/
def captureWsMessage (stats : WsStats) (direction : String) (message : AxumWsMessage)
    (captureLimit : ℕ) : WsStats := capturePayload stats direction message.payload captureLimit

/-- `capture_tungstenite_message` -/
def captureTungsteniteMessage (stats : WsStats) (direction : String) (message : TungsteniteMessage)
    (captureLimit : ℕ) : WsStats := capturePayload stats direction message.payload captureLimit

/-! ### The bytes of a session -/

/-- `MAX_WEBSOCKET_MESSAGE_BYTES`, the largest message limit that `validate_proxy` lets pass. -/
def maxWebsocketMessageBytes : ℕ := 64 * 1024 * 1024

/-- `MAX_WEBSOCKET_SESSION_BYTES`, the largest session limit that `validate_proxy` lets pass. -/
def maxWebsocketSessionBytes : ℕ := 2 * 1024 * 1024 * 1024

/-- The limits of the configuration, as it checks them. -/
structure WsLimits where
  message : ℕ
  session : ℕ
  message_positive : 0 < message
  message_le : message ≤ maxWebsocketMessageBytes
  session_positive : 0 < session
  session_le : session ≤ maxWebsocketSessionBytes

/-- `n as i64` -/
def wrapI64 (n : ℕ) : ℤ := Int.bmod n (2 ^ 64)

/-- `i64::saturating_add` -/
def saturatingAdd (a b : ℤ) : ℤ := max (-2 ^ 63) (min (a + b) (2 ^ 63 - 1))

/-- `n as u128` -/
def wrapU128 (n : ℤ) : ℤ := if n < 0 then n + 2 ^ 128 else n

/-- `add_ws_bytes` -/
def addWsBytes (direction : String) (current : ℤ) (messageSize maxMessageBytes maxSessionBytes : ℕ) :
    Except String ℤ :=
  if maxMessageBytes < messageSize then
    .error s!"websocket {direction} message exceeds configured limit of {maxMessageBytes} bytes"
  else
    let next := saturatingAdd current (wrapI64 messageSize)
    if maxSessionBytes < wrapU128 next then
      .error s!"websocket {direction} session exceeds configured limit of {maxSessionBytes} bytes"
    else .ok next

/-! ### A session -/

/-- A message of either side. -/
inductive WsArrival where
  | client (message : AxumWsMessage)
  | upstream (message : TungsteniteMessage)

namespace WsArrival

/-- The field `direction` of a frame. -/
def direction : WsArrival → String
  | client _ => "client"
  | upstream _ => "upstream"

/-- What is captured of a message. -/
def payload : WsArrival → WsPayload
  | client message => message.payload
  | upstream message => message.payload

/-- The bytes that an arrival counts for the client. -/
def sizeIn : WsArrival → ℕ
  | client message => message.size
  | upstream _ => 0

/-- The bytes that an arrival counts for the upstream. -/
def sizeOut : WsArrival → ℕ
  | client _ => 0
  | upstream message => message.size

end WsArrival

/-- What the loop that reads the message does to the statistics. -/
def receive (limits : WsLimits) (stats : WsStats) : WsArrival → Except String WsStats
  | .client message =>
    (addWsBytes "client" stats.bytesIn message.size limits.message limits.session).map fun bytesIn =>
      captureWsMessage { stats with bytesIn, clientFrames := stats.clientFrames + 1 } "client" message
        limits.session
  | .upstream message =>
    (addWsBytes "upstream" stats.bytesOut message.size limits.message limits.session).map fun bytesOut =>
      captureTungsteniteMessage { stats with bytesOut, upstreamFrames := stats.upstreamFrames + 1 }
        "upstream" message limits.session

/-- The accepted messages, and the error that has ended the session. -/
structure WsSession where
  stats : WsStats := {}
  accepted : List WsArrival := []
  error : Option String := none

/-- A message arrives; after an error there is no more. -/
def WsSession.next (limits : WsLimits) (s : WsSession) (arrival : WsArrival) : WsSession :=
  if s.error.isSome then s
  else
    match receive limits s.stats arrival with
    | .ok stats => { s with stats, accepted := s.accepted ++ [arrival] }
    | .error message => { s with error := some message }

/-- The session after a list of messages. -/
def session (limits : WsLimits) (arrivals : List WsArrival) : WsSession :=
  arrivals.foldl (WsSession.next limits) {}

/-! ### Frames and messages -/

/-- The frame of a message that is captured as it is. -/
def wholeFrame (arrival : WsArrival) : Json :=
  match arrival.payload with
  | .text text => textFrame arrival.direction text false
  | .sized kind bytes => sizedFrame arrival.direction kind bytes
  | .bare kind => bareFrame arrival.direction kind

/-- The frame shows the message: whole, or a text cut between two characters. -/
def Shows (arrival : WsArrival) (frame : Json) : Prop :=
  frame = wholeFrame arrival ∨ ∃ text captured, arrival.payload = .text text ∧
    captured.toList <+: text.toList ∧ frame = textFrame arrival.direction captured true

/-- The captured text of a frame. -/
def frameText (frame : Json) : Option String := (frame.get "text").bind Json.asStr

/-- The bytes of the captured texts. -/
def textBytes (frames : List Json) : ℕ := ((frames.filterMap frameText).map fun t => utf8Len t.toList).sum

/-- The frames of a session that has accepted these messages: they show some of them in their order,
    and all of them whole where no mark says otherwise. -/
structure Framed (limits : WsLimits) (accepted : List WsArrival) (stats : WsStats) : Prop where
  framesMost : stats.frames.length ≤ maxWebsocketCapturedFrames
  textSum : stats.capturedTextBytes = textBytes stats.frames
  textMost : stats.capturedTextBytes ≤ limits.session
  shown : ∃ kept, kept.Sublist accepted ∧ List.Forall₂ Shows kept stats.frames
  whole : stats.framesTruncated = false → stats.frames = accepted.map wholeFrame

/-- The statistics of a session that has accepted these messages. -/
structure Faithful (limits : WsLimits) (accepted : List WsArrival) (stats : WsStats) : Prop
    extends Framed limits accepted stats where
  bytesIn : stats.bytesIn = (accepted.map WsArrival.sizeIn).sum
  bytesInMost : stats.bytesIn ≤ limits.session
  bytesOut : stats.bytesOut = (accepted.map WsArrival.sizeOut).sum
  bytesOutMost : stats.bytesOut ≤ limits.session

/-! ### One message -/

theorem frameText_textFrame (direction captured : String) (cut : Bool) :
    frameText (textFrame direction captured cut) = some captured := by
  cases cut <;> rfl

theorem textBytes_append (frames frames' : List Json) :
    textBytes (frames ++ frames') = textBytes frames + textBytes frames' := by
  unfold textBytes
  rw [List.filterMap_append, List.map_append, List.sum_append]

theorem utf8Prefix_toList (value : String) (maxBytes : ℕ) :
    (utf8Prefix value maxBytes).toList = truncateUtf8 value.toList maxBytes := by
  unfold utf8Prefix
  split
  · rename_i hle
    rw [truncateUtf8_of_le hle]
  · rw [String.toList_ofList]

/-- A frame is added and its text taken off the budget. -/
def WsStats.add (stats : WsStats) (frame : Json) (cut : Bool) : WsStats :=
  { stats with
    capturedTextBytes := stats.capturedTextBytes + textBytes [frame]
    framesTruncated := stats.framesTruncated || cut
    frames := stats.frames ++ [frame] }

/-- The frame shows the message, and is marked where it does not show all of it. -/
structure Addable (arrival : WsArrival) (limit : ℕ) (stats : WsStats) (frame : Json) (cut : Bool) :
    Prop where
  shown : Shows arrival frame
  whole : cut = false → frame = wholeFrame arrival
  fits : stats.capturedTextBytes + textBytes [frame] ≤ limit

/-- What capturing a text can do. The budget is a size in memory, so the sum does not saturate. -/
theorem captureTextWsFrame_cases {stats : WsStats} {arrival : WsArrival} {content : String} {limit : ℕ}
    (hpayload : arrival.payload = .text content) (hlimit : limit < 2 ^ 64)
    (htext : stats.capturedTextBytes ≤ limit) :
    captureTextWsFrame stats arrival.direction content limit = { stats with framesTruncated := true } ∨
    ∃ frame cut, Addable arrival limit stats frame cut ∧
      captureTextWsFrame stats arrival.direction content limit = stats.add frame cut := by
  unfold captureTextWsFrame
  simp only
  split
  · exact .inl rfl
  right
  generalize hcaptured : utf8Prefix content (limit - stats.capturedTextBytes) = captured
  have hlist : captured.toList = truncateUtf8 content.toList (limit - stats.capturedTextBytes) := by
    rw [← hcaptured]
    exact utf8Prefix_toList _ _
  have hfits : utf8Len captured.toList ≤ limit - stats.capturedTextBytes := by
    rw [hlist]
    exact utf8Len_truncateUtf8_le _ _
  have hbytes : ∀ cut, textBytes [textFrame arrival.direction captured cut] = utf8Len captured.toList := by
    intro cut
    simp [textBytes, frameText_textFrame]
  have hsum : min (stats.capturedTextBytes + utf8Len captured.toList) (2 ^ 64 - 1) =
      stats.capturedTextBytes + utf8Len captured.toList := by omega
  cases hcut : decide (utf8Len captured.toList < utf8Len content.toList) with
  | false =>
    -- nothing is missing, so the text is the captured one
    have hsame : captured = content := by
      rw [decide_eq_false_iff_not, hlist, utf8Len_truncateUtf8_lt] at hcut
      apply String.toList_injective
      rw [hlist, truncateUtf8_of_le (Nat.le_of_not_lt hcut)]
    have hwhole : textFrame arrival.direction captured false = wholeFrame arrival := by
      rw [wholeFrame, hpayload, hsame]
    refine ⟨_, false, ⟨.inl hwhole, fun _ => hwhole, ?_⟩, ?_⟩
    · rw [hbytes]
      omega
    · rw [WsStats.add, hbytes, hsum]
  | true =>
    refine ⟨_, true, ⟨.inr ⟨content, captured, hpayload, ?_, rfl⟩, (by rintro ⟨⟩), ?_⟩, ?_⟩
    · rw [hlist]
      exact truncateUtf8_isPrefix _ _
    · rw [hbytes]
      omega
    · rw [WsStats.add, hbytes, hsum]

/-- A frame without text takes nothing of the budget. -/
theorem addable_bare {stats : WsStats} {arrival : WsArrival} {limit : ℕ} (frame : Json)
    (hnone : frameText frame = none) (hwhole : frame = wholeFrame arrival)
    (htext : stats.capturedTextBytes ≤ limit) :
    Addable arrival limit stats frame false ∧
      { stats with frames := stats.frames ++ [frame] } = stats.add frame false := by
  have hzero : textBytes [frame] = 0 := by simp [textBytes, hnone]
  refine ⟨⟨.inl hwhole, fun _ => hwhole, by omega⟩, ?_⟩
  rw [WsStats.add, hzero, Bool.or_false]
  rfl

/-- What capturing can do: leave the message out, or add a frame that shows it. -/
theorem capturePayload_cases {stats : WsStats} (arrival : WsArrival) {limit : ℕ} (hlimit : limit < 2 ^ 64)
    (htext : stats.capturedTextBytes ≤ limit) :
    capturePayload stats arrival.direction arrival.payload limit = { stats with framesTruncated := true } ∨
    ∃ frame cut, Addable arrival limit stats frame cut ∧
      stats.frames.length < maxWebsocketCapturedFrames ∧
      capturePayload stats arrival.direction arrival.payload limit = stats.add frame cut := by
  unfold capturePayload
  split
  · exact .inl rfl
  rename_i hroom
  rw [not_le] at hroom
  cases hpayload : arrival.payload with
  | sized kind bytes =>
    obtain ⟨hadd, heq⟩ := addable_bare (sizedFrame arrival.direction kind bytes) rfl
      (by rw [wholeFrame, hpayload]) htext
    exact .inr ⟨_, _, hadd, hroom, heq⟩
  | bare kind =>
    obtain ⟨hadd, heq⟩ := addable_bare (bareFrame arrival.direction kind) rfl
      (by rw [wholeFrame, hpayload]) htext
    exact .inr ⟨_, _, hadd, hroom, heq⟩
  | text content =>
    rcases captureTextWsFrame_cases hpayload hlimit htext with h | ⟨frame, cut, hadd, h⟩
    · exact .inl h
    · exact .inr ⟨frame, cut, hadd, hroom, h⟩

/-- A message that is counted adds its size; within the limits nothing wraps or saturates. -/
theorem addWsBytes_ok {limits : WsLimits} {direction : String} {current next : ℤ} {size : ℕ}
    (hlow : 0 ≤ current) (hhigh : current ≤ limits.session)
    (h : addWsBytes direction current size limits.message limits.session = .ok next) :
    next = current + size ∧ next ≤ limits.session := by
  have hmessage := limits.message_le
  have hsession := limits.session_le
  unfold maxWebsocketMessageBytes at hmessage
  unfold maxWebsocketSessionBytes at hsession
  unfold addWsBytes at h
  split at h
  · cases h
  rename_i hsize
  have hwrap : wrapI64 size = size := by
    unfold wrapI64
    exact Int.bmod_eq_of_le (by omega) (by omega)
  have hsum : saturatingAdd current (wrapI64 size) = current + size := by
    rw [hwrap, saturatingAdd]
    omega
  simp only [hsum] at h
  split at h
  · cases h
  · rename_i hfits
    cases h
    rw [wrapU128, if_neg (by omega)] at hfits
    exact ⟨rfl, by omega⟩

theorem Framed.capture {limits : WsLimits} {accepted : List WsArrival} {stats : WsStats}
    (h : Framed limits accepted stats) (arrival : WsArrival) :
    Framed limits (accepted ++ [arrival])
      (capturePayload stats arrival.direction arrival.payload limits.session) := by
  have hlimit : limits.session < 2 ^ 64 := by
    have := limits.session_le
    unfold maxWebsocketSessionBytes at this
    omega
  obtain ⟨kept, hkept, hshown⟩ := h.shown
  rcases capturePayload_cases arrival hlimit h.textMost with heq | ⟨frame, cut, hadd, hroom, heq⟩
  · rw [heq]
    exact ⟨h.framesMost, h.textSum, h.textMost,
      ⟨kept, hkept.trans (List.sublist_append_left _ _), hshown⟩, by rintro ⟨⟩⟩
  · rw [heq, WsStats.add]
    refine ⟨?_, ?_, hadd.fits, ⟨kept ++ [arrival], ?_, ?_⟩, ?_⟩
    · rw [List.length_append, List.length_singleton]
      exact hroom
    · rw [textBytes_append, h.textSum]
    · exact hkept.append (List.Sublist.refl _)
    · exact List.rel_append hshown (.cons hadd.shown .nil)
    · intro hwhole
      rw [Bool.or_eq_false_iff] at hwhole
      rw [h.whole hwhole.1, hadd.whole hwhole.2, List.map_append, List.map_singleton]

theorem capturePayload_bytes (stats : WsStats) (direction : String) (payload : WsPayload) (limit : ℕ) :
    (capturePayload stats direction payload limit).bytesIn = stats.bytesIn ∧
      (capturePayload stats direction payload limit).bytesOut = stats.bytesOut := by
  unfold capturePayload captureTextWsFrame
  split
  · exact ⟨rfl, rfl⟩
  · cases payload with
    | text content =>
      simp only
      split <;> exact ⟨rfl, rfl⟩
    | sized kind bytes => exact ⟨rfl, rfl⟩
    | bare kind => exact ⟨rfl, rfl⟩

theorem sum_sizes_snoc (size : WsArrival → ℕ) (accepted : List WsArrival) (arrival : WsArrival) :
    (((accepted ++ [arrival]).map size).sum : ℤ) = (accepted.map size).sum + size arrival := by
  rw [List.map_append, List.sum_append, List.map_singleton, List.sum_singleton, Nat.cast_add]

theorem Faithful.receive {limits : WsLimits} {accepted : List WsArrival} {stats stats' : WsStats}
    (h : Faithful limits accepted stats) {arrival : WsArrival}
    (hreceive : receive limits stats arrival = .ok stats') :
    Faithful limits (accepted ++ [arrival]) stats' := by
  cases arrival with
  | client message =>
    cases hadd : addWsBytes "client" stats.bytesIn message.size limits.message limits.session with
    | error text => rw [Proxy.receive, hadd] at hreceive; cases hreceive
    | ok bytesIn =>
      rw [Proxy.receive, hadd] at hreceive
      cases hreceive
      obtain ⟨hnext, hmost⟩ := addWsBytes_ok (by rw [h.bytesIn]; positivity) h.bytesInMost hadd
      have hcounted : Framed limits accepted
          { stats with bytesIn, clientFrames := stats.clientFrames + 1 } :=
        ⟨h.framesMost, h.textSum, h.textMost, h.shown, h.whole⟩
      obtain ⟨hin, hout⟩ := capturePayload_bytes
        { stats with bytesIn, clientFrames := stats.clientFrames + 1 } "client" message.payload limits.session
      refine ⟨hcounted.capture (.client message), ?_, hin.trans_le hmost, ?_, hout.trans_le h.bytesOutMost⟩
      · rw [sum_sizes_snoc, ← h.bytesIn]
        exact hin.trans hnext
      · rw [sum_sizes_snoc, ← h.bytesOut]
        exact hout.trans (add_zero _).symm
  | upstream message =>
    cases hadd : addWsBytes "upstream" stats.bytesOut message.size limits.message limits.session with
    | error text => rw [Proxy.receive, hadd] at hreceive; cases hreceive
    | ok bytesOut =>
      rw [Proxy.receive, hadd] at hreceive
      cases hreceive
      obtain ⟨hnext, hmost⟩ := addWsBytes_ok (by rw [h.bytesOut]; positivity) h.bytesOutMost hadd
      have hcounted : Framed limits accepted
          { stats with bytesOut, upstreamFrames := stats.upstreamFrames + 1 } :=
        ⟨h.framesMost, h.textSum, h.textMost, h.shown, h.whole⟩
      obtain ⟨hin, hout⟩ := capturePayload_bytes
        { stats with bytesOut, upstreamFrames := stats.upstreamFrames + 1 } "upstream" message.payload
        limits.session
      refine ⟨hcounted.capture (.upstream message), ?_, hin.trans_le h.bytesInMost, ?_, hout.trans_le hmost⟩
      · rw [sum_sizes_snoc, ← h.bytesIn]
        exact hin.trans (add_zero _).symm
      · rw [sum_sizes_snoc, ← h.bytesOut]
        exact hout.trans hnext

/-! ### Whole sessions -/

theorem Faithful.next {limits : WsLimits} {s : WsSession} (h : Faithful limits s.accepted s.stats)
    (arrival : WsArrival) :
    Faithful limits (s.next limits arrival).accepted (s.next limits arrival).stats := by
  unfold WsSession.next
  split
  · exact h
  · split
    · rename_i stats' hreceive
      exact h.receive hreceive
    · exact h

/-- Whatever arrives in whichever order, the statistics are those of the accepted messages. -/
theorem websocket_capture_faithful (limits : WsLimits) (arrivals : List WsArrival) :
    Faithful limits (session limits arrivals).accepted (session limits arrivals).stats := by
  unfold session
  induction arrivals using List.reverseRecOn with
  | nil =>
    refine ⟨⟨Nat.zero_le _, rfl, Nat.zero_le _, ⟨[], .slnil, .nil⟩, fun _ => rfl⟩, rfl, ?_, rfl, ?_⟩
    · exact Int.natCast_nonneg _
    · exact Int.natCast_nonneg _
  | append_singleton arrivals arrival ih =>
    rw [List.foldl_append]
    exact ih.next arrival

/-- Limits for the samples. -/
def smallLimits : WsLimits := ⟨4, 8, by decide, by decide, by decide, by decide⟩

/-- A message that passes, and one that is too long. -/
def twoMessages : List WsArrival :=
  [.client (.text "hi"), .upstream (.text "hello")]

theorem websocket_capture_faithful_twoMessages :
    Faithful smallLimits [.client (.text "hi")] (session smallLimits twoMessages).stats :=
  have haccepted : (session smallLimits twoMessages).accepted = [.client (.text "hi")] := by rfl
  haccepted ▸ websocket_capture_faithful smallLimits twoMessages

end Llmtrace.Proxy
