import Llmtrace.Proxy.Capture

/-! What the upstream gets of a body (`RequestCaptureStream`, `proxy_http` and `proxy_passthrough_http`
    in `proxy.rs`). The client's body goes to the upstream chunk by chunk, so a body that is too long is
    found out when a part of it is already there. Then the stream fails instead of ending: the upstream
    never takes the part for the whole.

    Both ways of proxying use the one stream; only the captured one keeps a copy. -/

namespace Llmtrace.Proxy
open Schemes

/-- What one poll of the client's body gives. -/
inductive BodyPoll where
  | pending
  | chunk (data : Bytes)
  | failed
  | ended

/-- What `poll_next` gives on. -/
inductive StreamItem where
  | pending
  | chunk (data : Bytes)
  /-- `request_body_limit_io_error` -/
  | overLimit
  | failed
  | ended

/-- `capturing` is whether a copy is kept; `validate` lets no other limit pass. -/
structure UploadConfig where
  limit : ℕ
  capturing : Bool
  valid : 0 < limit ∧ limit ≤ 2 ^ 30

/-- How much is kept; nothing of a body that is passed through. -/
def UploadConfig.captureLimit (cfg : UploadConfig) : ℕ := if cfg.capturing then cfg.limit else 0

/-- `RequestCaptureStream::poll_next` -/
def pollNext (cfg : UploadConfig) (capture : BodyCapture) : BodyPoll → StreamItem × BodyCapture
  | .chunk data =>
    let (capture, exceeded) := capture.pushRequest data cfg.captureLimit cfg.limit
    (if exceeded then .overLimit else .chunk data, capture)
  | .failed => (.failed, capture)
  | .ended => (.ended, { capture with streamEnded := true })
  | .pending => (.pending, capture)

/-- How the stream to the upstream ends. -/
inductive UploadEnd where
  | ended
  | overLimit
  | failed
  deriving DecidableEq

/-- What the client is answered. -/
inductive UploadReply where
  /-- 413 -/
  | tooLarge
  /-- 502 -/
  | upstreamError
  | answered
  deriving DecidableEq

/-- `yielded` is what the client's body has yielded, and `sent` what the upstream has got of it: whoever
    reads a stream stops at its end and at an error. -/
structure Upload where
  capture : BodyCapture := {}
  yielded : List Bytes := []
  sent : List Bytes := []
  ending : Option UploadEnd := none
  reply : Option UploadReply := none

/-- What the client, the upstream and the connection do. -/
inductive UploadAction where
  | polled (poll : BodyPoll)
  | sendFailed
  | answered
  /-- The capture is taken for the trace event when the response has ended. -/
  | taken

/-- `expected` and `ended` are what the body says of itself before the first poll. -/
def Upload.start (cfg : UploadConfig) (headers : HeaderMap) (expected : Option ℕ) (ended : Bool) : Upload :=
  { capture := { expectedBytes := expected, streamEnded := ended }
    reply := if contentLengthExceeds headers cfg.limit then some .tooLarge else none }

/-- What a poll gives goes to the upstream. -/
def Upload.deliver (s : Upload) (poll : BodyPoll) : StreamItem × BodyCapture → Upload
  | (item, capture) =>
    let s := { s with
      capture
      yielded := match poll with
        | .chunk data => s.yielded ++ [data]
        | _ => s.yielded }
    match item with
    | .pending => s
    | .chunk data => { s with sent := s.sent ++ [data] }
    | .overLimit => { s with ending := some .overLimit }
    | .failed => { s with ending := some .failed }
    | .ended => { s with ending := some .ended }

/-- A step of an upload. -/
def uploadStep (cfg : UploadConfig) (refused : Bool) (s : Upload) : UploadAction → Option Upload
  | .polled poll =>
    if refused || s.ending.isSome then none else some (s.deliver poll (pollNext cfg s.capture poll))
  | .sendFailed =>
    if s.reply.isSome then none
    else
      let (left, taken) := s.capture.take
      some { s with
        capture := left
        reply := some (if taken.limitExceeded then .tooLarge else .upstreamError) }
  | .answered => if s.reply.isSome then none else some { s with reply := some .answered }
  | .taken => if s.reply = some .answered then some { s with capture := s.capture.take.1 } else none

/-! ### What a run keeps -/

/-- The bytes of all chunks. -/
def totalLength (chunks : List Bytes) : ℕ := chunks.flatten.length

/-- What holds of an upload at any time. -/
structure WholeOrAborted (cfg : UploadConfig) (s : Upload) : Prop where
  /-- Only the chunk that passes the limit is held back. -/
  sent : s.sent = if cfg.limit < totalLength s.yielded then s.yielded.dropLast else s.yielded
  fits : totalLength s.sent ≤ cfg.limit
  aborted : s.ending = some .overLimit ↔ cfg.limit < totalLength s.yielded
  whole : s.ending = some .ended → s.sent = s.yielded
  copy : cfg.capturing = false → s.capture.bytes = []

section
variable {cfg : UploadConfig} {refused : Bool} {s t : Upload}

theorem push_totalBytes (capture : BodyCapture) (chunk : Bytes) (limit : ℕ) :
    (capture.push chunk limit).totalBytes = min (capture.totalBytes + min chunk.length i64Max) i64Max := by
  simp only [BodyCapture.push]
  split
  · rfl
  · split <;> rfl

theorem push_limitExceeded (capture : BodyCapture) (chunk : Bytes) (limit : ℕ) :
    (capture.push chunk limit).limitExceeded = capture.limitExceeded := by
  simp only [BodyCapture.push]
  split
  · rfl
  · split <;> rfl

/-- Under a limit of zero nothing is copied. -/
theorem push_bytes_zero (capture : BodyCapture) (chunk : Bytes) :
    (capture.push chunk 0).bytes = capture.bytes := by
  simp only [BodyCapture.push, Nat.not_lt_zero, if_false]
  split <;> rfl

/-- The capture counts what the body has yielded, and the stream has failed when it was too much. -/
structure UploadInv (cfg : UploadConfig) (s : Upload) : Prop where
  total : s.capture.totalBytes = min (totalLength s.yielded) i64Max
  exceeded : s.capture.limitExceeded = decide (cfg.limit < totalLength s.yielded)
  state : WholeOrAborted cfg s

theorem limit_lt_i64Max (cfg : UploadConfig) : cfg.limit < i64Max :=
  cfg.valid.2.trans_lt (by decide)

theorem totalLength_concat (chunks : List Bytes) (data : Bytes) :
    totalLength (chunks ++ [data]) = totalLength chunks + data.length := by
  simp [totalLength]

/-- While the stream is read, the body has not been too long. -/
theorem UploadInv.open_ (hinv : UploadInv cfg s) (hopen : s.ending = none) :
    totalLength s.yielded ≤ cfg.limit ∧ s.sent = s.yielded := by
  have hfits : ¬ cfg.limit < totalLength s.yielded := by
    rw [← hinv.state.aborted, hopen]
    rintro ⟨⟩
  refine ⟨by omega, ?_⟩
  rw [hinv.state.sent, if_neg hfits]

theorem chunk_inv (hinv : UploadInv cfg s) (hopen : s.ending = none) (data : Bytes) :
    UploadInv cfg (s.deliver (.chunk data) (pollNext cfg s.capture (.chunk data))) := by
  obtain ⟨hle, hsent⟩ := hinv.open_ hopen
  have hlimit := limit_lt_i64Max cfg
  have hconcat := totalLength_concat s.yielded data
  have htotal : (s.capture.push data cfg.captureLimit).totalBytes =
      min (totalLength (s.yielded ++ [data])) i64Max := by
    rw [push_totalBytes, hinv.total]
    omega
  have hold : s.capture.limitExceeded = false := by
    rw [hinv.exceeded]
    exact decide_eq_false (by omega)
  have hexceeded : (s.capture.pushRequest data cfg.captureLimit cfg.limit).2 =
      decide (cfg.limit < totalLength (s.yielded ++ [data])) := by
    simp only [BodyCapture.pushRequest, push_limitExceeded, hold, Bool.false_or, htotal]
    exact decide_eq_decide.mpr (by omega)
  have hcopy : cfg.capturing = false →
      (s.capture.pushRequest data cfg.captureLimit cfg.limit).1.bytes = [] := by
    intro hoff
    simp only [BodyCapture.pushRequest, UploadConfig.captureLimit, hoff, Bool.false_eq_true, if_false,
      push_bytes_zero]
    exact hinv.state.copy hoff
  by_cases hover : cfg.limit < totalLength (s.yielded ++ [data])
  · rw [decide_eq_true hover] at hexceeded
    simp only [pollNext, hexceeded, if_true, Upload.deliver]
    refine ⟨htotal, hexceeded.trans (decide_eq_true hover).symm, ?_, ?_, ?_, ?_, hcopy⟩
    · simp only [if_pos hover, List.dropLast_concat, hsent]
    · simpa only [hsent] using hle
    · exact iff_of_true rfl hover
    · rintro ⟨⟩
  · rw [decide_eq_false hover] at hexceeded
    simp only [pollNext, hexceeded, Bool.false_eq_true, if_false, Upload.deliver]
    refine ⟨htotal, hexceeded.trans (decide_eq_false hover).symm, ?_, ?_, ?_, ?_, hcopy⟩
    · simp only [if_neg hover, hsent]
    · simp only [hsent]
      omega
    · rw [hopen]
      exact iff_of_false nofun hover
    · rw [hopen]
      rintro ⟨⟩

/-- The stream stops without a chunk. -/
theorem stop_inv (hinv : UploadInv cfg s) (hopen : s.ending = none) {capture : BodyCapture}
    {ending : Option UploadEnd} (htotal : capture.totalBytes = s.capture.totalBytes)
    (hexceeded : capture.limitExceeded = s.capture.limitExceeded)
    (hbytes : capture.bytes = s.capture.bytes) (hending : ending ≠ some .overLimit) :
    UploadInv cfg { s with capture, ending } := by
  obtain ⟨hle, hsent⟩ := hinv.open_ hopen
  refine ⟨htotal.trans hinv.total, hexceeded.trans hinv.exceeded, hinv.state.sent, hinv.state.fits, ?_,
    fun _ => hsent, fun hoff => hbytes.trans (hinv.state.copy hoff)⟩
  exact iff_of_false hending (by simpa using hle)

theorem uploadStep_inv (hinv : UploadInv cfg s) {a : UploadAction}
    (hstep : uploadStep cfg refused s a = some t) : UploadInv cfg t := by
  cases a with
  | polled poll =>
    simp only [uploadStep] at hstep
    split at hstep
    · cases hstep
    rename_i hguard
    simp only [Bool.or_eq_true, not_or, Option.not_isSome_iff_eq_none] at hguard
    cases hstep
    cases poll with
    | pending => exact hinv
    | chunk data => exact chunk_inv hinv hguard.2 data
    | failed => exact stop_inv hinv hguard.2 rfl rfl rfl (by rintro ⟨⟩)
    | ended => exact stop_inv hinv hguard.2 rfl rfl rfl (by rintro ⟨⟩)
  | sendFailed =>
    simp only [uploadStep] at hstep
    split at hstep
    · cases hstep
    · cases hstep
      exact ⟨hinv.total, hinv.exceeded, { hinv.state with copy := fun _ => rfl }⟩
  | answered =>
    simp only [uploadStep] at hstep
    split at hstep
    · cases hstep
    · cases hstep
      exact ⟨hinv.total, hinv.exceeded, { hinv.state with }⟩
  | taken =>
    simp only [uploadStep] at hstep
    split at hstep
    · cases hstep
      exact ⟨hinv.total, hinv.exceeded, { hinv.state with copy := fun _ => rfl }⟩
    · cases hstep

theorem start_uploadInv (cfg : UploadConfig) (headers : HeaderMap) (expected : Option ℕ) (ended : Bool) :
    UploadInv cfg (Upload.start cfg headers expected ended) := by
  have hpos := cfg.valid.1
  have hzero : ¬ cfg.limit < totalLength [] := Nat.not_lt_zero _
  refine ⟨rfl, (decide_eq_false hzero).symm, ?_, Nat.zero_le _, iff_of_false nofun hzero, nofun, fun _ => rfl⟩
  exact (if_neg hzero).symm

end

/-- CORRECT: in every run, whatever the client sends and however the exchange goes, the upstream gets the
    body whole, or a part within the limit on a stream that fails; and a client whose body was too long
    is told so. -/
theorem upload_whole_or_aborted (cfg : UploadConfig) (headers : HeaderMap) (expected : Option ℕ) (ended : Bool)
    (s : Upload)
    (hrun : Reaches (uploadStep cfg (contentLengthExceeds headers cfg.limit)) anyAct
      (Upload.start cfg headers expected ended) s) :
    WholeOrAborted cfg s ∧
      ∀ t, uploadStep cfg (contentLengthExceeds headers cfg.limit) s .sendFailed = some t →
        (t.reply = some .tooLarge ↔ cfg.limit < totalLength s.yielded) := by
  have hinv : UploadInv cfg s := hrun.inv (I := UploadInv cfg) (fun _ _ _ hs _ hstep => uploadStep_inv hs hstep)
    (start_uploadInv cfg headers expected ended)
  refine ⟨hinv.state, fun t hfailed => ?_⟩
  simp only [uploadStep] at hfailed
  split at hfailed
  · cases hfailed
  · cases hfailed
    simp only [BodyCapture.take, hinv.exceeded, decide_eq_true_eq, Option.some.injEq]
    split
    · exact iff_of_true rfl ‹_›
    · exact iff_of_false nofun ‹_›

/-- Two chunks under a limit of three bytes: the second goes over it. -/
theorem upload_whole_or_aborted_twoChunks :
    let cfg : UploadConfig := ⟨3, false, by decide⟩
    ∃ s, run (uploadStep cfg false) (Upload.start cfg [] none false)
        [.polled (.chunk [1, 2]), .polled (.chunk [3, 4])] = some s ∧
      WholeOrAborted cfg s ∧ s.sent = [[1, 2]] ∧ s.ending = some .overLimit := by
  intro cfg
  have hrun : run (uploadStep cfg false) (Upload.start cfg [] none false)
      [.polled (.chunk [1, 2]), .polled (.chunk [3, 4])] = some _ := rfl
  exact ⟨_, hrun, (upload_whole_or_aborted cfg [] none false _ (reaches_of_run hrun)).1, rfl, rfl⟩

end Llmtrace.Proxy
