import Llmtrace.Schemes.Text
import Llmtrace.Storage.Frames

/-! Captured bodies: `prepare_trace_payloads` puts the two bodies of a trace into archive segments
    (`storage/archive.rs`) and `load_trace_bodies` reads them back (`storage/bodies.rs`).

    Every size limit of the writer comes from the configuration; the reader has one constant of its
    own, which bounds the segment and so the body together with its frame header. -/

namespace Llmtrace.Storage
open Schemes

/-! ### Limits -/

/-- `MAX_REQUEST_BODY_BYTES` -/
def maxRequestBodyBytes : ℕ := 1024 * 1024 * 1024

/-- `MAX_RESPONSE_BODY_BYTES` -/
def maxResponseBodyBytes : ℕ := 1024 * 1024 * 1024

/-- `MAX_WEBSOCKET_MESSAGE_BYTES` -/
def maxWebsocketMessageBytes : ℕ := 64 * 1024 * 1024

/-- `MAX_WEBSOCKET_SESSION_BYTES` -/
def maxWebsocketSessionBytes : ℕ := 2 * 1024 * 1024 * 1024

/-- `MAX_ARCHIVE_SEGMENT_UNCOMPRESSED_BYTES` -/
def maxArchiveSegmentUncompressedBytes : ℕ := 2 * 1024 * 1024 * 1024

/-- `MAX_ARCHIVE_COMPRESSION_LEVEL` -/
def maxArchiveCompressionLevel : ℤ := 10

/-- `MAX_ARCHIVE_SEGMENT_DECODE_BYTES` -/
def maxArchiveSegmentDecodeBytes : ℕ := 2 * 1024 * 1024 * 1024

/-- `ProxyConfig`, its capture limits. -/
structure CaptureLimits where
  maxRequestBodyBytes : ℕ
  maxResponseBodyBytes : ℕ
  maxWebsocketMessageBytes : ℕ
  maxWebsocketSessionBytes : ℕ

/-- The section `archive`. -/
structure ArchiveConfig where
  storageBackend : Backend
  filesystemRoot : String
  segmentUncompressedBytes : ℕ
  compressionLevel : ℤ

/-- `validate_positive_range` -/
def validatePositiveRange (field : String) (value max : ℕ) : List String :=
  if value = 0 then [s!"{field} must be greater than 0"]
  else if max < value then [s!"{field} must be at most {max}"]
  else []

/-- `validate_proxy`, the capture limits. -/
def CaptureLimits.validate (c : CaptureLimits) : List String :=
  validatePositiveRange "proxy.max_request_body_bytes" c.maxRequestBodyBytes
      Storage.maxRequestBodyBytes ++
    validatePositiveRange "proxy.max_response_body_bytes" c.maxResponseBodyBytes
      Storage.maxResponseBodyBytes ++
    validatePositiveRange "proxy.max_websocket_message_bytes" c.maxWebsocketMessageBytes
      Storage.maxWebsocketMessageBytes ++
    validatePositiveRange "proxy.max_websocket_session_bytes" c.maxWebsocketSessionBytes
      Storage.maxWebsocketSessionBytes

/-- `validate_archive` -/
def ArchiveConfig.validate (c : ArchiveConfig) : List String :=
  (if c.storageBackend = .filesystem ∧ c.filesystemRoot = "" then
    ["archive.filesystem_root must not be empty when archive.storage_backend is filesystem"]
  else []) ++
    validatePositiveRange "archive.segment_uncompressed_bytes" c.segmentUncompressedBytes
      maxArchiveSegmentUncompressedBytes ++
    if c.compressionLevel ≤ 0 then ["archive.compression_level must be greater than 0"]
    else if maxArchiveCompressionLevel < c.compressionLevel then
      [s!"archive.compression_level must be at most {maxArchiveCompressionLevel}"]
    else []

theorem validatePositiveRange_nil {field : String} {value max : ℕ}
    (h : validatePositiveRange field value max = []) : 0 < value ∧ value ≤ max := by
  unfold validatePositiveRange at h
  split at h
  · cases h
  split at h
  · cases h
  omega

theorem ArchiveConfig.segment_le {c : ArchiveConfig} (h : c.validate = []) :
    c.segmentUncompressedBytes ≤ maxArchiveSegmentDecodeBytes := by
  simp only [ArchiveConfig.validate, List.append_eq_nil_iff] at h
  exact (validatePositiveRange_nil h.1.2).2

/-! ### Writing -/

/-- What the two bodies of a trace record are archived from. -/
structure TraceBodies where
  id : ℕ
  contentType : Option String
  body : Direction → Bytes
  truncated : Direction → Bool

/-- The payload of a body. -/
def TraceBodies.payload (t : TraceBodies) : Direction → ArchivePayload
  | .request => ⟨t.id, .request, none, t.body .request⟩
  | .response => ⟨t.id, .response, t.contentType, t.body .response⟩

/-- `websocket_response_body`: the captured frames as JSON, cut at the limit. -/
def websocketResponseBody (lib : ArchiveLib) (frames : List Json) (limit : ℕ) : Bytes × Bool :=
  match lib.toVec (.arr frames) with
  | none => ([91, 93], true)
  | some body => if limit < body.length then (body.take limit, true) else (body, false)

/-- The bodies that the proxy captures: of an HTTP exchange, each within its own limit; of a
    WebSocket session, no request body and the frames as the response body. -/
inductive Captured (lib : ArchiveLib) (c : CaptureLimits) (t : TraceBodies) : Prop where
  | http (request : (t.body .request).length ≤ c.maxRequestBodyBytes)
      (response : (t.body .response).length ≤ c.maxResponseBodyBytes)
  | websocket (frames : List Json) (request : t.body .request = [])
      (response : t.body .response = (websocketResponseBody lib frames c.maxWebsocketSessionBytes).1)
      (contentType : t.contentType = some "websocket")

/-- Why a trace is not prepared. -/
inductive PrepareError where
  | frame (e : FrameError)
  /-- "archive segment append is too large" -/
  | appendTooLarge
  deriving DecidableEq

/-- `prepare_trace_payloads` -/
def prepareTracePayloads (lib : ArchiveLib) (archive : ArchiveConfig) (t : TraceBodies) :
    Except PrepareError (List PreparedArchiveSegment) := do
  let prepared ← (([.request, .response].map t.payload).mapM (prepareArchiveRecord lib)).mapError .frame
  match prepared.foldlM (fun total record => checkedAdd total record.frame.length) 0 with
  | none => .error .appendTooLarge
  | some total =>
    if archive.segmentUncompressedBytes < total then
      (prepared.mapM fun record =>
        prepareArchiveSegment lib [record] archive.compressionLevel).mapError .frame
    else ((prepareArchiveSegment lib prepared archive.compressionLevel).map ([·])).mapError .frame

/-! ### Reading -/

/-- A row of `payload_archive_records`, as `load_trace_bodies` selects it. -/
structure BodyRecord where
  direction : Direction
  segmentId : ℕ
  uncompressedOffset : ℤ
  uncompressedLen : ℤ
  bodySha256 : String
  complete : Bool

/-- A row of `payload_archive_segments` with its blob. -/
structure BodySegment where
  id : ℕ
  uncompressedBytes : ℤ
  storageBackend : String
  storageKey : String
  checksumSha256 : String
  compressedPayload : Option Bytes

/-- Why a segment is not read. -/
inductive ReadError where
  | frame (e : Fault)
  | io | zstd | limitTooLarge
  | exceedsLimit (limit : ℕ)
  | negativeSize | sizeTooLarge | exceedsDecodeLimit
  | blobMissing
  | unknownBackend (backend : String)
  | checksumMismatch | bodyLengthMismatch | bodyChecksumMismatch
  deriving DecidableEq

/-- The texts of the errors; those of the file system, zstd and the frames are their own. -/
def ReadError.message : ReadError → Option String
  | .frame (.error e) => e.message
  | .frame .panicked | .io | .zstd => none
  | .limitTooLarge => some "body decompression limit is too large"
  | .exceedsLimit limit => some s!"stored trace body exceeds decompression limit of {limit} bytes"
  | .negativeSize => some "archive segment size must not be negative"
  | .sizeTooLarge => some "archive segment size is too large"
  | .exceedsDecodeLimit =>
    some s!"archive segment exceeds decode limit of {maxArchiveSegmentDecodeBytes} bytes"
  | .blobMissing => some "archive blob is missing"
  | .unknownBackend backend => some s!"unknown archive storage backend \"{backend}\""
  | .checksumMismatch => some "archive checksum mismatch"
  | .bodyLengthMismatch => some "archive body length mismatch"
  | .bodyChecksumMismatch => some "archive body checksum mismatch"

/-- `archive_decode_limit` -/
def archiveDecodeLimit (uncompressedBytes : ℤ) : Except ReadError ℕ :=
  if uncompressedBytes < 0 then .error .negativeSize
  else if u64Max < uncompressedBytes.toNat then .error .sizeTooLarge
  else if maxArchiveSegmentDecodeBytes < uncompressedBytes.toNat then .error .exceedsDecodeLimit
  else .ok uncompressedBytes.toNat

section
variable (lib : ArchiveLib)

/-- A stream that fails to decode fails here too, or is over the limit before it does. -/
def decompressWithLimit (data : Bytes) (limit : ℕ) : Except ReadError Bytes :=
  if data = [] then .ok []
  else
    match checkedAdd limit 1 with
    | none => .error .limitTooLarge
    | some _ =>
      match lib.decodeAll data with
      | none => .error .zstd
      | some output => if limit < output.length then .error (.exceedsLimit limit) else .ok output

/-- `readFile` is `read_archive_file` at the configured root. -/
def decodeSegment (readFile : String → Option Bytes) (segment : BodySegment) :
    Except ReadError Bytes := do
  let compressed ←
    if segment.storageBackend = "filesystem" then
      match readFile segment.storageKey with
      | none => .error .io
      | some data => .ok data
    else if segment.storageBackend = "postgres" then
      match segment.compressedPayload with
      | none => .error .blobMissing
      | some data => .ok data
    else .error (.unknownBackend segment.storageBackend)
  if lib.sha256Hex compressed ≠ segment.checksumSha256 then .error .checksumMismatch
  else
    let limit ← archiveDecodeLimit segment.uncompressedBytes
    decompressWithLimit lib compressed limit

/-- Whether a body can be read. -/
inductive BodyStatus where
  | available | missing | unreadable
  deriving DecidableEq

/-- `CapturedBody` -/
structure CapturedBody where
  status : BodyStatus
  bytes : Option Bytes
  truncated : Bool
  deriving DecidableEq

/-- A body that was read. -/
def CapturedBody.available (bytes : Bytes) (truncated : Bool) : CapturedBody :=
  ⟨.available, some bytes, truncated⟩

/-- A body that is missing or cannot be read. -/
def CapturedBody.unavailable (status : BodyStatus) (truncated : Bool) : CapturedBody :=
  ⟨status, none, truncated⟩

/-- The closure of `decode_bodies` that checks a record against the decoded segment. -/
def readRecord (bytes : Bytes) (record : BodyRecord) : Except ReadError Bytes :=
  match decodeArchiveFrameBody bytes record.uncompressedOffset with
  | .error e => .error (.frame e)
  | .ok body =>
    if (body.length : ℤ) ≠ record.uncompressedLen then .error .bodyLengthMismatch
    else if lib.sha256Hex body ≠ record.bodySha256 then .error .bodyChecksumMismatch
    else .ok body

/-- One round of the inner loop, over the records of a segment. -/
def takeRecord (bytes : Bytes) (bodies : Direction → CapturedBody) (record : BodyRecord) :
    Direction → CapturedBody :=
  match readRecord lib bytes record with
  | .error _ => bodies
  | .ok body =>
    Function.update bodies record.direction (.available body (bodies record.direction).truncated)

/-- One round of the outer loop, over the segments. -/
def takeSegment (records : List BodyRecord) (decode : BodySegment → Except ReadError Bytes)
    (bodies : Direction → CapturedBody) (segment : BodySegment) : Direction → CapturedBody :=
  match decode segment with
  | .error _ => bodies
  | .ok bytes => (records.filter fun r => r.segmentId = segment.id).foldl (takeRecord lib bytes) bodies

/-- A body without an archive record, from the columns of the trace. -/
def inlineBody (compressed : Bytes) (observed : ℤ) (truncated : Bool) : CapturedBody :=
  if compressed = [] then
    if observed = 0 then .available [] truncated else .unavailable .missing truncated
  else
    match archiveDecodeLimit observed >>= decompressWithLimit lib compressed with
    | .error _ => .unavailable .unreadable truncated
    | .ok bytes => .available bytes truncated

/-- The arrays of two that the source indexes by direction are functions of it here. -/
def decodeBodies (records : List BodyRecord) (segments : List BodySegment)
    (inline : Direction → Bytes) (observed : Direction → ℤ) (truncated : Direction → Bool)
    (decode : BodySegment → Except ReadError Bytes) (d : Direction) : CapturedBody :=
  let bodies := fun d => CapturedBody.unavailable .unreadable
    (truncated d || records.any fun r => r.direction = d && !r.complete)
  let bodies := segments.foldl (takeSegment lib records decode) bodies
  if records.any fun r => r.direction = d then bodies d
  else inlineBody lib (inline d) (observed d) (truncated d)

end

/-! ### The loops of `decode_bodies` -/

section
variable {lib : ArchiveLib}

/-- What a round does to the body of the record's own direction. -/
def takeBody (lib : ArchiveLib) (bytes : Bytes) (body : CapturedBody) (record : BodyRecord) :
    CapturedBody :=
  match readRecord lib bytes record with
  | .error _ => body
  | .ok found => .available found body.truncated

theorem takeRecord_self (bytes : Bytes) (bodies : Direction → CapturedBody) (r : BodyRecord) :
    takeRecord lib bytes bodies r r.direction = takeBody lib bytes (bodies r.direction) r := by
  unfold takeRecord takeBody
  cases readRecord lib bytes r with
  | error e => rfl
  | ok body => exact Function.update_self ..

theorem takeRecord_other (bytes : Bytes) (bodies : Direction → CapturedBody) {r : BodyRecord}
    {d : Direction} (h : r.direction ≠ d) : takeRecord lib bytes bodies r d = bodies d := by
  unfold takeRecord
  cases readRecord lib bytes r with
  | error e => rfl
  | ok body => exact Function.update_of_ne (Ne.symm h) ..

/-- The two directions do not disturb each other. -/
theorem takeRecords_at (bytes : Bytes) (d : Direction) :
    ∀ (rs : List BodyRecord) (bodies : Direction → CapturedBody),
      rs.foldl (takeRecord lib bytes) bodies d =
        (rs.filter fun r => r.direction = d).foldl (takeBody lib bytes) (bodies d)
  | [], bodies => rfl
  | r :: rs, bodies => by
    rw [List.foldl_cons, takeRecords_at bytes d rs, List.filter_cons]
    by_cases h : r.direction = d
    · subst h
      rw [takeRecord_self, if_pos (decide_eq_true rfl), List.foldl_cons]
    · rw [takeRecord_other bytes bodies h, if_neg (by simpa using h)]

variable {records : List BodyRecord} {decode : BodySegment → Except ReadError Bytes}
  {d : Direction} {r : BodyRecord}

/-- A segment that is not the record's leaves the body as it is. -/
theorem takeSegment_miss (hr : (records.filter fun r => r.direction = d) = [r])
    (bodies : Direction → CapturedBody) {s : BodySegment} (hs : r.segmentId ≠ s.id) :
    takeSegment lib records decode bodies s d = bodies d := by
  unfold takeSegment
  cases decode s with
  | error e => rfl
  | ok bytes =>
    simp only
    rw [takeRecords_at, List.filter_comm, hr, List.filter_cons, if_neg (by simpa using hs)]
    rfl

theorem takeSegment_hit (hr : (records.filter fun r => r.direction = d) = [r])
    (bodies : Direction → CapturedBody) {s : BodySegment} (hs : r.segmentId = s.id) {bytes : Bytes}
    (hbytes : decode s = .ok bytes) :
    takeSegment lib records decode bodies s d = takeBody lib bytes (bodies d) r := by
  unfold takeSegment
  rw [hbytes]
  simp only
  rw [takeRecords_at, List.filter_comm, hr, List.filter_cons, if_pos (by simpa using hs)]
  rfl

theorem takeSegments_miss (hr : (records.filter fun r => r.direction = d) = [r]) :
    ∀ {segments : List BodySegment} {bodies : Direction → CapturedBody},
      (∀ s ∈ segments, r.segmentId ≠ s.id) →
      segments.foldl (takeSegment lib records decode) bodies d = bodies d
  | [], bodies, _ => rfl
  | s :: segments, bodies, h => by
    rw [List.foldl_cons, takeSegments_miss hr fun x hx => h x (List.mem_cons_of_mem _ hx),
      takeSegment_miss hr _ (h s List.mem_cons_self)]

theorem takeSegments_hit (hr : (records.filter fun r => r.direction = d) = [r]) {s : BodySegment}
    {bytes : Bytes} (hs : r.segmentId = s.id) (hbytes : decode s = .ok bytes) :
    ∀ {segments : List BodySegment} {bodies : Direction → CapturedBody},
      (segments.map BodySegment.id).Nodup → s ∈ segments →
      segments.foldl (takeSegment lib records decode) bodies d = takeBody lib bytes (bodies d) r
  | [], bodies, _, h => by cases h
  | x :: segments, bodies, hu, h => by
    rw [List.map_cons, List.nodup_cons] at hu
    rw [List.foldl_cons]
    rcases List.mem_cons.mp h with rfl | h
    · rw [takeSegments_miss hr, takeSegment_hit hr _ hs hbytes]
      rintro y hy heq
      exact hu.1 (List.mem_map.mpr ⟨y, hy, heq.symm.trans hs⟩)
    · rw [takeSegments_hit hr hs hbytes hu.2 h, takeSegment_miss hr]
      intro heq
      exact hu.1 (List.mem_map.mpr ⟨s, h, hs.symm.trans heq⟩)

/-- A body is available when its one record names a segment that decodes and the record's frame
    passes its checks. -/
theorem decodeBodies_available {segments : List BodySegment} {inline : Direction → Bytes}
    {observed : Direction → ℤ} {truncated : Direction → Bool} {s : BodySegment} {bytes body : Bytes}
    (hr : (records.filter fun r => r.direction = d) = [r])
    (hu : (segments.map BodySegment.id).Nodup) (hs : s ∈ segments) (hid : r.segmentId = s.id)
    (hbytes : decode s = .ok bytes) (hbody : readRecord lib bytes r = .ok body) :
    decodeBodies lib records segments inline observed truncated decode d =
      .available body (truncated d || !r.complete) := by
  have hmem : r ∈ records ∧ r.direction = d := by
    have : r ∈ records.filter fun r => r.direction = d := by rw [hr]; exact List.mem_singleton_self r
    simpa using List.mem_filter.mp this
  have hcomplete : (records.any fun r => r.direction = d && !r.complete) = !r.complete := by
    rw [← List.any_filter, hr, List.any_cons, List.any_nil, Bool.or_false]
  unfold decodeBodies
  simp only
  rw [if_pos (List.any_eq_true.mpr ⟨r, hmem.1, by simpa using hmem.2⟩),
    takeSegments_hit hr hid hbytes hu hs, hcomplete]
  unfold takeBody
  rw [hbody]
  rfl

end

/-! ### From the trace to its bodies -/

section
variable {lib : ArchiveLib}

theorem mapError_eq_ok {ε ε' α : Type} {f : ε → ε'} {x : Except ε α} {a : α} :
    x.mapError f = .ok a ↔ x = .ok a := by
  cases x with
  | error e => simp [Except.mapError]
  | ok b => simp [Except.mapError]

theorem archiveDecodeLimit_ok {n : ℕ} :
    (∃ limit, archiveDecodeLimit n = .ok limit) ↔ n ≤ maxArchiveSegmentDecodeBytes := by
  unfold archiveDecodeLimit
  rw [if_neg (by omega), Int.toNat_natCast]
  constructor
  · rintro ⟨limit, h⟩
    split at h
    · cases h
    split at h
    · cases h
    omega
  · intro h
    have hmax : n ≤ u64Max := h.trans (by decide)
    exact ⟨n, by rw [if_neg (by omega), if_neg (by omega)]⟩

theorem archiveDecodeLimit_eq {n : ℕ} (h : n ≤ maxArchiveSegmentDecodeBytes) :
    archiveDecodeLimit n = .ok n := by
  have hmax : n ≤ u64Max := h.trans (by decide)
  unfold archiveDecodeLimit
  rw [if_neg (by omega), Int.toNat_natCast, if_neg (by omega), if_neg (by omega)]

/-- The size of a payload's frame: two length fields, the header as JSON and the body. -/
def framed (lib : ArchiveLib) (p : ArchivePayload) : ℕ :=
  12 + ((lib.toVec (frameHeader lib p)).getD []).length + p.body.length

theorem frame_length {p : ArchivePayload} {r : PreparedArchiveRecord}
    (h : prepareArchiveRecord lib p = .ok r) : r.frame.length = framed lib p := by
  simp only [prepareArchiveRecord, bind_eq_ok] at h
  obtain ⟨frame, hframe, _, -, h⟩ := h
  cases h
  unfold encodeArchiveFrame at hframe
  unfold framed
  split at hframe
  · cases hframe
  rename_i header hheader
  split at hframe
  · cases hframe
    simp only [frameBytes, List.length_append, beBytes_length, hheader, Option.getD_some]
    omega
  · cases hframe

/-- A segment row and its payload in the store, as `archive_prepared_payloads` left them. -/
structure Holds (readFile : String → Option Bytes) (row : BodySegment) (seg : PreparedArchiveSegment) :
    Prop where
  uncompressedBytes : row.uncompressedBytes = seg.uncompressedBytes
  checksum : row.checksumSha256 = seg.checksum
  payload : row.storageBackend = "postgres" ∧ row.compressedPayload = some seg.compressed ∨
    row.storageBackend = "filesystem" ∧ readFile row.storageKey = some seg.compressed

/-- `insert_archive_record` -/
def recordRow (t : TraceBodies) (segmentId : ℕ) (w : ArchiveRecordWrite) : BodyRecord :=
  ⟨w.direction, segmentId, w.uncompressedOffset, w.uncompressedLen, w.bodySha256,
    !t.truncated w.direction⟩

/-- The rows of a trace: one for each segment, under ids of their own, and one for each write. The
    queries that select them name no order. -/
def Stored (readFile : String → Option Bytes) (t : TraceBodies) (segs : List PreparedArchiveSegment)
    (segments : List BodySegment) (records : List BodyRecord) : Prop :=
  ∃ rows : List BodySegment, List.Forall₂ (Holds readFile) rows segs ∧
    (rows.map BodySegment.id).Nodup ∧ segments.Perm rows ∧
    records.Perm ((rows.zip segs).flatMap fun x => x.2.writes.map (recordRow t x.1.id))

theorem decodeSegment_ok {readFile : String → Option Bytes} {row : BodySegment}
    {seg : PreparedArchiveSegment} {buffer : Bytes} (h : Holds readFile row seg)
    (hsum : seg.checksum = lib.sha256Hex seg.compressed)
    (hbuffer : decompress lib seg.compressed = some buffer)
    (hsize : seg.uncompressedBytes = buffer.length)
    (hlen : buffer.length ≤ maxArchiveSegmentDecodeBytes) :
    decodeSegment lib readFile row = .ok buffer := by
  have hlimit : decompressWithLimit lib seg.compressed buffer.length = .ok buffer := by
    unfold decompress at hbuffer
    unfold decompressWithLimit
    split_ifs at hbuffer with hnil
    · cases hbuffer
      rw [if_pos hnil]
    · have hmax : buffer.length + 1 ≤ u64Max := (Nat.add_le_add_right hlen 1).trans (by decide)
      rw [if_neg hnil, checkedAdd_eq_some.mpr ⟨rfl, hmax⟩]
      simp only [hbuffer, lt_irrefl, if_false]
  unfold decodeSegment
  obtain ⟨hb, hp⟩ | ⟨hb, hp⟩ := h.payload
  · rw [if_neg (by rw [hb]; decide), if_pos hb, hp, h.checksum, h.uncompressedBytes, hsize,
      archiveDecodeLimit_eq hlen]
    simpa [hsum, bind, Except.bind] using hlimit
  · rw [if_pos hb, hp, h.checksum, h.uncompressedBytes, hsize, archiveDecodeLimit_eq hlen]
    simpa [hsum, bind, Except.bind] using hlimit

/-- How `prepare_trace_payloads` distributes the two records: into one segment when both fit, else
    into one each. -/
theorem prepareTracePayloads_ok {archive : ArchiveConfig} {t : TraceBodies}
    {segs : List PreparedArchiveSegment} (h : prepareTracePayloads lib archive t = .ok segs) :
    ∃ r : Direction → PreparedArchiveRecord, (∀ d, prepareArchiveRecord lib (t.payload d) = .ok (r d)) ∧
      ((framed lib (t.payload .request) + framed lib (t.payload .response) ≤
          archive.segmentUncompressedBytes ∧
        ∃ seg, prepareArchiveSegment lib [r .request, r .response] archive.compressionLevel = .ok seg ∧
          segs = [seg]) ∨
      ∃ s : Direction → PreparedArchiveSegment,
        (∀ d, prepareArchiveSegment lib [r d] archive.compressionLevel = .ok (s d)) ∧
          segs = [s .request, s .response]) := by
  simp only [prepareTracePayloads, bind_eq_ok, mapError_eq_ok, List.map_cons, List.map_nil,
    List.mapM_cons, List.mapM_nil] at h
  obtain ⟨_, ⟨q, hq, _, ⟨a, ha, _, hnil, hcons⟩, hall⟩, h⟩ := h
  cases hnil
  cases hcons
  cases hall
  refine ⟨fun | .request => q | .response => a, fun | .request => hq | .response => ha, ?_⟩
  split at h
  · cases h
  rename_i total htotal
  have hsum : total = framed lib (t.payload .request) + framed lib (t.payload .response) := by
    simp only [List.foldlM_cons, List.foldlM_nil, bind, Option.bind_eq_some_iff, checkedAdd_eq_some,
      pure, Option.some.injEq] at htotal
    obtain ⟨_, ⟨rfl, -⟩, _, ⟨rfl, -⟩, rfl⟩ := htotal
    rw [frame_length hq, frame_length ha, Nat.zero_add]
  subst hsum
  split at h
  · right
    simp only [mapError_eq_ok, List.mapM_cons, List.mapM_nil, bind_eq_ok] at h
    obtain ⟨s, hs, _, ⟨s', hs', _, hnil, hcons⟩, hall⟩ := h
    cases hnil
    cases hcons
    cases hall
    exact ⟨fun | .request => s | .response => s', fun | .request => hs | .response => hs', rfl⟩
  · left
    rename_i hle
    rw [mapError_eq_ok] at h
    cases hseg : prepareArchiveSegment lib [q, a] archive.compressionLevel with
    | error e => rw [hseg] at h; cases h
    | ok seg =>
      rw [hseg] at h
      cases h
      exact ⟨Nat.le_of_not_lt hle, seg, rfl, rfl⟩

/-- What a write must say for its body to be found in the decoded segment. -/
def Locates (lib : ArchiveLib) (t : TraceBodies) (buffer : Bytes) (w : ArchiveRecordWrite)
    (d : Direction) : Prop :=
  decodeArchiveFrameBody buffer w.uncompressedOffset = .ok (t.body d) ∧
    w.uncompressedLen = (t.body d).length ∧ w.bodySha256 = lib.sha256Hex (t.body d) ∧ w.direction = d

theorem readRecord_ok {t : TraceBodies} {buffer : Bytes} {w : ArchiveRecordWrite} {d : Direction}
    (h : Locates lib t buffer w d) (segmentId : ℕ) :
    readRecord lib buffer (recordRow t segmentId w) = .ok (t.body d) := by
  obtain ⟨hbody, hlen, hsum, -⟩ := h
  unfold readRecord recordRow
  simp [hbody, hlen, hsum]

/-- A segment that holds the body of a direction where the write says. -/
def Carries (lib : ArchiveLib) (t : TraceBodies) (seg : PreparedArchiveSegment)
    (w : ArchiveRecordWrite) (d : Direction) : Prop :=
  ∃ buffer, decompress lib seg.compressed = some buffer ∧ seg.checksum = lib.sha256Hex seg.compressed ∧
    seg.uncompressedBytes = buffer.length ∧ Locates lib t buffer w d

/-- A prepared segment carries the bodies it was prepared from, and is as long as their frames. -/
theorem prepared_carries (ds : List Direction) (hz : lib.Inverts) {t : TraceBodies}
    {r : Direction → PreparedArchiveRecord} {level : ℤ} {seg : PreparedArchiveSegment}
    (hr : ∀ d, prepareArchiveRecord lib (t.payload d) = .ok (r d))
    (hseg : prepareArchiveSegment lib (ds.map r) level = .ok seg) :
    seg.uncompressedBytes = ((ds.map fun d => framed lib (t.payload d)).sum : ℕ) ∧
      seg.writes.length = ds.length ∧
      ∀ (k : ℕ) d w, ds[k]? = some d → seg.writes[k]? = some w → Carries lib t seg w d := by
  have hrecords : (ds.map t.payload).mapM (prepareArchiveRecord lib) = .ok (ds.map r) := by
    clear hseg
    induction ds with
    | nil => rfl
    | cons d ds ih =>
      rw [List.map_cons, List.mapM_cons, hr, ih]
      rfl
  obtain ⟨buffer, hbuffer, hcut, hsum, hsize, hcount, hall⟩ := prepareArchiveSegment_ok hz hrecords hseg
  refine ⟨?_, by rw [hcount, List.length_map], ?_⟩
  · rw [hsize, hcut, List.length_flatten, List.map_map, List.map_map]
    congr 3
    funext d
    exact frame_length (hr d)
  · intro k d w hd hw
    have hp : (ds.map t.payload)[k]? = some (t.payload d) := by rw [List.getElem?_map, hd]; rfl
    obtain ⟨hbody, hlen, hsha, hdir, -⟩ := hall k _ w hp hw
    refine ⟨buffer, hbuffer, hsum, hsize, ?_⟩
    cases d with
    | request => exact ⟨hbody, hlen, hsha, hdir⟩
    | response => exact ⟨hbody, hlen, hsha, hdir⟩

/-- Two records, one for each direction, in segments that the reader accepts: both bodies are
    available. -/
theorem both_available {t : TraceBodies} {readFile : String → Option Bytes} {rows : List BodySegment}
    {segments : List BodySegment} {records : List BodyRecord} {inline : Direction → Bytes}
    {observed : Direction → ℤ} (row : Direction → BodySegment)
    (seg : Direction → PreparedArchiveSegment) (w : Direction → ArchiveRecordWrite)
    (hu : (rows.map BodySegment.id).Nodup) (hrows : segments.Perm rows)
    (hrecords : records.Perm [recordRow t (row .request).id (w .request),
      recordRow t (row .response).id (w .response)])
    (hrow : ∀ d, row d ∈ rows ∧ Holds readFile (row d) (seg d))
    (haccept : ∀ d, ∃ limit, archiveDecodeLimit (seg d).uncompressedBytes = .ok limit)
    (hcarry : ∀ d, Carries lib t (seg d) (w d) d) (d : Direction) :
    decodeBodies lib records segments inline observed t.truncated (decodeSegment lib readFile) d =
      .available (t.body d) (t.truncated d) := by
  have hdir : ∀ d, (w d).direction = d := fun d => by
    obtain ⟨_, -, -, -, -, -, -, h⟩ := hcarry d
    exact h
  have hone : (records.filter fun r => r.direction = d) = [recordRow t (row d).id (w d)] := by
    refine List.perm_singleton.mp ((hrecords.filter _).trans (List.Perm.of_eq ?_))
    cases d with
    | request => simp [recordRow, hdir]
    | response => simp [recordRow, hdir]
  obtain ⟨buffer, hbuffer, hsum, hsize, hw⟩ := hcarry d
  have hlen : buffer.length ≤ maxArchiveSegmentDecodeBytes := by
    have h := haccept d
    rw [hsize] at h
    exact archiveDecodeLimit_ok.mp h
  rw [decodeBodies_available hone ((hrows.map _).nodup_iff.mpr hu) (hrows.mem_iff.mpr (hrow d).1) rfl
    (decodeSegment_ok (hrow d).2 hsum hbuffer hsize hlen) (readRecord_ok hw _)]
  simp [recordRow, hdir]

/-- The segments of a trace are accepted by the reader, and its bodies come back from any store that
    holds them. -/
def ReadBack (lib : ArchiveLib) (t : TraceBodies) (segs : List PreparedArchiveSegment) : Prop :=
  (∀ seg ∈ segs, ∃ limit, archiveDecodeLimit seg.uncompressedBytes = .ok limit) ∧
    ∀ readFile segments records inline observed, Stored readFile t segs segments records →
      ∀ d, decodeBodies lib records segments inline observed t.truncated
        (decodeSegment lib readFile) d = .available (t.body d) (t.truncated d)

/-- One segment for both bodies. -/
theorem readBack_joint (hz : lib.Inverts) {t : TraceBodies} {level : ℤ} {seg : PreparedArchiveSegment}
    {r : Direction → PreparedArchiveRecord}
    (hr : ∀ d, prepareArchiveRecord lib (t.payload d) = .ok (r d))
    (hseg : prepareArchiveSegment lib [r .request, r .response] level = .ok seg)
    (hle : framed lib (t.payload .request) + framed lib (t.payload .response) ≤
      maxArchiveSegmentDecodeBytes) : ReadBack lib t [seg] := by
  obtain ⟨hsize, hcount, hcarry⟩ := prepared_carries [.request, .response] hz hr hseg
  obtain ⟨w, w', hw⟩ := List.length_eq_two.mp hcount
  rw [hw] at hcarry
  have haccept : ∃ limit, archiveDecodeLimit seg.uncompressedBytes = .ok limit := by
    rw [hsize]
    exact archiveDecodeLimit_ok.mpr (by simpa using hle)
  refine ⟨by simpa using haccept, ?_⟩
  rintro readFile segments records inline observed ⟨rows, hrows, hu, hperm, hrecs⟩
  cases hrows with
  | cons hrow hnil =>
    cases hnil
    refine both_available (fun _ => _) (fun _ => seg) (fun | .request => w | .response => w') hu hperm
      ?_ (fun _ => ⟨List.mem_singleton_self _, hrow⟩) (fun _ => haccept) ?_
    · simpa [hw] using hrecs
    · rintro (_ | _)
      · exact hcarry 0 _ _ rfl rfl
      · exact hcarry 1 _ _ rfl rfl

/-- A segment for each body. -/
theorem readBack_split (hz : lib.Inverts) {t : TraceBodies} {level : ℤ}
    {s : Direction → PreparedArchiveSegment} {r : Direction → PreparedArchiveRecord}
    (hr : ∀ d, prepareArchiveRecord lib (t.payload d) = .ok (r d))
    (hs : ∀ d, prepareArchiveSegment lib [r d] level = .ok (s d)) :
    ReadBack lib t [s .request, s .response] ↔
      ∀ d, framed lib (t.payload d) ≤ maxArchiveSegmentDecodeBytes := by
  have hcarries : ∀ d, (s d).uncompressedBytes = framed lib (t.payload d) ∧
      ∃ w, (s d).writes = [w] ∧ Carries lib t (s d) w d := fun d => by
    obtain ⟨hsize, hcount, hcarry⟩ := prepared_carries [d] hz hr (hs d)
    obtain ⟨w, hw⟩ := List.length_eq_one_iff.mp hcount
    exact ⟨by simpa using hsize, w, hw, hcarry 0 d w rfl (by rw [hw]; rfl)⟩
  choose hsize w hw hcarry using hcarries
  have haccept : ∀ d, (∃ limit, archiveDecodeLimit (s d).uncompressedBytes = .ok limit) ↔
      framed lib (t.payload d) ≤ maxArchiveSegmentDecodeBytes := fun d => by
    rw [hsize]
    exact archiveDecodeLimit_ok
  constructor
  · rintro ⟨h, -⟩ (_ | _)
    · exact (haccept .request).mp (h _ List.mem_cons_self)
    · exact (haccept .response).mp (h _ (List.mem_cons_of_mem _ List.mem_cons_self))
  · intro h
    refine ⟨?_, ?_⟩
    · intro seg hseg
      simp only [List.mem_cons, List.not_mem_nil, or_false] at hseg
      rcases hseg with rfl | rfl
      · exact (haccept .request).mpr (h _)
      · exact (haccept .response).mpr (h _)
    rintro readFile segments records inline observed ⟨rows, hrows, hu, hperm, hrecs⟩
    cases hrows with
    | cons hrow hrest =>
      cases hrest with
      | cons hrow' hnil =>
        cases hnil
        rename_i row row'
        refine both_available (fun | .request => row | .response => row') s w hu hperm ?_ ?_
          (fun d => (haccept d).mpr (h d)) hcarry
        · simpa [hw] using hrecs
        · rintro (_ | _)
          · exact ⟨List.mem_cons_self, hrow⟩
          · exact ⟨List.mem_cons_of_mem _ List.mem_cons_self, hrow'⟩

/-- EXACT: under a configuration that passes its checks, what `prepare_trace_payloads` archives is
    read back when, and only when, each body fits the reader's limit together with its frame. -/
theorem archived_reads_back_iff (lib : ArchiveLib) (hz : lib.Inverts) (archive : ArchiveConfig)
    (hvalid : archive.validate = []) (t : TraceBodies) (segs : List PreparedArchiveSegment)
    (hsegs : prepareTracePayloads lib archive t = .ok segs) :
    ReadBack lib t segs ↔ ∀ d, framed lib (t.payload d) ≤ maxArchiveSegmentDecodeBytes := by
  obtain ⟨r, hr, ⟨hle, seg, hseg, rfl⟩ | ⟨s, hs, rfl⟩⟩ := prepareTracePayloads_ok hsegs
  · have hsum := hle.trans (ArchiveConfig.segment_le hvalid)
    refine iff_of_true (readBack_joint hz hr hseg hsum) ?_
    rintro (_ | _)
    · exact (Nat.le_add_right _ _).trans hsum
    · exact (Nat.le_add_left _ _).trans hsum
  · exact readBack_split hz hr hs

end

/-! ### A short trace and a full session -/

/-- The libraries on `shortTrace`; its JSON is compact and its checksums are SHA-256. -/
def bodiesLib : ArchiveLib :=
  { sampleArchiveLib with
    toVec := fun v => some (utf8 v.write)
    sha256Hex := fun bs =>
      if bs = [104, 105] then "8f434346648f6b96df89dda901c5176b10a6d83961dd3c1ac88b59b2dc327aa4"
      else if bs = [121, 111] then "e9058ab198f6908f702111b0c0fb5b36f99d00554521886c40e2891b349dc7a1"
      else "a4732699b2bd780df6e8241332c8eb5f332bb655673ca4e1ac8318a296a79d31" }

theorem bodiesLib_inverts : bodiesLib.Inverts := sampleArchiveLib_inverts

/-- `ArchiveConfig::default()` -/
def defaultArchive : ArchiveConfig := ⟨.filesystem, "spool/archive", 32 * 1024 * 1024, 1⟩

/-- A request `hi` answered by `yo`. -/
def shortTrace : TraceBodies where
  id := 1
  contentType := some "text/plain"
  body
    | .request => [104, 105]
    | .response => [121, 111]
  truncated _ := false

set_option maxRecDepth 4000 in
theorem archived_reads_back_iff_short : ∃ segs,
    prepareTracePayloads bodiesLib defaultArchive shortTrace = .ok segs ∧
    ReadBack bodiesLib shortTrace segs := by
  refine ⟨_, rfl, (archived_reads_back_iff bodiesLib bodiesLib_inverts defaultArchive rfl shortTrace _
    rfl).mpr ?_⟩
  rintro (_ | _)
  · decide +kernel
  · decide +kernel

theorem length_le_utf8 (s : List Char) : s.length ≤ (utf8 s).length := by
  induction s with
  | nil => exact le_rfl
  | cons c s ih =>
    have hc : 1 ≤ (String.utf8EncodeChar c).length := by
      rw [String.length_utf8EncodeChar]
      exact c.utf8Size_pos
    simp only [utf8, List.flatMap_cons, List.length_append, List.length_cons] at ih ⊢
    omega

theorem length_writeItems_replicate (v : Json) (n : ℕ) :
    n * v.write.length ≤ (Json.writeItems (List.replicate n v)).length := by
  induction n with
  | zero => simp
  | succ n ih =>
    cases n with
    | zero => simp [Json.writeItems]
    | succ n =>
      rw [List.replicate_succ, List.replicate_succ, Json.writeItems, ← List.replicate_succ,
        List.length_append, List.length_cons, Nat.succ_mul]
      · omega
      · simp

/-- The frame of a text message of `n` letters. -/
def textFrame (n : ℕ) : Json :=
  .obj [("direction", .str "client"), ("text", .str (String.ofList (List.replicate n 'a'))),
    ("type", .str "text")]

theorem length_textFrame (n : ℕ) : n < (textFrame n).write.length := by
  have hquote : n < (Json.quote (List.replicate n 'a')).length := by
    rw [Json.quote, List.length_cons, List.length_append, List.flatMap_replicate, List.length_flatten]
    have : (Json.escapeChar 'a').length = 1 := rfl
    simp [this]
  simp only [textFrame, Json.write, Json.writeFields, Json.writeField, String.toList_ofList,
    List.length_cons, List.length_append]
  omega

/-- The capture of a session that sent `k` such messages, where the limit is `k * n`. -/
theorem length_fullCapture (k n : ℕ) (hk : 0 < k) :
    (websocketResponseBody bodiesLib (List.replicate k (textFrame n)) (k * n)).1.length = k * n := by
  have hitems : k * n < (Json.writeItems (List.replicate k (textFrame n))).length :=
    (Nat.mul_lt_mul_of_pos_left (length_textFrame n) hk).trans_le (length_writeItems_replicate _ _)
  have hlen : k * n < (utf8 (Json.arr (List.replicate k (textFrame n))).write).length := by
    refine lt_of_lt_of_le ?_ (length_le_utf8 _)
    rw [Json.write, List.length_cons, List.length_append]
    omega
  have hvec : bodiesLib.toVec (.arr (List.replicate k (textFrame n))) =
      some (utf8 (Json.arr (List.replicate k (textFrame n))).write) := rfl
  unfold websocketResponseBody
  simp only [hvec, if_pos hlen, List.length_take]
  omega

/-- Every limit at its maximum. -/
def fullLimits : CaptureLimits :=
  ⟨maxRequestBodyBytes, maxResponseBodyBytes, maxWebsocketMessageBytes, maxWebsocketSessionBytes⟩

/-- The trace of a WebSocket session. -/
def sessionTrace (capture : Bytes × Bool) : TraceBodies where
  id := 1
  contentType := some "websocket"
  body
    | .request => []
    | .response => capture.1
  truncated
    | .request => false
    | .response => capture.2

theorem sessionTrace_captured (c : CaptureLimits) (frames : List Json) :
    Captured bodiesLib c
      (sessionTrace (websocketResponseBody bodiesLib frames c.maxWebsocketSessionBytes)) :=
  .websocket frames rfl rfl rfl

theorem prepareArchiveRecord_of {lib : ArchiveLib} {p : ArchivePayload} {header : Bytes}
    (h : lib.toVec (frameHeader lib p) = some header) (hheader : header.length < 2 ^ 32)
    (hbody : p.body.length < 2 ^ 63) : ∃ r, prepareArchiveRecord lib p = .ok r := by
  simp only [prepareArchiveRecord, encodeArchiveFrame, h, if_pos hheader, usizeToI64Checked,
    if_pos hbody, bind, Except.bind]
  exact ⟨_, rfl⟩

/-- One record makes a segment whenever its frame is a buffer and zstd compresses it. -/
theorem prepareArchiveSegment_of {lib : ArchiveLib} {r : PreparedArchiveRecord} {level : ℤ}
    (h : ∀ data, ∃ out, lib.encodeAll data level = some out) (hframe : r.frame.length < 2 ^ 63) :
    ∃ seg, prepareArchiveSegment lib [r] level = .ok seg := by
  obtain ⟨out, hout⟩ := h r.frame
  have hcompress : ∃ out, compressWithLevel lib r.frame level = .ok out := by
    unfold compressWithLevel
    split
    · exact ⟨[], rfl⟩
    · rw [hout]
      exact ⟨out, rfl⟩
  obtain ⟨out', hout'⟩ := hcompress
  simp only [prepareArchiveSegment, layout, usizeToI64Checked, List.length_nil, if_true, hout',
    if_pos hframe, bind, Except.bind, pure, Except.pure,
    if_pos (show 0 < 2 ^ 63 by decide)]
  exact ⟨_, rfl⟩

theorem prepareTracePayloads_split {lib : ArchiveLib} {archive : ArchiveConfig} {t : TraceBodies}
    {r : Direction → PreparedArchiveRecord} {s : Direction → PreparedArchiveSegment}
    (hr : ∀ d, prepareArchiveRecord lib (t.payload d) = .ok (r d))
    (hs : ∀ d, prepareArchiveSegment lib [r d] archive.compressionLevel = .ok (s d))
    (hlarge : archive.segmentUncompressedBytes < (r .request).frame.length + (r .response).frame.length)
    (hmax : (r .request).frame.length + (r .response).frame.length ≤ u64Max) :
    prepareTracePayloads lib archive t = .ok [s .request, s .response] := by
  have htotal : [r .request, r .response].foldlM
      (fun total record => checkedAdd total record.frame.length) 0 =
      some ((r .request).frame.length + (r .response).frame.length) := by
    simp only [List.foldlM_cons, List.foldlM_nil, checkedAdd, Nat.zero_add, if_pos hmax,
      if_pos ((Nat.le_add_right _ _).trans hmax), bind, Option.bind, pure]
  simp only [prepareTracePayloads, List.map_cons, List.map_nil, List.mapM_cons, List.mapM_nil, hr,
    bind, Except.bind, pure, Except.pure, Except.mapError, htotal, if_pos hlarge, hs]

/-- A capture as long as a session may be is archived, but its segment is longer than the reader
    accepts: by the frame header. -/
theorem sessionTrace_not_readBack {capture : Bytes × Bool}
    (hbody : capture.1.length = maxWebsocketSessionBytes) :
    ∃ segs, prepareTracePayloads bodiesLib defaultArchive (sessionTrace capture) = .ok segs ∧
      ¬ReadBack bodiesLib (sessionTrace capture) segs := by
  have hheader : ∀ d,
      ((bodiesLib.toVec (frameHeader bodiesLib ((sessionTrace capture).payload d))).getD []).length ≤
        106 := by
    have hrequest : (utf8 (frameHeader bodiesLib ⟨1, .request, none, []⟩).write).length ≤ 106 := by
      decide +kernel
    have hresponse :
        (utf8 (frameHeader bodiesLib ⟨1, .response, some "websocket", []⟩).write).length ≤ 106 := by
      decide +kernel
    rintro (_ | _)
    · exact hrequest
    · exact hresponse
  have hrecord : ∀ d, ∃ r, prepareArchiveRecord bodiesLib ((sessionTrace capture).payload d) = .ok r := by
    intro d
    refine prepareArchiveRecord_of rfl ((hheader d).trans_lt (by decide)) ?_
    cases d with
    | request => exact Nat.two_pow_pos 63
    | response => exact hbody.trans_lt (by decide)
  choose r hr using hrecord
  have hframe : ∀ d, (r d).frame.length = framed bodiesLib ((sessionTrace capture).payload d) :=
    fun d => frame_length (hr d)
  have hrequest : (r .request).frame.length ≤ 118 := by
    rw [hframe]
    exact Nat.add_le_add_right (Nat.add_le_add_left (hheader .request) 12) 0
  have hlow : 12 + maxWebsocketSessionBytes ≤ (r .response).frame.length := by
    rw [hframe, ← hbody]
    exact Nat.add_le_add_right (Nat.le_add_right _ _) _
  have hhigh : (r .response).frame.length ≤ 118 + maxWebsocketSessionBytes := by
    rw [hframe, ← hbody]
    exact Nat.add_le_add_right (Nat.add_le_add_left (hheader .response) 12) _
  have hsegment : ∀ d, ∃ s, prepareArchiveSegment bodiesLib [r d] defaultArchive.compressionLevel =
      .ok s := fun d => by
    refine prepareArchiveSegment_of (fun data => ⟨_, rfl⟩) ?_
    cases d with
    | request => exact hrequest.trans_lt (by decide)
    | response => exact hhigh.trans_lt (by decide)
  choose s hs using hsegment
  refine ⟨_, prepareTracePayloads_split hr hs ?_ ?_, ?_⟩
  · exact lt_of_lt_of_le (by decide) (hlow.trans (Nat.le_add_left _ _))
  · exact (Nat.add_le_add hrequest hhigh).trans (by decide)
  · intro h
    have hle := (readBack_split bodiesLib_inverts hr hs).mp h .response
    rw [← hframe] at hle
    exact absurd (hlow.trans hle) (by decide)

/-- A client that sends 32 messages of 64 MiB, which is all that its session may. -/
theorem full_capture_not_read_back : ∃ capture segs,
    capture = websocketResponseBody bodiesLib
      (List.replicate 32 (textFrame maxWebsocketMessageBytes)) maxWebsocketSessionBytes ∧
    fullLimits.validate = [] ∧ defaultArchive.validate = [] ∧
    Captured bodiesLib fullLimits (sessionTrace capture) ∧
    prepareTracePayloads bodiesLib defaultArchive (sessionTrace capture) = .ok segs ∧
    ¬ReadBack bodiesLib (sessionTrace capture) segs := by
  have hbody := length_fullCapture 32 maxWebsocketMessageBytes (by decide)
  rw [show 32 * maxWebsocketMessageBytes = maxWebsocketSessionBytes by decide] at hbody
  obtain ⟨segs, hsegs, hnot⟩ := sessionTrace_not_readBack hbody
  exact ⟨_, segs, rfl, rfl, rfl, sessionTrace_captured fullLimits _, hsegs, hnot⟩

end Llmtrace.Storage
