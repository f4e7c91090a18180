import Llmtrace.Schemes.Run
import Llmtrace.Schemes.Word
import Llmtrace.Schemes.Json
import Llmtrace.Storage.Archive

/-! Archive framing (`storage/archive.rs`): a segment is a concatenation of frames, and a record says
    at which offset of the uncompressed segment its frame starts.

        offset  +0          +4       +4+header    +12+header
                header u32  header   body u64     body

    Both numbers are big-endian. JSON, SHA-256 and zstd come from other crates and are the parameters
    `ArchiveLib`. -/

namespace Llmtrace.Storage
open Schemes

/-- What serde, uuid, sha2 and zstd make of their arguments. -/
structure ArchiveLib where
  toVec : Json → Option Bytes
  uuidText : ℕ → String
  sha256Hex : Bytes → String
  /-- `zstd::stream::encode_all` at a compression level. -/
  encodeAll : Bytes → ℤ → Option Bytes
  /-- The zstd decoder, read to the end. -/
  decodeAll : Bytes → Option Bytes

/-- zstd reads back what it wrote, and a compressed stream has at least its magic number. -/
def ArchiveLib.Inverts (lib : ArchiveLib) : Prop :=
  ∀ data level out, lib.encodeAll data level = some out → out ≠ [] ∧ lib.decodeAll out = some data

/-- Why a frame is not written or read. -/
inductive FrameError where
  | json | zstd | headerTooLarge | offsetRange | sizeRange | bodyRange
  | negativeOffset | offsetTooLarge | headerLengthOverflows | headerLengthOutOfBounds
  | headerOutOfBounds | bodyLengthOverflows | bodyLengthOutOfBounds | bodyOutOfBounds
  deriving DecidableEq

/-- The texts of the errors; the others come from the libraries. -/
def FrameError.message : FrameError → Option String
  | .json | .zstd => none
  | .headerTooLarge => some "archive frame header is too large"
  | .offsetRange => some "archive segment offset exceeds i64 range"
  | .sizeRange => some "archive segment size exceeds i64 range"
  | .bodyRange => some "archive body size exceeds i64 range"
  | .negativeOffset => some "archive frame offset must not be negative"
  | .offsetTooLarge => some "archive frame offset is too large"
  | .headerLengthOverflows => some "archive frame header length overflows"
  | .headerLengthOutOfBounds => some "archive frame header length is out of bounds"
  | .headerOutOfBounds => some "archive frame header is out of bounds"
  | .bodyLengthOverflows => some "archive frame body length overflows"
  | .bodyLengthOutOfBounds => some "archive frame body length is out of bounds"
  | .bodyOutOfBounds => some "archive frame body is out of bounds"

/-- `usize_to_i64_checked` -/
def usizeToI64Checked (n : ℕ) (label : FrameError) : Except FrameError ℤ :=
  if n < 2 ^ 63 then .ok n else .error label

/-- `as_str` -/
def Direction.asStr : Direction → String
  | .request => "request_body"
  | .response => "response_body"

/-- What `prepare_archive_record` is called with. -/
structure ArchivePayload where
  traceId : ℕ
  direction : Direction
  contentType : Option String
  body : Bytes

/-- `PreparedArchiveRecord` -/
structure PreparedArchiveRecord where
  direction : Direction
  contentType : Option String
  uncompressedLen : ℤ
  bodySha256 : String
  frame : Bytes

/-- `ArchiveRecordWrite` -/
structure ArchiveRecordWrite where
  direction : Direction
  contentType : Option String
  uncompressedOffset : ℤ
  uncompressedLen : ℤ
  bodySha256 : String

/-- `PreparedArchiveSegment` -/
structure PreparedArchiveSegment where
  compressed : Bytes
  checksum : String
  uncompressedBytes : ℤ
  writes : List ArchiveRecordWrite

/-! ### Writing -/

section
variable (lib : ArchiveLib)

/-- The header of a frame. -/
def frameHeader (p : ArchivePayload) : Json :=
  .obj [("content_type", .ofOption p.contentType), ("direction", .str p.direction.asStr),
    ("trace_id", .str (lib.uuidText p.traceId))]

/-- The bytes of a frame. -/
def frameBytes (header body : Bytes) : Bytes :=
  beBytes 4 header.length ++ header ++ beBytes 8 body.length ++ body

/-- A body is in memory, so its length is a `u64`. -/
def encodeArchiveFrame (p : ArchivePayload) : Except FrameError Bytes :=
  match lib.toVec (frameHeader lib p) with
  | none => .error .json
  | some header =>
    if header.length < 2 ^ 32 then
      .ok (frameBytes header p.body)
    else .error .headerTooLarge

/-- `prepare_archive_record` -/
def prepareArchiveRecord (p : ArchivePayload) : Except FrameError PreparedArchiveRecord := do
  let frame ← encodeArchiveFrame lib p
  let uncompressedLen ← usizeToI64Checked p.body.length .bodyRange
  return ⟨p.direction, p.contentType, uncompressedLen, lib.sha256Hex p.body, frame⟩

/-- The loop of `prepare_archive_segment`. -/
def layout : Bytes → List PreparedArchiveRecord → Except FrameError (Bytes × List ArchiveRecordWrite)
  | buffer, [] => .ok (buffer, [])
  | buffer, r :: rs => do
    let offset ← usizeToI64Checked buffer.length .offsetRange
    let (final, writes) ← layout (if buffer = [] then r.frame else buffer ++ r.frame) rs
    return (final, ⟨r.direction, r.contentType, offset, r.uncompressedLen, r.bodySha256⟩ :: writes)

/-- `compress_with_level` -/
def compressWithLevel (data : Bytes) (level : ℤ) : Except FrameError Bytes :=
  if data = [] then .ok []
  else
    match lib.encodeAll data level with
    | none => .error .zstd
    | some out => .ok out

/-- `prepare_archive_segment` -/
def prepareArchiveSegment (records : List PreparedArchiveRecord) (level : ℤ) :
    Except FrameError PreparedArchiveSegment := do
  let (buffer, writes) ← layout [] records
  let uncompressedBytes ← usizeToI64Checked buffer.length .sizeRange
  let compressed ← compressWithLevel lib buffer level
  return ⟨compressed, lib.sha256Hex compressed, uncompressedBytes, writes⟩

/-- `decompress_with_limit`, within its limit. -/
def decompress (data : Bytes) : Option Bytes :=
  if data = [] then some [] else lib.decodeAll data

end

/-! ### Reading -/

/-- How a call of the reader ends without a body: with an error, or in a panic. -/
inductive Fault where
  | error (e : FrameError)
  | panicked
  deriving DecidableEq

/-- A field of `width` bytes at the cursor: the new cursor and the bytes. -/
def readField (segment : Bytes) (cursor width : ℕ) (overflows outOfBounds : FrameError) :
    Except Fault (ℕ × Bytes) :=
  match checkedAdd cursor width with
  | none => .error (.error overflows)
  | some stop =>
    match slice segment cursor stop with
    | none => .error (.error outOfBounds)
    | some bytes => .ok (stop, bytes)

/-- `from_be_bytes(bytes.try_into().unwrap())`: the conversion panics on any other width. -/
def fromBeBytes (width : ℕ) (bytes : Bytes) : Except Fault ℕ :=
  if bytes.length = width then .ok (beValue bytes) else .error .panicked

/-- `decode_archive_frame_body` -/
def decodeArchiveFrameBody (segment : Bytes) (offset : ℤ) : Except Fault Bytes :=
  if offset < 0 then .error (.error .negativeOffset)
  else if u64Max < offset.toNat then .error (.error .offsetTooLarge)
  else do
    let (cursor, headerLenBytes) ←
      readField segment offset.toNat 4 .headerLengthOverflows .headerLengthOutOfBounds
    let headerLen ← fromBeBytes 4 headerLenBytes
    let (cursor, _) ← readField segment cursor headerLen .headerLengthOverflows .headerOutOfBounds
    let (cursor, bodyLenBytes) ←
      readField segment cursor 8 .bodyLengthOverflows .bodyLengthOutOfBounds
    -- a `u64` is a `usize` here
    let bodyLen ← fromBeBytes 8 bodyLenBytes
    let (_, body) ← readField segment cursor bodyLen .bodyLengthOverflows .bodyOutOfBounds
    return body

/-! ### One frame -/

theorem readField_ok {segment bytes : Bytes} {cursor width stop : ℕ} {e e' : FrameError} :
    readField segment cursor width e e' = .ok (stop, bytes) ↔
      stop = cursor + width ∧ stop ≤ u64Max ∧ slice segment cursor stop = some bytes := by
  unfold readField
  constructor
  · intro h
    split at h
    · cases h
    rename_i n hn
    obtain ⟨rfl, hle⟩ := checkedAdd_eq_some.mp hn
    split at h
    · cases h
    rename_i bs hbs
    cases h
    exact ⟨rfl, hle, hbs⟩
  · rintro ⟨rfl, hle, hbs⟩
    rw [checkedAdd_eq_some.mpr ⟨rfl, hle⟩]
    simp only [hbs]

theorem readField_ne_panicked (segment : Bytes) (cursor width : ℕ) (e e' : FrameError) :
    readField segment cursor width e e' ≠ .error .panicked := by
  unfold readField
  split
  · simp
  split <;> simp

/-- The bytes of a field are as many as were asked for. -/
theorem readField_length {segment bytes : Bytes} {cursor width stop : ℕ} {e e' : FrameError}
    (h : readField segment cursor width e e' = .ok (stop, bytes)) : bytes.length = width := by
  obtain ⟨rfl, -, hbs⟩ := readField_ok.mp h
  rw [slice_length hbs]
  omega

/-- A field that stands between `pre` and `post`. -/
theorem readField_append {segment pre : Bytes} (field post : Bytes) {e e' : FrameError}
    {cursor width : ℕ} (hs : segment = pre ++ field ++ post) (hc : pre.length = cursor)
    (hw : field.length = width) (hlen : segment.length ≤ u64Max) :
    readField segment cursor width e e' = .ok ((pre ++ field).length, field) := by
  subst hs hc hw
  simp only [List.length_append] at hlen
  refine readField_ok.mpr ⟨List.length_append, by rw [List.length_append]; omega, ?_⟩
  refine slice_eq_some.mpr ⟨by simp, by simp, ?_⟩
  rw [List.length_append, Nat.add_sub_cancel_left, List.append_assoc, slice_append rfl rfl]

theorem fromBeBytes_ok {width : ℕ} {bytes : Bytes} (h : bytes.length = width) :
    fromBeBytes width bytes = .ok (beValue bytes) := if_pos h

/-- Decoding at the start of a frame gives its body, whatever stands before and after it. -/
theorem decode_frame {segment pre header body post : Bytes}
    (hs : segment = pre ++ frameBytes header body ++ post) (hheader : header.length < 2 ^ 32)
    (hlen : segment.length ≤ u64Max) :
    decodeArchiveFrameBody segment pre.length = .ok body := by
  have hsize : segment.length = pre.length + (4 + header.length + 8 + body.length) + post.length := by
    rw [hs]
    simp only [frameBytes, List.length_append, beBytes_length]
  have hbody : body.length < 256 ^ 8 := by
    simp only [u64Max] at hlen
    omega
  -- the segment, cut at each of the four fields
  have h1 : ∀ e e', readField segment pre.length 4 e e' = _ := fun e e' =>
    readField_append (beBytes 4 header.length)
      (header ++ beBytes 8 body.length ++ body ++ post)
      (by rw [hs]; simp [frameBytes]) rfl (beBytes_length _ _) hlen
  have h2 : ∀ e e', readField segment (pre ++ beBytes 4 header.length).length header.length e e' = _ :=
    fun e e' => readField_append header (beBytes 8 body.length ++ body ++ post)
      (by rw [hs]; simp [frameBytes]) rfl rfl hlen
  have h3 : ∀ e e', readField segment (pre ++ beBytes 4 header.length ++ header).length 8 e e' = _ :=
    fun e e' => readField_append (beBytes 8 body.length) (body ++ post)
      (by rw [hs]; simp [frameBytes]) rfl (beBytes_length _ _) hlen
  have h4 : ∀ e e', readField segment
      (pre ++ beBytes 4 header.length ++ header ++ beBytes 8 body.length).length body.length e e' = _ :=
    fun e e' => readField_append body post
      (by rw [hs]; simp [frameBytes]) rfl rfl hlen
  rw [decodeArchiveFrameBody, if_neg (by omega), if_neg (by omega)]
  simp only [Int.toNat_natCast, h1, h2, h3, h4, fromBeBytes_ok (beBytes_length _ _),
    beValue_beBytes (show header.length < 256 ^ 4 by omega), beValue_beBytes hbody, bind, Except.bind]
  rfl

/-- SAFE: no segment and no offset make the reader panic, and what it returns is a slice. -/
theorem decode_safe (segment : Bytes) (offset : ℤ) :
    decodeArchiveFrameBody segment offset ≠ .error .panicked ∧
      ∀ body, decodeArchiveFrameBody segment offset = .ok body →
        ∃ pre post, segment = pre ++ body ++ post := by
  rw [decodeArchiveFrameBody]
  split
  · simp
  split
  · simp
  constructor
  · intro h
    simp only [bind_eq_error, Prod.exists] at h
    obtain h | ⟨c1, b1, h1, h | ⟨n1, -, h | ⟨c2, b2, -, h | ⟨c3, b3, h3, h | ⟨n2, -, h |
      ⟨c4, b4, -, h⟩⟩⟩⟩⟩⟩ := h
    · exact readField_ne_panicked _ _ _ _ _ h
    · rw [fromBeBytes_ok (readField_length h1)] at h; cases h
    · exact readField_ne_panicked _ _ _ _ _ h
    · exact readField_ne_panicked _ _ _ _ _ h
    · rw [fromBeBytes_ok (readField_length h3)] at h; cases h
    · exact readField_ne_panicked _ _ _ _ _ h
    · cases h
  · intro body h
    simp only [bind_eq_ok, Prod.exists] at h
    obtain ⟨c1, b1, -, n1, -, c2, b2, -, c3, b3, -, n2, -, c4, b4, h4, h⟩ := h
    cases h
    obtain ⟨rfl, -, hb⟩ := readField_ok.mp h4
    obtain ⟨-, -, rfl⟩ := slice_eq_some.mp hb
    refine ⟨segment.take c3, segment.drop (c3 + n2), ?_⟩
    rw [Nat.add_sub_cancel_left, List.append_assoc, ← List.drop_drop, List.take_append_drop,
      List.take_append_drop]

/-! ### Segments -/

theorem usizeToI64Checked_ok {n : ℕ} {label : FrameError} {i : ℤ} :
    usizeToI64Checked n label = .ok i ↔ n < 2 ^ 63 ∧ i = n := by
  unfold usizeToI64Checked
  split
  · rename_i h
    simp only [Except.ok.injEq, h, true_and]
    exact eq_comm
  · rename_i h
    simp only [reduceCtorEq, h, false_and]

/-- The loop writes the frames one after the other, and notes for each where it starts. -/
theorem layout_ok : ∀ {rs : List PreparedArchiveRecord} {buffer final : Bytes}
    {writes : List ArchiveRecordWrite}, layout buffer rs = .ok (final, writes) →
    final = buffer ++ (rs.map PreparedArchiveRecord.frame).flatten ∧
      writes.length = rs.length ∧
      ∀ k (r : PreparedArchiveRecord) (w : ArchiveRecordWrite), rs[k]? = some r →
        writes[k]? = some w →
        w = ⟨r.direction, r.contentType,
          (buffer ++ ((rs.take k).map PreparedArchiveRecord.frame).flatten).length,
          r.uncompressedLen, r.bodySha256⟩
  | [], buffer, final, writes, h => by
      rw [layout] at h
      cases h
      simp
  | r :: rs, buffer, final, writes, h => by
      simp only [layout, bind_eq_ok, usizeToI64Checked_ok, Prod.exists] at h
      obtain ⟨_, ⟨-, rfl⟩, final', writes', hrest, h⟩ := h
      cases h
      have hjoin : (if buffer = [] then r.frame else buffer ++ r.frame) = buffer ++ r.frame := by
        split
        · rename_i hnil; rw [hnil, List.nil_append]
        · rfl
      rw [hjoin] at hrest
      obtain ⟨rfl, hlen, hwrites⟩ := layout_ok hrest
      refine ⟨by simp, by simp [hlen], ?_⟩
      rintro (_ | k) r' w hr hw
      · simp only [List.getElem?_cons_zero, Option.some.injEq] at hr hw
        subst hr hw
        simp
      · rw [List.getElem?_cons_succ] at hr hw
        rw [hwrites k r' w hr hw]
        simp

section
variable {lib : ArchiveLib}

theorem prepareArchiveRecord_ok {p : ArchivePayload} {r : PreparedArchiveRecord}
    (h : prepareArchiveRecord lib p = .ok r) :
    r.direction = p.direction ∧ r.contentType = p.contentType ∧ r.uncompressedLen = p.body.length ∧
      r.bodySha256 = lib.sha256Hex p.body ∧
      ∃ header, header.length < 2 ^ 32 ∧ r.frame = frameBytes header p.body := by
  simp only [prepareArchiveRecord, bind_eq_ok, usizeToI64Checked_ok] at h
  obtain ⟨frame, hframe, _, ⟨-, rfl⟩, h⟩ := h
  cases h
  refine ⟨rfl, rfl, rfl, rfl, ?_⟩
  unfold encodeArchiveFrame at hframe
  split at hframe
  · cases hframe
  rename_i header _
  split at hframe
  · rename_i hlt
    cases hframe
    exact ⟨header, hlt, rfl⟩
  · cases hframe

/-- The prepared records, payload by payload. -/
theorem prepareArchiveRecords_ok : ∀ {ps : List ArchivePayload} {rs : List PreparedArchiveRecord},
    ps.mapM (prepareArchiveRecord lib) = .ok rs →
    rs.length = ps.length ∧ ∀ (k : ℕ) (p : ArchivePayload), ps[k]? = some p →
      ∃ r, rs[k]? = some r ∧ prepareArchiveRecord lib p = .ok r
  | [], rs, h => by
      cases h
      simp
  | p :: ps, rs, h => by
      rw [List.mapM_cons] at h
      simp only [bind_eq_ok] at h
      obtain ⟨r, hr, rs', hrs, h⟩ := h
      cases h
      obtain ⟨hlen, hrest⟩ := prepareArchiveRecords_ok hrs
      refine ⟨by rw [List.length_cons, hlen, List.length_cons], ?_⟩
      rintro (_ | k) q hq
      · cases hq
        exact ⟨r, rfl, hr⟩
      · exact hrest k q hq

theorem decompress_compress (hz : lib.Inverts) {data out : Bytes} {level : ℤ}
    (h : compressWithLevel lib data level = .ok out) : decompress lib out = some data := by
  unfold compressWithLevel at h
  split at h
  · rename_i hnil
    cases h
    rw [hnil]
    rfl
  split at h
  · cases h
  rename_i c hc
  cases h
  obtain ⟨hne, hdec⟩ := hz _ _ _ hc
  rw [decompress, if_neg hne, hdec]

/-- The spec of `prepare_archive_segment`, over the payloads that its records were prepared from. -/
theorem prepareArchiveSegment_ok (hz : lib.Inverts) {payloads : List ArchivePayload}
    {records : List PreparedArchiveRecord} {level : ℤ} {seg : PreparedArchiveSegment}
    (hrecords : payloads.mapM (prepareArchiveRecord lib) = .ok records)
    (hseg : prepareArchiveSegment lib records level = .ok seg) :
    ∃ buffer, decompress lib seg.compressed = some buffer ∧
      buffer = (records.map PreparedArchiveRecord.frame).flatten ∧
      seg.checksum = lib.sha256Hex seg.compressed ∧
      seg.uncompressedBytes = buffer.length ∧ seg.writes.length = payloads.length ∧
      ∀ (k : ℕ) (p : ArchivePayload) (w : ArchiveRecordWrite), payloads[k]? = some p →
        seg.writes[k]? = some w →
        decodeArchiveFrameBody buffer w.uncompressedOffset = .ok p.body ∧
        w.uncompressedLen = p.body.length ∧ w.bodySha256 = lib.sha256Hex p.body ∧
        w.direction = p.direction ∧ w.contentType = p.contentType := by
  obtain ⟨hlen, hrecord⟩ := prepareArchiveRecords_ok hrecords
  simp only [prepareArchiveSegment, bind_eq_ok, usizeToI64Checked_ok, Prod.exists] at hseg
  obtain ⟨buffer, writes, hlayout, _, ⟨hsize, rfl⟩, compressed, hcompressed, hseg⟩ := hseg
  cases hseg
  obtain ⟨hbuffer, hcount, hwrites⟩ := layout_ok hlayout
  rw [List.nil_append] at hbuffer
  refine ⟨buffer, decompress_compress hz hcompressed, hbuffer, rfl, rfl, hcount.trans hlen, ?_⟩
  intro k p w hp hw
  obtain ⟨r, hr, hprepared⟩ := hrecord k p hp
  obtain ⟨hdir, hct, hulen, hsha, header, hheader, hframe⟩ := prepareArchiveRecord_ok hprepared
  rw [hwrites k r w hr hw]
  refine ⟨?_, hulen, hsha, hdir, hct⟩
  -- the buffer, cut before and after the frame of the record
  have hsplit : records = records.take k ++ r :: records.drop (k + 1) := by
    obtain ⟨hk, rfl⟩ := List.getElem?_eq_some_iff.mp hr
    rw [List.getElem_cons_drop, List.take_append_drop]
  have hcut : buffer = ((records.take k).map PreparedArchiveRecord.frame).flatten ++
      frameBytes header p.body ++
      ((records.drop (k + 1)).map PreparedArchiveRecord.frame).flatten := by
    rw [hbuffer]
    conv_lhs => rw [hsplit]
    simp [hframe]
  rw [List.nil_append]
  refine decode_frame hcut hheader ?_
  simp only [u64Max]
  omega

/-- CORRECT: the segment prepared for any list of payloads decompresses to a buffer from which every
    recorded write decodes to the body it was made for, with the recorded length and checksum; and on
    any bytes and any offset the reader neither panics nor returns anything but a slice. -/
theorem frames_round_trip (lib : ArchiveLib) (hz : lib.Inverts) :
    (∀ (payloads : List ArchivePayload) (records : List PreparedArchiveRecord) (level : ℤ)
        (seg : PreparedArchiveSegment),
      payloads.mapM (prepareArchiveRecord lib) = .ok records →
      prepareArchiveSegment lib records level = .ok seg →
      ∃ buffer, decompress lib seg.compressed = some buffer ∧
        seg.uncompressedBytes = buffer.length ∧ seg.writes.length = payloads.length ∧
        ∀ (k : ℕ) (p : ArchivePayload) (w : ArchiveRecordWrite), payloads[k]? = some p →
          seg.writes[k]? = some w →
          decodeArchiveFrameBody buffer w.uncompressedOffset = .ok p.body ∧
          w.uncompressedLen = p.body.length ∧ w.bodySha256 = lib.sha256Hex p.body ∧
          w.direction = p.direction ∧ w.contentType = p.contentType) ∧
    ∀ segment offset, decodeArchiveFrameBody segment offset ≠ .error .panicked ∧
      ∀ body, decodeArchiveFrameBody segment offset = .ok body →
        ∃ pre post, segment = pre ++ body ++ post := by
  refine ⟨?_, decode_safe⟩
  intro payloads records level seg hrecords hseg
  obtain ⟨buffer, hbuffer, -, -, hsize, hcount, hall⟩ := prepareArchiveSegment_ok hz hrecords hseg
  exact ⟨buffer, hbuffer, hsize, hcount, hall⟩

end

/-- `"hi"`, the request body of trace 1. -/
def samplePayload : ArchivePayload := ⟨1, .request, none, [104, 105]⟩

/-- The three libraries on that body; zstd writes what it cannot shorten as one raw block. -/
def sampleArchiveLib : ArchiveLib where
  toVec _ := some ((("\x7b\"content_type\":null,\"direction\":\"request_body\"," ++
    "\"trace_id\":\"00000000-0000-0000-0000-000000000001\"\x7d").toList.map
      fun c => UInt8.ofNat c.toNat))
  uuidText _ := "00000000-0000-0000-0000-000000000001"
  sha256Hex bs :=
    if bs = [104, 105] then "8f434346648f6b96df89dda901c5176b10a6d83961dd3c1ac88b59b2dc327aa4"
    else "27301c9d24874dc639f5ccd2e75c4b6b9f78f971ac655faca19f4beac8e14fbc"
  encodeAll data _ := some ([0x28, 0xb5, 0x2f, 0xfd, 0, 0x58] ++ leBytes 3 (8 * data.length + 1) ++ data)
  decodeAll data := some (data.drop 9)

theorem sampleArchiveLib_inverts : sampleArchiveLib.Inverts := by
  intro data level out h
  simp only [sampleArchiveLib, Option.some.injEq] at h
  subst h
  refine ⟨by simp, ?_⟩
  simp only [sampleArchiveLib, List.append_assoc]
  rfl

theorem frames_round_trip_sample : ∃ records seg buffer w,
    [samplePayload].mapM (prepareArchiveRecord sampleArchiveLib) = .ok records ∧
    prepareArchiveSegment sampleArchiveLib records 3 = .ok seg ∧
    decompress sampleArchiveLib seg.compressed = some buffer ∧ seg.writes[0]? = some w ∧
    buffer.length = 112 ∧ decodeArchiveFrameBody buffer w.uncompressedOffset = .ok [104, 105] := by
  obtain ⟨buffer, hbuffer, hsize, -, hall⟩ := (frames_round_trip sampleArchiveLib
    sampleArchiveLib_inverts).1 [samplePayload] _ 3 _ rfl rfl
  refine ⟨_, _, buffer, _, rfl, rfl, hbuffer, rfl, ?_, (hall 0 samplePayload _ rfl rfl).1⟩
  exact Int.natCast_inj.mp (hsize.symm.trans rfl)

end Llmtrace.Storage
