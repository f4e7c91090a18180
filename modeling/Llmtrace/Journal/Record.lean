import Llmtrace.Schemes.Word

/-! The journal record: what `append` writes for an event and what `read_header` and `read` make of
    the bytes of a file (`trace/journal.rs`).

        offset  0        8      16       24        32      40       72
                magic  meta  request  response  memory  sha-256   metadata, request, response

    The four numbers are little-endian `u64`; the checksum covers the 40 bytes before it and
    everything after it. JSON and SHA-256 come from other crates and are the parameters `Lib`. Bodies
    are in memory when a record is written, so the sum of the lengths is an exact `u64`. -/

namespace Llmtrace.Journal
open Schemes

/-- A UUID, read as its 128-bit number. -/
abbrev Uuid := ℕ

/-- A captured exchange: `metadata` is every field that is serialised besides the id; the bodies
    are skipped by serde. -/
structure TraceEvent (M : Type) where
  id : Uuid
  metadata : M
  requestBody : Bytes
  responseBody : Bytes

/-- `serde_json` on the event, SHA-256, and the allocation estimate `memory::event_bytes`. -/
structure Lib (M : Type) where
  toVec : Uuid → M → Option Bytes
  fromSlice : Bytes → Option (Uuid × M)
  sha256 : Bytes → Bytes
  sha256_length : ∀ bs, (sha256 bs).length = 32
  eventBytes : TraceEvent M → ℕ

/-- `serde_json` reads back what it wrote. -/
def Lib.RoundTrip {M : Type} (lib : Lib M) : Prop :=
  ∀ id m bs, lib.toVec id m = some bs → lib.fromSlice bs = some (id, m)

/-- `b"LLMTJ001"` -/
def magic : Bytes := [76, 76, 77, 84, 74, 48, 48, 49]

/-- `HEADER_BYTES` -/
def headerBytes : ℕ := 72

/-- `MAX_METADATA_BYTES` -/
def maxMetadataBytes : ℕ := 16 * 1024 * 1024

/-- The largest memory that a header may ask for. -/
def maxMemory : ℕ := 64 * 1024 * 1024 * 1024

/-- Why a record is not read. -/
inductive JournalError where
  | io | json | metadataExceeds | unknownFormat | metadataTooLarge | lengthMismatch
  | memoryReservation | checksumMismatch | idMismatch
  deriving DecidableEq

/-- The texts of the errors the journal itself raises. -/
def JournalError.message : JournalError → Option String
  | .io | .json => none
  | .metadataExceeds => some "journal metadata exceeds 16 MiB"
  | .unknownFormat => some "unknown journal format"
  | .metadataTooLarge => some "journal metadata too large"
  | .lengthMismatch => some "journal record length mismatch"
  | .memoryReservation => some "invalid journal memory reservation"
  | .checksumMismatch => some "journal checksum mismatch"
  | .idMismatch => some "journal trace id mismatch"

/-- `Header`, the lengths with the checksum. -/
structure Header where
  metadata : ℕ
  request : ℕ
  response : ℕ
  memory : ℕ
  checksum : Bytes
  deriving DecidableEq

/-- `header_prefix`: the part of the header that the checksum covers. -/
def headerPrefix (metadata request response memory : ℕ) : Bytes :=
  magic ++ leBytes 8 metadata ++ leBytes 8 request ++ leBytes 8 response ++ leBytes 8 memory

section Write
variable {M : Type} (lib : Lib M) (e : TraceEvent M)

/-- The metadata `append` writes, or why it refuses the event before looking at the catalog. -/
def appendMetadata : Except JournalError Bytes :=
  match lib.toVec e.id e.metadata with
  | none => .error .json
  | some metadata =>
    if metadata.length ≤ maxMetadataBytes then .ok metadata else .error .metadataExceeds

/-- The bytes charged for a record. -/
def recordSize (metadata : Bytes) : ℕ :=
  headerBytes + metadata.length + e.requestBody.length + e.responseBody.length

/-- The memory a replay of the record reserves. -/
def replayMemory (metadata : Bytes) : ℕ :=
  max (lib.eventBytes e)
    (saturatingAdd
      (saturatingAdd (saturatingAdd e.requestBody.length e.responseBody.length)
        (saturatingMul metadata.length 8))
      65536)

/-- The prefix of the record of an event. -/
def recordPrefix (metadata : Bytes) : Bytes :=
  headerPrefix metadata.length e.requestBody.length e.responseBody.length
    (replayMemory lib e metadata)

/-- The bytes of the finished record file. -/
def record (metadata : Bytes) : Bytes :=
  recordPrefix lib e metadata ++
    lib.sha256 (recordPrefix lib e metadata ++ metadata ++ e.requestBody ++ e.responseBody) ++
    metadata ++ e.requestBody ++ e.responseBody

end Write

/-- The number at `offset` of a header. -/
def number (file : Bytes) (offset : ℕ) : ℕ := leValue ((file.drop offset).take 8)

/-- The fields of a header, unchecked. -/
def headerOf (file : Bytes) : Header :=
  ⟨number file 8, number file 16, number file 24, number file 32, (file.drop 40).take 32⟩

/-- `read_header`: the header of a file whose length is said to be `size`. -/
def readHeader (file : Bytes) (size : ℕ) : Except JournalError Header :=
  let h := headerOf file
  if file.length < headerBytes then .error .io
  else if file.take 8 ≠ magic then .error .unknownFormat
  else if maxMetadataBytes < h.metadata then .error .metadataTooLarge
  else if (((checkedAdd headerBytes h.metadata).bind (checkedAdd · h.request)).bind
      (checkedAdd · h.response)) ≠ some size then .error .lengthMismatch
  else
    match ((checkedAdd h.request h.response).bind
        (checkedAdd · (saturatingMul h.metadata 8))).bind (checkedAdd · 65536) with
    | none => .error .memoryReservation
    | some minimum =>
      if minimum ≤ h.memory ∧ h.memory ≤ maxMemory then .ok h else .error .memoryReservation

/-- `Journal::read` on the bytes of the file of record `id`. -/
def read {M : Type} (lib : Lib M) (file : Bytes) (id : Uuid) :
    Except JournalError (TraceEvent M) :=
  match readHeader file file.length with
  | .error err => .error err
  | .ok h =>
    let rest := file.drop headerBytes
    if rest.length < h.metadata + h.request + h.response then .error .io
    else
      let metadata := rest.take h.metadata
      let request := (rest.drop h.metadata).take h.request
      let response := (rest.drop (h.metadata + h.request)).take h.response
      if lib.sha256 (headerPrefix h.metadata h.request h.response h.memory ++ metadata ++ request
          ++ response) ≠ h.checksum then .error .checksumMismatch
      else
        match lib.fromSlice metadata with
        | none => .error .json
        | some (owner, fields) =>
          if owner = id then .ok ⟨owner, fields, request, response⟩ else .error .idMismatch

/-! ### What an accepted header says -/

/-- Everything `read_header` has established when it accepts. -/
structure HeaderOk (file : Bytes) (size : ℕ) (h : Header) : Prop where
  long : headerBytes ≤ file.length
  magic : file.take 8 = magic
  fields : h = headerOf file
  metadata_le : h.metadata ≤ maxMetadataBytes
  total : headerBytes + h.metadata + h.request + h.response = size
  size_le : size ≤ u64Max
  minimum : h.request + h.response + 8 * h.metadata + 65536 ≤ h.memory
  memory_le : h.memory ≤ maxMemory

theorem saturatingMul_metadata {m : ℕ} (h : m ≤ maxMetadataBytes) : saturatingMul m 8 = 8 * m := by
  unfold saturatingMul u64Max
  unfold maxMetadataBytes at h
  omega

theorem readHeader_ok_iff {file : Bytes} {size : ℕ} {h : Header} :
    readHeader file size = .ok h ↔ HeaderOk file size h := by
  constructor
  · intro hok
    simp only [readHeader] at hok
    split at hok
    · cases hok
    split at hok
    · cases hok
    split at hok
    · cases hok
    split at hok
    · cases hok
    rename_i hlen hmagic hmeta htotal
    split at hok
    · cases hok
    rename_i minimum hmin
    split at hok
    · rename_i hmem
      cases hok
      simp only [not_not, Option.bind_eq_some_iff, checkedAdd_eq_some] at hmagic htotal hmin
      obtain ⟨_, ⟨_, ⟨rfl, _⟩, rfl, _⟩, htot, hle⟩ := htotal
      obtain ⟨_, ⟨_, ⟨rfl, _⟩, rfl, _⟩, rfl, _⟩ := hmin
      rw [saturatingMul_metadata (by omega)] at hmem
      exact ⟨by omega, hmagic, rfl, by omega, htot, hle, by omega, hmem.2⟩
    · cases hok
  · rintro ⟨hlong, hmagic, rfl, hmeta, htotal, hsize, hmin, hmem⟩
    have htot : (((checkedAdd headerBytes (headerOf file).metadata).bind
        (checkedAdd · (headerOf file).request)).bind
        (checkedAdd · (headerOf file).response)) = some size := by
      simp only [Option.bind_eq_some_iff, checkedAdd_eq_some]
      exact ⟨_, ⟨_, ⟨rfl, by omega⟩, rfl, by omega⟩, htotal, hsize⟩
    have hm : ((checkedAdd (headerOf file).request (headerOf file).response).bind
        (checkedAdd · (saturatingMul (headerOf file).metadata 8))).bind (checkedAdd · 65536) =
        some ((headerOf file).request + (headerOf file).response + 8 * (headerOf file).metadata
          + 65536) := by
      rw [saturatingMul_metadata hmeta]
      simp only [Option.bind_eq_some_iff, checkedAdd_eq_some]
      unfold maxMemory at hmem
      unfold u64Max
      exact ⟨_, ⟨_, ⟨rfl, by omega⟩, rfl, by omega⟩, rfl, by omega⟩
    simp only [readHeader, htot, hm, hmagic, ne_eq, not_true_eq_false, if_false]
    rw [if_neg (by omega), if_neg (by omega), if_pos ⟨hmin, hmem⟩]

/-! ### The written record is readable -/

@[simp] theorem headerPrefix_length (m r p mem : ℕ) : (headerPrefix m r p mem).length = 40 := by
  simp [headerPrefix, magic]

theorem headerOf_append {m r p mem : ℕ} {sum rest : Bytes} (hm : m ≤ u64Max) (hr : r ≤ u64Max)
    (hp : p ≤ u64Max) (hmem : mem ≤ u64Max) (hsum : sum.length = 32) :
    headerOf (headerPrefix m r p mem ++ (sum ++ rest)) = ⟨m, r, p, mem, sum⟩ := by
  have word : ∀ {n}, n ≤ u64Max → leValue (leBytes 8 n) = n := fun h =>
    leValue_leBytes (by unfold u64Max at h; omega)
  have at8 : number (headerPrefix m r p mem ++ (sum ++ rest)) 8 = m := by
    rw [number, headerPrefix]
    simp only [List.append_assoc]
    rw [slice_append (by simp [magic]) (leBytes_length 8 m), word hm]
  have at16 : number (headerPrefix m r p mem ++ (sum ++ rest)) 16 = r := by
    rw [number, headerPrefix, List.append_assoc, List.append_assoc, List.append_assoc,
      slice_append (by simp [magic]) (leBytes_length 8 r), word hr]
  have at24 : number (headerPrefix m r p mem ++ (sum ++ rest)) 24 = p := by
    rw [number, headerPrefix, List.append_assoc, List.append_assoc,
      slice_append (by simp [magic]) (leBytes_length 8 p), word hp]
  have at32 : number (headerPrefix m r p mem ++ (sum ++ rest)) 32 = mem := by
    rw [number, headerPrefix, List.append_assoc,
      slice_append (by simp [magic]) (leBytes_length 8 mem), word hmem]
  rw [headerOf, at8, at16, at24, at32, slice_append (headerPrefix_length ..) hsum]

section Write
variable {M : Type} {lib : Lib M} {e : TraceEvent M} {metadata : Bytes}

theorem appendMetadata_ok (h : appendMetadata lib e = .ok metadata) :
    lib.toVec e.id e.metadata = some metadata ∧ metadata.length ≤ maxMetadataBytes := by
  unfold appendMetadata at h
  split at h
  · cases h
  · split at h
    · cases h; exact ⟨by assumption, by assumption⟩
    · cases h

/-- A reservation within the limit did not saturate: it covers the exact minimum. -/
theorem replayMemory_minimum (hmem : replayMemory lib e metadata ≤ maxMemory) :
    e.requestBody.length + e.responseBody.length + 8 * metadata.length + 65536
      ≤ replayMemory lib e metadata := by
  unfold replayMemory saturatingAdd saturatingMul u64Max maxMemory at *
  omega

theorem record_length : (record lib e metadata).length = recordSize e metadata := by
  simp only [record, recordPrefix, recordSize, List.length_append, headerPrefix_length,
    lib.sha256_length, headerBytes]

theorem record_shape : record lib e metadata = recordPrefix lib e metadata ++
    (lib.sha256 (recordPrefix lib e metadata ++ metadata ++ e.requestBody ++ e.responseBody) ++
      (metadata ++ e.requestBody ++ e.responseBody)) := by
  simp [record, List.append_assoc]

theorem headerOf_record (hmem : replayMemory lib e metadata ≤ maxMemory) :
    headerOf (record lib e metadata) = ⟨metadata.length, e.requestBody.length,
      e.responseBody.length, replayMemory lib e metadata,
      lib.sha256 (recordPrefix lib e metadata ++ metadata ++ e.requestBody ++ e.responseBody)⟩ := by
  have hmin := replayMemory_minimum hmem
  have hmax : maxMemory ≤ u64Max := by decide
  rw [record_shape, recordPrefix]
  exact headerOf_append (by omega) (by omega) (by omega) (by omega) (lib.sha256_length _)

theorem record_headerOk (hmeta : metadata.length ≤ maxMetadataBytes)
    (hmem : replayMemory lib e metadata ≤ maxMemory) :
    HeaderOk (record lib e metadata) (record lib e metadata).length
      (headerOf (record lib e metadata)) := by
  have hmin := replayMemory_minimum hmem
  have hmax : maxMemory < u64Max - 72 := by decide
  refine ⟨?_, ?_, rfl, ?_, ?_, ?_, ?_, ?_⟩
  · rw [record_length]; simp only [recordSize]; omega
  · rw [record_shape, recordPrefix, headerPrefix]; rfl
  · rw [headerOf_record hmem]; exact hmeta
  · rw [headerOf_record hmem, record_length, recordSize]
  · rw [record_length]; simp only [recordSize, headerBytes]; omega
  · rw [headerOf_record hmem]; exact hmin
  · rw [headerOf_record hmem]; exact hmem

theorem read_record (hrt : lib.RoundTrip) (hvec : lib.toVec e.id e.metadata = some metadata)
    (hmeta : metadata.length ≤ maxMetadataBytes)
    (hmem : replayMemory lib e metadata ≤ maxMemory) :
    read lib (record lib e metadata) e.id = .ok e := by
  have hrest : (record lib e metadata).drop headerBytes =
      metadata ++ (e.requestBody ++ e.responseBody) := by
    rw [record_shape, ← List.append_assoc, List.drop_left' (by
      simp [recordPrefix, lib.sha256_length, headerBytes]), List.append_assoc]
  have hreq : ((metadata ++ (e.requestBody ++ e.responseBody)).drop metadata.length).take
      e.requestBody.length = e.requestBody := slice_append rfl rfl
  have hresp : ((metadata ++ (e.requestBody ++ e.responseBody)).drop
      (metadata.length + e.requestBody.length)).take e.responseBody.length = e.responseBody := by
    rw [← List.append_assoc]
    simp
  simp only [read, readHeader_ok_iff.mpr (record_headerOk hmeta hmem), headerOf_record hmem, hrest,
    List.take_left, hreq, hresp, hrt _ _ _ hvec, if_true]
  rw [if_neg (by simp only [List.length_append]; omega), if_neg (by simp [recordPrefix])]

end Write

/-! ### The checksum fixes the file -/

/-- The bytes a record's checksum covers. -/
def digested (file : Bytes) : Bytes := file.take 40 ++ file.drop headerBytes

/-- The checksum stored in a file. -/
def storedChecksum (file : Bytes) : Bytes := (file.drop 40).take 32

/-- Writing the numbers of an accepted header again gives its first 40 bytes. -/
theorem headerPrefix_headerOf {file : Bytes} {size : ℕ} {h : Header} (ok : HeaderOk file size h) :
    headerPrefix h.metadata h.request h.response h.memory = file.take 40 := by
  have hlen := ok.long
  unfold headerBytes at hlen
  have word : ∀ i, i + 8 ≤ 40 → leBytes 8 (number file i) = (file.drop i).take 8 := by
    intro i hi
    have hl : ((file.drop i).take 8).length = 8 := by
      simp only [List.length_take, List.length_drop]; omega
    have := leBytes_leValue ((file.drop i).take 8)
    rwa [hl] at this
  have join : ∀ i, file.take i ++ (file.drop i).take 8 = file.take (i + 8) := fun i =>
    List.take_add.symm
  rw [ok.fields, headerPrefix, ← ok.magic]
  simp only [headerOf]
  rw [word 8 (by omega), word 16 (by omega), word 24 (by omega), word 32 (by omega),
    join 8, join 16, join 24, join 32]

/-- What an accepted `read` has established. -/
theorem read_ok {M : Type} {lib : Lib M} {file : Bytes} {id : Uuid} {ev : TraceEvent M}
    (h : read lib file id = .ok ev) :
    HeaderOk file file.length (headerOf file) ∧
      lib.sha256 (digested file) = storedChecksum file := by
  simp only [read] at h
  split at h
  · cases h
  rename_i hd hh
  have ok := readHeader_ok_iff.mp hh
  obtain rfl := ok.fields
  refine ⟨ok, ?_⟩
  split at h
  · cases h
  split at h
  · cases h
  rename_i hsum
  have hbody : (file.drop headerBytes).length =
      (headerOf file).metadata + (headerOf file).request + (headerOf file).response := by
    have := ok.total
    simp only [List.length_drop]
    omega
  rw [not_not, headerPrefix_headerOf ok, List.append_assoc, List.append_assoc] at hsum
  rw [digested, ← pieces_append _ hbody, List.append_assoc]
  exact hsum

theorem file_eq_of_digested {f g : Bytes} (hf : headerBytes ≤ f.length)
    (hg : headerBytes ≤ g.length) (hsum : storedChecksum f = storedChecksum g)
    (hdig : digested f = digested g) : f = g := by
  have hsplit : ∀ x : Bytes, x = x.take 40 ++ (storedChecksum x ++ x.drop headerBytes) := by
    intro x
    rw [storedChecksum, headerBytes, show (72 : ℕ) = 40 + 32 from rfl, ← List.drop_drop,
      List.take_append_drop, List.take_append_drop]
  unfold headerBytes at hf hg
  have hl : (f.take 40).length = (g.take 40).length := by
    simp only [List.length_take]; omega
  obtain ⟨h40, h72⟩ := List.append_inj hdig hl
  rw [hsplit f, hsplit g, h40, h72, hsum]

/-- CORRECT: an accepted event is read back from the bytes written for it; an accepted header adds
    up to the size without overflow and reserves at least the replay minimum; and two files that
    `read` accepts under one id and one stored checksum agree, unless the bytes they digest are a
    SHA-256 collision. -/
theorem record_codec {M : Type} (lib : Lib M) (hrt : lib.RoundTrip) :
    (∀ e metadata, appendMetadata lib e = .ok metadata →
      replayMemory lib e metadata ≤ maxMemory →
      (∃ h, readHeader (record lib e metadata) (recordSize e metadata) = .ok h) ∧
      (record lib e metadata).length = recordSize e metadata ∧
      read lib (record lib e metadata) e.id = .ok e) ∧
    (∀ file size h, readHeader file size = .ok h →
      headerBytes + h.metadata + h.request + h.response = size ∧ size ≤ u64Max ∧
      h.request + h.response + 8 * h.metadata + 65536 ≤ h.memory) ∧
    (∀ id f g ev ev', read lib f id = .ok ev → read lib g id = .ok ev' →
      storedChecksum f = storedChecksum g →
      (lib.sha256 (digested f) = lib.sha256 (digested g) → digested f = digested g) →
      readHeader f f.length = readHeader g g.length ∧
      ev.requestBody = ev'.requestBody ∧ ev.responseBody = ev'.responseBody) := by
  refine ⟨?_, ?_, ?_⟩
  · intro e metadata hacc hmem
    obtain ⟨hvec, hmeta⟩ := appendMetadata_ok hacc
    have hlen : (record lib e metadata).length = recordSize e metadata := record_length
    refine ⟨⟨headerOf (record lib e metadata), ?_⟩, hlen, read_record hrt hvec hmeta hmem⟩
    rw [← hlen]
    exact readHeader_ok_iff.mpr (record_headerOk hmeta hmem)
  · intro file size h hok
    have ok := readHeader_ok_iff.mp hok
    exact ⟨ok.total, ok.size_le, ok.minimum⟩
  · intro id f g ev ev' hf hg hsum hcoll
    obtain ⟨okf, sumf⟩ := read_ok hf
    obtain ⟨okg, sumg⟩ := read_ok hg
    have hdig := hcoll (by rw [sumf, sumg, hsum])
    obtain rfl := file_eq_of_digested okf.long okg.long hsum hdig
    rw [hf] at hg
    cases hg
    exact ⟨rfl, rfl, rfl⟩

/-- The JSON of `TraceEvent::base(Uuid::nil(), UNIX_EPOCH)`. -/
def sampleJson : List String :=
  ["\x7b\"id\":\"00000000-0000-0000-0000-000000000000\",",
    "\"started_at\":\"1970-01-01T00:00:00Z\",", "\"completed_at\":null,", "\"method\":\"\",",
    "\"original_uri\":\"\",", "\"upstream_url\":\"\",", "\"upstream_host\":null,",
    "\"status\":null,", "\"error\":null,", "\"request_kind\":null,", "\"model\":null,",
    "\"api_key_hash\":null,", "\"credential_scope_hash\":null,", "\"session_key\":null,",
    "\"ttft_ms\":null,", "\"ttfb_ms\":null,", "\"response_chunk_timings\":[],",
    "\"duration_ms\":null,", "\"request_body_bytes\":0,", "\"response_body_bytes\":0,",
    "\"request_headers\":\x7b\x7d,", "\"response_headers\":\x7b\x7d,",
    "\"plugin_request_headers\":\x7b\x7d,", "\"plugin_response_headers\":\x7b\x7d,",
    "\"request_body_truncated\":false,", "\"response_body_truncated\":false,",
    "\"content_type\":null,", "\"plugin_metadata\":\x7b\x7d,", "\"tags\":[],", "\"messages\":[],",
    "\"user_id\":null,", "\"user_name\":null,", "\"run_plugins\":false\x7d"]

/-- The bytes of `sampleJson`. -/
def sampleMetadata : Bytes :=
  sampleJson.flatMap fun line => line.toList.map fun c => UInt8.ofNat c.toNat

/-- An event with a body that is no text. -/
def sampleEvent : TraceEvent Unit := ⟨0, (), [0, 255, 1, 128], [111, 107]⟩

/-- JSON and SHA-256 as they are on the sample event. -/
def sampleLib : Lib Unit where
  toVec id _ := if id = 0 then some sampleMetadata else none
  fromSlice bs := if bs = sampleMetadata then some (0, ()) else none
  sha256 bs :=
    if bs = headerPrefix 702 4 2 71158 ++ sampleMetadata ++ [0, 255, 1, 128] ++ [111, 107] then
      [204, 17, 165, 138, 217, 150, 172, 232, 194, 198, 37, 179, 19, 85, 73, 167,
        52, 29, 166, 120, 103, 42, 3, 107, 196, 66, 64, 240, 140, 13, 151, 214]
    else List.replicate 32 0
  sha256_length bs := by split <;> rfl
  eventBytes e := e.requestBody.length + e.responseBody.length

theorem sampleLib_roundTrip : sampleLib.RoundTrip := by
  intro id m bs h
  simp only [sampleLib, Option.ite_none_right_eq_some, Option.some.injEq] at h
  obtain ⟨rfl, rfl⟩ := h
  simp [sampleLib]

theorem sampleMetadata_length : sampleMetadata.length = 702 := by
  simp only [sampleMetadata, List.length_flatMap, List.length_map]
  decide +kernel

theorem sampleEvent_accepted : appendMetadata sampleLib sampleEvent = .ok sampleMetadata ∧
    replayMemory sampleLib sampleEvent sampleMetadata ≤ maxMemory := by
  constructor
  · simp [appendMetadata, sampleLib, sampleEvent, sampleMetadata_length, maxMetadataBytes]
  · simp [replayMemory, sampleLib, sampleEvent, sampleMetadata_length, saturatingAdd,
      saturatingMul, u64Max, maxMemory]

theorem record_codec_sample : sampleLib.RoundTrip ∧
    read sampleLib (record sampleLib sampleEvent sampleMetadata) 0 = .ok sampleEvent :=
  ⟨sampleLib_roundTrip, ((record_codec sampleLib sampleLib_roundTrip).1 sampleEvent sampleMetadata
    sampleEvent_accepted.1 sampleEvent_accepted.2).2.2⟩

end Llmtrace.Journal
