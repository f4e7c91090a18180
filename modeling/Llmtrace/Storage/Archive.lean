import Llmtrace.Schemes.Table
import Llmtrace.Storage.Traces

/-! The archive tables: traces, the segments their bodies are stored in, the records that say where
    in a segment a body lies, and the queue of archive files to remove.

    Deleting a trace cascades to its records (a foreign key), the last record of a segment takes the
    segment with it (trigger `delete_unreferenced_archive_segment`), and a segment that was kept in
    the filesystem leaves its file in the queue (trigger `queue_deleted_archive_file`). -/

namespace Llmtrace.Storage
open Schemes

/-- `storage_key`, by its parts. Ids and checksums have a fixed width, so the text determines them. -/
inductive StorageKey where
  /-- `journal/<journal>/<trace>/<checksum>.zst` -/
  | journal (journalId traceId checksum : ℕ)
  /-- `<session>/<index>-<segment>.zst` -/
  | session (sessionId index segmentId : ℕ)
  /-- `unscoped/<segment>/<index>-<segment>.zst` -/
  | unscoped (segmentId index : ℕ)
  /-- `<segment>`: the payload is in `payload_archive_segment_blobs`. -/
  | blob (segmentId : ℕ)
  deriving DecidableEq

/-- Where a segment is kept. -/
inductive Backend where
  | filesystem | postgres
  deriving DecidableEq

/-- A row of `payload_archive_segments`. -/
structure Segment where
  id : ℕ
  createdAt : ℤ
  compressedBytes : ℕ
  backend : Backend
  storageKey : StorageKey
  deriving DecidableEq

/-- The body of a record. -/
inductive Direction where
  | request | response
  deriving DecidableEq

/-- A row of `payload_archive_records`. -/
structure ArchiveRecord where
  traceId : ℕ
  segmentId : ℕ
  direction : Direction
  deriving DecidableEq

/-- The tables of the archive. -/
structure Archive where
  traces : List Trace
  segments : List Segment
  records : List ArchiveRecord
  /-- `archive_file_deletions` -/
  deletions : Table StorageKey ℕ

/-! ### Deletion -/

/-- `queue_deleted_archive_file` -/
def queueDeletedFile (deletions : Table StorageKey ℕ) (s : Segment) : Table StorageKey ℕ :=
  if s.backend = .filesystem ∧ s.storageKey ∉ deletions then
    AList.insert s.storageKey s.compressedBytes deletions
  else deletions

/-- `DELETE FROM payload_archive_segments WHERE p`, with its row trigger. -/
def deleteSegments (db : Archive) (p : Segment → Bool) : Archive :=
  { db with
    segments := db.segments.filter fun s => !p s
    deletions := (db.segments.filter p).foldl queueDeletedFile db.deletions }

/-- `EXISTS (SELECT 1 FROM payload_archive_records r WHERE r.segment_id = s.id)` -/
def isReferenced (records : List ArchiveRecord) (segmentId : ℕ) : Bool :=
  records.any fun r => decide (r.segmentId = segmentId)

/-- `delete_unreferenced_archive_segment` for the deleted record `r`. -/
def deleteUnreferencedSegment (db : Archive) (r : ArchiveRecord) : Archive :=
  deleteSegments db fun s => decide (s.id = r.segmentId) && !isReferenced db.records s.id

/-- `DELETE FROM request_traces WHERE id = $1`: the row goes, then its records at once, then the
    records' triggers fire, in the order `fire` gives them. -/
def deleteTrace (fire : List ArchiveRecord → List ArchiveRecord) (db : Archive) (id : ℕ) : Archive :=
  let gone := db.records.filter fun r => decide (r.traceId = id)
  let db := { db with
    traces := db.traces.filter fun t => decide (t.id ≠ id)
    records := db.records.filter fun r => decide (r.traceId ≠ id) }
  (fire gone).foldl deleteUnreferencedSegment db

theorem foldl_unreferenced (rs : List ArchiveRecord) (db : Archive) :
    (rs.foldl deleteUnreferencedSegment db).traces = db.traces ∧
    (rs.foldl deleteUnreferencedSegment db).records = db.records ∧
    (rs.foldl deleteUnreferencedSegment db).segments = db.segments.filter fun s =>
      !(isReferenced rs s.id && !isReferenced db.records s.id) := by
  induction rs generalizing db with
  | nil =>
    refine ⟨rfl, rfl, ?_⟩
    simp [isReferenced]
  | cons r rs ih =>
    obtain ⟨ht, hr, hs⟩ := ih (deleteUnreferencedSegment db r)
    refine ⟨ht, hr, ?_⟩
    rw [List.foldl_cons, hs]
    simp only [deleteUnreferencedSegment, deleteSegments, List.filter_filter]
    refine List.filter_congr fun s _ => ?_
    have hcons : isReferenced (r :: rs) s.id =
        (decide (s.id = r.segmentId) || isReferenced rs s.id) := by simp [isReferenced, eq_comm]
    rw [hcons]
    cases decide (s.id = r.segmentId) <;> cases isReferenced rs s.id <;>
      cases isReferenced db.records s.id <;> rfl

section
variable {fire : List ArchiveRecord → List ArchiveRecord} (db : Archive) (id : ℕ)

theorem deleteTrace_traces :
    (deleteTrace fire db id).traces = db.traces.filter fun t => decide (t.id ≠ id) :=
  (foldl_unreferenced _ _).1

theorem deleteTrace_records :
    (deleteTrace fire db id).records = db.records.filter fun r => decide (r.traceId ≠ id) :=
  (foldl_unreferenced _ _).2.1

/-- `s` is stored for trace `id` and for no other. -/
def onlyFor (records : List ArchiveRecord) (id : ℕ) (s : Segment) : Bool :=
  records.any (fun r => decide (r.segmentId = s.id ∧ r.traceId = id)) &&
    !records.any (fun r => decide (r.segmentId = s.id ∧ r.traceId ≠ id))

/-- Whatever the order of the triggers, exactly the segments of this trace alone go. -/
theorem deleteTrace_segments (hfire : ∀ rs, (fire rs).Perm rs) :
    (deleteTrace fire db id).segments = db.segments.filter fun s => !onlyFor db.records id s := by
  rw [deleteTrace, (foldl_unreferenced _ _).2.2]
  refine List.filter_congr fun s _ => ?_
  have hgone : isReferenced (fire (db.records.filter fun r => decide (r.traceId = id))) s.id =
      db.records.any fun r => decide (r.segmentId = s.id ∧ r.traceId = id) := by
    rw [Bool.eq_iff_iff]
    simp only [isReferenced, List.any_eq_true, (hfire _).mem_iff, List.mem_filter,
      decide_eq_true_eq, and_assoc]
    exact exists_congr fun r => and_congr_right fun _ => and_comm
  have hrest : isReferenced (db.records.filter fun r => decide (r.traceId ≠ id)) s.id =
      db.records.any fun r => decide (r.segmentId = s.id ∧ r.traceId ≠ id) := by
    rw [Bool.eq_iff_iff]
    simp only [isReferenced, List.any_eq_true, List.mem_filter, decide_eq_true_eq, and_assoc]
    exact exists_congr fun r => and_congr_right fun _ => and_comm
  rw [hgone, hrest, onlyFor]

end

/-! ### Footprint -/

/-- `octet_length(request_body_compressed) + octet_length(response_body_compressed)` -/
def Trace.inlineBytes (t : Trace) : ℕ := t.requestBodyCompressed + t.responseBodyCompressed

/-- The bytes of segments and of bodies that are kept inline. -/
def Archive.retainedBytes (db : Archive) : ℕ :=
  (db.segments.map Segment.compressedBytes).sum +
    ((db.traces.filter fun t => decide (0 < t.requestBodyCompressed) ||
      decide (0 < t.responseBodyCompressed)).map Trace.inlineBytes).sum

/-- The bytes of files that are still to be deleted. -/
def Archive.pendingBytes (db : Archive) : ℕ := db.deletions.total id

/-- The files that are still to be deleted. -/
def Archive.pendingFiles (db : Archive) : ℕ := db.deletions.size

/-- Rows without an inline body add nothing. -/
theorem sum_inlineBytes (ts : List Trace) :
    ((ts.filter fun t => decide (0 < t.requestBodyCompressed) ||
      decide (0 < t.responseBodyCompressed)).map Trace.inlineBytes).sum =
    (ts.map Trace.inlineBytes).sum := by
  induction ts with
  | nil => rfl
  | cons t ts ih =>
    rw [List.filter_cons]
    split
    · simp only [List.map_cons, List.sum_cons, ih]
    · rename_i h
      simp only [Bool.or_eq_true, decide_eq_true_eq, not_or, Nat.not_lt, Nat.le_zero] at h
      simp only [List.map_cons, List.sum_cons, ih, Trace.inlineBytes, h.1, h.2, Nat.add_zero,
        Nat.zero_add]

theorem Archive.retainedBytes_eq (db : Archive) : db.retainedBytes =
    (db.segments.map Segment.compressedBytes).sum + (db.traces.map Trace.inlineBytes).sum := by
  rw [Archive.retainedBytes, sum_inlineBytes]

theorem sum_filter_split {α : Type} (f : α → ℕ) (p : α → Bool) (l : List α) :
    ((l.filter p).map f).sum + ((l.filter fun a => !p a).map f).sum = (l.map f).sum := by
  rw [← List.sum_append, ← List.map_append]
  exact ((List.filter_append_perm p l).map f).sum_eq

/-! ### Schema -/

/-- What the primary and foreign keys of the schema enforce. -/
structure Archive.Valid (db : Archive) : Prop where
  traceIds : (db.traces.map Trace.id).Nodup
  segmentIds : (db.segments.map Segment.id).Nodup
  recordTrace : ∀ r ∈ db.records, r.traceId ∈ db.traces.map Trace.id
  recordSegment : ∀ r ∈ db.records, r.segmentId ∈ db.segments.map Segment.id

theorem deleteTrace_valid {fire : List ArchiveRecord → List ArchiveRecord}
    (hfire : ∀ rs, (fire rs).Perm rs) {db : Archive} (h : db.Valid) (id : ℕ) :
    (deleteTrace fire db id).Valid := by
  have htr := @deleteTrace_traces fire db id
  have hre := @deleteTrace_records fire db id
  have hse := deleteTrace_segments db id hfire
  refine ⟨?_, ?_, ?_, ?_⟩
  · rw [htr]
    exact h.traceIds.sublist (List.filter_sublist.map _)
  · rw [hse]
    exact h.segmentIds.sublist (List.filter_sublist.map _)
  · intro r hr
    simp only [hre, List.mem_filter, decide_eq_true_eq] at hr
    obtain ⟨t, ht, htid⟩ := List.mem_map.mp (h.recordTrace r hr.1)
    refine List.mem_map.mpr ⟨t, ?_, htid⟩
    rw [htr]
    exact List.mem_filter.mpr ⟨ht, decide_eq_true (htid ▸ hr.2)⟩
  · -- a record of another trace keeps its segment
    intro r hr
    simp only [hre, List.mem_filter, decide_eq_true_eq] at hr
    obtain ⟨s, hs, hsid⟩ := List.mem_map.mp (h.recordSegment r hr.1)
    refine List.mem_map.mpr ⟨s, ?_, hsid⟩
    have hkeep : db.records.any (fun r => decide (r.segmentId = s.id ∧ r.traceId ≠ id)) = true :=
      List.any_eq_true.mpr ⟨r, hr.1, decide_eq_true ⟨hsid.symm, hr.2⟩⟩
    rw [hse]
    exact List.mem_filter.mpr ⟨hs, by simp only [onlyFor, hkeep, Bool.not_true, Bool.and_false,
      Bool.not_false]⟩

theorem deleteSegments_valid {db : Archive} (h : db.Valid) {p : Segment → Bool}
    (hp : ∀ s, p s = true → isReferenced db.records s.id = false) : (deleteSegments db p).Valid := by
  refine ⟨h.traceIds, h.segmentIds.sublist (List.filter_sublist.map _), h.recordTrace, ?_⟩
  intro r hr
  obtain ⟨s, hs, hsid⟩ := List.mem_map.mp (h.recordSegment r hr)
  refine List.mem_map.mpr ⟨s, List.mem_filter.mpr ⟨hs, ?_⟩, hsid⟩
  by_contra hps
  have := hp s (by simpa using hps)
  simp only [isReferenced, List.any_eq_false, decide_eq_true_eq] at this
  exact this r hr hsid.symm

end Llmtrace.Storage
