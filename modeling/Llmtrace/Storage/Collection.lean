import Llmtrace.Schemes.Run
import Llmtrace.Storage.Archive

/-! Archive files: written before the transaction that refers to them commits, removed after the one
    that drops them has.

    Ingestion attempts (`archive_prepared_payloads`), deletions and collectors
    (`collect_archive_files`) interleave. A transaction takes effect when it commits, but its file
    operations take effect at once. `ingested`, `retired` and `unlinked` are history: the traces whose
    ingestion has committed, the keys of the filesystem segments that committed transactions deleted,
    and the keys whose files were removed.

    The argument is one of ownership. A key names the trace it was derived for, or a random id that
    one attempt has drawn. A key is retired only after its owner is settled, and a settled owner
    commits no more rows. -/

namespace Llmtrace.Storage
open Schemes

/-! ### Attempts -/

/-- `PreparedArchiveSegment` -/
structure Payload where
  checksum : ℕ
  compressedBytes : ℕ
  directions : List Direction

/-- An open transaction of `insert_trace_internal`: the payloads still to archive, the rows written
    so far, and the random ids drawn. -/
structure Attempt where
  trace : Trace
  journalId : Option ℕ
  backend : Backend
  payloads : List Payload
  segments : List Segment
  records : List ArchiveRecord
  uuids : List ℕ

/-- `write_archive_file`: a write that fails may leave the renamed file behind. -/
inductive WriteResult where
  | ok
  | failed (left : Bool)

/-- `archive_storage_key` -/
def archiveStorageKey (sessionId : Option ℕ) (segmentId index : ℕ) : StorageKey :=
  match sessionId with
  | some sid => .session sid index segmentId
  | none => .unscoped segmentId index

/-- `persist_archive_segment`: where the payload is, and the files afterwards. -/
def persistArchiveSegment (backend : Backend) (segmentId : ℕ) (preferred : StorageKey)
    (result : WriteResult) (files : List StorageKey) : Backend × StorageKey × List StorageKey :=
  match backend, result with
  | .filesystem, .ok => (.filesystem, preferred, preferred :: files)
  | .filesystem, .failed left =>
    (.postgres, .blob segmentId, if left then preferred :: files else files)
  | .postgres, _ => (.postgres, .blob segmentId, files)

/-- `upsert_archive_segment`, with the update that follows it: a row of the same id is rewritten. -/
def upsertArchiveSegment (rows : List Segment) (s : Segment) : List Segment :=
  if rows.any fun r => decide (r.id = s.id) then
    rows.map fun r => if r.id = s.id then { s with createdAt := r.createdAt } else r
  else s :: rows

section
variable (digest : ℕ → ℕ → ℕ → ℕ)

/-- The segment's id and key. `digest` is the truncated SHA-256 of journal id, trace id and checksum;
    `index` is what `next_archive_segment_index` returns. -/
def segmentName (a : Attempt) (p : Payload) (uuid index : ℕ) : ℕ × StorageKey :=
  match a.journalId with
  | some jid => (digest jid a.trace.id p.checksum, .journal jid a.trace.id p.checksum)
  | none => (uuid, archiveStorageKey a.trace.sessionId uuid index)

/-- `archive_prepared_payloads` for the payload `p`. -/
def archivePayload (a : Attempt) (p : Payload) (rest : List Payload) (uuid index : ℕ) (now : ℤ)
    (result : WriteResult) (files : List StorageKey) : Attempt × List StorageKey :=
  let (segmentId, preferred) := segmentName digest a p uuid index
  let (backend, key, files) := persistArchiveSegment a.backend segmentId preferred result files
  let row : Segment := ⟨segmentId, now, p.compressedBytes, backend, key⟩
  ({ a with
      payloads := rest
      segments := upsertArchiveSegment a.segments row
      records := a.records ++ p.directions.map fun d => ⟨a.trace.id, segmentId, d⟩
      uuids := if a.journalId = none then uuid :: a.uuids else a.uuids }, files)

/-! ### Collectors -/

/-- Where a collector is. -/
inductive CollectorPhase where
  | selected | unlinked | dequeued
  deriving DecidableEq

/-- An open transaction of `collect_archive_files`, with the queue row it has locked. -/
structure Collector where
  key : StorageKey
  phase : CollectorPhase

/-! ### The system -/

/-- The archive, the directory of its files, and those who work on them. -/
structure Depot where
  db : Archive
  files : List StorageKey
  attempts : Table ℕ Attempt
  collectors : Table ℕ Collector
  uuids : List ℕ
  ingested : List ℕ
  retired : List StorageKey
  unlinked : List StorageKey

/-- An empty archive. -/
def Depot.empty : Depot := ⟨⟨[], [], [], ∅⟩, [], ∅, ∅, [], [], [], []⟩

/-- The keys of the filesystem segments of `db` that `db'` has no more. -/
def retiredKeys (db db' : Archive) : List StorageKey :=
  (db.segments.filter fun s => decide (s.backend = .filesystem) && decide (s ∉ db'.segments)).map
    Segment.storageKey

/-- Rows are deleted; files without a segment are retired. -/
def Depot.shrink (s : Depot) (db' : Archive) : Depot :=
  { s with db := db', retired := s.retired ++ retiredKeys s.db db' }

/-- Segments deleted otherwise than with their last trace: orphans, or with their session. Their
    records go with them. -/
def deleteSegmentRows (db : Archive) (ids : List ℕ) : Archive :=
  deleteSegments { db with records := db.records.filter fun r => decide (r.segmentId ∉ ids) }
    fun s => decide (s.id ∈ ids)

/-- A committed attempt. -/
def commitAttempt (s : Depot) (i : ℕ) (a : Attempt) : Depot :=
  { s with
    db := { s.db with
      traces := a.trace :: s.db.traces
      segments := a.segments.foldl upsertArchiveSegment s.db.segments
      records := a.records ++ s.db.records }
    attempts := s.attempts.erase i
    ingested := a.trace.id :: s.ingested }

/-- What writers, collectors and retention do. -/
inductive DepotAct where
  | begin (i : ℕ) (trace : Trace) (journalId : Option ℕ) (backend : Backend)
      (payloads : List Payload)
  | archive (i uuid index : ℕ) (now : ℤ) (result : WriteResult)
  | commit (i : ℕ)
  | rollback (i : ℕ)
  | deleteTraces (ids : List ℕ)
  | deleteSegments (ids : List ℕ)
  | select (i : ℕ) (key : StorageKey)
  | unlink (i : ℕ)
  | dequeue (i : ℕ)
  | finish (i : ℕ)
  | fail (i : ℕ)

variable (fire : List ArchiveRecord → List ArchiveRecord)

/-- One step. Random ids are fresh, and a trace is ingested once; a file that `remove_file` does not
    find counts as removed. -/
def depotStep (s : Depot) : DepotAct → Option Depot
  | .begin i trace journalId backend payloads =>
    if i ∈ s.attempts then none
    else
      let a : Attempt := ⟨trace, journalId, backend, payloads, [], [], []⟩
      some { s with attempts := AList.insert i a s.attempts }
  | .archive i uuid index now result =>
    match s.attempts.lookup i with
    | none => none
    | some a =>
      match a.payloads with
      | [] => none
      | p :: rest =>
        if a.journalId = none ∧ uuid ∈ s.uuids then none
        else
          let (a', files) := archivePayload digest a p rest uuid index now result s.files
          some { s with
            attempts := AList.insert i a' s.attempts
            files := files
            uuids := if a.journalId = none then uuid :: s.uuids else s.uuids }
  | .commit i =>
    match s.attempts.lookup i with
    | none => none
    | some a =>
      if a.payloads = [] ∧ a.trace.id ∉ s.ingested then some (commitAttempt s i a) else none
  | .rollback i => some { s with attempts := s.attempts.erase i }
  | .deleteTraces ids => some (s.shrink (ids.foldl (deleteTrace fire) s.db))
  | .deleteSegments ids => some (s.shrink (deleteSegmentRows s.db ids))
  | .select i key =>
    -- FOR UPDATE SKIP LOCKED
    if i ∈ s.collectors ∨ key ∉ s.db.deletions ∨ s.collectors.entries.any (fun c => c.2.key = key) then
      none
    else some { s with collectors := AList.insert i ⟨key, .selected⟩ s.collectors }
  | .unlink i =>
    match s.collectors.lookup i with
    | some ⟨key, .selected⟩ => some { s with
        files := s.files.filter fun k => decide (k ≠ key)
        collectors := AList.insert i ⟨key, .unlinked⟩ s.collectors
        unlinked := key :: s.unlinked }
    | _ => none
  | .dequeue i =>
    match s.collectors.lookup i with
    | some ⟨key, .unlinked⟩ => some { s with
        collectors := AList.insert i ⟨key, .dequeued⟩ s.collectors }
    | _ => none
  | .finish i =>
    match s.collectors.lookup i with
    | some ⟨key, .dequeued⟩ => some { s with
        db := { s.db with deletions := s.db.deletions.erase key }
        collectors := s.collectors.erase i }
    | _ => none
  | .fail i => some { s with collectors := s.collectors.erase i }

end

/-! ### What a deletion does to segments and queue -/

/-- Segments go whole ids at a time, and exactly the filesystem ones that go are queued. -/
structure Shrinks (db db' : Archive) : Prop where
  sub : ∀ s ∈ db'.segments, s ∈ db.segments
  whole : ∀ s ∈ db.segments, s ∉ db'.segments → ∀ u ∈ db'.segments, u.id ≠ s.id
  queue : ∀ key, key ∈ db'.deletions ↔ key ∈ db.deletions ∨
    ∃ s ∈ db.segments, s ∉ db'.segments ∧ s.backend = .filesystem ∧ s.storageKey = key

theorem Shrinks.refl (db : Archive) : Shrinks db db where
  sub _ hs := hs
  whole s hs hn := absurd hs hn
  queue key := by
    refine ⟨.inl, ?_⟩
    rintro (h | ⟨s, hs, hn, -⟩)
    · exact h
    · exact absurd hs hn

theorem Shrinks.trans {db db' db'' : Archive} (h : Shrinks db db') (h' : Shrinks db' db'') :
    Shrinks db db'' where
  sub s hs := h.sub s (h'.sub s hs)
  whole s hs hn u hu := by
    by_cases hmid : s ∈ db'.segments
    · exact h'.whole s hmid hn u hu
    · exact h.whole s hs hmid u (h'.sub u hu)
  queue key := by
    rw [h'.queue, h.queue]
    constructor
    · rintro ((hk | ⟨s, hs, hn, hfs⟩) | ⟨s, hs, hn, hfs⟩)
      · exact .inl hk
      · exact .inr ⟨s, hs, fun hs'' => hn (h'.sub s hs''), hfs⟩
      · exact .inr ⟨s, h.sub s hs, hn, hfs⟩
    · rintro (hk | ⟨s, hs, hn, hfs⟩)
      · exact .inl (.inl hk)
      · by_cases hmid : s ∈ db'.segments
        · exact .inr ⟨s, hmid, hn, hfs⟩
        · exact .inl (.inr ⟨s, hs, hmid, hfs⟩)

theorem mem_queueDeletedFile {deletions : Table StorageKey ℕ} {s : Segment} {key : StorageKey} :
    key ∈ queueDeletedFile deletions s ↔
      key ∈ deletions ∨ s.backend = .filesystem ∧ s.storageKey = key := by
  simp only [queueDeletedFile]
  split
  · rename_i h
    rw [AList.mem_insert, or_comm]
    simp only [h.1, true_and, eq_comm]
  · rename_i h
    refine ⟨.inl, ?_⟩
    rintro (hk | ⟨hfs, rfl⟩)
    · exact hk
    · by_contra hn
      exact h ⟨hfs, hn⟩

theorem mem_foldl_queue {ss : List Segment} {deletions : Table StorageKey ℕ} {key : StorageKey} :
    key ∈ ss.foldl queueDeletedFile deletions ↔
      key ∈ deletions ∨ ∃ s ∈ ss, s.backend = .filesystem ∧ s.storageKey = key := by
  induction ss generalizing deletions with
  | nil => simp
  | cons s ss ih =>
    rw [List.foldl_cons, ih, mem_queueDeletedFile]
    simp only [List.mem_cons, exists_eq_or_imp, or_assoc]

theorem deleteSegments_shrinks (db : Archive) {p : Segment → Bool}
    (hp : ∀ s u : Segment, s.id = u.id → p s = p u) : Shrinks db (deleteSegments db p) where
  sub s hs := (List.mem_filter.mp hs).1
  whole s hs hn u hu hid := by
    obtain ⟨-, hpu⟩ := List.mem_filter.mp hu
    refine hn (List.mem_filter.mpr ⟨hs, ?_⟩)
    rwa [hp s u hid.symm]
  queue key := by
    simp only [deleteSegments, mem_foldl_queue, List.mem_filter, Bool.not_eq_true']
    refine or_congr_right (exists_congr fun s => ?_)
    constructor
    · rintro ⟨⟨hs, hps⟩, hfs⟩
      exact ⟨hs, fun h => by simp [hps] at h, hfs⟩
    · rintro ⟨hs, hn, hfs⟩
      exact ⟨⟨hs, by simpa [hs] using hn⟩, hfs⟩

theorem deleteTrace_shrinks (fire : List ArchiveRecord → List ArchiveRecord) (db : Archive)
    (id : ℕ) : Shrinks db (deleteTrace fire db id) := by
  have hfold : ∀ (rs : List ArchiveRecord) (db₀ db₁ : Archive), Shrinks db₀ db₁ →
      Shrinks db₀ (rs.foldl deleteUnreferencedSegment db₁) := by
    intro rs
    induction rs with
    | nil => exact fun _ _ h => h
    | cons r rs ih =>
      intro db₀ db₁ h
      refine ih _ _ (h.trans (deleteSegments_shrinks db₁ fun s u hid => ?_))
      simp only [hid]
  refine hfold _ _ _ ?_
  exact ⟨fun s hs => hs, fun s hs hn => absurd hs hn, (Shrinks.refl db).queue⟩

theorem deleteTraces_shrinks (fire : List ArchiveRecord → List ArchiveRecord) (ids : List ℕ)
    (db : Archive) : Shrinks db (ids.foldl (deleteTrace fire) db) := by
  induction ids generalizing db with
  | nil => exact .refl db
  | cons id ids ih => exact (deleteTrace_shrinks fire db id).trans (ih _)

theorem deleteSegmentRows_shrinks (db : Archive) (ids : List ℕ) :
    Shrinks db (deleteSegmentRows db ids) := by
  have h := deleteSegments_shrinks
    { db with records := db.records.filter fun r => decide (r.segmentId ∉ ids) }
    (p := fun s => decide (s.id ∈ ids)) fun s u hid => by simp only [hid]
  exact ⟨h.sub, h.whole, h.queue⟩

/-! ### Ownership -/

/-- What a key is derived from: a trace, or a random id. -/
inductive Owner where
  | trace (id : ℕ)
  | uuid (r : ℕ)

/-- Who chose the key of a file. -/
def StorageKey.owner : StorageKey → Owner
  | .journal _ tid _ => .trace tid
  | .session _ _ r => .uuid r
  | .unscoped r _ => .uuid r
  | .blob r => .uuid r

/-- The id of the segment that a key is made for. -/
def StorageKey.segmentId (digest : ℕ → ℕ → ℕ → ℕ) : StorageKey → ℕ
  | .journal jid tid checksum => digest jid tid checksum
  | .session _ _ r => r
  | .unscoped r _ => r
  | .blob r => r

/-- The owner's one commit is over: nothing new can be committed under its keys. -/
def Settled (s : Depot) : Owner → Prop
  | .trace t => t ∈ s.ingested
  | .uuid r => r ∈ s.uuids ∧ ∀ i a, s.attempts.lookup i = some a → r ∉ a.uuids

/-- The attempt chose the key. -/
def Owns (a : Attempt) : Owner → Prop
  | .trace t => t = a.trace.id
  | .uuid r => r ∈ a.uuids

/-- A row that an attempt has written to the filesystem: its file is there, unless another attempt
    has already committed the trace and this one can only fail. -/
structure RowOk (digest : ℕ → ℕ → ℕ → ℕ) (s : Depot) (a : Attempt) (seg : Segment) : Prop where
  id : seg.id = seg.storageKey.segmentId digest
  owns : Owns a seg.storageKey.owner
  file : seg.storageKey ∈ s.files ∨ Settled s seg.storageKey.owner

theorem RowOk.mono {digest : ℕ → ℕ → ℕ → ℕ} {s s' : Depot} {a : Attempt} {seg : Segment}
    (h : RowOk digest s a seg) (hfiles : ∀ key ∈ s.files, key ∈ s'.files)
    (hset : ∀ o, Settled s o → Settled s' o) : RowOk digest s' a seg :=
  ⟨h.id, h.owns, h.file.imp (hfiles _) (hset _)⟩

/-- The invariant of all runs. -/
structure DepotInv (digest : ℕ → ℕ → ℕ → ℕ) (s : Depot) : Prop where
  ids : ∀ seg ∈ s.db.segments, seg.backend = .filesystem →
    seg.id = seg.storageKey.segmentId digest
  live : ∀ seg ∈ s.db.segments, seg.backend = .filesystem →
    seg.storageKey ∈ s.files ∧ seg.storageKey ∉ s.retired ∧ Settled s seg.storageKey.owner
  settled : ∀ key ∈ s.retired, Settled s key.owner
  retired : ∀ key ∈ s.retired, key ∈ s.db.deletions ∨ key ∈ s.unlinked
  queued : ∀ key ∈ s.db.deletions, key ∈ s.retired
  unlinked : ∀ key ∈ s.unlinked, key ∈ s.retired
  rows : ∀ i a, s.attempts.lookup i = some a →
    ∀ seg ∈ a.segments, seg.backend = .filesystem → RowOk digest s a seg
  drawn : ∀ i a, s.attempts.lookup i = some a → ∀ r ∈ a.uuids, r ∈ s.uuids
  disjoint : ∀ i j a b r, s.attempts.lookup i = some a → s.attempts.lookup j = some b →
    r ∈ a.uuids → r ∈ b.uuids → i = j
  collectors : ∀ i c, s.collectors.lookup i = some c →
    c.key ∈ s.retired ∧ (c.phase ≠ .selected → c.key ∈ s.unlinked)

section
variable {digest : ℕ → ℕ → ℕ → ℕ} {s : Depot}

/-- An attempt on a trace that is not ingested owns nothing that is settled. -/
theorem not_settled_of_owns {i : ℕ} {a : Attempt} (hi : s.attempts.lookup i = some a)
    (hnew : a.trace.id ∉ s.ingested) {o : Owner} (ho : Owns a o) : ¬Settled s o := by
  intro hs
  cases o with
  | trace t => exact hnew (ho ▸ hs)
  | uuid r => exact hs.2 i a hi ho

/-- Owners stay settled when ids are drawn afresh and attempts end. -/
theorem Settled.mono {s s' : Depot} {o : Owner} (h : Settled s o)
    (hing : ∀ t ∈ s.ingested, t ∈ s'.ingested) (huu : ∀ r ∈ s.uuids, r ∈ s'.uuids)
    (hat : ∀ i a, s'.attempts.lookup i = some a → ∀ r ∈ a.uuids, r ∈ s.uuids →
      ∃ j b, s.attempts.lookup j = some b ∧ r ∈ b.uuids) : Settled s' o := by
  cases o with
  | trace t => exact hing t h
  | uuid r =>
    refine ⟨huu r h.1, fun i a hi hr => ?_⟩
    obtain ⟨j, b, hj, hb⟩ := hat i a hi r hr h.1
    exact h.2 j b hj hb

/-! ### Attempts -/

/-- STEP RULE for an attempt that goes on as `a'`: files and random ids are only added, its rows are
    in order, and the ids it draws are its own or new. -/
theorem attempt_inv (h : DepotInv digest s) {i : ℕ} {a' : Attempt} {files : List StorageKey}
    {uuids : List ℕ} (hfiles : ∀ key ∈ s.files, key ∈ files) (huuids : ∀ r ∈ s.uuids, r ∈ uuids)
    (hrows : ∀ seg ∈ a'.segments, seg.backend = .filesystem →
      (∃ a, s.attempts.lookup i = some a ∧ a.trace = a'.trace ∧ (∀ r ∈ a.uuids, r ∈ a'.uuids) ∧
        seg ∈ a.segments) ∨
      seg.id = seg.storageKey.segmentId digest ∧ Owns a' seg.storageKey.owner ∧
        seg.storageKey ∈ files)
    (hdrawn : ∀ r ∈ a'.uuids, r ∈ uuids ∧
      (r ∈ s.uuids → ∃ a, s.attempts.lookup i = some a ∧ r ∈ a.uuids)) :
    DepotInv digest { s with
      attempts := AList.insert i a' s.attempts, files := files, uuids := uuids } := by
  have hset : ∀ o, Settled s o → Settled { s with
      attempts := AList.insert i a' s.attempts, files := files, uuids := uuids } o := by
    intro o ho
    refine ho.mono (fun _ ht => ht) huuids fun j b hj r hr hrs => ?_
    rcases Table.lookup_insert_cases hj with ⟨rfl, rfl⟩ | ⟨-, hj⟩
    · obtain ⟨a, ha, hra⟩ := (hdrawn r hr).2 hrs
      exact ⟨j, a, ha, hra⟩
    · exact ⟨j, b, hj, hr⟩
  refine ⟨h.ids, fun seg hs hfs => ?_, fun key hk => hset _ (h.settled key hk), h.retired, h.queued,
    h.unlinked, ?_, ?_, ?_, h.collectors⟩
  · obtain ⟨hf, hr, ho⟩ := h.live seg hs hfs
    exact ⟨hfiles _ hf, hr, hset _ ho⟩
  · intro j b hj seg hs hfs
    rcases Table.lookup_insert_cases hj with ⟨rfl, rfl⟩ | ⟨-, hj⟩
    · rcases hrows seg hs hfs with ⟨a, ha, htr, huu, hseg⟩ | ⟨hid, ho, hfile⟩
      · obtain ⟨hid, ho, hfile⟩ := h.rows j a ha seg hseg hfs
        refine ⟨hid, ?_, hfile.imp (hfiles _) (hset _)⟩
        cases hown : seg.storageKey.owner with
        | trace t => rw [hown] at ho; exact ho.trans (congrArg Trace.id htr)
        | uuid r => rw [hown] at ho; exact huu r ho
      · exact ⟨hid, ho, .inl hfile⟩
    · exact (h.rows j b hj seg hs hfs).mono hfiles hset
  · intro j b hj r hr
    rcases Table.lookup_insert_cases hj with ⟨rfl, rfl⟩ | ⟨-, hj⟩
    · exact (hdrawn r hr).1
    · exact huuids r (h.drawn j b hj r hr)
  · -- an id in two attempts was drawn before, so both had it
    have hother : ∀ j b r, j ≠ i → s.attempts.lookup j = some b → r ∈ a'.uuids → r ∈ b.uuids →
        False := by
      intro j b r hj hjb hr hrb
      obtain ⟨a, ha, hra⟩ := (hdrawn r hr).2 (h.drawn j b hjb r hrb)
      exact hj (h.disjoint j i b a r hjb ha hrb hra)
    intro j k b c r hj hk hb hc
    rcases Table.lookup_insert_cases hj with ⟨rfl, rfl⟩ | ⟨hji, hj'⟩ <;>
      rcases Table.lookup_insert_cases hk with ⟨rfl, rfl⟩ | ⟨hki, hk'⟩
    · rfl
    · exact (hother k c r hki hk' hb hc).elim
    · exact (hother j b r hji hj' hc hb).elim
    · exact h.disjoint j k b c r hj' hk' hb hc

/-- The rows after an upsert are the rows before and the new one, up to its time. -/
theorem mem_upsert {rows : List Segment} {row seg : Segment}
    (h : seg ∈ upsertArchiveSegment rows row) :
    seg ∈ rows ∨ seg = { row with createdAt := seg.createdAt } := by
  simp only [upsertArchiveSegment] at h
  split at h
  · obtain ⟨r, hr, heq⟩ := List.mem_map.mp h
    split at heq
    · exact .inr (by rw [← heq])
    · exact .inl (heq ▸ hr)
  · rcases List.mem_cons.mp h with rfl | h
    · exact .inr rfl
    · exact .inl h

theorem mem_foldl_upsert {new rows : List Segment} {seg : Segment}
    (h : seg ∈ new.foldl upsertArchiveSegment rows) :
    seg ∈ rows ∨ ∃ row ∈ new, seg = { row with createdAt := seg.createdAt } := by
  induction new generalizing rows with
  | nil => exact .inl h
  | cons row new ih =>
    rcases ih h with h | ⟨row', hrow', heq⟩
    · rcases mem_upsert h with h | heq
      · exact .inl h
      · exact .inr ⟨row, List.mem_cons_self, heq⟩
    · exact .inr ⟨row', List.mem_cons_of_mem _ hrow', heq⟩

/-- The row of a payload in the filesystem has the key made for it, and its file is written. -/
theorem archivePayload_rows {a : Attempt} {p : Payload} {rest : List Payload} {uuid index : ℕ}
    {now : ℤ} {result : WriteResult} {files : List StorageKey} {seg : Segment}
    (hs : seg ∈ (archivePayload digest a p rest uuid index now result files).1.segments)
    (hfs : seg.backend = .filesystem) :
    seg ∈ a.segments ∨ seg.id = seg.storageKey.segmentId digest ∧
      Owns (archivePayload digest a p rest uuid index now result files).1 seg.storageKey.owner ∧
      seg.storageKey ∈ (archivePayload digest a p rest uuid index now result files).2 := by
  simp only [archivePayload] at hs ⊢
  rcases mem_upsert hs with hs | heq
  · exact .inl hs
  refine .inr ?_
  rw [heq] at hfs ⊢
  cases hb : a.backend with
  | postgres => simp [hb, persistArchiveSegment] at hfs
  | filesystem =>
    cases result with
    | failed left => simp [hb, persistArchiveSegment] at hfs
    | ok =>
      simp only [persistArchiveSegment, List.mem_cons_self, and_true]
      cases hj : a.journalId with
      | some jid => simp [segmentName, hj, StorageKey.segmentId, StorageKey.owner, Owns]
      | none =>
        cases hsid : a.trace.sessionId <;>
          simp [segmentName, hj, archiveStorageKey, hsid, StorageKey.segmentId, StorageKey.owner,
            Owns]

theorem archivePayload_files {a : Attempt} {p : Payload} {rest : List Payload} {uuid index : ℕ}
    {now : ℤ} {result : WriteResult} {files : List StorageKey} {key : StorageKey}
    (h : key ∈ files) : key ∈ (archivePayload digest a p rest uuid index now result files).2 := by
  simp only [archivePayload]
  cases a.backend with
  | postgres => exact h
  | filesystem =>
    cases result with
    | ok => exact List.mem_cons_of_mem _ h
    | failed left => cases left <;> simp [persistArchiveSegment, h]

theorem archive_inv (h : DepotInv digest s) {i : ℕ} {a : Attempt} {p : Payload}
    {rest : List Payload} {uuid index : ℕ} {now : ℤ} {result : WriteResult}
    (hi : s.attempts.lookup i = some a) (hfresh : ¬(a.journalId = none ∧ uuid ∈ s.uuids)) :
    DepotInv digest { s with
      attempts := AList.insert i (archivePayload digest a p rest uuid index now result s.files).1
        s.attempts
      files := (archivePayload digest a p rest uuid index now result s.files).2
      uuids := if a.journalId = none then uuid :: s.uuids else s.uuids } := by
  refine attempt_inv h (fun _ => archivePayload_files) ?_ ?_ ?_
  · intro r hr
    split
    · exact List.mem_cons_of_mem _ hr
    · exact hr
  · intro seg hs hfs
    refine (archivePayload_rows hs hfs).imp_left fun hseg => ⟨a, hi, rfl, ?_, hseg⟩
    intro r hr
    simp only [archivePayload]
    split
    · exact List.mem_cons_of_mem _ hr
    · exact hr
  · intro r hr
    simp only [archivePayload] at hr
    by_cases hj : a.journalId = none
    · rw [if_pos hj] at hr ⊢
      rcases List.mem_cons.mp hr with rfl | hr
      · exact ⟨List.mem_cons_self, fun hold => absurd ⟨hj, hold⟩ hfresh⟩
      · exact ⟨List.mem_cons_of_mem _ (h.drawn i a hi r hr), fun _ => ⟨a, hi, hr⟩⟩
    · rw [if_neg hj] at hr ⊢
      exact ⟨h.drawn i a hi r hr, fun _ => ⟨a, hi, hr⟩⟩

theorem rollback_attempt_inv (h : DepotInv digest s) (i : ℕ) :
    DepotInv digest { s with attempts := s.attempts.erase i } := by
  have hset : ∀ o, Settled s o → Settled { s with attempts := s.attempts.erase i } o := by
    intro o ho
    exact ho.mono (fun _ ht => ht) (fun _ hr => hr) fun j b hj r hr _ =>
      ⟨j, b, (Table.lookup_of_erase hj).2, hr⟩
  refine ⟨h.ids, fun seg hs hfs => ?_, fun key hk => hset _ (h.settled key hk), h.retired, h.queued,
    h.unlinked, ?_, ?_, ?_, h.collectors⟩
  · obtain ⟨hf, hr, ho⟩ := h.live seg hs hfs
    exact ⟨hf, hr, hset _ ho⟩
  · intro j b hj seg hs hfs
    exact (h.rows j b (Table.lookup_of_erase hj).2 seg hs hfs).mono (fun _ hf => hf) hset
  · exact fun j b hj => h.drawn j b (Table.lookup_of_erase hj).2
  · exact fun j k b c r hj hk =>
      h.disjoint j k b c r (Table.lookup_of_erase hj).2 (Table.lookup_of_erase hk).2

/-- COMMIT: the rows of an attempt on a new trace have their files, and no key of them was ever
    retired. -/
theorem commit_attempt_inv (h : DepotInv digest s) {i : ℕ} {a : Attempt}
    (hi : s.attempts.lookup i = some a) (hnew : a.trace.id ∉ s.ingested) :
    DepotInv digest (commitAttempt s i a) := by
  have hset : ∀ o, Settled s o → Settled (commitAttempt s i a) o := by
    intro o ho
    exact ho.mono (fun _ ht => List.mem_cons_of_mem _ ht) (fun _ hr => hr) fun j b hj r hr _ =>
      ⟨j, b, (Table.lookup_of_erase hj).2, hr⟩
  have howns : ∀ o, Owns a o → Settled (commitAttempt s i a) o := by
    intro o ho
    cases o with
    | trace t => exact List.mem_cons.mpr (.inl ho)
    | uuid r =>
      refine ⟨h.drawn i a hi r ho, fun j b hj hr => ?_⟩
      obtain ⟨hji, hj⟩ := Table.lookup_of_erase hj
      exact hji (h.disjoint j i b a r hj hi hr ho)
  refine ⟨?_, ?_, fun key hk => hset _ (h.settled key hk), h.retired, h.queued, h.unlinked, ?_, ?_,
    ?_, h.collectors⟩
  · intro seg hs hfs
    rcases mem_foldl_upsert hs with hs | ⟨row, hrow, heq⟩
    · exact h.ids seg hs hfs
    · rw [heq] at hfs ⊢
      exact (h.rows i a hi row hrow hfs).id
  · intro seg hs hfs
    rcases mem_foldl_upsert hs with hs | ⟨row, hrow, heq⟩
    · obtain ⟨hf, hr, ho⟩ := h.live seg hs hfs
      exact ⟨hf, hr, hset _ ho⟩
    · rw [heq] at hfs ⊢
      obtain ⟨-, ho, hfile⟩ := h.rows i a hi row hrow hfs
      have hns := not_settled_of_owns hi hnew ho
      exact ⟨hfile.resolve_right hns, fun hret => hns (h.settled _ hret), howns _ ho⟩
  · intro j b hj seg hs hfs
    exact (h.rows j b (Table.lookup_of_erase hj).2 seg hs hfs).mono (fun _ hf => hf) hset
  · exact fun j b hj => h.drawn j b (Table.lookup_of_erase hj).2
  · exact fun j k b c r hj hk =>
      h.disjoint j k b c r (Table.lookup_of_erase hj).2 (Table.lookup_of_erase hk).2

/-! ### Deletions and collectors -/

/-- The rows of the attempts do not depend on the rest of the state. -/
theorem DepotInv.rows_mono (h : DepotInv digest s) {db : Archive} {collectors : Table ℕ Collector}
    {retired : List StorageKey} (i : ℕ) (a : Attempt) (hi : s.attempts.lookup i = some a) :
    ∀ seg ∈ a.segments, seg.backend = .filesystem →
      RowOk digest { s with db := db, collectors := collectors, retired := retired } a seg :=
  fun seg hs hfs => (h.rows i a hi seg hs hfs).mono (fun _ hf => hf) fun _ ho => ho

theorem mem_retiredKeys {db db' : Archive} {key : StorageKey} :
    key ∈ retiredKeys db db' ↔
      ∃ seg ∈ db.segments, seg ∉ db'.segments ∧ seg.backend = .filesystem ∧ seg.storageKey = key := by
  simp only [retiredKeys, List.mem_map, List.mem_filter, Bool.and_eq_true, decide_eq_true_eq]
  refine exists_congr fun seg => ?_
  constructor
  · rintro ⟨⟨hs, hfs, hn⟩, hkey⟩
    exact ⟨hs, hn, hfs, hkey⟩
  · rintro ⟨hs, hn, hfs, hkey⟩
    exact ⟨⟨hs, hfs, hn⟩, hkey⟩

/-- A deletion queues what it retires, and no row that stays has a retired key. -/
theorem shrink_inv (h : DepotInv digest s) {db' : Archive} (hsh : Shrinks s.db db') :
    DepotInv digest (s.shrink db') := by
  refine ⟨fun seg hs => h.ids seg (hsh.sub seg hs), ?_, ?_, ?_, ?_, ?_, h.rows_mono, h.drawn,
    h.disjoint, ?_⟩
  · intro seg hs hfs
    obtain ⟨hf, hr, ho⟩ := h.live seg (hsh.sub seg hs) hfs
    refine ⟨hf, fun hmem => ?_, ho⟩
    rcases List.mem_append.mp hmem with hmem | hmem
    · exact hr hmem
    · obtain ⟨u, hu, hun, hufs, hkey⟩ := mem_retiredKeys.mp hmem
      refine hsh.whole u hu hun seg hs ?_
      rw [h.ids seg (hsh.sub seg hs) hfs, h.ids u hu hufs, hkey]
  · intro key hk
    rcases List.mem_append.mp hk with hk | hk
    · exact h.settled key hk
    · obtain ⟨u, hu, -, hufs, rfl⟩ := mem_retiredKeys.mp hk
      exact (h.live u hu hufs).2.2
  · intro key hk
    rcases List.mem_append.mp hk with hk | hk
    · exact (h.retired key hk).imp_left fun hq => (hsh.queue key).mpr (.inl hq)
    · exact .inl ((hsh.queue key).mpr (.inr (mem_retiredKeys.mp hk)))
  · intro key hk
    refine List.mem_append.mpr (((hsh.queue key).mp hk).imp (h.queued key) mem_retiredKeys.mpr)
  · exact fun key hk => List.mem_append_left _ (h.unlinked key hk)
  · intro i c hc
    exact (h.collectors i c hc).imp_left (List.mem_append_left _)

/-- A collector goes on as `c`. -/
theorem collector_inv (h : DepotInv digest s) {i : ℕ} {c : Collector} (hret : c.key ∈ s.retired)
    (hphase : c.phase ≠ .selected → c.key ∈ s.unlinked) :
    DepotInv digest { s with collectors := AList.insert i c s.collectors } := by
  refine { h with rows := h.rows_mono, collectors := fun j d hj => ?_ }
  rcases Table.lookup_insert_cases hj with ⟨rfl, rfl⟩ | ⟨-, hj⟩
  · exact ⟨hret, hphase⟩
  · exact h.collectors j d hj

theorem collector_erase_inv (h : DepotInv digest s) (i : ℕ) :
    DepotInv digest { s with collectors := s.collectors.erase i } :=
  { h with
    rows := h.rows_mono
    collectors := fun j d hj => h.collectors j d (Table.lookup_of_erase hj).2 }

/-- UNLINK: the file of a retired key belongs to no row, committed or still to be committed. -/
theorem unlink_inv (h : DepotInv digest s) {key : StorageKey} (hret : key ∈ s.retired) :
    DepotInv digest { s with
      files := s.files.filter fun k => decide (k ≠ key), unlinked := key :: s.unlinked } := by
  refine ⟨h.ids, ?_, h.settled, ?_, h.queued, ?_, ?_, h.drawn, h.disjoint, ?_⟩
  · intro seg hs hfs
    obtain ⟨hf, hr, ho⟩ := h.live seg hs hfs
    exact ⟨List.mem_filter.mpr ⟨hf, decide_eq_true fun heq => hr (heq ▸ hret)⟩, hr, ho⟩
  · exact fun k hk => (h.retired k hk).imp_right (List.mem_cons_of_mem _)
  · rintro k hk
    rcases List.mem_cons.mp hk with rfl | hk
    · exact hret
    · exact h.unlinked k hk
  · intro j b hj seg hs hfs
    obtain ⟨hid, ho, hfile⟩ := h.rows j b hj seg hs hfs
    refine ⟨hid, ho, ?_⟩
    by_cases heq : seg.storageKey = key
    · exact .inr (heq ▸ h.settled key hret)
    · exact hfile.imp_left fun hf => List.mem_filter.mpr ⟨hf, decide_eq_true heq⟩
  · exact fun j c hc => (h.collectors j c hc).imp_right fun hp hne => List.mem_cons_of_mem _ (hp hne)

theorem dequeue_inv (h : DepotInv digest s) {key : StorageKey} (hun : key ∈ s.unlinked) :
    DepotInv digest { s with db := { s.db with deletions := s.db.deletions.erase key } } := by
  refine { h with rows := h.rows_mono, retired := fun k hk => ?_, queued := fun k hk => ?_ }
  · by_cases heq : k = key
    · exact .inr (heq ▸ hun)
    · exact (h.retired k hk).imp_left fun hq => AList.mem_erase.mpr ⟨heq, hq⟩
  · exact h.queued k (AList.mem_erase.mp hk).2

end

/-! ### Runs -/

section
variable {digest : ℕ → ℕ → ℕ → ℕ} {fire : List ArchiveRecord → List ArchiveRecord}

theorem depotStep_inv {s s' : Depot} {act : DepotAct} (h : DepotInv digest s)
    (hs : depotStep digest fire s act = some s') : DepotInv digest s' := by
  cases act with
  | begin i trace journalId backend payloads =>
    simp only [depotStep, Option.ite_none_left_eq_some, Option.some.injEq] at hs
    obtain ⟨-, rfl⟩ := hs
    exact attempt_inv h (fun _ hf => hf) (fun _ hr => hr) (by simp) (by simp)
  | archive i uuid index now result =>
    simp only [depotStep] at hs
    split at hs
    · cases hs
    · rename_i a hi
      split at hs
      · cases hs
      · simp only [Option.ite_none_left_eq_some, Option.some.injEq] at hs
        obtain ⟨hfresh, rfl⟩ := hs
        exact archive_inv h hi hfresh
  | commit i =>
    simp only [depotStep] at hs
    split at hs
    · cases hs
    · rename_i a hi
      simp only [Option.ite_none_right_eq_some, Option.some.injEq] at hs
      obtain ⟨⟨-, hnew⟩, rfl⟩ := hs
      exact commit_attempt_inv h hi hnew
  | rollback i =>
    obtain rfl := Option.some.inj hs
    exact rollback_attempt_inv h i
  | deleteTraces ids =>
    obtain rfl := Option.some.inj hs
    exact shrink_inv h (deleteTraces_shrinks fire ids s.db)
  | deleteSegments ids =>
    obtain rfl := Option.some.inj hs
    exact shrink_inv h (deleteSegmentRows_shrinks s.db ids)
  | select i key =>
    simp only [depotStep, Option.ite_none_left_eq_some, Option.some.injEq, not_or, not_not] at hs
    obtain ⟨⟨-, hq, -⟩, rfl⟩ := hs
    exact collector_inv h (h.queued key hq) fun hne => absurd rfl hne
  | unlink i =>
    simp only [depotStep] at hs
    split at hs
    · rename_i key hi
      obtain rfl := Option.some.inj hs
      have hret := (h.collectors i _ hi).1
      exact collector_inv (unlink_inv h hret) hret fun _ => List.mem_cons_self
    · cases hs
  | dequeue i =>
    simp only [depotStep] at hs
    split at hs
    · rename_i key hi
      obtain rfl := Option.some.inj hs
      obtain ⟨hret, hun⟩ := h.collectors i _ hi
      exact collector_inv h hret fun _ => hun (by simp)
    · cases hs
  | finish i =>
    simp only [depotStep] at hs
    split at hs
    · rename_i key hi
      obtain rfl := Option.some.inj hs
      exact collector_erase_inv (dequeue_inv h ((h.collectors i _ hi).2 (by simp))) i
    · cases hs
  | fail i =>
    obtain rfl := Option.some.inj hs
    exact collector_erase_inv h i

theorem depot_empty_inv : DepotInv digest Depot.empty := by
  refine ⟨?_, ?_, ?_, ?_, ?_, ?_, ?_, ?_, ?_, ?_⟩ <;> simp [Depot.empty]

/-- COLLECTION: in every reachable state the file of a committed filesystem segment is there, it was
    never removed and it is not queued for removal; the key of a deleted segment is queued or its file
    has been removed; and no file is removed before its segment is deleted. -/
theorem collection_keeps_live_files {s : Depot}
    (h : Reaches (depotStep digest fire) anyAct Depot.empty s) :
    (∀ seg ∈ s.db.segments, seg.backend = .filesystem → seg.storageKey ∈ s.files ∧
      seg.storageKey ∉ s.db.deletions ∧ seg.storageKey ∉ s.unlinked) ∧
    (∀ key ∈ s.retired, key ∈ s.db.deletions ∨ key ∈ s.unlinked) ∧
    ∀ key ∈ s.unlinked, key ∈ s.retired := by
  have hinv : DepotInv digest s :=
    h.inv (fun _ _ _ hm _ hs => depotStep_inv hm hs) depot_empty_inv
  refine ⟨fun seg hs hfs => ?_, hinv.retired, hinv.unlinked⟩
  obtain ⟨hf, hr, -⟩ := hinv.live seg hs hfs
  exact ⟨hf, fun hq => hr (hinv.queued _ hq), fun hu => hr (hinv.unlinked _ hu)⟩

end

/-- An attempt on trace 1 rolls back and the retry commits under the same key. The trace is deleted; a
    collector removes the file and fails, and another one finishes. Trace 2 stays. -/
def sampleDepotActs : List DepotAct :=
  [.begin 1 (failedAt 1 10) (some 9) .filesystem [⟨5, 100, [.request, .response]⟩],
    .archive 1 0 0 0 .ok, .rollback 1,
    .begin 2 (failedAt 1 10) (some 9) .filesystem [⟨5, 100, [.request, .response]⟩],
    .archive 2 0 0 0 .ok, .commit 2,
    .begin 3 (failedAt 2 20) (some 9) .filesystem [⟨6, 40, [.request, .response]⟩],
    .archive 3 0 0 0 .ok, .commit 3,
    .deleteTraces [1], .select 1 (.journal 9 1 5), .unlink 1, .fail 1,
    .select 2 (.journal 9 1 5), .unlink 2, .dequeue 2, .finish 2]

theorem collection_keeps_live_files_sample : ∃ s,
    run (depotStep (fun _ tid _ => tid) id) Depot.empty sampleDepotActs = some s ∧
    s.retired = [.journal 9 1 5] ∧
    s.db.segments = [⟨2, 0, 40, .filesystem, .journal 9 2 6⟩] ∧
    StorageKey.journal 9 2 6 ∈ s.files ∧ StorageKey.journal 9 2 6 ∉ s.db.deletions := by
  have hrun : (run (depotStep (fun _ tid _ => tid) id) Depot.empty sampleDepotActs).map
      (fun s => (s.retired, s.db.segments)) =
      some ([.journal 9 1 5], [⟨2, 0, 40, .filesystem, .journal 9 2 6⟩]) := by
    decide +kernel
  obtain ⟨s, hs, heq⟩ := Option.map_eq_some_iff.mp hrun
  simp only [Prod.mk.injEq] at heq
  obtain ⟨hf, hq, -⟩ := (collection_keeps_live_files (reaches_of_run hs)).1
    ⟨2, 0, 40, .filesystem, .journal 9 2 6⟩ (by simp [heq.2]) rfl
  exact ⟨s, hs, heq.1, heq.2, hf, hq⟩

end Llmtrace.Storage
