import Llmtrace.Schemes.Base64
import Llmtrace.Storage.Bodies
import Mathlib.Data.List.Sort
import Mathlib.Data.Prod.Lex

/-! The export of a session (`storage/session_export.rs`): a header, one record for each request of the
    session, read with a cursor over `(started_at, id)`, and an end record. All the reads are of one
    repeatable-read snapshot.

    Every statement, task and send may fail. `ok n` says whether the `n`th of them succeeds, so a
    result about every `ok` is one about every place at which the export can break off. -/

namespace Llmtrace.Storage
open Schemes

/-! ### The snapshot -/

/-- A row of `request_traces`; `columns` are the columns that are only copied into the record. -/
structure RequestRow where
  id : ℕ
  startedAt : ℤ
  sessionId : Option ℕ
  bodyBytes : Direction → ℤ
  bodyTruncated : Direction → Bool
  bodyCompressed : Direction → Bytes
  columns : List (String × Json)

/-- The order of the export, and of Postgres on `(started_at, id)`. -/
def RequestRow.key (r : RequestRow) : ℤ ×ₗ ℕ := toLex (r.startedAt, r.id)

/-- A row of `trace_sessions`. -/
structure SessionRow where
  id : ℕ
  columns : List (String × Json)

/-- A row of `session_messages`. -/
structure MessageRow where
  id : ℤ
  requestId : ℕ
  sessionId : ℕ
  createdAt : ℤ
  columns : List (String × Json)

/-- What the transaction of an export sees. -/
structure Snapshot where
  sessions : List SessionRow
  requests : List RequestRow
  messages : List MessageRow
  /-- `payload_archive_records`, each with its trace. -/
  records : List (ℕ × BodyRecord)
  segments : List BodySegment
  /-- The primary key of `request_traces`. -/
  ids : (requests.map RequestRow.id).Nodup

/-! ### Bodies -/

/-- The field `encoding` of a body. -/
inductive BodyEncoding where
  | utf8 | base64
  deriving DecidableEq

/-- `ExportBody` -/
structure ExportBody where
  status : BodyStatus
  encoding : Option BodyEncoding
  data : Option String
  capturedBytes : Option ℕ
  truncated : Bool
  deriving DecidableEq

/-- `String::from_utf8` -/
def fromUtf8 (bytes : Bytes) : Option String := String.fromUTF8? bytes.toByteArray

/-- `CapturedBody::into_export` -/
def CapturedBody.intoExport (b : CapturedBody) : ExportBody :=
  match b.bytes with
  | none => ⟨b.status, none, none, none, b.truncated⟩
  | some bytes =>
    match fromUtf8 bytes with
    | some text => ⟨b.status, some .utf8, some text, some bytes.length, b.truncated⟩
    | none =>
      ⟨b.status, some .base64, some (String.ofList (Base64.encode bytes)), some bytes.length, b.truncated⟩

/-- How a reader gets the bytes back. -/
def BodyEncoding.decode : BodyEncoding → String → Option Bytes
  | .utf8, text => some (Schemes.utf8 text.toList)
  | .base64, text => Base64.decode text.toList

/-! ### Records -/

/-- A line of an export. -/
inductive ExportRecord where
  | session (exportedAt : ℤ) (session : SessionRow) (requestCount : ℕ)
  | request (request : RequestRow) (requestBody responseBody : ExportBody) (previews : List MessageRow)
  | finish (sessionId requestCount messagePreviewCount truncatedBodyCount unavailableBodyCount : ℕ)
      (capturedBodiesComplete : Bool)

/-- `exportedAt` is the clock when the header is made. -/
structure SessionExport where
  id : ℕ
  header : ExportRecord
  expectedRequests : ℕ

/-- The requests of a session. -/
def Snapshot.sessionRequests (snapshot : Snapshot) (id : ℕ) : List RequestRow :=
  snapshot.requests.filter fun r => r.sessionId = some id

/-- The header of an export, if the session is there. -/
def SessionExport.prepare (snapshot : Snapshot) (exportedAt : ℤ) (id : ℕ) : Option SessionExport :=
  match snapshot.sessions.find? fun s => s.id = id with
  | none => none
  | some session =>
    let expectedRequests := (snapshot.sessionRequests id).length
    some ⟨id, .session exportedAt session expectedRequests, expectedRequests⟩

/-! ### Steps that may fail -/

/-- How far the export got: the steps taken and the records sent. -/
structure Progress where
  clock : ℕ := 0
  sent : List ExportRecord := []

/-- How an export stops before its end. -/
inductive Stop where
  | failed (sent : List ExportRecord)
  /-- The cursor loop did not end within its fuel. -/
  | exhausted

/-- A statement or a send, which may fail. -/
def attempt (ok : ℕ → Bool) (p : Progress) : Except Stop Progress :=
  if ok p.clock then .ok { p with clock := p.clock + 1 } else .error (.failed p.sent)

/-- A step that is taken only under a condition. -/
def attemptIf (ok : ℕ → Bool) (needed : Bool) (p : Progress) : Except Stop Progress :=
  if needed then attempt ok p else .ok p

/-- `json_line` and `sender.send` -/
def sendRecord (ok : ℕ → Bool) (p : Progress) (record : ExportRecord) : Except Stop Progress := do
  let p ← attempt ok p
  let p ← attempt ok p
  return { p with sent := p.sent ++ [record] }

/-- Where the bodies come from besides the snapshot. -/
structure BodySource where
  lib : ArchiveLib
  readFile : String → Option Bytes

section
variable (source : BodySource) (snapshot : Snapshot) (ok : ℕ → Bool)

/-- The rows that `load_trace_bodies` selects for a request, decoded. -/
def requestBodies (row : RequestRow) (d : Direction) : CapturedBody :=
  let records := (snapshot.records.filter fun r => r.1 = row.id).map Prod.snd
  let segments := snapshot.segments.filter fun s => s.id ∈ records.map BodyRecord.segmentId
  -- the columns are selected only when a record is missing
  let inline := if records.length < 2 then row.bodyCompressed else fun _ => []
  decodeBodies source.lib records segments inline row.bodyBytes row.bodyTruncated
    (decodeSegment source.lib source.readFile) d

/-- `load_trace_bodies`: two or three queries and a blocking task. -/
def loadTraceBodies (row : RequestRow) (p : Progress) :
    Except Stop (Progress × (Direction → CapturedBody)) := do
  let p ← attempt ok p
  let p ← attempt ok p
  let p ← attemptIf ok ((snapshot.records.filter fun r => r.1 = row.id).length < 2) p
  let p ← attempt ok p
  return (p, requestBodies source snapshot row)

/-- The messages of a request, in the order in which they are sent. -/
def messagePreviews (sessionId requestId : ℕ) : List MessageRow :=
  (snapshot.messages.filter fun m => m.requestId = requestId ∧ m.sessionId = sessionId).mergeSort
    fun a b => toLex (a.createdAt, a.id) ≤ toLex (b.createdAt, b.id)

/-- What the footer counts. -/
structure Tally where
  requests : ℕ := 0
  previews : ℕ := 0
  truncatedBodies : ℕ := 0
  unavailableBodies : ℕ := 0
  deriving DecidableEq

/-- The line of a request. -/
def requestRecord (sessionId : ℕ) (row : RequestRow) : ExportRecord :=
  .request row (requestBodies source snapshot row .request).intoExport
    (requestBodies source snapshot row .response).intoExport (messagePreviews snapshot sessionId row.id)

/-- The counters after a request. -/
def Tally.add (sessionId : ℕ) (t : Tally) (row : RequestRow) : Tally where
  requests := t.requests + 1
  previews := t.previews + (messagePreviews snapshot sessionId row.id).length
  truncatedBodies := [Direction.request, .response].foldl (fun n d =>
    n + (requestBodies source snapshot row d).truncated.toNat) t.truncatedBodies
  unavailableBodies := [Direction.request, .response].foldl (fun n d =>
    n + (decide ((requestBodies source snapshot row d).status ≠ .available)).toNat) t.unavailableBodies

/-- The query of the loop: the first row of the session behind the cursor. -/
def nextRow (sessionId : ℕ) (cursor : Option (ℤ ×ₗ ℕ)) : Option RequestRow :=
  (((snapshot.sessionRequests sessionId).filter fun r => cursor.all fun c => c < r.key).mergeSort
    fun a b => a.key ≤ b.key).head?

/-- The loop of `write`; `fuel` bounds its rounds. -/
def exportLoop (sessionId : ℕ) : ℕ → Option (ℤ ×ₗ ℕ) → Tally → Progress →
    Except Stop (Tally × Progress)
  | 0, _, _, _ => .error .exhausted
  | fuel + 1, cursor, tally, p => do
    let p ← attempt ok p
    match nextRow snapshot sessionId cursor with
    | none => return (tally, p)
    | some row =>
      let (p, _) ← loadTraceBodies source snapshot ok row p
      let p ← attempt ok p
      let p ← sendRecord ok p (requestRecord source snapshot sessionId row)
      exportLoop sessionId fuel (some row.key) (tally.add source snapshot sessionId row) p

/-- The last line. -/
def finishRecord (sessionId : ℕ) (t : Tally) : ExportRecord :=
  .finish sessionId t.requests t.previews t.truncatedBodies t.unavailableBodies
    (t.truncatedBodies = 0 && t.unavailableBodies = 0)

/-- The body of an export: its lines in their order. -/
def SessionExport.write (e : SessionExport) (fuel : ℕ) : Except Stop Progress := do
  let p ← sendRecord ok {} e.header
  let (tally, p) ← exportLoop source snapshot ok e.id fuel none {} p
  -- "session export count mismatch"
  if tally.requests ≠ e.expectedRequests then .error (.failed p.sent)
  else
    let p ← attempt ok p
    sendRecord ok p (finishRecord e.id tally)

end

/-! ### Where an export can break off -/

/-- A computation that ends in a result with `Q`, or fails at a step that `ok` denies and after sending
    records with `F`. -/
def Ends {α : Type} (ok : ℕ → Bool) (F : List ExportRecord → Prop) (x : Except Stop α) (Q : α → Prop) :
    Prop :=
  match x with
  | .ok a => Q a
  | .error (.failed sent) => F sent ∧ ∃ n, ok n = false
  | .error .exhausted => False

section
variable {ok : ℕ → Bool} {F : List ExportRecord → Prop} {α β : Type}

theorem Ends.bind {x : Except Stop α} {f : α → Except Stop β} {Q : α → Prop} {R : β → Prop}
    (hx : Ends ok F x Q) (hf : ∀ a, Q a → Ends ok F (f a) R) : Ends ok F (x >>= f) R := by
  cases x with
  | ok a => exact hf a hx
  | error stop =>
    cases stop with
    | failed sent => exact hx
    | exhausted => exact hx

theorem Ends.mono {F' : List ExportRecord → Prop} {x : Except Stop α} {Q R : α → Prop}
    (h : Ends ok F x Q) (hF : ∀ sent, F sent → F' sent) (hQ : ∀ a, Q a → R a) : Ends ok F' x R := by
  cases x with
  | ok a => exact hQ a h
  | error stop =>
    cases stop with
    | failed sent => exact ⟨hF sent h.1, h.2⟩
    | exhausted => exact h

theorem ends_pure {a : α} {Q : α → Prop} (h : Q a) : Ends ok F (pure a : Except Stop α) Q := h

theorem ends_attempt {p : Progress} (hF : F p.sent) :
    Ends ok F (attempt ok p) fun q => q.sent = p.sent := by
  unfold attempt Ends
  by_cases h : ok p.clock = true
  · rw [if_pos h]
  · rw [if_neg h]
    exact ⟨hF, p.clock, by simpa using h⟩

theorem ends_attemptIf {p : Progress} (needed : Bool) (hF : F p.sent) :
    Ends ok F (attemptIf ok needed p) fun q => q.sent = p.sent := by
  cases needed with
  | true => exact ends_attempt hF
  | false => rfl

theorem ends_sendRecord {p : Progress} {record : ExportRecord} (hF : F p.sent) :
    Ends ok F (sendRecord ok p record) fun q => q.sent = p.sent ++ [record] := by
  refine (ends_attempt hF).bind fun p₁ h₁ => ?_
  refine (ends_attempt (by rwa [h₁])).bind fun p₂ h₂ => ?_
  refine ends_pure ?_
  rw [h₂, h₁]

theorem ends_loadTraceBodies {source : BodySource} {snapshot : Snapshot} {row : RequestRow}
    {p : Progress} (hF : F p.sent) :
    Ends ok F (loadTraceBodies source snapshot ok row p) fun q => q.1.sent = p.sent := by
  refine (ends_attempt hF).bind fun p₁ h₁ => ?_
  refine (ends_attempt (by rwa [h₁])).bind fun p₂ h₂ => ?_
  refine (ends_attemptIf _ (by rwa [h₂, h₁])).bind fun p₃ h₃ => ?_
  refine (ends_attempt (by rwa [h₃, h₂, h₁])).bind fun p₄ h₄ => ?_
  refine ends_pure ?_
  rw [h₄, h₃, h₂, h₁]

end

/-! ### The cursor -/

section
variable {snapshot : Snapshot} {sessionId : ℕ}

/-- The rows of the session in the order of the export. -/
def Snapshot.exportOrder (snapshot : Snapshot) (sessionId : ℕ) : List RequestRow :=
  (snapshot.sessionRequests sessionId).mergeSort fun a b => a.key ≤ b.key

theorem sorted_by_key (rows : List RequestRow) :
    (rows.mergeSort fun a b => a.key ≤ b.key).Pairwise fun a b => a.key ≤ b.key := by
  have h : (rows.mergeSort fun a b => decide (a.key ≤ b.key)).Pairwise
      fun a b => decide (a.key ≤ b.key) = true :=
    List.pairwise_mergeSort
      (fun a b c hab hbc => decide_eq_true ((of_decide_eq_true hab).trans (of_decide_eq_true hbc)))
      (fun a b => by simpa using le_total a.key b.key) rows
  exact h.imp fun hab => of_decide_eq_true hab

theorem exportOrder_perm (snapshot : Snapshot) (sessionId : ℕ) :
    (snapshot.exportOrder sessionId).Perm (snapshot.sessionRequests sessionId) :=
  List.mergeSort_perm _ _

theorem exportOrder_distinct (snapshot : Snapshot) (sessionId : ℕ) :
    (snapshot.exportOrder sessionId).Pairwise fun a b => a.id ≠ b.id := by
  have hids : ((snapshot.exportOrder sessionId).map RequestRow.id).Nodup := by
    rw [((exportOrder_perm snapshot sessionId).map RequestRow.id).nodup_iff]
    exact snapshot.ids.sublist (List.filter_sublist.map _)
  exact List.pairwise_map.mp hids

/-- No two rows have the same place in the order. -/
theorem exportOrder_strict (snapshot : Snapshot) (sessionId : ℕ) :
    (snapshot.exportOrder sessionId).Pairwise fun a b => a.key < b.key := by
  refine (sorted_by_key _).imp₂ (fun a b hle hid => lt_of_le_of_ne hle ?_)
    (exportOrder_distinct snapshot sessionId)
  intro heq
  exact hid (congrArg (fun k => (ofLex k).2) heq)

theorem key_injective_on {rows : List RequestRow} (h : (rows.map RequestRow.id).Nodup) {a b : RequestRow}
    (ha : a ∈ rows) (hb : b ∈ rows) (heq : a.key = b.key) : a = b :=
  List.inj_on_of_nodup_map h ha hb (congrArg (fun k => (ofLex k).2) heq)

/-- The cursor behind the rows that were read. -/
def cursorAfter (done : List RequestRow) : Option (ℤ ×ₗ ℕ) := done.getLast?.map RequestRow.key

/-- The query finds the row that comes next in the order. -/
theorem nextRow_eq {done rest : List RequestRow} (h : snapshot.exportOrder sessionId = done ++ rest) :
    nextRow snapshot sessionId (cursorAfter done) = rest.head? := by
  have hstrict := exportOrder_strict snapshot sessionId
  rw [h, List.pairwise_append] at hstrict
  obtain ⟨hdone, hrest, hcross⟩ := hstrict
  have hperm := exportOrder_perm snapshot sessionId
  rw [h] at hperm
  -- exactly the rows that were not read are behind the cursor
  have hfilter : (done ++ rest).filter (fun r => (cursorAfter done).all fun c => c < r.key) = rest := by
    rcases List.eq_nil_or_concat' done with rfl | ⟨before, last, rfl⟩
    · simp [cursorAfter]
    · have hcursor : cursorAfter (before ++ [last]) = some last.key := by
        simp [cursorAfter]
      rw [List.pairwise_append] at hdone
      simp only [hcursor, Option.all_some, List.filter_append]
      rw [List.filter_eq_nil_iff.mpr, List.filter_eq_nil_iff.mpr, List.filter_eq_self.mpr]
      · rfl
      · exact fun r hr => decide_eq_true (hcross last (by simp) r hr)
      · simp
      · exact fun r hr => by simpa using (hdone.2.2 r hr last (by simp)).le
  have hsorted : (((snapshot.sessionRequests sessionId).filter fun r =>
      (cursorAfter done).all fun c => c < r.key).mergeSort fun a b => a.key ≤ b.key) = rest := by
    refine List.Perm.eq_of_pairwise ?_ (sorted_by_key _) (hrest.imp le_of_lt) ?_
    · intro a b ha hb hab hba
      have hmem : ∀ x ∈ snapshot.sessionRequests sessionId, x ∈ snapshot.requests :=
        fun x hx => List.mem_of_mem_filter hx
      refine key_injective_on snapshot.ids ?_ ?_ (le_antisymm hab hba)
      · exact hmem a (List.mem_of_mem_filter (List.mem_mergeSort.mp ha))
      · exact hmem b (hperm.mem_iff.mp (List.mem_append_right _ hb))
    · refine (List.mergeSort_perm _ _).trans ?_
      have := (hperm.symm.filter fun r => (cursorAfter done).all fun c => c < r.key)
      rwa [hfilter] at this
  rw [nextRow, hsorted]

/-! ### The run -/

variable {source : BodySource} {ok : ℕ → Bool}

/-- From any place in the order: the loop sends what is left and then stops. -/
theorem ends_exportLoop {header : ExportRecord} : ∀ {rest done : List RequestRow} {fuel : ℕ}
    {p : Progress}, snapshot.exportOrder sessionId = done ++ rest → rest.length < fuel →
    p.sent = header :: done.map (requestRecord source snapshot sessionId) →
    Ends ok
      (fun sent => sent <+: header ::
        (snapshot.exportOrder sessionId).map (requestRecord source snapshot sessionId))
      (exportLoop source snapshot ok sessionId fuel (cursorAfter done)
        (done.foldl (Tally.add source snapshot sessionId) {}) p)
      fun r => r.1 = (snapshot.exportOrder sessionId).foldl (Tally.add source snapshot sessionId) {} ∧
        r.2.sent = header ::
          (snapshot.exportOrder sessionId).map (requestRecord source snapshot sessionId) := by
  intro rest
  induction rest with
  | nil =>
    intro done fuel p h hfuel hsent
    obtain ⟨fuel, rfl⟩ : ∃ f, fuel = f + 1 := ⟨fuel - 1, by simp at hfuel; omega⟩
    have hF : p.sent <+: header ::
        (snapshot.exportOrder sessionId).map (requestRecord source snapshot sessionId) := by
      rw [hsent, h, List.append_nil]
    rw [exportLoop]
    refine (ends_attempt hF).bind fun p₁ h₁ => ?_
    rw [nextRow_eq h]
    refine ends_pure ⟨?_, ?_⟩
    · rw [h, List.append_nil]
    · rw [h₁, hsent, h, List.append_nil]
  | cons row rest ih =>
    intro done fuel p h hfuel hsent
    obtain ⟨fuel, rfl⟩ : ∃ f, fuel = f + 1 := ⟨fuel - 1, by omega⟩
    have hF : p.sent <+: header ::
        (snapshot.exportOrder sessionId).map (requestRecord source snapshot sessionId) := by
      rw [hsent, h, List.map_append, ← List.cons_append]
      exact List.prefix_append _ _
    rw [exportLoop]
    refine (ends_attempt hF).bind fun p₁ h₁ => ?_
    rw [nextRow_eq h]
    refine (ends_loadTraceBodies (by rwa [h₁])).bind fun p₂ h₂ => ?_
    refine (ends_attempt (by rwa [h₂, h₁])).bind fun p₃ h₃ => ?_
    refine (ends_sendRecord (by rwa [h₃, h₂, h₁])).bind fun p₄ h₄ => ?_
    have hnext : snapshot.exportOrder sessionId = (done ++ [row]) ++ rest := by
      rw [h, List.append_cons]
    have hcursor : cursorAfter (done ++ [row]) = some row.key := by simp [cursorAfter]
    have htally : (done.foldl (Tally.add source snapshot sessionId) {}).add source snapshot sessionId row =
        (done ++ [row]).foldl (Tally.add source snapshot sessionId) {} := by
      rw [List.foldl_append, List.foldl_cons, List.foldl_nil]
    rw [← hcursor, htally]
    exact ih hnext (by simpa using hfuel) (by rw [h₄, h₃, h₂, h₁, hsent]; simp)

end

/-! ### Counters and bodies -/

/-- The bodies of a line. -/
def ExportRecord.bodies : ExportRecord → List ExportBody
  | .request _ requestBody responseBody _ => [requestBody, responseBody]
  | _ => []

/-- The messages of a line. -/
def ExportRecord.previews : ExportRecord → List MessageRow
  | .request _ _ _ previews => previews
  | _ => []

/-- The last line of an export. -/
def ExportRecord.isFinish : ExportRecord → Bool
  | .finish .. => true
  | _ => false

@[simp] theorem intoExport_status (b : CapturedBody) : b.intoExport.status = b.status := by
  unfold CapturedBody.intoExport
  split
  · rfl
  split <;> rfl

@[simp] theorem intoExport_truncated (b : CapturedBody) : b.intoExport.truncated = b.truncated := by
  unfold CapturedBody.intoExport
  split
  · rfl
  split <;> rfl

theorem fromUtf8_some {bytes : Bytes} {text : String} (h : fromUtf8 bytes = some text) :
    utf8 text.toList = bytes := by
  unfold fromUtf8 String.fromUTF8? at h
  split at h
  · rename_i hvalid
    cases h
    have hencode : (String.fromUTF8 bytes.toByteArray hvalid).toList.utf8Encode = bytes.toByteArray :=
      String.utf8Encode_toList
    have := congrArg (fun b : ByteArray => b.data.toList) hencode
    simpa [utf8, List.utf8Encode] using this
  · cases h

/-- What was captured can be read from the exported text. -/
theorem intoExport_decodes {b : CapturedBody} {bytes : Bytes} (h : b.bytes = some bytes) :
    ∃ encoding data, b.intoExport.encoding = some encoding ∧ b.intoExport.data = some data ∧
      encoding.decode data = some bytes ∧ b.intoExport.capturedBytes = some bytes.length := by
  unfold CapturedBody.intoExport
  rw [h]
  simp only
  split
  · rename_i text htext
    exact ⟨.utf8, text, rfl, rfl, by rw [BodyEncoding.decode, fromUtf8_some htext], rfl⟩
  · refine ⟨.base64, _, rfl, rfl, ?_, rfl⟩
    rw [BodyEncoding.decode, String.toList_ofList, Base64.decode_encode]

section
variable (source : BodySource) (snapshot : Snapshot) (sessionId : ℕ)

/-- The counters count the records. -/
theorem tally_eq (rows : List RequestRow) :
    rows.foldl (Tally.add source snapshot sessionId) {} =
      { requests := rows.length
        previews :=
          ((rows.map (requestRecord source snapshot sessionId)).flatMap ExportRecord.previews).length
        truncatedBodies :=
          ((rows.map (requestRecord source snapshot sessionId)).flatMap ExportRecord.bodies).countP
            ExportBody.truncated
        unavailableBodies :=
          ((rows.map (requestRecord source snapshot sessionId)).flatMap ExportRecord.bodies).countP
            fun b => b.status ≠ .available } := by
  induction rows using List.reverseRecOn with
  | nil => rfl
  | append_singleton rows row ih =>
    rw [List.foldl_append, ih]
    simp only [List.foldl_cons, List.foldl_nil, Tally.add, List.map_append, List.map_cons, List.map_nil,
      List.flatMap_append, List.flatMap_cons, List.flatMap_nil, List.append_nil, List.length_append,
      List.length_singleton, List.countP_append, requestRecord, ExportRecord.previews,
      ExportRecord.bodies, Tally.mk.injEq, true_and]
    refine ⟨?_, ?_⟩
    · simp only [List.countP_cons, List.countP_nil, intoExport_truncated]
      cases (requestBodies source snapshot row .request).truncated <;>
        cases (requestBodies source snapshot row .response).truncated <;> rfl
    · simp only [List.countP_cons, List.countP_nil, intoExport_status]
      cases (requestBodies source snapshot row .request).status <;>
        cases (requestBodies source snapshot row .response).status <;> rfl

end

/-- A whole export: the header, the requests of the session once each and in their order, and an end
    record whose numbers are those of the records before it. -/
def WholeExport (source : BodySource) (snapshot : Snapshot) (e : SessionExport)
    (sent : List ExportRecord) : Prop :=
  ∃ (rows : List RequestRow) (exportedAt : ℤ) (session : SessionRow) (complete : Bool),
    rows.Perm (snapshot.sessionRequests e.id) ∧ (rows.Pairwise fun a b => a.key < b.key) ∧
    e.header = .session exportedAt session rows.length ∧ session.id = e.id ∧
    sent = e.header :: rows.map (requestRecord source snapshot e.id) ++
      [.finish e.id rows.length (sent.flatMap ExportRecord.previews).length
        ((sent.flatMap ExportRecord.bodies).countP ExportBody.truncated)
        ((sent.flatMap ExportRecord.bodies).countP fun b => b.status ≠ .available) complete] ∧
    (complete = true ↔
      ∀ b ∈ sent.flatMap ExportRecord.bodies, b.status = .available ∧ b.truncated = false)

theorem prepare_some {snapshot : Snapshot} {exportedAt : ℤ} {id : ℕ} {e : SessionExport}
    (h : SessionExport.prepare snapshot exportedAt id = some e) : e.id = id ∧
      e.expectedRequests = (snapshot.sessionRequests id).length ∧
      ∃ session : SessionRow, session.id = id ∧
        e.header = .session exportedAt session (snapshot.sessionRequests id).length := by
  unfold SessionExport.prepare at h
  split at h
  · cases h
  rename_i session hsession
  cases h
  exact ⟨rfl, rfl, session, by simpa using List.find?_some hsession, rfl⟩

theorem wholeExport_of_order {source : BodySource} {snapshot : Snapshot} {exportedAt : ℤ} {id : ℕ}
    {e : SessionExport} {sent : List ExportRecord}
    (hprepare : SessionExport.prepare snapshot exportedAt id = some e)
    (hsent : sent = e.header :: (snapshot.exportOrder id).map (requestRecord source snapshot id) ++
      [finishRecord id ((snapshot.exportOrder id).foldl (Tally.add source snapshot id) {})]) :
    WholeExport source snapshot e sent := by
  obtain ⟨rfl, -, session, hid, hheader⟩ := prepare_some hprepare
  have hperm := exportOrder_perm snapshot e.id
  have hprev : sent.flatMap ExportRecord.previews =
      ((snapshot.exportOrder e.id).map (requestRecord source snapshot e.id)).flatMap
        ExportRecord.previews := by
    rw [hsent, hheader]
    simp [finishRecord, ExportRecord.previews]
  have hbodies : sent.flatMap ExportRecord.bodies =
      ((snapshot.exportOrder e.id).map (requestRecord source snapshot e.id)).flatMap
        ExportRecord.bodies := by
    rw [hsent, hheader]
    simp [finishRecord, ExportRecord.bodies]
  let bodies := ((snapshot.exportOrder e.id).map (requestRecord source snapshot e.id)).flatMap
    ExportRecord.bodies
  refine ⟨snapshot.exportOrder e.id, exportedAt, session,
    decide (bodies.countP ExportBody.truncated = 0) &&
      decide (bodies.countP (fun b => decide (b.status ≠ .available)) = 0),
    hperm, exportOrder_strict _ _, ?_, hid, ?_, ?_⟩
  · rw [hheader, hperm.length_eq]
  · rw [hprev, hbodies]
    rw [tally_eq] at hsent
    exact hsent
  · rw [hbodies, Bool.and_eq_true, decide_eq_true_eq, decide_eq_true_eq, List.countP_eq_zero,
      List.countP_eq_zero, ← forall₂_and]
    refine forall₂_congr fun b _ => ?_
    simp [and_comm]

/-- A completed export sent its records in order; one that failed had sent some of them, and no end
    record. -/
theorem ends_write {source : BodySource} {snapshot : Snapshot} {exportedAt : ℤ} {id : ℕ}
    {e : SessionExport} (hprepare : SessionExport.prepare snapshot exportedAt id = some e)
    {ok : ℕ → Bool} {fuel : ℕ} (hfuel : (snapshot.sessionRequests id).length < fuel) :
    Ends ok (fun sent => sent <+: e.header ::
        (snapshot.exportOrder e.id).map (requestRecord source snapshot e.id))
      (e.write source snapshot ok fuel) fun p => p.sent = e.header ::
        (snapshot.exportOrder e.id).map (requestRecord source snapshot e.id) ++
        [finishRecord e.id ((snapshot.exportOrder e.id).foldl (Tally.add source snapshot e.id) {})] := by
  obtain ⟨rfl, hcount, -⟩ := prepare_some hprepare
  have hperm := exportOrder_perm snapshot e.id
  unfold SessionExport.write
  refine Ends.bind (ends_sendRecord ?_) fun p₁ h₁ => ?_
  · exact List.nil_prefix
  have hstart : snapshot.exportOrder e.id = [] ++ snapshot.exportOrder e.id := rfl
  refine (ends_exportLoop hstart (by rwa [hperm.length_eq]) h₁).bind ?_
  rintro ⟨tally, p⟩ ⟨htally, hsent⟩
  simp only at htally hsent
  have hrequests : ¬tally.requests ≠ e.expectedRequests := by
    rw [htally, tally_eq, hcount, not_not]
    exact hperm.length_eq
  simp only [if_neg hrequests]
  refine (ends_attempt (by rw [hsent])).bind fun p₂ h₂ => ?_
  refine (ends_sendRecord (by rw [h₂, hsent])).mono (fun _ h => h) fun p₃ h₃ => ?_
  rw [h₃, h₂, hsent, htally]

/-- COMPLETE: whatever the snapshot holds, an export either writes the whole session and its end
    record, or a step fails and no end record was sent; the cursor loop always ends, and every captured
    body can be read back from its record. -/
theorem session_export_complete (source : BodySource) (snapshot : Snapshot) (exportedAt : ℤ) (id : ℕ)
    (e : SessionExport) (hprepare : SessionExport.prepare snapshot exportedAt id = some e) :
    (∀ (ok : ℕ → Bool) (fuel : ℕ), (snapshot.sessionRequests id).length < fuel →
      match e.write source snapshot ok fuel with
      | .ok p => WholeExport source snapshot e p.sent
      | .error (.failed sent) => (∀ r ∈ sent, r.isFinish = false) ∧ ∃ n, ok n = false
      | .error .exhausted => False) ∧
    ∀ (b : CapturedBody) (bytes : Bytes), b.bytes = some bytes →
      ∃ encoding data, b.intoExport.encoding = some encoding ∧ b.intoExport.data = some data ∧
        encoding.decode data = some bytes ∧ b.intoExport.capturedBytes = some bytes.length := by
  refine ⟨?_, fun b bytes h => intoExport_decodes h⟩
  intro ok fuel hfuel
  have hends : Ends ok _ (e.write source snapshot ok fuel) _ := ends_write hprepare hfuel
  obtain ⟨rfl, -, session, -, hheader⟩ := prepare_some hprepare
  have hwhole : Ends ok (fun sent => ∀ r ∈ sent, r.isFinish = false) (e.write source snapshot ok fuel)
      fun p => WholeExport source snapshot e p.sent := by
    refine hends.mono ?_ fun p hp => wholeExport_of_order hprepare hp
    intro sent hstart r hr
    rcases List.mem_cons.mp (hstart.subset hr) with rfl | hr
    · rw [hheader]
      rfl
    · obtain ⟨row, -, rfl⟩ := List.mem_map.mp hr
      rfl
  revert hwhole
  rcases e.write source snapshot ok fuel with (sent | _) | p <;> exact id

/-- A request of the sample; all have one time. -/
def tiedRow (id : ℕ) (body : Bytes) : RequestRow where
  id := id
  startedAt := 7
  sessionId := some 1
  bodyBytes _ := body.length
  bodyTruncated _ := false
  bodyCompressed _ := body
  columns := []

/-- Two requests at the same time, the later id first. -/
def tiedSnapshot : Snapshot where
  sessions := [⟨1, []⟩]
  requests := [tiedRow 5 [104, 105], tiedRow 3 []]
  messages := [⟨9, 5, 1, 8, []⟩]
  records := []
  segments := []
  ids := by decide

theorem session_export_complete_tied : ∃ e,
    SessionExport.prepare tiedSnapshot 10 1 = some e ∧
    match e.write ⟨bodiesLib, fun _ => none⟩ tiedSnapshot (fun _ => true) 3 with
    | .ok p => WholeExport ⟨bodiesLib, fun _ => none⟩ tiedSnapshot e p.sent
    | .error (.failed sent) => (∀ r ∈ sent, r.isFinish = false) ∧ ∃ n, (fun _ : ℕ => true) n = false
    | .error .exhausted => False :=
  ⟨_, rfl, (session_export_complete ⟨bodiesLib, fun _ => none⟩ tiedSnapshot 10 1 _ rfl).1 (fun _ => true) 3
    (by decide)⟩

end Llmtrace.Storage
