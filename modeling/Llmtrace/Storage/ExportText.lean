import Llmtrace.Schemes.JsonText
import Llmtrace.Schemes.Utf8
import Llmtrace.Storage.Export

/-! The bytes of an export: `json_line` of `storage/session_export.rs` writes each record as a JSON object
    on a line of its own. `serde_json` keeps the members of an object in the order of their names and
    escapes every control character, so a line ends only at its end. -/

namespace Llmtrace.Storage
open Schemes

/-! ### Records as JSON -/

/-- How `uuid` and `chrono` write an id and a time. -/
structure ExportTexts where
  uuid : ℕ → String
  time : ℤ → String

/-- An object with these members; the last of a name counts. -/
def object (members : List (String × Json)) : Json :=
  .obj (members.foldl (fun fields e => put e.1 e.2 fields) [])

/-- The status as it is written. -/
def BodyStatus.text : BodyStatus → String
  | available => "available"
  | missing => "missing"
  | unreadable => "unreadable"

/-- The encoding as it is written. -/
def BodyEncoding.text : BodyEncoding → String
  | utf8 => "utf8"
  | base64 => "base64"

/-- A body as it is written. -/
def ExportBody.json (b : ExportBody) : Json :=
  object [("status", .str b.status.text),
    ("encoding", (b.encoding.map fun e => Json.str e.text).getD .null),
    ("data", (b.data.map Json.str).getD .null),
    ("captured_bytes", (b.capturedBytes.map fun n => Json.int n).getD .null),
    ("truncated", .bool b.truncated)]

section
variable (texts : ExportTexts)

/-- A session as it is written. -/
def SessionRow.json (s : SessionRow) : Json := object (s.columns ++ [("id", .str (texts.uuid s.id))])

/-- A request as it is written. -/
def RequestRow.json (r : RequestRow) : Json :=
  object (r.columns ++ [("request_body_bytes", .int (r.bodyBytes .request)),
    ("response_body_bytes", .int (r.bodyBytes .response)),
    ("request_body_truncated", .bool (r.bodyTruncated .request)),
    ("response_body_truncated", .bool (r.bodyTruncated .response)),
    ("id", .str (texts.uuid r.id)),
    ("started_at", .str (texts.time r.startedAt)),
    ("session_id", (r.sessionId.map fun id => Json.str (texts.uuid id)).getD .null)])

/-- A message as it is written. -/
def MessageRow.json (m : MessageRow) : Json :=
  object (m.columns ++ [("id", .int m.id), ("request_id", .str (texts.uuid m.requestId)),
    ("created_at", .str (texts.time m.createdAt))])

/-- The members of a line. -/
def ExportRecord.members : ExportRecord → List (String × Json)
  | .session exportedAt row requestCount =>
    [("type", .str "session"), ("schema_version", .int 1), ("exported_at", .str (texts.time exportedAt)),
      ("session", row.json texts), ("request_count", .int requestCount)]
  | .request row requestBody responseBody previews =>
    [("type", .str "request"), ("request", row.json texts), ("request_body", requestBody.json),
      ("response_body", responseBody.json), ("message_previews", .arr (previews.map (MessageRow.json texts)))]
  | .finish sessionId requestCount messagePreviewCount truncatedBodyCount unavailableBodyCount
      capturedBodiesComplete =>
    [("type", .str "end"), ("session_id", .str (texts.uuid sessionId)), ("export_complete", .bool true),
      ("request_count", .int requestCount), ("message_preview_count", .int messagePreviewCount),
      ("truncated_body_count", .int truncatedBodyCount),
      ("unavailable_body_count", .int unavailableBodyCount),
      ("captured_bodies_complete", .bool capturedBodiesComplete)]

/-- A line as JSON. -/
def ExportRecord.json (r : ExportRecord) : Json := object (r.members texts)

/-- `json_line` -/
def jsonLine (r : ExportRecord) : Bytes := utf8 (r.json texts).write ++ [10]

/-- The bytes of the response. -/
def exportBytes (sent : List ExportRecord) : Bytes := sent.flatMap (jsonLine texts)

end

/-! ### Well-formed rows -/

/-- Numbers that are no integers have the text of a number, as in every `serde_json::Value`. -/
def Columns (columns : List (String × Json)) : Prop := ∀ e ∈ columns, e.2.Printable

/-- The columns that are passed on can be written as JSON. -/
structure Snapshot.Printable (snapshot : Snapshot) : Prop where
  sessions : ∀ s ∈ snapshot.sessions, Columns s.columns
  requests : ∀ r ∈ snapshot.requests, Columns r.columns
  messages : ∀ m ∈ snapshot.messages, Columns m.columns

theorem ascending_object (members : List (String × Json)) :
    Ascending (members.foldl (fun fields e => put e.1 e.2 fields) []) := by
  induction members using List.reverseRecOn with
  | nil => exact .nil
  | append_singleton members e ih =>
    rw [List.foldl_append]
    exact ih.put

theorem printableFields_iff {fields : List (String × Json)} :
    PrintableFields fields ↔ ∀ e ∈ fields, e.2.Printable := by
  induction fields with
  | nil => simp [PrintableFields]
  | cons e fields ih =>
    obtain ⟨key, v⟩ := e
    rw [PrintableFields, PrintableField, ih, List.forall_mem_cons]

theorem printableItems_iff {items : List Json} : PrintableItems items ↔ ∀ v ∈ items, v.Printable := by
  induction items with
  | nil => simp [PrintableItems]
  | cons v items ih => rw [PrintableItems, ih, List.forall_mem_cons]

theorem printable_object {members : List (String × Json)} (h : Columns members) :
    (object members).Printable := by
  rw [object, Json.Printable, printableFields_iff]
  induction members using List.reverseRecOn with
  | nil => exact List.forall_mem_nil _
  | append_singleton members e ih =>
    obtain ⟨hmembers, he⟩ := List.forall_mem_append.mp h
    rw [List.foldl_append]
    intro x hx
    rcases mem_put hx with rfl | hx
    · exact he e (List.mem_singleton_self e)
    · exact ih hmembers x hx

theorem printable_optional {α : Type} {f : α → Json} (hf : ∀ a, (f a).Printable) (x : Option α) :
    ((x.map f).getD .null).Printable := by
  cases x with
  | none => trivial
  | some a => exact hf a

theorem printable_body (b : ExportBody) : b.json.Printable := by
  refine printable_object ?_
  simp only [Columns, List.forall_mem_cons]
  exact ⟨trivial, printable_optional (by intro _; trivial) _, printable_optional (by intro _; trivial) _,
    printable_optional (by intro _; trivial) _, trivial, List.forall_mem_nil _⟩

section
variable {texts : ExportTexts}

theorem printable_session {s : SessionRow} (h : Columns s.columns) : (s.json texts).Printable :=
  printable_object (List.forall_mem_append.mpr ⟨h, List.forall_mem_singleton.mpr trivial⟩)

theorem printable_request {r : RequestRow} (h : Columns r.columns) : (r.json texts).Printable := by
  refine printable_object (List.forall_mem_append.mpr ⟨h, ?_⟩)
  simp only [List.forall_mem_cons]
  exact ⟨trivial, trivial, trivial, trivial, trivial, trivial, printable_optional (by intro _; trivial) _,
    List.forall_mem_nil _⟩

theorem printable_message {m : MessageRow} (h : Columns m.columns) : (m.json texts).Printable := by
  refine printable_object (List.forall_mem_append.mpr ⟨h, ?_⟩)
  simp only [List.forall_mem_cons]
  exact ⟨trivial, trivial, trivial, List.forall_mem_nil _⟩

/-- The records of a whole export. -/
theorem printable_record {source : BodySource} {snapshot : Snapshot} (h : snapshot.Printable) {id : ℕ}
    {row : RequestRow} (hrow : row ∈ snapshot.requests) :
    ((requestRecord source snapshot id row).json texts).Printable := by
  refine printable_object ?_
  simp only [requestRecord, ExportRecord.members, Columns, List.forall_mem_cons]
  refine ⟨trivial, printable_request (h.requests row hrow), printable_body _, printable_body _, ?_,
    List.forall_mem_nil _⟩
  rw [Json.Printable, printableItems_iff]
  intro v hv
  obtain ⟨m, hm, rfl⟩ := List.mem_map.mp hv
  rw [messagePreviews, List.mem_mergeSort] at hm
  exact printable_message (h.messages m (List.mem_of_mem_filter hm))

theorem printable_header {exportedAt : ℤ} {session : SessionRow} {n : ℕ} (h : Columns session.columns) :
    ((ExportRecord.session exportedAt session n).json texts).Printable := by
  refine printable_object ?_
  simp only [ExportRecord.members, Columns, List.forall_mem_cons]
  exact ⟨trivial, trivial, trivial, printable_session h, trivial, List.forall_mem_nil _⟩

theorem printable_finish (id : ℕ) (t : Tally) : ((finishRecord id t).json texts).Printable := by
  refine printable_object ?_
  simp only [finishRecord, ExportRecord.members, Columns, List.forall_mem_cons]
  exact ⟨trivial, trivial, trivial, trivial, trivial, trivial, trivial, trivial, List.forall_mem_nil _⟩

end

/-! ### Completed exports -/

/-- These are the records of an export that `write` completed. -/
def CompletedExport (source : BodySource) (snapshot : Snapshot) (id : ℕ) (sent : List ExportRecord) : Prop :=
  ∃ exportedAt e ok fuel p, SessionExport.prepare snapshot exportedAt id = some e ∧
    (snapshot.sessionRequests id).length < fuel ∧ e.write source snapshot ok fuel = .ok p ∧ p.sent = sent

/-- An export in which no step fails is completed. -/
theorem exists_completed (source : BodySource) {snapshot : Snapshot} {exportedAt : ℤ} {id : ℕ}
    {e : SessionExport} (hprepare : SessionExport.prepare snapshot exportedAt id = some e) :
    ∃ sent, CompletedExport source snapshot id sent := by
  have hends : Ends (fun _ => true) _
    (e.write source snapshot (fun _ => true) ((snapshot.sessionRequests id).length + 1)) _ :=
    ends_write hprepare (Nat.lt_succ_self _)
  cases hwrite : e.write source snapshot (fun _ => true) ((snapshot.sessionRequests id).length + 1) with
  | ok p => exact ⟨p.sent, exportedAt, e, _, _, p, hprepare, Nat.lt_succ_self _, hwrite, rfl⟩
  | error stop =>
    rw [hwrite] at hends
    cases stop with
    | failed sent =>
      obtain ⟨n, hn⟩ := hends.2
      cases hn
    | exhausted => exact hends.elim

theorem completed_sent {source : BodySource} {snapshot : Snapshot} {id : ℕ} {sent : List ExportRecord}
    (h : CompletedExport source snapshot id sent) :
    ∃ exportedAt, ∃ session ∈ snapshot.sessions, ∃ tally : Tally, session.id = id ∧
      tally.requests = (snapshot.exportOrder id).length ∧
      sent = .session exportedAt session (snapshot.exportOrder id).length ::
        ((snapshot.exportOrder id).map (requestRecord source snapshot id) ++ [finishRecord id tally]) := by
  obtain ⟨exportedAt, e, ok, fuel, p, hprepare, hfuel, hwrite, rfl⟩ := h
  have hends : Ends ok _ (e.write source snapshot ok fuel) _ := ends_write hprepare hfuel
  rw [hwrite] at hends
  unfold SessionExport.prepare at hprepare
  split at hprepare
  · cases hprepare
  rename_i session hsession
  cases hprepare
  refine ⟨exportedAt, session, List.mem_of_find?_eq_some hsession,
    (snapshot.exportOrder id).foldl (Tally.add source snapshot id) {},
    by simpa using List.find?_some hsession, by rw [tally_eq], ?_⟩
  rw [(exportOrder_perm snapshot id).length_eq]
  exact hends

end Llmtrace.Storage
