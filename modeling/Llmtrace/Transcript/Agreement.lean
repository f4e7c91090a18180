import Llmtrace.Query.RoundTrip
import Llmtrace.Storage.ExportText
import Llmtrace.Transcript.Whole

/-! Writer and reader agree (`storage/session_export.rs` and `ui/src/lib/transcript/stream.ts`). What an
    export wrote is read to its end, in whichever chunks it arrives; what is read to its end is a whole
    transcript; and an export of which more than the last line end is missing is not. -/

namespace Llmtrace.Transcript
open Schemes Storage

/-! ### Lines of objects -/

/-- The line of a value. -/
def lineOf (j : Json) : List Char := j.write ++ ['\n']

/-- An object that `serde_json` writes. -/
structure Printed (j : Json) : Prop where
  object : ∃ fields, j = .obj fields
  printable : j.Printable

section
variable {N : JsNumbers} {j : Json}

theorem Printed.head (h : Printed j) : ∃ rest, j.write = '\x7b' :: rest := by
  obtain ⟨fields, rfl⟩ := h.object
  exact ⟨_, rfl⟩

theorem Printed.no_break (h : Printed j) : 10 ∉ jsChars j.write := fun hmem => by
  have := units_write j h.printable 10 hmem
  omega

theorem isBlankLine_brace (rest : JsText) : isBlankLine (123 :: rest) = false := rfl

theorem Printed.parseLines (h : Printed j) : parseLines N [jsChars j.write] = some [ofJson N j] := by
  obtain ⟨rest, hrest⟩ := h.head
  have hblank : isBlankLine (jsChars j.write) = false := by
    rw [hrest]
    exact isBlankLine_brace _
  rw [parseLines_single N hblank, jsonParse_write h.printable, Option.map_some]

/-- A part of an object's line is blank or no JSON. -/
theorem Printed.parseLines_cut (h : Printed j) {front back : List Char} (hcut : j.write = front ++ back)
    (hfront : front ≠ []) (hback : back ≠ []) : Transcript.parseLines N [jsChars front] = none := by
  obtain ⟨fields, rfl⟩ := h.object
  obtain ⟨c, rest, rfl⟩ := List.exists_cons_of_ne_nil hfront
  have hc : c = '\x7b' := by
    have hwrite : (Json.obj fields).write = '\x7b' :: (Json.writeFields fields ++ ['\x7d']) := rfl
    rw [hwrite, List.cons_append] at hcut
    exact (List.cons.inj hcut).1.symm
  subst hc
  have hmore : jsChars back ≠ [] := by
    obtain ⟨d, tail, rfl⟩ := List.exists_cons_of_ne_nil hback
    rw [jsChars_cons]
    exact utf16_append_ne_nil d _
  have hnone : jsonParse N (jsChars ('\x7b' :: rest)) = none :=
    jsonParse_cut h.printable (by rw [← jsChars_append, ← hcut]) hmore
  have hblank : isBlankLine (jsChars ('\x7b' :: rest)) = false := isBlankLine_brace _
  rw [parseLines_single N hblank, hnone, Option.map_none]

/-- The lines of some objects and what follows them. -/
theorem cutLines_objects {objects : List Json} (h : ∀ j ∈ objects, Printed j) {tail : List Char}
    (htail : 10 ∉ jsChars tail) : cutLines [] (jsChars (objects.flatMap lineOf ++ tail)) =
      (objects.map fun j => jsChars j.write, jsChars tail) := by
  induction objects with
  | nil =>
    rw [List.flatMap_nil, List.nil_append, cutLines_unended htail]
    rfl
  | cons j objects ih =>
    have hline : jsChars ((j :: objects).flatMap lineOf ++ tail) =
        jsChars j.write ++ 10 :: jsChars (objects.flatMap lineOf ++ tail) := by
      simp only [List.flatMap_cons, lineOf, List.append_assoc, List.singleton_append, jsChars_append,
        jsChars_cons]
      rfl
    rw [hline, cutLines_line (h j List.mem_cons_self).no_break,
      ih fun x hx => h x (List.mem_cons_of_mem _ hx)]
    rfl

theorem parseLines_objects {objects : List Json} (h : ∀ j ∈ objects, Printed j) :
    parseLines N (objects.map fun j => jsChars j.write) = some (objects.map (ofJson N)) := by
  induction objects with
  | nil => rfl
  | cons j objects ih =>
    rw [List.map_cons, ← List.singleton_append, parseLines_append, (h j List.mem_cons_self).parseLines,
      Option.bind_some, ih fun x hx => h x (List.mem_cons_of_mem _ hx), Option.map_some]
    rfl

theorem recordsOf_text {s : List Char} (hs : TextDecoder.Started false s) :
    recordsOf N (utf8 s) = parseLines N ((cutLines [] (jsChars s)).1 ++ [(cutLines [] (jsChars s)).2]) := by
  cases s with
  | nil => rfl
  | cons c s =>
    have hdecode : TextDecoder.decode {} (utf8 (c :: s)) = some (.idle true, jsChars (c :: s)) :=
      TextDecoder.decode_utf8 hs
    rw [recordsOf, hdecode]
    rfl

/-- What stands in front of a cut through some lines: whole lines, and a part of the next one. -/
theorem lines_cut {objects : List Json} {front back : List Char}
    (h : objects.flatMap lineOf = front ++ back) (hback : back ≠ []) :
    ∃ done j more part rest, objects = done ++ j :: more ∧ front = done.flatMap lineOf ++ part ∧
      j.write = part ++ rest ∧ back = rest ++ '\n' :: more.flatMap lineOf := by
  induction objects generalizing front with
  | nil => exact absurd (List.append_eq_nil_iff.mp h.symm).2 hback
  | cons j objects ih =>
    rw [List.flatMap_cons, lineOf, List.append_assoc, List.singleton_append] at h
    rcases List.append_eq_append_iff.mp h with ⟨mid, rfl, hmid⟩ | ⟨mid, hmid, hrest⟩
    · cases mid with
      | nil =>
        -- the cut is right in front of the line end
        exact ⟨[], j, objects, j.write, [], rfl, by simp, by simp, by simpa using hmid.symm⟩
      | cons c mid =>
        obtain ⟨rfl, hrest⟩ := List.cons.inj hmid
        obtain ⟨done, j', more, part, rest, rfl, rfl, hline, hback'⟩ := ih hrest
        refine ⟨j :: done, j', more, part, rest, rfl, ?_, hline, hback'⟩
        simp [lineOf]
    · exact ⟨[], j, objects, front, mid, rfl, rfl, hmid, hrest⟩

theorem started_of_lines {objects : List Json} (h : ∀ j ∈ objects, Printed j) {front back : List Char}
    (hcut : objects.flatMap lineOf = front ++ back) : TextDecoder.Started false front := by
  refine .inr fun c hc => ?_
  cases front with
  | nil => cases hc
  | cons d front =>
    cases hc
    cases objects with
    | nil => cases hcut
    | cons j objects =>
      obtain ⟨rest, hrest⟩ := (h j List.mem_cons_self).head
      rw [List.flatMap_cons, lineOf, hrest] at hcut
      obtain ⟨rfl, -⟩ := List.cons.inj hcut
      decide

theorem recordsOf_lines {objects : List Json} (h : ∀ j ∈ objects, Printed j) {tail : List Char}
    (hstart : TextDecoder.Started false (objects.flatMap lineOf ++ tail)) (htail : 10 ∉ jsChars tail) :
    recordsOf N (utf8 (objects.flatMap lineOf ++ tail)) =
      (parseLines N [jsChars tail]).map fun last => objects.map (ofJson N) ++ last := by
  rw [recordsOf_text hstart, cutLines_objects h htail, parseLines_append, parseLines_objects h,
    Option.bind_some]

/-- The records of a whole export. -/
theorem recordsOf_whole {objects : List Json} (h : ∀ j ∈ objects, Printed j) :
    recordsOf N (utf8 (objects.flatMap lineOf)) = some (objects.map (ofJson N)) := by
  have hstart := started_of_lines h (List.append_nil (objects.flatMap lineOf)).symm
  have hlines : recordsOf N (utf8 (objects.flatMap lineOf ++ [])) = _ :=
    recordsOf_lines h (by rwa [List.append_nil]) List.not_mem_nil
  rw [List.append_nil] at hlines
  rw [hlines, parseLines_blank N rfl, Option.map_some, List.append_nil]

/-- The last line end is not needed. -/
theorem recordsOf_unended {objects : List Json} (h : ∀ x ∈ objects ++ [j], Printed x) :
    recordsOf N (utf8 (objects.flatMap lineOf ++ j.write)) = some ((objects ++ [j]).map (ofJson N)) := by
  obtain ⟨hobjects, hlast⟩ := List.forall_mem_append.mp h
  have hj := hlast j (List.mem_singleton_self j)
  have hcut : (objects ++ [j]).flatMap lineOf = objects.flatMap lineOf ++ j.write ++ ['\n'] := by
    simp [lineOf]
  rw [recordsOf_lines hobjects (started_of_lines h hcut) hj.no_break, hj.parseLines, Option.map_some,
    List.map_append]
  rfl

theorem utf8_append (s t : List Char) : utf8 (s ++ t) = utf8 s ++ utf8 t := List.flatMap_append

/-- A part of an export holds fewer records, or something that is none. -/
theorem recordsOf_front {objects : List Json} (h : ∀ j ∈ objects, Printed j) {front back : Bytes}
    (hcut : front ++ back = utf8 (objects.flatMap lineOf)) (hback : back ≠ []) (hlast : back ≠ [10]) :
    recordsOf N front = none ∨
      ∃ k < objects.length, recordsOf N front = some ((objects.take k).map (ofJson N)) := by
  have hstart := started_of_lines h (List.append_nil (objects.flatMap lineOf)).symm
  obtain ⟨d, t, hdecode, hend⟩ := TextDecoder.decode_front hstart hcut
  by_cases hneeded : d.needed = 0
  · obtain ⟨rfl, rest, htext⟩ := hend hneeded
    have hrest : back = utf8 rest := by
      rw [htext, utf8_append, List.append_cancel_left_eq] at hcut
      exact hcut
    have hne : rest ≠ [] := by
      rintro rfl
      exact hback hrest
    have hstart' := started_of_lines h htext
    obtain ⟨done, j, more, part, rest', rfl, rfl, hline, hback'⟩ := lines_cut htext hne
    obtain ⟨hdone, hothers⟩ := List.forall_mem_append.mp h
    have hj := hothers j List.mem_cons_self
    have hpart : 10 ∉ jsChars part := fun hmem => hj.no_break (by
      rw [hline, jsChars_append]
      exact List.mem_append_left _ hmem)
    rw [recordsOf_lines hdone hstart' hpart]
    by_cases hpartNil : part = []
    · -- the cut is behind a line
      subst hpartNil
      refine .inr ⟨done.length, by simp, ?_⟩
      rw [jsChars, List.flatMap_nil, parseLines_blank N rfl, Option.map_some, List.append_nil,
        List.take_left]
    · by_cases hrestNil : rest' = []
      · -- the cut is in front of a line end, and not of the last one
        subst hrestNil
        rw [List.append_nil] at hline
        have hmore : more ≠ [] := by
          rintro rfl
          rw [hback'] at hrest
          exact hlast hrest
        obtain ⟨m, more, rfl⟩ := List.exists_cons_of_ne_nil hmore
        refine .inr ⟨done.length + 1, by simp, ?_⟩
        rw [← hline, hj.parseLines, Option.map_some]
        simp [List.take_append]
      · left
        rw [hj.parseLines_cut hline hpartNil hrestNil, Option.map_none]
  · left
    have hdecode' : TextDecoder.decode {} front = some (d, jsChars t) := hdecode
    rw [recordsOf, hdecode', Option.bind_some]
    simp only [hneeded, if_false]

end
/-! ### The values of an export -/

section
variable {N : JsNumbers} {texts : ExportTexts}

theorem field_object (members : List (String × Json)) (key : String) :
    field (ofJson N (object members)) key =
      (fetch key (members.foldl (fun fields e => put e.1 e.2 fields) [])).map (ofJson N) := by
  rw [object, ofJson, field]
  exact lookup_ofJson (ascending_object members) key

theorem isText_str (s : JsText) : isText (some (.str s : JsValue N.Num)) s = true := decide_eq_true rfl

/-- A number of records as JavaScript reads it. -/
theorem whole_count (hN : N.Lawful) {n : ℕ} (h : n < 2 ^ 53) :
    N.whole (N.ofText (js (toString (n : ℤ)))) = some (n : ℤ) := by
  refine hN.whole_ofText ?_
  rw [abs_of_nonneg (Int.natCast_nonneg n)]
  exact_mod_cast h

theorem isNumber_int (hN : N.Lawful) {n : ℕ} (h : n < 2 ^ 53) :
    isNumber N (some (ofJson N (.int n))) n = true := by
  rw [ofJson, isNumber, whole_count hN h]
  exact decide_eq_true rfl

theorem countOf_int (hN : N.Lawful) {n : ℕ} (h : n < 2 ^ 53) :
    countOf N (some (ofJson N (.int n))) = some n := by
  have hsafe : (decide (|(n : ℤ)| < 2 ^ 53) && decide (0 ≤ (n : ℤ))) = true := by
    rw [abs_of_nonneg (Int.natCast_nonneg n), Bool.and_eq_true, decide_eq_true_eq, decide_eq_true_eq]
    exact ⟨by exact_mod_cast h, Int.natCast_nonneg n⟩
  rw [ofJson, countOf, whole_count hN h, Option.filter_some, if_pos hsafe]
  rfl

theorem session_id (s : SessionRow) :
    field (ofJson N (s.json texts)) "id" = some (.str (js (texts.uuid s.id))) := by
  simp [SessionRow.json, field_object, fetch_put, ofJson]

theorem isHeader_json (hN : N.Lawful) {exportedAt : ℤ} {session : SessionRow} {n : ℕ} (h : n < 2 ^ 53) :
    IsHeader (js (texts.uuid session.id))
      (ofJson N ((ExportRecord.session exportedAt session n).json texts)) n := by
  constructor
  all_goals simp only [ExportRecord.json, ExportRecord.members, field_object, List.foldl_cons, List.foldl_nil,
    fetch_put, String.reduceEq, if_true, if_false, Option.map_some]
  · exact isText_str _
  · exact isNumber_int hN (by decide : 1 < 2 ^ 53)
  · rw [Option.bind_some, session_id]
    exact isText_str _
  · exact countOf_int hN h

variable [DecidableEq N.Num]

theorem isEnd_json (hN : N.Lawful) {id : ℕ} {t : Tally} (h : t.requests < 2 ^ 53) :
    IsEnd (js (texts.uuid id)) (ofJson N ((finishRecord id t).json texts)) t.requests := by
  constructor
  all_goals simp only [finishRecord, ExportRecord.json, ExportRecord.members, field_object, List.foldl_cons,
    List.foldl_nil, fetch_put, String.reduceEq, if_true, if_false, Option.map_some]
  · exact isText_str _
  · exact isText_str _
  · rfl
  · exact isNumber_int hN h

/-! ### The requests of an export -/

/-- The value of a request's record. -/
def requestValue (N : JsNumbers) (texts : ExportTexts) (source : BodySource) (snapshot : Snapshot) (id : ℕ)
    (row : RequestRow) : JsValue N.Num := ofJson N ((requestRecord source snapshot id row).json texts)

section
variable {source : BodySource} {snapshot : Snapshot} {id : ℕ} {row : RequestRow}

omit [DecidableEq N.Num]

theorem requestValue_type :
    isText (field (requestValue N texts source snapshot id row) "type") (js "request") = true := by
  simp only [requestValue, requestRecord, ExportRecord.json, ExportRecord.members, field_object,
    List.foldl_cons, List.foldl_nil, fetch_put, String.reduceEq, if_true, if_false, Option.map_some]
  exact isText_str _

theorem requestValue_request :
    field (requestValue N texts source snapshot id row) "request" = some (ofJson N (row.json texts)) := by
  simp only [requestValue, requestRecord, ExportRecord.json, ExportRecord.members, field_object,
    List.foldl_cons, List.foldl_nil, fetch_put, String.reduceEq, if_true, if_false, Option.map_some]

theorem keyOf_requestValue : keyOf (requestValue N texts source snapshot id row) =
    ⟨some (.str (js (texts.time row.startedAt))), some (.str (js (texts.uuid row.id)))⟩ := by
  rw [keyOf, requestValue_request]
  simp [RequestRow.json, field_object, fetch_put, ofJson]

theorem requestValue_session {owner : ℕ} (h : row.sessionId = some owner) :
    isText ((field (requestValue N texts source snapshot id row) "request").bind (field · "session_id"))
      (js (texts.uuid owner)) = true := by
  rw [requestValue_request]
  simp only [Option.bind_some, RequestRow.json, field_object, List.foldl_append, List.foldl_cons,
    List.foldl_nil, fetch_put, String.reduceEq, if_true, if_false, Option.map_some, h, Option.getD_some]
  exact isText_str _

end

/-- What `uuid`, `chrono` and `Date.parse` promise about some rows: ids are written in their order, times
    each in a text of its own, which is read as its milliseconds. -/
structure Legible {τ δ : Type} (lib : StreamLib N τ δ) (texts : ExportTexts) (rows : List RequestRow) :
    Prop where
  ids : ∀ a ∈ rows, ∀ b ∈ rows, a.id < b.id → js (texts.uuid a.id) < js (texts.uuid b.id)
  times : ∀ a ∈ rows, ∀ b ∈ rows, texts.time a.startedAt = texts.time b.startedAt → a.startedAt = b.startedAt
  dates : ∀ a ∈ rows, lib.dateParse (some (.str (js (texts.time a.startedAt)))) = some (a.startedAt / 1000)

section
variable {τ δ : Type} {lib : StreamLib N τ δ} {source : BodySource} {snapshot : Snapshot} {id : ℕ}

theorem inSequence_export {rows : List RequestRow} (h : Legible lib texts rows)
    (hdistinct : rows.Pairwise fun a b => a.id ≠ b.id) (horder : rows.Pairwise fun a b => a.key < b.key) :
    InSequence lib (rows.map (requestValue N texts source snapshot id)) := by
  constructor
  · rw [List.pairwise_map]
    refine hdistinct.imp_of_mem fun {a b} ha hb hne => ?_
    simp only [keyOf_requestValue, same, decide_eq_false_iff_not]
    intro heq
    rcases Nat.lt_or_gt_of_ne hne with hlt | hlt
    · have := h.ids a ha b hb hlt
      rw [heq] at this
      exact absurd this (lt_irrefl _)
    · have := h.ids b hb a ha hlt
      rw [heq] at this
      exact absurd this (lt_irrefl _)
  · refine List.Pairwise.isChain ?_
    rw [List.pairwise_map]
    refine horder.imp_of_mem fun {a b} ha hb hkey => ?_
    rw [keyOf_requestValue, keyOf_requestValue, comesTooLate_iff]
    rw [RequestRow.key, RequestRow.key, Prod.Lex.toLex_lt_toLex] at hkey
    constructor
    · rw [earlier_eq_false, h.dates a ha, h.dates b hb]
      rintro _ ⟨⟩ _ ⟨⟩
      have hle : a.startedAt ≤ b.startedAt := by
        rcases hkey with hlt | ⟨heq, -⟩
        · exact hlt.le
        · exact heq.le
      exact Int.ediv_le_ediv (by decide) hle
    · intro hsame
      have htext : js (texts.time b.startedAt) = js (texts.time a.startedAt) := of_decide_eq_true hsame
      have hstarted := h.times b hb a ha (js_injective htext)
      have hid : a.id < b.id := by
        rcases hkey with hlt | ⟨-, hid⟩
        · omega
        · exact hid
      have hlt := h.ids a ha b hb hid
      simp only [atMost, Except.ok.injEq, decide_eq_false_iff_not, not_le]
      exact hlt

/-! ### Writer and reader -/

theorem exportBytes_eq (sent : List ExportRecord) :
    exportBytes texts sent = utf8 ((sent.map (ExportRecord.json texts)).flatMap lineOf) := by
  induction sent with
  | nil => rfl
  | cons r sent ih =>
    rw [List.map_cons, List.flatMap_cons, utf8_append, ← ih, lineOf, utf8_append]
    rfl

theorem printed_sent {sent : List ExportRecord} (h : CompletedExport source snapshot id sent)
    (hprintable : snapshot.Printable) : ∀ j ∈ sent.map (ExportRecord.json texts), Printed j := by
  obtain ⟨exportedAt, session, hsession, tally, -, -, rfl⟩ := completed_sent h
  intro j hj
  obtain ⟨r, hr, rfl⟩ := List.mem_map.mp hj
  refine ⟨⟨_, rfl⟩, ?_⟩
  rw [List.mem_cons, List.mem_append, List.mem_singleton, List.mem_map] at hr
  rcases hr with rfl | ⟨row, hrow, rfl⟩ | rfl
  · exact printable_header (hprintable.sessions session hsession)
  · have hmem := (exportOrder_perm snapshot id).mem_iff.mp hrow
    exact printable_record hprintable (List.mem_of_mem_filter hmem)
  · exact printable_finish id tally

/-- The header, a request event for each row and the end event, without an error. -/
def PublishedWhole (texts : ExportTexts) (sent : List ExportRecord) (rows : List RequestRow)
    (o : Outcome N.Num δ) : Prop :=
  ∃ first last, sent.head? = some first ∧ sent.getLast? = some last ∧ ∃ addeds : List (Added δ),
    addeds.map (fun a => a.block.id) = rows.map (fun r => js (texts.uuid r.id)) ∧
    o = ⟨.header (ofJson N (first.json texts)) ::
      (addeds.map .request ++ [.finish (ofJson N (last.json texts))]), none⟩

omit [DecidableEq N.Num] in
theorem isRequest_export {row : RequestRow} (hlegible : Legible lib texts (snapshot.exportOrder id))
    (hrow : row ∈ snapshot.exportOrder id) :
    IsRequest lib (js (texts.uuid id)) (requestValue N texts source snapshot id row) := by
  have hmem := (exportOrder_perm snapshot id).mem_iff.mp hrow
  have hsession : row.sessionId = some id := of_decide_eq_true (List.mem_filter.mp hmem).2
  refine ⟨requestValue_type, requestValue_session hsession, ?_⟩
  rw [keyOf_requestValue, hlegible.dates row hrow]
  rfl

/-- The records of an export are read to their end. -/
theorem published_of_records (hN : N.Lawful) {sent : List ExportRecord}
    (h : CompletedExport source snapshot id sent) (hlegible : Legible lib texts (snapshot.exportOrder id))
    (hcount : (snapshot.exportOrder id).length < 2 ^ 53)
    (hparse : ∀ r ∈ snapshot.exportOrder id, ∃ parsed,
      lib.parseRequest (requestValue N texts source snapshot id r) = some parsed)
    {ok : ℕ → Bool} (hok : ∀ n, ok n = true) {chunks : List Bytes}
    (hrecords : recordsOf N chunks.flatten = some (sent.map fun r => ofJson N (r.json texts))) :
    PublishedWhole texts sent (snapshot.exportOrder id)
      (readTranscript lib (js (texts.uuid id)) ok chunks) := by
  obtain ⟨exportedAt, session, -, tally, rfl, htally, rfl⟩ := completed_sent h
  have hheader : IsHeader (js (texts.uuid session.id)) (ofJson N ((ExportRecord.session exportedAt session
      (snapshot.exportOrder session.id).length).json texts)) (snapshot.exportOrder session.id).length :=
    isHeader_json hN hcount
  have hend : IsEnd (js (texts.uuid session.id)) (ofJson N ((finishRecord session.id tally).json texts))
      tally.requests := isEnd_json hN (by rw [htally]; exact hcount)
  have hvalid : ∀ r ∈ (snapshot.exportOrder session.id).map (requestValue N texts source snapshot session.id),
      IsRequest lib (js (texts.uuid session.id)) r :=
    List.forall_mem_map.mpr fun row hrow => isRequest_export hlegible hrow
  have hshown : List.Forall₂ (Shown lib)
      ((snapshot.exportOrder session.id).map (requestValue N texts source snapshot session.id))
      ((snapshot.exportOrder session.id).map fun r => js (texts.uuid r.id)) := by
    rw [List.forall₂_map_left_iff, List.forall₂_map_right_iff, List.forall₂_same]
    exact fun row hrow => ⟨hparse row hrow, by rw [keyOf_requestValue], _, by rw [keyOf_requestValue]⟩
  rw [htally] at hend
  rw [← List.length_map (requestValue N texts source snapshot session.id)] at hheader hend
  obtain ⟨s, addeds, hconsume, hfooter, hpublished, hids⟩ := consume_transcript hheader hvalid
    (inSequence_export hlegible (exportOrder_distinct snapshot _) (exportOrder_strict snapshot _)) hend hshown
  have hreaches : Reaches lib (js (texts.uuid session.id)) chunks.flatten s
      (ofJson N ((finishRecord session.id tally).json texts)) := by
    refine ⟨⟨_, hrecords, ?_⟩, hfooter⟩
    rw [List.length_map] at hconsume
    rw [← hconsume, List.map_cons, List.map_append, List.map_map]
    rfl
  refine ⟨_, finishRecord session.id tally, rfl, by rw [← List.cons_append, List.getLast?_concat], addeds,
    hids, ?_⟩
  rw [readTranscript_of_reaches hok hreaches, hpublished, List.length_map]
  rfl

/-- Before its last record an export has no end record. -/
theorem not_isEnd_of_take {sent : List ExportRecord} (h : CompletedExport source snapshot id sent) {k n : ℕ}
    (hk : k < sent.length) {reader : JsText} {footer : JsValue N.Num}
    (hfooter : footer ∈ (sent.take k).map fun r => ofJson N (r.json texts)) : ¬IsEnd reader footer n := by
  obtain ⟨exportedAt, session, -, tally, rfl, -, rfl⟩ := completed_sent h
  intro hend
  obtain ⟨r, hr, rfl⟩ := List.mem_map.mp hfooter
  rw [← List.cons_append] at hr hk
  rw [List.length_append, List.length_singleton, Nat.lt_succ_iff] at hk
  rw [List.take_append_of_le_length hk] at hr
  rcases List.mem_cons.mp (List.mem_of_mem_take hr) with rfl | hr
  · have htype : isText (field (ofJson N ((ExportRecord.session exportedAt session
        (snapshot.exportOrder session.id).length).json texts)) "type") (js "session") = true := by
      simp only [ExportRecord.json, ExportRecord.members, field_object, List.foldl_cons, List.foldl_nil,
        fetch_put, String.reduceEq, if_true, if_false, Option.map_some]
      exact isText_str _
    exact absurd (isText_inj htype hend.type) (by decide)
  · obtain ⟨row, -, rfl⟩ := List.mem_map.mp hr
    exact absurd (isText_inj requestValue_type hend.type) (by decide)

/-- An export that breaks off before its last line end is an error. -/
theorem error_of_cut {sent : List ExportRecord} (h : CompletedExport source snapshot id sent)
    (hprintable : snapshot.Printable) {chunks : List Bytes} {back : Bytes}
    (hcut : chunks.flatten ++ back = exportBytes texts sent) (hback : back ≠ []) (hlast : back ≠ [10])
    (reader : JsText) (ok : ℕ → Bool) : (readTranscript lib reader ok chunks).error ≠ none := by
  intro herror
  obtain ⟨s, footer, ⟨records, hrecords, hconsume⟩, hfooter⟩ := readTranscript_finish (.inr herror)
  obtain ⟨header, requests, rfl, htranscript⟩ := isTranscript_of_consume hconsume hfooter
  rw [exportBytes_eq] at hcut
  rcases recordsOf_front (printed_sent h hprintable) hcut hback hlast with hnone | ⟨k, hk, hsome⟩
  · rw [hnone] at hrecords
    cases hrecords
  · rw [hsome, Option.some.injEq, ← List.map_take, List.map_map] at hrecords
    rw [List.length_map] at hk
    have hmem : footer ∈ (sent.take k).map (ofJson N ∘ ExportRecord.json texts) := by
      rw [hrecords]
      simp
    exact not_isEnd_of_take h hk hmem htranscript.footer

omit [DecidableEq N.Num] in
/-- An export without its last line end has the same records. -/
theorem recordsOf_export_unended {sent : List ExportRecord} (h : CompletedExport source snapshot id sent)
    (hprintable : snapshot.Printable) : ∃ front : Bytes, front ++ [10] = exportBytes texts sent ∧
      recordsOf N front = some (sent.map fun r => ofJson N (r.json texts)) := by
  have hprinted : ∀ j ∈ sent.map (ExportRecord.json texts), Printed j := printed_sent h hprintable
  obtain ⟨exportedAt, session, -, tally, -, -, rfl⟩ := completed_sent h
  rw [← List.cons_append, List.map_append] at hprinted ⊢
  generalize ExportRecord.session exportedAt session _ :: _ = before at hprinted ⊢
  refine ⟨utf8 ((before.map (ExportRecord.json texts)).flatMap lineOf ++
    ((finishRecord id tally).json texts).write), ?_, ?_⟩
  · have hbreak : utf8 ['\n'] = [10] := rfl
    rw [exportBytes_eq, List.map_append, List.flatMap_append, List.map_singleton, List.flatMap_singleton,
      lineOf, ← List.append_assoc, utf8_append, utf8_append, utf8_append, hbreak]
  · rw [recordsOf_unended hprinted, List.map_append, List.map_map]
    rfl

end

/-- AGREE: every completed export is read to its end in whichever chunks it arrives, and a part of it that
    lacks more than the last line end is an error; whatever bytes arrive, the end is published only for
    one whole transcript of the session. -/
theorem export_and_transcript_agree (hN : N.Lawful) {τ δ : Type} (lib : StreamLib N τ δ) :
    (∀ (source : BodySource) (snapshot : Snapshot) (id : ℕ) (sent : List ExportRecord),
      CompletedExport source snapshot id sent → snapshot.Printable →
      (Legible lib texts (snapshot.exportOrder id) → (snapshot.exportOrder id).length < 2 ^ 53 →
        (∀ r ∈ snapshot.exportOrder id, ∃ parsed,
          lib.parseRequest (requestValue N texts source snapshot id r) = some parsed) →
        ∀ chunks : List Bytes, chunks.flatten = exportBytes texts sent →
          PublishedWhole texts sent (snapshot.exportOrder id)
            (readTranscript lib (js (texts.uuid id)) (fun _ => true) chunks)) ∧
      ∀ (chunks : List Bytes) (back : Bytes), chunks.flatten ++ back = exportBytes texts sent →
        back ≠ [] → back ≠ [10] → ∀ (reader : JsText) (ok : ℕ → Bool),
          (readTranscript lib reader ok chunks).error ≠ none) ∧
    ∀ (id : JsText) (ok : ℕ → Bool) (chunks : List Bytes),
      (∃ event ∈ (readTranscript lib id ok chunks).published, event.isFinish = true) →
      ∃ header requests footer, recordsOf N chunks.flatten = some (header :: (requests ++ [footer])) ∧
        IsTranscript lib id header requests footer := by
  refine ⟨fun source snapshot id sent h hprintable => ⟨fun hlegible hcount hparse chunks hchunks => ?_,
    fun chunks back hcut hback hlast reader ok => error_of_cut h hprintable hcut hback hlast reader ok⟩,
    fun id ok chunks hfinish => ?_⟩
  · refine published_of_records hN h hlegible hcount hparse (fun _ => rfl) ?_
    rw [hchunks, exportBytes_eq, recordsOf_whole (printed_sent h hprintable), List.map_map]
    rfl
  · obtain ⟨s, footer, ⟨records, hrecords, hconsume⟩, hfooter⟩ := readTranscript_finish (.inl hfinish)
    obtain ⟨header, requests, rfl, htranscript⟩ := isTranscript_of_consume hconsume hfooter
    exact ⟨header, requests, footer, hrecords, htranscript⟩

end

/-! ### An export in which nothing was captured -/

instance : DecidableEq QueryText.wholeNumbers.Num := inferInstanceAs (DecidableEq ℤ)

/-- Two requests at the same time, the later id first; their bodies are missing. -/
def bareSnapshot : Snapshot where
  sessions := [⟨1, []⟩]
  requests := [5, 3].map fun id =>
    { id, startedAt := 7, sessionId := some 1, bodyBytes := fun _ => 4, bodyTruncated := fun _ => false,
      bodyCompressed := fun _ => [], columns := [("tags", .arr [])] }
  messages := []
  records := []
  segments := []
  ids := by decide

/-- Ids below ten, and the first microseconds of 1970. -/
def bareTexts : ExportTexts where
  uuid id := "00000000-0000-0000-0000-00000000000" ++ toString id
  time t := "1970-01-01T00:00:00.0000" ++ (if t < 10 then "0" else "") ++ toString t ++ "Z"

/-- What `parseRequest` returns for a record without bodies. -/
def bareRequest : ParsedRequest Unit where
  tools := none
  input := []
  output := []
  context := .snapshot
  inputComplete := false
  outputComplete := false
  notices := [js "Request body is missing.", js "Response body is missing."]
  outputBranches := []

/-- What the reader of the sample is given. -/
def bareLib : StreamLib QueryText.wholeNumbers Unit Unit where
  dateParse v := if isText v (js "1970-01-01T00:00:00.000007Z") then some 0 else none
  atMost _ _ := none
  parseRequest _ := some bareRequest
  canonical _ := []
  describeTools tools := tools
  addOther _ _ _ := none

/-- Bodies that can all be decoded. -/
def bareSource : BodySource := ⟨bodiesLib, fun _ => none⟩

theorem bare_legible : Legible bareLib bareTexts (bareSnapshot.exportOrder 1) := by
  have hmem (r : RequestRow) (hr : r ∈ bareSnapshot.exportOrder 1) : r.startedAt = 7 ∧ r.id ∈ [5, 3] := by
    have hr := List.mem_of_mem_filter ((exportOrder_perm bareSnapshot 1).mem_iff.mp hr)
    obtain ⟨id, hid, rfl⟩ := List.mem_map.mp hr
    exact ⟨rfl, hid⟩
  refine ⟨fun a ha b hb hlt => ?_, fun a ha b hb _ => ?_, fun a ha => ?_⟩
  · have hids : ∀ i ∈ [5, 3], ∀ k ∈ [5, 3], i < k → js (bareTexts.uuid i) < js (bareTexts.uuid k) := by decide
    exact hids a.id (hmem a ha).2 b.id (hmem b hb).2 hlt
  · rw [(hmem a ha).1, (hmem b hb).1]
  · rw [(hmem a ha).1]
    decide

theorem bare_printable : bareSnapshot.Printable where
  sessions := List.forall_mem_singleton.mpr (List.forall_mem_nil _)
  requests := List.forall_mem_map.mpr fun _ _ => List.forall_mem_singleton.mpr trivial
  messages := List.forall_mem_nil _

theorem bare_count : (bareSnapshot.exportOrder 1).length < 2 ^ 53 := by
  rw [(exportOrder_perm bareSnapshot 1).length_eq]
  decide

theorem export_and_transcript_agree_bare : ∃ sent, CompletedExport bareSource bareSnapshot 1 sent ∧
    ∀ chunks : List Bytes, chunks.flatten = exportBytes bareTexts sent →
      PublishedWhole bareTexts sent (bareSnapshot.exportOrder 1)
        (readTranscript bareLib (js (bareTexts.uuid 1)) (fun _ => true) chunks) := by
  obtain ⟨sent, h⟩ := exists_completed bareSource (rfl : SessionExport.prepare bareSnapshot 10 1 = some _)
  exact ⟨sent, h, ((export_and_transcript_agree QueryText.wholeNumbers_lawful bareLib).1 bareSource
    bareSnapshot 1 sent h bare_printable).1 bare_legible bare_count (fun _ _ => ⟨bareRequest, rfl⟩)⟩

/-- The line end behind the end record may be missing. -/
theorem unended_export_read : ∃ sent, CompletedExport bareSource bareSnapshot 1 sent ∧
    ∃ (chunks : List Bytes) (back : Bytes), chunks.flatten ++ back = exportBytes bareTexts sent ∧ back ≠ [] ∧
      (readTranscript bareLib (js (bareTexts.uuid 1)) (fun _ => true) chunks).error = none := by
  obtain ⟨sent, h⟩ := exists_completed bareSource (rfl : SessionExport.prepare bareSnapshot 10 1 = some _)
  obtain ⟨front, hfront, hrecords⟩ : ∃ front : Bytes, front ++ [10] = exportBytes bareTexts sent ∧
      recordsOf QueryText.wholeNumbers front =
        some (sent.map fun r => ofJson QueryText.wholeNumbers (r.json bareTexts)) :=
    recordsOf_export_unended h bare_printable
  have hchunks : [front].flatten = front := List.flatten_singleton
  rw [← hchunks] at hfront hrecords
  refine ⟨sent, h, [front], [10], hfront, List.cons_ne_nil _ _, ?_⟩
  obtain ⟨first, last, -, -, addeds, -, hwhole⟩ := published_of_records QueryText.wholeNumbers_lawful h
    bare_legible bare_count (fun _ _ => ⟨bareRequest, rfl⟩) (fun _ => rfl) hrecords
  rw [hwhole]

end Llmtrace.Transcript
