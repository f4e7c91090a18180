import Llmtrace.Schemes.Run
import Llmtrace.Transcript.Stream

/-! The records of a byte stream, and what the reader makes of them. The reading ends well only when
    the bytes are UTF-8, every line is blank or JSON, and the records are those of one transcript; how
    the bytes were cut into chunks does not matter. -/

namespace Llmtrace.Transcript
open Schemes

/-! ### Lines -/

/-- The lines that end within a text, and what is left behind the last end. -/
def cutLines (pending : JsText) : JsText → List JsText × JsText
  | [] => ([], pending)
  | c :: text =>
    if c = 10 then
      let rest := cutLines [] text
      (pending :: rest.1, rest.2)
    else cutLines (pending ++ [c]) text

theorem takeLines_eq (text : JsText) (fragments : List JsText) (slice : JsText) :
    (takeLines fragments slice text).1 = (cutLines (fragments.flatten ++ slice) text).1 ∧
      (takeLines fragments slice text).2.flatten = (cutLines (fragments.flatten ++ slice) text).2 := by
  induction text generalizing fragments slice with
  | nil =>
    refine ⟨rfl, ?_⟩
    rw [takeLines, cutLines]
    by_cases h : slice = []
    · rw [if_pos h, h, List.append_nil]
    · rw [if_neg h, List.flatten_append, List.flatten_singleton]
  | cons c text ih =>
    rw [takeLines, cutLines]
    by_cases h : c = 10
    · obtain ⟨hlines, hrest⟩ := ih [] []
      rw [if_pos h, if_pos h]
      refine ⟨?_, hrest⟩
      simp only [List.flatten_append, List.flatten_singleton]
      exact congrArg _ hlines
    · obtain ⟨hlines, hrest⟩ := ih fragments (slice ++ [c])
      rw [if_neg h, if_neg h]
      rw [← List.append_assoc] at hlines hrest
      exact ⟨hlines, hrest⟩

theorem cutLines_append (text more pending : JsText) : cutLines pending (text ++ more) =
    ((cutLines pending text).1 ++ (cutLines (cutLines pending text).2 more).1,
      (cutLines (cutLines pending text).2 more).2) := by
  induction text generalizing pending with
  | nil => rfl
  | cons c text ih =>
    rw [List.cons_append, cutLines, cutLines]
    by_cases h : c = 10
    · rw [if_pos h, if_pos h, ih]
      rfl
    · rw [if_neg h, if_neg h, ih]

/-- A text without a line end is no line yet. -/
theorem cutLines_unended {text : JsText} (h : 10 ∉ text) (pending : JsText) :
    cutLines pending text = ([], pending ++ text) := by
  induction text generalizing pending with
  | nil => rw [cutLines, List.append_nil]
  | cons c text ih =>
    rw [List.mem_cons, not_or] at h
    rw [cutLines, if_neg (Ne.symm h.1), ih h.2, List.append_assoc]
    rfl

theorem cutLines_line {line : JsText} (h : 10 ∉ line) (rest : JsText) :
    cutLines [] (line ++ 10 :: rest) = (line :: (cutLines [] rest).1, (cutLines [] rest).2) := by
  rw [cutLines_append, cutLines_unended h]
  rfl

section
variable (N : JsNumbers)

/-- The records of some lines. -/
def parseLines (lines : List JsText) : Option (List (JsValue N.Num)) :=
  (lines.filter fun line => !isBlankLine line).mapM (jsonParse N)

/-- The records of a stream. -/
def recordsOf (bytes : Bytes) : Option (List (JsValue N.Num)) :=
  (TextDecoder.decode {} bytes).bind fun decoded =>
    if decoded.1.needed = 0 then
      let lines := cutLines [] decoded.2
      parseLines N (lines.1 ++ [lines.2])
    else none

theorem parseLines_append (lines more : List JsText) : parseLines N (lines ++ more) =
    (parseLines N lines).bind fun records => (parseLines N more).map fun records' => records ++ records' := by
  rw [parseLines, List.filter_append, List.mapM_append, ← parseLines, ← parseLines]
  cases parseLines N lines with
  | none => rfl
  | some records =>
    cases parseLines N more with
    | none => rfl
    | some records' => rfl

theorem parseLines_blank {line : JsText} (h : isBlankLine line = true) : parseLines N [line] = some [] := by
  simp [parseLines, h]

theorem parseLines_single {line : JsText} (h : isBlankLine line = false) :
    parseLines N [line] = (jsonParse N line).map fun record => [record] := by
  simp only [parseLines, List.filter_cons, h, Bool.not_false, if_true, List.filter_nil, List.mapM_cons,
    List.mapM_nil]
  cases jsonParse N line <;> rfl

end

/-! ### One record -/

section
variable {N : JsNumbers} {τ δ : Type} [DecidableEq N.Num] (lib : StreamLib N τ δ) (id : JsText)

/-- A record is the first of an export. -/
structure IsHeader (record : JsValue N.Num) (n : ℕ) : Prop where
  type : isText (field record "type") (js "session") = true
  version : isNumber N (field record "schema_version") 1 = true
  session : isText ((field record "session").bind (field · "id")) id = true
  count : countOf N (field record "request_count") = some n

/-- The time and the id of a request. -/
def keyOf (record : JsValue N.Num) : RequestKey N.Num where
  startedAt := (field record "request").bind (field · "started_at")
  id := (field record "request").bind (field · "id")

/-- A record is a request of the session. -/
structure IsRequest (record : JsValue N.Num) : Prop where
  type : isText (field record "type") (js "request") = true
  session : isText ((field record "request").bind (field · "session_id")) id = true
  time : (lib.dateParse (keyOf record).startedAt).isSome = true

/-- A record is the last of an export. -/
structure IsEnd (record : JsValue N.Num) (n : ℕ) : Prop where
  type : isText (field record "type") (js "end") = true
  session : isText (field record "session_id") id = true
  complete : same (field record "export_complete") (some (.bool true)) = true
  count : isNumber N (field record "request_count") n = true

/-- What a record that is accepted does to the session. -/
inductive Advances (s : Session N.Num δ) (raw : JsValue N.Num) : Session N.Num δ → Prop where
  | header {n : ℕ} : s.footer = none → s.expected = none → IsHeader id raw n →
    Advances s raw { s with expected := some n, published := s.published ++ [.header raw] }
  | request {n : ℕ} {parsed : ParsedRequest τ} {history : TranscriptHistory δ} {added : Added δ} :
    s.footer = none → s.expected = some n → IsRequest lib id raw →
    s.seen.any (same (keyOf raw).id) = false → comesTooLate lib s.previous (keyOf raw) = .ok false →
    s.count < n → lib.parseRequest raw = some parsed →
    addRequest lib s.history raw (keyOf raw) parsed = .ok (history, added) →
    Advances s raw { s with
      history
      count := s.count + 1
      seen := s.seen ++ [(keyOf raw).id]
      previous := some (keyOf raw)
      published := s.published ++ [.request added] }
  | finish {n : ℕ} : s.footer = none → s.expected = some n → IsEnd id raw s.count → s.count = n →
    Advances s raw { s with footer := some raw }

section
variable {ν : Type}

theorem member_ok {v x : Option (JsValue ν)} {key : String} (h : member v key = .ok x) :
    x = v.bind (field · key) := by
  rcases v with _ | v
  · cases h
  · cases v <;> cases h <;> rfl

/-- A property that is there can be read. -/
theorem member_of_isSome {v : Option (JsValue ν)} {key : String}
    (h : (v.bind (field · key)).isSome = true) (other : String) :
    member v other = .ok (v.bind (field · other)) := by
  rcases v with _ | v
  · cases h
  · cases v with
    | null => cases h
    | _ => rfl

theorem isSome_of_isText {v : Option (JsValue ν)} {text : JsText} (h : isText v text = true) :
    v.isSome = true := by
  rcases v with _ | v
  · cases h
  · rfl

theorem isObject_of_field {record : JsValue ν} {key : String} (h : (field record key).isSome = true) :
    isObject record = true := by
  cases record with
  | obj fields => rfl
  | _ => cases h

/-- A text is one text only. -/
theorem isText_inj {v : Option (JsValue ν)} {s t : JsText} (hs : isText v s = true)
    (ht : isText v t = true) : s = t := by
  rcases v with _ | v
  · cases hs
  · cases v with
    | str u => exact (of_decide_eq_true hs).symm.trans (of_decide_eq_true ht)
    | _ => cases hs

end

omit [DecidableEq N.Num] in
theorem readHeader_ok_iff {record : JsValue N.Num} {n : ℕ} :
    readHeader id record = .ok n ↔ IsHeader id record n := by
  constructor
  · intro h
    rw [readHeader] at h
    split_ifs at h with hchecks
    obtain ⟨sessionId, hmember, h⟩ := bind_eq_ok.mp h
    rw [member_ok hmember] at h
    split_ifs at h with hsession
    simp only [Bool.or_eq_true, Bool.not_eq_true', not_or, Bool.not_eq_false] at hchecks hsession
    cases hcount : countOf N (field record "request_count") with
    | none =>
      rw [hcount] at h
      cases h
    | some m =>
      rw [hcount] at h
      cases h
      exact ⟨hchecks.1, hchecks.2, hsession, hcount⟩
  · rintro ⟨htype, hversion, hsession, hcount⟩
    rw [readHeader, htype, hversion, member_of_isSome (isSome_of_isText hsession)]
    simp only [Bool.not_true, Bool.or_self, Bool.false_eq_true, if_false, bind, Except.bind, hsession, hcount]
    rfl

theorem requestKey_ok_iff {seen : List (Option (JsValue N.Num))} {raw : JsValue N.Num}
    {key : RequestKey N.Num} (htype : isText (field raw "type") (js "request") = true) :
    requestKey lib id seen raw = .ok key ↔
      IsRequest lib id raw ∧ seen.any (same (keyOf raw).id) = false ∧ key = keyOf raw := by
  constructor
  · intro h
    rw [requestKey] at h
    obtain ⟨sessionId, hsessionId, h⟩ := bind_eq_ok.mp h
    rw [member_ok hsessionId] at h
    split_ifs at h with hsession
    obtain ⟨startedAt, hstartedAt, h⟩ := bind_eq_ok.mp h
    obtain ⟨requestId, hrequestId, h⟩ := bind_eq_ok.mp h
    rw [member_ok hstartedAt, member_ok hrequestId] at h
    split_ifs at h with hchecks
    cases h
    simp only [Bool.or_eq_true, not_or, Bool.not_eq_true, Option.isNone_eq_false_iff] at hchecks
    rw [Bool.not_eq_true, Bool.not_eq_false'] at hsession
    exact ⟨⟨htype, hsession, hchecks.1⟩, hchecks.2, rfl⟩
  · rintro ⟨⟨-, hsession, htime⟩, hseen, rfl⟩
    have hmember := member_of_isSome (isSome_of_isText hsession)
    have hvalid : ((lib.dateParse (keyOf raw).startedAt).isNone || seen.any (same (keyOf raw).id)) = false := by
      rw [hseen, Bool.or_false, Option.isNone_eq_false_iff]
      exact htime
    rw [requestKey]
    simp only [hmember, bind, Except.bind, hsession, Bool.not_true, Bool.false_eq_true, if_false]
    rw [if_neg (by rw [← Bool.not_eq_true] at hvalid; exact hvalid)]
    rfl

theorem request_ok_iff {s s' : Session N.Num δ} {n : ℕ} {raw : JsValue N.Num}
    (htype : isText (field raw "type") (js "request") = true) :
    s.request lib id n raw = .ok s' ↔ IsRequest lib id raw ∧ s.seen.any (same (keyOf raw).id) = false ∧
      comesTooLate lib s.previous (keyOf raw) = .ok false ∧ s.count < n ∧
      ∃ parsed history added, lib.parseRequest raw = some parsed ∧
        addRequest lib s.history raw (keyOf raw) parsed = .ok (history, added) ∧
        s' = { s with
          history
          count := s.count + 1
          seen := s.seen ++ [(keyOf raw).id]
          previous := some (keyOf raw)
          published := s.published ++ [.request added] } := by
  constructor
  · intro h
    obtain ⟨key, hkey, h⟩ := bind_eq_ok.mp h
    obtain ⟨hrequest, hseen, rfl⟩ := (requestKey_ok_iff lib id htype).mp hkey
    obtain ⟨late, hlate, h⟩ := bind_eq_ok.mp h
    cases late with
    | true => cases h
    | false =>
      rw [if_neg Bool.false_ne_true] at h
      split_ifs at h with hcount
      cases hparse : lib.parseRequest raw with
      | none =>
        rw [hparse] at h
        cases h
      | some parsed =>
        rw [hparse] at h
        obtain ⟨⟨history, added⟩, hadd, h⟩ := bind_eq_ok.mp h
        cases h
        exact ⟨hrequest, hseen, hlate, by omega, parsed, history, added, rfl, hadd, rfl⟩
  · rintro ⟨hrequest, hseen, hlate, hcount, parsed, history, added, hparse, hadd, rfl⟩
    have hkey := (requestKey_ok_iff lib id htype).mpr ⟨hrequest, hseen, rfl⟩
    rw [Session.request]
    simp only [hkey, hlate, hparse, hadd, bind, Except.bind, Bool.false_eq_true, if_false]
    rw [if_neg (by omega)]
    rfl

omit [DecidableEq N.Num] in
theorem isText_type {raw : JsValue N.Num} {text : String} (h : isText (field raw "type") (js text) = true) :
    isObject raw = true ∧ ∀ other, js other ≠ js text → isText (field raw "type") (js other) = false := by
  refine ⟨isObject_of_field (isSome_of_isText h), fun other hother => ?_⟩
  rw [← Bool.not_eq_true]
  exact fun hsame => hother (isText_inj hsame h)

/-- One step of the reader. -/
theorem next_ok_iff {s s' : Session N.Num δ} {raw : JsValue N.Num} :
    s.next lib id raw = .ok s' ↔ Advances lib id s raw s' := by
  constructor
  · intro h
    rw [Session.next] at h
    cases hexpected : s.expected with
    | none =>
      simp only [hexpected] at h
      split_ifs at h with hobject hfooter
      rw [Bool.not_eq_true, Option.isSome_eq_false_iff, Option.isNone_iff_eq_none] at hfooter
      obtain ⟨n, hheader, h⟩ := bind_eq_ok.mp h
      cases h
      exact .header hfooter hexpected ((readHeader_ok_iff id).mp hheader)
    | some n =>
      simp only [hexpected] at h
      split_ifs at h with hobject hfooter hrequest hend
      all_goals rw [Bool.not_eq_true, Option.isSome_eq_false_iff, Option.isNone_iff_eq_none] at hfooter
      · obtain ⟨hvalid, hseen, hlate, hcount, parsed, history, added, hparse, hadd, rfl⟩ :=
          (request_ok_iff lib id hrequest).mp h
        exact .request hfooter hexpected hvalid hseen hlate hcount hparse hadd
      · rw [Session.finish] at h
        split_ifs at h with hchecks
        cases h
        simp only [Bool.or_eq_true, Bool.not_eq_true', decide_eq_true_eq, not_or, Bool.not_eq_false,
          ne_eq, not_not] at hchecks
        obtain ⟨⟨⟨hsession, hcomplete⟩, hnumber⟩, hcount⟩ := hchecks
        exact .finish hfooter hexpected ⟨hend, hsession, hcomplete, hnumber⟩ hcount
  · intro h
    cases h with
    | header hfooter hexpected hheader =>
      obtain ⟨hobject, -⟩ := isText_type hheader.type
      rw [Session.next, hobject, hfooter, hexpected]
      simp only [Bool.not_true, Bool.false_eq_true, if_false, Option.isSome_none,
        (readHeader_ok_iff id).mpr hheader, bind, Except.bind]
      rfl
    | request hfooter hexpected hvalid hseen hlate hcount hparse hadd =>
      obtain ⟨hobject, -⟩ := isText_type hvalid.type
      have hrequest := (request_ok_iff lib id hvalid.type).mpr
        ⟨hvalid, hseen, hlate, hcount, _, _, _, hparse, hadd, rfl⟩
      rw [Session.next, hobject, hfooter, hexpected]
      simp only [Bool.not_true, Bool.false_eq_true, if_false, Option.isSome_none, hvalid.type, if_true]
      rw [hrequest]
      simp only [hexpected, hfooter]
    | finish hfooter hexpected hend hcount =>
      obtain ⟨hobject, hother⟩ := isText_type hend.type
      subst hcount
      have hchecks : (!isText (field raw "session_id") id ||
          !same (field raw "export_complete") (some (.bool true)) ||
          !isNumber N (field raw "request_count") s.count || decide (s.count ≠ s.count)) = false := by
        rw [hend.session, hend.complete, hend.count, decide_eq_false (not_not_intro rfl)]
        rfl
      rw [Session.next, hobject, hfooter, hexpected]
      simp only [Bool.not_true, Bool.false_eq_true, if_false, Option.isSome_none,
        hother "request" (by decide), hend.type, if_true]
      rw [Session.finish, if_neg (by rw [hchecks]; exact Bool.false_ne_true)]
      simp only [hexpected]

end

/-! ### Chunks -/

section
variable {N : JsNumbers} {τ δ : Type} [DecidableEq N.Num] (lib : StreamLib N τ δ) (id : JsText)

/-- The loop over the records. -/
def consume (s : Session N.Num δ) (records : List (JsValue N.Num)) :
    Except TranscriptError (Session N.Num δ) :=
  records.foldlM (Session.next lib id) s

theorem consume_append (s : Session N.Num δ) (records more : List (JsValue N.Num)) :
    consume lib id s (records ++ more) = (consume lib id s records).bind fun s' => consume lib id s' more :=
  List.foldlM_append

variable {lib id} {ok : ℕ → Bool} {r r' : Reading N.Num δ}

/-- Reading took these lines in. -/
structure Took (lib : StreamLib N τ δ) (id : JsText) (r r' : Reading N.Num δ) (lines : List JsText) : Prop where
  decoder : r'.decoder = r.decoder
  fragments : r'.fragments = r.fragments
  records : ∃ records, parseLines N lines = some records ∧
    consume lib id r.session records = .ok r'.session

theorem Took.trans {r'' : Reading N.Num δ} {lines lines' : List JsText} (h : Took lib id r r' lines)
    (h' : Took lib id r' r'' lines') : Took lib id r r'' (lines ++ lines') where
  decoder := h'.decoder.trans h.decoder
  fragments := h'.fragments.trans h.fragments
  records := by
    obtain ⟨records, hparse, hconsume⟩ := h.records
    obtain ⟨records', hparse', hconsume'⟩ := h'.records
    refine ⟨records ++ records', ?_, ?_⟩
    · rw [parseLines_append, hparse, Option.bind_some, hparse', Option.map_some]
    · rw [consume_append, hconsume]
      exact hconsume'

omit [DecidableEq N.Num] in
theorem attempt_ok (h : attempt ok r = .ok r') : r' = { r with clock := r.clock + 1 } := by
  rw [attempt] at h
  split at h
  · exact (Except.ok.inj h).symm
  · cases h

theorem readLine_ok {line : JsText} (h : readLine lib id ok r line = .ok r') : Took lib id r r' [line] := by
  rw [readLine] at h
  cases hblank : isBlankLine line with
  | true =>
    rw [hblank, if_pos rfl] at h
    cases h
    exact ⟨rfl, rfl, [], parseLines_blank N hblank, rfl⟩
  | false =>
    rw [hblank, if_neg Bool.false_ne_true] at h
    cases hparse : jsonParse N line with
    | none =>
      rw [hparse] at h
      cases h
    | some raw =>
      rw [hparse] at h
      obtain ⟨r₁, hattempt, hnext⟩ := bind_eq_ok.mp h
      cases attempt_ok hattempt
      cases hsession : r.session.next lib id raw with
      | error e =>
        simp only [hsession] at hnext
        cases hnext
      | ok session =>
        simp only [hsession] at hnext
        cases hnext
        refine ⟨rfl, rfl, [raw], ?_, ?_⟩
        · rw [parseLines_single N hblank, hparse, Option.map_some]
        · rw [consume, List.foldlM_cons, hsession]
          rfl

theorem readLines_ok {lines : List JsText} (h : lines.foldlM (readLine lib id ok) r = .ok r') :
    Took lib id r r' lines := by
  induction lines generalizing r with
  | nil =>
    cases h
    exact ⟨rfl, rfl, [], rfl, rfl⟩
  | cons line lines ih =>
    rw [List.foldlM_cons] at h
    obtain ⟨r₁, hline, hrest⟩ := bind_eq_ok.mp h
    exact (readLine_ok hline).trans (ih hrest)

/-- Reading took these bytes in. -/
structure Read (lib : StreamLib N τ δ) (id : JsText) (r r' : Reading N.Num δ) (bytes : Bytes) : Prop where
  intro ::
  text : ∃ text, r.decoder.decode bytes = some (r'.decoder, text) ∧
    r'.fragments.flatten = (cutLines r.fragments.flatten text).2 ∧
    ∃ records, parseLines N (cutLines r.fragments.flatten text).1 = some records ∧
      consume lib id r.session records = .ok r'.session

theorem readChunk_ok {chunk : Bytes} (h : readChunk lib id ok r chunk = .ok r') :
    Read lib id r r' chunk := by
  obtain ⟨r₁, hattempt, hread⟩ := bind_eq_ok.mp h
  cases attempt_ok hattempt
  cases hdecode : r.decoder.decode chunk with
  | none =>
    simp only [hdecode] at hread
    cases hread
  | some decoded =>
    simp only [hdecode] at hread
    have htook := readLines_ok hread
    obtain ⟨hlines, hrest⟩ := takeLines_eq decoded.2 r.fragments []
    rw [List.append_nil] at hlines hrest
    obtain ⟨records, hparse, hconsume⟩ := htook.records
    refine ⟨decoded.2, ?_, ?_, records, ?_, hconsume⟩
    · rw [htook.decoder, hdecode]
    · rw [htook.fragments]
      exact hrest
    · rw [← hlines]
      exact hparse

theorem Read.trans {r'' : Reading N.Num δ} {bytes more : Bytes} (h : Read lib id r r' bytes)
    (h' : Read lib id r' r'' more) : Read lib id r r'' (bytes ++ more) := by
  obtain ⟨text, hdecode, hrest, records, hparse, hconsume⟩ := h
  obtain ⟨text', hdecode', hrest', records', hparse', hconsume'⟩ := h'
  rw [hrest] at hrest' hparse'
  refine ⟨text ++ text', TextDecoder.decode_of_append hdecode hdecode', ?_, records ++ records', ?_, ?_⟩
  · rw [cutLines_append]
    exact hrest'
  · rw [cutLines_append, parseLines_append, hparse, Option.bind_some, hparse', Option.map_some]
  · rw [consume_append, hconsume]
    exact hconsume'

theorem readChunks_ok {chunks : List Bytes} (h : chunks.foldlM (readChunk lib id ok) r = .ok r') :
    Read lib id r r' chunks.flatten := by
  induction chunks generalizing r with
  | nil =>
    cases h
    exact ⟨[], rfl, rfl, [], rfl, rfl⟩
  | cons chunk chunks ih =>
    rw [List.foldlM_cons] at h
    obtain ⟨r₁, hchunk, hrest⟩ := bind_eq_ok.mp h
    rw [List.flatten_cons]
    exact (readChunk_ok hchunk).trans (ih hrest)

/-! ### A reading that nothing interrupts -/

section
variable (hok : ∀ n, ok n = true)
include hok

omit [DecidableEq N.Num] in
theorem attempt_of_ok (r : Reading N.Num δ) : attempt ok r = .ok { r with clock := r.clock + 1 } :=
  if_pos (hok _)

theorem readLine_of_parse {line : JsText} {records : List (JsValue N.Num)} {s : Session N.Num δ}
    (hparse : parseLines N [line] = some records) (hconsume : consume lib id r.session records = .ok s) :
    ∃ r', readLine lib id ok r line = .ok r' ∧ r'.session = s := by
  rw [readLine]
  cases hblank : isBlankLine line with
  | true =>
    rw [parseLines_blank N hblank] at hparse
    cases hparse
    cases hconsume
    exact ⟨r, if_pos rfl, rfl⟩
  | false =>
    rw [parseLines_single N hblank, Option.map_eq_some_iff] at hparse
    obtain ⟨raw, hraw, rfl⟩ := hparse
    have hnext : r.session.next lib id raw = .ok s := by
      rw [consume, List.foldlM_cons] at hconsume
      obtain ⟨s', hs', hrest⟩ := bind_eq_ok.mp hconsume
      cases hrest
      exact hs'
    refine ⟨{ r with clock := r.clock + 1, session := s }, ?_, rfl⟩
    rw [if_neg Bool.false_ne_true, hraw]
    simp only [attempt_of_ok hok, bind, Except.bind, hnext]
    rfl

theorem readLines_of_parse {lines : List JsText} {records : List (JsValue N.Num)} {s : Session N.Num δ}
    (hparse : parseLines N lines = some records) (hconsume : consume lib id r.session records = .ok s) :
    ∃ r', lines.foldlM (readLine lib id ok) r = .ok r' ∧ r'.session = s := by
  induction lines generalizing r records with
  | nil =>
    cases hparse
    cases hconsume
    exact ⟨r, rfl, rfl⟩
  | cons line lines ih =>
    rw [← List.singleton_append, parseLines_append, Option.bind_eq_some_iff] at hparse
    obtain ⟨first, hfirst, hmap⟩ := hparse
    obtain ⟨rest, hrest, rfl⟩ := Option.map_eq_some_iff.mp hmap
    rw [consume_append] at hconsume
    obtain ⟨s', hs', hconsume⟩ := bind_eq_ok.mp hconsume
    obtain ⟨r₁, hline, rfl⟩ := readLine_of_parse hok hfirst hs'
    obtain ⟨r₂, hlines, rfl⟩ := ih hrest hconsume
    refine ⟨r₂, ?_, rfl⟩
    rw [List.foldlM_cons, hline]
    exact hlines

theorem readChunk_of_parse {chunk : Bytes} {d : TextDecoder} {text : JsText}
    {records : List (JsValue N.Num)} {s : Session N.Num δ}
    (hdecode : r.decoder.decode chunk = some (d, text))
    (hparse : parseLines N (cutLines r.fragments.flatten text).1 = some records)
    (hconsume : consume lib id r.session records = .ok s) :
    ∃ r', readChunk lib id ok r chunk = .ok r' ∧ r'.session = s := by
  have hlines := (takeLines_eq text r.fragments []).1
  rw [List.append_nil] at hlines
  rw [← hlines] at hparse
  simp only [readChunk, attempt_of_ok hok, bind, Except.bind, hdecode]
  exact readLines_of_parse hok hparse hconsume

theorem readChunks_of_parse {chunks : List Bytes} {d : TextDecoder} {text : JsText}
    {records : List (JsValue N.Num)} {s : Session N.Num δ}
    (hdecode : r.decoder.decode chunks.flatten = some (d, text))
    (hparse : parseLines N (cutLines r.fragments.flatten text).1 = some records)
    (hconsume : consume lib id r.session records = .ok s) :
    ∃ r', chunks.foldlM (readChunk lib id ok) r = .ok r' ∧ r'.session = s := by
  induction chunks generalizing r records text with
  | nil =>
    cases hdecode
    cases hparse
    cases hconsume
    exact ⟨r, rfl, rfl⟩
  | cons chunk chunks ih =>
    rw [List.flatten_cons, TextDecoder.decode_append, Option.bind_eq_some_iff] at hdecode
    obtain ⟨⟨d₁, text₁⟩, hchunk, hmap⟩ := hdecode
    obtain ⟨⟨d₂, text₂⟩, hchunks, hpair⟩ := Option.map_eq_some_iff.mp hmap
    cases hpair
    rw [cutLines_append, parseLines_append, Option.bind_eq_some_iff] at hparse
    obtain ⟨first, hfirst, hmap⟩ := hparse
    obtain ⟨rest, hrest, rfl⟩ := Option.map_eq_some_iff.mp hmap
    rw [consume_append] at hconsume
    obtain ⟨s', hs', hconsume⟩ := bind_eq_ok.mp hconsume
    obtain ⟨r₁, hread, rfl⟩ := readChunk_of_parse hok hchunk hfirst hs'
    obtain ⟨text', hdecode', hfragments, -⟩ := readChunk_ok hread
    rw [hchunk] at hdecode'
    cases hdecode'
    rw [← hfragments] at hrest
    obtain ⟨r₂, hreads, rfl⟩ := ih hchunks hrest hconsume
    refine ⟨r₂, ?_, rfl⟩
    rw [List.foldlM_cons, hread]
    exact hreads

end

/-! ### The end of the reading -/

/-- The reading of a stream ends well with this session. -/
structure Reaches (lib : StreamLib N τ δ) (id : JsText) (bytes : Bytes) (s : Session N.Num δ)
    (footer : JsValue N.Num) : Prop where
  records : ∃ records, recordsOf N bytes = some records ∧ consume lib id {} records = .ok s
  footer : s.footer = some footer

omit [DecidableEq N.Num] in
theorem recordsOf_eq {bytes : Bytes} {d : TextDecoder} {text : JsText}
    (hdecode : TextDecoder.decode {} bytes = some (d, text)) (hneeded : d.needed = 0) :
    recordsOf N bytes = (parseLines N (cutLines [] text).1).bind fun records =>
      (parseLines N [(cutLines [] text).2]).map fun last => records ++ last := by
  rw [recordsOf, hdecode, Option.bind_some]
  simp only [hneeded, if_true]
  exact parseLines_append N _ _

theorem reaches_of_tail {chunks : List Bytes} {footer : JsValue N.Num}
    (hread : Read lib id {} r chunks.flatten) (htail : readTail lib id ok r = .ok r')
    (hfooter : r'.session.footer = some footer) : Reaches lib id chunks.flatten r'.session footer := by
  obtain ⟨text, hdecode, hrest, records, hparse, hconsume⟩ := hread
  obtain ⟨r₁, hattempt, htail⟩ := bind_eq_ok.mp htail
  cases attempt_ok hattempt
  by_cases hneeded : r.decoder.needed = 0
  · simp only [hneeded, ne_eq, not_true_eq_false, if_false] at htail
    have htook := readLine_ok htail
    obtain ⟨last, hlast, hconsume'⟩ := htook.records
    simp only [hrest, List.flatten_nil] at hlast hparse
    refine ⟨⟨records ++ last, ?_, ?_⟩, hfooter⟩
    · rw [recordsOf_eq hdecode hneeded, hparse, Option.bind_some, hlast, Option.map_some]
    · rw [consume_append, hconsume]
      exact hconsume'
  · simp only [ne_eq, hneeded, not_false_eq_true, if_true] at htail
    cases htail

/-! ### Errors -/

/-- No end event is published, and a reading that ended has an error. -/
def Quiet : Except (Outcome N.Num δ) (Reading N.Num δ) → Prop
  | .ok r => ∀ e ∈ r.session.published, e.isFinish = false
  | .error o => o.error ≠ none ∧ ∀ e ∈ o.published, e.isFinish = false

omit [DecidableEq N.Num] in
theorem Quiet.bind {x : Except (Outcome N.Num δ) (Reading N.Num δ)}
    {f : Reading N.Num δ → Except (Outcome N.Num δ) (Reading N.Num δ)} (hx : Quiet x)
    (hf : ∀ r : Reading N.Num δ, Quiet (.ok r) → Quiet (f r)) : Quiet (x >>= f) := by
  cases x with
  | error o => exact hx
  | ok r => exact hf r hx

omit [DecidableEq N.Num] in
theorem quiet_fail (h : Quiet (.ok r)) (e : TranscriptError) : Quiet (fail r e) :=
  ⟨Option.some_ne_none e, h⟩

omit [DecidableEq N.Num] in
theorem quiet_attempt (h : Quiet (.ok r)) : Quiet (attempt ok r) := by
  rw [attempt]
  split_ifs
  · exact h
  · exact quiet_fail h _

omit [DecidableEq N.Num] in
theorem quiet_foldlM {α : Type} {f : Reading N.Num δ → α → Except (Outcome N.Num δ) (Reading N.Num δ)}
    (hf : ∀ r a, Quiet (.ok r) → Quiet (f r a)) (as : List α) (h : Quiet (.ok r)) :
    Quiet (as.foldlM f r) := by
  induction as generalizing r with
  | nil => exact h
  | cons a as ih =>
    rw [List.foldlM_cons]
    exact (hf r a h).bind fun r' h' => ih h'

theorem Advances.quiet {s s' : Session N.Num δ} {raw : JsValue N.Num} (h : Advances lib id s raw s')
    (hs : ∀ e ∈ s.published, e.isFinish = false) : ∀ e ∈ s'.published, e.isFinish = false := by
  cases h with
  | header => exact List.forall_mem_append.mpr ⟨hs, List.forall_mem_singleton.mpr rfl⟩
  | request => exact List.forall_mem_append.mpr ⟨hs, List.forall_mem_singleton.mpr rfl⟩
  | finish => exact hs

theorem quiet_readLine (r : Reading N.Num δ) (line : JsText) (h : Quiet (.ok r)) :
    Quiet (readLine lib id ok r line) := by
  rw [readLine]
  split
  · exact h
  · split
    · exact quiet_fail h _
    · refine (quiet_attempt h).bind fun r' h' => ?_
      split
      · exact quiet_fail h' _
      · rename_i session hsession
        exact ((next_ok_iff lib id).mp hsession).quiet h'

theorem quiet_readChunk (r : Reading N.Num δ) (chunk : Bytes) (h : Quiet (.ok r)) :
    Quiet (readChunk lib id ok r chunk) := by
  refine (quiet_attempt h).bind fun r' h' => ?_
  split
  · exact quiet_fail h' _
  · exact quiet_foldlM quiet_readLine _ h'

theorem quiet_readTail (h : Quiet (.ok r)) : Quiet (readTail lib id ok r) := by
  refine (quiet_attempt h).bind fun r' h' => ?_
  split_ifs
  · exact quiet_fail h' _
  · exact quiet_readLine r' _ h'

/-- The end event is published only by a reading without an error, which read the records of the stream
    up to an end record. -/
theorem readTranscript_finish {chunks : List Bytes}
    (h : (∃ e ∈ (readTranscript lib id ok chunks).published, e.isFinish = true) ∨
      (readTranscript lib id ok chunks).error = none) :
    ∃ s footer, Reaches lib id chunks.flatten s footer := by
  have hquiet {o : Outcome N.Num δ} (ho : Quiet (.error o))
      (hfinish : (∃ e ∈ o.published, e.isFinish = true) ∨ o.error = none) : False := by
    rcases hfinish with ⟨e, he, hfinish⟩ | herror
    · rw [ho.2 e he] at hfinish
      cases hfinish
    · exact ho.1 herror
  have hstart : Quiet (.ok ({} : Reading N.Num δ)) := List.forall_mem_nil _
  have hchunks : Quiet (chunks.foldlM (readChunk lib id ok) {}) := quiet_foldlM quiet_readChunk chunks hstart
  rw [readTranscript, readAll] at h
  cases hread : chunks.foldlM (readChunk lib id ok) ({} : Reading N.Num δ) with
  | error o =>
    rw [hread] at h hchunks
    exact (hquiet hchunks h).elim
  | ok r =>
    rw [hread] at h hchunks
    have htailQuiet : Quiet (readTail lib id ok r) := quiet_readTail hchunks
    simp only [bind, Except.bind] at h
    cases htail : readTail lib id ok r with
    | error o =>
      rw [htail] at h htailQuiet
      exact (hquiet htailQuiet h).elim
    | ok r' =>
      rw [htail] at h htailQuiet
      have hlast : Quiet (attempt ok r') := quiet_attempt htailQuiet
      simp only at h
      cases hattempt : attempt ok r' with
      | error o =>
        rw [hattempt] at h hlast
        exact (hquiet hlast h).elim
      | ok r'' =>
        rw [hattempt] at h hlast
        simp only at h
        cases hfooter : r''.session.footer with
        | none =>
          rw [hfooter] at h
          exact (hquiet (quiet_fail hlast .endedEarly) h).elim
        | some footer =>
          cases attempt_ok hattempt
          exact ⟨r'.session, footer, reaches_of_tail (readChunks_ok hread) htail hfooter⟩

/-- Where the records end well, a reading that nothing interrupts publishes them. -/
theorem readTranscript_of_reaches (hok : ∀ n, ok n = true) {chunks : List Bytes} {s : Session N.Num δ}
    {footer : JsValue N.Num} (h : Reaches lib id chunks.flatten s footer) :
    readTranscript lib id ok chunks = ⟨s.published ++ [.finish footer], none⟩ := by
  obtain ⟨⟨records, hrecords, hconsume⟩, hfooter⟩ := h
  rw [recordsOf, Option.bind_eq_some_iff] at hrecords
  obtain ⟨⟨d, text⟩, hdecode, hlines⟩ := hrecords
  by_cases hneeded : d.needed = 0
  · simp only [hneeded, if_true] at hlines
    rw [parseLines_append, Option.bind_eq_some_iff] at hlines
    obtain ⟨first, hfirst, hmap⟩ := hlines
    obtain ⟨last, hlast, rfl⟩ := Option.map_eq_some_iff.mp hmap
    rw [consume_append] at hconsume
    obtain ⟨s₁, hs₁, hconsume⟩ := bind_eq_ok.mp hconsume
    obtain ⟨r, hread, rfl⟩ := readChunks_of_parse (r := {}) hok hdecode hfirst hs₁
    obtain ⟨text', hdecode', hfragments, -⟩ := readChunks_ok hread
    rw [hdecode] at hdecode'
    cases hdecode'
    have hrest : (cutLines [] text).2 = r.fragments.flatten := hfragments.symm
    rw [hrest] at hlast
    obtain ⟨r', hline, rfl⟩ := readLine_of_parse (r := { r with clock := r.clock + 1 }) hok hlast hconsume
    have htail : readTail lib id ok r = .ok r' := by
      simp only [readTail, attempt_of_ok hok, bind, Except.bind, hneeded, ne_eq, not_true_eq_false, if_false]
      exact hline
    rw [readTranscript, readAll]
    simp only [hread, htail, attempt_of_ok hok, bind, Except.bind, hfooter]
    rfl
  · simp only [hneeded, if_false] at hlines
    cases hlines

end
end Llmtrace.Transcript
