import Llmtrace.Schemes.JsonText
import Llmtrace.Schemes.Utf8
import Llmtrace.Transcript.History

/-! The export as the browser reads it (`ui/src/lib/transcript/stream.ts`): `jsonLines` decodes the
    chunks of the download, joins the fragments of each line and parses it, and `readTranscript` checks
    the records and publishes them.

    The signal may abort the reading and the download may break off. `ok n` says whether the `n`th step
    at which this can happen goes on. `publish` is taken to succeed. -/

namespace Llmtrace.Transcript
open Schemes

/-! ### Values of JavaScript -/

/-- Why the reader throws. -/
inductive TranscriptError where
  | interrupted
  /-- The bytes are no UTF-8. -/
  | malformed
  /-- `JSON.parse` throws. -/
  | notJson
  /-- A property of `undefined` or `null`, or a value that has no primitive one. -/
  | typeError
  | invalidRecord | afterEnd | invalidHeader | otherSession | invalidRequest | outOfOrder | tooMany
  /-- `parseRequest` throws. -/
  | notParsed
  | incomplete | unexpectedRecord | endedEarly
  deriving DecidableEq

/-- The texts of the errors that the reader throws itself. -/
def TranscriptError.message : TranscriptError → Option String
  | invalidRecord => some "Invalid transcript export record."
  | afterEnd => some "Unexpected records after the transcript end marker."
  | invalidHeader => some "Invalid transcript session header."
  | otherSession => some "The transcript contains a request from another session."
  | invalidRequest => some "Invalid or duplicate transcript request."
  | outOfOrder => some "Transcript requests are out of order."
  | tooMany => some "Transcript request count exceeds its snapshot."
  | incomplete => some "Transcript export is incomplete. Reload to try again."
  | unexpectedRecord => some "Unexpected transcript export record."
  | endedEarly => some "Transcript download ended before completion. Reload to try again."
  | interrupted | malformed | notJson | typeError | notParsed => none

section
variable {ν : Type}

/-- `typeof v === 'object'` for a value that is not `null`. -/
def isObject : JsValue ν → Bool
  | .arr _ | .obj _ => true
  | _ => false

/-- A property of a record; an array has none of those that are read. -/
def field (record : JsValue ν) (key : String) : Option (JsValue ν) :=
  match record with
  | .obj fields => fields.lookup (js key)
  | _ => none

/-- `v.key`, where `v` may be `undefined`. -/
def member (v : Option (JsValue ν)) (key : String) : Except TranscriptError (Option (JsValue ν)) :=
  match v with
  | none | some .null => .error .typeError
  | some record => .ok (field record key)

/-- `a === b`, and how a `Set` compares: objects of different lines are never the same. -/
def same [DecidableEq ν] : Option (JsValue ν) → Option (JsValue ν) → Bool
  | none, none => true
  | some .null, some .null => true
  | some (.bool a), some (.bool b) => a = b
  | some (.num x), some (.num y) => x = y
  | some (.str s), some (.str t) => s = t
  | _, _ => false

/-- `v === text` -/
def isText (v : Option (JsValue ν)) (text : JsText) : Bool :=
  match v with
  | some (.str s) => s = text
  | _ => false

end

/-- `v === n` -/
def isNumber (N : JsNumbers) (v : Option (JsValue N.Num)) (n : ℕ) : Bool :=
  match v with
  | some (.num x) => N.whole x = some (n : ℤ)
  | _ => false

/-- The number that `v` is, when `Number.isSafeInteger(v)` and `v >= 0`. -/
def countOf (N : JsNumbers) (v : Option (JsValue N.Num)) : Option ℕ :=
  match v with
  | some (.num x) => ((N.whole x).filter fun z => |z| < 2 ^ 53 && 0 ≤ z).map Int.toNat
  | _ => none

/-! ### Lines -/

/-- The loop over the line ends of a decoded text: the lines it completes and the fragments it leaves.
    `slice` is the text since the last line end. -/
def takeLines (fragments : List JsText) (slice : JsText) : JsText → List JsText × List JsText
  | [] => ([], if slice = [] then fragments else fragments ++ [slice])
  | c :: text =>
    if c = 10 then
      let rest := takeLines [] [] text
      ((fragments ++ [slice]).flatten :: rest.1, rest.2)
    else takeLines fragments (slice ++ [c]) text

/-- `!line.trim()` -/
def isBlankLine (line : JsText) : Bool := line.all isSpace

/-! ### Records -/

/-- What the reader uses besides its own code. -/
structure StreamLib (N : JsNumbers) (τ δ : Type) where
  /-- `Date.parse(v)`, nothing where it is `NaN`. -/
  dateParse : Option (JsValue N.Num) → Option ℤ
  /-- `a <= b` for operands that are not two strings, nothing where it throws. -/
  atMost : Option (JsValue N.Num) → Option (JsValue N.Num) → Option Bool
  parseRequest : JsValue N.Num → Option (ParsedRequest τ)
  canonical : List τ → JsText
  describeTools : List τ → List δ
  /-- `history.add` on a record whose id or time is no string. -/
  addOther : TranscriptHistory δ → JsValue N.Num → ParsedRequest τ → Option (TranscriptHistory δ × Added δ)

/-- What the reader yields. -/
inductive TranscriptEvent (ν δ : Type) where
  | header (record : JsValue ν)
  | request (added : Added δ)
  | finish (record : JsValue ν)

/-- The last event of a transcript. -/
def TranscriptEvent.isFinish {ν δ : Type} : TranscriptEvent ν δ → Bool
  | finish _ => true
  | _ => false

/-- What `previous` keeps of a request. -/
structure RequestKey (ν : Type) where
  startedAt : Option (JsValue ν)
  id : Option (JsValue ν)

/-- The variables of `readTranscript` and what it has published. -/
structure Session (ν δ : Type) where
  history : TranscriptHistory δ := {}
  expected : Option ℕ := none
  count : ℕ := 0
  seen : List (Option (JsValue ν)) := []
  previous : Option (RequestKey ν) := none
  footer : Option (JsValue ν) := none
  published : List (TranscriptEvent ν δ) := []

section
variable {N : JsNumbers} {τ δ : Type} [DecidableEq N.Num] (lib : StreamLib N τ δ) (id : JsText)

/-- The checks of the first record, and its `request_count`. -/
def readHeader (record : JsValue N.Num) : Except TranscriptError ℕ := do
  if !isText (field record "type") (js "session") || !isNumber N (field record "schema_version") 1 then
    throw .invalidHeader
  else do
    let sessionId ← member (field record "session") "id"
    if !isText sessionId id then throw .invalidHeader
    else
      match countOf N (field record "request_count") with
      | some n => return n
      | none => throw .invalidHeader

/-- `a <= b` -/
def atMost (a b : Option (JsValue N.Num)) : Except TranscriptError Bool :=
  match a, b with
  | some (.str s), some (.str t) => .ok (s ≤ t)
  | _, _ =>
    match lib.atMost a b with
    | some le => .ok le
    | none => .error .typeError

/-- `Date.parse(a) < Date.parse(b)` -/
def earlier (a b : Option (JsValue N.Num)) : Bool :=
  (lib.dateParse a).any fun t => (lib.dateParse b).any fun t' => t < t'

/-- A request that started before the one that came before it. -/
def comesTooLate (previous : Option (RequestKey N.Num)) (key : RequestKey N.Num) :
    Except TranscriptError Bool :=
  match previous with
  | none => .ok false
  | some p =>
    if earlier lib key.startedAt p.startedAt then .ok true
    else if same key.startedAt p.startedAt then atMost lib key.id p.id
    else .ok false

/-- `history.add(record, parsed)` -/
def addRequest (history : TranscriptHistory δ) (record : JsValue N.Num) (key : RequestKey N.Num)
    (parsed : ParsedRequest τ) : Except TranscriptError (TranscriptHistory δ × Added δ) :=
  match key.id, key.startedAt with
  | some (.str id), some (.str startedAt) =>
    .ok (history.add lib.canonical lib.describeTools ⟨id, startedAt⟩ parsed)
  | _, _ =>
    match lib.addOther history record parsed with
    | some r => .ok r
    | none => .error .typeError

/-- The checks of a request by itself, and its time and id. -/
def requestKey (seen : List (Option (JsValue N.Num))) (record : JsValue N.Num) :
    Except TranscriptError (RequestKey N.Num) := do
  let request := field record "request"
  let sessionId ← member request "session_id"
  if !isText sessionId id then throw .otherSession
  else do
    let startedAt ← member request "started_at"
    let requestId ← member request "id"
    if (lib.dateParse startedAt).isNone || seen.any (same requestId) then throw .invalidRequest
    else return ⟨startedAt, requestId⟩

namespace Session

/-- A record of type `request`. -/
def request (s : Session N.Num δ) (expected : ℕ) (record : JsValue N.Num) :
    Except TranscriptError (Session N.Num δ) := do
  let key ← requestKey lib id s.seen record
  let late ← comesTooLate lib s.previous key
  if late then throw .outOfOrder
  else if expected < s.count + 1 then throw .tooMany
  else
    match lib.parseRequest record with
    | none => throw .notParsed
    | some parsed => do
      let (history, added) ← addRequest lib s.history record key parsed
      return { s with
        history
        count := s.count + 1
        seen := s.seen ++ [key.id]
        previous := some key
        published := s.published ++ [.request added] }

/-- A record of type `end`. -/
def finish (s : Session N.Num δ) (expected : ℕ) (record : JsValue N.Num) :
    Except TranscriptError (Session N.Num δ) :=
  if !isText (field record "session_id") id ||
      !same (field record "export_complete") (some (.bool true)) ||
      !isNumber N (field record "request_count") s.count || s.count ≠ expected then
    .error .incomplete
  else .ok { s with footer := some record }

/-- The body of the loop over the records. -/
def next (s : Session N.Num δ) (raw : JsValue N.Num) : Except TranscriptError (Session N.Num δ) :=
  if !isObject raw then .error .invalidRecord
  else if s.footer.isSome then .error .afterEnd
  else
    match s.expected with
    | none => do
      let expected ← readHeader id raw
      return { s with expected := some expected, published := s.published ++ [.header raw] }
    | some expected =>
      if isText (field raw "type") (js "request") then s.request lib id expected raw
      else if isText (field raw "type") (js "end") then s.finish id expected raw
      else .error .unexpectedRecord

end Session

/-! ### The whole stream -/

/-- `jsonLines` and `readTranscript` between two chunks. -/
structure Reading (ν δ : Type) where
  clock : ℕ := 0
  decoder : TextDecoder := {}
  fragments : List JsText := []
  session : Session ν δ := {}

/-- What was published and why the reading ended, if not at its end. -/
structure Outcome (ν δ : Type) where
  published : List (TranscriptEvent ν δ)
  error : Option TranscriptError

variable (ok : ℕ → Bool)

/-- The reader throws. -/
def fail (r : Reading N.Num δ) (e : TranscriptError) : Except (Outcome N.Num δ) (Reading N.Num δ) :=
  .error ⟨r.session.published, some e⟩

/-- A place at which the signal may have aborted or the download may break off. -/
def attempt (r : Reading N.Num δ) : Except (Outcome N.Num δ) (Reading N.Num δ) :=
  if ok r.clock then .ok { r with clock := r.clock + 1 } else fail r .interrupted

/-- One line of `jsonLines`, and the record it yields. -/
def readLine (r : Reading N.Num δ) (line : JsText) : Except (Outcome N.Num δ) (Reading N.Num δ) :=
  if isBlankLine line then .ok r
  else
    match jsonParse N line with
    | none => fail r .notJson
    | some raw => do
      let r ← attempt ok r
      match r.session.next lib id raw with
      | .error e => fail r e
      | .ok session => return { r with session }

/-- A chunk of bytes: its whole lines are read, the rest is kept. -/
def readChunk (r : Reading N.Num δ) (chunk : Bytes) : Except (Outcome N.Num δ) (Reading N.Num δ) := do
  let r ← attempt ok r
  match r.decoder.decode chunk with
  | none => fail r .malformed
  | some (decoder, text) =>
    let lines := takeLines r.fragments [] text
    lines.1.foldlM (readLine lib id ok) { r with decoder, fragments := lines.2 }

/-- The end of the download: the decoder is flushed and what is left is the last line. -/
def readTail (r : Reading N.Num δ) : Except (Outcome N.Num δ) (Reading N.Num δ) := do
  let r ← attempt ok r
  if r.decoder.needed ≠ 0 then fail r .malformed
  else readLine lib id ok r r.fragments.flatten

/-- The body of `readTranscript`, on a download that comes in these chunks. -/
def readAll (chunks : List Bytes) : Except (Outcome N.Num δ) (Outcome N.Num δ) := do
  let r ← chunks.foldlM (readChunk lib id ok) {}
  let r ← readTail lib id ok r
  let r ← attempt ok r
  match r.session.footer with
  | none => throw ⟨r.session.published, some .endedEarly⟩
  | some footer => return ⟨r.session.published ++ [.finish footer], none⟩

/-- `readTranscript`, of all chunks. -/
def readTranscript (chunks : List Bytes) : Outcome N.Num δ :=
  match readAll lib id ok chunks with
  | .ok outcome | .error outcome => outcome

end
end Llmtrace.Transcript
