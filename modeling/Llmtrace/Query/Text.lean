import Llmtrace.Schemes.JsValue
import Llmtrace.Schemes.Parser
import Llmtrace.Query.Schema

/-! The query language of the editor (`ui/src/lib/utils/query-text.ts`): a text is cut into tokens, the
    tokens are parsed against the schema that the server publishes, and a request is written back as a
    text. -/

namespace Llmtrace.QueryText
open Schemes Query

/-! ### What the editor knows -/

/-- The parts of the language's library that are left open. -/
structure JsLib extends JsNumbers where
  jsonParse : JsText → Option (JsValue Num)
  /-- `Date.parse(text)`, with nothing for `NaN`. -/
  dateParse : JsText → Option ℤ
  /-- `String(value)` for an array or an object. -/
  objectText : JsValue Num → JsText

/-- `FieldSpec` of `types.ts`. -/
structure FieldSpec where
  name : JsText
  filterKind : Option FilterKind
  operators : List QueryOp

/-- `QueryOrder` of `types.ts`. -/
structure QueryOrder where
  field : JsText
  direction : Option SortDirection
  deriving DecidableEq

/-- `DatasetSpec` of `types.ts`. -/
structure DatasetSpec where
  name : JsText
  defaultFields : List JsText
  defaultOrder : List QueryOrder
  fields : List FieldSpec

/-- The field `limits` of the schema. -/
structure Limits where
  maxFields : ℕ
  maxFilters : ℕ
  maxOrderBy : ℕ
  maxLimit : ℕ
  maxStringValueBytes : ℕ
  maxJsonValueBytes : ℕ

/-- The field `plugin_metadata` of the schema. -/
structure PluginMetadata where
  dataset : JsText
  fieldPrefix : JsText
  filterKind : FilterKind
  operators : List QueryOp
  maxSegments : ℕ
  maxSegmentBytes : ℕ

/-- `QuerySchema` of `types.ts`. -/
structure QuerySchema where
  limits : Limits
  pluginMetadata : PluginMetadata
  datasets : List DatasetSpec

/-- `field_schema` -/
def fieldSchema (field : Query.FieldSpec) : FieldSpec where
  name := js field.name
  filterKind := field.filter
  operators := (field.filter.map FilterKind.operators).getD []

/-- `default_order_schema` -/
def defaultOrderSchema (order : DefaultOrder) : QueryOrder := ⟨js order.field, some order.direction⟩

/-- `dataset_schema` -/
def datasetSchema (dataset : Query.DatasetSpec) : DatasetSpec where
  name := js dataset.name
  defaultFields := dataset.defaultFields.map js
  defaultOrder := dataset.defaultOrder.map defaultOrderSchema
  fields := dataset.fields.map fieldSchema

/-- `structured_query_schema()`, as the editor reads it. -/
def structuredQuerySchema : QuerySchema where
  limits :=
    { maxFields := maxStructuredQueryFields
      maxFilters := maxStructuredQueryFilters
      maxOrderBy := maxStructuredQueryOrderBy
      maxLimit := 500
      maxStringValueBytes := maxStructuredQueryStringValueBytes
      maxJsonValueBytes := maxStructuredQueryJsonValueBytes }
  pluginMetadata :=
    { dataset := js "requests"
      fieldPrefix := js pluginMetadataFieldPrefix
      filterKind := .jsonPath
      operators := FilterKind.jsonPath.operators
      maxSegments := maxPluginMetadataPathSegments
      maxSegmentBytes := maxPluginMetadataPathSegmentLen }
  datasets := Query.datasets.map datasetSchema

/-! ### Requests -/

/-- `QueryFilter` of `types.ts`. -/
structure QueryFilter (ν : Type) where
  field : JsText
  op : QueryOp
  value : Option (JsValue ν)

/-- A field that is `undefined` is `none`. -/
structure StructuredQueryRequest (ν : Type) where
  dataset : JsText
  fields : Option (List JsText)
  filters : Option (List (QueryFilter ν))
  orderBy : Option (List QueryOrder)
  limit : Option ν

/-! ### Tokens -/

/-- `QueryTextError` -/
structure QueryTextError where
  message : JsText
  fromPos : ℕ
  toPos : ℕ
  deriving DecidableEq

/-- The field `kind` of `QueryToken`. -/
inductive TokenKind where
  | word | identifier | string | number | symbol | comment
  deriving DecidableEq

/-- `QueryToken` -/
structure QueryToken where
  kind : TokenKind
  text : JsText
  fromPos : ℕ
  toPos : ℕ
  deriving DecidableEq

/-- `[A-Z]` -/
def isUpper (c : ℕ) : Bool := 65 ≤ c && c ≤ 90

/-- `[a-z]` -/
def isLower (c : ℕ) : Bool := 97 ≤ c && c ≤ 122

/-- `[a-zA-Z_]` -/
def isWordStart (c : ℕ) : Bool := isUpper c || isLower c || c = 95

/-- `[a-zA-Z0-9_.-]` -/
def isWordPart (c : ℕ) : Bool := isWordStart c || isDigit c || c = 46 || c = 45

/-- `--` up to the end of the line. -/
def lineCommentSize (text : JsText) : ℕ :=
  if 10 ∈ text then text.idxOf 10 + 1 else text.length

/-- Where `*/` is first found. -/
def findClose : JsText → Option ℕ
  | [] => none
  | c :: rest =>
    if c = 42 ∧ rest.head? = some 47 then some 0 else (findClose rest).map (· + 1)

/-- A quoted text behind its first quote. -/
structure Quoted where
  value : JsText
  size : ℕ
  closed : Bool

/-- The loop over a quoted text; a doubled quote stands for one. -/
def scanQuoted (quote : ℕ) : JsText → Quoted
  | [] => ⟨[], 0, false⟩
  | [c] => if c = quote then ⟨[], 1, true⟩ else ⟨[c], 1, false⟩
  | c :: d :: rest =>
    if c = quote then
      if d = quote then
        let q := scanQuoted quote rest
        ⟨quote :: q.value, q.size + 2, q.closed⟩
      else ⟨[], 1, true⟩
    else
      let q := scanQuoted quote (d :: rest)
      ⟨c :: q.value, q.size + 1, q.closed⟩

/-- `/^[a-zA-Z_][a-zA-Z0-9_.-]*/` -/
def wordSize (text : JsText) : Option ℕ :=
  if text.head?.any isWordStart then some (1 + (text.tail.takeWhile isWordPart).length) else none

/-- `/^(?:>=|<=|!=|<>|[*,;=<>])/` -/
def symbolSize (text : JsText) : Option ℕ :=
  if text.take 2 ∈ [js ">=", js "<=", js "!=", js "<>"] then some 2
  else if text.head?.any fun c => c ∈ js "*,;=<>" then some 1
  else none

/-- What one round of the scanner reads. -/
inductive Lexeme where
  | space
  | token (kind : TokenKind) (text : JsText) (size : ℕ)

/-- How far the scanner moves. -/
def Lexeme.size : Lexeme → ℕ
  | .space => 1
  | .token _ _ size => size

/-- One round, at the code unit `c` with `rest` behind it. -/
def scan (tolerant : Bool) (i c : ℕ) (rest : JsText) : Except QueryTextError Lexeme :=
  let text := c :: rest
  if isSpace c then .ok .space
  else if c = 45 ∧ rest.head? = some 45 then
    .ok (.token .comment (text.take (lineCommentSize text)) (lineCommentSize text))
  else if c = 47 ∧ rest.head? = some 42 then
    match findClose rest.tail with
    | some n => .ok (.token .comment (text.take (n + 4)) (n + 4))
    | none =>
      if tolerant then .ok (.token .comment text text.length)
      else .error ⟨js "Close the comment with */.", i, i + text.length⟩
  else if c = 39 ∨ c = 34 then
    let q := scanQuoted c rest
    if !q.closed && !tolerant then
      .error ⟨js "Close the " ++ (if c = 39 then js "string" else js "identifier") ++ js " with " ++
        [c] ++ js ".", i, i + 1 + q.size⟩
    else .ok (.token (if c = 39 then .string else .identifier) q.value (1 + q.size))
  else
    match numberSize text with
    | some n => .ok (.token .number (text.take n) n)
    | none =>
      match wordSize text with
      | some n => .ok (.token .word (text.take n) n)
      | none =>
        match symbolSize text with
        | some n => .ok (.token .symbol (text.take n) n)
        | none =>
          if tolerant then .ok (.token .symbol [c] 1)
          else .error ⟨js "Unexpected character " ++ quoteJson [c] ++ js ".", i, i + 1⟩

/-- What is pushed for a lexeme that starts at `i`. -/
def Lexeme.tokens (includeComments : Bool) (i : ℕ) : Lexeme → List QueryToken
  | .space => []
  | .token kind text size =>
    if kind = .comment ∧ includeComments = false then [] else [⟨kind, text, i, i + size⟩]

/-- The scanner's loop at `i`. Every round reads something, so that the length of the text is fuel
    enough. -/
def tokenLoop (tolerant includeComments : Bool) : ℕ → ℕ → JsText → Except QueryTextError (List QueryToken)
  | 0, _, _ => .ok []
  | _ + 1, _, [] => .ok []
  | fuel + 1, i, c :: rest => do
    let lexeme ← scan tolerant i c rest
    let tokens ← tokenLoop tolerant includeComments fuel (i + lexeme.size) ((c :: rest).drop lexeme.size)
    return lexeme.tokens includeComments i ++ tokens

/-- `queryTokens` -/
def queryTokens (text : JsText) (tolerant includeComments : Bool) :
    Except QueryTextError (List QueryToken) :=
  tokenLoop tolerant includeComments text.length 0 text

/-! ### Names and values -/

/-- `queryOperators` -/
def queryOperators : QueryOp → JsText
  | .eq => js "="
  | .ne => js "!="
  | .gt => js ">"
  | .gte => js ">="
  | .lt => js "<"
  | .lte => js "<="
  | .contains => js "CONTAINS"
  | .isNull => js "IS NULL"
  | .isNotNull => js "IS NOT NULL"

/-- `[a-zA-Z0-9_-]` -/
def isSegmentPart (c : ℕ) : Bool := isWordStart c || isDigit c || c = 45

/-- `queryField`: a field of the dataset, or a path into the plugin metadata. -/
def queryField (schema : QuerySchema) (dataset : DatasetSpec) (name : JsText) : Option FieldSpec :=
  match dataset.fields.find? fun f => f.name = name with
  | some field => some field
  | none =>
    let plugin := schema.pluginMetadata
    if dataset.name ≠ plugin.dataset ∨ ¬plugin.fieldPrefix.isPrefixOf name then none
    else
      let parts := (name.drop plugin.fieldPrefix.length).splitOn 46
      if plugin.maxSegments < parts.length ∨ parts.any fun p =>
          p = [] || decide (plugin.maxSegmentBytes < p.length) || !p.all isSegmentPart then none
      else some ⟨name, some plugin.filterKind, plugin.operators⟩

/-- `RFC3339`, up to the seconds: a `d` stands for a digit. -/
def matchesShape (shape : JsText) (text : JsText) : Bool :=
  decide (shape.length = text.length) && (shape.zip text).all fun p =>
    if p.1 = 100 then isDigit p.2 else decide (p.1 = p.2)

/-- `(?:Z|[+-]\d\d:\d\d)$`, where case does not matter. -/
def isZone (text : JsText) : Bool :=
  text = [90] || text = [122] || matchesShape (js "+dd:dd") text || matchesShape (js "-dd:dd") text

/-- `/^(\d{4})-(\d\d)-(\d\d)T\d\d:\d\d:\d\d(?:\.\d+)?(?:Z|[+-]\d\d:\d\d)$/i` -/
def rfc3339 (text : JsText) : Bool :=
  (matchesShape (js "dddd-dd-ddTdd:dd:dd") (text.take 19) ||
      matchesShape (js "dddd-dd-ddtdd:dd:dd") (text.take 19)) &&
    isZone (text.drop (19 + fractionSize (text.drop 19)))

/-- `Number` of a text of digits. -/
def digitsValue (text : JsText) : ℕ := text.foldl (fun n c => 10 * n + (c - 48)) 0

/-- The days of each month of a year. -/
def daysOfMonth (year : ℕ) : List ℕ :=
  let leap := year % 4 = 0 ∧ (year % 100 ≠ 0 ∨ year % 400 = 0)
  [31, if leap then 29 else 28, 31, 30, 31, 30, 31, 31, 30, 31, 30, 31]

section
variable (lib : JsLib)

/-- `isRfc3339Timestamp`: the shape, then the date. -/
def isRfc3339Timestamp (text : JsText) : Bool :=
  if !rfc3339 text || (lib.dateParse text).isNone || 23 < digitsValue ((text.drop 11).take 2) then false
  else
    let year := digitsValue (text.take 4)
    let month := digitsValue ((text.drop 5).take 2)
    let day := digitsValue ((text.drop 8).take 2)
    1 ≤ month && month ≤ 12 && 1 ≤ day && day ≤ (daysOfMonth year).getD (month - 1) 0

/-- `[0-9a-f]`, where case does not matter. -/
def isHex (c : ℕ) : Bool := isDigit c || (97 ≤ c && c ≤ 102) || (65 ≤ c && c ≤ 70)

/-- `/^[0-9a-f]{8}-[0-9a-f]{4}-[0-9a-f]{4}-[0-9a-f]{4}-[0-9a-f]{12}$/i` -/
def isUuid (text : JsText) : Bool :=
  let parts := text.splitOn 45
  decide (parts.map List.length = [8, 4, 4, 4, 12]) && parts.all fun p => p.all isHex

mutual

/-- `safeJsonNumbers`: every number in a value is finite, and exact if it is whole. -/
def safeJsonNumbers : JsValue lib.Num → Bool
  | .num x => lib.isFinite x && (!lib.isInteger x || lib.isSafeInteger x)
  | .arr items => safeItems items
  | .obj fields => safeFields fields
  | _ => true

/-- `safeJsonNumbers` of every item. -/
def safeItems : List (JsValue lib.Num) → Bool
  | [] => true
  | v :: vs => safeJsonNumbers v && safeItems vs

/-- `safeJsonNumbers` of every member. -/
def safeFields : List (JsText × JsValue lib.Num) → Bool
  | [] => true
  | (_, v) :: es => safeJsonNumbers v && safeFields es

end

/-- `String(value)` -/
def stringOf : JsValue lib.Num → JsText
  | .null => js "null"
  | .bool b => js (toString b)
  | .num x => lib.text x
  | .str s => s
  | v => lib.objectText v

/-- `Number.isSafeInteger(value)` -/
def isSafeNumber : JsValue lib.Num → Bool
  | .num x => lib.isSafeInteger x
  | _ => false

/-- `typeof value === 'boolean'` -/
def isBoolean : JsValue lib.Num → Bool
  | .bool _ => true
  | _ => false

/-- `typeof value === 'string'` -/
def isString : JsValue lib.Num → Bool
  | .str _ => true
  | _ => false

/-- The kinds whose values are JSON. -/
def FilterKind.isJson : Option FilterKind → Bool
  | some .json | some .jsonPath => true
  | _ => false

/-- The size of a value, in the text that counts for its kind. -/
def valueSize (kind : Option FilterKind) (value : JsValue lib.Num) : ℕ :=
  byteLength (if FilterKind.isJson kind then stringify lib.toJsNumbers value else stringOf lib value)

/-- The checks of a value, in their order: the message of the first that fails. -/
def valueError (limits : Limits) (name : JsText) (kind : Option FilterKind) (value : JsValue lib.Num) :
    Option JsText :=
  if kind = some .int ∧ !isSafeNumber lib value then some (name ++ js " needs a safe integer.")
  else if kind = some .bool ∧ !isBoolean lib value then some (name ++ js " needs TRUE or FALSE.")
  else if kind ∈ [some .text, some .textArray, some .uuid, some .timestamp] ∧ !isString lib value then
    some (name ++ js " needs a single-quoted string.")
  else if kind = some .uuid ∧ !isUuid (stringOf lib value) then some (name ++ js " needs a UUID.")
  else if kind = some .timestamp ∧ !isRfc3339Timestamp lib (stringOf lib value) then
    some (name ++
      js " needs an RFC3339 timestamp with a timezone, e.g. '2026-09-22T00:00:00+08:00'.")
  else if (if FilterKind.isJson kind then limits.maxJsonValueBytes else limits.maxStringValueBytes) <
      valueSize lib kind value then
    some (js "Filter value exceeds the allowed size.")
  else none

/-! ### The parser -/

/-- A function of the parser: it reads tokens or fails. -/
abbrev Reader (α : Type) := Parser QueryToken QueryTextError α

/-- `toUpperCase()`, of ASCII letters. -/
def upper (text : JsText) : JsText := text.map fun c => if isLower c then c - 32 else c

/-- `toLowerCase()`, of ASCII letters. -/
def lower (text : JsText) : JsText := text.map fun c => if isUpper c then c + 32 else c

/-- `peek()` -/
def peek : Reader (Option QueryToken) := fun ts => .ok (ts.head?, ts)

/-- `index++` -/
def advance : Reader Unit := fun ts => .ok ((), ts.tail)

/-- `fail(message, token)`; `size` is the length of the text. -/
def fail {α : Type} (size : ℕ) (message : JsText) (token : Option QueryToken) : Reader α := fun _ =>
  .error ⟨message, (token.map QueryToken.fromPos).getD size, (token.map QueryToken.toPos).getD size⟩

/-- `fail(message)` -/
def failHere {α : Type} (size : ℕ) (message : JsText) : Reader α := do
  let token ← peek
  fail size message token

/-- Reads the next token when it passes. -/
def accept (test : QueryToken → Bool) : Reader Bool := do
  let token ← peek
  if token.any test then do
    advance
    return true
  else return false

/-- `keyword` -/
def keyword (word : JsText) : Reader Bool := accept fun t => t.kind = .word && upper t.text = word

/-- `symbol` -/
def symbol (value : JsText) : Reader Bool := accept fun t => t.kind = .symbol && t.text = value

variable (size : ℕ)

/-- `expect` -/
def expect (word : JsText) : Reader Unit := do
  let found ← keyword word
  if found then return ()
  else failHere size (js "Expected " ++ word ++ js ".")

/-- `identifier`: a word in lower case, or a quoted name as it is. -/
def identifier : Reader QueryToken := do
  let token ← peek
  match token with
  | none => failHere size (js "Expected a dataset or field name.")
  | some t =>
    if t.kind = .word then do
      advance
      return { t with text := lower t.text }
    else if t.kind = .identifier then do
      advance
      return t
    else failHere size (js "Expected a dataset or field name.")

variable (schema : QuerySchema)

/-- `requireField` -/
def requireField (dataset : DatasetSpec) (token : QueryToken) : Reader FieldSpec :=
  match queryField schema dataset token.text with
  | some field => return field
  | none =>
    fail size (js "Unknown field \"" ++ token.text ++ js "\" in " ++ dataset.name ++ js ".") (some token)

/-- What follows `JSON`. -/
def jsonLiteral : Reader (JsValue lib.Num) := do
  let value ← peek
  match value with
  | none => failHere size (js "Write JSON followed by a single-quoted JSON value.")
  | some t =>
    if t.kind ≠ .string then failHere size (js "Write JSON followed by a single-quoted JSON value.")
    else do
      advance
      match lib.jsonParse t.text with
      | none => fail size (js "Invalid JSON literal.") (some t)
      | some .null =>
        fail size (js "Standalone JSON null is not supported. Use IS NULL or IS NOT NULL.") (some t)
      | some parsed =>
        if safeJsonNumbers lib parsed then return parsed
        else
          fail size (js "JSON numbers must be finite and integers must be within the safe integer range.")
            (some t)

/-- A literal that is one token. -/
def tokenLiteral (token : QueryToken) : Reader (JsValue lib.Num) :=
  if token.kind = .string then do
    advance
    return .str token.text
  else if token.kind = .number then do
    advance
    let value := lib.ofText token.text
    if !lib.isFinite value then fail size (js "Enter a finite number.") (some token)
    else if lib.isInteger value && !lib.isSafeInteger value then
      fail size (js "Number exceeds the safe integer range.") (some token)
    else return .num value
  else fail size
    (js "Quote text with single quotes. Use IS NULL / IS NOT NULL for missing values.") (some token)

/-- `literal` -/
def literal : Reader (JsValue lib.Num) := do
  let token ← peek
  match token with
  | none => failHere size (js "Expected a quoted string, number, TRUE, FALSE, or JSON literal.")
  | some token => do
    let json ← keyword (js "JSON")
    if json then jsonLiteral lib size
    else do
      let yes ← keyword (js "TRUE")
      if yes then return .bool true
      else do
        let no ← keyword (js "FALSE")
        if no then return .bool false
        else tokenLiteral lib size token

/-- The table `operators`. -/
def symbolOperators : List (JsText × QueryOp) :=
  [(js "=", .eq), (js "!=", .ne), (js "<>", .ne), (js ">", .gt), (js ">=", .gte), (js "<", .lt),
    (js "<=", .lte)]

/-- The operator that a token stands for. -/
def symbolOperator (token : QueryToken) : Option QueryOp :=
  if token.kind = .symbol then symbolOperators.lookup token.text else none

/-- The operator of a filter. -/
def operator : Reader QueryOp := do
  let is ← keyword (js "IS")
  if is then do
    let not ← keyword (js "NOT")
    expect size (js "NULL")
    return if not then .isNotNull else .isNull
  else do
    let contains ← keyword (js "CONTAINS")
    if contains then return .contains
    else do
      let token ← peek
      match token.bind symbolOperator with
      | none => failHere size (js "Expected =, !=, >, >=, <, <=, CONTAINS, or IS [NOT] NULL.")
      | some op => do
        advance
        return op

/-- A filter, after `WHERE` or `AND`. -/
def filter (dataset : DatasetSpec) : Reader (QueryFilter lib.Num) := do
  let name ← identifier size
  let field ← requireField size schema dataset name
  let op ← operator size
  if op ∉ field.operators then
    fail size (queryOperators op ++ js " is not supported for " ++ field.name ++ js ".") (some name)
  else if op = .isNull ∨ op = .isNotNull then return ⟨name.text, op, none⟩
  else do
    let token ← peek
    let value ← literal lib size
    match valueError lib schema.limits name.text field.filterKind value with
    | some message => fail size message token
    | none => return ⟨name.text, op, some value⟩

/-- The filters of a query, after `WHERE`. -/
def filters (dataset : DatasetSpec) : Reader (List (QueryFilter lib.Num)) := do
  let found ← keyword (js "WHERE")
  if found then Parser.repeatWhile (filter lib size schema dataset) (keyword (js "AND"))
  else return []

/-- A sort key; without a direction it is ascending. -/
def orderItem (dataset : DatasetSpec) : Reader QueryOrder := do
  let name ← identifier size
  let _ ← requireField size schema dataset name
  let desc ← keyword (js "DESC")
  if desc then return ⟨name.text, some .desc⟩
  else do
    let _ ← keyword (js "ASC")
    return ⟨name.text, some .asc⟩

/-- The sort keys of a query, after `ORDER BY`. -/
def order (dataset : DatasetSpec) : Reader (List QueryOrder) := do
  let found ← keyword (js "ORDER")
  if found then do
    expect size (js "BY")
    Parser.repeatWhile (orderItem size schema dataset) (symbol (js ","))
  else return []

/-- The limit of a query, after `LIMIT`; without one it is 100. -/
def limit : Reader lib.Num := do
  let found ← keyword (js "LIMIT")
  if found then do
    let token ← peek
    match token with
    | none => failHere size (js "LIMIT needs an integer.")
    | some t =>
      if t.kind ≠ .number then failHere size (js "LIMIT needs an integer.")
      else do
        advance
        let limit := lib.ofText t.text
        if lib.isSafeInteger limit && (lib.whole limit).any fun n : ℤ => 1 ≤ n && n ≤ schema.limits.maxLimit
        then return limit
        else
          fail size (js "LIMIT must be between 1 and " ++ decimal schema.limits.maxLimit ++ js ".") (some t)
  else return lib.ofText (js "100")

/-- `[...new Set(xs)]` -/
def distinct (xs : List JsText) : List JsText :=
  xs.foldl (fun seen x => if x ∈ seen then seen else seen ++ [x]) []

/-- The selected names, or `*`. -/
def selection : Reader (Bool × List QueryToken) := do
  let all ← symbol (js "*")
  if all then return (true, [])
  else do
    let selected ← Parser.repeatWhile (identifier size) (symbol (js ","))
    return (false, selected)

/-- `selected.forEach(requireField)` -/
def requireFields (dataset : DatasetSpec) : List QueryToken → Reader Unit
  | [] => return ()
  | token :: tokens => do
    let _ ← requireField size schema dataset token
    requireFields dataset tokens

/-- What follows the name of the dataset. -/
def clauses (dataset : DatasetSpec) (fields : List JsText) :
    Reader (StructuredQueryRequest lib.Num) := do
  let filters ← filters lib size schema dataset
  if schema.limits.maxFilters < filters.length then
    failHere size (js "Use at most " ++ decimal schema.limits.maxFilters ++ js " filters.")
  else do
    let order ← order size schema dataset
    if schema.limits.maxOrderBy < order.length then
      failHere size (js "Use at most " ++ decimal schema.limits.maxOrderBy ++ js " sort keys.")
    else do
      let limit ← limit lib size schema
      let _ ← symbol (js ";")
      let token ← peek
      if token.isSome then
        failHere size (js ("Use one SELECT query with AND filters, ORDER BY and LIMIT. " ++
          "Joins, OR, expressions and multiple statements are not supported."))
      else return {
        dataset := dataset.name
        fields := some fields
        filters := some filters
        orderBy := some (if order = [] then dataset.defaultOrder else order)
        limit := some limit }

/-- `parseQueryText` behind the scanner. -/
def query : Reader (StructuredQueryRequest lib.Num) := do
  expect size (js "SELECT")
  let selected ← selection size
  expect size (js "FROM")
  let source ← identifier size
  match schema.datasets.find? fun d => d.name = source.text with
  | none =>
    fail size (js "Unknown dataset \"" ++ source.text ++ js "\". Choose " ++
      (js ", ").intercalate (schema.datasets.map DatasetSpec.name) ++ js ".") (some source)
  | some dataset => do
    requireFields size schema dataset selected.2
    let fields := distinct (if selected.1 then dataset.fields.map FieldSpec.name
      else selected.2.map QueryToken.text)
    if schema.limits.maxFields < fields.length then
      fail size (js "Select at most " ++ decimal schema.limits.maxFields ++ js " fields.") (some source)
    else clauses lib size schema dataset fields

/-- `parseQueryText` -/
def parseQueryText (text : JsText) : Except QueryTextError (StructuredQueryRequest lib.Num) := do
  let tokens ← queryTokens text false false
  let result ← query lib text.length schema tokens
  return result.1

end

/-! ### The printer -/

/-- `'…'` -/
def quote (value : JsText) : JsText := 39 :: (value.flatMap fun c => if c = 39 then [39, 39] else [c]) ++ [39]

/-- `/^[a-z_][a-z0-9_]*$/` -/
def isPlainName (value : JsText) : Bool :=
  value.head?.any (fun c => isLower c || c = 95) &&
    value.tail.all fun c => isLower c || isDigit c || c = 95

/-- `name`: the plain name, or the name in quotes. -/
def name (value : JsText) : JsText :=
  if isPlainName value then value
  else 34 :: (value.flatMap fun c => if c = 34 then [34, 34] else [c]) ++ [34]

/-- Why `formatQueryText` throws. -/
inductive FormatError where
  | chooseDataset
  /-- `JSON.stringify(undefined)` is no string. -/
  | undefinedValue

section
variable (lib : JsLib)

/-- A value, as `formatQueryText` writes it. -/
def literalText : JsValue lib.Num → JsText
  | .str s => quote s
  | .bool b => if b then js "TRUE" else js "FALSE"
  | .num x => lib.text x
  | v => js "JSON " ++ quote (stringify lib.toJsNumbers v)

/-- A filter, as `formatQueryText` writes it. -/
def filterText (f : QueryFilter lib.Num) : Except FormatError JsText :=
  if f.op = .isNull ∨ f.op = .isNotNull then .ok (name f.field ++ js " " ++ queryOperators f.op)
  else
    match f.value with
    | none => .error .undefinedValue
    | some v => .ok (name f.field ++ js " " ++ queryOperators f.op ++ js " " ++ literalText lib v)

/-- `direction.toUpperCase()` -/
def SortDirection.upperText : SortDirection → JsText
  | .asc => js "ASC"
  | .desc => js "DESC"

/-- A sort key, as `formatQueryText` writes it. -/
def orderText (o : QueryOrder) : JsText :=
  name o.field ++ js " " ++ SortDirection.upperText (o.direction.getD .desc)

/-- The limit, as `formatQueryText` writes it. -/
def limitText (limit : Option lib.Num) : JsText :=
  match limit with
  | some x => lib.text x
  | none => js "100"

/-- `formatQueryText` -/
def formatQueryText (schema : QuerySchema) (request : StructuredQueryRequest lib.Num) :
    Except FormatError JsText := do
  match schema.datasets.find? fun d => d.name = request.dataset with
  | none => .error .chooseDataset
  | some dataset =>
    let fields := request.fields.getD dataset.defaultFields
    let filters ← (request.filters.getD []).mapM (filterText lib)
    let order := if request.orderBy.getD [] = [] then dataset.defaultOrder else request.orderBy.getD []
    let lines := [js "SELECT " ++ (js ", ").intercalate (fields.map name),
        js "FROM " ++ name request.dataset] ++
      (if filters = [] then [] else [js "WHERE " ++ (js "\n  AND ").intercalate filters]) ++
      (if order = [] then [] else [js "ORDER BY " ++ (js ", ").intercalate (order.map orderText)]) ++
      [js "LIMIT " ++ limitText lib request.limit ++ js ";"]
    return (js "\n").intercalate lines

end
end Llmtrace.QueryText
