import Llmtrace.Schemes.Run
import Llmtrace.Query.Schema

/-! The SQL of a structured query: `run_structured_query` and the append functions of
    `storage/query.rs`. A `QueryBuilder` of `sqlx` has the text and the arguments; `push_bind` adds an
    argument and writes its number, `$1`, `$2` and so on, into the text.

    What the builder writes is described by a template, a list of pieces in which a bound value is
    only a `?`. The template of a filter is a function of its field, its operator and whether its
    value is null. -/

namespace Llmtrace.Query
open Schemes

/-! ### The builder -/

/-- An argument that is bound to a statement. -/
inductive Bound where
  | texts (values : List String)
  | text (value : String)
  | int (value : ℤ)
  | bool (value : Bool)
  | timestamp (value : ℤ)
  | uuid (value : ℕ)
  | json (value : Json)

/-- `QueryBuilder` of sqlx: the text and its arguments. -/
structure QueryBuilder where
  sql : String
  arguments : List Bound := []

namespace QueryBuilder

/-- `push` -/
def push (b : QueryBuilder) (text : String) : QueryBuilder := { b with sql := b.sql ++ text }

/-- `push_bind` -/
def pushBind (b : QueryBuilder) (value : Bound) : QueryBuilder :=
  { sql := b.sql ++ s!"${b.arguments.length + 1}", arguments := b.arguments ++ [value] }

end QueryBuilder

/-- What other crates decide about a text: `DateTime::parse_from_rfc3339` in UTC and
    `Uuid::parse_str`. -/
structure ValueLib where
  parseRfc3339 : String → Option ℤ
  parseUuid : String → Option ℕ

/-- `QueryField::append_sql` -/
def QueryField.appendSql (field : QueryField) (b : QueryBuilder) : QueryBuilder :=
  match field with
  | .column field => b.push field.name
  | .pluginMetadataPath _ path => ((b.push "(plugin_metadata #> ").pushBind (.texts path)).push ")"

/-- `append_identifier` -/
def appendIdentifier (b : QueryBuilder) (name : String) : QueryBuilder :=
  ((b.push "\"").push name).push "\""

/-! ### Values -/

/-- `value_as_string` -/
def valueAsString (field : String) (value : Json) : Except QueryError String :=
  match value.asStr with
  | none => .error (.stringRequired field)
  | some text =>
    if maxStructuredQueryStringValueBytes < utf8Len text.toList then .error (.stringTooLong field)
    else .ok text

/-- `validate_json_filter_value_size` -/
def validateJsonFilterValueSize (field : String) (value : Json) : Except QueryError Unit :=
  if maxStructuredQueryJsonValueBytes < utf8Len value.write then .error (.jsonTooLong field)
  else .ok ()

/-- `value_as_i64` -/
def valueAsI64 (field : String) (value : Json) : Except QueryError ℤ :=
  match value.asI64 with
  | none => .error (.integerRequired field)
  | some n => .ok n

/-- `value_as_bool` -/
def valueAsBool (field : String) (value : Json) : Except QueryError Bool :=
  match value.asBool with
  | none => .error (.booleanRequired field)
  | some b => .ok b

/-- `value_as_timestamp` -/
def valueAsTimestamp (lib : ValueLib) (field : String) (value : Json) : Except QueryError ℤ := do
  let text ← valueAsString field value
  match lib.parseRfc3339 text with
  | none => .error (.timestampRequired field)
  | some t => .ok t

/-- `value_as_uuid` -/
def valueAsUuid (lib : ValueLib) (field : String) (value : Json) : Except QueryError ℕ := do
  let text ← valueAsString field value
  match lib.parseUuid text with
  | none => .error (.uuidRequired field)
  | some id => .ok id

/-- `escape_like` -/
def escapeLike (value : String) : String :=
  let escape (c : Char) (s : List Char) := s.flatMap fun x => if x = c then ['\\', c] else [x]
  String.ofList (escape '_' (escape '%' (escape '\\' value.toList)))

/-! ### Filters -/

/-- `comparison_operator` -/
def comparisonOperator : QueryOp → Except QueryError String
  | .eq => .ok " = "
  | .ne => .ok " <> "
  | .gt => .ok " > "
  | .gte => .ok " >= "
  | .lt => .ok " < "
  | .lte => .ok " <= "
  | op => .error (.notComparison op)

/-- The field, the operator and the value, in this order: what most kinds append. -/
def appendComparison (b : QueryBuilder) (field : QueryField) (op : QueryOp) (value : Bound) :
    Except QueryError QueryBuilder := do
  let operator ← comparisonOperator op
  return ((field.appendSql b).push operator).pushBind value

/-- `append_null_filter` -/
def appendNullFilter (b : QueryBuilder) (field : QueryField) (isNull : Bool) : QueryBuilder :=
  match field with
  | .pluginMetadataPath _ _ =>
    let b := field.appendSql (b.push "(")
    let b := b.push (if isNull then " IS NULL OR " else " IS NOT NULL AND ")
    let b := field.appendSql b
    let b := b.push (if isNull then " = 'null'::jsonb" else " <> 'null'::jsonb")
    b.push ")"
  | .column _ => (field.appendSql b).push (if isNull then " IS NULL" else " IS NOT NULL")

/-- `append_text_filter` -/
def appendTextFilter (b : QueryBuilder) (field : QueryField) (op : QueryOp) (value : Json) :
    Except QueryError QueryBuilder := do
  let value ← valueAsString field.name value
  match op with
  | .eq | .ne | .gt | .gte | .lt | .lte => appendComparison b field op (.text value)
  | .contains =>
    let b := (field.appendSql b).push " ILIKE "
    return (b.pushBind (.text ("%" ++ escapeLike value ++ "%"))).push " ESCAPE '\\'"
  | .isNull | .isNotNull => .error .panicked

/-- `append_int_filter` -/
def appendIntFilter (b : QueryBuilder) (field : QueryField) (op : QueryOp) (value : Json) :
    Except QueryError QueryBuilder := do
  let value ← valueAsI64 field.name value
  appendComparison b field op (.int value)

/-- `append_bool_filter` -/
def appendBoolFilter (b : QueryBuilder) (field : QueryField) (op : QueryOp) (value : Json) :
    Except QueryError QueryBuilder := do
  let value ← valueAsBool field.name value
  match op with
  | .eq | .ne => appendComparison b field op (.bool value)
  | op => .error (.unsupported op "boolean" field.name)

/-- `append_timestamp_filter` -/
def appendTimestampFilter (lib : ValueLib) (b : QueryBuilder) (field : QueryField) (op : QueryOp)
    (value : Json) : Except QueryError QueryBuilder := do
  let value ← valueAsTimestamp lib field.name value
  appendComparison b field op (.timestamp value)

/-- `append_uuid_filter` -/
def appendUuidFilter (lib : ValueLib) (b : QueryBuilder) (field : QueryField) (op : QueryOp)
    (value : Json) : Except QueryError QueryBuilder := do
  let value ← valueAsUuid lib field.name value
  match op with
  | .eq | .ne | .gt | .gte | .lt | .lte => appendComparison b field op (.uuid value)
  | op => .error (.unsupported op "uuid" field.name)

/-- `append_json_filter` -/
def appendJsonFilter (b : QueryBuilder) (field : QueryField) (op : QueryOp) (value : Json) :
    Except QueryError QueryBuilder := do
  validateJsonFilterValueSize field.name value
  match op with
  | .eq | .ne => appendComparison b field op (.json value)
  | .contains => return ((field.appendSql b).push " @> ").pushBind (.json value)
  | op => .error (.unsupported op "json" field.name)

/-- `append_text_array_filter` -/
def appendTextArrayFilter (b : QueryBuilder) (field : QueryField) (op : QueryOp) (value : Json) :
    Except QueryError QueryBuilder := do
  let value ← valueAsString field.name value
  match op with
  | .contains => return (field.appendSql ((b.pushBind (.text value)).push " = ANY(")).push ")"
  | op => .error (.unsupported op "text array" field.name)

/-- The last `match` of `append_filter`. -/
def appendKindFilter (lib : ValueLib) (b : QueryBuilder) (field : QueryField) (op : QueryOp)
    (value : Json) : FilterKind → Except QueryError QueryBuilder
  | .text => appendTextFilter b field op value
  | .int => appendIntFilter b field op value
  | .bool => appendBoolFilter b field op value
  | .timestamp => appendTimestampFilter lib b field op value
  | .uuid => appendUuidFilter lib b field op value
  | .json | .jsonPath => appendJsonFilter b field op value
  | .textArray => appendTextArrayFilter b field op value

/-- Is the value there, and null? -/
def QueryFilter.nullValue (filter : QueryFilter) : Bool := filter.value.any Json.isNull

/-- `append_filter`: the checks that all kinds share, then the filter of the kind. -/
def appendFilter (lib : ValueLib) (dataset : DatasetSpec) (b : QueryBuilder) (filter : QueryFilter) :
    Except QueryError QueryBuilder := do
  let field ← queryField dataset filter.field
  match field.filter with
  | none => .error (.notFilterable filter.field)
  | some kind =>
    if filter.op = .isNull then return appendNullFilter b field true
    else if filter.op = .isNotNull then return appendNullFilter b field false
    else if (filter.op = .eq ∨ filter.op = .ne) ∧ filter.nullValue then
      return appendNullFilter b field (filter.op = .eq)
    else
      match filter.value with
      | none => .error (.valueRequired filter.field)
      | some value => appendKindFilter lib b field filter.op value kind

/-! ### The query -/

/-- A loop that writes a separator before every item but the first. -/
def appendSeparated {α : Type} (separator : String)
    (append : QueryBuilder → α → Except QueryError QueryBuilder) :
    ℕ → List α → QueryBuilder → Except QueryError QueryBuilder
  | _, [], b => .ok b
  | index, x :: xs, b => do
    let b ← append (if 0 < index then b.push separator else b) x
    appendSeparated separator append (index + 1) xs b

/-- A selected field with its alias. -/
def appendSelected (b : QueryBuilder) (field : QueryField) : QueryBuilder :=
  appendIdentifier ((field.appendSql b).push " AS ") field.name

/-- A sort key. -/
def appendOrder (b : QueryBuilder) (order : QueryField × SortDirection) : QueryBuilder :=
  (order.1.appendSql b).push (match order.2 with
    | .asc => " ASC"
    | .desc => " DESC")

/-- The `WHERE` of `run_structured_query`. -/
def appendWhere (lib : ValueLib) (dataset : DatasetSpec) (filters : List QueryFilter)
    (b : QueryBuilder) : Except QueryError QueryBuilder :=
  if filters = [] then .ok b
  else appendSeparated " AND " (appendFilter lib dataset) 0 filters (b.push " WHERE ")

/-- The `ORDER BY` of `run_structured_query`. -/
def appendOrderBy (orderBy : List (QueryField × SortDirection)) (b : QueryBuilder) :
    Except QueryError QueryBuilder :=
  if orderBy = [] then .ok b
  else appendSeparated ", " (fun b order => .ok (appendOrder b order)) 0 orderBy (b.push " ORDER BY ")

/-- `run_structured_query` up to the query it sends: the statement with its arguments. -/
def buildStructuredQuery (lib : ValueLib) (request : StructuredQuery) :
    Except QueryError QueryBuilder := do
  let dataset ← datasetSpec request.dataset
  let selected ← selectedFields dataset request.fields
  let orderBy ← selectedOrder dataset request.orderBy
  validateStructuredQueryFilters request.filters
  let limit := max 1 (min (request.limit.getD 100) 500)
  let b : QueryBuilder :=
    { sql := "SELECT COALESCE(jsonb_agg(to_jsonb(q)), '[]'::jsonb) AS rows FROM (SELECT " }
  let b ← appendSeparated ", " (fun b field => .ok (appendSelected b field)) 0 selected b
  let b ← appendWhere lib dataset request.filters ((b.push " FROM ").push dataset.relation)
  let b ← appendOrderBy orderBy b
  return ((b.push " LIMIT ").pushBind (.int limit)).push ") q"

/-! ### Templates -/

/-- A part of a statement: a fixed text, a name, or a placeholder. -/
inductive Piece where
  | fixed (text : String)
  | column (name : String)
  | relation (name : String)
  | identifier (name : String)
  | bind
  deriving DecidableEq

/-- The text of a piece after `n` arguments. -/
def Piece.text (n : ℕ) : Piece → String
  | .fixed text => text
  | .column name => name
  | .relation name => name
  | .identifier name => "\"" ++ name ++ "\""
  | .bind => s!"${n + 1}"

/-- The arguments that a piece takes. -/
def Piece.binds : Piece → ℕ
  | .bind => 1
  | _ => 0

/-- The text of the pieces after `n` arguments. -/
def render : ℕ → List Piece → String
  | _, [] => ""
  | n, p :: ps => p.text n ++ render (n + p.binds) ps

/-- The arguments that the pieces take. -/
def bindCount (ps : List Piece) : ℕ := (ps.map Piece.binds).sum

/-- What `append_sql` writes. -/
def fieldPieces : QueryField → List Piece
  | .column field => [.column field.name]
  | .pluginMetadataPath _ _ => [.fixed "(plugin_metadata #> ", .bind, .fixed ")"]

/-- What `appendSelected` writes. -/
def selectedPieces (field : QueryField) : List Piece :=
  fieldPieces field ++ [.fixed " AS ", .identifier field.name]

/-- What `appendOrder` writes. -/
def orderPieces (order : QueryField × SortDirection) : List Piece :=
  fieldPieces order.1 ++ [.fixed (match order.2 with
    | .asc => " ASC"
    | .desc => " DESC")]

/-- What `append_null_filter` writes. -/
def nullPieces (field : QueryField) (isNull : Bool) : List Piece :=
  match field with
  | .pluginMetadataPath _ _ =>
    [.fixed "("] ++ fieldPieces field ++
      [.fixed (if isNull then " IS NULL OR " else " IS NOT NULL AND ")] ++ fieldPieces field ++
      [.fixed (if isNull then " = 'null'::jsonb" else " <> 'null'::jsonb"), .fixed ")"]
  | .column _ => fieldPieces field ++ [.fixed (if isNull then " IS NULL" else " IS NOT NULL")]

/-- What `comparison_operator` returns, where it does. -/
def operatorText : QueryOp → String
  | .eq => " = "
  | .ne => " <> "
  | .gt => " > "
  | .gte => " >= "
  | .lt => " < "
  | _ => " <= "

/-- What the filter of a kind writes for a value. -/
def valuePieces (field : QueryField) (op : QueryOp) : FilterKind → List Piece
  | .textArray => [.bind, .fixed " = ANY("] ++ fieldPieces field ++ [.fixed ")"]
  | .text =>
    if op = .contains then fieldPieces field ++ [.fixed " ILIKE ", .bind, .fixed " ESCAPE '\\'"]
    else fieldPieces field ++ [.fixed (operatorText op), .bind]
  | .json | .jsonPath =>
    if op = .contains then fieldPieces field ++ [.fixed " @> ", .bind]
    else fieldPieces field ++ [.fixed (operatorText op), .bind]
  | _ => fieldPieces field ++ [.fixed (operatorText op), .bind]

/-- A filter, by its field, its operator and whether its value is null. -/
def filterPieces (field : QueryField) (op : QueryOp) (null : Bool) : List Piece :=
  if op = .isNull then nullPieces field true
  else if op = .isNotNull then nullPieces field false
  else if (op = .eq ∨ op = .ne) ∧ null then nullPieces field (op = .eq)
  else valuePieces field op (field.filter.getD .text)

/-- What `append_filter` writes, whatever the value. -/
def filterTemplate (dataset : DatasetSpec) (filter : QueryFilter) : List Piece :=
  match queryField dataset filter.field with
  | .ok field => filterPieces field filter.op filter.nullValue
  | .error _ => []

/-- Lists of pieces with a separator between them. -/
def separatedPieces (separator : String) : ℕ → List (List Piece) → List Piece
  | _, [] => []
  | index, ps :: rest =>
    (if 0 < index then [.fixed separator] else []) ++ ps ++ separatedPieces separator (index + 1) rest

/-- What `buildStructuredQuery` writes. -/
def queryTemplate (dataset : DatasetSpec) (selected : List QueryField) (filters : List (List Piece))
    (orderBy : List (QueryField × SortDirection)) : List Piece :=
  [.fixed "SELECT COALESCE(jsonb_agg(to_jsonb(q)), '[]'::jsonb) AS rows FROM (SELECT "] ++
    separatedPieces ", " 0 (selected.map selectedPieces) ++
    [.fixed " FROM ", .relation dataset.relation] ++
    (if filters = [] then [] else [.fixed " WHERE "] ++ separatedPieces " AND " 0 filters) ++
    (if orderBy = [] then []
      else [.fixed " ORDER BY "] ++ separatedPieces ", " 0 (orderBy.map orderPieces)) ++
    [.fixed " LIMIT ", .bind, .fixed ") q"]

/-! ### What the builder writes -/

theorem bindCount_append (ps qs : List Piece) : bindCount (ps ++ qs) = bindCount ps + bindCount qs := by
  rw [bindCount, List.map_append, List.sum_append]
  rfl

theorem render_append (qs : List Piece) : ∀ (n : ℕ) (ps : List Piece),
    render n (ps ++ qs) = render n ps ++ render (n + bindCount ps) qs
  | n, [] => by simp [render, bindCount]
  | n, p :: ps => by
    have hcount : bindCount (p :: ps) = p.binds + bindCount ps := List.sum_cons
    rw [List.cons_append, render, render, render_append qs, String.append_assoc, hcount, Nat.add_assoc]

/-- From `b` to `b'`, exactly these pieces were written. -/
def Writes (b b' : QueryBuilder) (ps : List Piece) : Prop :=
  b'.sql = b.sql ++ render b.arguments.length ps ∧
    b'.arguments.length = b.arguments.length + bindCount ps

section
variable {b b' b'' : QueryBuilder} {ps qs : List Piece}

theorem Writes.refl (b : QueryBuilder) : Writes b b [] := ⟨by simp [render], rfl⟩

theorem Writes.trans (h : Writes b b' ps) (h' : Writes b' b'' qs) : Writes b b'' (ps ++ qs) := by
  obtain ⟨hsql, hlen⟩ := h
  obtain ⟨hsql', hlen'⟩ := h'
  refine ⟨?_, ?_⟩
  · rw [hsql', hsql, hlen, render_append, String.append_assoc]
  · rw [hlen', hlen, bindCount_append, Nat.add_assoc]

theorem Writes.push (h : Writes b b' ps) (text : String) {p : Piece} (hp : ∀ n, p.text n = text)
    (hb : p.binds = 0) : Writes b (b'.push text) (ps ++ [p]) := by
  refine h.trans ⟨?_, ?_⟩
  · rw [render, render, hp, String.append_empty]
    rfl
  · simp [bindCount, hb, QueryBuilder.push]

theorem Writes.fixed (h : Writes b b' ps) (text : String) :
    Writes b (b'.push text) (ps ++ [.fixed text]) :=
  h.push text (fun _ => rfl) rfl

theorem Writes.bind (h : Writes b b' ps) (value : Bound) :
    Writes b (b'.pushBind value) (ps ++ [.bind]) := by
  refine h.trans ⟨?_, ?_⟩
  · rw [render, render, String.append_empty]
    rfl
  · simp [bindCount, Piece.binds, QueryBuilder.pushBind]

theorem Writes.field (h : Writes b b' ps) (field : QueryField) :
    Writes b (field.appendSql b') (ps ++ fieldPieces field) := by
  cases field with
  | column field => exact h.push field.name (fun _ => rfl) rfl
  | pluginMetadataPath name path =>
    have := ((h.fixed "(plugin_metadata #> ").bind (.texts path)).fixed ")"
    simpa [fieldPieces, QueryField.appendSql, List.append_assoc] using this

theorem writes_selected (b : QueryBuilder) (field : QueryField) :
    Writes b (appendSelected b field) (selectedPieces field) := by
  have h := ((Writes.refl b).field field).fixed " AS "
  have hquote : Writes ((field.appendSql b).push " AS ") (appendSelected b field)
      [.identifier field.name] := by
    refine ⟨?_, rfl⟩
    simp only [appendSelected, appendIdentifier, QueryBuilder.push, render, Piece.text,
      String.append_assoc, String.append_empty]
  simpa [selectedPieces, List.append_assoc] using h.trans hquote

theorem writes_order (b : QueryBuilder) (order : QueryField × SortDirection) :
    Writes b (appendOrder b order) (orderPieces order) := by
  have h := (Writes.refl b).field order.1
  rw [List.nil_append] at h
  exact h.fixed _

theorem writes_null (b : QueryBuilder) (field : QueryField) (isNull : Bool) :
    Writes b (appendNullFilter b field isNull) (nullPieces field isNull) := by
  cases field with
  | column field =>
    have h := (Writes.refl b).field (.column field)
    exact h.fixed _
  | pluginMetadataPath name path =>
    have h := (((Writes.refl b).fixed "(").field (.pluginMetadataPath name path)).fixed
      (if isNull then " IS NULL OR " else " IS NOT NULL AND ")
    have h' := ((h.field (.pluginMetadataPath name path)).fixed
      (if isNull then " = 'null'::jsonb" else " <> 'null'::jsonb")).fixed ")"
    simpa [nullPieces, appendNullFilter, List.append_assoc] using h'

theorem writes_comparison {field : QueryField} {op : QueryOp} {value : Bound}
    (h : appendComparison b field op value = .ok b') :
    Writes b b' (fieldPieces field ++ [.fixed (operatorText op), .bind]) := by
  have hop : comparisonOperator op = .ok (operatorText op) ∧
      b' = ((field.appendSql b).push (operatorText op)).pushBind value := by
    cases op <;> cases h <;> exact ⟨rfl, rfl⟩
  obtain ⟨-, rfl⟩ := hop
  have h := (((Writes.refl b).field field).fixed (operatorText op)).bind value
  simpa [List.append_assoc] using h

/-- Whatever the kind, an accepted value writes the pieces of that kind. -/
theorem writes_kind {lib : ValueLib} {field : QueryField} {op : QueryOp} {value : Json}
    {kind : FilterKind} (h : appendKindFilter lib b field op value kind = .ok b') :
    Writes b b' (valuePieces field op kind) := by
  have hfield := (Writes.refl b).field field
  rw [List.nil_append] at hfield
  cases kind with
  | text =>
    simp only [appendKindFilter, appendTextFilter, bind_eq_ok] at h
    obtain ⟨v, -, h⟩ := h
    cases op with
    | contains =>
      cases h
      simpa [valuePieces, List.append_assoc] using ((hfield.fixed " ILIKE ").bind _).fixed " ESCAPE '\\'"
    | isNull => cases h
    | isNotNull => cases h
    | _ => exact writes_comparison h
  | int =>
    simp only [appendKindFilter, appendIntFilter, bind_eq_ok] at h
    obtain ⟨v, -, h⟩ := h
    exact writes_comparison h
  | bool =>
    simp only [appendKindFilter, appendBoolFilter, bind_eq_ok] at h
    obtain ⟨v, -, h⟩ := h
    cases op with
    | eq => exact writes_comparison h
    | ne => exact writes_comparison h
    | _ => cases h
  | timestamp =>
    simp only [appendKindFilter, appendTimestampFilter, bind_eq_ok] at h
    obtain ⟨v, -, h⟩ := h
    exact writes_comparison h
  | uuid =>
    simp only [appendKindFilter, appendUuidFilter, bind_eq_ok] at h
    obtain ⟨v, -, h⟩ := h
    cases op with
    | contains => cases h
    | isNull => cases h
    | isNotNull => cases h
    | _ => exact writes_comparison h
  | json | jsonPath =>
    simp only [appendKindFilter, appendJsonFilter, bind_eq_ok] at h
    obtain ⟨v, -, h⟩ := h
    cases op with
    | contains =>
      cases h
      simpa [valuePieces, List.append_assoc] using (hfield.fixed " @> ").bind _
    | eq => exact writes_comparison h
    | ne => exact writes_comparison h
    | _ => cases h
  | textArray =>
    simp only [appendKindFilter, appendTextArrayFilter, bind_eq_ok] at h
    obtain ⟨v, -, h⟩ := h
    cases op with
    | contains =>
      cases h
      have := ((((Writes.refl b).bind (.text v)).fixed " = ANY(").field field).fixed ")"
      simpa [valuePieces, List.append_assoc] using this
    | _ => cases h

theorem writes_filter {lib : ValueLib} {dataset : DatasetSpec} {filter : QueryFilter}
    (h : appendFilter lib dataset b filter = .ok b') : Writes b b' (filterTemplate dataset filter) := by
  simp only [appendFilter, bind_eq_ok] at h
  obtain ⟨field, hfield, h⟩ := h
  simp only [filterTemplate, hfield]
  split at h
  · cases h
  rename_i kind hkind
  unfold filterPieces
  split_ifs at h ⊢ with h1 h2 h3
  · cases h
    exact writes_null b field true
  · cases h
    exact writes_null b field false
  · cases h
    exact writes_null b field _
  · split at h
    · cases h
    rw [hkind, Option.getD_some]
    exact writes_kind h

theorem writes_separated {α : Type} {separator : String}
    {append : QueryBuilder → α → Except QueryError QueryBuilder} {pieces : α → List Piece}
    (happend : ∀ b b' x, append b x = .ok b' → Writes b b' (pieces x)) :
    ∀ {xs : List α} {index : ℕ} {b b' : QueryBuilder},
      appendSeparated separator append index xs b = .ok b' →
      Writes b b' (separatedPieces separator index (xs.map pieces))
  | [], _, b, b', h => by
    cases h
    exact .refl b
  | x :: xs, index, b, b', h => by
    simp only [appendSeparated, bind_eq_ok] at h
    obtain ⟨c, hc, h⟩ := h
    rw [List.map_cons, separatedPieces]
    refine Writes.trans (Writes.trans ?_ (happend _ _ _ hc)) (writes_separated happend h)
    split
    · exact (Writes.refl b).fixed separator
    · exact .refl b

end

theorem datasetSpec_ok {name : String} {dataset : DatasetSpec} (h : datasetSpec name = .ok dataset) :
    dataset ∈ datasets ∧ dataset.name = name := by
  unfold datasetSpec at h
  split at h
  · rename_i d hd
    cases h
    exact ⟨List.mem_of_find?_eq_some hd, by simpa using List.find?_some hd⟩
  · cases h

/-- An accepted query is its template, and the template is made without looking at a value. -/
theorem build_renders {lib : ValueLib} {request : StructuredQuery} {b : QueryBuilder}
    (h : buildStructuredQuery lib request = .ok b) : ∃ dataset selected orderBy,
      datasetSpec request.dataset = .ok dataset ∧
      selectedFields dataset request.fields = .ok selected ∧
      selectedOrder dataset request.orderBy = .ok orderBy ∧
      Writes ⟨"", []⟩ b (queryTemplate dataset selected
        (request.filters.map (filterTemplate dataset)) orderBy) := by
  simp only [buildStructuredQuery, bind_eq_ok] at h
  obtain ⟨dataset, hdataset, selected, hselected, orderBy, horder, -, -, b₁, h₁, b₂, h₂, b₃, h₃, h⟩ := h
  cases h
  refine ⟨dataset, selected, orderBy, hdataset, hselected, horder, ?_⟩
  have hstart : Writes ⟨"", []⟩
      { sql := "SELECT COALESCE(jsonb_agg(to_jsonb(q)), '[]'::jsonb) AS rows FROM (SELECT " }
      [.fixed "SELECT COALESCE(jsonb_agg(to_jsonb(q)), '[]'::jsonb) AS rows FROM (SELECT "] :=
    ⟨by simp [render, Piece.text], rfl⟩
  have hselect := hstart.trans (writes_separated (fun b b' x h => by cases h; exact writes_selected b x) h₁)
  have hfrom := (hselect.fixed " FROM ").push dataset.relation
    (show ∀ n, (Piece.relation dataset.relation).text n = _ from fun _ => rfl) rfl
  have hwhere : Writes ((b₁.push " FROM ").push dataset.relation) b₂
      (if request.filters.map (filterTemplate dataset) = [] then []
        else [.fixed " WHERE "] ++
          separatedPieces " AND " 0 (request.filters.map (filterTemplate dataset))) := by
    simp only [List.map_eq_nil_iff]
    unfold appendWhere at h₂
    split_ifs at h₂ ⊢
    · cases h₂
      exact .refl _
    · exact ((Writes.refl _).fixed " WHERE ").trans (writes_separated (fun _ _ _ h => writes_filter h) h₂)
  have horderBy : Writes b₂ b₃ (if orderBy = [] then []
      else [.fixed " ORDER BY "] ++ separatedPieces ", " 0 (orderBy.map orderPieces)) := by
    unfold appendOrderBy at h₃
    split_ifs at h₃ ⊢
    · cases h₃
      exact .refl _
    · exact ((Writes.refl _).fixed " ORDER BY ").trans
        (writes_separated (fun b b' x h => by cases h; exact writes_order b x) h₃)
  have hlimit := ((((hfrom.trans hwhere).trans horderBy).fixed " LIMIT ").bind
    (.int (max 1 (min (request.limit.getD 100) 500)))).fixed ") q"
  simpa only [queryTemplate, List.append_assoc, List.cons_append, List.nil_append] using hlimit

/-! ### What a template may hold -/

/-- The literal texts of the source. -/
def fragments : List String := [
  "SELECT COALESCE(jsonb_agg(to_jsonb(q)), '[]'::jsonb) AS rows FROM (SELECT ", ", ", " AS ",
  " FROM ", " WHERE ", " AND ", " ORDER BY ", " ASC", " DESC", " LIMIT ", ") q",
  "(plugin_metadata #> ", ")", "(", " IS NULL OR ", " IS NOT NULL AND ", " = 'null'::jsonb",
  " <> 'null'::jsonb", " IS NULL", " IS NOT NULL", " = ", " <> ", " > ", " >= ", " < ", " <= ",
  " ILIKE ", " ESCAPE '\\'", " @> ", " = ANY("]

/-- The characters of the names that can be selected. -/
def identifierChar (c : Char) : Bool := c.isAlphanum || c = '_' || c = '-' || c = '.'

/-- The piece is one of the code's own, or a name of the dataset. -/
def Piece.Allowed (dataset : DatasetSpec) : Piece → Prop
  | .fixed text => text ∈ fragments
  | .column name => name ∈ dataset.fields.map FieldSpec.name
  | .relation name => name = dataset.relation
  | .identifier name => name.toList.all identifierChar
  | .bind => True

theorem fieldSpec_ok {dataset : DatasetSpec} {name : String} {field : FieldSpec}
    (h : fieldSpec dataset name = .ok field) : field ∈ dataset.fields ∧ field.name = name := by
  unfold fieldSpec at h
  split at h
  · rename_i f hf
    cases h
    exact ⟨List.mem_of_find?_eq_some hf, by simpa using List.find?_some hf⟩
  · cases h

/-- An accepted path: the prefix, and segments of allowed characters between dots. -/
theorem pluginMetadataPath_some {name : String} {path : List String}
    (h : pluginMetadataPath name = .ok (some path)) :
    ∃ rest, name.toList = pluginMetadataFieldPrefix.toList ++ rest ∧
      (rest.splitOn '.').length ≤ maxPluginMetadataPathSegments ∧
      ∀ segment ∈ rest.splitOn '.', validPluginMetadataPathSegment segment = true := by
  unfold pluginMetadataPath at h
  split at h
  · rename_i hpre
    obtain ⟨rest, hrest⟩ := List.isPrefixOf_iff_prefix.mp hpre
    simp only [← hrest, List.drop_left] at h
    split_ifs at h with h1 h2
    split at h
    · cases h
    rename_i hall
    refine ⟨rest, hrest.symm, Nat.le_of_not_lt h2, ?_⟩
    intro segment hsegment
    have := List.find?_eq_none.mp hall segment hsegment
    simpa using this
  · cases h

theorem queryField_ok {dataset : DatasetSpec} {name : String} {field : QueryField}
    (h : queryField dataset name = .ok field) :
    (∃ spec ∈ dataset.fields, field = .column spec ∧ spec.name = name) ∨
      ∃ path, dataset.name = "requests" ∧ field = .pluginMetadataPath name path ∧
        pluginMetadataPath name = .ok (some path) := by
  unfold queryField at h
  split at h
  · rename_i spec hspec
    cases h
    obtain ⟨hmem, hname⟩ := fieldSpec_ok hspec
    exact .inl ⟨spec, hmem, rfl, hname⟩
  · split_ifs at h with hrequests
    simp only [bind_eq_ok] at h
    obtain ⟨path?, hpath, h⟩ := h
    split at h
    · cases h
      exact .inr ⟨_, hrequests, rfl, hpath⟩
    · cases h

theorem fieldNames_safe : ∀ dataset ∈ datasets, ∀ spec ∈ dataset.fields,
    spec.name.toList.all identifierChar := by decide +kernel

theorem pluginName_safe {name : String} {path : List String}
    (h : pluginMetadataPath name = .ok (some path)) : name.toList.all identifierChar := by
  obtain ⟨rest, hname, -, hsegments⟩ := pluginMetadataPath_some h
  rw [List.all_eq_true, hname]
  intro c hc
  rcases List.mem_append.mp hc with hc | hc
  · have hstart : pluginMetadataFieldPrefix.toList.all identifierChar = true := rfl
    exact List.all_eq_true.mp hstart c hc
  · by_cases hdot : c = '.'
    · subst hdot
      rfl
    · obtain ⟨segment, hsegment, hmem⟩ := (mem_splitOn_pieces hdot).mp hc
      have hvalid := hsegments segment hsegment
      simp only [validPluginMetadataPathSegment, Bool.and_eq_true, List.all_eq_true] at hvalid
      have := hvalid.2 c hmem
      simp only [segmentChar, identifierChar, Bool.or_eq_true] at this ⊢
      exact .inl this

/-- Every piece is allowed. -/
def AllAllowed (dataset : DatasetSpec) (ps : List Piece) : Prop := ∀ p ∈ ps, p.Allowed dataset

section
variable {dataset : DatasetSpec} {ps qs : List Piece}

@[simp] theorem allAllowed_nil : AllAllowed dataset [] := fun _ h => by cases h

@[simp] theorem allAllowed_cons {p : Piece} :
    AllAllowed dataset (p :: ps) ↔ p.Allowed dataset ∧ AllAllowed dataset ps := List.forall_mem_cons

@[simp] theorem allAllowed_append :
    AllAllowed dataset (ps ++ qs) ↔ AllAllowed dataset ps ∧ AllAllowed dataset qs :=
  List.forall_mem_append

theorem allowed_fixed {text : String} (h : text ∈ fragments) : (Piece.fixed text).Allowed dataset := h

theorem allowed_bind : Piece.bind.Allowed dataset := trivial

/-- A field that the query named, as `query_field` found it. -/
def Found (dataset : DatasetSpec) (field : QueryField) : Prop :=
  ∃ name, queryField dataset name = .ok field

theorem Found.pieces {field : QueryField} (h : Found dataset field) :
    AllAllowed dataset (fieldPieces field) := by
  obtain ⟨name, h⟩ := h
  obtain ⟨spec, hmem, rfl, -⟩ | ⟨path, -, rfl, -⟩ := queryField_ok h
  · exact allAllowed_cons.mpr ⟨List.mem_map_of_mem hmem, allAllowed_nil⟩
  · simp [fieldPieces, Piece.Allowed, fragments]

theorem Found.name {field : QueryField} (hd : dataset ∈ datasets) (h : Found dataset field) :
    field.name.toList.all identifierChar := by
  obtain ⟨name, h⟩ := h
  obtain ⟨spec, hmem, rfl, -⟩ | ⟨path, -, rfl, hpath⟩ := queryField_ok h
  · exact fieldNames_safe dataset hd spec hmem
  · exact pluginName_safe hpath

theorem Found.selected {field : QueryField} (hd : dataset ∈ datasets) (h : Found dataset field) :
    AllAllowed dataset (selectedPieces field) := by
  simp only [selectedPieces, allAllowed_append, allAllowed_cons, allAllowed_nil, and_true]
  exact ⟨h.pieces, allowed_fixed (by decide), h.name hd⟩

theorem Found.order {order : QueryField × SortDirection} (h : Found dataset order.1) :
    AllAllowed dataset (orderPieces order) := by
  simp only [orderPieces, allAllowed_append, allAllowed_cons, allAllowed_nil, and_true]
  refine ⟨h.pieces, allowed_fixed ?_⟩
  cases order.2 <;> decide

theorem Found.null {field : QueryField} (h : Found dataset field) (isNull : Bool) :
    AllAllowed dataset (nullPieces field isNull) := by
  cases field with
  | column field =>
    simp only [nullPieces, allAllowed_append, allAllowed_cons, allAllowed_nil, and_true]
    exact ⟨h.pieces, allowed_fixed (by cases isNull <;> decide)⟩
  | pluginMetadataPath name path =>
    simp only [nullPieces, allAllowed_append, allAllowed_cons, allAllowed_nil, and_true]
    exact ⟨⟨⟨⟨allowed_fixed (by decide), h.pieces⟩, allowed_fixed (by cases isNull <;> decide)⟩,
      h.pieces⟩, allowed_fixed (by cases isNull <;> decide), allowed_fixed (by decide)⟩

theorem Found.value {field : QueryField} (h : Found dataset field) (op : QueryOp) (kind : FilterKind) :
    AllAllowed dataset (valuePieces field op kind) := by
  have hoperator : operatorText op ∈ fragments := by cases op <;> decide
  have hcompare : AllAllowed dataset (fieldPieces field ++ [.fixed (operatorText op), .bind]) := by
    simp only [allAllowed_append, allAllowed_cons, allAllowed_nil, and_true]
    exact ⟨h.pieces, allowed_fixed hoperator, allowed_bind⟩
  cases kind with
  | textArray =>
    simp only [valuePieces, allAllowed_append, allAllowed_cons, allAllowed_nil, and_true]
    exact ⟨⟨⟨allowed_bind, allowed_fixed (by decide)⟩, h.pieces⟩, allowed_fixed (by decide)⟩
  | text =>
    simp only [valuePieces]
    split
    · simp only [allAllowed_append, allAllowed_cons, allAllowed_nil, and_true]
      exact ⟨h.pieces, allowed_fixed (by decide), allowed_bind, allowed_fixed (by decide)⟩
    · exact hcompare
  | json | jsonPath =>
    simp only [valuePieces]
    split
    · simp only [allAllowed_append, allAllowed_cons, allAllowed_nil, and_true]
      exact ⟨h.pieces, allowed_fixed (by decide), allowed_bind⟩
    · exact hcompare
  | _ => exact hcompare

theorem filterTemplate_allowed (filter : QueryFilter) :
    AllAllowed dataset (filterTemplate dataset filter) := by
  unfold filterTemplate
  split
  · rename_i field hfield
    have hfound : Found dataset field := ⟨_, hfield⟩
    unfold filterPieces
    split_ifs
    · exact hfound.null true
    · exact hfound.null false
    · exact hfound.null _
    · exact hfound.value _ _
  · exact allAllowed_nil

theorem separated_allowed {separator : String} (hs : separator ∈ fragments) :
    ∀ {pieces : List (List Piece)} {index : ℕ}, (∀ ps ∈ pieces, AllAllowed dataset ps) →
      AllAllowed dataset (separatedPieces separator index pieces)
  | [], _, _ => allAllowed_nil
  | ps :: rest, index, h => by
    rw [List.forall_mem_cons] at h
    simp only [separatedPieces, allAllowed_append]
    refine ⟨⟨?_, h.1⟩, separated_allowed hs h.2⟩
    split
    · exact allAllowed_cons.mpr ⟨hs, allAllowed_nil⟩
    · exact allAllowed_nil

theorem selectFields_found : ∀ {names : List String} {selected out : List QueryField},
    selectFields dataset names selected = .ok out → (∀ f ∈ selected, Found dataset f) →
    ∀ f ∈ out, Found dataset f
  | [], selected, out, h, hsel => by
    cases h
    exact hsel
  | name :: names, selected, out, h, hsel => by
    simp only [selectFields, bind_eq_ok] at h
    obtain ⟨field, hfield, h⟩ := h
    split_ifs at h
    · exact selectFields_found h hsel
    · refine selectFields_found h (List.forall_mem_append.mpr ⟨hsel, ?_⟩)
      exact List.forall_mem_singleton.mpr ⟨name, hfield⟩

theorem selectedFields_found {requested : Option (List String)} {selected : List QueryField}
    (h : selectedFields dataset requested = .ok selected) : ∀ f ∈ selected, Found dataset f := by
  simp only [selectedFields, bind_eq_ok] at h
  obtain ⟨names, -, out, hout, h⟩ := h
  split_ifs at h
  cases h
  exact selectFields_found hout (by simp)

theorem mapM_found {α : Type} {name : α → String} {direction : α → SortDirection} :
    ∀ {orders : List α} {out : List (QueryField × SortDirection)},
      (orders.mapM fun order => return (← queryField dataset (name order), direction order)) = .ok out →
      ∀ f ∈ out, Found dataset f.1
  | [], out, h => by
    cases h
    simp
  | order :: orders, out, h => by
    simp only [List.mapM_cons, bind_eq_ok] at h
    obtain ⟨_, ⟨field, hfield, hpair⟩, rest, hrest, h⟩ := h
    cases hpair
    cases h
    exact List.forall_mem_cons.mpr ⟨⟨_, hfield⟩, mapM_found hrest⟩

theorem selectedOrder_found {requested : List QueryOrder} {orderBy : List (QueryField × SortDirection)}
    (h : selectedOrder dataset requested = .ok orderBy) : ∀ f ∈ orderBy, Found dataset f.1 := by
  unfold selectedOrder at h
  split_ifs at h
  · exact mapM_found h
  · exact mapM_found h

theorem queryTemplate_allowed (hd : dataset ∈ datasets) {selected : List QueryField}
    {orderBy : List (QueryField × SortDirection)} (filters : List QueryFilter)
    (hselected : ∀ f ∈ selected, Found dataset f) (horder : ∀ f ∈ orderBy, Found dataset f.1) :
    AllAllowed dataset
      (queryTemplate dataset selected (filters.map (filterTemplate dataset)) orderBy) := by
  have hcolumns : AllAllowed dataset (separatedPieces ", " 0 (selected.map selectedPieces)) :=
    separated_allowed (by decide) (List.forall_mem_map.mpr fun f hf => (hselected f hf).selected hd)
  have hfilters : AllAllowed dataset
      (separatedPieces " AND " 0 (filters.map (filterTemplate dataset))) :=
    separated_allowed (by decide) (List.forall_mem_map.mpr fun f _ => filterTemplate_allowed f)
  have horders : AllAllowed dataset (separatedPieces ", " 0 (orderBy.map orderPieces)) :=
    separated_allowed (by decide) (List.forall_mem_map.mpr fun f hf => (horder f hf).order)
  simp only [queryTemplate, allAllowed_append, allAllowed_cons, allAllowed_nil, and_true]
  refine ⟨⟨⟨⟨⟨allowed_fixed (by decide), hcolumns⟩, allowed_fixed (by decide), rfl⟩, ?_⟩, ?_⟩,
    allowed_fixed (by decide), allowed_bind, allowed_fixed (by decide)⟩
  · split
    · exact allAllowed_nil
    · exact allAllowed_append.mpr ⟨allAllowed_cons.mpr ⟨allowed_fixed (by decide), allAllowed_nil⟩, hfilters⟩
  · split
    · exact allAllowed_nil
    · exact allAllowed_append.mpr ⟨allAllowed_cons.mpr ⟨allowed_fixed (by decide), allAllowed_nil⟩, horders⟩

end

/-! ### The two statements -/

/-- The filters ask the same of the same fields, whatever their values are, as long as the same ones
    are null. -/
def SameShape (f f' : QueryFilter) : Prop :=
  f.field = f'.field ∧ f.op = f'.op ∧ f.nullValue = f'.nullValue

theorem filterTemplates_eq {dataset : DatasetSpec} {filters filters' : List QueryFilter}
    (h : List.Forall₂ SameShape filters filters') :
    filters.map (filterTemplate dataset) = filters'.map (filterTemplate dataset) := by
  induction h with
  | nil => rfl
  | cons hshape _ ih =>
    obtain ⟨hfield, hop, hnull⟩ := hshape
    rw [List.map_cons, List.map_cons, ih]
    simp only [filterTemplate, hfield, hop, hnull]

/-- SAFE: the text of an accepted query is made of the source's literals, the dataset's relation and
    columns, quoted identifiers of letters, digits, `_`, `-` and `.`, and the numbers of the
    parameters; and two accepted queries that differ in values only have one text and as many
    parameters. -/
theorem no_value_in_sql_text (lib : ValueLib) :
    (∀ request b, buildStructuredQuery lib request = .ok b →
      ∃ dataset ∈ datasets, dataset.name = request.dataset ∧ ∃ pieces : List Piece,
        (∀ p ∈ pieces, p.Allowed dataset) ∧ b.sql = render 0 pieces ∧
        b.arguments.length = bindCount pieces) ∧
    ∀ request request' b b', buildStructuredQuery lib request = .ok b →
      buildStructuredQuery lib request' = .ok b' → request.dataset = request'.dataset →
      request.fields = request'.fields → request.orderBy = request'.orderBy →
      List.Forall₂ SameShape request.filters request'.filters →
      b.sql = b'.sql ∧ b.arguments.length = b'.arguments.length := by
  constructor
  · intro request b h
    obtain ⟨dataset, selected, orderBy, hdataset, hselected, horder, hsql, hcount⟩ := build_renders h
    obtain ⟨hmem, hname⟩ := datasetSpec_ok hdataset
    refine ⟨dataset, hmem, hname, _, queryTemplate_allowed hmem request.filters
      (selectedFields_found hselected) (selectedOrder_found horder), ?_, ?_⟩
    · rw [hsql, String.empty_append]
      rfl
    · rw [hcount]
      exact Nat.zero_add _
  · intro request request' b b' h h' hdataset hfields horder hfilters
    obtain ⟨d, s, o, hd, hs, ho, hsql, hcount⟩ := build_renders h
    obtain ⟨d', s', o', hd', hs', ho', hsql', hcount'⟩ := build_renders h'
    rw [← hdataset, hd] at hd'
    cases hd'
    rw [← hfields, hs] at hs'
    cases hs'
    rw [← horder, ho] at ho'
    cases ho'
    rw [hsql, hsql', hcount, hcount', filterTemplates_eq hfilters]
    exact ⟨rfl, rfl⟩

/-- A filter on one plugin field and one on the status, with a value each. -/
def sampleQuery (name : String) (status limit : ℤ) : StructuredQuery where
  dataset := "requests"
  fields := some ["id", "plugin_metadata.user.name"]
  filters := [⟨"plugin_metadata.user.name", .eq, some (.str name)⟩, ⟨"status", .gte, some (.int status)⟩]
  limit := some limit

/-- No field of `sampleQuery` is a time or an id. -/
def sampleValueLib : ValueLib := ⟨fun _ => none, fun _ => none⟩

theorem no_value_in_sql_text_sample : ∃ b b',
    buildStructuredQuery sampleValueLib (sampleQuery "a" 400 10) = .ok b ∧
    buildStructuredQuery sampleValueLib (sampleQuery "'; DROP TABLE request_traces; --" 500 20) = .ok b' ∧
    b.sql = b'.sql ∧ b.arguments.length = b'.arguments.length := by
  refine ⟨_, _, rfl, rfl, ?_⟩
  exact (no_value_in_sql_text sampleValueLib).2 (sampleQuery "a" 400 10)
    (sampleQuery "'; DROP TABLE request_traces; --" 500 20) _ _ rfl rfl rfl rfl rfl
    (.cons ⟨rfl, rfl, rfl⟩ (.cons ⟨rfl, rfl, rfl⟩ .nil))

end Llmtrace.Query
