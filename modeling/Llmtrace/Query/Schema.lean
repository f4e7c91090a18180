import Llmtrace.Schemes.Json
import Llmtrace.Schemes.Text

/-! The structured queries of `storage/query.rs`: datasets, their fields, and which names a query may
    use. `structured_query_schema` publishes these tables, and the query editor checks against them. -/

namespace Llmtrace.Query
open Schemes

/-- `MAX_STRUCTURED_QUERY_FIELDS` -/
def maxStructuredQueryFields : ℕ := 64

/-- `MAX_STRUCTURED_QUERY_FILTERS` -/
def maxStructuredQueryFilters : ℕ := 32

/-- `MAX_STRUCTURED_QUERY_ORDER_BY` -/
def maxStructuredQueryOrderBy : ℕ := 8

/-- `MAX_STRUCTURED_QUERY_STRING_VALUE_BYTES` -/
def maxStructuredQueryStringValueBytes : ℕ := 4 * 1024

/-- `MAX_STRUCTURED_QUERY_JSON_VALUE_BYTES` -/
def maxStructuredQueryJsonValueBytes : ℕ := 16 * 1024

/-- `MAX_PLUGIN_METADATA_PATH_SEGMENTS` -/
def maxPluginMetadataPathSegments : ℕ := 16

/-- `MAX_PLUGIN_METADATA_PATH_SEGMENT_LEN` -/
def maxPluginMetadataPathSegmentLen : ℕ := 64

/-- `PLUGIN_METADATA_FIELD_PREFIX` -/
def pluginMetadataFieldPrefix : String := "plugin_metadata."

/-- `QueryOp` -/
inductive QueryOp where
  | eq | ne | contains | gt | gte | lt | lte | isNull | isNotNull
  deriving DecidableEq

/-- The variant's name, as `Debug` writes it. -/
def QueryOp.debug : QueryOp → String
  | .eq => "Eq"
  | .ne => "Ne"
  | .contains => "Contains"
  | .gt => "Gt"
  | .gte => "Gte"
  | .lt => "Lt"
  | .lte => "Lte"
  | .isNull => "IsNull"
  | .isNotNull => "IsNotNull"

/-- `SortDirection` -/
inductive SortDirection where
  | asc | desc
  deriving DecidableEq

/-- `FilterKind` -/
inductive FilterKind where
  | text | int | bool | timestamp | uuid | json | jsonPath | textArray
  deriving DecidableEq

/-- The operators that the schema announces for a kind. -/
def FilterKind.operators : FilterKind → List QueryOp
  | .text => [.eq, .ne, .contains, .gt, .gte, .lt, .lte, .isNull, .isNotNull]
  | .int | .timestamp | .uuid => [.eq, .ne, .gt, .gte, .lt, .lte, .isNull, .isNotNull]
  | .bool => [.eq, .ne, .isNull, .isNotNull]
  | .json | .jsonPath => [.eq, .ne, .contains, .isNull, .isNotNull]
  | .textArray => [.contains, .isNull, .isNotNull]

/-- `FieldSpec` -/
structure FieldSpec where
  name : String
  filter : Option FilterKind
  deriving DecidableEq

/-- `DefaultOrder` -/
structure DefaultOrder where
  field : String
  direction : SortDirection
  deriving DecidableEq

/-- `DatasetSpec` -/
structure DatasetSpec where
  name : String
  relation : String
  fields : List FieldSpec
  defaultFields : List String
  defaultOrder : List DefaultOrder
  deriving DecidableEq

/-- `REQUEST_FIELDS` -/
def requestFields : List FieldSpec := [
  ⟨"ttfb_ms", some .int⟩,
  ⟨"input_tokens", some .int⟩,
  ⟨"output_tokens", some .int⟩,
  ⟨"cached_input_tokens", some .int⟩,
  ⟨"cache_creation_input_tokens", some .int⟩,
  ⟨"estimated_cost_microusd", some .int⟩,
  ⟨"tool_call_count", some .int⟩,
  ⟨"usage_complete", some .bool⟩,
  ⟨"id", some .uuid⟩,
  ⟨"started_at", some .timestamp⟩,
  ⟨"completed_at", some .timestamp⟩,
  ⟨"method", some .text⟩,
  ⟨"original_uri", some .text⟩,
  ⟨"upstream_url", some .text⟩,
  ⟨"upstream_host", some .text⟩,
  ⟨"status", some .int⟩,
  ⟨"error", some .text⟩,
  ⟨"request_kind", some .text⟩,
  ⟨"model", some .text⟩,
  ⟨"api_key_hash", some .text⟩,
  ⟨"session_key", some .text⟩,
  ⟨"session_id", some .uuid⟩,
  ⟨"ttft_ms", some .int⟩,
  ⟨"duration_ms", some .int⟩,
  ⟨"bytes_in", some .int⟩,
  ⟨"bytes_out", some .int⟩,
  ⟨"request_headers", some .json⟩,
  ⟨"response_headers", some .json⟩,
  ⟨"request_body_bytes", some .int⟩,
  ⟨"response_body_bytes", some .int⟩,
  ⟨"request_body_truncated", some .bool⟩,
  ⟨"response_body_truncated", some .bool⟩,
  ⟨"content_type", some .text⟩,
  ⟨"plugin_metadata", some .json⟩,
  ⟨"tags", some .textArray⟩]

/-- `SESSION_FIELDS` -/
def sessionFields : List FieldSpec := [
  ⟨"id", some .uuid⟩,
  ⟨"session_key", some .text⟩,
  ⟨"first_seen", some .timestamp⟩,
  ⟨"last_seen", some .timestamp⟩,
  ⟨"user_id", some .text⟩,
  ⟨"user_name", some .text⟩,
  ⟨"summary", some .json⟩]

/-- `MESSAGE_FIELDS` -/
def messageFields : List FieldSpec := [
  ⟨"id", some .int⟩,
  ⟨"request_id", some .uuid⟩,
  ⟨"session_id", some .uuid⟩,
  ⟨"role", some .text⟩,
  ⟨"content", some .text⟩,
  ⟨"content_truncated", some .bool⟩,
  ⟨"created_at", some .timestamp⟩]

/-- `ROLLUP_FIELDS` -/
def rollupFields : List FieldSpec := [
  ⟨"bucket", some .timestamp⟩,
  ⟨"last_seen", some .timestamp⟩,
  ⟨"total", some .int⟩,
  ⟨"errors", some .int⟩,
  ⟨"captured_bytes", some .int⟩,
  ⟨"duration_count", some .int⟩,
  ⟨"duration_sum_ms", some .int⟩,
  ⟨"ttft_count", some .int⟩,
  ⟨"ttft_sum_ms", some .int⟩]

/-- `DATASETS` -/
def datasets : List DatasetSpec := [
  { name := "requests"
    relation := "trace_requests"
    fields := requestFields
    defaultFields := ["id", "started_at", "method", "original_uri", "upstream_host", "status",
      "request_kind", "model", "duration_ms", "bytes_in", "bytes_out", "tags"]
    defaultOrder := [⟨"started_at", .desc⟩] },
  { name := "sessions"
    relation := "trace_sessions"
    fields := sessionFields
    defaultFields := ["id", "session_key", "first_seen", "last_seen", "user_id", "user_name"]
    defaultOrder := [⟨"last_seen", .desc⟩] },
  { name := "messages"
    relation := "trace_messages"
    fields := messageFields
    defaultFields := ["id", "request_id", "session_id", "role", "content", "created_at"]
    defaultOrder := [⟨"created_at", .desc⟩] },
  { name := "rollups_minute"
    relation := "trace_rollups_minute"
    fields := rollupFields
    defaultFields := ["bucket", "last_seen", "total", "errors", "captured_bytes", "duration_count",
      "duration_sum_ms", "ttft_count", "ttft_sum_ms"]
    defaultOrder := [⟨"bucket", .desc⟩] }]

/-! ### Names -/

/-- `QueryField`: a column, or a path into the plugin metadata. -/
inductive QueryField where
  | column (field : FieldSpec)
  | pluginMetadataPath (name : String) (path : List String)
  deriving DecidableEq

/-- `QueryField::name` -/
def QueryField.name : QueryField → String
  | .column field => field.name
  | .pluginMetadataPath name _ => name

/-- `QueryField::filter` -/
def QueryField.filter : QueryField → Option FilterKind
  | .column field => field.filter
  | .pluginMetadataPath _ _ => some .jsonPath

/-- Why a query is refused. -/
inductive QueryError where
  | unknownDataset (name : String)
  | fieldsEmpty | fieldsTooMany | noneSelected
  | orderTooMany | filtersTooMany
  | fieldNotAllowed (name dataset : String)
  | pathEmpty | pathTooLong
  | pathSegment (segment : String)
  | notFilterable (field : String)
  | valueRequired (field : String)
  | unsupported (op : QueryOp) (kind field : String)
  | notComparison (op : QueryOp)
  | stringRequired (field : String) | stringTooLong (field : String)
  | jsonTooLong (field : String)
  | integerRequired (field : String) | booleanRequired (field : String)
  | timestampRequired (field : String) | uuidRequired (field : String)
  /-- `unreachable!()` -/
  | panicked
  deriving DecidableEq

/-- The texts of the errors; `debugText` is how Rust prints a text with its quotes. -/
def QueryError.message (debugText : String → String) : QueryError → Option String
  | .unknownDataset name => some s!"unknown query dataset {name}"
  | .fieldsEmpty => some "fields must not be empty"
  | .fieldsTooMany => some s!"fields must contain at most {maxStructuredQueryFields} entries"
  | .noneSelected => some "at least one field must be selected"
  | .orderTooMany => some s!"order_by must contain at most {maxStructuredQueryOrderBy} entries"
  | .filtersTooMany => some s!"filters must contain at most {maxStructuredQueryFilters} entries"
  | .fieldNotAllowed name dataset => some s!"field {name} is not allowed for dataset {dataset}"
  | .pathEmpty => some "plugin_metadata path must not be empty"
  | .pathTooLong =>
    some s!"plugin_metadata path must have at most {maxPluginMetadataPathSegments} segments"
  | .pathSegment segment => some ("plugin_metadata path segment " ++ debugText segment ++
      " must contain only ASCII letters, digits, '_' or '-'")
  | .notFilterable field => some s!"field {field} cannot be filtered"
  | .valueRequired field => some s!"filter {field} requires a value"
  | .unsupported op kind field =>
    some s!"operator {op.debug} is not supported for {kind} field {field}"
  | .notComparison op => some s!"operator {op.debug} is not a scalar comparison"
  | .stringRequired field => some s!"field {field} requires a string value"
  | .stringTooLong field =>
    some s!"field {field} string value must be at most {maxStructuredQueryStringValueBytes} bytes"
  | .jsonTooLong field =>
    some s!"field {field} JSON value must be at most {maxStructuredQueryJsonValueBytes} bytes"
  | .integerRequired field => some s!"field {field} requires an integer value"
  | .booleanRequired field => some s!"field {field} requires a boolean value"
  | .timestampRequired field => some s!"field {field} requires an RFC3339 timestamp"
  | .uuidRequired field => some s!"field {field} requires a UUID value"
  | .panicked => none

/-- `dataset_spec` -/
def datasetSpec (name : String) : Except QueryError DatasetSpec :=
  match datasets.find? fun dataset => dataset.name = name with
  | some dataset => .ok dataset
  | none => .error (.unknownDataset name)

/-- `field_spec` -/
def fieldSpec (dataset : DatasetSpec) (name : String) : Except QueryError FieldSpec :=
  match dataset.fields.find? fun field => field.name = name with
  | some field => .ok field
  | none => .error (.fieldNotAllowed name dataset.name)

/-- The characters of a path segment. -/
def segmentChar (c : Char) : Bool := c.isAlphanum || c = '_' || c = '-'

/-- The source looks at bytes: those of a character beyond ASCII are not alphanumeric. -/
def validPluginMetadataPathSegment (segment : List Char) : Bool :=
  !segment.isEmpty && decide (utf8Len segment ≤ maxPluginMetadataPathSegmentLen) &&
    segment.all segmentChar

/-- `plugin_metadata_path`: nothing for a name without the prefix. -/
def pluginMetadataPath (name : String) : Except QueryError (Option (List String)) :=
  if pluginMetadataFieldPrefix.toList.isPrefixOf name.toList then
    let path := name.toList.drop pluginMetadataFieldPrefix.toList.length
    if path = [] then .error .pathEmpty
    else
      let segments := path.splitOn '.'
      if maxPluginMetadataPathSegments < segments.length then .error .pathTooLong
      else
        match segments.find? fun segment => !validPluginMetadataPathSegment segment with
        | some segment => .error (.pathSegment (String.ofList segment))
        | none => .ok (some (segments.map String.ofList))
  else .ok none

/-- `query_field`: a column first, then a path where the dataset has plugin metadata. -/
def queryField (dataset : DatasetSpec) (name : String) : Except QueryError QueryField :=
  match fieldSpec dataset name with
  | .ok field => .ok (.column field)
  | .error _ =>
    if dataset.name = "requests" then do
      match ← pluginMetadataPath name with
      | some path => .ok (.pluginMetadataPath name path)
      | none => .error (.fieldNotAllowed name dataset.name)
    else .error (.fieldNotAllowed name dataset.name)

/-! ### Queries -/

/-- `QueryFilter` -/
structure QueryFilter where
  field : String
  op : QueryOp
  value : Option Json

/-- `QueryOrder` -/
structure QueryOrder where
  field : String
  direction : SortDirection := .desc
  deriving DecidableEq

/-- `StructuredQuery` -/
structure StructuredQuery where
  dataset : String
  fields : Option (List String)
  filters : List QueryFilter := []
  orderBy : List QueryOrder := []
  limit : Option ℤ

/-- The loop of `selected_fields`: a name that is selected already is skipped. -/
def selectFields (dataset : DatasetSpec) : List String → List QueryField → Except QueryError (List QueryField)
  | [], selected => .ok selected
  | name :: names, selected => do
    let field ← queryField dataset name
    if selected.any fun f => f.name = field.name then selectFields dataset names selected
    else selectFields dataset names (selected ++ [field])

/-- The first `match` of `selected_fields`. -/
def selectedNames (dataset : DatasetSpec) : Option (List String) → Except QueryError (List String)
  | some [] => .error .fieldsEmpty
  | some fields =>
    if maxStructuredQueryFields < fields.length then .error .fieldsTooMany else .ok fields
  | none => .ok dataset.defaultFields

/-- `selected_fields` -/
def selectedFields (dataset : DatasetSpec) (requested : Option (List String)) :
    Except QueryError (List QueryField) := do
  let names ← selectedNames dataset requested
  let selected ← selectFields dataset names []
  if selected = [] then .error .noneSelected else .ok selected

/-- `selected_order`: the order of the dataset where none is asked for. -/
def selectedOrder (dataset : DatasetSpec) (requested : List QueryOrder) :
    Except QueryError (List (QueryField × SortDirection)) :=
  if maxStructuredQueryOrderBy < requested.length then .error .orderTooMany
  else if requested = [] then
    dataset.defaultOrder.mapM fun order => return (← queryField dataset order.field, order.direction)
  else requested.mapM fun order => return (← queryField dataset order.field, order.direction)

/-- `validate_structured_query_filters` -/
def validateStructuredQueryFilters (filters : List QueryFilter) : Except QueryError Unit :=
  if maxStructuredQueryFilters < filters.length then .error .filtersTooMany else .ok ()

end Llmtrace.Query
