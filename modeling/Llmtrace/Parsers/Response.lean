import Llmtrace.Schemes.Json
import Llmtrace.Schemes.Text

/-! What is read from a captured response (`parsers/response.rs` and `collect_response_messages` of
    `parsers.rs`): the text, the tool calls and the usage, from one JSON document or from the events
    of a stream. Both ways fill the same maps: tool calls by a key that names their place, and texts by
    a pair of indices; the result lists their values in key order.

    The events of a stream are given as the JSON values that were parsed from them, each with the offset
    at which it ends. -/

namespace Llmtrace.Parsers
open Schemes

/-- `MAX_TOOLS` -/
def maxTools : ℕ := 128

/-- `MAX_TOOL_TEXT_BYTES` -/
def maxToolTextBytes : ℕ := 16 * 1024

/-- `ToolCall` -/
structure ToolCall where
  id : String := ""
  name : String := ""
  arguments : String := ""
  deriving DecidableEq

/-- `TokenUsage` -/
structure TokenUsage where
  inputTokens : Option ℤ := none
  outputTokens : Option ℤ := none
  cachedInputTokens : Option ℤ := none
  cacheCreationInputTokens : Option ℤ := none

/-- `RequestKind` -/
inductive RequestKind where
  | openAiChatCompletions
  | openAiResponses
  | anthropicMessages
  | genericJson
  | genericHttp
  deriving DecidableEq

/-- `ParsedMessage` -/
structure ParsedMessage where
  contentTruncated : Bool
  role : String
  content : String

/-- `ResponseDetails` -/
structure ResponseDetails where
  usage : TokenUsage := {}
  usageComplete : Bool := false
  toolCalls : List ToolCall := []
  toolCallsTruncated : Bool := false
  error : Option String := none
  model : Option String := none
  text : String := ""
  firstOutputOffset : Option ℕ := none
  streamComplete : Option Bool := none

/-! ### Bounded text -/

/-- As much of `value` as fits, and whether something was left out. -/
def appendBounded (target value : String) (truncated : Bool) : String × Bool :=
  let kept := truncateUtf8 value.toList (maxToolTextBytes - utf8Len target.toList)
  (target ++ String.ofList kept, truncated || decide (utf8Len kept < utf8Len value.toList))

/-- `bounded`: a text that replaces another. -/
def bounded (value : String) (truncated : Bool) : String × Bool := appendBounded "" value truncated

/-! ### Messages of a document -/

section
-- `serde_json::to_string`
variable (serialize : Json → String)

/-- A message of the assistant. -/
def assistant (content : String) : ParsedMessage := ⟨false, "assistant", content⟩

/-- `concat()`, or `join("")`. -/
def joinTexts (texts : List String) : String := String.ofList (texts.flatMap String.toList)

/-- `stringify_content` -/
def stringifyContent : Option Json → Option String
  | none => none
  | some .null => none
  | some (.str text) => some text
  | some (.arr items) =>
    if items.any fun item => ((item.get "type").bind Json.asStr) == some "tool_use" ||
        ((item.get "type").bind Json.asStr) == some "tool_result" then
      some (serialize (.arr items))
    else
      let parts := items.filterMap fun item =>
        ((item.get "text").or (item.get "content")).bind Json.asStr
      if parts.isEmpty then some (serialize (.arr items)) else some (joinTexts parts)
  | some other => some (serialize other)

/-- The text of a part of an output item; parts of another type than text have none. -/
def partText (part : Json) : Option String :=
  let kind := (part.get "type").bind Json.asStr
  if kind.any fun k => k != "output_text" && k != "text" then none
  else (part.get "text").bind Json.asStr

/-- A message, unless its content is empty. -/
def nonemptyMessage (content : String) : List ParsedMessage :=
  if content.isEmpty then [] else [assistant content]

/-- `collect_response_messages`: the first format whose field is there. -/
def collectResponseMessages (value : Json) : List ParsedMessage :=
  match (Json.pointer ["choices", "0", "message", "content"] value).bind
      fun content => stringifyContent serialize (some content) with
  | some content => [assistant content]
  | none =>
    match (value.get "output_text").bind Json.asStr with
    | some content => [assistant content]
    | none =>
      match (value.get "output").bind Json.asArray with
      | some items =>
        let parts := (items.filterMap fun item => (item.get "content").bind Json.asArray).flatten
        nonemptyMessage (joinTexts (parts.filterMap partText))
      | none =>
        match (value.get "content").bind Json.asArray with
        | some items =>
          nonemptyMessage (joinTexts (items.filterMap fun item => (item.get "text").bind Json.asStr))
        | none => []

/-! ### The parser -/

/-- The place of a text: output and content index, or block index and zero. -/
abbrev TextKey := ℤ ×ₗ ℤ

/-- The key of a text; keys are in the order of their indices. -/
def textKey (a b : ℤ) : TextKey := toLex (a, b)

/-- `ResponseParser` -/
structure ResponseParser where
  kind : RequestKind
  details : ResponseDetails := {}
  tools : OrdMap String ToolCall := .empty
  texts : OrdMap TextKey String := .empty
  terminal : Bool := false
  finalUsageSeen : Bool := false

/-- `nonnegative` -/
def nonnegative (value : Json) : Option ℤ := value.asI64.filter fun n => 0 ≤ n

/-- `count` -/
def count (value : Json) (key : String) : Option ℤ := (value.get key).bind nonnegative

/-- `update`: a count that is not reported stays. -/
def update (target value : Option ℤ) : Option ℤ := if value.isSome then value else target

/-- The part of `observe` about the usage. -/
def TokenUsage.observe (tokens : TokenUsage) (usage : Json) : TokenUsage where
  inputTokens :=
    update tokens.inputTokens ((count usage "input_tokens").or (count usage "prompt_tokens"))
  outputTokens :=
    update tokens.outputTokens ((count usage "output_tokens").or (count usage "completion_tokens"))
  cachedInputTokens :=
    update tokens.cachedInputTokens (((count usage "cache_read_input_tokens").or
      ((Json.pointer ["input_tokens_details", "cached_tokens"] usage).bind nonnegative)).or
      ((Json.pointer ["prompt_tokens_details", "cached_tokens"] usage).bind nonnegative))
  cacheCreationInputTokens :=
    update tokens.cacheCreationInputTokens (count usage "cache_creation_input_tokens")

/-- The text of an error object. -/
def errorMessage (error : Json) : String :=
  (((error.get "message").bind Json.asStr).or ((error.get "type").bind Json.asStr)).getD
    "upstream reported an error"

/-- Model, error, status and usage. -/
def ResponseDetails.observe (d : ResponseDetails) (value : Json) : ResponseDetails :=
  let d := { d with model := ((value.get "model").bind Json.asStr).or d.model }
  let d := match (value.get "error").filter fun error => !error.isNull with
    | some error => { d with error := some (bounded (errorMessage error) false).1 }
    | none => d
  let d := match (value.get "status").bind Json.asStr with
    | some status =>
      if status = "failed" ∨ status = "incomplete" ∨ status = "cancelled" then
        let text := "upstream response " ++ String.ofList (Json.quote status.toList)
        { d with error := d.error.or (some text) }
      else d
    | none => d
  match (value.get "usage").filter Json.isObject with
  | some usage => { d with usage := d.usage.observe usage }
  | none => d

namespace ResponseParser

/-- `ResponseParser::observe` -/
def observe (p : ResponseParser) (value : Json) : ResponseParser :=
  { p with details := p.details.observe value }

/-- The id that a value brings, in `tool`. -/
def mergeId (tool : ToolCall) (value : Json) (truncated : Bool) : String × Bool :=
  match ((value.get "call_id").or (value.get "id")).bind Json.asStr with
  | some id => bounded id truncated
  | none => (tool.id, truncated)

/-- The name that a value brings, in `tool`. -/
def mergeName (append : Bool) (tool : ToolCall) (function : Json) (truncated : Bool) :
    String × Bool :=
  match (function.get "name").bind Json.asStr with
  | some name => if append then appendBounded tool.name name truncated else bounded name truncated
  | none => (tool.name, truncated)

/-- The arguments that a value brings, in `tool`; `input` is serialized. -/
def mergeArguments (append : Bool) (tool : ToolCall) (function value : Json) (truncated : Bool) :
    String × Bool :=
  match (function.get "arguments").bind Json.asStr with
  | some arguments =>
    if append then appendBounded tool.arguments arguments truncated else bounded arguments truncated
  | none =>
    match (value.get "input").filter fun input => input.asObject.all fun fields => !fields.isEmpty with
    | some input => bounded (serialize input) truncated
    | none => (tool.arguments, truncated)

/-- What a value says about a call: `append` for a fragment of a stream. -/
def mergeTool (append : Bool) (tool : ToolCall) (truncated : Bool) (value : Json) : ToolCall × Bool :=
  let (id, truncated) := mergeId tool value truncated
  let function := (value.get "function").getD value
  let (name, truncated) := mergeName append tool function truncated
  let (arguments, truncated) := mergeArguments serialize append tool function value truncated
  (⟨id, name, arguments⟩, truncated)

/-- `ResponseParser::tool` -/
def tool (p : ResponseParser) (key : String) (value : Json) (append : Bool) : ResponseParser :=
  if (p.tools.get key).isNone && decide (maxTools ≤ p.tools.size) then
    { p with details := { p.details with toolCallsTruncated := true } }
  else
    let (merged, truncated) :=
      mergeTool serialize append ((p.tools.get key).getD {}) p.details.toolCallsTruncated value
    { p with
      tools := p.tools.insert key merged
      details := { p.details with toolCallsTruncated := truncated } }

/-- Keys with the values they belong to, one after the other. -/
def toolAll (p : ResponseParser) (values : List (String × Json)) (append : Bool) : ResponseParser :=
  values.foldl (fun p entry => p.tool serialize entry.1 entry.2 append) p

/-- The key of a call in a chat answer. -/
def chatKey (choice index : ℤ) : String := "chat:" ++ (toString choice ++ (":" ++ toString index))

/-- The key of an output item. -/
def responseKey (index : ℤ) : String := "response:" ++ toString index

/-- The key of a content block. -/
def anthropicKey (index : ℤ) : String := "anthropic:" ++ toString index

/-- The types of content blocks that are calls. -/
def isToolUse (item : Json) : Bool :=
  (item.field "type").asStr == some "tool_use" || (item.field "type").asStr == some "server_tool_use"

/-- The type of output items that are calls. -/
def isFunctionCall (item : Json) : Bool := (item.field "type").asStr == some "function_call"

/-- The tool calls of a chat document, by their places. -/
def chatTools (value : Json) : List (String × Json) :=
  (((value.get "choices").bind Json.asArray).getD []).zipIdx.flatMap fun (choice, c) =>
    (((Json.pointer ["message", "tool_calls"] choice).bind Json.asArray).getD []).zipIdx.map
      fun (tool, i) => (chatKey c i, tool)

/-- The wanted items of a list, by their positions. -/
def indexedItems (key : ℤ → String) (wanted : Json → Bool) (items : Option Json) :
    List (String × Json) :=
  (((items.bind Json.asArray).getD []).zipIdx.filter fun (item, _) => wanted item).map
    fun (item, i) => (key i, item)

/-- `ResponseParser::collect_tools` -/
def collectTools (p : ResponseParser) (value : Json) : ResponseParser :=
  let p := p.toolAll serialize (chatTools value) false
  let p := p.toolAll serialize (indexedItems responseKey isFunctionCall (value.get "output")) false
  p.toolAll serialize (indexedItems anthropicKey isToolUse (value.get "content")) false

/-- `ResponseParser::text_delta` -/
def textDelta (p : ResponseParser) (key : TextKey) (text : Option String) : ResponseParser × Bool :=
  match text with
  | none => (p, false)
  | some text =>
    if text.isEmpty then (p, false)
    else ({ p with texts := p.texts.insert key ((p.texts.get key).getD "" ++ text) }, true)

/-- An index of an event, zero where there is none. -/
def indexOf (value : Json) (key : String) : ℤ := (value.field key).asI64.getD 0

/-- The value that brings nothing but arguments. -/
def argumentsOnly (arguments : String) : Json := .obj [("arguments", .str arguments)]

/-- There is a text, and it is not empty. -/
def hasText (text : Option String) : Bool := text.any fun text => !text.isEmpty

/-- The types of events that are told apart. -/
inductive EventType where
  | messageStart
  | messageStop
  | responseFinal
  | responseCreated
  | outputTextDelta
  | outputTextDone
  | outputItem
  | functionArgumentsDelta
  | contentBlockStart
  | contentBlockDelta
  | other
  deriving DecidableEq

/-- The type that a text names. -/
def EventType.ofText : String → EventType
  | "message_start" => .messageStart
  | "message_stop" => .messageStop
  | "response.completed" | "response.failed" | "response.incomplete" => .responseFinal
  | "response.created" => .responseCreated
  | "response.output_text.delta" => .outputTextDelta
  | "response.output_text.done" => .outputTextDone
  | "response.output_item.added" | "response.output_item.done" => .outputItem
  | "response.function_call_arguments.delta" => .functionArgumentsDelta
  | "content_block_start" => .contentBlockStart
  | "content_block_delta" => .contentBlockDelta
  | _ => .other

/-- The type of an event. -/
def eventType (value : Json) : EventType := .ofText ((value.field "type").asStr.getD "")

/-- The part of an event that depends on its type, and whether output was generated. -/
def typedEvent (p : ResponseParser) (value : Json) : ResponseParser × Bool :=
  let outputIndex := indexOf value "output_index"
  let contentIndex := indexOf value "content_index"
  let index := indexOf value "index"
  match eventType value with
  | .messageStart => (p.observe (value.field "message"), false)
  | .messageStop => ({ p with terminal := true }, false)
  | .responseFinal =>
    let response := value.field "response"
    let p := (p.observe response).collectTools serialize response
    let p := { p with terminal := true, finalUsageSeen := (response.field "usage").isObject }
    if p.texts.entries.isEmpty then
      let text := joinTexts ((collectResponseMessages serialize response).map ParsedMessage.content)
      ({ p with texts := p.texts.insert (textKey 0 0) text }, false)
    else (p, false)
  | .responseCreated => (p.observe (value.field "response"), false)
  | .outputTextDelta =>
    p.textDelta (textKey outputIndex contentIndex) (value.field "delta").asStr
  | .outputTextDone =>
    let key := textKey outputIndex contentIndex
    match p.texts.get key with
    | some _ => (p, false)
    | none => ({ p with texts := p.texts.insert key ((value.field "text").asStr.getD "") }, false)
  | .outputItem =>
    let item := value.field "item"
    if isFunctionCall item then (p.tool serialize (responseKey outputIndex) item false, false)
    else (p, false)
  | .functionArgumentsDelta =>
    let delta := (value.field "delta").asStr.getD ""
    (p.tool serialize (responseKey outputIndex) (argumentsOnly delta) true, !delta.isEmpty)
  | .contentBlockStart =>
    let block := value.field "content_block"
    if isToolUse block then (p.tool serialize (anthropicKey index) block false, false)
    else p.textDelta (textKey index 0) (block.field "text").asStr
  | .contentBlockDelta =>
    let delta := value.field "delta"
    let (p, generated) := p.textDelta (textKey index 0) (delta.field "text").asStr
    let (p, generated) := match (delta.field "partial_json").asStr with
      | some arguments =>
        (p.tool serialize (anthropicKey index) (argumentsOnly arguments) true,
          generated || !arguments.isEmpty)
      | none => (p, generated)
    (p, generated || hasText (delta.field "thinking").asStr)
  | .other => (p, false)

/-- The fragments of tool calls in a choice of a chunk. -/
def choiceTools (choice : Json) : List (String × Json) :=
  (((choice.field "delta").field "tool_calls").asArray.getD []).map fun tool =>
    (chatKey (indexOf choice "index") (indexOf tool "index"), tool)

/-- A choice of a chunk, and whether it brings output. -/
def choiceEvent (p : ResponseParser) (choice : Json) : ResponseParser × Bool :=
  let delta := choice.field "delta"
  let (p, generated) :=
    if indexOf choice "index" = 0 then p.textDelta (textKey 0 0) (delta.field "content").asStr
    else (p, false)
  let tools := choiceTools choice
  (p.toolAll serialize tools true,
    generated || hasText (delta.field "refusal").asStr ||
      tools.any fun entry => hasText ((Json.pointer ["function", "arguments"] entry.2).bind Json.asStr))

/-- The choices of a chunk, and whether they bring output. -/
def choiceEvents (p : ResponseParser) : List Json → ResponseParser × Bool
  | [] => (p, false)
  | choice :: choices =>
    let (p, generated) := p.choiceEvent serialize choice
    let (p, generated') := choiceEvents p choices
    (p, generated || generated')

/-- The event brings the final usage. -/
def isFinalUsage (value : Json) : Bool :=
  ((value.field "type").asStr == some "message_delta" &&
      (count (value.field "usage") "output_tokens").isSome) ||
    ((value.field "choices").isArray && (value.field "usage").isObject)

/-- `ResponseParser::event` -/
def event (p : ResponseParser) (value : Json) (offset : ℕ) : ResponseParser :=
  let p := p.observe value
  let p := { p with finalUsageSeen := p.finalUsageSeen || isFinalUsage value }
  let (p, generated) := p.typedEvent serialize value
  let (p, generated') :=
    p.choiceEvents serialize (((value.get "choices").bind Json.asArray).getD [])
  if (generated || generated') && p.details.firstOutputOffset.isNone then
    { p with details := { p.details with firstOutputOffset := some offset } }
  else p

/-- `checked_add` of counts, of which none is negative. -/
def i64Fits (n : ℤ) : Option ℤ := if n < 2 ^ 63 then some n else none

/-- For Anthropic the input counts without the cached tokens. -/
def totalInput (usage : TokenUsage) : Option ℤ :=
  usage.inputTokens.bind fun input =>
    (i64Fits (input + usage.cachedInputTokens.getD 0)).bind fun sum =>
      i64Fits (sum + usage.cacheCreationInputTokens.getD 0)

/-- `ResponseParser::finish` -/
def finish (p : ResponseParser) : ResponseDetails :=
  let usage :=
    if p.kind = .anthropicMessages then { p.details.usage with inputTokens := totalInput p.details.usage }
    else p.details.usage
  { p.details with
    usage
    usageComplete :=
      p.terminal && p.finalUsageSeen && usage.inputTokens.isSome && usage.outputTokens.isSome
    toolCalls := p.tools.values
    text := joinTexts p.texts.values }

end ResponseParser

/-- An event of a stream: without data, the end marker, a JSON value, or something else. -/
inductive SseEvent where
  | empty
  | done
  | json (value : Json)
  | other

open ResponseParser

/-- An event of a stream, with the offset of its end. -/
def streamEvent (p : ResponseParser) : SseEvent × ℕ → ResponseParser
  | (.done, _) => { p with terminal := true }
  | (.json value, offset) => p.event serialize value offset
  | (.empty, _) | (.other, _) => p

/-- `ResponseDetails::parse` of a body that is JSON. -/
def parseDocument (kind : RequestKind) (value : Json) : ResponseDetails :=
  let p := ((ResponseParser.observe { kind } value).collectTools serialize value)
  finish { p with terminal := true, finalUsageSeen := true }

/-- `ResponseDetails::parse` of a stream, its events with the offsets of their ends. -/
def parseStream (kind : RequestKind) (events : List (SseEvent × ℕ)) : ResponseDetails :=
  let p := events.foldl (streamEvent serialize) { kind }
  finish { p with details := { p.details with streamComplete := some p.terminal } }

/-- A call as `serde_json::to_string` writes it. -/
def ToolCall.toText (tool : ToolCall) : String :=
  String.ofList ("\x7b\"id\":".toList ++ Json.quote tool.id.toList ++
    ",\"name\":".toList ++ Json.quote tool.name.toList ++
    ",\"arguments\":".toList ++ Json.quote tool.arguments.toList ++ "\x7d".toList)

/-- What `parse_trace` puts behind the messages of the request: the answer and the calls. -/
def responseMessages (json : Option Json) (response : ResponseDetails) : List ParsedMessage :=
  (match json with
    | some value => collectResponseMessages serialize value
    | none => nonemptyMessage response.text) ++
  response.toolCalls.map fun tool => ⟨false, "tool_call", tool.toText⟩

end
end Llmtrace.Parsers
