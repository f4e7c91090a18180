import Llmtrace.Trace.Bounds

/-! What `build_trace` hands to the database (`trace.rs`). Columns of text and of JSON cannot hold the
    NUL character, which a JSON escape in a captured body or in the metadata of a plugin may stand for.
    Every such text is stripped; what comes from the transport cannot contain it.

    The keys of the metadata are stripped as well. Two keys of one object may become the same by that,
    and the later one replaces the other. -/

namespace Llmtrace.Trace
open Schemes Proxy
open Parsers (ParsedMessage ResponseDetails ToolCall RequestKind)

/-! ### Trees -/

/-- `strip_nul_bytes_owned`, without the mark. -/
def stripText (text : String) : String := (stripNulBytesOwned text).1

mutual

/-- `strip_nul_bytes_from_value` -/
def stripNulBytesFromValue : Json → Json
  | .str text => .str (stripText text)
  | .arr items => .arr (stripItems items)
  | .obj fields => .obj (stripFields fields [])
  | .null => .null
  | .bool b => .bool b
  | .int n => .int n
  | .float text => .float text

/-- `strip_nul_bytes_from_value` of every item. -/
def stripItems : List Json → List Json
  | [] => []
  | v :: vs => stripNulBytesFromValue v :: stripItems vs

/-- The fields are collected into a new map, in their order. -/
def stripFields : List (String × Json) → List (String × Json) → List (String × Json)
  | [], cleaned => cleaned
  | (key, item) :: fields, cleaned =>
    stripFields fields (put (stripText key) (stripNulBytesFromValue item) cleaned)

end

mutual

/-- No string and no key of the tree contains the character. -/
def nulFree : Json → Bool
  | .str text => decide (nul ∉ text.toList)
  | .arr items => itemsFree items
  | .obj fields => fieldsFree fields
  | .null | .bool _ | .int _ | .float _ => true

/-- No item has a NUL. -/
def itemsFree : List Json → Bool
  | [] => true
  | v :: vs => nulFree v && itemsFree vs

/-- No key and no member has a NUL. -/
def fieldsFree : List (String × Json) → Bool
  | [] => true
  | (key, item) :: fields => decide (nul ∉ key.toList) && nulFree item && fieldsFree fields

end

mutual

/-- Every object of the tree is a map: its keys ascend. -/
def Ordered : Json → Prop
  | .arr items => ItemsOrdered items
  | .obj fields => Ascending fields ∧ FieldsOrdered fields
  | .null | .bool _ | .int _ | .float _ | .str _ => True

/-- The objects in the items are ordered. -/
def ItemsOrdered : List Json → Prop
  | [] => True
  | v :: vs => Ordered v ∧ ItemsOrdered vs

/-- The objects in the members are ordered. -/
def FieldsOrdered : List (String × Json) → Prop
  | [] => True
  | (_, item) :: fields => Ordered item ∧ FieldsOrdered fields

end

theorem nul_notMem_stripText (text : String) : nul ∉ (stripText text).toList := by
  rw [stripText, stripNulBytesOwned_text]
  exact nul_notMem_stripped text

theorem stripText_eq_self {text : String} (h : nul ∉ text.toList) : stripText text = text := by
  rw [stripText, stripNulBytesOwned, if_neg h]

theorem fieldsFree_iff {fields : List (String × Json)} : fieldsFree fields = true ↔
    ∀ e ∈ fields, nul ∉ e.1.toList ∧ nulFree e.2 = true := by
  induction fields with
  | nil => simp [fieldsFree]
  | cons e fields ih =>
    obtain ⟨key, item⟩ := e
    rw [fieldsFree, Bool.and_eq_true, Bool.and_eq_true, decide_eq_true_eq, ih, List.forall_mem_cons]

theorem fieldsOrdered_iff {fields : List (String × Json)} : FieldsOrdered fields ↔
    ∀ e ∈ fields, Ordered e.2 := by
  induction fields with
  | nil => simp [FieldsOrdered]
  | cons e fields ih =>
    obtain ⟨key, item⟩ := e
    rw [FieldsOrdered, ih, List.forall_mem_cons]

theorem itemsOrdered_iff {items : List Json} : ItemsOrdered items ↔ ∀ v ∈ items, Ordered v := by
  induction items with
  | nil => simp [ItemsOrdered]
  | cons v items ih => rw [ItemsOrdered, ih, List.forall_mem_cons]

theorem stripItems_eq (items : List Json) : stripItems items = items.map stripNulBytesFromValue := by
  induction items with
  | nil => rfl
  | cons v items ih => rw [stripItems, ih, List.map_cons]

mutual

/-- Nothing is left of it, at any depth. -/
theorem stripNulBytesFromValue_free : ∀ v : Json, nulFree (stripNulBytesFromValue v) = true
  | .null | .bool _ | .int _ | .float _ => rfl
  | .str text => decide_eq_true (nul_notMem_stripText text)
  | .arr items => by
      rw [stripNulBytesFromValue, nulFree]
      exact stripItems_free items
  | .obj fields => by
      rw [stripNulBytesFromValue, nulFree]
      exact stripFields_free fields [] rfl

theorem stripItems_free : ∀ items : List Json, itemsFree (stripItems items) = true
  | [] => rfl
  | v :: vs => by
      rw [stripItems, itemsFree, stripNulBytesFromValue_free v, stripItems_free vs]
      rfl

theorem stripFields_free : ∀ (fields cleaned : List (String × Json)), fieldsFree cleaned = true →
    fieldsFree (stripFields fields cleaned) = true
  | [], _, h => h
  | (key, item) :: fields, cleaned, h => by
      rw [stripFields]
      refine stripFields_free fields _ (fieldsFree_iff.mpr fun e he => ?_)
      rcases mem_put he with rfl | he
      · exact ⟨nul_notMem_stripText key, stripNulBytesFromValue_free item⟩
      · exact fieldsFree_iff.mp h e he

end

/-! ### What stays as it is -/

theorem put_greatest {k : String} {v : Json} : ∀ {es : List (String × Json)}, (∀ e ∈ es, e.1 < k) →
    put k v es = es ++ [(k, v)]
  | [], _ => rfl
  | e :: es, h => by
      have hlt := h e List.mem_cons_self
      rw [put, if_neg (not_lt_of_gt hlt), if_neg (ne_of_gt hlt),
        put_greatest fun x hx => h x (List.mem_cons_of_mem _ hx), List.cons_append]

mutual

theorem stripNulBytesFromValue_self : ∀ v : Json, Ordered v → nulFree v = true →
    stripNulBytesFromValue v = v
  | .null, _, _ | .bool _, _, _ | .int _, _, _ | .float _, _, _ => rfl
  | .str text, _, h => by
      rw [stripNulBytesFromValue, stripText_eq_self (of_decide_eq_true h)]
  | .arr items, hordered, h => by
      rw [stripNulBytesFromValue, stripItems_self items hordered h]
  | .obj fields, hordered, h => by
      rw [Ordered] at hordered
      rw [stripNulBytesFromValue, stripFields_self fields [] hordered.2 h hordered.1 (by simp),
        List.nil_append]

theorem stripItems_self : ∀ items : List Json, ItemsOrdered items → itemsFree items = true →
    stripItems items = items
  | [], _, _ => rfl
  | v :: vs, hordered, h => by
      rw [ItemsOrdered] at hordered
      rw [itemsFree, Bool.and_eq_true] at h
      rw [stripItems, stripNulBytesFromValue_self v hordered.1 h.1, stripItems_self vs hordered.2 h.2]

/-- Ascending fields are put behind those that are there. -/
theorem stripFields_self : ∀ fields cleaned : List (String × Json), FieldsOrdered fields →
    fieldsFree fields = true → Ascending fields → (∀ c ∈ cleaned, ∀ e ∈ fields, c.1 < e.1) →
    stripFields fields cleaned = cleaned ++ fields
  | [], cleaned, _, _, _, _ => by rw [stripFields, List.append_nil]
  | (key, item) :: fields, cleaned, hordered, h, hascending, hbelow => by
      rw [FieldsOrdered] at hordered
      rw [fieldsFree, Bool.and_eq_true, Bool.and_eq_true, decide_eq_true_eq] at h
      obtain ⟨hfirst, hrest⟩ := List.pairwise_cons.mp hascending
      rw [stripFields, stripText_eq_self h.1.1, stripNulBytesFromValue_self item hordered.1 h.1.2,
        put_greatest fun c hc => hbelow c hc _ List.mem_cons_self,
        stripFields_self fields _ hordered.2 h.2 hrest ?_, List.append_assoc, List.singleton_append]
      intro c hc e he
      rcases List.mem_append.mp hc with hc | hc
      · exact hbelow c hc e (List.mem_cons_of_mem _ he)
      · rw [List.mem_singleton.mp hc]
        exact hfirst e he

end

/-- A step into a JSON value. -/
inductive PathStep where
  | key (name : String)
  | index (i : ℕ)

/-- The subtree at a path. -/
def subtree : List PathStep → Json → Option Json
  | [], v => some v
  | .key name :: path, .obj fields => (fetch name fields).bind (subtree path)
  | .index i :: path, .arr items => items[i]?.bind (subtree path)
  | _ :: _, _ => none

/-- The step to the same place, after stripping. -/
def stripStep : PathStep → PathStep
  | .key name => .key (stripText name)
  | .index i => .index i

/-- No later key of an object on the path is stripped to the key that the path takes. -/
def NotShadowed : List PathStep → Json → Prop
  | .key name :: path, .obj fields =>
    (∀ e ∈ fields, name < e.1 → stripText e.1 ≠ stripText name) ∧
      ∀ v, fetch name fields = some v → NotShadowed path v
  | .index i :: path, .arr items => ∀ v, items[i]? = some v → NotShadowed path v
  | _, _ => True

theorem fetch_stripFields_other {name : String} : ∀ {fields cleaned : List (String × Json)},
    (∀ e ∈ fields, stripText e.1 ≠ name) → fetch name (stripFields fields cleaned) = fetch name cleaned
  | [], _, _ => by rw [stripFields]
  | (key, item) :: fields, cleaned, h => by
      rw [stripFields, fetch_stripFields_other fun e he => h e (List.mem_cons_of_mem _ he), fetch_put,
        if_neg (h _ List.mem_cons_self).symm]

/-- Of the fields that get the same key, the last one stays. -/
theorem fetch_stripFields {name : String} {item : Json} : ∀ {fields cleaned : List (String × Json)},
    Ascending fields → (name, item) ∈ fields →
    (∀ e ∈ fields, name < e.1 → stripText e.1 ≠ stripText name) →
    fetch (stripText name) (stripFields fields cleaned) = some (stripNulBytesFromValue item)
  | (key, item') :: fields, cleaned, hascending, hmem, hlater => by
      obtain ⟨hfirst, hrest⟩ := List.pairwise_cons.mp hascending
      rw [stripFields]
      rcases List.mem_cons.mp hmem with heq | hmem
      · obtain ⟨rfl, rfl⟩ := Prod.mk.inj heq
        have hothers : ∀ e ∈ fields, stripText e.1 ≠ stripText name := fun e he =>
          hlater e (List.mem_cons_of_mem _ he) (hfirst e he)
        rw [fetch_stripFields_other hothers, fetch_put, if_pos rfl]
      · exact fetch_stripFields hrest hmem fun e he => hlater e (List.mem_cons_of_mem _ he)

/-- Along a path that is not shadowed, what is there is stripped and stays. -/
theorem subtree_strip : ∀ {path : List PathStep} {v sub : Json}, Ordered v → NotShadowed path v →
    subtree path v = some sub →
    subtree (path.map stripStep) (stripNulBytesFromValue v) = some (stripNulBytesFromValue sub) ∧ Ordered sub
  | [], v, sub, hordered, _, h => by
      cases h
      exact ⟨rfl, hordered⟩
  | .key name :: path, .obj fields, sub, hordered, hclear, h => by
      rw [Ordered] at hordered
      obtain ⟨item, hitem, hsub⟩ := Option.bind_eq_some_iff.mp h
      have hmem := mem_of_fetch hitem
      obtain ⟨hstrip, hordered'⟩ := subtree_strip (fieldsOrdered_iff.mp hordered.2 _ hmem)
        (hclear.2 item hitem) hsub
      refine ⟨?_, hordered'⟩
      rw [List.map_cons, stripStep, stripNulBytesFromValue, subtree,
        fetch_stripFields hordered.1 hmem hclear.1, Option.bind_some, hstrip]
  | .index i :: path, .arr items, sub, hordered, hclear, h => by
      obtain ⟨item, hitem, hsub⟩ := Option.bind_eq_some_iff.mp h
      obtain ⟨hstrip, hordered'⟩ := subtree_strip
        (itemsOrdered_iff.mp hordered item (List.mem_of_getElem? hitem)) (hclear item hitem) hsub
      refine ⟨?_, hordered'⟩
      rw [List.map_cons, stripStep, stripNulBytesFromValue, subtree, stripItems_eq, List.getElem?_map, hitem,
        Option.map_some, Option.bind_some, hstrip]
  | .key _ :: _, .arr _, _, _, _, h | .key _ :: _, .null, _, _, _, h | .key _ :: _, .bool _, _, _, _, h
  | .key _ :: _, .int _, _, _, _, h | .key _ :: _, .float _, _, _, _, h | .key _ :: _, .str _, _, _, _, h
  | .index _ :: _, .obj _, _, _, _, h | .index _ :: _, .null, _, _, _, h | .index _ :: _, .bool _, _, _, _, h
  | .index _ :: _, .int _, _, _, _, h | .index _ :: _, .float _, _, _, _, h
  | .index _ :: _, .str _, _, _, _, h => by cases h

/-! ### The metadata -/

/-- What a hook of the plugins adds. -/
structure HookEffects extends PluginEffects where
  metadata : List (String × Json) := []
  warnings : List String := []

/-- `object_or_empty` -/
def objectOrEmpty : Json → List (String × Json)
  | .obj fields => fields
  | .null => []
  | other => [("value", other)]

/-- `existing.extend(fields)` -/
def extendFields (existing fields : List (String × Json)) : List (String × Json) :=
  fields.foldl (fun existing e => put e.1 e.2 existing) existing

/-- A field of a plugin's metadata. -/
def mergeField (metadata : List (String × Json)) (e : String × Json) : List (String × Json) :=
  match fetch e.1 metadata, e.2 with
  | some (.obj existing), .obj fields => put e.1 (.obj (extendFields existing fields)) metadata
  | _, value => put e.1 value metadata

/-- The warnings of a hook are added to those there are. -/
def mergeWarnings (metadata : List (String × Json)) (warnings : List String) : List (String × Json) :=
  if warnings.isEmpty then metadata
  else
    match fetch "plugin_warnings" metadata with
    | none => put "plugin_warnings" (.arr (warnings.map .str)) metadata
    | some (.arr existing) => put "plugin_warnings" (.arr (existing ++ warnings.map .str)) metadata
    | some _ => metadata

/-- `merge_effects`, for the metadata. -/
def mergeMetadata (metadata : List (String × Json)) (effects : HookEffects) : List (String × Json) :=
  mergeWarnings (effects.metadata.foldl mergeField metadata) effects.warnings

/-! ### `build_trace` -/

/-- An event with the other fields that become columns. -/
structure CapturedEvent extends TraceEvent where
  method : String := ""
  originalUri : String := ""
  upstreamHost : Option String := none
  error : Option String := none
  model : Option String := none
  requestHeaders : Json := .obj []
  responseHeaders : Json := .obj []
  responseBodyTruncated : Bool := false
  contentType : Option String := none
  pluginMetadata : Json := .obj []

/-- What `parse_trace` reads from the bodies; `request` is the JSON of the request. -/
structure ParsedTrace where
  requestKind : RequestKind := .genericHttp
  model : Option String := none
  request : Option Json := none
  messages : List ParsedMessage := []
  response : ResponseDetails := {}

/-- What `build_trace` works on. -/
structure BuildInput where
  event : CapturedEvent
  parsed : ParsedTrace := {}
  hasPlugins : Bool := false
  requestStart : HookEffects := {}
  responseHeaders : HookEffects := {}
  responseEnd : HookEffects := {}

namespace BuildInput

/-- What decides the session, the messages and the tags. -/
def session (t : BuildInput) : TraceInput where
  event := t.event.toTraceEvent
  request := t.parsed.request
  parsedMessages := t.parsed.messages
  toolCallsTruncated := t.parsed.response.toolCallsTruncated
  hasPlugins := t.hasPlugins
  requestStart := t.requestStart.toPluginEffects
  responseHeaders := t.responseHeaders.toPluginEffects
  responseEnd := t.responseEnd.toPluginEffects

/-- The effects that are merged, in order. -/
def effects (t : BuildInput) : List HookEffects :=
  if t.event.runPlugins && t.hasPlugins then
    if t.event.status.isSome then [t.requestStart, t.responseHeaders, t.responseEnd]
    else [t.requestStart]
  else []

/-- The metadata after all hooks. -/
def metadata (t : BuildInput) : List (String × Json) :=
  t.effects.foldl mergeMetadata (objectOrEmpty t.event.pluginMetadata)

/-- A stream of a known kind ended without its last event. -/
def incompleteStream (t : BuildInput) : Bool :=
  t.parsed.response.streamComplete == some false && !t.event.responseBodyTruncated &&
    t.event.status.any (fun status => decide (200 ≤ status ∧ status < 300)) &&
    t.event.contentType.any (fun value => "text/event-stream".toList.isPrefixOf value.toList) &&
    (decide (t.parsed.requestKind = .openAiChatCompletions) ||
      decide (t.parsed.requestKind = .openAiResponses) ||
      decide (t.parsed.requestKind = .anthropicMessages))

/-- The error that is stored. -/
def error (t : BuildInput) : Option String :=
  (t.event.error.or t.parsed.response.error).or
    (if t.incompleteStream then some "upstream stream ended without a terminal event" else none)

end BuildInput

/-- A text that is stripped, and left out where nothing remains. -/
def strippedColumn (text : Option String) : Option String :=
  (text.map stripText).filter fun text => !text.isEmpty

/-- A tool call without NULs. -/
def stripToolCall (call : ToolCall) : ToolCall :=
  ⟨stripText call.id, stripText call.name, stripText call.arguments⟩

/-- The columns of text and of JSON. -/
structure BuiltTrace extends TraceRecord where
  method : String
  originalUri : String
  upstreamUrl : String
  upstreamHost : Option String
  error : Option String
  model : Option String
  apiKeyHash : Option String
  requestHeaders : Json
  responseHeaders : Json
  contentType : Option String
  toolCalls : List ToolCall
  pluginMetadata : Json

/-- `build_trace`; `urls` is what is used of the `url` crate to redact the query of a URI. -/
def buildColumns (lib : HashLib) (urls : UrlLib) (t : BuildInput) : BuiltTrace where
  toTraceRecord := buildTrace lib t.session
  method := t.event.method
  originalUri := String.ofList (redactUriQueryValues urls t.event.originalUri.toList)
  upstreamUrl := String.ofList (redactUriQueryValues urls t.event.upstreamUrl.toList)
  upstreamHost := t.event.upstreamHost
  error := strippedColumn t.error
  model := strippedColumn (t.event.model.or t.parsed.model)
  apiKeyHash := t.event.apiKeyHash
  requestHeaders := t.event.requestHeaders
  responseHeaders := t.event.responseHeaders
  contentType := t.event.contentType
  toolCalls := t.parsed.response.toolCalls.map stripToolCall
  pluginMetadata := stripNulBytesFromValue (.obj t.metadata)

/-! ### Free of NUL -/

/-- All texts that are bound to columns. -/
def BuiltTrace.texts (r : BuiltTrace) : List String :=
  [r.method, r.originalUri, r.upstreamUrl] ++
    [r.upstreamHost, r.error, r.model, r.apiKeyHash, r.contentType, r.sessionKey, r.userId,
      r.userName].filterMap id ++
    r.tags ++ r.messages.flatMap (fun m => [m.role, m.content]) ++
    r.toolCalls.flatMap fun call => [call.id, call.name, call.arguments]

/-- All JSON values that are bound to columns. -/
def BuiltTrace.values (r : BuiltTrace) : List Json := [r.requestHeaders, r.responseHeaders, r.pluginMetadata]

/-- What the transport gives contains no NUL character. -/
structure CapturedEvent.Clean (event : CapturedEvent) : Prop where
  texts : ∀ text ∈ [event.method, event.originalUri, event.upstreamUrl] ++
    [event.upstreamHost, event.apiKeyHash, event.contentType].filterMap id, nul ∉ text.toList
  values : ∀ v ∈ [event.requestHeaders, event.responseHeaders], nulFree v = true

/-- The `url` crate writes URLs in ASCII without control characters. -/
def UrlsClean (urls : UrlLib) : Prop :=
  ∀ value url (query : Option (List Char)), urls.parse value = some url → nul ∉ urls.toText { url with
    username := [], password := none, fragment := none, query := query.map urls.encodeQuery }

theorem redactQueryString_free {query : List Char} (h : nul ∉ query) : nul ∉ redactQueryString query := by
  unfold redactQueryString
  split
  · exact List.not_mem_nil
  · intro hmem
    rcases mem_intercalate hmem with hsep | ⟨piece, hpiece, hnul⟩
    · exact absurd hsep (by decide)
    · obtain ⟨pair, hpair, rfl⟩ := List.mem_map.mp hpiece
      rcases List.mem_append.mp hnul with hname | hvalue
      · exact h ((mem_splitOn_pieces (by decide)).mpr ⟨pair, hpair, mem_before hname⟩)
      · exact absurd hvalue (by decide)

theorem redactUriQueryValues_free {urls : UrlLib} (hurls : UrlsClean urls) {value : List Char}
    (h : nul ∉ value) : nul ∉ redactUriQueryValues urls value := by
  unfold redactUriQueryValues
  split
  · rename_i url hparse
    have hclean := hurls value url (url.query.map redactQueryString) hparse
    rwa [Option.map_map] at hclean
  · have hwithout : nul ∉ ((splitOnce '#' value).map Prod.fst).getD value := fun hmem => h (mem_before hmem)
    simp only
    split
    · exact hwithout
    · rename_i path query hcut
      intro hmem
      rcases List.mem_append.mp hmem with hpath | hquery
      · exact hwithout (mem_splitOnce hcut (.inl hpath))
      · rcases List.mem_cons.mp hquery with hmark | hquery
        · exact absurd hmark (by decide)
        · exact redactQueryString_free (fun hq => hwithout (mem_splitOnce hcut (.inr hq))) hquery

theorem strippedColumn_free {text : Option String} {kept : String} (h : strippedColumn text = some kept) :
    nul ∉ kept.toList := by
  obtain ⟨hmap, -⟩ := Option.filter_eq_some_iff.mp h
  obtain ⟨text, -, rfl⟩ := Option.map_eq_some_iff.mp hmap
  exact nul_notMem_stripText text

theorem nul_notMem_boundText (value : String) (maxBytes : ℕ) :
    nul ∉ (boundText value maxBytes).1.toList := by
  rw [boundText_text]
  exact fun h => nul_notMem_stripped value ((truncateUtf8_isPrefix _ _).subset h)

theorem boundOptionalText_free {value : Option String} {maxBytes : ℕ} {kept : String}
    (h : (boundOptionalText value maxBytes).1 = some kept) : nul ∉ kept.toList := by
  cases value with
  | none => cases h
  | some value =>
    simp only [boundOptionalText] at h
    split at h
    · cases h
    · cases h
      exact nul_notMem_boundText value maxBytes

theorem boundSessionMessages_free {messages : List ParsedMessage} {m : ParsedMessage}
    (h : m ∈ (boundSessionMessages messages).1) : nul ∉ m.role.toList ∧ nul ∉ m.content.toList := by
  rw [boundSessionMessages_eq] at h
  obtain ⟨message, -, rfl⟩ := List.mem_map.mp h
  rw [boundMessage_eq]
  exact ⟨nul_notMem_boundText _ _, nul_notMem_boundText _ _⟩

theorem boundTraceTags_free {tags : List String} {messagesTruncated identityTruncated : Bool} {tag : String}
    (h : tag ∈ boundTraceTags tags messagesTruncated identityTruncated) : nul ∉ tag.toList := by
  rcases mem_boundTraceTags tags messagesTruncated identityTruncated h with rfl | rfl | ⟨t, -, ht⟩
  · decide
  · decide
  · have hcut := (normalTag_some ht).1.2.isPrefix
    exact fun hmem => nul_notMem_stripped t (hcut.subset hmem)

/-- Session, user, tags and messages of a trace are bounded texts. -/
theorem buildTrace_free (lib : HashLib) (t : TraceInput) :
    (∀ text, (buildTrace lib t).sessionKey = some text ∨ (buildTrace lib t).userId = some text ∨
      (buildTrace lib t).userName = some text → nul ∉ text.toList) ∧
    (∀ tag ∈ (buildTrace lib t).tags, nul ∉ tag.toList) ∧
    ∀ m ∈ (buildTrace lib t).messages, nul ∉ m.role.toList ∧ nul ∉ m.content.toList := by
  refine ⟨?_, fun tag htag => boundTraceTags_free htag, fun m hm => boundSessionMessages_free hm⟩
  have hkey : (buildTrace lib t).sessionKey = (boundOptionalText (some (scopedSessionKey lib
      t.event.upstreamUrl (t.credentialScope lib) t.explicitSessionKey t.event.id))
      maxTraceSessionKeyBytes).1 := rfl
  have hid : (buildTrace lib t).userId = (boundOptionalText
      (mergeFirst t.event.userId (t.effects.map PluginEffects.userId)) maxTraceIdentityBytes).1 := rfl
  have hname : (buildTrace lib t).userName = (boundOptionalText
      (mergeFirst t.event.userName (t.effects.map PluginEffects.userName)) maxTraceIdentityBytes).1 := rfl
  rintro text (htext | htext | htext)
  · exact boundOptionalText_free (hkey.symm.trans htext)
  · exact boundOptionalText_free (hid.symm.trans htext)
  · exact boundOptionalText_free (hname.symm.trans htext)

theorem buildColumns_texts {urls : UrlLib} (hurls : UrlsClean urls) (lib : HashLib) {t : BuildInput}
    (ht : t.event.Clean) : ∀ text ∈ (buildColumns lib urls t).texts, nul ∉ text.toList := by
  obtain ⟨hidentity, htags, hmessages⟩ := buildTrace_free lib t.session
  have huri : ∀ uri ∈ [t.event.originalUri, t.event.upstreamUrl],
      nul ∉ (String.ofList (redactUriQueryValues urls uri.toList)).toList := by
    intro uri hmem
    rw [String.toList_ofList]
    exact redactUriQueryValues_free hurls (ht.texts uri (by simp at hmem ⊢; tauto))
  have hclean : ∀ column ∈ [t.event.upstreamHost, t.event.apiKeyHash, t.event.contentType],
      ∀ text, column = some text → nul ∉ text.toList := by
    intro column hmem text htext
    exact ht.texts text (List.mem_append_right _ (List.mem_filterMap.mpr ⟨column, hmem, htext⟩))
  intro text hmem
  simp only [BuiltTrace.texts, List.mem_append, List.mem_flatMap, List.mem_filterMap, id_eq] at hmem
  rcases hmem with ((((hmem | ⟨column, hcolumn, rfl⟩) | hmem) | ⟨m, hm, hmem⟩) | ⟨call, hcall, hmem⟩)
  · simp only [List.mem_cons, List.not_mem_nil, or_false] at hmem
    rcases hmem with rfl | rfl | rfl
    · exact ht.texts _ (by simp [buildColumns])
    · exact huri _ (by simp)
    · exact huri _ (by simp)
  · simp only [List.mem_cons, List.not_mem_nil, or_false] at hcolumn
    rcases hcolumn with h | h | h | h | h | h | h | h
    · exact hclean t.event.upstreamHost (by simp) text h.symm
    · exact strippedColumn_free h.symm
    · exact strippedColumn_free h.symm
    · exact hclean t.event.apiKeyHash (by simp) text h.symm
    · exact hclean t.event.contentType (by simp) text h.symm
    · exact hidentity text (.inl h.symm)
    · exact hidentity text (.inr (.inl h.symm))
    · exact hidentity text (.inr (.inr h.symm))
  · exact htags text hmem
  · simp only [List.mem_cons, List.not_mem_nil, or_false] at hmem
    rcases hmem with rfl | rfl
    · exact (hmessages m hm).1
    · exact (hmessages m hm).2
  · obtain ⟨call, -, rfl⟩ := List.mem_map.mp hcall
    simp only [List.mem_cons, List.not_mem_nil, or_false] at hmem
    rcases hmem with rfl | rfl | rfl
    · exact nul_notMem_stripText _
    · exact nul_notMem_stripText _
    · exact nul_notMem_stripText _

/-- No column of a trace contains the character. In the metadata every subtree is stripped where it
    stands, and one without the character stays as it is, unless a later key takes its place; that key's
    value is then stripped there. -/
theorem no_nul_in_columns (lib : HashLib) (urls : UrlLib) (hurls : UrlsClean urls) (t : BuildInput)
    (ht : t.event.Clean) :
    (∀ text ∈ (buildColumns lib urls t).texts, nul ∉ text.toList) ∧
      (∀ v ∈ (buildColumns lib urls t).values, nulFree v = true) ∧
      ∀ tree path sub, Ordered tree → NotShadowed path tree → subtree path tree = some sub →
        subtree (path.map stripStep) (stripNulBytesFromValue tree) = some (stripNulBytesFromValue sub) ∧
          (nulFree sub = true → stripNulBytesFromValue sub = sub) := by
  refine ⟨buildColumns_texts hurls lib ht, ?_, ?_⟩
  · intro v hv
    simp only [BuiltTrace.values, List.mem_cons, List.not_mem_nil, or_false] at hv
    rcases hv with rfl | rfl | rfl
    · exact ht.values _ (by simp [buildColumns])
    · exact ht.values _ (by simp [buildColumns])
    · exact stripNulBytesFromValue_free _
  · intro tree path sub hordered hclear hsub
    obtain ⟨hstrip, hordered'⟩ := subtree_strip hordered hclear hsub
    exact ⟨hstrip, stripNulBytesFromValue_self sub hordered'⟩

/-- Two keys that differ in the character alone. -/
def collidingTree : Json := .obj [("a", .int 1), (String.ofList ['a', nul], .int 2)]

theorem ordered_collidingTree : Ordered collidingTree := by
  refine ⟨?_, trivial, trivial, trivial⟩
  decide

/-- The value of the key without the character is replaced by that of the other one. -/
theorem shadowed_subtree_replaced : Ordered collidingTree ∧
    subtree [.key "a"] collidingTree = some (.int 1) ∧ nulFree (.int 1) = true ∧
    subtree ([.key "a"].map stripStep) (stripNulBytesFromValue collidingTree) = some (.int 2) ∧
    subtree ([.key "a"].map stripStep) (stripNulBytesFromValue collidingTree) ≠ some (.int 1) := by
  have hreplaced : subtree ([.key "a"].map stripStep) (stripNulBytesFromValue collidingTree) =
      some (.int 2) := by rfl
  refine ⟨ordered_collidingTree, rfl, rfl, hreplaced, ?_⟩
  rw [hreplaced]
  intro h
  injection h with h
  injection h with h
  exact absurd h (by decide)

/-- An event whose identity, tags and metadata contain the character. -/
def poisonedInput : BuildInput where
  event :=
    { id := 7, upstreamUrl := "", originalUri := "/v1/messages", method := "POST"
      userId := some (String.ofList ['u', nul]), tags := [String.ofList [nul, 't']]
      pluginMetadata := collidingTree }

/-- No hash is needed for a request without a hint, and its URIs are relative. -/
def plainLib : HashLib := ⟨fun _ => ⟨List.replicate 32 0, rfl⟩, fun _ => none⟩

/-- A library for which no text is an absolute URL. -/
def relativeUrls : UrlLib := ⟨fun _ => none, id, fun _ => []⟩

theorem no_nul_in_columns_poisoned : UrlsClean relativeUrls ∧ poisonedInput.event.Clean ∧
    (∀ text ∈ (buildColumns plainLib relativeUrls poisonedInput).texts, nul ∉ text.toList) ∧
    (∀ v ∈ (buildColumns plainLib relativeUrls poisonedInput).values, nulFree v = true) ∧
    subtree [.key "b"] (stripNulBytesFromValue (.obj [(String.ofList ['b', nul], .int 3)])) =
      some (.int 3) := by
  have hurls : UrlsClean relativeUrls := by
    intro value url query h
    cases h
  have hclean : poisonedInput.event.Clean := by
    refine ⟨?_, ?_⟩
    · decide
    · simp [poisonedInput, nulFree, fieldsFree]
  obtain ⟨htexts, hvalues, hsubtree⟩ :=
    no_nul_in_columns plainLib relativeUrls hurls poisonedInput hclean
  refine ⟨hurls, hclean, htexts, hvalues, ?_⟩
  refine (hsubtree (.obj [(String.ofList ['b', nul], .int 3)]) [.key (String.ofList ['b', nul])] (.int 3)
    ⟨List.pairwise_singleton _ _, trivial, trivial⟩ ⟨?_, fun _ _ => trivial⟩ ?_).1
  · intro e he hlt
    rw [List.mem_singleton.mp he] at hlt
    exact absurd hlt (lt_irrefl _)
  · rw [subtree, fetch, if_pos rfl]
    rfl

end Llmtrace.Trace
