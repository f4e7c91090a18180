import Llmtrace.Proxy.Redaction
import Llmtrace.Parsers.Response

/-! Which session a trace belongs to (`build_trace` in `trace.rs`): a hint from the event, a plugin or
    the request names a conversation, and the session key is the hash of the hint together with the
    upstream origin and the credential. Without a hint the request is a session of its own, and the
    trace is tagged `session_unlinked`.

    Only what decides the session key and the tags is modelled. The parsed messages and the marker of
    a shortened tool list are inputs: they take part in the bound on tags. -/

namespace Llmtrace.Trace
open Schemes Proxy
open Parsers (ParsedMessage)

/-! ### Text for the database -/

/-- U+0000, which PostgreSQL does not store. -/
def nul : Char := Char.ofNat 0

/-- `strip_nul_bytes_owned` -/
def stripNulBytesOwned (value : String) : String × Bool :=
  if nul ∈ value.toList then (String.ofList (value.toList.filter fun c => c ≠ nul), true)
  else (value, false)

/-- `truncate_utf8_owned` -/
def truncateUtf8Owned (value : String) (maxBytes : ℕ) : String × Bool :=
  if utf8Len value.toList ≤ maxBytes then (value, false)
  else (String.ofList (truncateUtf8 value.toList maxBytes), true)

/-- `bound_optional_text` -/
def boundOptionalText (value : Option String) (maxBytes : ℕ) : Option String × Bool :=
  match value with
  | none => (none, false)
  | some value =>
    let (value, modified) := stripNulBytesOwned value
    if value.isEmpty then (none, modified)
    else
      let (value, truncated) := truncateUtf8Owned value maxBytes
      (some value, modified || truncated)

/-- `MAX_TRACE_SESSION_KEY_BYTES` -/
def maxTraceSessionKeyBytes : ℕ := 1024

/-- `MAX_TRACE_IDENTITY_BYTES` -/
def maxTraceIdentityBytes : ℕ := 1024

/-- The bounded session key, user and user name, and whether one of them was changed. -/
def boundTraceIdentityFields (sessionKey userId userName : Option String) :
    Option String × Option String × Option String × Bool :=
  let (sessionKey, sessionKeyTruncated) := boundOptionalText sessionKey maxTraceSessionKeyBytes
  let (userId, userIdTruncated) := boundOptionalText userId maxTraceIdentityBytes
  let (userName, userNameTruncated) := boundOptionalText userName maxTraceIdentityBytes
  (sessionKey, userId, userName, sessionKeyTruncated || userIdTruncated || userNameTruncated)

/-! ### Messages and tags -/

/-- `MAX_SESSION_MESSAGES_PER_TRACE` -/
def maxSessionMessagesPerTrace : ℕ := 128

/-- `MAX_SESSION_MESSAGE_ROLE_BYTES` -/
def maxSessionMessageRoleBytes : ℕ := 64

/-- `MAX_SESSION_MESSAGE_CONTENT_BYTES` -/
def maxSessionMessageContentBytes : ℕ := 16 * 1024

/-- One message after stripping and cutting, and whether that changed it. -/
def boundMessage (message : ParsedMessage) : ParsedMessage × Bool :=
  let (role, roleNul) := stripNulBytesOwned message.role
  let (content, contentNul) := stripNulBytesOwned message.content
  let (role, roleTruncated) := truncateUtf8Owned role maxSessionMessageRoleBytes
  let (content, contentTruncated) := truncateUtf8Owned content maxSessionMessageContentBytes
  (⟨message.contentTruncated || contentNul || contentTruncated, role, content⟩,
    roleNul || contentNul || roleTruncated || contentTruncated || message.contentTruncated)

/-- The first and the last messages, when there are too many. -/
def boundSessionMessages (messages : List ParsedMessage) : List ParsedMessage × Bool :=
  let truncated := decide (maxSessionMessagesPerTrace < messages.length)
  let keepStart := maxSessionMessagesPerTrace / 2
  let keepEnd := messages.length - (maxSessionMessagesPerTrace - keepStart)
  let messages := if truncated then messages.take keepStart ++ messages.drop keepEnd else messages
  let bounded := (messages.take maxSessionMessagesPerTrace).map boundMessage
  (bounded.map Prod.fst, truncated || bounded.any Prod.snd)

/-- `MAX_TRACE_TAGS` -/
def maxTraceTags : ℕ := 64

/-- `MAX_TRACE_TAG_BYTES` -/
def maxTraceTagBytes : ℕ := 128

/-- The tag of a trace with cut messages. -/
def sessionMessagesTruncatedTag : String := "session_messages_truncated"

/-- The tag of a trace with cut fields or tags. -/
def traceEnrichmentTruncatedTag : String := "trace_enrichment_truncated"

/-- A tag as it is kept, if anything is left of it, and whether it was changed. -/
def normalTag (tag : String) : Option String × Bool :=
  if tag.isEmpty then (none, false)
  else
    let (tag, tagStripped) := stripNulBytesOwned tag
    if tag.isEmpty then (none, tagStripped)
    else
      let (tag, tagTruncated) := truncateUtf8Owned tag maxTraceTagBytes
      (some tag, tagStripped || tagTruncated)

/-- The distinct tags in order of appearance. -/
def normalizeTags : List String → List String → List String
  | [], normalized => normalized
  | tag :: tags, normalized =>
    match (normalTag tag).1 with
    | none => normalizeTags tags normalized
    | some tag => normalizeTags tags (if tag ∈ normalized then normalized else normalized ++ [tag])

/-- The marks that are added, whatever else is cut. -/
def requiredTags (normalized : List String) (tagsTruncated messagesTruncated identityTruncated : Bool) :
    List String :=
  let required := if messagesTruncated then [sessionMessagesTruncatedTag] else []
  if identityTruncated || tagsTruncated || decide (maxTraceTags - required.length < normalized.length)
  then required ++ [traceEnrichmentTruncatedTag] else required

/-- `bound_trace_tags` -/
def boundTraceTags (tags : List String) (messagesTruncated identityTruncated : Bool) : List String :=
  let normalized := normalizeTags tags []
  let tagsTruncated := tags.any fun tag => (normalTag tag).2
  let required := requiredTags normalized tagsTruncated messagesTruncated identityTruncated
  let bounded := (normalized.filter fun tag => tag ∉ required).take (maxTraceTags - required.length)
  bounded ++ required.filter fun tag => tag ∉ bounded

/-! ### Session keys -/

/-- `hex::encode` -/
def hexEncode (bytes : Bytes) : List Char :=
  bytes.flatMap fun b => [Json.hexChar (b.toNat / 16), Json.hexChar (b.toNat % 16)]

/-- The `k` low hexadecimal digits of `n`. -/
def hexDigits : ℕ → ℕ → List Char
  | 0, _ => []
  | k + 1, n => hexDigits k (n / 16) ++ [Json.hexChar (n % 16)]

/-- A trace id, with its hyphenated text. -/
abbrev Uuid := BitVec 128

/-- `Uuid::to_string` -/
def uuidText (id : Uuid) : List Char :=
  let n := id.toNat
  hexDigits 8 (n / 2 ^ 96) ++ '-' :: hexDigits 4 (n / 2 ^ 80) ++ '-' :: hexDigits 4 (n / 2 ^ 64) ++
    '-' :: hexDigits 4 (n / 2 ^ 48) ++ '-' :: hexDigits 12 n

/-- `serde_json::to_vec(&(origin, credential, hint))` -/
def scopeJson (origin : String) (credential : Option String) (hint : String) : Bytes :=
  let credential := match credential with
    | none => "null".toList
    | some hash => Json.quote hash.toList
  utf8 ('[' :: (Json.quote origin.toList ++ ',' :: (credential ++ ',' ::
    (Json.quote hint.toList ++ [']']))))

/-- SHA-256, and the origin that the `url` crate finds in a URL. -/
structure HashLib where
  sha256 : Bytes → {digest : Bytes // digest.length = 32}
  urlOrigin : String → Option String

section
variable (lib : HashLib)

/-- `scoped_session_key` -/
def scopedSessionKey (upstream : String) (credential hint : Option String) (traceId : Uuid) : String :=
  match hint.filter fun hint => !hint.isEmpty with
  | none => String.ofList ("request:".toList ++ uuidText traceId)
  | some hint =>
    let origin := (lib.urlOrigin upstream).getD ""
    String.ofList ("session:".toList ++ hexEncode (lib.sha256 (scopeJson origin credential hint)))

/-- `credential_scope_from_headers` -/
def credentialScopeFromHeaders (headers : Json) : Option String :=
  ((credentialHeaders.findSome? fun name =>
    (headers.get (String.ofList name)).bind Json.asStr).filter fun value => value ≠ "<non-utf8>").map
      fun value => String.ofList (hexEncode (lib.sha256 (utf8 value.toList)))

/-! ### `build_trace` -/

/-- What plugins add to the fields of a session. -/
structure PluginEffects where
  tags : List String := []
  sessionKey : Option String := none
  userId : Option String := none
  userName : Option String := none

/-- The fields of a trace event that decide the session and the tags. -/
structure TraceEvent where
  id : Uuid
  upstreamUrl : String
  status : Option ℕ := none
  apiKeyHash : Option String := none
  credentialScopeHash : Option String := none
  sessionKey : Option String := none
  pluginRequestHeaders : Json := .obj []
  tags : List String := []
  messages : List ParsedMessage := []
  userId : Option String := none
  userName : Option String := none
  runPlugins : Bool := false

/-- An event with what was parsed from its bodies, and the effects of the plugins at the three hooks. -/
structure TraceInput where
  event : TraceEvent
  /-- The request body, if it is JSON. -/
  request : Option Json := none
  parsedMessages : List ParsedMessage := []
  toolCallsTruncated : Bool := false
  hasPlugins : Bool := false
  requestStart : PluginEffects := {}
  responseHeaders : PluginEffects := {}
  responseEnd : PluginEffects := {}

/-- The effects that are merged, in order. -/
def TraceInput.effects (t : TraceInput) : List PluginEffects :=
  if t.event.runPlugins && t.hasPlugins then
    if t.event.status.isSome then [t.requestStart, t.responseHeaders, t.responseEnd]
    else [t.requestStart]
  else []

/-- `merge_effects` for an identity field: the first that is set stays. -/
def mergeFirst : Option String → List (Option String) → Option String
  | some value, _ => some value
  | none, [] => none
  | none, effect :: effects => mergeFirst effect effects

/-- The session key set by the event or a plugin. -/
def TraceInput.sessionKey (t : TraceInput) : Option String :=
  mergeFirst t.event.sessionKey (t.effects.map PluginEffects.sessionKey)

/-- The places of a hint in the request, in order of preference. -/
def hintEntries (request : Option Json) : List (Option Json) :=
  [request.bind (Json.pointer ["metadata", "session_id"]),
    request.bind (Json.pointer ["metadata", "conversation_id"]),
    request.bind (Json.pointer ["conversation", "id"]),
    request.bind fun value => value.get "conversation"]

/-- The first entry that is there. -/
def firstPresent : List (Option Json) → Option Json
  | [] => none
  | some entry :: _ => some entry
  | none :: entries => firstPresent entries

/-- `session_key_hint` of `parse_trace`. -/
def sessionKeyHint (request : Option Json) : Option String :=
  (firstPresent (hintEntries request)).bind Json.asStr

/-- The hint, from the event, the plugins or the request. -/
def TraceInput.explicitSessionKey (t : TraceInput) : Option String :=
  t.sessionKey.or (sessionKeyHint t.request)

/-- The tags of the event and the plugins. -/
def TraceInput.suppliedTags (t : TraceInput) : List String :=
  t.event.tags ++ t.effects.flatMap PluginEffects.tags

/-- The tags before they are bounded. -/
def TraceInput.allTags (t : TraceInput) : List String :=
  t.suppliedTags ++ (if t.explicitSessionKey.isNone then ["session_unlinked"] else []) ++
    if t.toolCallsTruncated then ["tool_calls_truncated"] else []

/-- The hash that stands for the credential. -/
def TraceInput.credentialScope (t : TraceInput) : Option String :=
  (t.event.credentialScopeHash.or t.event.apiKeyHash).or
    (credentialScopeFromHeaders lib t.event.pluginRequestHeaders)

/-- The origin that scopes the hint. -/
def TraceInput.origin (t : TraceInput) : String := (lib.urlOrigin t.event.upstreamUrl).getD ""

/-- The fields of the built trace that concern sessions. -/
structure TraceRecord where
  sessionKey : Option String
  userId : Option String
  userName : Option String
  messages : List ParsedMessage
  tags : List String

/-- `build_trace`, as far as it concerns sessions. -/
def buildTrace (t : TraceInput) : TraceRecord :=
  let sessionKey := some
    (scopedSessionKey lib t.event.upstreamUrl (t.credentialScope lib) t.explicitSessionKey t.event.id)
  let userId := mergeFirst t.event.userId (t.effects.map PluginEffects.userId)
  let userName := mergeFirst t.event.userName (t.effects.map PluginEffects.userName)
  let (sessionKey, userId, userName, identityTruncated) :=
    boundTraceIdentityFields sessionKey userId userName
  let (messages, messagesTruncated) := boundSessionMessages (t.event.messages ++ t.parsedMessages)
  { sessionKey, userId, userName, messages
    tags := boundTraceTags t.allTags messagesTruncated identityTruncated }

end

/-! ### Usable hints -/

/-- A text with something in it. -/
def nonempty (text : Option String) : Option String := text.filter fun text => !text.isEmpty

/-- The first nonempty string among the entries. -/
def firstUsable (entries : List (Option Json)) : Option String :=
  entries.findSome? fun entry => nonempty (entry.bind Json.asStr)

/-- The first nonempty string among the session key and the entries of the request. -/
def TraceInput.usableHint (t : TraceInput) : Option String :=
  (nonempty t.sessionKey).or (firstUsable (hintEntries t.request))

/-- The session key is not an empty text and, when there is none, the first entry that is there hides
    no usable one: it is usable, or it is no string and there is no usable one after it. -/
structure TraceInput.Plain (t : TraceInput) : Prop where
  key : t.sessionKey ≠ some ""
  entry : t.sessionKey = none → ∀ entry, firstPresent (hintEntries t.request) = some entry →
    entry.asStr ≠ some "" ∧ (entry.asStr = none → firstUsable (hintEntries t.request) = none)

theorem firstPresent_none : ∀ {entries : List (Option Json)}, firstPresent entries = none →
    firstUsable entries = none
  | [], _ => rfl
  | none :: entries, h => @firstPresent_none entries h

theorem firstPresent_string : ∀ {entries : List (Option Json)} {entry : Json} {text : String},
    firstPresent entries = some entry → entry.asStr = some text → text ≠ "" →
    firstUsable entries = some text
  | some e :: entries, entry, text, h, htext, hne => by
      cases h
      have hnonempty : nonempty (some text) = some text := by
        rw [nonempty, Option.filter_eq_some_iff]
        exact ⟨rfl, by simpa [String.isEmpty_iff] using hne⟩
      rw [firstUsable, List.findSome?_cons, Option.bind_some, htext, hnonempty]
  | none :: entries, entry, text, h, htext, hne => by
      rw [firstUsable, List.findSome?_cons]
      exact @firstPresent_string entries _ _ h htext hne

theorem nonempty_ne {text : Option String} (h : text ≠ some "") : nonempty text = text := by
  cases text with
  | none => rfl
  | some text =>
    rw [nonempty, Option.filter_eq_some_iff]
    exact ⟨rfl, by simpa [String.isEmpty_iff] using h⟩

/-- Where nothing is hidden, the key that is used is the usable hint. -/
theorem TraceInput.Plain.explicit {t : TraceInput} (h : t.Plain) :
    t.explicitSessionKey = t.usableHint := by
  rw [explicitSessionKey, usableHint, nonempty_ne h.key]
  cases hkey : t.sessionKey with
  | some key => rfl
  | none =>
    rw [Option.none_or, Option.none_or, sessionKeyHint]
    cases hentry : firstPresent (hintEntries t.request) with
    | none => rw [Option.bind_none, firstPresent_none hentry]
    | some entry =>
      obtain ⟨hempty, hhidden⟩ := h.entry hkey entry hentry
      rw [Option.bind_some]
      cases htext : entry.asStr with
      | none => exact (hhidden htext).symm
      | some text =>
        refine (firstPresent_string hentry htext fun heq => hempty ?_).symm
        rw [htext, heq]

theorem usableHint_ne_empty {t : TraceInput} {hint : String} (h : t.usableHint = some hint) :
    hint ≠ "" := by
  have hfilter : ∀ {text : Option String} {hint : String}, nonempty text = some hint → hint ≠ "" := by
    rintro text hint htext
    rw [nonempty, Option.filter_eq_some_iff] at htext
    simpa [String.isEmpty_iff] using htext.2
  rw [TraceInput.usableHint, Option.or_eq_some_iff] at h
  rcases h with h | ⟨-, h⟩
  · exact hfilter h
  · obtain ⟨entry, -, hentry⟩ := List.exists_of_findSome?_eq_some h
    exact hfilter hentry

/-! ### Keys are kept as they are -/

theorem hexChar_mem (n : ℕ) : Json.hexChar n ∈ "0123456789abcdef".toList := by
  rw [Json.hexChar, List.getD_eq_getElem?_getD]
  cases h : "0123456789abcdef".toList[n]? with
  | none => decide
  | some c => exact List.mem_of_getElem? h

/-- Text that no bound of the database touches. -/
def Tame (text : List Char) : Prop := ∀ c ∈ text, c ≠ nul ∧ c.toNat < 128

theorem tame_hexChar (n : ℕ) : Json.hexChar n ≠ nul ∧ (Json.hexChar n).toNat < 128 := by
  have hall : Tame "0123456789abcdef".toList := by simp [Tame, nul]
  exact hall _ (hexChar_mem n)

theorem Tame.append {s t : List Char} (hs : Tame s) (ht : Tame t) : Tame (s ++ t) := by
  rintro c hc
  rcases List.mem_append.mp hc with hc | hc
  · exact hs c hc
  · exact ht c hc

theorem Tame.cons {c : Char} {t : List Char} (hc : c ≠ nul ∧ c.toNat < 128) (ht : Tame t) :
    Tame (c :: t) := by
  rintro d hd
  rcases List.mem_cons.mp hd with rfl | hd
  · exact hc
  · exact ht d hd

theorem hexDigits_tame : ∀ k n, Tame (hexDigits k n) ∧ (hexDigits k n).length = k
  | 0, _ => ⟨by simp [hexDigits, Tame], rfl⟩
  | k + 1, n => by
      obtain ⟨htame, hlen⟩ := hexDigits_tame k (n / 16)
      exact ⟨htame.append (.cons (tame_hexChar _) (by simp [Tame])), by simp [hexDigits, hlen]⟩

theorem hexEncode_tame : ∀ bytes : Bytes,
    Tame (hexEncode bytes) ∧ (hexEncode bytes).length = 2 * bytes.length
  | [] => ⟨by simp [hexEncode, Tame], rfl⟩
  | b :: bytes => by
      obtain ⟨htame, hlen⟩ := hexEncode_tame bytes
      rw [hexEncode] at htame hlen ⊢
      rw [List.flatMap_cons]
      refine ⟨.cons (tame_hexChar _) (.cons (tame_hexChar _) htame), ?_⟩
      rw [List.length_append, hlen]
      simp only [List.length_cons, List.length_nil]
      omega

theorem uuidText_tame (id : Uuid) : Tame (uuidText id) ∧ (uuidText id).length = 36 := by
  have hdash : ('-' : Char) ≠ nul ∧ ('-' : Char).toNat < 128 := by decide
  refine ⟨?_, ?_⟩
  · exact (((((hexDigits_tame _ _).1.append (.cons hdash (hexDigits_tame _ _).1)).append
      (.cons hdash (hexDigits_tame _ _).1)).append (.cons hdash (hexDigits_tame _ _).1)).append
      (.cons hdash (hexDigits_tame _ _).1))
  · simp only [uuidText, List.length_append, List.length_cons, (hexDigits_tame _ _).2]

theorem boundOptionalText_tame {text : List Char} {maxBytes : ℕ} (htame : Tame text)
    (hne : text ≠ []) (hlen : text.length ≤ maxBytes) :
    boundOptionalText (some (String.ofList text)) maxBytes = (some (String.ofList text), false) := by
  have hnul : nul ∉ text := fun hin => (htame nul hin).1 rfl
  have hempty : (String.ofList text).isEmpty = false := by
    rw [Bool.eq_false_iff, ne_eq, String.isEmpty_iff]
    intro heq
    exact hne (String.ofList_injective (heq.trans String.ofList_nil.symm))
  have hutf8 : utf8Len text ≤ maxBytes := by
    rw [utf8Len_ascii fun c hc => (htame c hc).2]
    exact hlen
  simp only [boundOptionalText, stripNulBytesOwned, truncateUtf8Owned, String.toList_ofList, if_neg hnul,
    hempty, if_pos hutf8, Bool.false_eq_true, if_false, Bool.or_self]

section
variable {lib : HashLib}

/-- The session key of a plain input. -/
theorem buildTrace_sessionKey {t : TraceInput} (h : t.Plain) :
    (buildTrace lib t).sessionKey = some (match t.usableHint with
      | some hint => String.ofList ("session:".toList ++
          hexEncode (lib.sha256 (scopeJson (t.origin lib) (t.credentialScope lib) hint)))
      | none => String.ofList ("request:".toList ++ uuidText t.event.id)) := by
  have hhead : Tame "session:".toList ∧ Tame "request:".toList := by simp [Tame, nul]
  simp only [buildTrace, boundTraceIdentityFields, scopedSessionKey, h.explicit]
  cases hhint : t.usableHint with
  | none =>
    obtain ⟨htame, hlen⟩ := uuidText_tame t.event.id
    rw [Option.filter_none, boundOptionalText_tame (hhead.2.append htame) (by simp)]
    rw [List.length_append, hlen, maxTraceSessionKeyBytes]
    decide
  | some hint =>
    have hkeep : (some hint).filter (fun hint => !hint.isEmpty) = some hint :=
      nonempty_ne fun heq => usableHint_ne_empty hhint (Option.some.inj heq)
    obtain ⟨htame, hlen⟩ := hexEncode_tame
      (lib.sha256 (scopeJson (t.origin lib) (t.credentialScope lib) hint))
    rw [hkeep]
    simp only [TraceInput.origin] at htame hlen ⊢
    rw [boundOptionalText_tame (hhead.1.append htame) (by simp)]
    rw [List.length_append, hlen, (lib.sha256 _).property, maxTraceSessionKeyBytes]
    decide

end

/-! ### Keys tell scopes apart -/

theorem hexChar_inj {m n : ℕ} (hm : m < 16) (hn : n < 16) (h : Json.hexChar m = Json.hexChar n) :
    m = n := by
  have hall : ∀ i j : Fin 16, Json.hexChar i = Json.hexChar j → i = j := by decide
  exact congrArg Fin.val (hall ⟨m, hm⟩ ⟨n, hn⟩ h)

theorem hexEncode_inj : ∀ {s t : Bytes}, hexEncode s = hexEncode t → s = t
  | [], [], _ => rfl
  | [], b :: t, h => by simp [hexEncode] at h
  | a :: s, [], h => by simp [hexEncode] at h
  | a :: s, b :: t, h => by
      simp only [hexEncode, List.flatMap_cons, List.cons_append, List.nil_append,
        List.cons.injEq] at h
      have ha := a.toNat_lt
      have hb := b.toNat_lt
      have hhigh := hexChar_inj (by omega) (by omega) h.1
      have hlow := hexChar_inj (by omega) (by omega) h.2.1
      obtain rfl : a = b := UInt8.toNat_inj.mp (by omega)
      rw [hexEncode_inj h.2.2]

theorem scopeJson_inj {origin origin' hint hint' : String} {credential credential' : Option String}
    (h : scopeJson origin credential hint = scopeJson origin' credential' hint') :
    origin = origin' ∧ credential = credential' ∧ hint = hint' := by
  have htext := utf8_injective h
  rw [List.cons.injEq] at htext
  obtain ⟨horigin, hrest⟩ := Json.quote_append_inj htext.2
  rw [List.cons.injEq] at hrest
  have hhint : ∀ {x y : List Char}, ',' :: (Json.quote hint.toList ++ x) =
      ',' :: (Json.quote hint'.toList ++ y) → hint = hint' := by
    rintro x y heq
    exact String.toList_injective (Json.quote_append_inj (List.cons.inj heq).2).1
  refine ⟨String.toList_injective horigin, ?_⟩
  cases credential with
  | none =>
    cases credential' with
    | none => exact ⟨rfl, hhint (List.append_cancel_left hrest.2)⟩
    | some hash' => cases (List.cons.inj hrest.2).1
  | some hash =>
    cases credential' with
    | none => cases (List.cons.inj hrest.2).1
    | some hash' =>
      obtain ⟨hhash, htail⟩ := Json.quote_append_inj hrest.2
      exact ⟨congrArg some (String.toList_injective hhash), hhint htail⟩

/-! ### Tags -/

theorem mem_normalizeTags {tag : String} : ∀ {tags normalized : List String},
    tag ∈ normalizeTags tags normalized ↔
      tag ∈ normalized ∨ ∃ t ∈ tags, (normalTag t).1 = some tag
  | [], normalized => by simp [normalizeTags]
  | t :: tags, normalized => by
      rw [normalizeTags]
      cases ht : (normalTag t).1 with
      | none => simp [mem_normalizeTags, ht]
      | some kept =>
        simp only [mem_normalizeTags, List.exists_mem_cons_iff, ht, Option.some.injEq]
        by_cases hkept : kept ∈ normalized
        · rw [if_pos hkept]
          constructor
          · rintro (h | h)
            · exact .inl h
            · exact .inr (.inr h)
          · rintro (h | rfl | h)
            · exact .inl h
            · exact .inl hkept
            · exact .inr h
        · rw [if_neg hkept, List.mem_append, List.mem_singleton, or_assoc, eq_comm]

/-- The tag of a trace without a hint. -/
def sessionUnlinked : String := "session_unlinked"

theorem requiredTags_facts (normalized : List String) (tags messages identity : Bool) :
    sessionUnlinked ∉ requiredTags normalized tags messages identity ∧
      (requiredTags normalized tags messages identity).length ≤ 2 := by
  simp only [requiredTags]
  split_ifs <;> decide

/-- A tag that is not one of the markers is kept unless the tags are full. -/
theorem boundTraceTags_unlinked (tags : List String) (messages identity : Bool) :
    (sessionUnlinked ∈ boundTraceTags tags messages identity →
      ∃ t ∈ tags, (normalTag t).1 = some sessionUnlinked) ∧
    (sessionUnlinked ∈ tags → sessionUnlinked ∈ boundTraceTags tags messages identity ∨
      (boundTraceTags tags messages identity).length = maxTraceTags) := by
  simp only [boundTraceTags]
  generalize hreq : requiredTags (normalizeTags tags [])
    (tags.any fun tag => (normalTag tag).2) messages identity = required
  obtain ⟨hnot, htwo⟩ := requiredTags_facts (normalizeTags tags [])
    (tags.any fun tag => (normalTag tag).2) messages identity
  rw [hreq] at hnot htwo
  refine ⟨fun hin => ?_, fun hin => ?_⟩
  · rcases List.mem_append.mp hin with hin | hin
    · have hnormal := (List.mem_filter.mp (List.mem_of_mem_take hin)).1
      exact (mem_normalizeTags.mp hnormal).resolve_left List.not_mem_nil
    · exact absurd (List.mem_filter.mp hin).1 hnot
  · have hnormal : sessionUnlinked ∈ normalizeTags tags [] :=
      mem_normalizeTags.mpr (.inr ⟨sessionUnlinked, hin, by decide⟩)
    have hkept : sessionUnlinked ∈ (normalizeTags tags []).filter fun tag => tag ∉ required :=
      List.mem_filter.mpr ⟨hnormal, by simpa using hnot⟩
    have hfree : ∀ tag ∈ (normalizeTags tags []).filter fun tag => tag ∉ required, tag ∉ required :=
      fun tag htag => by simpa using (List.mem_filter.mp htag).2
    generalize (normalizeTags tags []).filter (fun tag => tag ∉ required) = kept at hkept hfree
    rw [or_iff_not_imp_left]
    intro hout
    have hlong : maxTraceTags - required.length < kept.length := by
      by_contra hshort
      rw [List.take_of_length_le (not_lt.mp hshort)] at hout
      exact hout (List.mem_append_left _ hkept)
    have hmarkers : (required.filter fun tag =>
        tag ∉ kept.take (maxTraceTags - required.length)) = required := by
      rw [List.filter_eq_self]
      intro tag htag
      simpa using fun hin => hfree tag (List.mem_of_mem_take hin) htag
    rw [hmarkers, List.length_append, List.length_take, min_eq_left hlong.le]
    rw [maxTraceTags] at *
    omega

/-! ### Session linking -/

section
variable {lib : HashLib}

/-- For inputs in which no entry hides a usable hint: the usable hint decides the session key; the tag
    `session_unlinked` is added exactly without one, and stays unless the tags are full; and keys tell
    origins, credential scopes and hints apart. -/
theorem session_linked_by_hint {t : TraceInput} (h : t.Plain) :
    (∀ hint, t.usableHint = some hint → (buildTrace lib t).sessionKey = some (String.ofList
      ("session:".toList ++ hexEncode
        (lib.sha256 (scopeJson (t.origin lib) (t.credentialScope lib) hint))))) ∧
    (t.usableHint = none → (buildTrace lib t).sessionKey =
      some (String.ofList ("request:".toList ++ uuidText t.event.id))) ∧
    (t.usableHint = none → sessionUnlinked ∈ (buildTrace lib t).tags ∨
      (buildTrace lib t).tags.length = maxTraceTags) ∧
    (t.usableHint ≠ none → sessionUnlinked ∈ (buildTrace lib t).tags →
      ∃ tag ∈ t.suppliedTags, (normalTag tag).1 = some sessionUnlinked) ∧
    ∀ t' : TraceInput, t'.Plain → ∀ hint hint', t.usableHint = some hint →
      t'.usableHint = some hint' →
      Set.InjOn lib.sha256 {scopeJson (t.origin lib) (t.credentialScope lib) hint,
        scopeJson (t'.origin lib) (t'.credentialScope lib) hint'} →
      ((buildTrace lib t).sessionKey = (buildTrace lib t').sessionKey ↔
        t.origin lib = t'.origin lib ∧ t.credentialScope lib = t'.credentialScope lib ∧
          hint = hint') := by
  refine ⟨fun hint hhint => ?_, fun hhint => ?_, fun hhint => ?_, fun hhint hin => ?_, ?_⟩
  · rw [buildTrace_sessionKey h, hhint]
  · rw [buildTrace_sessionKey h, hhint]
  · refine (boundTraceTags_unlinked _ _ _).2 ?_
    rw [TraceInput.allTags, h.explicit, hhint]
    simp [sessionUnlinked]
  · obtain ⟨hint, hhint⟩ := Option.ne_none_iff_exists'.mp hhint
    obtain ⟨tag, htag, hnormal⟩ := (boundTraceTags_unlinked _ _ _).1 hin
    refine ⟨tag, ?_, hnormal⟩
    rw [TraceInput.allTags, h.explicit, hhint, Option.isNone_some, if_neg Bool.false_ne_true,
      List.append_nil] at htag
    rcases List.mem_append.mp htag with htag | htag
    · exact htag
    · split at htag
      · rw [List.mem_singleton.mp htag] at hnormal
        exact absurd hnormal (by decide)
      · cases htag
  · rintro t' h' hint hint' hhint hhint' hsha
    rw [buildTrace_sessionKey h, buildTrace_sessionKey h', hhint, hhint']
    constructor
    · intro heq
      have htext := String.ofList_injective (Option.some.inj heq)
      have hdigest := Subtype.ext (hexEncode_inj (List.append_cancel_left htext))
      exact scopeJson_inj (hsha (by simp) (by simp) hdigest)
    · rintro ⟨horigin, hscope, rfl⟩
      rw [horigin, hscope]

end

/-! ### Samples -/

/-- Sixty-four tags. -/
def manyTags : List String := (List.range 64).map fun n => String.ofList [Char.ofNat (48 + n)]

/-- SHA-256 on the scopes of the two hints below, and the origin of their upstream. -/
def sampleHashes : HashLib where
  sha256 := fun bytes =>
    if bytes = scopeJson "https://h" none "c" then
      ⟨[0x00, 0x31, 0x62, 0x58, 0x35, 0xa3, 0xe6, 0x09, 0xce, 0x0d, 0x51, 0xe3, 0x4f, 0x81, 0x07, 0xc5,
        0x72, 0x12, 0x40, 0x3b, 0xd6, 0x20, 0x46, 0x04, 0x91, 0x1b, 0xf0, 0x57, 0x8f, 0x7b, 0x34, 0x3f], rfl⟩
    else
      ⟨[0xb0, 0xc6, 0xb9, 0xc5, 0xb0, 0xe4, 0xb4, 0xad, 0x1e, 0xfa, 0x84, 0xed, 0xbe, 0xdb, 0x5d, 0x8f,
        0x9e, 0x30, 0x8e, 0x4f, 0x7c, 0x86, 0x89, 0x1c, 0x95, 0x44, 0xc5, 0x60, 0x79, 0xf1, 0x52, 0x32], rfl⟩
  urlOrigin := fun _ => some "https://h"

/-- A request that names its conversation. -/
def hinted (hint : String) : TraceInput :=
  { event := { id := 0, upstreamUrl := "https://h/v1" }
    request := some (.obj [("conversation", .str hint)]) }

theorem hinted_plain (hint : String) (h : hint ≠ "") : (hinted hint).Plain := by
  have hkey : (hinted hint).sessionKey = none := rfl
  refine ⟨by simp [hkey], fun _ entry hentry => ?_⟩
  cases (show some (.str hint) = some entry from hentry)
  exact ⟨fun heq => h (Option.some.inj heq), fun hnone => by cases hnone⟩

/-- Two conversations of one caller are two sessions. -/
theorem session_linked_by_hint_conversations :
    (buildTrace sampleHashes (hinted "c")).sessionKey ≠
      (buildTrace sampleHashes (hinted "d")).sessionKey := by
  obtain ⟨-, -, -, -, hkeys⟩ :=
    @session_linked_by_hint sampleHashes _ (hinted_plain "c" (by decide))
  have hinj : Set.InjOn sampleHashes.sha256
      {scopeJson "https://h" none "c", scopeJson "https://h" none "d"} := by
    rintro x (rfl | rfl) y (rfl | rfl) <;> decide +kernel
  intro heq
  have hsame := (hkeys (hinted "d") (hinted_plain "d" (by decide)) "c" "d" rfl rfl hinj).mp heq
  exact absurd hsame.2.2 (by decide)

/-- A trace with sixty-four tags and no hint. -/
def crowdedTrace : TraceInput :=
  { event := { id := 0, upstreamUrl := "https://h/v1", tags := manyTags } }

/-- It has no usable hint, and yet its tags do not say so. -/
theorem unlinked_tag_crowded_out :
    crowdedTrace.usableHint = none ∧
      sessionUnlinked ∉ (buildTrace sampleHashes crowdedTrace).tags :=
  ⟨by decide, by decide +kernel⟩

end Llmtrace.Trace
