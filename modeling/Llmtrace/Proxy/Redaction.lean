import Llmtrace.Schemes.Json
import Llmtrace.Schemes.Text

/-! Headers as they are stored (`redaction.rs`): the values of sensitive headers are replaced by their
    length and scheme, and the URL of the upstream-override header loses its userinfo, query values
    and fragment.

    Two header maps that differ only in such secrets are `Alike`. The stored form of both is the same
    except where a value that is not visible ASCII meets one that is, and where the upstream URL holds
    credentials: its hash is stored whatever `store_header_hash` says. -/

namespace Llmtrace.Proxy
open Schemes

/-! ### Header maps -/

/-- Names and values in iteration order; a name may occur several times. -/
abbrev HeaderMap := List (List Char × Bytes)

/-- `headers.get(name)`: the first value. -/
def HeaderMap.first (headers : HeaderMap) (name : List Char) : Option Bytes :=
  (headers.find? fun h => h.1 = name).map Prod.snd

/-- A byte that `HeaderValue::to_str` lets pass. -/
def visible (b : UInt8) : Bool := decide (0x20 ≤ b.toNat ∧ b.toNat < 0x7F) || b == 0x09

/-- A byte string as the characters of its bytes. -/
def latin1 (value : Bytes) : List Char := value.map fun b => Char.ofNat b.toNat

/-- `value.to_str().ok()` -/
def toStr (value : Bytes) : Option (List Char) := if value.all visible then some (latin1 value) else none

/-- What stands for a value that is no text. -/
def nonUtf8 : List Char := "<non-utf8>".toList

/-- The text of a value, with a marker for what is no text. -/
def valueText (value : Bytes) : List Char := (toStr value).getD nonUtf8

/-! ### Sensitive headers -/

/-- The section `redaction`. -/
structure RedactionConfig where
  sensitiveHeaders : List (List Char)
  storeHeaderHash : Bool

/-- `header_name_matches` -/
def headerNameMatches (name candidate : List Char) : Bool :=
  name == candidate ||
    candidate.getLast? == some '*' &&
      (candidate.reverse.dropWhile (· == '*')).reverse.isPrefixOf name

/-- `is_sensitive_header` -/
def isSensitiveHeader (name : List Char) (config : RedactionConfig) : Bool :=
  config.sensitiveHeaders.any (fun candidate => headerNameMatches name (toAsciiLowercase candidate)) ||
    ["api-key", "apikey", "token", "secret", "password"].any
      (fun part => containsText part.toList name) ||
    ["authorization", "proxy-authorization", "cookie", "set-cookie"].any
      (fun known => name == known.toList)

/-- The `Bearer` or `Basic` in front of a credential. -/
def authScheme (value : List Char) : Option (List Char) :=
  ((splitOnce ' ' value).map Prod.fst).filter fun scheme =>
    toAsciiLowercase scheme == "bearer".toList || toAsciiLowercase scheme == "basic".toList

/-- What is stored for a value that is hidden. -/
def redactedValue (value : List Char) (hash : Option String) : Json :=
  .obj [("length", .int (utf8Len value)), ("redacted", .bool true),
    ("scheme", Json.ofOption ((authScheme value).map String.ofList)), ("sha256", Json.ofOption hash)]

/-! ### The upstream URL -/

/-- A parsed URL; `base` is all that stands before the query, without the userinfo. -/
structure Url where
  base : List Char
  username : List Char
  password : Option (List Char)
  query : Option (List Char)
  fragment : Option (List Char)

/-- What is used of the `url` crate: parsing, the encoding that `set_query` applies, and
    serialisation. -/
structure UrlLib where
  parse : List Char → Option Url
  encodeQuery : List Char → List Char
  toText : Url → List Char

/-- `REDACTED_QUERY_VALUE` -/
def redactedQueryValue : List Char := "REDACTED".toList

/-- The name of a query pair. -/
def pairName (pair : List Char) : List Char := ((splitOnce '=' pair).map Prod.fst).getD pair

/-- `redact_query_string` -/
def redactQueryString (query : List Char) : List Char :=
  if query.isEmpty then []
  else ['&'].intercalate ((query.splitOn '&').map fun pair => pairName pair ++ '=' :: redactedQueryValue)

section
variable (lib : UrlLib) (sha256Hex : Bytes → String)

/-- `set_username` and `set_password` fail only on URLs that have no userinfo. -/
def redactUriQueryValues (value : List Char) : List Char :=
  match lib.parse value with
  | some url =>
    lib.toText { url with
      username := [], password := none, fragment := none
      query := url.query.map fun query => lib.encodeQuery (redactQueryString query) }
  | none =>
    let withoutFragment := ((splitOnce '#' value).map Prod.fst).getD value
    match splitOnce '?' withoutFragment with
    | none => withoutFragment
    | some (path, query) => path ++ '?' :: redactQueryString query

/-- The URL has a user name or a password. -/
def Url.hadSecret (url : Url) : Bool := !url.username.isEmpty || url.password.isSome

/-- `redact_upstream_header` -/
def redactUpstreamHeader (value : List Char) : Json :=
  match lib.parse value with
  | some url =>
    let redactedUrl := String.ofList (redactUriQueryValues lib value)
    if url.hadSecret then
      .obj [("redacted", .bool true), ("sha256", .str (sha256Hex (utf8 value))),
        ("url", .str redactedUrl)]
    else .str redactedUrl
  | none => .str (String.ofList value)

/-! ### `redact_headers` -/

/-- `RedactedHeaders` -/
structure RedactedHeaders where
  json : Json
  firstSecretHash : Option String
  credentialScopeHash : Option String

/-- The headers that name the credential, in their order. -/
def credentialHeaders : List (List Char) :=
  ["authorization", "x-api-key", "api-key", "openai-api-key", "anthropic-api-key",
    "x-goog-api-key"].map String.toList

variable (config : RedactionConfig) (upstreamHeader : List Char)

/-- The name of the upstream-override header, as it is compared. -/
def upstreamName : List Char := toAsciiLowercase (trim upstreamHeader)

/-- What is stored for one header. -/
def storedValue (name : List Char) (value : Bytes) : Json :=
  let text := valueText value
  if isSensitiveHeader name config then
    redactedValue text (if config.storeHeaderHash then some (sha256Hex (utf8 text)) else none)
  else if name = upstreamName upstreamHeader then redactUpstreamHeader lib sha256Hex text
  else .str (String.ofList text)

/-- The loop over the headers; a later value of a name replaces an earlier one. -/
def storeHeaders : HeaderMap → List (String × Json) → List (String × Json)
  | [], map => map
  | (name, value) :: headers, map =>
    let name := toAsciiLowercase name
    storeHeaders headers
      (put (String.ofList name) (storedValue lib sha256Hex config upstreamHeader name value) map)

/-- `redact_headers` -/
def redactHeaders (headers : HeaderMap) : RedactedHeaders :=
  let credentialScopeHash := (credentialHeaders.findSome? headers.first).map sha256Hex
  { json := .obj (storeHeaders lib sha256Hex config upstreamHeader headers [])
    firstSecretHash := if config.storeHeaderHash then credentialScopeHash else none
    credentialScopeHash }

end

/-! ### Header maps that differ in secrets -/

/-- The names of a query's pairs. -/
def queryNames (query : List Char) : List (List Char) :=
  if query.isEmpty then [] else (query.splitOn '&').map pairName

/-- URLs that differ in the userinfo, the query values and the fragment at most, and both hold
    credentials or neither. -/
structure Url.Alike (url url' : Url) : Prop where
  base : url.base = url'.base
  credentials : url.hadSecret = url'.hadSecret
  query : url.query.map queryNames = url'.query.map queryNames

section
variable (lib : UrlLib) (config : RedactionConfig) (upstreamHeader : List Char)

/-- One header in both maps. -/
inductive HeaderAlike : List Char × Bytes → List Char × Bytes → Prop
  | same (name : List Char) (value : Bytes) : HeaderAlike (name, value) (name, value)
  | sensitive {name : List Char} {value value' : Bytes} :
      isSensitiveHeader (toAsciiLowercase name) config = true → value.length = value'.length →
      authScheme (latin1 value) = authScheme (latin1 value') →
      HeaderAlike (name, value) (name, value')
  | upstream {name : List Char} {value value' : Bytes} {text text' : List Char} {url url' : Url} :
      toAsciiLowercase name = upstreamName upstreamHeader → toStr value = some text →
      toStr value' = some text' → lib.parse text = some url → lib.parse text' = some url' →
      url.Alike url' → HeaderAlike (name, value) (name, value')

/-- The same names in the same order, with values that differ in secrets at most. -/
def Alike (headers headers' : HeaderMap) : Prop :=
  List.Forall₂ (HeaderAlike lib config upstreamHeader) headers headers'

/-- The value that stays: the last one of a name. -/
def lastValue (key : List Char) : HeaderMap → Option Bytes
  | [] => none
  | (name, value) :: headers =>
    (lastValue key headers).or (if toAsciiLowercase name = key then some value else none)

/-- The upstream URL in a value holds credentials. -/
def holdsCredentials (value : Bytes) : Bool := (lib.parse (valueText value)).any Url.hadSecret

/-- Where two values of a header are stored alike. For a sensitive header this asks for what such a
    header keeps anyway, and that both values are text or neither is; the marker of the latter may
    also happen to look like the former. -/
def StoredAlike (name : List Char) (value value' : Bytes) : Prop :=
  if isSensitiveHeader name config then
    value.length = value'.length ∧ authScheme (latin1 value) = authScheme (latin1 value') ∧
      ((toStr value).isSome = (toStr value').isSome ∨
        value.length = nonUtf8.length ∧ authScheme (latin1 value) = none)
  else if name = upstreamName upstreamHeader ∧ holdsCredentials lib value = true then
    valueText value = valueText value'
  else True

end

/-! ### Texts -/

theorem latin1_toNat (b : UInt8) : (Char.ofNat b.toNat).toNat = b.toNat := by
  have hb := b.toNat_lt
  rw [Char.toNat_ofNat, if_pos]
  exact .inl (by omega)

theorem toStr_eq_some {value : Bytes} {text : List Char} (h : toStr value = some text) :
    text = latin1 value ∧ utf8Len text = value.length := by
  unfold toStr at h
  split at h
  · rename_i hvisible
    cases h
    refine ⟨rfl, ?_⟩
    rw [utf8Len_ascii, latin1, List.length_map]
    rintro c hc
    obtain ⟨b, hb, rfl⟩ := List.mem_map.mp hc
    have hsmall := List.all_eq_true.mp hvisible b hb
    rw [visible, Bool.or_eq_true, decide_eq_true_eq, beq_iff_eq] at hsmall
    rw [latin1_toNat]
    rcases hsmall with hsmall | rfl
    · omega
    · decide
  · cases h

theorem nonUtf8_stored : utf8Len nonUtf8 = nonUtf8.length ∧ authScheme nonUtf8 = none := by decide

theorem redactedValue_inj {text text' : List Char} :
    redactedValue text none = redactedValue text' none ↔
      utf8Len text = utf8Len text' ∧ authScheme text = authScheme text' := by
  have hscheme : Json.ofOption ((authScheme text).map String.ofList) =
      Json.ofOption ((authScheme text').map String.ofList) ↔ authScheme text = authScheme text' := by
    cases authScheme text with
    | none => cases authScheme text' <;> simp [Json.ofOption]
    | some scheme => cases authScheme text' <;> simp [Json.ofOption, String.ofList_inj]
  simp only [redactedValue, Json.obj.injEq, List.cons.injEq, Prod.mk.injEq, true_and, and_true,
    Json.int.injEq, Nat.cast_inj, hscheme]

theorem redactQueryString_eq (query : List Char) : redactQueryString query =
    ['&'].intercalate ((queryNames query).map fun name => name ++ '=' :: redactedQueryValue) := by
  rw [redactQueryString, queryNames]
  split
  · rfl
  · rw [List.map_map]
    rfl

/-- The names decide the redacted query. -/
theorem redactQueryString_alike {query query' : List Char}
    (h : queryNames query = queryNames query') : redactQueryString query = redactQueryString query' := by
  rw [redactQueryString_eq, redactQueryString_eq, h]

section
variable {lib : UrlLib} {sha256Hex : Bytes → String} {config : RedactionConfig}
  {upstreamHeader : List Char}

/-- Of the URL, only what both have in common is stored. -/
theorem redactUri_alike {text text' : List Char} {url url' : Url} (h : lib.parse text = some url)
    (h' : lib.parse text' = some url') (halike : url.Alike url') :
    redactUriQueryValues lib text = redactUriQueryValues lib text' := by
  have hquery : (url.query.map fun query => lib.encodeQuery (redactQueryString query)) =
      url'.query.map fun query => lib.encodeQuery (redactQueryString query) := by
    have hnames := halike.query
    cases hq : url.query with
    | none =>
      cases hq' : url'.query with
      | none => rfl
      | some q' => rw [hq, hq'] at hnames; cases hnames
    | some q =>
      cases hq' : url'.query with
      | none => rw [hq, hq'] at hnames; cases hnames
      | some q' =>
        rw [hq, hq', Option.map_some, Option.map_some, Option.some.injEq] at hnames
        rw [Option.map_some, Option.map_some, redactQueryString_alike hnames]
  simp only [redactUriQueryValues, h, h', halike.base, hquery]

theorem redactUpstream_alike {text text' : List Char} {url url' : Url}
    (hsha : sha256Hex (utf8 text) = sha256Hex (utf8 text') → utf8 text = utf8 text')
    (h : lib.parse text = some url) (h' : lib.parse text' = some url') (halike : url.Alike url') :
    redactUpstreamHeader lib sha256Hex text = redactUpstreamHeader lib sha256Hex text' ↔
      (url.hadSecret = true → text = text') := by
  simp only [redactUpstreamHeader, h, h', redactUri_alike h h' halike, ← halike.credentials]
  by_cases hsecret : url.hadSecret = true
  · simp only [hsecret, if_true, Json.obj.injEq, List.cons.injEq, Prod.mk.injEq, true_and, and_true,
      Json.str.injEq, forall_const]
    exact ⟨fun heq => utf8_injective (hsha heq), fun heq => by rw [heq]⟩
  · simp only [hsecret, Bool.false_eq_true, if_false, false_imp_iff]

/-- Under a sensitive name length and scheme are stored; a value that is no text has the marker's. -/
theorem redactedValue_alike (hstore : config.storeHeaderHash = false) {name : List Char}
    {value value' : Bytes} (h : HeaderAlike lib config upstreamHeader (name, value) (name, value'))
    (hsens : isSensitiveHeader (toAsciiLowercase name) config = true) :
    storedValue lib sha256Hex config upstreamHeader (toAsciiLowercase name) value =
        storedValue lib sha256Hex config upstreamHeader (toAsciiLowercase name) value' ↔
      StoredAlike lib config upstreamHeader (toAsciiLowercase name) value value' := by
  simp only [storedValue, StoredAlike, hstore, Bool.false_eq_true, if_false, if_pos hsens,
    redactedValue_inj]
  cases ht : toStr value with
  | some text =>
    obtain ⟨rfl, hlen⟩ := toStr_eq_some ht
    cases ht' : toStr value' with
    | some text' =>
      obtain ⟨rfl, hlen'⟩ := toStr_eq_some ht'
      simp [valueText, ht, ht', hlen, hlen']
    | none =>
      -- a text against the marker
      rcases h with _ | ⟨-, hlength, hscheme⟩ | ⟨-, -, hval, -⟩
      · rw [ht] at ht'; cases ht'
      · simp [valueText, ht, ht', hlen, nonUtf8_stored, hlength, hscheme]
      · rw [ht'] at hval; cases hval
  | none =>
    cases ht' : toStr value' with
    | some text' =>
      obtain ⟨rfl, hlen'⟩ := toStr_eq_some ht'
      rcases h with _ | ⟨-, hlength, hscheme⟩ | ⟨-, hval, -⟩
      · rw [ht] at ht'; cases ht'
      · simp [valueText, ht, ht', hlen', nonUtf8_stored, hlength, hscheme, eq_comm]
      · rw [ht] at hval; cases hval
    | none =>
      rcases h with _ | ⟨-, hlength, hscheme⟩ | ⟨-, hval, -⟩
      · simp
      · simp [valueText, ht, ht', hlength, hscheme]
      · rw [ht] at hval; cases hval

/-- One header: the two values are stored alike exactly under `StoredAlike`. -/
theorem storedValue_alike (hstore : config.storeHeaderHash = false) {name : List Char}
    {value value' : Bytes}
    (hsha : sha256Hex (utf8 (valueText value)) = sha256Hex (utf8 (valueText value')) →
      utf8 (valueText value) = utf8 (valueText value'))
    (h : HeaderAlike lib config upstreamHeader (name, value) (name, value')) :
    storedValue lib sha256Hex config upstreamHeader (toAsciiLowercase name) value =
        storedValue lib sha256Hex config upstreamHeader (toAsciiLowercase name) value' ↔
      StoredAlike lib config upstreamHeader (toAsciiLowercase name) value value' := by
  by_cases hsens : isSensitiveHeader (toAsciiLowercase name) config = true
  · exact redactedValue_alike hstore h hsens
  simp only [storedValue, StoredAlike, hstore, Bool.false_eq_true, if_false, if_neg hsens]
  rcases h with _ | ⟨hsens', -⟩ | ⟨hname, hval, hval', hurl, hurl', halike⟩
  · simp
  · exact absurd hsens' hsens
  · rename_i text text' url url'
    have htext : valueText value = text := by rw [valueText, hval]; rfl
    have htext' : valueText value' = text' := by rw [valueText, hval']; rfl
    rw [htext, htext'] at hsha
    have hheld : holdsCredentials lib value = url.hadSecret := by
      rw [holdsCredentials, htext, hurl]
      rfl
    rw [if_pos hname, if_pos hname, htext, htext', redactUpstream_alike hsha hurl hurl' halike,
      hheld]
    by_cases hsecret : url.hadSecret = true
    · rw [if_pos ⟨hname, hsecret⟩]
      exact forall_prop_of_true hsecret
    · rw [if_neg fun hand => hsecret hand.2]
      exact iff_of_true (fun hyes => absurd hyes hsecret) trivial

/-! ### Whole maps -/

theorem storeHeaders_ascending : ∀ (headers : HeaderMap) {map : List (String × Json)},
    Ascending map → Ascending (storeHeaders lib sha256Hex config upstreamHeader headers map)
  | [], _, h => h
  | _ :: headers, _, h => storeHeaders_ascending headers h.put

/-- A loop that puts a value under each name leaves the last one of each name. -/
theorem fetch_of_puts {loop : HeaderMap → List (String × Json) → List (String × Json)}
    {entry : List Char → Bytes → Json} (hnil : ∀ map, loop [] map = map)
    (hcons : ∀ name value headers map, loop ((name, value) :: headers) map =
      loop headers (put (String.ofList (toAsciiLowercase name)) (entry (toAsciiLowercase name) value) map))
    (key : List Char) (headers : HeaderMap) (map : List (String × Json)) :
    fetch (String.ofList key) (loop headers map) =
      ((lastValue key headers).map (entry key)).or (fetch (String.ofList key) map) := by
  induction headers generalizing map with
  | nil => rw [hnil, lastValue, Option.map_none, Option.none_or]
  | cons header headers ih =>
    obtain ⟨name, value⟩ := header
    rw [hcons, ih, fetch_put, lastValue]
    cases lastValue key headers with
    | some v => rfl
    | none =>
      by_cases hname : toAsciiLowercase name = key
      · simp [hname]
      · simp [hname, String.ofList_inj, Ne.symm hname]

theorem fetch_storeHeaders (key : List Char) (headers : HeaderMap) (map : List (String × Json)) :
    fetch (String.ofList key) (storeHeaders lib sha256Hex config upstreamHeader headers map) =
      ((lastValue key headers).map (storedValue lib sha256Hex config upstreamHeader key)).or
        (fetch (String.ofList key) map) :=
  fetch_of_puts (fun _ => rfl) (fun _ _ _ _ => rfl) key headers map

/-- The last values of a name in two maps that differ in secrets. -/
theorem lastValue_alike (key : List Char) {headers headers' : HeaderMap}
    (h : Alike lib config upstreamHeader headers headers') :
    lastValue key headers = none ∧ lastValue key headers' = none ∨
      ∃ name value value', toAsciiLowercase name = key ∧ lastValue key headers = some value ∧
        lastValue key headers' = some value' ∧
        HeaderAlike lib config upstreamHeader (name, value) (name, value') ∧
        (name, value) ∈ headers ∧ (name, value') ∈ headers' := by
  induction h with
  | nil => exact .inl ⟨rfl, rfl⟩
  | cons hhead htail ih =>
    rename_i head head' headers headers'
    obtain ⟨name, value⟩ := head
    obtain ⟨name', value'⟩ := head'
    obtain rfl : name = name' := by cases hhead <;> rfl
    rcases ih with ⟨hnone, hnone'⟩ | ⟨n, v, v', hn, hv, hv', halike, hmem, hmem'⟩
    · by_cases hname : toAsciiLowercase name = key
      · exact .inr ⟨name, value, value', hname, by simp [lastValue, hnone, hname],
          by simp [lastValue, hnone', hname], hhead, List.mem_cons_self, List.mem_cons_self⟩
      · exact .inl ⟨by simp [lastValue, hnone, hname], by simp [lastValue, hnone', hname]⟩
    · exact .inr ⟨n, v, v', hn, by simp [lastValue, hv], by simp [lastValue, hv'], halike,
        List.mem_cons_of_mem _ hmem, List.mem_cons_of_mem _ hmem'⟩

/-- The byte strings that are hashed for the values of the two maps. -/
def hashedTexts (headers headers' : HeaderMap) : Set Bytes :=
  {b | ∃ h ∈ headers ++ headers', b = utf8 (valueText h.2)}

/-- Without stored hashes, header maps that differ in secrets are stored alike exactly when the last
    values of each name are. -/
theorem stored_headers_alike (hstore : config.storeHeaderHash = false) {headers headers' : HeaderMap}
    (hsha : Set.InjOn sha256Hex (hashedTexts headers headers'))
    (h : Alike lib config upstreamHeader headers headers') :
    (redactHeaders lib sha256Hex config upstreamHeader headers).json =
          (redactHeaders lib sha256Hex config upstreamHeader headers').json ∧
        (redactHeaders lib sha256Hex config upstreamHeader headers).firstSecretHash =
          (redactHeaders lib sha256Hex config upstreamHeader headers').firstSecretHash ↔
      ∀ name value value', lastValue name headers = some value →
        lastValue name headers' = some value' →
        StoredAlike lib config upstreamHeader name value value' := by
  have hsame : ∀ name value value', (name, value) ∈ headers → (name, value') ∈ headers' →
      sha256Hex (utf8 (valueText value)) = sha256Hex (utf8 (valueText value')) →
      utf8 (valueText value) = utf8 (valueText value') := fun name value value' hmem hmem' heq =>
    hsha ⟨_, List.mem_append_left _ hmem, rfl⟩ ⟨_, List.mem_append_right _ hmem', rfl⟩ heq
  have hnil : Ascending ([] : List (String × Json)) := List.Pairwise.nil
  simp only [redactHeaders, hstore, Bool.false_eq_true, if_false, and_true, Json.obj.injEq]
  constructor
  · rintro heq key value value' hv hv'
    have hfetch := congrArg (fetch (String.ofList key)) heq
    rw [fetch_storeHeaders, fetch_storeHeaders, hv, hv'] at hfetch
    rcases lastValue_alike key h with ⟨hnone, -⟩ | ⟨name, v, v', rfl, hl, hl', halike, hmem, hmem'⟩
    · rw [hv] at hnone; cases hnone
    · rw [hv] at hl; cases hl
      rw [hv'] at hl'; cases hl'
      exact (storedValue_alike hstore (hsame _ _ _ hmem hmem') halike).mp (Option.some.inj hfetch)
  · intro hall
    refine (storeHeaders_ascending headers hnil).ext (storeHeaders_ascending headers' hnil) fun k => ?_
    obtain ⟨key, rfl⟩ : ∃ key, String.ofList key = k := ⟨k.toList, String.ofList_toList⟩
    rw [fetch_storeHeaders, fetch_storeHeaders]
    rcases lastValue_alike key h with ⟨hnone, hnone'⟩ | ⟨name, v, v', rfl, hl, hl', halike, hmem, hmem'⟩
    · rw [hnone, hnone']
    · rw [hl, hl', Option.map_some, Option.map_some,
        (storedValue_alike hstore (hsame _ _ _ hmem hmem') halike).mpr (hall _ v v' hl hl')]

end

/-! ### Two upstream URLs, and two keys -/

/-- The `url` crate on the two URLs below. -/
def sampleUrls : UrlLib where
  parse := fun text =>
    if text = "https://u:a@h/".toList then
      some ⟨"https://h/".toList, ['u'], some ['a'], none, none⟩
    else if text = "https://u:b@h/".toList then
      some ⟨"https://h/".toList, ['u'], some ['b'], none, none⟩
    else none
  encodeQuery := id
  toText := fun url => url.base

/-- SHA-256 on the same two texts. -/
def sampleSha256 (bytes : Bytes) : String :=
  if bytes = utf8 "https://u:a@h/".toList then
    "60255abf5d2735f9709315b7ef97bd2228f997cc38026e9278d8a7f1cf98d258"
  else if bytes = utf8 "https://u:b@h/".toList then
    "a849bac9c0f22f6ebfb8a738a675d51231550a8aa676bff13aa134fac6e6337f"
  else ""

/-- An upstream-override header whose password is `secret`. -/
def upstreamWith (secret : Char) : HeaderMap :=
  [("x-up".toList, utf8 ("https://u:".toList ++ secret :: "@h/".toList))]

/-- A configuration that stores no hashes. -/
def noHashes : RedactionConfig := ⟨[], false⟩

/-- Two keys of one length are stored alike. -/
theorem stored_headers_alike_bearer :
    let sha : Bytes → String := fun bytes =>
      if bytes = utf8 "Bearer a".toList then
        "122c4e371d393490e5789c418af3d3854ed07f2b8b087f8ac4b418dba01cf197"
      else "929ce5eeb27132f67ed7163993eaa8e4d5e7dbd26d2a1005a94d4314b385688d"
    let keyed : Char → HeaderMap := fun key =>
      [("authorization".toList, utf8 ("Bearer ".toList ++ [key]))]
    (redactHeaders sampleUrls sha noHashes "x-up".toList (keyed 'a')).json =
      (redactHeaders sampleUrls sha noHashes "x-up".toList (keyed 'b')).json := by
  intro sha keyed
  have hinj : Set.InjOn sha (hashedTexts (keyed 'a') (keyed 'b')) := by
    rintro x ⟨h, hh, rfl⟩ y ⟨h', hh', rfl⟩
    simp only [keyed, List.cons_append, List.nil_append, List.mem_cons, List.not_mem_nil,
      or_false] at hh hh'
    rcases hh with rfl | rfl <;> rcases hh' with rfl | rfl <;> decide
  have halike : Alike sampleUrls noHashes "x-up".toList (keyed 'a') (keyed 'b') :=
    .cons (.sensitive (by decide) (by decide) (by decide)) .nil
  refine ((stored_headers_alike rfl hinj halike).mpr ?_).1
  rintro name value value' hv hv'
  simp only [keyed, lastValue, Option.none_or] at hv hv'
  split at hv
  · rename_i hname
    rw [if_pos hname] at hv'
    cases hname
    cases hv
    cases hv'
    exact ⟨by decide, by decide, .inl (by decide)⟩
  · cases hv

theorem upstreamWith_alike :
    Alike sampleUrls noHashes "x-up".toList (upstreamWith 'a') (upstreamWith 'b') :=
  .cons (.upstream (by decide) rfl rfl rfl rfl ⟨rfl, rfl, rfl⟩) .nil

/-- With a password in the upstream URL, the stored headers show which one it is. -/
theorem stored_headers_leak_password :
    noHashes.storeHeaderHash = false ∧
      Set.InjOn sampleSha256 (hashedTexts (upstreamWith 'a') (upstreamWith 'b')) ∧
      Alike sampleUrls noHashes "x-up".toList (upstreamWith 'a') (upstreamWith 'b') ∧
      (redactHeaders sampleUrls sampleSha256 noHashes "x-up".toList (upstreamWith 'a')).json ≠
        (redactHeaders sampleUrls sampleSha256 noHashes "x-up".toList (upstreamWith 'b')).json := by
  refine ⟨rfl, ?_, upstreamWith_alike, ?_⟩
  · rintro x ⟨h, hh, rfl⟩ y ⟨h', hh', rfl⟩
    simp only [upstreamWith, List.cons_append, List.nil_append, List.mem_cons, List.not_mem_nil,
      or_false] at hh hh'
    rcases hh with rfl | rfl <;> rcases hh' with rfl | rfl <;> decide
  · intro heq
    have hfetch := congrArg (fun v => ((v.field "x-up").field "sha256").asStr) heq
    revert hfetch
    decide

end Llmtrace.Proxy
