import Llmtrace.Plugins.Cache
import Llmtrace.Proxy.Upstream
import Llmtrace.Schemes.Linear
import Llmtrace.Schemes.Run

/-! What the host does for a plugin (`plugins/http.rs` and the host calls of `plugins/cache.rs`). The
    module is code of somebody else: between its calls it may do anything to its own memory, and it may
    call with any arguments.

    A lookup goes to a configured endpoint and nowhere else, with the credential that the host adds and
    without a header of the plugin that would stand for it; the host writes only into the buffer of the
    call. Nothing that the plugin can see depends on the credential. -/

namespace Llmtrace.Plugins
open Schemes Proxy

deriving instance DecidableEq for UpstreamUrl

/-! ### Endpoints -/

/-- `strip_suffix` -/
def stripSuffix (tail s : List Char) : Option (List Char) :=
  if tail.isSuffixOf s then some (s.take (s.length - tail.length)) else none

/-- The end of an entry that leaves the query open. -/
def anyQuerySuffix : List Char := ['?', '*']

/-- An entry for any query has none of its own. -/
structure AllowedUrl where
  url : UpstreamUrl
  anyQuery : Bool
  bare : anyQuery = true → url.query = none

/-- `AllowedUrl::parse` -/
def AllowedUrl.parse (lib : UpstreamLib) (entry : List Char) : Option AllowedUrl :=
  match stripSuffix anyQuerySuffix entry with
  | some base =>
    (lib.parse base).bind fun url =>
      if url.query.isSome then none else some ⟨{ url with query := none }, true, fun _ => rfl⟩
  | none => (lib.parse entry).map fun url => ⟨url, false, nofun⟩

/-- `AllowedUrl::allows` -/
def AllowedUrl.allows (allowed : AllowedUrl) (candidate : UpstreamUrl) : Bool :=
  if !allowed.anyQuery then decide (allowed.url = candidate)
  else decide ({ candidate with query := none } = allowed.url)

/-- What `validate_plugins` asks of an entry of `http_get_urls`. -/
def validEndpoint (lib : UpstreamLib) (endpoint : List Char) : Bool :=
  let wildcard := (stripSuffix anyQuerySuffix endpoint).isSome
  let base := (stripSuffix anyQuerySuffix endpoint).getD endpoint
  (lib.parse base).any (fun url =>
    (url.scheme == "http".toList || url.scheme == "https".toList) && url.host.isSome &&
      url.username.isEmpty && url.password.isNone && url.fragment.isNone &&
      !(wildcard && url.query.isSome) && url.path.getLast? != some asterisk) &&
    endpoint.all fun c => decide (c.toNat < 128)

/-! ### The host state -/

/-- A `HttpGet`; the names of a JSON object are distinct. -/
structure HttpGet where
  url : List Char
  headers : List (List Char × List Char)

/-- What is used of other crates: URLs, the JSON of a request and of an answer (a body that is not
    UTF-8 has none), the syntax of headers, and the digest of the cache. -/
structure HostLib where
  url : UpstreamLib
  readRequest : Bytes → Option HttpGet
  writeAnswer : ℕ → Bytes → Option Bytes
  headerName : List Char → Bool
  headerValue : List Char → Bool
  sha256Hex : Bytes → String

/-- What an invocation of a loaded plugin is given. -/
structure PluginHost (lib : HostLib) where
  endpoints : List (List Char)
  urls : List AllowedUrl
  httpAuth : Option (List Char × List Char)
  cacheConfig : CacheConfig
  valid : ∀ endpoint ∈ endpoints, validEndpoint lib.url endpoint = true
  loaded : endpoints.mapM (AllowedUrl.parse lib.url) = some urls

/-- A request that leaves the host. -/
structure LookupRequest where
  url : UpstreamUrl
  headers : List (List Char × List Char)

/-- `sent` and `answers` are history: the requests that went out, and what the calls returned. The cache
    is shared with the other invocations. -/
structure HostState where
  memory : Bytes
  cache : CacheState
  calls : ℕ := 0
  sent : List LookupRequest := []
  answers : List ℤ := []

/-- What becomes of a request. -/
inductive Lookup where
  /-- There is no runtime, or no time left. -/
  | unsent
  /-- It fails on the way, or takes too long. -/
  | failed
  | answered (status : ℕ) (chunks : List Bytes)

/-- `MAX_REQUEST_BYTES` -/
def maxRequestBytes : ℕ := 16 * 1024

/-- `MAX_RESPONSE_BYTES` -/
def maxResponseBytes : ℕ := 64 * 1024

/-! ### `http_get` -/

/-- The headers that a plugin may not set. -/
def unsupportedHeaders : List (List Char) :=
  ["host", "connection", "content-length", "transfer-encoding"].map String.toList

section
variable (lib : HostLib)

/-- The headers of a lookup: those of the plugin, and the credential of the host behind them. -/
def lookupHeaders (httpAuth : Option (List Char × List Char)) :
    List (List Char × List Char) → Option (List (List Char × List Char))
  | [] =>
    match httpAuth with
    | none => some []
    | some (name, value) =>
      if lib.headerName name && lib.headerValue value then some [(name, value)] else none
  | (name, value) :: headers =>
    if unsupportedHeaders.contains (toAsciiLowercase name) then none
    else if httpAuth.any fun auth => toAsciiLowercase auth.1 == toAsciiLowercase name then
      -- the host's credential wins
      lookupHeaders httpAuth headers
    else if lib.headerName name && lib.headerValue value then
      (lookupHeaders httpAuth headers).map fun rest => (name, value) :: rest
    else none

/-- The body of an answer, if it is not too large. -/
def collectBody : Bytes → List Bytes → Option Bytes
  | body, [] => some body
  | body, chunk :: chunks =>
    if maxResponseBytes < body.length + chunk.length then none else collectBody (body ++ chunk) chunks

/-- The bytes that are written for the plugin. -/
def lookupAnswer (capacity : ℕ) : Lookup → Option Bytes
  | .answered status chunks =>
    ((collectBody [] chunks).bind (lib.writeAnswer status)).filter fun bytes => bytes.length ≤ capacity
  | _ => none

variable {lib} (host : PluginHost lib)

/-- The request of a call, if it may go out. -/
def lookupRequest (memory : Bytes) (ptr len out capacity : ℕ) : Option LookupRequest := do
  let bytes ← slice memory ptr (ptr + len)
  let request ← lib.readRequest bytes
  let url ← lib.url.parse request.url
  if host.urls.any fun allowed => allowed.allows url then
    if memory.length < out + capacity then none
    else
      let headers ← lookupHeaders lib host.httpAuth request.headers
      return ⟨url, headers⟩
  else none

/-- `http_get`: the arguments, the request, and the answer into the buffer. -/
def httpGet (s : HostState) (ptr len out capacity : ℤ) (lookup : Lookup) : HostState × ℤ :=
  if ptr < 0 ∨ len ≤ 0 ∨ maxRequestBytes < len.toNat ∨ out < 0 ∨ capacity ≤ 0 ∨
      maxResponseBytes < capacity.toNat ∨ 4 ≤ s.calls then (s, -1)
  else
    let s := { s with calls := s.calls + 1 }
    match lookupRequest host s.memory ptr.toNat len.toNat out.toNat capacity.toNat, lookup with
    | none, _ | _, .unsent => (s, -1)
    | some request, lookup =>
      let s := { s with sent := s.sent ++ [request] }
      match (lookupAnswer lib capacity.toNat lookup).bind fun bytes =>
          (overwrite s.memory out.toNat bytes).map fun memory => (memory, bytes.length) with
      | none => (s, -1)
      | some (memory, written) => ({ s with memory }, written)

/-! ### The host calls of the cache -/

/-- `cache_get` -/
def cacheGet (s : HostState) (keyPtr keyLen outPtr outCapacity : ℤ) (now : ℕ) : HostState × ℤ :=
  if keyPtr < 0 ∨ keyLen ≤ 0 ∨ maxKeyBytes < keyLen.toNat then (s, -1)
  else
    match slice s.memory keyPtr.toNat (keyPtr.toNat + keyLen.toNat) with
    | none => (s, -1)
    | some key =>
      let (cache, found) := s.cache.get lib.sha256Hex host.cacheConfig key now
      let s := { s with cache }
      match found with
      | none => (s, 0)
      | some value =>
        if outPtr < 0 ∨ outCapacity < 0 ∨ outCapacity.toNat < value.length then (s, -1)
        else
          match overwrite s.memory outPtr.toNat value with
          | none => (s, -1)
          | some memory => ({ s with memory }, value.length)

/-- `cache_put` -/
def cachePut (s : HostState) (keyPtr keyLen valuePtr valueLen ttlSecs : ℤ) (now : ℕ) : HostState × ℤ :=
  if keyPtr < 0 ∨ keyLen ≤ 0 ∨ maxKeyBytes < keyLen.toNat ∨ valuePtr < 0 ∨ valueLen ≤ 0 ∨
      maxValueBytes < valueLen.toNat ∨ ttlSecs < 0 ∨ maxEntryTtlSecs < ttlSecs.toNat then (s, -1)
  else
    match slice s.memory keyPtr.toNat (keyPtr.toNat + keyLen.toNat),
        slice s.memory valuePtr.toNat (valuePtr.toNat + valueLen.toNat) with
    | some key, some value =>
      let (cache, accepted) := s.cache.put lib.sha256Hex host.cacheConfig key value ttlSecs.toNat now
      ({ s with cache }, if accepted then 0 else -1)
    | _, _ => (s, -1)

/-! ### An invocation -/

/-- What happens during an invocation. -/
inductive HostAction where
  /-- The module runs: its memory never shrinks, and is otherwise its own. -/
  | compute (memory : Bytes)
  | httpGet (ptr len out capacity : ℤ) (lookup : Lookup)
  | cacheGet (keyPtr keyLen outPtr outCapacity : ℤ) (now : ℕ)
  | cachePut (keyPtr keyLen valuePtr valueLen ttlSecs : ℤ) (now : ℕ)
  /-- Another invocation uses the cache. -/
  | elsewhere (call : CacheCall)

/-- The state after a call, and what it has returned. -/
def HostState.returned : HostState × ℤ → HostState
  | (s, answer) => { s with answers := s.answers ++ [answer] }

/-- A call of the host, or what the module or another invocation does between two calls. -/
def hostStep (s : HostState) : HostAction → Option HostState
  | .compute memory => if s.memory.length ≤ memory.length then some { s with memory } else none
  | .httpGet ptr len out capacity lookup => some (.returned (httpGet host s ptr len out capacity lookup))
  | .cacheGet keyPtr keyLen outPtr outCapacity now =>
    some (.returned (cacheGet host s keyPtr keyLen outPtr outCapacity now))
  | .cachePut keyPtr keyLen valuePtr valueLen ttlSecs now =>
    some (.returned (cachePut host s keyPtr keyLen valuePtr valueLen ttlSecs now))
  | .elsewhere call => some { s with cache := (s.cache.call lib.sha256Hex host.cacheConfig call).1 }

end

/-! ### What a lookup may be -/

/-- The URLs that an entry of `http_get_urls` stands for. -/
inductive Names (lib : UpstreamLib) (endpoint : List Char) (url : UpstreamUrl) : Prop
  | exact : stripSuffix anyQuerySuffix endpoint = none → lib.parse endpoint = some url → Names lib endpoint url
  | anyQuery {base : List Char} {bare : UpstreamUrl} : endpoint = base ++ anyQuerySuffix →
      lib.parse base = some bare → bare.query = none → url = { bare with query := url.query } →
      Names lib endpoint url

section
variable {lib : HostLib} (host : PluginHost lib)

/-- A request that the configuration allows. -/
structure Permitted (request : LookupRequest) : Prop where
  endpoint : ∃ endpoint ∈ host.endpoints, Names lib.url endpoint request.url
  scheme : request.url.scheme = "http".toList ∨ request.url.scheme = "https".toList
  bare : request.url.host.isSome ∧ request.url.username = [] ∧ request.url.password = none ∧
    request.url.fragment = none
  supported : ∀ header ∈ request.headers,
    host.httpAuth = some header ∨ toAsciiLowercase header.1 ∉ unsupportedHeaders
  credential : ∀ name value, host.httpAuth = some (name, value) →
    request.headers.filter (fun header => toAsciiLowercase header.1 == toAsciiLowercase name) = [(name, value)]

variable {host}

theorem stripSuffix_eq_some {tail s base : List Char} : stripSuffix tail s = some base ↔ s = base ++ tail := by
  rw [stripSuffix]
  constructor
  · intro h
    split at h
    · rename_i hsuffix
      obtain ⟨front, rfl⟩ := List.isSuffixOf_iff_suffix.mp hsuffix
      cases h
      rw [List.length_append, Nat.add_sub_cancel_right, List.take_left]
    · cases h
  · rintro rfl
    rw [if_pos (List.isSuffixOf_iff_suffix.mpr (List.suffix_append _ _)), List.length_append,
      Nat.add_sub_cancel_right, List.take_left]

/-- An entry lets pass what it names. -/
theorem allows_named {endpoint : List Char} {allowed : AllowedUrl} {url : UpstreamUrl}
    (h : AllowedUrl.parse lib.url endpoint = some allowed) (hallows : allowed.allows url = true) :
    Names lib.url endpoint url := by
  unfold AllowedUrl.parse at h
  split at h
  · rename_i base hbase
    obtain ⟨parsed, hparsed, h⟩ := Option.bind_eq_some_iff.mp h
    split at h
    · cases h
    · rename_i hquery
      cases h
      rw [Option.not_isSome_iff_eq_none] at hquery
      refine .anyQuery (stripSuffix_eq_some.mp hbase) hparsed hquery ?_
      have heq : ({ url with query := none } : UpstreamUrl) = { parsed with query := none } := by
        simpa [AllowedUrl.allows] using hallows
      cases url
      cases parsed
      simp only [UpstreamUrl.mk.injEq] at heq ⊢
      simp [heq]
  · rename_i hnone
    obtain ⟨parsed, hparsed, rfl⟩ := Option.map_eq_some_iff.mp h
    have heq : parsed = url := by simpa [AllowedUrl.allows] using hallows
    exact .exact hnone (heq ▸ hparsed)

/-- A validated entry names only web URLs without credentials. -/
theorem Names.valid {endpoint : List Char} {url : UpstreamUrl} (h : Names lib.url endpoint url)
    (hvalid : validEndpoint lib.url endpoint = true) :
    (url.scheme = "http".toList ∨ url.scheme = "https".toList) ∧
      url.host.isSome ∧ url.username = [] ∧ url.password = none ∧ url.fragment = none := by
  simp only [validEndpoint, Bool.and_eq_true, Option.any_eq_true, Bool.or_eq_true, beq_iff_eq,
    List.isEmpty_iff, Option.isNone_iff_eq_none] at hvalid
  obtain ⟨⟨parsed, hparsed, hfields⟩, -⟩ := hvalid
  obtain ⟨⟨⟨⟨⟨⟨hscheme, hhost⟩, husername⟩, hpassword⟩, hfragment⟩, -⟩, -⟩ := hfields
  rcases h with ⟨hnone, hurl⟩ | ⟨hbase, hurl, -, hrest⟩
  · rw [hnone] at hparsed
    cases hurl.symm.trans hparsed
    exact ⟨hscheme, hhost, husername, hpassword, hfragment⟩
  · rw [stripSuffix_eq_some.mpr hbase] at hparsed
    cases hurl.symm.trans hparsed
    rw [hrest]
    exact ⟨hscheme, hhost, husername, hpassword, hfragment⟩

theorem lookupHeaders_supported {httpAuth : Option (List Char × List Char)} :
    ∀ {headers sent : List (List Char × List Char)}, lookupHeaders lib httpAuth headers = some sent →
      ∀ header ∈ sent, httpAuth = some header ∨ toAsciiLowercase header.1 ∉ unsupportedHeaders
  | [], sent, h, header, hin => by
    rw [lookupHeaders.eq_def] at h
    simp only at h
    split at h
    · cases h
      cases hin
    · split at h
      · cases h
        exact .inl (by rw [List.mem_singleton.mp hin])
      · cases h
  | (name, value) :: headers, sent, h, header, hin => by
    rw [lookupHeaders] at h
    split at h
    · cases h
    rename_i hsupported
    split at h
    · exact lookupHeaders_supported h header hin
    split at h
    · obtain ⟨rest, hrest, rfl⟩ := Option.map_eq_some_iff.mp h
      rcases List.mem_cons.mp hin with rfl | hin
      · exact .inr fun hbad => hsupported (List.contains_iff_mem.mpr hbad)
      · exact lookupHeaders_supported hrest header hin
    · cases h

/-- The credential of the host stands alone under its name. -/
theorem lookupHeaders_credential {name value : List Char} :
    ∀ {headers sent : List (List Char × List Char)}, lookupHeaders lib (some (name, value)) headers = some sent →
      sent.filter (fun header => toAsciiLowercase header.1 == toAsciiLowercase name) = [(name, value)]
  | [], sent, h => by
    simp only [lookupHeaders] at h
    split at h
    · cases h
      simp
    · cases h
  | (other, v) :: headers, sent, h => by
    simp only [lookupHeaders, Option.any_some] at h
    split at h
    · cases h
    split at h
    · exact lookupHeaders_credential h
    rename_i hother
    split at h
    · obtain ⟨rest, hrest, rfl⟩ := Option.map_eq_some_iff.mp h
      have hne : ¬(toAsciiLowercase other == toAsciiLowercase name) = true := by rwa [BEq.comm] at hother
      rw [List.filter_cons, if_neg hne]
      exact lookupHeaders_credential hrest
    · cases h

theorem mem_of_mapM {α β : Type} {f : α → Option β} : ∀ {as : List α} {bs : List β}, as.mapM f = some bs →
    ∀ {b : β}, b ∈ bs → ∃ a ∈ as, f a = some b
  | [], bs, h, b, hb => by
    cases h
    cases hb
  | a :: as, bs, h, b, hb => by
    rw [List.mapM_cons] at h
    obtain ⟨c, hc, h⟩ := Option.bind_eq_some_iff.mp h
    obtain ⟨cs, hcs, h⟩ := Option.bind_eq_some_iff.mp h
    cases h
    rcases List.mem_cons.mp hb with rfl | hb
    · exact ⟨a, List.mem_cons_self, hc⟩
    · obtain ⟨a', ha', hfa⟩ := mem_of_mapM hcs hb
      exact ⟨a', List.mem_cons_of_mem _ ha', hfa⟩

theorem lookupRequest_permitted {memory : Bytes} {ptr len out capacity : ℕ} {request : LookupRequest}
    (h : lookupRequest host memory ptr len out capacity = some request) : Permitted host request := by
  obtain ⟨bytes, -, h⟩ := Option.bind_eq_some_iff.mp h
  obtain ⟨asked, -, h⟩ := Option.bind_eq_some_iff.mp h
  obtain ⟨url, -, h⟩ := Option.bind_eq_some_iff.mp h
  split at h
  swap
  · cases h
  rename_i hallowed
  split at h
  · cases h
  obtain ⟨headers, hheaders, h⟩ := Option.bind_eq_some_iff.mp h
  cases h
  obtain ⟨allowed, hin, hallows⟩ := List.any_eq_true.mp hallowed
  obtain ⟨endpoint, hendpoint, hparse⟩ : ∃ endpoint ∈ host.endpoints,
      AllowedUrl.parse lib.url endpoint = some allowed := mem_of_mapM host.loaded hin
  have hnames := allows_named hparse hallows
  obtain ⟨hscheme, hbare⟩ := hnames.valid (host.valid endpoint hendpoint)
  refine ⟨⟨endpoint, hendpoint, hnames⟩, hscheme, hbare, lookupHeaders_supported hheaders, ?_⟩
  intro name value hauth
  rw [hauth] at hheaders
  exact lookupHeaders_credential hheaders

/-! ### What one call does -/

/-- What a call with the buffer at `out` does to the memory. -/
structure WritesWithin (memory memory' : Bytes) (out capacity answer : ℤ) : Prop where
  size : memory'.length = memory.length
  refused : answer = -1 → memory' = memory
  buffer : memory' ≠ memory → 0 ≤ out ∧ 0 ≤ answer ∧ answer ≤ capacity ∧ out + answer ≤ memory.length
  frame : ∀ i : ℕ, (i : ℤ) < out ∨ out + answer ≤ i → memory'[i]? = memory[i]?

theorem WritesWithin.same {memory : Bytes} {out capacity answer : ℤ} :
    WritesWithin memory memory out capacity answer :=
  ⟨rfl, fun _ => rfl, fun h => absurd rfl h, fun _ _ => rfl⟩

theorem WritesWithin.written {memory memory' bytes : Bytes} {out capacity : ℤ} (hout : 0 ≤ out)
    (hcapacity : (bytes.length : ℤ) ≤ capacity) (h : overwrite memory out.toNat bytes = some memory') :
    WritesWithin memory memory' out capacity bytes.length := by
  obtain ⟨hfits, -⟩ := overwrite_eq_some.mp h
  refine ⟨overwrite_length h, fun hneg => by omega, fun _ => ⟨hout, by omega, hcapacity, by omega⟩, ?_⟩
  intro i hi
  exact overwrite_frame h (by omega)

theorem lookupAnswer_le {capacity : ℕ} {lookup : Lookup} {bytes : Bytes}
    (h : lookupAnswer lib capacity lookup = some bytes) : bytes.length ≤ capacity := by
  cases lookup with
  | answered status chunks =>
    obtain ⟨-, hle⟩ := Option.filter_eq_some_iff.mp h
    exact of_decide_eq_true hle
  | unsent | failed => cases h

variable (host) in
/-- A call of `http_get`, taken apart: it is refused for its bounds, it counts without a request going
    out, or its request goes out. -/
theorem httpGet_cases (s : HostState) (ptr len out capacity : ℤ) (lookup : Lookup) :
    httpGet host s ptr len out capacity lookup = (s, -1) ∨
    s.calls < 4 ∧ 0 ≤ out ∧ 0 < capacity ∧
      (httpGet host s ptr len out capacity lookup = ({ s with calls := s.calls + 1 }, -1) ∨
      ∃ request memory answer,
        lookupRequest host s.memory ptr.toNat len.toNat out.toNat capacity.toNat = some request ∧
        WritesWithin s.memory memory out capacity answer ∧
        httpGet host s ptr len out capacity lookup =
          ({ s with calls := s.calls + 1, sent := s.sent ++ [request], memory }, answer)) := by
  unfold httpGet
  split
  · exact .inl rfl
  rename_i hbounds
  push Not at hbounds
  refine .inr ⟨by omega, by omega, by omega, ?_⟩
  simp only
  split
  · exact .inl rfl
  · exact .inl rfl
  rename_i request hrequest _
  right
  split
  · exact ⟨request, s.memory, -1, hrequest, .same, rfl⟩
  · rename_i memory written hwritten
    obtain ⟨bytes, hbytes, hwritten⟩ := Option.bind_eq_some_iff.mp hwritten
    obtain ⟨memory, hmemory, hwritten⟩ := Option.map_eq_some_iff.mp hwritten
    cases hwritten
    have hle := lookupAnswer_le hbytes
    exact ⟨request, memory, bytes.length, hrequest, .written (by omega) (by omega) hmemory, rfl⟩

variable (host) in
/-- A call of `cache_get` changes the memory within its buffer and the cache. -/
theorem cacheGet_cases (s : HostState) (keyPtr keyLen outPtr outCapacity : ℤ) (now : ℕ) :
    ∃ memory cache answer, WritesWithin s.memory memory outPtr outCapacity answer ∧
      cacheGet host s keyPtr keyLen outPtr outCapacity now = ({ s with memory, cache }, answer) := by
  unfold cacheGet
  split
  · exact ⟨s.memory, s.cache, -1, .same, rfl⟩
  split
  · exact ⟨s.memory, s.cache, -1, .same, rfl⟩
  simp only
  split
  · exact ⟨s.memory, _, 0, .same, rfl⟩
  split
  · exact ⟨s.memory, _, -1, .same, rfl⟩
  rename_i value _ hbounds
  push Not at hbounds
  split
  · exact ⟨s.memory, _, -1, .same, rfl⟩
  · rename_i memory hmemory
    exact ⟨memory, _, value.length, .written (by omega) (by omega) hmemory, rfl⟩

variable (host) in
theorem cachePut_cases (s : HostState) (keyPtr keyLen valuePtr valueLen ttlSecs : ℤ) (now : ℕ) :
    ∃ cache answer, cachePut host s keyPtr keyLen valuePtr valueLen ttlSecs now = ({ s with cache }, answer) := by
  unfold cachePut
  split
  · exact ⟨s.cache, -1, rfl⟩
  split
  · exact ⟨_, _, rfl⟩
  · exact ⟨s.cache, -1, rfl⟩

/-! ### A lookup -/

/-- A lookup of the sample plugin, which tries to set the credential itself. -/
def requestText : List Char :=
  "\x7b\"url\":\"https://h/api\",\"headers\":\x7b\"Authorization\":\"mine\"\x7d\x7d".toList

/-- The answer as the host writes it. -/
def answerText : List Char := "\x7b\"body\":\"ok\",\"status\":200\x7d".toList

/-- The other crates on this request and this answer. -/
def sampleHostLib : HostLib where
  url := mountedUpstream
  readRequest bytes :=
    if bytes = utf8 requestText then some ⟨mountedText, [("Authorization".toList, "mine".toList)]⟩ else none
  writeAnswer status body := if status = 200 ∧ body = utf8 ['o', 'k'] then some (utf8 answerText) else none
  headerName name := !name.isEmpty
  headerValue _ := true
  sha256Hex bytes := String.ofList (latin1 bytes)

theorem mounted_valid : validEndpoint mountedUpstream mountedText = true := by decide +kernel

theorem mounted_loaded :
    [mountedText].mapM (AllowedUrl.parse mountedUpstream) = some [⟨mountedUrl, false, nofun⟩] := by
  have hsuffix : stripSuffix anyQuerySuffix mountedText = none := by decide
  rw [List.mapM_cons, AllowedUrl.parse, hsuffix]
  simp only
  rw [parse_mounted]
  rfl

/-- A host with one endpoint and a credential. -/
def sampleHost : PluginHost sampleHostLib where
  endpoints := [mountedText]
  urls := [⟨mountedUrl, false, nofun⟩]
  httpAuth := some ("authorization".toList, "secret".toList)
  cacheConfig := ⟨4, 300⟩
  valid _ h := List.mem_singleton.mp h ▸ mounted_valid
  loaded := mounted_loaded

/-- The request, with room behind it. -/
def sampleMemory : Bytes := utf8 requestText ++ List.replicate 64 0

/-- One lookup that is answered. -/
def sampleActions : List HostAction :=
  [.httpGet 0 requestText.length requestText.length 32 (.answered 200 [utf8 ['o', 'k']])]

/-- The plugin's own `Authorization` does not go out. -/
theorem sampleHost_run :
    (run (hostStep sampleHost) { memory := sampleMemory, cache := {} } sampleActions).map
        (fun s => (s.sent.map LookupRequest.headers, s.answers)) =
      some ([[("authorization".toList, "secret".toList)]], [26]) := by decide +kernel

/-! ### Confinement -/

/-- What an action may do to the memory of the plugin, by the answer that it returns. -/
def Framed (s t : HostState) : HostAction → Prop
  | .compute _ => True
  | .httpGet _ _ out capacity _ =>
    ∃ answer, t.answers = s.answers ++ [answer] ∧ WritesWithin s.memory t.memory out capacity answer
  | .cacheGet _ _ outPtr outCapacity _ =>
    ∃ answer, t.answers = s.answers ++ [answer] ∧ WritesWithin s.memory t.memory outPtr outCapacity answer
  | .cachePut .. | .elsewhere _ => t.memory = s.memory

variable (host) in
/-- What holds of an invocation at every moment. -/
structure Confined (s : HostState) : Prop where
  calls : s.calls ≤ 4
  sent : s.sent.length ≤ s.calls
  permitted : ∀ request ∈ s.sent, Permitted host request

theorem hostStep_confined {s t : HostState} {a : HostAction} (hinv : Confined host s)
    (h : hostStep host s a = some t) : Confined host t := by
  cases a with
  | compute memory =>
    simp only [hostStep] at h
    split at h
    · cases h
      exact { hinv with }
    · cases h
  | httpGet ptr len out capacity lookup =>
    cases h
    rcases httpGet_cases host s ptr len out capacity lookup with
      hsame | ⟨hcalls, -, -, hcounted | ⟨request, memory, answer, hrequest, -, hsent⟩⟩
    · rw [hsame]
      exact { hinv with }
    · rw [hcounted]
      exact ⟨hcalls, hinv.sent.trans (Nat.le_succ _), hinv.permitted⟩
    · rw [hsent]
      refine ⟨hcalls, ?_, fun r hr => ?_⟩
      · simpa [HostState.returned] using hinv.sent
      · rcases List.mem_append.mp hr with hr | hr
        · exact hinv.permitted r hr
        · rw [List.mem_singleton.mp hr]
          exact lookupRequest_permitted hrequest
  | cacheGet keyPtr keyLen outPtr outCapacity now =>
    cases h
    obtain ⟨memory, cache, answer, -, heq⟩ :=
      cacheGet_cases host s keyPtr keyLen outPtr outCapacity now
    rw [heq]
    exact { hinv with }
  | cachePut keyPtr keyLen valuePtr valueLen ttlSecs now =>
    cases h
    obtain ⟨cache, answer, heq⟩ := cachePut_cases host s keyPtr keyLen valuePtr valueLen ttlSecs now
    rw [heq]
    exact { hinv with }
  | elsewhere call =>
    cases h
    exact { hinv with }

theorem hostStep_framed {s t : HostState} {a : HostAction} (h : hostStep host s a = some t) :
    Framed s t a := by
  cases a with
  | compute memory => trivial
  | httpGet ptr len out capacity lookup =>
    cases h
    rcases httpGet_cases host s ptr len out capacity lookup with
      hsame | ⟨-, -, -, hcounted | ⟨request, memory, answer, -, hwrites, hsent⟩⟩
    · rw [hsame]
      exact ⟨-1, rfl, .same⟩
    · rw [hcounted]
      exact ⟨-1, rfl, .same⟩
    · rw [hsent]
      exact ⟨answer, rfl, hwrites⟩
  | cacheGet keyPtr keyLen outPtr outCapacity now =>
    cases h
    obtain ⟨memory, cache, answer, hwrites, heq⟩ :=
      cacheGet_cases host s keyPtr keyLen outPtr outCapacity now
    rw [heq]
    exact ⟨answer, rfl, hwrites⟩
  | cachePut keyPtr keyLen valuePtr valueLen ttlSecs now =>
    cases h
    obtain ⟨cache, answer, heq⟩ := cachePut_cases host s keyPtr keyLen valuePtr valueLen ttlSecs now
    rw [heq]
    rfl
  | elsewhere call =>
    cases h
    rfl

end

/-- CORRECT: however a plugin computes and calls, its invocation sends at most four requests, each to a
    configured endpoint with no credential but the host's, and the host writes nowhere but into the
    buffers of its calls. -/
theorem plugin_confined {lib : HostLib} (host : PluginHost lib) (memory : Bytes) (cache : CacheState)
    (s : HostState) (hrun : Reaches (hostStep host) anyAct { memory, cache } s) :
    Confined host s ∧ ∀ a t, hostStep host s a = some t → Framed s t a := by
  refine ⟨?_, fun a t hstep => hostStep_framed hstep⟩
  exact hrun.inv (I := Confined host) (fun _ _ _ hs _ hstep => hostStep_confined hs hstep)
    ⟨Nat.zero_le _, Nat.zero_le _, nofun⟩

theorem plugin_confined_sample : ∃ s,
    run (hostStep sampleHost) { memory := sampleMemory, cache := {} } sampleActions = some s ∧
      Confined sampleHost s ∧ s.sent.length = 1 ∧ s.answers = [26] := by
  obtain ⟨s, hrun, heq⟩ := Option.map_eq_some_iff.mp sampleHost_run
  obtain ⟨hsent, hanswers⟩ := Prod.mk.inj heq
  have hconfined := (plugin_confined sampleHost sampleMemory {} s (reaches_of_run hrun)).1
  refine ⟨s, hrun, hconfined, ?_, hanswers⟩
  simpa using congrArg List.length hsent

/-! ### The credential -/

section
variable {lib : HostLib} {host : PluginHost lib}

/-- The same plugin under another credential. -/
def PluginHost.withCredential (host : PluginHost lib) (value : List Char) : PluginHost lib :=
  { host with httpAuth := host.httpAuth.map fun auth => (auth.1, value) }

/-- Two requests that differ only in the credential behind their headers. -/
def SameButCredential (name value value' : List Char) (r r' : LookupRequest) : Prop :=
  r.url = r'.url ∧ ∃ front, r.headers = front ++ [(name, value)] ∧ r'.headers = front ++ [(name, value')]

/-- Two invocations that their plugin cannot tell apart. -/
structure Alike (name value value' : List Char) (s t : HostState) : Prop where
  memory : s.memory = t.memory
  cache : s.cache = t.cache
  calls : s.calls = t.calls
  answers : s.answers = t.answers
  sent : List.Forall₂ (SameButCredential name value value') s.sent t.sent

theorem lookupHeaders_alike {name value value' : List Char}
    (hvalid : lib.headerValue value = lib.headerValue value') : ∀ headers,
    lookupHeaders lib (some (name, value)) headers = none ∧
        lookupHeaders lib (some (name, value')) headers = none ∨
      ∃ front, lookupHeaders lib (some (name, value)) headers = some (front ++ [(name, value)]) ∧
        lookupHeaders lib (some (name, value')) headers = some (front ++ [(name, value')])
  | [] => by
    simp only [lookupHeaders, ← hvalid]
    split
    · exact .inr ⟨[], rfl, rfl⟩
    · exact .inl ⟨rfl, rfl⟩
  | (other, v) :: headers => by
    simp only [lookupHeaders, Option.any_some]
    split
    · exact .inl ⟨rfl, rfl⟩
    split
    · exact lookupHeaders_alike hvalid headers
    split
    · rcases lookupHeaders_alike hvalid headers with ⟨hnone, hnone'⟩ | ⟨front, hsome, hsome'⟩
      · rw [hnone, hnone']
        exact .inl ⟨rfl, rfl⟩
      · rw [hsome, hsome']
        exact .inr ⟨(other, v) :: front, rfl, rfl⟩
    · exact .inl ⟨rfl, rfl⟩

/-- What of a request does not depend on the credential: where it goes, and the headers of the plugin. -/
def lookupTarget (host : PluginHost lib) (memory : Bytes) (ptr len out capacity : ℕ) :
    Option (UpstreamUrl × List (List Char × List Char)) := do
  let bytes ← slice memory ptr (ptr + len)
  let request ← lib.readRequest bytes
  let url ← lib.url.parse request.url
  if (host.urls.any fun allowed => allowed.allows url) ∧ ¬ memory.length < out + capacity then
    return (url, request.headers)
  else none

theorem lookupRequest_eq (memory : Bytes) (ptr len out capacity : ℕ) :
    lookupRequest host memory ptr len out capacity =
      (lookupTarget host memory ptr len out capacity).bind fun target =>
        (lookupHeaders lib host.httpAuth target.2).map fun headers => ⟨target.1, headers⟩ := by
  simp only [lookupRequest, lookupTarget, Option.bind_eq_bind, Option.bind_assoc]
  refine congrArg _ (funext fun bytes => congrArg _ (funext fun request => congrArg _ (funext fun url => ?_)))
  by_cases hallowed : (host.urls.any fun allowed => allowed.allows url) = true
  · by_cases hrange : memory.length < out + capacity
    · rw [if_pos hallowed, if_pos hrange, if_neg fun h => h.2 hrange]
      rfl
    · rw [if_pos hallowed, if_neg hrange, if_pos ⟨hallowed, hrange⟩]
      cases hheaders : lookupHeaders lib host.httpAuth request.headers <;> simp [hheaders]
  · rw [if_neg hallowed, if_neg fun h => hallowed h.1]
    rfl

variable {name value value' : List Char} (hauth : host.httpAuth = some (name, value))
  (hvalid : lib.headerValue value = lib.headerValue value')
include hauth hvalid

theorem lookupRequest_alike (memory : Bytes) (ptr len out capacity : ℕ) :
    lookupRequest host memory ptr len out capacity = none ∧
        lookupRequest (host.withCredential value') memory ptr len out capacity = none ∨
      ∃ r r', lookupRequest host memory ptr len out capacity = some r ∧
        lookupRequest (host.withCredential value') memory ptr len out capacity = some r' ∧
        SameButCredential name value value' r r' := by
  have hauth' : (host.withCredential value').httpAuth = some (name, value') := by
    rw [PluginHost.withCredential, hauth]
    rfl
  have htarget : lookupTarget (host.withCredential value') memory ptr len out capacity =
      lookupTarget host memory ptr len out capacity := rfl
  rw [lookupRequest_eq, lookupRequest_eq, htarget, hauth, hauth']
  cases lookupTarget host memory ptr len out capacity with
  | none => exact .inl ⟨rfl, rfl⟩
  | some target =>
    obtain ⟨url, headers⟩ := target
    rw [Option.bind_some, Option.bind_some]
    rcases @lookupHeaders_alike _ name _ _ hvalid headers with ⟨hnone, hnone'⟩ | ⟨front, hsome, hsome'⟩
    · rw [hnone, hnone']
      exact .inl ⟨rfl, rfl⟩
    · rw [hsome, hsome']
      exact .inr ⟨_, _, rfl, rfl, rfl, front, rfl, rfl⟩

theorem httpGet_alike {s t : HostState} (h : Alike name value value' s t) (ptr len out capacity : ℤ)
    (lookup : Lookup) :
    Alike name value value' (.returned (httpGet host s ptr len out capacity lookup))
      (.returned (httpGet (host.withCredential value') t ptr len out capacity lookup)) := by
  obtain ⟨memory, cache, calls, sent, answers⟩ := s
  obtain ⟨_, _, _, sent', _⟩ := t
  obtain ⟨rfl, rfl, rfl, rfl, hsent⟩ := h
  simp only [httpGet]
  split
  · exact ⟨rfl, rfl, rfl, rfl, hsent⟩
  rcases lookupRequest_alike hauth hvalid memory ptr.toNat len.toNat out.toNat capacity.toNat with
    ⟨hnone, hnone'⟩ | ⟨r, r', hsome, hsome', hsame⟩
  · rw [hnone, hnone']
    exact ⟨rfl, rfl, rfl, rfl, hsent⟩
  · rw [hsome, hsome']
    have hboth : List.Forall₂ (SameButCredential name value value') (sent ++ [r]) (sent' ++ [r']) :=
      List.rel_append hsent (.cons hsame .nil)
    cases lookup with
    | unsent => exact ⟨rfl, rfl, rfl, rfl, hsent⟩
    | failed => exact ⟨rfl, rfl, rfl, rfl, hboth⟩
    | answered status chunks =>
      simp only
      split
      · exact ⟨rfl, rfl, rfl, rfl, hboth⟩
      · exact ⟨rfl, rfl, rfl, rfl, hboth⟩

omit hauth hvalid in
theorem cacheGet_alike {s t : HostState} (h : Alike name value value' s t)
    (keyPtr keyLen outPtr outCapacity : ℤ) (now : ℕ) :
    Alike name value value' (.returned (cacheGet host s keyPtr keyLen outPtr outCapacity now))
      (.returned (cacheGet (host.withCredential value') t keyPtr keyLen outPtr outCapacity now)) := by
  obtain ⟨memory, cache, calls, sent, answers⟩ := s
  obtain ⟨_, _, _, sent', _⟩ := t
  obtain ⟨rfl, rfl, rfl, rfl, hsent⟩ := h
  simp only [cacheGet, PluginHost.withCredential]
  split
  · exact ⟨rfl, rfl, rfl, rfl, hsent⟩
  split
  · exact ⟨rfl, rfl, rfl, rfl, hsent⟩
  split
  · exact ⟨rfl, rfl, rfl, rfl, hsent⟩
  split
  · exact ⟨rfl, rfl, rfl, rfl, hsent⟩
  split <;> exact ⟨rfl, rfl, rfl, rfl, hsent⟩

omit hauth hvalid in
theorem cachePut_alike {s t : HostState} (h : Alike name value value' s t)
    (keyPtr keyLen valuePtr valueLen ttlSecs : ℤ) (now : ℕ) :
    Alike name value value' (.returned (cachePut host s keyPtr keyLen valuePtr valueLen ttlSecs now))
      (.returned (cachePut (host.withCredential value') t keyPtr keyLen valuePtr valueLen ttlSecs now)) := by
  obtain ⟨memory, cache, calls, sent, answers⟩ := s
  obtain ⟨_, _, _, sent', _⟩ := t
  obtain ⟨rfl, rfl, rfl, rfl, hsent⟩ := h
  simp only [cachePut, PluginHost.withCredential]
  split
  · exact ⟨rfl, rfl, rfl, rfl, hsent⟩
  split <;> exact ⟨rfl, rfl, rfl, rfl, hsent⟩

/-- What one invocation does, the other does. -/
theorem hostStep_alike {s s' t : HostState} {a : HostAction} (h : Alike name value value' s t)
    (hstep : hostStep host s a = some s') :
    ∃ t', hostStep (host.withCredential value') t a = some t' ∧ Alike name value value' s' t' := by
  cases a with
  | compute memory =>
    simp only [hostStep] at hstep ⊢
    split at hstep
    · rename_i hsize
      cases hstep
      rw [h.memory] at hsize
      exact ⟨_, if_pos hsize, { h with memory := rfl }⟩
    · cases hstep
  | httpGet ptr len out capacity lookup =>
    cases hstep
    exact ⟨_, rfl, httpGet_alike hauth hvalid h ptr len out capacity lookup⟩
  | cacheGet keyPtr keyLen outPtr outCapacity now =>
    cases hstep
    exact ⟨_, rfl, cacheGet_alike h keyPtr keyLen outPtr outCapacity now⟩
  | cachePut keyPtr keyLen valuePtr valueLen ttlSecs now =>
    cases hstep
    exact ⟨_, rfl, cachePut_alike h keyPtr keyLen valuePtr valueLen ttlSecs now⟩
  | elsewhere call =>
    cases hstep
    exact ⟨_, rfl, { h with cache := by rw [h.cache]; rfl }⟩

theorem run_alike : ∀ {as : List HostAction} {s s' t : HostState}, Alike name value value' s t →
    run (hostStep host) s as = some s' →
    ∃ t', run (hostStep (host.withCredential value')) t as = some t' ∧ Alike name value value' s' t'
  | [], s, s', t, h, hrun => by
    cases hrun
    exact ⟨t, rfl, h⟩
  | a :: as, s, s', t, h, hrun => by
    obtain ⟨u, hstep, hrest⟩ := Option.bind_eq_some_iff.mp hrun
    obtain ⟨v, hstep', halike⟩ := hostStep_alike hauth hvalid h hstep
    obtain ⟨t', hrun', hend⟩ := run_alike halike hrest
    exact ⟨t', by rw [run, hstep', Option.bind_some, hrun'], hend⟩

end

/-- CORRECT: a plugin learns nothing of the credential. Under any other one, its memory, the cache and
    every answer are the same after the same run, and the requests differ in the credential alone. -/
theorem credential_unseen {lib : HostLib} (host : PluginHost lib) {name value : List Char}
    (hauth : host.httpAuth = some (name, value)) (value' : List Char)
    (hvalid : lib.headerValue value = lib.headerValue value') (memory : Bytes) (cache : CacheState)
    (actions : List HostAction) (s : HostState)
    (hrun : run (hostStep host) { memory, cache } actions = some s) :
    ∃ t, run (hostStep (host.withCredential value')) { memory, cache } actions = some t ∧
      Alike name value value' s t :=
  run_alike hauth hvalid ⟨rfl, rfl, rfl, rfl, .nil⟩ hrun

theorem credential_unseen_sample : ∃ s t,
    run (hostStep sampleHost) { memory := sampleMemory, cache := {} } sampleActions = some s ∧
      run (hostStep (sampleHost.withCredential ['x'])) { memory := sampleMemory, cache := {} } sampleActions =
        some t ∧
      s.memory = t.memory ∧ t.answers = [26] := by
  obtain ⟨s, hrun, heq⟩ := Option.map_eq_some_iff.mp sampleHost_run
  obtain ⟨-, hanswers⟩ := Prod.mk.inj heq
  obtain ⟨t, hrun', halike⟩ := credential_unseen sampleHost rfl ['x'] rfl sampleMemory {} sampleActions s hrun
  exact ⟨s, t, hrun, hrun', halike.memory, halike.answers ▸ hanswers⟩

end Llmtrace.Plugins
