import Llmtrace.Proxy.Capture
import Llmtrace.Proxy.Headers
import Llmtrace.Proxy.Upstream

/-! Where the proxy sends requests (`proxy` in `proxy.rs`, `UpstreamAllowlist` in `config.rs`). A client
    may name the upstream itself, by a header or by an absolute request target, so the decision is made
    about the resolved URL: over HTTP and over websockets alike it has no credentials, a scheme of the
    protocol, and an entry of `allow_upstreams` covers it.

    An entry covers the paths under its own by whole segments. The paths of resolved URLs have no dot
    segments, so an upstream that resolves them stays under the entry's path. -/

namespace Llmtrace.Proxy
open Schemes

/-! ### The allowlist of upstreams -/

/-- `Url::port_or_known_default` -/
def portOrKnownDefault (url : UpstreamUrl) : Option ℕ :=
  url.port.or <|
    if url.scheme = "http".toList ∨ url.scheme = "ws".toList then some 80
    else if url.scheme = "https".toList ∨ url.scheme = "wss".toList then some 443
    else if url.scheme = "ftp".toList then some 21
    else none

/-- `UpstreamAllowEntry` -/
inductive UpstreamAllowEntry where
  | host (host : List Char) (port : Option ℕ)
  | url (scheme host : List Char) (port : ℕ) (pathPrefix : Bytes)
  deriving DecidableEq

/-- `UpstreamAllowlist` -/
structure UpstreamAllowlist where
  entries : List UpstreamAllowEntry

/-- Why an entry is refused; each names the field. -/
inductive AllowEntryError where
  | empty (field : String)
  | notUrl (field : String)
  | noHost (field : String)
  | badScheme (field : String)
  | credentials (field : String)
  | queryOrFragment (field : String)
  | noPort (field : String)
  | notHostname (field : String)
  | badHost (field : String)

/-- The schemes that an entry may have. -/
def upstreamAllowlistSchemes : List (List Char) := ["http", "https", "ws", "wss"].map String.toList

/-- `normalize_allowlist_path` on the path of a URL -/
def normalizeUrlPath (path : Bytes) : Bytes :=
  if path = [] ∨ path = [slash] then [slash] else slash :: trimSlashes (path.dropWhile (· == slash))

/-- `str::parse::<u16>` -/
def parseU16 (text : List Char) : Option ℕ :=
  let digits := if text.head? = some '+' then text.tail else text
  (decimal digits).filter fun n => n < 2 ^ 16

/-- `u8::is_ascii_whitespace` -/
def asciiWhitespace (c : Char) : Bool := c == ' ' || c == '\t' || c == '\n' || c == '\x0C' || c == '\r'

/-- The port is behind the last colon, or behind the bracket of an IPv6 address. -/
def explicitHostEntryPort (value : List Char) : Option ℕ :=
  let port :=
    if value.head? = some '[' then
      (splitOnce ']' value.tail).bind fun cut => if cut.2.head? = some ':' then some cut.2.tail else none
    else (rsplitOnce ':' value).map Prod.snd
  port.bind fun port => if port.isEmpty then none else parseU16 port

section
variable (lib : UpstreamLib)

/-- `parse_url` -/
def parseSchemeUrl (field : String) (value : List Char) (allowedSchemes : List (List Char)) :
    Except AllowEntryError UpstreamUrl :=
  let value := trim value
  if value.isEmpty then .error (.empty field)
  else
    match lib.parse value with
    | none => .error (.notUrl field)
    | some url =>
      if url.host.isNone then .error (.noHost field)
      else if !allowedSchemes.contains url.scheme then .error (.badScheme field)
      else .ok url

/-- `parse_upstream_allow_entry` -/
def parseUpstreamAllowEntry (field : String) (value : List Char) :
    Except AllowEntryError UpstreamAllowEntry :=
  let value := trim value
  if value.isEmpty then .error (.empty field)
  else if containsText "://".toList value then
    match parseSchemeUrl lib field value upstreamAllowlistSchemes with
    | .error e => .error e
    | .ok url =>
      if !url.username.isEmpty || url.password.isSome then .error (.credentials field)
      else if url.query.isSome || url.fragment.isSome then .error (.queryOrFragment field)
      else
        match url.host, portOrKnownDefault url with
        | none, _ => .error (.noHost field)
        | _, none => .error (.noPort field)
        | some host, some port =>
          .ok (.url url.scheme (toAsciiLowercase host) port (normalizeUrlPath url.path))
  else if value.any fun c => asciiWhitespace c || c == '/' || c == '?' || c == '#' || c == '@' then
    .error (.notHostname field)
  else
    match lib.parse ("https://".toList ++ value) with
    | none => .error (.badHost field)
    | some url =>
      match url.host with
      | none => .error (.noHost field)
      | some host => .ok (.host (toAsciiLowercase host) (explicitHostEntryPort value))

/-- The entries from `index` on. -/
def parseAllowEntries : ℕ → List (List Char) → Except AllowEntryError (List UpstreamAllowEntry)
  | _, [] => .ok []
  | index, entry :: entries => do
    let parsed ← parseUpstreamAllowEntry lib s!"proxy.allow_upstreams[{index}]" entry
    let rest ← parseAllowEntries (index + 1) entries
    return parsed :: rest

/-- `UpstreamAllowlist::parse` -/
def UpstreamAllowlist.parse (entries : List (List Char)) : Except AllowEntryError UpstreamAllowlist := do
  let entries ← parseAllowEntries lib 0 entries
  return ⟨entries⟩

end

/-- `UpstreamAllowEntry::matches` -/
def UpstreamAllowEntry.accepts : UpstreamAllowEntry → UpstreamUrl → Bool
  | .host allowed port, upstream =>
    upstream.host.any (fun upstreamHost => eqIgnoreAsciiCase upstreamHost allowed) &&
      port.all fun port => portOrKnownDefault upstream == some port
  | .url scheme allowed port pathPrefix, upstream =>
    upstream.scheme == scheme &&
      upstream.host.any (fun upstreamHost => eqIgnoreAsciiCase upstreamHost allowed) &&
      portOrKnownDefault upstream == some port && pathPrefixMatches pathPrefix upstream.path

/-- `UpstreamAllowlist::allows` -/
def UpstreamAllowlist.allows (list : UpstreamAllowlist) (url : UpstreamUrl) : Bool :=
  if !upstreamAllowlistSchemes.contains url.scheme then false
  else if list.entries.isEmpty then true
  else list.entries.any fun entry => entry.accepts url

/-! ### The proxy -/

/-- What `proxy` reads of the state of the application. -/
structure ProxyState where
  config : UpstreamConfig
  upstreamAllowlist : UpstreamAllowlist
  pathPrefixes : PathPrefixAllowlist
  capturePolicy : CapturePolicy
  maxRequestBodyBytes : ℕ

/-- `upgradable` says that the extractor of the websocket upgrade has succeeded. -/
structure ProxyRequest where
  method : String
  uri : RequestUri
  headers : HeaderMap
  upgradable : Bool

/-- `uri.path()` -/
def RequestUri.path (uri : RequestUri) : Bytes := (uri.pathAndQuery.map Prod.fst).getD []

/-- What becomes of a request: it is refused, or sent to an upstream. -/
inductive ProxyReply where
  | ambiguousPath
  | notProxied
  | notUpgradable
  | unresolved (e : ResolveError)
  | refused (e : PolicyError)
  /-- The declared length of the body exceeds the limit. -/
  | tooLarge
  /-- The request goes upstream. -/
  | forwarded (url : UpstreamUrl) (websocket capture : Bool)

/-- `ProxySetupError::status` and the replies of `proxy`; what goes upstream has no status yet. -/
def ProxyReply.status : ProxyReply → Option ℕ
  | ambiguousPath | notUpgradable | unresolved _ => some 400
  | notProxied => some 404
  | refused .notAllowed => some 403
  | refused _ => some 400
  | tooLarge => some 413
  | forwarded .. => none

/-- `proxy` up to the request that is sent upstream. The declared length counts in `proxy_http` and in
    `proxy_passthrough_http`; a websocket has no body. -/
def proxy (lib : UpstreamLib) (state : ProxyState) (request : ProxyRequest) : ProxyReply :=
  let path := request.uri.path
  if !unambiguousPath path then .ambiguousPath
  else if !state.pathPrefixes.allows path then .notProxied
  else
    let websocket := isWebsocket request.headers
    let capture := state.capturePolicy.captures request.method path websocket
    if websocket && !request.upgradable then .notUpgradable
    else
      match resolveUpstream lib state.config request.uri request.headers with
      | .error e => .unresolved e
      | .ok url =>
        match forwardUrl state.upstreamAllowlist.allows websocket url with
        | .error e => .refused e
        | .ok url =>
          if !websocket && contentLengthExceeds request.headers state.maxRequestBodyBytes then .tooLarge
          else .forwarded url websocket capture

/-! ### What the entries stand for -/

/-- The paths under the path of an entry, by whole segments. -/
def UnderEntry (base path : Bytes) : Prop :=
  normalizeUrlPath base = [slash] ∨ (normalizeUrlPath base).splitOn slash <+: path.splitOn slash

/-- The URLs that an entry of `allow_upstreams` stands for. -/
inductive Covers (lib : UpstreamLib) (entry : List Char) (url : UpstreamUrl) : Prop
  | url {base : UpstreamUrl} {host upstreamHost : List Char} {port : ℕ} :
      containsText "://".toList (trim entry) = true → lib.parse (trim entry) = some base →
      base.host = some host → url.host = some upstreamHost →
      toAsciiLowercase upstreamHost = toAsciiLowercase host → url.scheme = base.scheme →
      portOrKnownDefault base = some port → portOrKnownDefault url = some port →
      UnderEntry base.path url.path → Covers lib entry url
  | host {base : UpstreamUrl} {host upstreamHost : List Char} :
      containsText "://".toList (trim entry) = false →
      lib.parse ("https://".toList ++ trim entry) = some base →
      base.host = some host → url.host = some upstreamHost →
      toAsciiLowercase upstreamHost = toAsciiLowercase host →
      (∀ port, explicitHostEntryPort (trim entry) = some port → portOrKnownDefault url = some port) →
      Covers lib entry url

section
variable {lib : UpstreamLib}

theorem toAsciiLowercase_idem (s : List Char) : toAsciiLowercase (toAsciiLowercase s) = toAsciiLowercase s := by
  simp only [toAsciiLowercase, List.map_map]
  refine List.map_congr_left fun c _ => ?_
  by_cases hup : 'A' ≤ c ∧ c ≤ 'Z'
  · have hA : 65 ≤ c.toNat := hup.1
    have hZ : c.toNat ≤ 90 := hup.2
    have hcode : (Char.ofNat (c.toNat + 32)).toNat = c.toNat + 32 := by
      rw [Char.ofNat, dif_pos (.inl (by omega))]
      rfl
    have hlow : ¬('A' ≤ Char.ofNat (c.toNat + 32) ∧ Char.ofNat (c.toNat + 32) ≤ 'Z') := by
      rintro ⟨-, h⟩
      have : (Char.ofNat (c.toNat + 32)).toNat ≤ 90 := h
      omega
    simp only [Function.comp_apply, if_pos hup, if_neg hlow]
  · simp only [Function.comp_apply, if_neg hup]

theorem trim_idem (s : List Char) : trim (trim s) = trim s := by
  have hfront : (trim s).dropWhile isWhitespace = trim s := by
    rw [List.dropWhile_eq_self_iff]
    intro hpos
    have hpre : trim s <+: s.dropWhile isWhitespace := List.rdropWhile_prefix isWhitespace _
    have hhead := hpre.getElem hpos
    rw [hhead]
    exact List.dropWhile_get_zero_not isWhitespace s _
  have hback : (trim s).reverse.dropWhile isWhitespace = (trim s).reverse := by
    rw [trim, List.reverse_reverse, List.dropWhile_idempotent]
  rw [trim, hfront, hback, List.reverse_reverse]

theorem sameHost_iff {found : Option (List Char)} {host : List Char} :
    (found.any fun upstreamHost => eqIgnoreAsciiCase upstreamHost (toAsciiLowercase host)) = true ↔
      ∃ upstreamHost, found = some upstreamHost ∧ toAsciiLowercase upstreamHost = toAsciiLowercase host := by
  cases found <;> simp [eqIgnoreAsciiCase, toAsciiLowercase_idem]

theorem parseSchemeUrl_ok {field : String} {value : List Char} {schemes : List (List Char)} {url : UpstreamUrl}
    (h : parseSchemeUrl lib field value schemes = .ok url) : lib.parse (trim value) = some url := by
  simp only [parseSchemeUrl] at h
  split at h
  · cases h
  · split at h
    · cases h
    · rename_i hparse
      split at h
      · cases h
      · split at h
        · cases h
        · cases h
          exact hparse

/-- An entry accepts what its text stands for. -/
theorem accepts_iff {field : String} {text : List Char} {entry : UpstreamAllowEntry}
    (h : parseUpstreamAllowEntry lib field text = .ok entry) (url : UpstreamUrl) :
    entry.accepts url = true ↔ Covers lib text url := by
  simp only [parseUpstreamAllowEntry] at h
  split at h
  · cases h
  split at h
  · rename_i hscheme
    split at h
    · cases h
    rename_i base hbase
    split at h
    · cases h
    split at h
    · cases h
    split at h
    · cases h
    · cases h
    · rename_i host port hhost hport
      cases h
      have hparse := parseSchemeUrl_ok hbase
      rw [trim_idem] at hparse
      simp only [UpstreamAllowEntry.accepts, Bool.and_eq_true, beq_iff_eq, sameHost_iff,
        pathPrefixMatches_iff]
      constructor
      · rintro ⟨⟨⟨hsame, upstreamHost, hfound, hequal⟩, hurlPort⟩, hunder⟩
        exact .url hscheme hparse hhost hfound hequal hsame hport hurlPort hunder
      · rintro (⟨-, hbase', hhost', hfound, hequal, hsame, hport', hurlPort, hunder⟩ | ⟨hno, -⟩)
        · cases hparse.symm.trans hbase'
          cases hhost.symm.trans hhost'
          cases hport.symm.trans hport'
          exact ⟨⟨⟨hsame, _, hfound, hequal⟩, hurlPort⟩, hunder⟩
        · rw [hscheme] at hno
          cases hno
  · rename_i hscheme
    rw [Bool.not_eq_true] at hscheme
    split at h
    · cases h
    split at h
    · cases h
    rename_i base hparse
    split at h
    · cases h
    rename_i host hhost
    cases h
    simp only [UpstreamAllowEntry.accepts, Bool.and_eq_true, sameHost_iff, Option.all_eq_true,
      beq_iff_eq]
    constructor
    · rintro ⟨⟨upstreamHost, hfound, hequal⟩, hports⟩
      exact .host hscheme hparse hhost hfound hequal fun port hport => hports port hport
    · rintro (⟨hyes, -⟩ | ⟨-, hbase', hhost', hfound, hequal, hports⟩)
      · rw [hscheme] at hyes
        cases hyes
      · cases hparse.symm.trans hbase'
        cases hhost.symm.trans hhost'
        exact ⟨⟨_, hfound, hequal⟩, fun port hport => hports port hport⟩

theorem parseAllowEntries_ok {index : ℕ} {texts : List (List Char)} {entries : List UpstreamAllowEntry}
    (h : parseAllowEntries lib index texts = .ok entries) :
    List.Forall₂ (fun text entry => ∃ field, parseUpstreamAllowEntry lib field text = .ok entry)
      texts entries := by
  induction texts generalizing index entries with
  | nil =>
    cases h
    exact .nil
  | cons text texts ih =>
    rw [parseAllowEntries] at h
    obtain ⟨entry, hentry, h⟩ := bind_eq_ok.mp h
    obtain ⟨rest, hrest, h⟩ := bind_eq_ok.mp h
    cases h
    exact .cons ⟨_, hentry⟩ (ih hrest)

theorem any_accepts_iff {texts : List (List Char)} {entries : List UpstreamAllowEntry} {url : UpstreamUrl}
    (h : List.Forall₂ (fun text entry => ∃ field, parseUpstreamAllowEntry lib field text = .ok entry)
      texts entries) :
    (entries.any fun entry => entry.accepts url) = true ↔ ∃ text ∈ texts, Covers lib text url := by
  induction h with
  | nil => simp
  | cons hentry _ ih =>
    obtain ⟨field, hentry⟩ := hentry
    rw [List.any_cons, Bool.or_eq_true, accepts_iff hentry, ih, List.exists_mem_cons_iff]

/-- The list lets pass what some entry stands for; the empty list lets pass everything. -/
theorem allows_upstream_iff {texts : List (List Char)} {list : UpstreamAllowlist} {url : UpstreamUrl}
    (h : UpstreamAllowlist.parse lib texts = .ok list) (hscheme : url.scheme ∈ webSchemes) :
    list.allows url = true ↔ texts = [] ∨ ∃ text ∈ texts, Covers lib text url := by
  obtain ⟨entries, hentries, h⟩ := bind_eq_ok.mp h
  cases h
  have hall := parseAllowEntries_ok hentries
  have hcontains : upstreamAllowlistSchemes.contains url.scheme = true := List.contains_iff_mem.mpr hscheme
  rw [UpstreamAllowlist.allows, hcontains, Bool.not_true, if_neg Bool.false_ne_true,
    ← any_accepts_iff hall]
  cases hall with
  | nil => simp
  | cons hentry hrest =>
    rw [List.isEmpty_cons, if_neg Bool.false_ne_true, or_iff_right (List.cons_ne_nil _ _)]

/-! ### The decision about a request -/

/-- The URL that a resolved one goes to: over a websocket the scheme is the one of the protocol. -/
structure SentTo (websocket : Bool) (resolved url : UpstreamUrl) : Prop where
  rest : url = { resolved with scheme := url.scheme }
  scheme : (resolved.scheme, url.scheme) ∈
    if websocket then
      [("http".toList, "ws".toList), ("https".toList, "wss".toList), ("ws".toList, "ws".toList),
        ("wss".toList, "wss".toList)]
    else [("http".toList, "http".toList), ("https".toList, "https".toList)]

/-- No credentials, and a host. -/
structure Anonymous (url : UpstreamUrl) : Prop where
  username : url.username = []
  password : url.password = none
  host : url.host.isSome

theorem validateUpstreamUrl_iff {url : UpstreamUrl} {schemes : List (List Char)} :
    validateUpstreamUrl url schemes = .ok () ↔ Anonymous url ∧ url.scheme ∈ schemes := by
  unfold validateUpstreamUrl
  constructor
  · intro h
    split at h
    · cases h
    rename_i hsecret
    simp only [Bool.or_eq_true, Bool.not_eq_true', not_or, Bool.not_eq_false, List.isEmpty_iff,
      Option.not_isSome_iff_eq_none] at hsecret
    split at h
    · cases h
    rename_i hhost
    split at h
    · cases h
    rename_i hscheme
    exact ⟨⟨hsecret.1, hsecret.2, by simpa [Option.isSome_iff_ne_none] using hhost⟩, not_not.mp hscheme⟩
  · rintro ⟨⟨husername, hpassword, hhost⟩, hscheme⟩
    rw [husername, hpassword, if_neg (by decide), if_neg (by simp [Option.isSome_iff_ne_none.mp hhost]),
      if_neg (not_not.mpr hscheme)]

theorem enforceUpstreamPolicy_iff {allows : UpstreamUrl → Bool} {url : UpstreamUrl}
    {schemes : List (List Char)} : enforceUpstreamPolicy allows url schemes = .ok () ↔
      (Anonymous url ∧ url.scheme ∈ schemes) ∧ allows url = true := by
  rw [enforceUpstreamPolicy, bind_eq_ok, ← validateUpstreamUrl_iff]
  constructor
  · rintro ⟨⟨⟩, hvalid, h⟩
    split at h
    · exact ⟨hvalid, ‹_›⟩
    · cases h
  · rintro ⟨hvalid, hallows⟩
    exact ⟨(), hvalid, if_pos hallows⟩

theorem httpToWsUrl_iff {resolved url : UpstreamUrl} :
    httpToWsUrl resolved = .ok url ↔ SentTo true resolved url := by
  unfold httpToWsUrl
  constructor
  · intro h
    split at h
    · rename_i hscheme
      cases h
      exact ⟨rfl, by simp [hscheme]⟩
    split at h
    · rename_i hscheme
      cases h
      exact ⟨rfl, by simp [hscheme]⟩
    split at h
    · rename_i hscheme
      cases h
      simp only [websocketUpstreamSchemes, List.mem_cons, List.not_mem_nil, or_false] at hscheme
      rcases hscheme with hscheme | hscheme <;> exact ⟨rfl, by simp [hscheme]⟩
    · cases h
  · rintro ⟨hrest, hscheme⟩
    simp only [if_true, List.mem_cons, Prod.mk.injEq, List.not_mem_nil, or_false] at hscheme
    rcases hscheme with ⟨hfrom, hto⟩ | ⟨hfrom, hto⟩ | ⟨hfrom, hto⟩ | ⟨hfrom, hto⟩
    · rw [if_pos hfrom, hrest, hto]
    · rw [hfrom, if_neg (by decide), if_pos rfl, hrest, hto]
    · rw [hfrom, if_neg (by decide), if_neg (by decide), if_pos (by decide), hrest, hto, ← hfrom]
    · rw [hfrom, if_neg (by decide), if_neg (by decide), if_pos (by decide), hrest, hto, ← hfrom]

theorem SentTo.scheme_mem {websocket : Bool} {resolved url : UpstreamUrl} (h : SentTo websocket resolved url) :
    url.scheme ∈ if websocket then websocketUpstreamSchemes else httpUpstreamSchemes := by
  have hscheme := h.scheme
  cases websocket <;>
    simp only [if_true, Bool.false_eq_true, if_false, List.mem_cons, Prod.mk.injEq, List.not_mem_nil,
      or_false] at hscheme ⊢ <;> grind [websocketUpstreamSchemes, httpUpstreamSchemes]

theorem forwardUrl_iff {allows : UpstreamUrl → Bool} {websocket : Bool} {resolved url : UpstreamUrl} :
    forwardUrl allows websocket resolved = .ok url ↔
      SentTo websocket resolved url ∧ Anonymous url ∧ allows url = true := by
  cases websocket with
  | true =>
    simp only [forwardUrl, if_true, bind_eq_ok, httpToWsUrl_iff]
    constructor
    · rintro ⟨ws, hsent, ⟨⟩, hpolicy, h⟩
      cases h
      obtain ⟨⟨hanonymous, -⟩, hallows⟩ := enforceUpstreamPolicy_iff.mp hpolicy
      exact ⟨hsent, hanonymous, hallows⟩
    · rintro ⟨hsent, hanonymous, hallows⟩
      exact ⟨url, hsent, (), enforceUpstreamPolicy_iff.mpr ⟨⟨hanonymous, hsent.scheme_mem⟩, hallows⟩, rfl⟩
  | false =>
    simp only [forwardUrl, Bool.false_eq_true, if_false, bind_eq_ok]
    constructor
    · rintro ⟨⟨⟩, hpolicy, h⟩
      cases h
      obtain ⟨⟨hanonymous, hscheme⟩, hallows⟩ := enforceUpstreamPolicy_iff.mp hpolicy
      refine ⟨⟨rfl, ?_⟩, hanonymous, hallows⟩
      simpa [httpUpstreamSchemes] using hscheme
    · rintro ⟨hsent, hanonymous, hallows⟩
      have hsame : resolved.scheme = url.scheme := by
        have hscheme := hsent.scheme
        simp only [Bool.false_eq_true, if_false, List.mem_cons, Prod.mk.injEq, List.not_mem_nil,
          or_false] at hscheme
        rcases hscheme with ⟨hfrom, hto⟩ | ⟨hfrom, hto⟩ <;> rw [hfrom, hto]
      have heq : url = resolved := by
        rw [hsent.rest, ← hsame]
      subst heq
      exact ⟨(), enforceUpstreamPolicy_iff.mpr ⟨⟨hanonymous, hsent.scheme_mem⟩, hallows⟩, rfl⟩

theorem proxy_forwarded_iff {state : ProxyState} {request : ProxyRequest} {url : UpstreamUrl}
    {websocket capture : Bool} :
    proxy lib state request = .forwarded url websocket capture ↔
      (unambiguousPath request.uri.path = true ∧ state.pathPrefixes.allows request.uri.path = true) ∧
      (websocket = isWebsocket request.headers ∧ (websocket = true → request.upgradable = true) ∧
        (websocket = false →
          contentLengthExceeds request.headers state.maxRequestBodyBytes = false)) ∧
      capture = state.capturePolicy.captures request.method request.uri.path websocket ∧
      ∃ resolved, resolveUpstream lib state.config request.uri request.headers = .ok resolved ∧
        forwardUrl state.upstreamAllowlist.allows websocket resolved = .ok url := by
  constructor
  · intro h
    simp only [proxy] at h
    split at h
    · cases h
    rename_i hpath
    split at h
    · cases h
    rename_i hprefix
    split at h
    · cases h
    rename_i hupgrade
    split at h
    · cases h
    rename_i resolved hresolved
    split at h
    · cases h
    rename_i hforward
    split at h
    · cases h
    rename_i hfits
    cases h
    refine ⟨⟨by simpa using hpath, by simpa using hprefix⟩, ⟨rfl, ?_, ?_⟩, rfl, resolved, hresolved,
      hforward⟩
    · intro hws
      simpa [hws] using hupgrade
    · intro hws
      simpa [hws] using hfits
  · rintro ⟨⟨hpath, hprefix⟩, ⟨rfl, hupgrade, hfits⟩, rfl, resolved, hresolved, hforward⟩
    have hready : (isWebsocket request.headers && !request.upgradable) = false := by
      cases hws : isWebsocket request.headers with
      | false => rfl
      | true => rw [hupgrade hws]; rfl
    have hsmall : (!isWebsocket request.headers &&
        contentLengthExceeds request.headers state.maxRequestBodyBytes) = false := by
      cases hws : isWebsocket request.headers with
      | false => rw [hfits hws]; rfl
      | true => rfl
    simp only [proxy, hpath, hprefix, hready, hresolved, hforward, hsmall, Bool.not_true,
      Bool.false_eq_true, if_false]

/-! ### The path that is sent -/

/-- The URL standard on `set_path`, whatever path it is given: what is stored is resolved. -/
structure UpstreamLib.Resolving (lib : UpstreamLib) : Prop extends lib.Lawful where
  stored {url : UpstreamUrl} (path : Bytes) : url.scheme ∈ webSchemes →
    ∀ segment ∈ (lib.storedPath url path).splitOn slash, KeptSegment lib segment

theorem normalizePath_of_kept {path : Bytes} (hroot : path.head? = some slash)
    (hkept : ∀ segment ∈ path.splitOn slash, KeptSegment lib segment) : normalizePath path = path := by
  obtain ⟨rest, rfl⟩ := List.head?_eq_some_iff.mp hroot
  rw [List.splitOn_cons_eq_if_modifyHead, if_pos (beq_self_eq_true _)] at hkept
  have hrest : ∀ segment ∈ rest.splitOn slash, KeptSegment lib segment :=
    fun segment hin => hkept segment (List.mem_cons_of_mem _ hin)
  have hback : backslash ∉ rest := by
    rw [mem_splitOn_pieces (a := slash) (by decide)]
    rintro ⟨segment, hin, hb⟩
    exact (hrest segment hin).backslash hb
  rw [normalizePath, if_pos (by decide),
    resolve_join hback fun segment hin => ⟨(hrest segment hin).single, (hrest segment hin).double⟩]

theorem parseUrl_ok {text : List Char} {url : UpstreamUrl} (h : parseUrl lib text = .ok url) :
    lib.parse text = some url := by
  unfold parseUrl at h
  split at h
  · cases h
    assumption
  · cases h

/-- The path of a URL is the one that it was parsed with, or one that `set_path` has stored. -/
def PathOf (lib : UpstreamLib) (url : UpstreamUrl) : Prop :=
  ∃ text base, lib.parse text = some base ∧ url.scheme = base.scheme ∧
    (url.path = base.path ∨ ∃ path, url.path = lib.storedPath base path)

theorem pathOf_resolveDefaultUpstream {upstream : List Char} {pathAndQuery : Option (Bytes × Option Bytes)}
    {url : UpstreamUrl} (h : resolveDefaultUpstream lib upstream pathAndQuery = .ok url) :
    PathOf lib url := by
  obtain ⟨base, hbase, h⟩ := bind_eq_ok.mp h
  cases pathAndQuery with
  | none =>
    cases h
    exact ⟨_, _, parseUrl_ok hbase, rfl, .inl rfl⟩
  | some target =>
    cases h
    exact ⟨_, base, parseUrl_ok hbase, rfl, .inr ⟨_, rfl⟩⟩

theorem pathOf_resolveUpstream {config : UpstreamConfig} {uri : RequestUri} {headers : HeaderMap}
    {url : UpstreamUrl} (h : resolveUpstream lib config uri headers = .ok url) : PathOf lib url := by
  obtain ⟨override, -, h⟩ := bind_eq_ok.mp h
  cases override with
  | some value =>
    simp only at h
    split at h
    · exact pathOf_resolveDefaultUpstream h
    · obtain ⟨base, hbase, h⟩ := bind_eq_ok.mp h
      split at h
      · split at h
        · cases h
          exact ⟨_, base, parseUrl_ok hbase, rfl, .inr ⟨_, rfl⟩⟩
        · cases h
          exact ⟨_, _, parseUrl_ok hbase, rfl, .inl rfl⟩
      · cases h
        exact ⟨_, _, parseUrl_ok hbase, rfl, .inl rfl⟩
  | none =>
    simp only at h
    split at h
    · exact ⟨_, _, parseUrl_ok h, rfl, .inl rfl⟩
    · exact pathOf_resolveDefaultUpstream h

theorem SentTo.web {websocket : Bool} {resolved url : UpstreamUrl} (h : SentTo websocket resolved url) :
    resolved.scheme ∈ webSchemes ∧ url.scheme ∈ webSchemes := by
  have hscheme := h.scheme
  cases websocket <;>
    simp only [if_true, Bool.false_eq_true, if_false, List.mem_cons, Prod.mk.injEq, List.not_mem_nil,
      or_false] at hscheme <;> grind [webSchemes, websocketUpstreamSchemes, httpUpstreamSchemes]

/-- A resolved path is in its normal form, so nobody resolves it to another one. -/
theorem PathOf.normal (hlib : lib.Resolving) {url : UpstreamUrl} (h : PathOf lib url)
    (hweb : url.scheme ∈ webSchemes) : normalizePath url.path = url.path := by
  obtain ⟨text, base, hbase, hscheme, hpath | ⟨path, hpath⟩⟩ := h
  · rw [hscheme] at hweb
    rw [hpath]
    exact normalizePath_of_kept (hlib.parsed hbase hweb).1 (hlib.parsed hbase hweb).2
  · rw [hscheme] at hweb
    rw [hpath]
    exact normalizePath_of_kept (hlib.rooted path hweb) (hlib.stored path hweb)

end

/-- What holds of a request that goes upstream under the entries `texts` of `allow_upstreams`. -/
structure Admitted (lib : UpstreamLib) (state : ProxyState) (texts : List (List Char)) (request : ProxyRequest)
    (url : UpstreamUrl) (websocket capture : Bool) : Prop where
  unambiguous : unambiguousPath request.uri.path = true
  proxied : ∃ head ∈ state.pathPrefixes.prefixes,
    head = [slash] ∨ head.splitOn slash <+: request.uri.path.splitOn slash
  websocket_eq : websocket = isWebsocket request.headers
  upgradable : websocket = true → request.upgradable = true
  fits : websocket = false →
    contentLengthExceeds request.headers state.maxRequestBodyBytes = false
  capture_eq : capture = state.capturePolicy.captures request.method request.uri.path websocket
  resolved : ∃ resolved, resolveUpstream lib state.config request.uri request.headers = .ok resolved ∧
    SentTo websocket resolved url
  anonymous : Anonymous url
  covered : texts = [] ∨ ∃ text ∈ texts, Covers lib text url

/-- CORRECT: whoever names the upstream, a request goes there exactly when its path is proxied, it can be
    upgraded or declares no body beyond the limit, and some entry covers the URL; and no dot segment
    leads the upstream out of the entry. -/
theorem forwarded_within_perimeter {lib : UpstreamLib} (hlib : lib.Resolving) {state : ProxyState}
    {texts : List (List Char)} (htexts : UpstreamAllowlist.parse lib texts = .ok state.upstreamAllowlist)
    (request : ProxyRequest) (url : UpstreamUrl) (websocket capture : Bool) :
    (proxy lib state request = .forwarded url websocket capture ↔
      Admitted lib state texts request url websocket capture) ∧
    (proxy lib state request = .forwarded url websocket capture →
      normalizePath request.uri.path = request.uri.path ∧ normalizePath url.path = url.path) := by
  rw [proxy_forwarded_iff]
  refine ⟨⟨?_, fun h => ?_⟩, ?_⟩
  · rintro ⟨⟨hpath, hprefix⟩, ⟨hws, hupgrade, hfits⟩, hcapture, resolved, hresolved, hforward⟩
    obtain ⟨hsent, hanonymous, hallows⟩ := forwardUrl_iff.mp hforward
    exact ⟨hpath, allows_iff.mp hprefix, hws, hupgrade, hfits, hcapture, ⟨resolved, hresolved, hsent⟩,
      hanonymous, (allows_upstream_iff htexts hsent.web.2).mp hallows⟩
  · obtain ⟨resolved, hresolved, hsent⟩ := h.resolved
    refine ⟨⟨h.unambiguous, allows_iff.mpr h.proxied⟩, ⟨h.websocket_eq, h.upgradable, h.fits⟩,
      h.capture_eq, resolved, hresolved, forwardUrl_iff.mpr ⟨hsent, h.anonymous, ?_⟩⟩
    exact (allows_upstream_iff htexts hsent.web.2).mpr h.covered
  · rintro ⟨⟨hpath, -⟩, -, -, resolved, hresolved, hforward⟩
    obtain ⟨hsent, -, -⟩ := forwardUrl_iff.mp hforward
    refine ⟨normalizePath_id hpath, ?_⟩
    rw [hsent.rest]
    exact (pathOf_resolveUpstream hresolved).normal hlib hsent.web.1

/-! ### One entry with a path -/

/-- A segment that the sample's upstream stores as it is. -/
def keptSegment (segment : Bytes) : Bool :=
  segment.all mountedUpstream.pathByte && !segment.contains backslash && !singleDot segment &&
    !doubleDot segment

/-- The `url` crate on the mounted upstream, and on paths that need no change. -/
def resolvingUpstream : UpstreamLib :=
  { mountedUpstream with
    storedPath := fun _ path =>
      if path.head? = some slash ∧ (path.splitOn slash).all keptSegment = true then path else [slash] }

theorem kept_iff {segment : Bytes} : KeptSegment resolvingUpstream segment ↔ keptSegment segment = true := by
  have hfields : keptSegment segment = true ↔ segment.all mountedUpstream.pathByte = true ∧
      backslash ∉ segment ∧ singleDot segment = false ∧ doubleDot segment = false := by
    simp only [keptSegment, Bool.and_eq_true, Bool.not_eq_true', and_assoc, ← Bool.not_eq_true,
      List.contains_iff_mem]
  rw [hfields]
  exact ⟨fun h => ⟨h.encoded, h.backslash, h.single, h.double⟩, fun h => ⟨h.1, h.2.1, h.2.2.1, h.2.2.2⟩⟩

theorem resolvingUpstream_resolving : resolvingUpstream.Resolving where
  verbatim _ hroot hkept :=
    if_pos ⟨hroot, List.all_eq_true.mpr fun segment hin => kept_iff.mp (hkept segment hin)⟩
  rooted path _ := by
    simp only [resolvingUpstream]
    split
    · rename_i h
      exact h.1
    · rfl
  parsed h hweb := by
    obtain ⟨hroot, hkept⟩ := mountedUpstream_lawful.parsed h hweb
    exact ⟨hroot, fun segment hin => ⟨(hkept segment hin).encoded, (hkept segment hin).backslash,
      (hkept segment hin).single, (hkept segment hin).double⟩⟩
  asterisk := mountedUpstream_lawful.asterisk
  stored path _ segment hin := by
    simp only [resolvingUpstream] at hin
    split at hin
    · rename_i h
      exact kept_iff.mpr (List.all_eq_true.mp h.2 segment hin)
    · have hroot : [slash].splitOn slash = [[], []] := by decide
      rw [hroot] at hin
      rcases List.mem_cons.mp hin with rfl | hin
      · exact kept_iff.mpr (by decide)
      · rw [List.mem_singleton.mp hin]
        exact kept_iff.mpr (by decide)

/-- An upstream with a path, which is the only one allowed. -/
def mountedState : ProxyState where
  config := ⟨.custom, "x-llmtrace-upstream".toList, mountedText⟩
  upstreamAllowlist := ⟨[.url "https".toList ['h'] 443 (utf8 "/api".toList)]⟩
  pathPrefixes := ⟨[utf8 "/v1".toList]⟩
  capturePolicy := ⟨⟨[utf8 "/v1".toList]⟩, true⟩
  maxRequestBodyBytes := 1024

/-- A request for a path under the proxied prefix. -/
def messagesRequest : ProxyRequest :=
  ⟨"POST", ⟨"/v1/messages".toList, false, false, some (utf8 "/v1/messages".toList, none)⟩, [], false⟩

/-- Where `messagesRequest` goes. -/
def messagesUrl : UpstreamUrl := { mountedUrl with path := utf8 "/api/v1/messages".toList }

theorem parse_mountedEntry (field : String) : parseUpstreamAllowEntry resolvingUpstream field mountedText =
    .ok (.url "https".toList ['h'] 443 (utf8 "/api".toList)) := by
  have htrim : trim mountedText = mountedText := by decide
  have hfull : mountedText.isEmpty = false := rfl
  have hscheme : containsText "://".toList mountedText = true := by decide
  have hurl : parseSchemeUrl resolvingUpstream field mountedText upstreamAllowlistSchemes =
      .ok mountedUrl := by
    have hparse : resolvingUpstream.parse mountedText = some mountedUrl := parse_mounted
    simp only [parseSchemeUrl, htrim, hfull, hparse]
    rfl
  have hpath : normalizeUrlPath mountedUrl.path = utf8 "/api".toList := by decide +kernel
  simp only [parseUpstreamAllowEntry, htrim, hfull, hscheme, hurl, hpath]
  rfl

theorem resolve_messages :
    resolveUpstream resolvingUpstream mountedState.config messagesRequest.uri messagesRequest.headers =
      .ok messagesUrl := by
  have hparse : resolvingUpstream.parse mountedState.config.defaultUpstream = some mountedUrl := parse_mounted
  have hpath : resolvingUpstream.storedPath mountedUrl
      (mountPath (trimSlashes mountedUrl.path) (utf8 "/v1/messages".toList)) = messagesUrl.path := by
    decide +kernel
  change resolveDefaultUpstream resolvingUpstream mountedState.config.defaultUpstream
    (some (utf8 "/v1/messages".toList, none)) = _
  rw [resolve_eq hparse, UpstreamLib.setPath, hpath]
  rfl

/-- `/v1/messages` goes to the upstream of the one entry. -/
theorem forwarded_within_perimeter_messages :
    proxy resolvingUpstream mountedState messagesRequest = .forwarded messagesUrl false true ∧
      normalizePath messagesUrl.path = messagesUrl.path := by
  have htexts : UpstreamAllowlist.parse resolvingUpstream [mountedText] =
      .ok mountedState.upstreamAllowlist := by
    rw [UpstreamAllowlist.parse, parseAllowEntries, parse_mountedEntry]
    rfl
  obtain ⟨hadmitted, hnormal⟩ := forwarded_within_perimeter resolvingUpstream_resolving htexts
    messagesRequest messagesUrl false true
  have hforwarded := hadmitted.mpr
    { unambiguous := by decide +kernel
      proxied := ⟨utf8 "/v1".toList, List.mem_cons_self, .inr (by decide +kernel)⟩
      websocket_eq := rfl
      upgradable := by rintro ⟨⟩
      fits := fun _ => rfl
      capture_eq := by decide +kernel
      resolved := ⟨messagesUrl, resolve_messages, rfl, by decide⟩
      anonymous := ⟨rfl, rfl, rfl⟩
      covered := .inr ⟨mountedText, List.mem_cons_self, (accepts_iff (parse_mountedEntry "") messagesUrl).mp
        (by decide +kernel)⟩ }
  exact ⟨hforwarded, (hnormal hforwarded).2⟩

end Llmtrace.Proxy
