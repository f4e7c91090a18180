import Llmtrace.Proxy.Redaction
import Llmtrace.Proxy.Routing

/-! Where a request is sent (`resolve_upstream` and `resolve_default_upstream` in `proxy.rs`). The path of
    the request is put behind the path of the upstream, the mount, unless it is under the mount already.

    The routing decisions are about the path of the request, so the path that is forwarded must end
    with it. The request target `*` has no slash in front, and is not put behind a mount as a segment
    of its own. -/

namespace Llmtrace.Proxy
open Schemes

/-- `*` -/
abbrev asterisk : UInt8 := 0x2A

/-! ### URLs -/

/-- The parts of a `Url`. -/
structure UpstreamUrl where
  scheme : List Char
  username : List Char
  password : Option (List Char)
  host : Option (List Char)
  port : Option ℕ
  path : Bytes
  query : Option Bytes
  fragment : Option Bytes

/-- What is used of the `url` crate: parsing, the path that `set_path` stores and the query that
    `set_query` stores under a scheme. `pathByte` are the bytes that need no encoding in a path. -/
structure UpstreamLib where
  parse : List Char → Option UpstreamUrl
  storedPath : UpstreamUrl → Bytes → Bytes
  storedQuery : List Char → Bytes → Bytes
  pathByte : UInt8 → Bool

section
variable (lib : UpstreamLib)

/-- `Url::set_path` -/
def UpstreamLib.setPath (url : UpstreamUrl) (path : Bytes) : UpstreamUrl :=
  { url with path := lib.storedPath url path }

/-- `Url::set_query` -/
def UpstreamLib.setQuery (url : UpstreamUrl) (query : Option Bytes) : UpstreamUrl :=
  { url with query := query.map (lib.storedQuery url.scheme) }

/-! ### Resolution -/

/-- What is read of the URI of a request: its text, whether scheme and authority are there, path and
    query. -/
structure RequestUri where
  text : List Char
  hasScheme : Bool
  hasAuthority : Bool
  pathAndQuery : Option (Bytes × Option Bytes)

/-- `ProxyPreset` -/
inductive ProxyPreset where
  | custom | litellm
  deriving DecidableEq

/-- What is read of the section `proxy`. -/
structure UpstreamConfig where
  preset : ProxyPreset
  upstreamHeader : List Char
  defaultUpstream : List Char

/-- Why an upstream is not resolved. -/
inductive ResolveError where
  | multipleOverrides
  /-- The header's value is no text. -/
  | notText
  /-- `Url::parse` fails. -/
  | notUrl
  deriving DecidableEq

/-- The text of the error, where it is the code's own. -/
def ResolveError.message : ResolveError → Option String
  | multipleOverrides => some "multiple upstream override headers are not allowed"
  | notText | notUrl => none

/-- `trim_end_matches('/')` -/
def trimSlashes (path : Bytes) : Bytes := (path.reverse.dropWhile (· == slash)).reverse

/-- `Url::parse` -/
def parseUrl (text : List Char) : Except ResolveError UpstreamUrl :=
  match lib.parse text with
  | some url => .ok url
  | none => .error .notUrl

/-- The path that is set: the path of the request, behind the mount unless it is under it. -/
def mountPath (mount path : Bytes) : Bytes :=
  let alreadyPrefixed :=
    path == mount || (stripHead mount path).any fun suffix => suffix.head? == some slash
  if mount.isEmpty || alreadyPrefixed then path else mount ++ path

/-- `resolve_default_upstream` -/
def resolveDefaultUpstream (upstream : List Char) (pathAndQuery : Option (Bytes × Option Bytes)) :
    Except ResolveError UpstreamUrl := do
  let base ← parseUrl lib upstream
  match pathAndQuery with
  | none => return base
  | some (path, query) =>
    let mount := trimSlashes base.path
    return lib.setQuery (lib.setPath base (mountPath mount path)) query

/-- `upstream_override_header` -/
def upstreamOverrideHeader (headers : HeaderMap) (headerName : List Char) :
    Except ResolveError (Option (List Char)) :=
  match headers.filter fun h => h.1 = toAsciiLowercase headerName with
  | [] => .ok none
  | [h] =>
    match toStr h.2 with
    | some value => .ok (some value)
    | none => .error .notText
  | _ => .error .multipleOverrides

/-- `resolve_upstream` -/
def resolveUpstream (config : UpstreamConfig) (uri : RequestUri) (headers : HeaderMap) :
    Except ResolveError UpstreamUrl := do
  match ← upstreamOverrideHeader headers config.upstreamHeader with
  | some value =>
    if config.preset = .litellm then resolveDefaultUpstream lib value uri.pathAndQuery
    else
      let url ← parseUrl lib value
      if url.path = [slash] then
        match uri.pathAndQuery with
        | some (path, query) => return lib.setQuery (lib.setPath url path) query
        | none => return url
      else return url
  | none =>
    if uri.hasScheme && uri.hasAuthority then parseUrl lib uri.text
    else resolveDefaultUpstream lib config.defaultUpstream uri.pathAndQuery

/-! ### What may be forwarded -/

/-- Why an upstream is refused. -/
inductive PolicyError where
  | credentials | noHost | badScheme (scheme : List Char) | notAllowed
  /-- A websocket to a scheme that has none. -/
  | noWebsocket (scheme : List Char)

/-- The schemes of an HTTP upstream. -/
def httpUpstreamSchemes : List (List Char) := ["http".toList, "https".toList]

/-- The schemes of a websocket upstream. -/
def websocketUpstreamSchemes : List (List Char) := ["ws".toList, "wss".toList]

/-- `validate_upstream_url` -/
def validateUpstreamUrl (url : UpstreamUrl) (allowedSchemes : List (List Char)) : Except PolicyError Unit :=
  if !url.username.isEmpty || url.password.isSome then .error .credentials
  else if url.host.isNone then .error .noHost
  else if url.scheme ∉ allowedSchemes then .error (.badScheme url.scheme)
  else .ok ()

/-- The allowlist of upstreams is a parameter. -/
def enforceUpstreamPolicy (allows : UpstreamUrl → Bool) (url : UpstreamUrl)
    (allowedSchemes : List (List Char)) : Except PolicyError Unit := do
  validateUpstreamUrl url allowedSchemes
  if allows url then return () else throw .notAllowed

/-- `http_to_ws_url` -/
def httpToWsUrl (url : UpstreamUrl) : Except PolicyError UpstreamUrl :=
  if url.scheme = "http".toList then .ok { url with scheme := "ws".toList }
  else if url.scheme = "https".toList then .ok { url with scheme := "wss".toList }
  else if url.scheme ∈ websocketUpstreamSchemes then .ok url
  else .error (.noWebsocket url.scheme)

/-- The URL that a resolved one is forwarded to. -/
def forwardUrl (allows : UpstreamUrl → Bool) (websocket : Bool) (url : UpstreamUrl) :
    Except PolicyError UpstreamUrl := do
  if websocket then
    let url ← httpToWsUrl url
    enforceUpstreamPolicy allows url websocketUpstreamSchemes
    return url
  else
    enforceUpstreamPolicy allows url httpUpstreamSchemes
    return url

/-! ### The `url` crate -/

/-- The schemes of all upstreams. -/
def webSchemes : List (List Char) := httpUpstreamSchemes ++ websocketUpstreamSchemes

/-- A segment that `set_path` stores as it is: encoded, without backslash, and no dot segment. -/
structure KeptSegment (segment : Bytes) : Prop where
  encoded : segment.all lib.pathByte = true
  backslash : backslash ∉ segment
  single : singleDot segment = false
  double : doubleDot segment = false

/-- What the URL standard says about the paths of URLs with a web scheme. -/
structure UpstreamLib.Lawful : Prop where
  verbatim {url : UpstreamUrl} {path : Bytes} : url.scheme ∈ webSchemes → path.head? = some slash →
    (∀ segment ∈ path.splitOn slash, KeptSegment lib segment) → lib.storedPath url path = path
  rooted {url : UpstreamUrl} (path : Bytes) : url.scheme ∈ webSchemes →
    (lib.storedPath url path).head? = some slash
  parsed {text : List Char} {url : UpstreamUrl} : lib.parse text = some url → url.scheme ∈ webSchemes →
    url.path.head? = some slash ∧ ∀ segment ∈ url.path.splitOn slash, KeptSegment lib segment
  asterisk : lib.pathByte asterisk = true

end

/-! ### Segments -/

section
variable {lib : UpstreamLib}

theorem trimSlashes_append (path : Bytes) :
    ∃ slashes, (∀ b ∈ slashes, b = slash) ∧ path = trimSlashes path ++ slashes := by
  refine ⟨(path.reverse.takeWhile (· == slash)).reverse, ?_, ?_⟩
  · intro b hb
    simpa using List.mem_takeWhile_imp (p := (· == slash)) (List.mem_reverse.mp hb)
  · rw [trimSlashes, ← List.reverse_append, List.takeWhile_append_dropWhile, List.reverse_reverse]

theorem splitOn_append_slash (s t : Bytes) :
    (s ++ slash :: t).splitOn slash = s.splitOn slash ++ t.splitOn slash :=
  List.splitOn_append_cons_self ..

/-- The segments of the mount are segments of the path. -/
theorem mem_segments_trimSlashes {path segment : Bytes} (h : segment ∈ (trimSlashes path).splitOn slash) :
    segment ∈ path.splitOn slash := by
  obtain ⟨slashes, hslashes, hpath⟩ := trimSlashes_append path
  rw [hpath]
  cases slashes with
  | nil => rwa [List.append_nil]
  | cons b rest =>
    rw [hslashes b List.mem_cons_self, splitOn_append_slash]
    exact List.mem_append_left _ h

/-- The mount is empty or starts with a slash. -/
theorem trimSlashes_rooted {path : Bytes} (h : path.head? = some slash) :
    trimSlashes path = [] ∨ (trimSlashes path).head? = some slash := by
  obtain ⟨slashes, -, hpath⟩ := trimSlashes_append path
  cases hmount : trimSlashes path with
  | nil => exact .inl rfl
  | cons b rest =>
    rw [hpath, hmount, List.cons_append, List.head?_cons] at h
    exact .inr h

theorem segments_kept {path : Bytes} (h : unambiguousPath path = true)
    (henc : path.all lib.pathByte = true) : ∀ s ∈ path.splitOn slash, KeptSegment lib s := by
  intro s hs
  obtain ⟨hback, hdots⟩ := unambiguousPath_eq.mp h s hs
  obtain ⟨hsingle, hdouble⟩ := not_dot_of_unambiguous hdots
  refine ⟨List.all_eq_true.mpr fun b hb => ?_, hback, hsingle, hdouble⟩
  have hne : b ≠ slash := fun heq => notMem_of_mem_splitOn hs (heq ▸ hb)
  exact List.all_eq_true.mp henc b ((mem_splitOn_pieces hne).mpr ⟨s, hs, hb⟩)

/-! ### The asterisk -/

/-- What is behind a dot still ends in an asterisk. -/
theorem stripDot_asterisk {s rest : Bytes} (hs : s.getLast? = some asterisk) (h : stripDot s = some rest) :
    rest.getLast? = some asterisk := by
  obtain rfl | ⟨d, hd, rfl⟩ := stripDot_eq_some h
  · cases rest with
    | nil => cases hs
    | cons b rest => rwa [List.getLast?_cons_cons] at hs
  · cases rest with
    | nil =>
      rw [show d = asterisk from Option.some.inj hs] at hd
      exact absurd hd (by decide)
    | cons e rest => simpa only [List.getLast?_cons_cons] using hs

theorem not_dot_asterisk {s : Bytes} (hs : s.getLast? = some asterisk) :
    singleDot s = false ∧ doubleDot s = false := by
  rw [Bool.eq_false_iff, Bool.eq_false_iff]
  refine ⟨fun hdot => ?_, fun hdot => ?_⟩
  · have hlast := stripDot_asterisk hs (beq_iff_eq.mp hdot)
    cases hlast
  · obtain ⟨rest, hrest, hend⟩ := Option.bind_eq_some_iff.mp (beq_iff_eq.mp hdot)
    have hlast := stripDot_asterisk (stripDot_asterisk hs hrest) hend
    cases hlast

theorem KeptSegment.asterisk (hlib : lib.Lawful) {s : Bytes} (h : KeptSegment lib s) :
    KeptSegment lib (s ++ [asterisk]) := by
  obtain ⟨hsingle, hdouble⟩ := not_dot_asterisk (s := s ++ [Proxy.asterisk]) List.getLast?_concat
  refine ⟨?_, ?_, hsingle, hdouble⟩
  · rw [List.all_append, h.encoded, Bool.true_and, List.all_cons, hlib.asterisk]
    rfl
  · rw [List.mem_append, not_or]
    exact ⟨h.backslash, by decide⟩

/-- A byte behind a path becomes part of its last segment. -/
theorem splitOn_concat {b : UInt8} (hb : b ≠ slash) (path : Bytes) : ∃ front last,
    path.splitOn slash = front ++ [last] ∧ (path ++ [b]).splitOn slash = front ++ [last ++ [b]] := by
  induction path with
  | nil => exact ⟨[], [], rfl, by simp [List.splitOn_cons_eq_if_modifyHead, hb]⟩
  | cons c path ih =>
    obtain ⟨front, last, hpath, hlonger⟩ := ih
    rw [List.cons_append, List.splitOn_cons_eq_if_modifyHead, List.splitOn_cons_eq_if_modifyHead, hpath,
      hlonger]
    by_cases hc : c == slash
    · rw [if_pos hc, if_pos hc]
      exact ⟨[] :: front, last, rfl, rfl⟩
    · rw [if_neg hc, if_neg hc]
      cases front with
      | nil => exact ⟨[], c :: last, rfl, rfl⟩
      | cons s front => exact ⟨(c :: s) :: front, last, rfl, rfl⟩

theorem segments_asterisk (hlib : lib.Lawful) {path : Bytes}
    (h : ∀ s ∈ path.splitOn slash, KeptSegment lib s) :
    ∀ s ∈ (path ++ [asterisk]).splitOn slash, KeptSegment lib s := by
  obtain ⟨front, last, hpath, hlonger⟩ := splitOn_concat (b := asterisk) (by decide) path
  rw [hpath] at h
  rw [hlonger]
  intro s hs
  rcases List.mem_append.mp hs with hs | hs
  · exact h s (List.mem_append_left _ hs)
  · rw [List.mem_singleton.mp hs]
    exact (h last (List.mem_append_right _ List.mem_cons_self)).asterisk hlib

/-! ### The path that is set -/

/-- The path is the mount or lies under it. -/
def UnderMount (mount path : Bytes) : Prop := path = mount ∨ mount ++ [slash] <+: path

instance (mount path : Bytes) : Decidable (UnderMount mount path) :=
  inferInstanceAs (Decidable (_ ∨ _))

theorem mountPath_eq (mount path : Bytes) :
    mountPath mount path = if mount = [] ∨ UnderMount mount path then path else mount ++ path := by
  exact if_congr (by simp only [Bool.or_eq_true, beq_iff_eq, stripHead_slash, List.isEmpty_iff, UnderMount])
    rfl rfl

/-- A path that starts with a slash is put behind the mount as a whole. -/
theorem underMount_append {mount path : Bytes} (h : path.head? = some slash) :
    UnderMount mount (mount ++ path) := by
  obtain ⟨rest, rfl⟩ := List.head?_eq_some_iff.mp h
  exact .inr ⟨rest, by rw [List.append_assoc, List.singleton_append]⟩

/-- A second time nothing is put in front. -/
theorem mountPath_idem {mount path : Bytes} (h : path.head? = some slash) :
    mountPath mount (mountPath mount path) = mountPath mount path := by
  rw [mountPath_eq mount path]
  split
  · rename_i hunder
    rw [mountPath_eq, if_pos hunder]
  · rw [mountPath_eq, if_pos (.inr (underMount_append h))]

theorem suffix_mountPath (mount path : Bytes) : path <:+ mountPath mount path := by
  rw [mountPath_eq]
  split
  · exact List.suffix_rfl
  · exact List.suffix_append _ _

section
variable (hlib : lib.Lawful) {text : List Char} {base : UpstreamUrl} (hbase : lib.parse text = some base)
  (hweb : base.scheme ∈ webSchemes)
include hlib hbase hweb

theorem mount_kept : ∀ s ∈ (trimSlashes base.path).splitOn slash, KeptSegment lib s :=
  fun s hs => (hlib.parsed hbase hweb).2 s (mem_segments_trimSlashes hs)

/-- `set_path` stores a path behind the mount as it is. -/
theorem storedPath_mount {path : Bytes} (hroot : path.head? = some slash)
    (hkept : ∀ s ∈ path.splitOn slash, KeptSegment lib s) :
    lib.storedPath base (mountPath (trimSlashes base.path) path) =
      mountPath (trimSlashes base.path) path := by
  rw [mountPath_eq]
  split
  · exact hlib.verbatim hweb hroot hkept
  · rename_i hnot
    have hfull := (trimSlashes_rooted (hlib.parsed hbase hweb).1).resolve_left fun h => hnot (.inl h)
    obtain ⟨rest, rfl⟩ := List.head?_eq_some_iff.mp hroot
    refine hlib.verbatim hweb ?_ ?_
    · rw [List.head?_append, hfull, Option.some_or]
    · intro s hs
      rw [splitOn_append_slash] at hs
      rcases List.mem_append.mp hs with hs | hs
      · exact mount_kept hlib hbase hweb s hs
      · refine hkept s ?_
        rw [← List.nil_append (slash :: rest), splitOn_append_slash]
        exact List.mem_append_right _ hs

omit hlib hweb in
theorem resolve_eq (path : Bytes) (query : Option Bytes) :
    resolveDefaultUpstream lib text (some (path, query)) =
      .ok (lib.setQuery (lib.setPath base (mountPath (trimSlashes base.path) path)) query) := by
  rw [resolveDefaultUpstream, parseUrl, hbase]
  rfl

end

/-! ### Forwarding -/

theorem validateUpstreamUrl_ok {url : UpstreamUrl} {schemes : List (List Char)}
    (h : validateUpstreamUrl url schemes = .ok ()) : url.scheme ∈ schemes := by
  unfold validateUpstreamUrl at h
  split at h
  · cases h
  · split at h
    · cases h
    · split at h
      · cases h
      · rename_i hscheme
        exact not_not.mp hscheme

theorem enforceUpstreamPolicy_ok {allows : UpstreamUrl → Bool} {url : UpstreamUrl}
    {schemes : List (List Char)} (h : enforceUpstreamPolicy allows url schemes = .ok ()) :
    url.scheme ∈ schemes := by
  rw [enforceUpstreamPolicy] at h
  cases hvalid : validateUpstreamUrl url schemes with
  | error e =>
    rw [hvalid] at h
    cases h
  | ok _ => exact validateUpstreamUrl_ok hvalid

theorem httpToWsUrl_ok {url ws : UpstreamUrl} (h : httpToWsUrl url = .ok ws) :
    ws.path = url.path ∧ url.scheme ∈ webSchemes := by
  unfold httpToWsUrl at h
  split at h
  · rename_i hscheme
    cases h
    exact ⟨rfl, by rw [hscheme]; decide⟩
  · split at h
    · rename_i hscheme
      cases h
      exact ⟨rfl, by rw [hscheme]; decide⟩
    · split at h
      · rename_i hscheme
        cases h
        exact ⟨rfl, List.mem_append_right _ hscheme⟩
      · cases h

/-- Only web URLs are forwarded, with the path that they have. -/
theorem forwardUrl_ok {allows : UpstreamUrl → Bool} {websocket : Bool} {url forwarded : UpstreamUrl}
    (h : forwardUrl allows websocket url = .ok forwarded) :
    forwarded.path = url.path ∧ url.scheme ∈ webSchemes := by
  unfold forwardUrl at h
  cases websocket with
  | true =>
    simp only [if_true] at h
    cases hws : httpToWsUrl url with
    | error e =>
      rw [hws] at h
      cases h
    | ok ws =>
      rw [hws] at h
      cases hpolicy : enforceUpstreamPolicy allows ws websocketUpstreamSchemes with
      | error e =>
        simp only [bind, Except.bind, hpolicy] at h
        cases h
      | ok _ =>
        simp only [bind, Except.bind, hpolicy, pure, Except.pure] at h
        cases h
        exact httpToWsUrl_ok hws
  | false =>
    simp only [Bool.false_eq_true, if_false] at h
    cases hpolicy : enforceUpstreamPolicy allows url httpUpstreamSchemes with
    | error e =>
      rw [hpolicy] at h
      cases h
    | ok _ =>
      rw [hpolicy] at h
      cases h
      exact ⟨rfl, List.mem_append_left _ (enforceUpstreamPolicy_ok hpolicy)⟩

/-! ### The routed path -/

/-- Where a request for a path is sent: to the base, at its path behind the mount. -/
structure RoutedTo (lib : UpstreamLib) (base : UpstreamUrl) (path : Bytes) (query : Option Bytes)
    (url : UpstreamUrl) : Prop where
  scheme_eq : url.scheme = base.scheme
  host_eq : url.host = base.host
  port_eq : url.port = base.port
  query_eq : url.query = query.map (lib.storedQuery base.scheme)
  path_eq : url.path =
    if trimSlashes base.path = [] ∨ UnderMount (trimSlashes base.path) path then path
    else trimSlashes base.path ++ path
  ends_with : path <:+ url.path

/-- Resolution keeps the path of the request, and does nothing to a path it has made. -/
def ResolvesPath (lib : UpstreamLib) (text : List Char) (base : UpstreamUrl) (path : Bytes)
    (query : Option Bytes) : Prop :=
  ∃ url, resolveDefaultUpstream lib text (some (path, query)) = .ok url ∧
    RoutedTo lib base path query url ∧
    resolveDefaultUpstream lib text (some (url.path, query)) = .ok url

/-- No override header changes the end of the path that is forwarded. -/
def OverridesKeepPath (lib : UpstreamLib) (path : Bytes) (query : Option Bytes) : Prop :=
  ∀ config uri headers value url allows websocket forwarded,
    config.preset = .litellm → uri.pathAndQuery = some (path, query) →
    upstreamOverrideHeader headers config.upstreamHeader = .ok (some value) →
    resolveUpstream lib config uri headers = .ok url →
    forwardUrl allows websocket url = .ok forwarded → path <:+ forwarded.path

section
variable (hlib : lib.Lawful)
include hlib

theorem resolvesPath_of_rooted {text : List Char} {base : UpstreamUrl} (hbase : lib.parse text = some base)
    (hweb : base.scheme ∈ webSchemes) {path : Bytes} (query : Option Bytes)
    (hroot : path.head? = some slash) (hkept : ∀ s ∈ path.splitOn slash, KeptSegment lib s) :
    ResolvesPath lib text base path query := by
  have hstored := storedPath_mount hlib hbase hweb hroot hkept
  refine ⟨_, resolve_eq hbase path query, ⟨rfl, rfl, rfl, rfl, ?_, ?_⟩, ?_⟩
  · exact hstored.trans (mountPath_eq _ _)
  · change path <:+ lib.storedPath base _
    rw [hstored]
    exact suffix_mountPath _ _
  · have hpath : (lib.setQuery (lib.setPath base (mountPath (trimSlashes base.path) path)) query).path =
        mountPath (trimSlashes base.path) path := hstored
    rw [hpath, resolve_eq hbase, mountPath_idem hroot]

theorem overridesKeepPath_of_rooted {path : Bytes} (query : Option Bytes) (hroot : path.head? = some slash)
    (hkept : ∀ s ∈ path.splitOn slash, KeptSegment lib s) : OverridesKeepPath lib path query := by
  rintro config uri headers value url allows websocket forwarded hpreset hpath hvalue hresolve hforward
  obtain ⟨hsame, hweb⟩ := forwardUrl_ok hforward
  have hdefault : resolveDefaultUpstream lib value (some (path, query)) = .ok url := by
    rw [resolveUpstream, hvalue] at hresolve
    simpa only [bind, Except.bind, hpreset, if_true, hpath] using hresolve
  cases hbase : lib.parse value with
  | none =>
    rw [resolveDefaultUpstream, parseUrl, hbase] at hdefault
    cases hdefault
  | some base =>
    rw [resolve_eq hbase] at hdefault
    cases hdefault
    have hstored := storedPath_mount hlib hbase hweb hroot hkept
    rw [hsame]
    change path <:+ lib.storedPath base _
    rw [hstored]
    exact suffix_mountPath _ _

/-- The request target `*` is not kept: without a mount a slash is put in front, and behind a mount it
    becomes part of the last segment, to which the mount is added again. -/
theorem not_resolvesPath_asterisk {text : List Char} {base : UpstreamUrl}
    (hbase : lib.parse text = some base) (hweb : base.scheme ∈ webSchemes) (query : Option Bytes) :
    ¬ ResolvesPath lib text base [asterisk] query := by
  rintro ⟨url, hresolve, hrouted, hagain⟩
  rw [resolve_eq hbase] at hresolve
  cases hresolve
  have hpath := hrouted.path_eq
  change lib.storedPath base (mountPath (trimSlashes base.path) [asterisk]) = _ at hpath
  have hnot : ∀ mount : Bytes, mount.head? = some slash → ¬ UnderMount mount [asterisk] := by
    rintro mount hmount (heq | ⟨rest, heq⟩)
    · rw [← heq] at hmount
      cases hmount
    · obtain ⟨tail, rfl⟩ := List.head?_eq_some_iff.mp hmount
      cases heq
  rcases trimSlashes_rooted (hlib.parsed hbase hweb).1 with hempty | hmount
  · rw [if_pos (.inl hempty)] at hpath
    have hroot := hlib.rooted (mountPath (trimSlashes base.path) [asterisk]) hweb
    rw [hpath] at hroot
    cases hroot
  · have hne : trimSlashes base.path ≠ [] := by
      intro h
      rw [h] at hmount
      cases hmount
    have hout : ¬(trimSlashes base.path = [] ∨ UnderMount (trimSlashes base.path) [asterisk]) :=
      not_or.mpr ⟨hne, hnot _ hmount⟩
    rw [if_neg hout] at hpath
    -- a second time the mount is put in front again
    have hout' : ¬(trimSlashes base.path = [] ∨
        UnderMount (trimSlashes base.path) (trimSlashes base.path ++ [asterisk])) := by
      rw [not_or]
      refine ⟨hne, ?_⟩
      rintro (heq | ⟨rest, heq⟩)
      · simp at heq
      · rw [List.append_assoc, List.append_cancel_left_eq] at heq
        cases heq
    have hurl : (lib.setQuery (lib.setPath base (mountPath (trimSlashes base.path) [asterisk])) query).path =
        trimSlashes base.path ++ [asterisk] := hpath
    rw [hurl, resolve_eq hbase, mountPath_eq, if_neg hout'] at hagain
    have htwice : lib.storedPath base (trimSlashes base.path ++ (trimSlashes base.path ++ [asterisk])) =
        trimSlashes base.path ++ [asterisk] := by
      have hpaths := congrArg UpstreamUrl.path (Except.ok.inj hagain)
      exact hpaths.trans hurl
    have hkept := mount_kept hlib hbase hweb
    obtain ⟨rest, hrest⟩ := List.head?_eq_some_iff.mp hmount
    rw [hlib.verbatim hweb] at htwice
    · exact hne (List.append_left_eq_self.mp htwice)
    · rw [List.head?_append, hmount, Option.some_or]
    · rw [← List.append_assoc]
      refine segments_asterisk hlib ?_
      intro s hs
      rw [hrest] at hs hkept
      rw [splitOn_append_slash] at hs
      rcases List.mem_append.mp hs with hs | hs
      · exact hkept s hs
      · refine hkept s ?_
        rw [← List.nil_append (slash :: rest), splitOn_append_slash]
        exact List.mem_append_right _ hs

/-- The path of a request is kept exactly when it starts with a slash, which the target `*` does not. -/
theorem routed_path_kept_iff {text : List Char} {base : UpstreamUrl} (hbase : lib.parse text = some base)
    (hweb : base.scheme ∈ webSchemes) {path : Bytes} (query : Option Bytes)
    (hpath : unambiguousPath path = true) (hencoded : path.all lib.pathByte = true)
    (htarget : path.head? = some slash ∨ path = [asterisk]) :
    ResolvesPath lib text base path query ∧ OverridesKeepPath lib path query ↔
      path.head? = some slash := by
  constructor
  · rintro ⟨hresolves, -⟩
    rcases htarget with hroot | rfl
    · exact hroot
    · exact absurd hresolves (not_resolvesPath_asterisk hlib hbase hweb query)
  · intro hroot
    have hkept := segments_kept hpath hencoded
    exact ⟨resolvesPath_of_rooted hlib hbase hweb query hroot hkept,
      overridesKeepPath_of_rooted hlib query hroot hkept⟩

end

end

/-! ### An upstream with a mount -/

/-- A base URL with a path. -/
def mountedText : List Char := "https://h/api".toList

/-- The parts of `mountedText`. -/
def mountedUrl : UpstreamUrl :=
  ⟨"https".toList, [], none, some ['h'], none, utf8 "/api".toList, none, none⟩

/-- The `url` crate on this upstream, and on paths that need no change but a slash in front. -/
def mountedUpstream : UpstreamLib where
  parse := fun text => if text = mountedText then some mountedUrl else none
  storedPath := fun _ path => if path.head? = some slash then path else slash :: path
  storedQuery := fun _ query => query
  pathByte := fun b => decide (0x21 ≤ b.toNat ∧ b.toNat < 0x7F) &&
    !(utf8 "\"#<>?\x7b\x7d".toList).contains b && b != 0x60

theorem parse_mounted : mountedUpstream.parse mountedText = some mountedUrl := by
  simp only [mountedUpstream, if_true]

theorem mountedUpstream_lawful : mountedUpstream.Lawful where
  verbatim _ hroot _ := if_pos hroot
  rooted path _ := by
    simp only [mountedUpstream]
    split
    · assumption
    · rfl
  parsed := by
    intro text url h _
    simp only [mountedUpstream] at h
    split at h
    · cases h
      have hsegments : mountedUrl.path.splitOn slash = [[], utf8 "api".toList] := by decide +kernel
      refine ⟨rfl, ?_⟩
      rw [hsegments]
      intro segment hsegment
      rcases List.mem_cons.mp hsegment with rfl | hsegment
      · exact ⟨rfl, by decide, rfl, rfl⟩
      · rw [List.mem_singleton.mp hsegment]
        exact ⟨by decide, by decide, by decide, by decide⟩
    · cases h
  asterisk := by decide

/-- `/v1/messages` goes to `/api/v1/messages`. -/
theorem routed_path_kept_messages :
    ResolvesPath mountedUpstream mountedText mountedUrl (utf8 "/v1/messages".toList) none :=
  ((routed_path_kept_iff mountedUpstream_lawful parse_mounted (by decide) none (by decide +kernel)
    (by decide +kernel) (.inl rfl)).mpr rfl).1

/-- The target `*` goes to `/api*`, and from there to `/api/api*`. -/
theorem asterisk_mounted_twice :
    unambiguousPath [asterisk] = true ∧ [asterisk].all mountedUpstream.pathByte = true ∧
      mountedUpstream.parse mountedText = some mountedUrl ∧
      (∃ url again, resolveDefaultUpstream mountedUpstream mountedText (some ([asterisk], none)) = .ok url ∧
        url.path = utf8 "/api*".toList ∧
        resolveDefaultUpstream mountedUpstream mountedText (some (url.path, none)) = .ok again ∧
        again.path = utf8 "/api/api*".toList) ∧
      ¬ ResolvesPath mountedUpstream mountedText mountedUrl [asterisk] none := by
  refine ⟨by decide +kernel, by decide, parse_mounted, ?_,
    not_resolvesPath_asterisk mountedUpstream_lawful parse_mounted (by decide) none⟩
  exact ⟨_, _, resolve_eq parse_mounted _ _, by decide +kernel, resolve_eq parse_mounted _ _,
    by decide +kernel⟩

end Llmtrace.Proxy
