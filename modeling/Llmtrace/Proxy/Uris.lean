import Llmtrace.Proxy.Redaction

/-! What `redact_uri_query_values` leaves of a URI: an absolute URL is taken apart by the `url` crate, a
    reference that starts with a slash by the code itself. Both ways the names of the query's pairs
    stay and their values, the userinfo and the fragment go. -/

namespace Llmtrace.Proxy
open Schemes

/-! ### The two forms -/

/-- Scheme, host, port and path are followed by this. -/
def queryText (query : Option (List Char)) : List Char := (query.map fun q => '?' :: q).getD []

/-- A fragment with its sign. -/
def fragmentText (fragment : Option (List Char)) : List Char :=
  (fragment.map fun f => '#' :: f).getD []

/-- A reference with a path from the root. -/
structure OriginForm where
  path : List Char
  query : Option (List Char)
  fragment : Option (List Char)
  path_query : '?' ∉ path
  path_fragment : '#' ∉ path
  query_fragment : ∀ q, query = some q → '#' ∉ q

/-- The text of a target in origin form. -/
def OriginForm.text (o : OriginForm) : List Char :=
  '/' :: (o.path ++ (queryText o.query ++ fragmentText o.fragment))

/-- Two slashes follow the scheme. -/
def Url.HasAuthority (url : Url) : Prop :=
  ∃ scheme rest, url.base = scheme ++ "://".toList ++ rest ∧ ':' ∉ scheme

/-- No characters but those of the parsed query, and the ones that redaction puts in. What a query holds
    after parsing depends on the scheme: `'` is encoded in the special ones alone. -/
def KeepsTo (parsed : Option (List Char)) (query : List Char) : Prop :=
  ∃ q, parsed = some q ∧ ∀ c ∈ query, c ∈ q ∨ c ∈ "&=REDACTED".toList

/-- What the URL standard says about the parts of the `url` crate that are used. -/
structure UrlLib.Lawful (lib : UrlLib) : Prop where
  /-- A reference has no scheme. -/
  reference (rest : List Char) : lib.parse ('/' :: rest) = none
  base {text : List Char} {url : Url} : lib.parse text = some url → '#' ∉ url.base
  query {text query : List Char} {url : Url} :
    lib.parse text = some url → url.query = some query → '#' ∉ query
  /-- What a parsed query holds is not encoded again. -/
  encode {text query : List Char} {url : Url} :
    lib.parse text = some url → KeepsTo url.query query → lib.encodeQuery query = query
  /-- How a URL is written that has neither userinfo nor fragment, and what is read from that. -/
  written {text : List Char} {url : Url} {query : Option (List Char)} :
    lib.parse text = some url → url.HasAuthority → (∀ q, query = some q → KeepsTo url.query q) →
    lib.toText ⟨url.base, [], none, query, none⟩ = url.base ++ queryText query
  readBack {text : List Char} {url : Url} {query : Option (List Char)} :
    lib.parse text = some url → url.HasAuthority → (∀ q, query = some q → KeepsTo url.query q) →
    lib.parse (url.base ++ queryText query) = some ⟨url.base, [], none, query, none⟩

/-- Inputs that differ in the userinfo, the values of the query's pairs and the fragment at most. -/
inductive Uri.Alike (lib : UrlLib) : List Char → List Char → Prop
  | absolute {text text' : List Char} {url url' : Url} :
      lib.parse text = some url → lib.parse text' = some url' → url.HasAuthority →
      url.base = url'.base → url.query.map queryNames = url'.query.map queryNames →
      Uri.Alike lib text text'
  | origin {o o' : OriginForm} : o.path = o'.path →
      o.query.map queryNames = o'.query.map queryNames → Uri.Alike lib o.text o'.text

/-! ### The query -/

theorem notMem_queryNames {query name : List Char} (h : name ∈ queryNames query) :
    '&' ∉ name ∧ '=' ∉ name := by
  unfold queryNames at h
  split at h
  · cases h
  · obtain ⟨pair, hpair, rfl⟩ := List.mem_map.mp h
    exact ⟨fun hc => notMem_of_mem_splitOn hpair (mem_before hc), notMem_before pair⟩

theorem pairName_redacted {name : List Char} (h : '=' ∉ name) :
    pairName (name ++ '=' :: redactedQueryValue) = name := by
  rw [pairName, splitOnce_append _ h]
  rfl

/-- The names stay, in their order. -/
theorem queryNames_redact (query : List Char) : queryNames (redactQueryString query) = queryNames query := by
  cases query with
  | nil => rfl
  | cons c rest =>
    have hne : queryNames (c :: rest) ≠ [] := by
      rw [queryNames, if_neg (by simp)]
      simp [List.splitOn_ne_nil]
    have hamp : ∀ pair ∈ (queryNames (c :: rest)).map fun name => name ++ '=' :: redactedQueryValue,
        '&' ∉ pair := by
      rintro pair hpair hmem
      obtain ⟨name, hname, rfl⟩ := List.mem_map.mp hpair
      rcases List.mem_append.mp hmem with hmem | hmem
      · exact (notMem_queryNames hname).1 hmem
      · exact absurd hmem (by decide)
    have hsplit := List.splitOn_intercalate '&' hamp (by simpa using hne)
    rw [← redactQueryString_eq] at hsplit
    have hfilled : (redactQueryString (c :: rest)).isEmpty = false := by
      rw [Bool.eq_false_iff, ne_eq, List.isEmpty_iff]
      intro hnil
      rw [hnil, List.splitOn_nil] at hsplit
      obtain ⟨name, -, heq⟩ := List.mem_map.mp (hsplit ▸ List.mem_singleton_self ([] : List Char))
      exact absurd heq (by simp)
    rw [queryNames, if_neg (by simp [hfilled]), hsplit, List.map_map]
    conv_rhs => rw [← List.map_id (queryNames (c :: rest))]
    exact List.map_congr_left fun name hname => pairName_redacted (notMem_queryNames hname).2

theorem redactQueryString_idem (query : List Char) :
    redactQueryString (redactQueryString query) = redactQueryString query :=
  redactQueryString_alike (queryNames_redact query)

/-- The characters of the redacted query are those of the names, and the ones that are put in. -/
theorem mem_redactQueryString {query : List Char} {c : Char} (h : c ∈ redactQueryString query) :
    c ∈ query ∨ c ∈ "&=REDACTED".toList := by
  rw [redactQueryString] at h
  split at h
  · cases h
  · rcases mem_intercalate h with h | ⟨piece, hpiece, hmem⟩
    · rw [List.mem_singleton.mp h]
      exact .inr (by decide)
    · obtain ⟨pair, hpair, rfl⟩ := List.mem_map.mp hpiece
      rcases List.mem_append.mp hmem with hmem | hmem
      · by_cases hamp : c = '&'
        · exact .inr (by rw [hamp]; decide)
        · exact .inl ((mem_splitOn_pieces hamp).mpr ⟨pair, hpair, mem_before hmem⟩)
      · refine .inr (List.mem_cons_of_mem _ ?_)
        exact hmem

/-! ### References -/

/-- A text is cut at the first separator, if it has one. -/
theorem exists_cut (sep : Char) (s : List Char) : ∃ front tail, s = front ++ tail ∧ sep ∉ front ∧
    (tail = [] ∨ ∃ rest, tail = sep :: rest) := by
  by_cases h : sep ∈ s
  · obtain ⟨front, rest, rfl, hfront⟩ := List.eq_append_cons_of_mem h
    exact ⟨front, sep :: rest, rfl, hfront, .inr ⟨rest, rfl⟩⟩
  · exact ⟨s, [], (List.append_nil s).symm, h, .inl rfl⟩

/-- Every text that starts with a slash is a reference. -/
theorem exists_originForm (rest : List Char) : ∃ o : OriginForm, '/' :: rest = o.text := by
  obtain ⟨front, tail, rfl, hfront, htail⟩ := exists_cut '#' rest
  obtain ⟨path, behind, rfl, hpath, hbehind⟩ := exists_cut '?' front
  rw [List.mem_append, not_or] at hfront
  obtain ⟨fragment, rfl⟩ : ∃ fragment, tail = fragmentText fragment := by
    rcases htail with rfl | ⟨f, rfl⟩
    · exact ⟨none, rfl⟩
    · exact ⟨some f, rfl⟩
  obtain ⟨query, rfl⟩ : ∃ query, behind = queryText query := by
    rcases hbehind with rfl | ⟨q, rfl⟩
    · exact ⟨none, rfl⟩
    · exact ⟨some q, rfl⟩
  refine ⟨⟨path, query, fragment, hpath, hfront.1, ?_⟩, ?_⟩
  · rintro q rfl hmem
    exact hfront.2 (List.mem_cons_of_mem _ hmem)
  · rw [OriginForm.text, List.append_assoc]

theorem notMem_redactQueryString {query : List Char} (h : '#' ∉ query) : '#' ∉ redactQueryString query := by
  intro hmem
  rcases mem_redactQueryString hmem with hmem | hmem
  · exact h hmem
  · exact absurd hmem (by decide)

/-- What is left of a reference. -/
def OriginForm.redacted (o : OriginForm) : OriginForm where
  path := o.path
  query := o.query.map redactQueryString
  fragment := none
  path_query := o.path_query
  path_fragment := o.path_fragment
  query_fragment := by
    intro q hq
    obtain ⟨query, hquery, rfl⟩ := Option.map_eq_some_iff.mp hq
    exact notMem_redactQueryString (o.query_fragment query hquery)

/-- No fragment begins before the end of the query. -/
theorem OriginForm.notMem_front (o : OriginForm) : '#' ∉ '/' :: (o.path ++ queryText o.query) := by
  rw [List.mem_cons, List.mem_append, not_or, not_or]
  refine ⟨by decide, o.path_fragment, ?_⟩
  cases hq : o.query with
  | none => exact List.not_mem_nil
  | some q =>
    rw [queryText, Option.map_some, Option.getD_some, List.mem_cons, not_or]
    exact ⟨by decide, o.query_fragment q hq⟩

theorem OriginForm.redacted_text (o : OriginForm) :
    o.redacted.text = '/' :: (o.path ++ queryText (o.query.map redactQueryString)) := by
  rw [text, redacted, fragmentText, Option.map_none, Option.getD_none, List.append_nil]

theorem OriginForm.redacted_redacted (o : OriginForm) : o.redacted.redacted.text = o.redacted.text := by
  have hidem : redactQueryString ∘ redactQueryString = redactQueryString := funext redactQueryString_idem
  rw [redacted_text, redacted_text, redacted, Option.map_map, hidem]

theorem map_queryNames_redact (query : Option (List Char)) :
    (query.map redactQueryString).map queryNames = query.map queryNames := by
  rw [Option.map_map]
  exact congrArg (query.map ·) (funext queryNames_redact)

theorem map_redact_alike {query query' : Option (List Char)}
    (h : query.map queryNames = query'.map queryNames) :
    query.map redactQueryString = query'.map redactQueryString := by
  cases query with
  | none =>
    cases query' with
    | none => rfl
    | some q' => cases h
  | some q =>
    cases query' with
    | none => cases h
    | some q' =>
      rw [Option.map_some, Option.map_some, Option.some.injEq] at h
      rw [Option.map_some, Option.map_some, redactQueryString_alike h]

theorem keepsTo_redacted {parsed : Option (List Char)} :
    ∀ q, parsed.map redactQueryString = some q → KeepsTo parsed q := by
  intro q hq
  obtain ⟨query, hquery, rfl⟩ := Option.map_eq_some_iff.mp hq
  exact ⟨query, hquery, fun c hc => mem_redactQueryString hc⟩

section
variable {lib : UrlLib} (hlib : lib.Lawful)
include hlib

/-- The query of a reference is redacted, and its fragment dropped. -/
theorem redact_origin (o : OriginForm) : redactUriQueryValues lib o.text = o.redacted.text := by
  have hmark : '?' ∉ '/' :: o.path := by
    rw [List.mem_cons, not_or]
    exact ⟨by decide, o.path_query⟩
  have hcut : ((splitOnce '#' o.text).map Prod.fst).getD o.text = '/' :: (o.path ++ queryText o.query) := by
    rw [OriginForm.text, ← List.append_assoc, ← List.cons_append]
    cases o.fragment with
    | none =>
      rw [fragmentText, Option.map_none, Option.getD_none, List.append_nil,
        splitOnce_eq_none.mpr o.notMem_front]
      rfl
    | some f =>
      rw [fragmentText, Option.map_some, Option.getD_some, splitOnce_append f o.notMem_front]
      rfl
  have hparse : lib.parse o.text = none := hlib.reference _
  rw [redactUriQueryValues, hparse, o.redacted_text]
  simp only [hcut]
  cases hq : o.query with
  | none =>
    rw [queryText, Option.map_none, Option.getD_none, List.append_nil, splitOnce_eq_none.mpr hmark]
    simp [queryText]
  | some q =>
    rw [queryText, Option.map_some, Option.getD_some, ← List.cons_append, splitOnce_append q hmark]
    rfl

/-- What is left of an absolute URL. -/
theorem redact_absolute {text : List Char} {url : Url} (h : lib.parse text = some url)
    (hauth : url.HasAuthority) : redactUriQueryValues lib text =
      url.base ++ queryText (url.query.map redactQueryString) := by
  have hencode : (url.query.map fun query => lib.encodeQuery (redactQueryString query)) =
      url.query.map redactQueryString := by
    cases hq : url.query with
    | none => rfl
    | some q =>
      have hkeeps : KeepsTo url.query (redactQueryString q) :=
        keepsTo_redacted _ (by rw [hq, Option.map_some])
      rw [Option.map_some, Option.map_some, hlib.encode h hkeeps]
  rw [redactUriQueryValues, h]
  simp only [hencode]
  exact hlib.written h hauth keepsTo_redacted

theorem redact_absolute_read {text : List Char} {url : Url} (h : lib.parse text = some url)
    (hauth : url.HasAuthority) : lib.parse (redactUriQueryValues lib text) =
      some ⟨url.base, [], none, url.query.map redactQueryString, none⟩ := by
  rw [redact_absolute hlib h hauth]
  exact hlib.readBack h hauth keepsTo_redacted

theorem redact_absolute_idem {text : List Char} {url : Url} (h : lib.parse text = some url)
    (hauth : url.HasAuthority) : redactUriQueryValues lib (redactUriQueryValues lib text) =
      redactUriQueryValues lib text := by
  have hidem : redactQueryString ∘ redactQueryString = redactQueryString := funext redactQueryString_idem
  rw [redact_absolute hlib (redact_absolute_read hlib h hauth) hauth, redact_absolute hlib h hauth,
    Option.map_map, hidem]

theorem notMem_redact_absolute {text : List Char} {url : Url} (h : lib.parse text = some url)
    (hauth : url.HasAuthority) : '#' ∉ redactUriQueryValues lib text := by
  rw [redact_absolute hlib h hauth, List.mem_append, not_or]
  refine ⟨hlib.base h, ?_⟩
  cases hq : url.query with
  | none => exact List.not_mem_nil
  | some q =>
    rw [Option.map_some, queryText, Option.map_some, Option.getD_some, List.mem_cons, not_or]
    exact ⟨by decide, notMem_redactQueryString (hlib.query h hq)⟩

theorem redact_alike {text text' : List Char} (h : Uri.Alike lib text text') :
    redactUriQueryValues lib text = redactUriQueryValues lib text' := by
  cases h with
  | @absolute _ _ url url' hurl hurl' hauth hbase hquery =>
    have hauth' : url'.HasAuthority := by
      rw [Url.HasAuthority, ← hbase]
      exact hauth
    rw [redact_absolute hlib hurl hauth, redact_absolute hlib hurl' hauth', hbase, map_redact_alike hquery]
  | origin hpath hquery =>
    rw [redact_origin hlib, redact_origin hlib, OriginForm.redacted_text, OriginForm.redacted_text, hpath,
      map_redact_alike hquery]

/-- Redaction of a URI shows nothing of values, userinfo and fragment, keeps all else, and does nothing
    a second time. -/
theorem uri_redaction_hides_values :
    (∀ text text', Uri.Alike lib text text' →
      redactUriQueryValues lib text = redactUriQueryValues lib text') ∧
    (∀ text url, lib.parse text = some url → url.HasAuthority →
      (∃ left, lib.parse (redactUriQueryValues lib text) = some left ∧ left.base = url.base ∧
        left.query.map queryNames = url.query.map queryNames ∧
        left.username = [] ∧ left.password = none ∧ left.fragment = none) ∧
      '#' ∉ redactUriQueryValues lib text ∧
      redactUriQueryValues lib (redactUriQueryValues lib text) = redactUriQueryValues lib text) ∧
    (∀ rest, ∃ o left : OriginForm, '/' :: rest = o.text ∧
      redactUriQueryValues lib ('/' :: rest) = left.text ∧ left.path = o.path ∧
      left.query.map queryNames = o.query.map queryNames ∧ left.fragment = none ∧
      '#' ∉ left.text ∧ redactUriQueryValues lib left.text = left.text) := by
  refine ⟨fun _ _ => redact_alike hlib, ?_, ?_⟩
  · intro text url h hauth
    exact ⟨⟨_, redact_absolute_read hlib h hauth, rfl, map_queryNames_redact _, rfl, rfl, rfl⟩,
      notMem_redact_absolute hlib h hauth, redact_absolute_idem hlib h hauth⟩
  · intro rest
    obtain ⟨o, ho⟩ := exists_originForm rest
    refine ⟨o, o.redacted, ho, ?_, rfl, map_queryNames_redact _, rfl, ?_, ?_⟩
    · rw [ho, redact_origin hlib]
    · rw [o.redacted_text]
      exact o.redacted.notMem_front
    · rw [redact_origin hlib, o.redacted_redacted]

end

/-! ### URLs of one host -/

/-- The host's root, without userinfo. -/
def hostRoot : List Char := "https://h/".toList

/-- What a query of a special scheme holds after percent-encoding. -/
def queryChar (c : Char) : Bool :=
  decide (0x21 ≤ c.toNat ∧ c.toNat < 0x7F) && !"\"'#<>".toList.contains c

/-- The `url` crate on the URLs of one host that hold no userinfo, no path and nothing to encode, and
    on one more. -/
def hostUrls : UrlLib where
  parse := fun text =>
    if hostRoot.isPrefixOf text then
      match text.drop hostRoot.length with
      | [] => some ⟨hostRoot, [], none, none, none⟩
      | c :: query =>
        if c = '?' ∧ query.all queryChar = true then some ⟨hostRoot, [], none, some query, none⟩ else none
    else if text = "https://u:p@h/?k=v#f".toList then
      some ⟨hostRoot, ['u'], some ['p'], some "k=v".toList, some ['f']⟩
    else none
  encodeQuery := id
  toText := fun url => url.base ++ queryText url.query

theorem hostUrls_parse {text : List Char} {url : Url} (h : hostUrls.parse text = some url) :
    url.base = hostRoot ∧ ∀ q, url.query = some q → q.all queryChar = true := by
  simp only [hostUrls] at h
  split at h
  · split at h
    · cases h
      exact ⟨rfl, fun q hq => nomatch hq⟩
    · split at h
      · rename_i hquery
        cases h
        refine ⟨rfl, fun q hq => ?_⟩
        cases hq
        exact hquery.2
      · cases h
  · split at h
    · cases h
      refine ⟨rfl, fun q hq => ?_⟩
      cases hq
      decide
    · cases h

theorem hostUrls_keepsTo {text query : List Char} {url : Url} (h : hostUrls.parse text = some url)
    (hkeeps : KeepsTo url.query query) : query.all queryChar = true := by
  obtain ⟨parsed, hparsed, hmem⟩ := hkeeps
  refine List.all_eq_true.mpr fun c hc => ?_
  rcases hmem c hc with hold | hput
  · exact List.all_eq_true.mp ((hostUrls_parse h).2 parsed hparsed) c hold
  · exact List.all_eq_true.mp (by decide : "&=REDACTED".toList.all queryChar = true) c hput

theorem hostUrls_lawful : hostUrls.Lawful where
  reference rest := rfl
  base h := by
    rw [(hostUrls_parse h).1]
    decide
  query h hq hmem := absurd (List.all_eq_true.mp ((hostUrls_parse h).2 _ hq) _ hmem) (by decide)
  encode _ _ := rfl
  written _ _ _ := rfl
  readBack := by
    intro text url query h _ hquery
    rw [(hostUrls_parse h).1]
    have hstem : hostRoot.isPrefixOf (hostRoot ++ queryText query) = true :=
      List.isPrefixOf_iff_prefix.mpr (List.prefix_append _ _)
    simp only [hostUrls, hstem, if_true, List.drop_left]
    cases query with
    | none => rfl
    | some q => simp [queryText, hostUrls_keepsTo h (hquery q rfl)]

/-- A password, a value and a fragment leave no trace. -/
theorem uri_redaction_hides_password :
    redactUriQueryValues hostUrls "https://u:p@h/?k=v#f".toList =
      redactUriQueryValues hostUrls "https://h/?k=w".toList :=
  (uri_redaction_hides_values hostUrls_lawful).1 _ _
    (.absolute rfl rfl ⟨"https".toList, "h/".toList, rfl, by decide⟩ rfl rfl)

end Llmtrace.Proxy
