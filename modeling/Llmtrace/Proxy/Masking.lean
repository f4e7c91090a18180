import Llmtrace.Proxy.Redaction

/-! Which headers the configuration masks (`validate_redaction` in `config.rs` against
    `is_sensitive_header` in `redaction.rs`).

    Validation looks at an entry of `sensitive_headers` without the blanks around it; matching compares
    the entry as it is written. An entry with blanks is accepted and matches no header. -/

namespace Llmtrace.Proxy
open Schemes

/-! ### Validation -/

section
-- `HeaderName::from_bytes` succeeds
variable (isHeaderName : List Char → Bool)

/-- An entry that the validation refuses. -/
def badEntry (header : List Char) : Bool := (trim header).isEmpty || !isHeaderName (trim header)

/-- The checks of `sensitive_headers`: one error for each bad entry. -/
def validateRedaction (config : RedactionConfig) : List String :=
  (config.sensitiveHeaders.zipIdx.filter fun e => badEntry isHeaderName e.1).map fun e =>
    let index := e.2
    s!"redaction.sensitive_headers[{index}] must be a valid HTTP header name"

/-- A name of an HTTP header holds no white space. -/
def HeaderNamesBlankless : Prop :=
  ∀ name, isHeaderName name = true → ∀ c ∈ name, isWhitespace c = false

end

/-- The tokens of HTTP, of the length that the `http` crate allows: visible ASCII without
    delimiters. -/
def isToken (name : List Char) : Bool :=
  !name.isEmpty && decide (name.length < 2 ^ 16) &&
    name.all fun c => decide (0x21 ≤ c.toNat ∧ c.toNat < 0x7F) &&
      !"(),/:;<=>?@[\\]\x7b\x7d\"".toList.contains c

theorem isToken_blankless : HeaderNamesBlankless isToken := by
  intro name h c hc
  rw [isToken, Bool.and_eq_true, List.all_eq_true] at h
  have hvisible := (Bool.and_eq_true _ _ ▸ h.2 c hc).1
  rw [decide_eq_true_eq] at hvisible
  simp only [isWhitespace, Bool.or_eq_false_iff, decide_eq_false_iff_not, beq_eq_false_iff_ne]
  omega

/-! ### What an entry is meant for -/

/-- A name equal to the entry, or beginning with its part before a trailing `*`; case and the blanks
    around the entry do not count. -/
def covers (entry name : List Char) : Bool :=
  let wanted := toAsciiLowercase (trim entry)
  toAsciiLowercase name == wanted ||
    wanted.getLast? == some '*' && wanted.dropLast.isPrefixOf (toAsciiLowercase name)

/-- The configuration with the entries that have no blanks around them. -/
def RedactionConfig.tidy (config : RedactionConfig) : RedactionConfig :=
  { config with sensitiveHeaders := config.sensitiveHeaders.filter fun entry => trim entry == entry }

/-- The object that stands for a value: a length, a known scheme, a hash. -/
def Masks (v : Json) : Prop := ∃ text hash, v = redactedValue text hash

/-- Only a masked object is stored under the name. -/
def Masked (stored : RedactedHeaders) (name : List Char) : Prop :=
  ∃ v, stored.json.get (String.ofList (toAsciiLowercase name)) = some v ∧ Masks v

/-! ### Matching -/

/-- What is left when all trailing `*` are cut off begins what is left when one is. -/
theorem trimStars_isPrefix {s : List Char} (h : s.getLast? = some '*') :
    (s.reverse.dropWhile (· == '*')).reverse <+: s.dropLast := by
  obtain ⟨t, rfl⟩ := List.getLast?_eq_some_iff.mp h
  rw [List.dropLast_concat, List.reverse_append, List.reverse_singleton, List.singleton_append,
    List.dropWhile_cons, if_pos (beq_self_eq_true _)]
  have hsuffix := List.dropWhile_suffix (l := t.reverse) (· == '*')
  rw [← List.reverse_prefix, List.reverse_reverse] at hsuffix
  exact hsuffix

/-- An entry without blanks matches what it is meant for. -/
theorem headerNameMatches_of_covers {entry name : List Char} (htidy : trim entry = entry)
    (h : covers entry name = true) :
    headerNameMatches (toAsciiLowercase name) (toAsciiLowercase entry) = true := by
  simp only [covers, htidy, Bool.or_eq_true, beq_iff_eq, Bool.and_eq_true,
    List.isPrefixOf_iff_prefix] at h
  simp only [headerNameMatches, Bool.or_eq_true, beq_iff_eq, Bool.and_eq_true,
    List.isPrefixOf_iff_prefix]
  refine h.imp_right fun ⟨hlast, hstem⟩ => ⟨hlast, ?_⟩
  exact (trimStars_isPrefix hlast).trans hstem

/-- A name without white space is matched only by entries that have none around them. -/
theorem trim_of_headerNameMatches {entry name : List Char}
    (hname : ∀ c ∈ name, isWhitespace c = false)
    (h : headerNameMatches name (toAsciiLowercase entry) = true) : trim entry = entry := by
  apply trim_eq_self
  apply isWhitespace_of_lowercase
  simp only [headerNameMatches, Bool.or_eq_true, beq_iff_eq, Bool.and_eq_true,
    List.isPrefixOf_iff_prefix] at h
  rcases h with rfl | ⟨-, hstem⟩
  · exact hname
  · intro c hc
    rw [← List.mem_reverse, ← List.takeWhile_append_dropWhile (p := (· == '*'))
      (l := (toAsciiLowercase entry).reverse), List.mem_append] at hc
    rcases hc with hc | hc
    · have hstar : c = '*' := by simpa using List.mem_takeWhile_imp (p := (· == '*')) hc
      rw [hstar]
      decide
    · exact hname c (hstem.subset (List.mem_reverse.mpr hc))

theorem isSensitiveHeader_tidy {config : RedactionConfig} {name : List Char}
    (hname : ∀ c ∈ name, isWhitespace c = false) :
    isSensitiveHeader name config.tidy = isSensitiveHeader name config := by
  have hany : (config.tidy.sensitiveHeaders.any fun candidate =>
      headerNameMatches name (toAsciiLowercase candidate)) =
      config.sensitiveHeaders.any fun candidate =>
        headerNameMatches name (toAsciiLowercase candidate) := by
    rw [RedactionConfig.tidy, List.any_filter, Bool.eq_iff_iff, List.any_eq_true, List.any_eq_true]
    constructor
    · rintro ⟨entry, hmem, hentry⟩
      exact ⟨entry, hmem, (Bool.and_eq_true _ _ ▸ hentry).2⟩
    · rintro ⟨entry, hmem, hentry⟩
      refine ⟨entry, hmem, ?_⟩
      rw [hentry, Bool.and_true, beq_iff_eq]
      exact trim_of_headerNameMatches hname hentry
  rw [isSensitiveHeader, isSensitiveHeader, hany]

/-! ### What is stored -/

section
variable {lib : UrlLib} {sha256Hex : Bytes → String} {config : RedactionConfig}
  {upstreamHeader : List Char}

/-- The objects of the upstream header and the plain texts are no masks. -/
theorem masks_storedValue {name : List Char} {value : Bytes} :
    Masks (storedValue lib sha256Hex config upstreamHeader name value) ↔
      isSensitiveHeader name config = true := by
  unfold storedValue
  constructor
  · rintro ⟨text, hash, h⟩
    by_contra hsens
    simp only [if_neg hsens] at h
    split at h
    · rw [redactUpstreamHeader] at h
      split at h
      · dsimp only at h
        split at h
        · simp [redactedValue] at h
        · cases h
      · cases h
    · cases h
  · intro hsens
    simp only [if_pos hsens]
    exact ⟨_, _, rfl⟩

theorem lastValue_isSome {name : List Char} {value : Bytes} {headers : HeaderMap}
    (h : (name, value) ∈ headers) : ∃ last, lastValue (toAsciiLowercase name) headers = some last := by
  induction headers with
  | nil => cases h
  | cons head headers ih =>
    obtain ⟨other, v⟩ := head
    rw [lastValue]
    rcases List.mem_cons.mp h with heq | hmem
    · cases heq
      rw [if_pos rfl]
      cases lastValue (toAsciiLowercase name) headers with
      | none => exact ⟨value, rfl⟩
      | some last => exact ⟨last, rfl⟩
    · obtain ⟨last, hlast⟩ := ih hmem
      exact ⟨last, by rw [hlast, Option.some_or]⟩

/-- A header of the map is masked exactly when its name is sensitive. -/
theorem masked_iff {headers : HeaderMap} {name : List Char} {value : Bytes}
    (h : (name, value) ∈ headers) :
    Masked (redactHeaders lib sha256Hex config upstreamHeader headers) name ↔
      isSensitiveHeader (toAsciiLowercase name) config = true := by
  obtain ⟨last, hlast⟩ := lastValue_isSome h
  have hstored : (redactHeaders lib sha256Hex config upstreamHeader headers).json.get
      (String.ofList (toAsciiLowercase name)) =
      some (storedValue lib sha256Hex config upstreamHeader (toAsciiLowercase name) last) := by
    rw [redactHeaders, Json.get_obj, fetch_storeHeaders, hlast]
    rfl
  rw [Masked, hstored]
  constructor
  · rintro ⟨v, hv, hmask⟩
    cases hv
    exact masks_storedValue.mp hmask
  · exact fun hsens => ⟨_, rfl, masks_storedValue.mpr hsens⟩

/-- A header that an entry is meant for is masked exactly when the entry has no blanks around it, or
    the entries that have none, or the names that are always sensitive, cover it too. -/
theorem configured_header_masked_iff {isHeaderName : List Char → Bool}
    (hnames : HeaderNamesBlankless isHeaderName) {entry : List Char}
    (hentry : entry ∈ config.sensitiveHeaders) {headers : HeaderMap}
    (hheaders : ∀ h ∈ headers, isHeaderName (toAsciiLowercase h.1) = true) {name : List Char}
    {value : Bytes} (hmem : (name, value) ∈ headers) (hcovers : covers entry name = true) :
    Masked (redactHeaders lib sha256Hex config upstreamHeader headers) name ↔
      trim entry = entry ∨ isSensitiveHeader (toAsciiLowercase name) config.tidy = true := by
  have hblank : ∀ c ∈ toAsciiLowercase name, isWhitespace c = false :=
    hnames _ (hheaders _ hmem)
  rw [masked_iff hmem, isSensitiveHeader_tidy hblank]
  refine ⟨.inr, ?_⟩
  rintro (htidy | hsens)
  · have hmatch := headerNameMatches_of_covers htidy hcovers
    rw [isSensitiveHeader, List.any_eq_true.mpr ⟨entry, hentry, hmatch⟩]
    rfl
  · exact hsens

end

/-- The header of the two configurations below. -/
def internalKey : HeaderMap := [("x-internal".toList, utf8 "k".toList)]

theorem configured_header_masked_internal :
    Masked (redactHeaders sampleUrls sampleSha256 ⟨["X-Intern*".toList], false⟩ "x-up".toList
      internalKey) "x-internal".toList :=
  (configured_header_masked_iff isToken_blankless List.mem_cons_self (by decide)
    (List.mem_singleton.mpr rfl) (by decide)).mpr (.inl (by decide))

/-- Validation accepts the entry with a blank, and the header is stored in clear text. -/
theorem blank_entry_masks_nothing :
    let config : RedactionConfig := ⟨[" x-internal".toList], false⟩
    validateRedaction isToken config = [] ∧ covers " x-internal".toList "x-internal".toList = true ∧
      (redactHeaders sampleUrls sampleSha256 config "x-up".toList internalKey).json.get "x-internal" =
        some (.str "k") ∧
      ¬ Masked (redactHeaders sampleUrls sampleSha256 config "x-up".toList internalKey)
        "x-internal".toList := by
  intro config
  have hmem : ("x-internal".toList, utf8 "k".toList) ∈ internalKey := List.mem_singleton.mpr rfl
  refine ⟨by decide, by decide, rfl, ?_⟩
  rw [masked_iff hmem]
  decide

end Llmtrace.Proxy
