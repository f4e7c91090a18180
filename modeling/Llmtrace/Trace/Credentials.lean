import Llmtrace.Proxy.Masking
import Llmtrace.Trace.Session

/-! The credential scope of a journal record (`credential_scope_from_headers` and `headers_to_json` in
    `redaction.rs`). The proxy hashes the first value of a credential header; the record keeps the
    headers as a JSON object, in which the last value of a name stays. -/

namespace Llmtrace.Trace
open Schemes Proxy

/-! ### The recorded headers -/

/-- The loop of `headers_to_json`. -/
def jsonHeaders : HeaderMap → List (String × Json) → List (String × Json)
  | [], map => map
  | (name, value) :: headers, map =>
    jsonHeaders headers
      (put (String.ofList (toAsciiLowercase name)) (.str (String.ofList (valueText value))) map)

/-- `headers_to_json` -/
def headersToJson (headers : HeaderMap) : Json := .obj (jsonHeaders headers [])

/-- `sha256_hex` -/
def HashLib.sha256Hex (lib : HashLib) (bytes : Bytes) : String :=
  String.ofList (hexEncode (lib.sha256 bytes))

theorem fetch_jsonHeaders (key : List Char) (headers : HeaderMap) (map : List (String × Json)) :
    fetch (String.ofList key) (jsonHeaders headers map) =
      ((lastValue key headers).map fun value => Json.str (String.ofList (valueText value))).or
        (fetch (String.ofList key) map) :=
  @fetch_of_puts jsonHeaders (fun _ value => .str (String.ofList (valueText value))) (fun _ => rfl)
    (fun _ _ _ _ => rfl) key headers map

/-! ### First and last values -/

section
variable {headers : HeaderMap}

/-- The names of a header map are in lower case. -/
def Lowercase (headers : HeaderMap) : Prop := ∀ h ∈ headers, toAsciiLowercase h.1 = h.1

theorem mem_of_first {name : List Char} {value : Bytes} (h : headers.first name = some value) :
    (name, value) ∈ headers := by
  obtain ⟨entry, hfind, rfl⟩ := Option.map_eq_some_iff.mp h
  have hname : entry.1 = name := by simpa using List.find?_some hfind
  rw [← hname]
  exact List.mem_of_find?_eq_some hfind

theorem mem_of_lastValue (hlower : Lowercase headers) {name : List Char} {value : Bytes}
    (h : lastValue name headers = some value) : (name, value) ∈ headers := by
  induction headers with
  | nil => cases h
  | cons head headers ih =>
    obtain ⟨other, v⟩ := head
    rw [lastValue] at h
    cases hlast : lastValue name headers with
    | some last =>
      rw [hlast, Option.some_or] at h
      rw [h] at hlast
      exact List.mem_cons_of_mem _ (ih (fun e he => hlower e (List.mem_cons_of_mem _ he)) hlast)
    | none =>
      rw [hlast, Option.none_or] at h
      split at h
      · rename_i hname
        have hown : other = name := (hlower _ List.mem_cons_self).symm.trans hname
        cases h
        rw [hown]
        exact List.mem_cons_self
      · cases h

theorem first_isSome_iff (hlower : Lowercase headers) (name : List Char) :
    (headers.first name).isSome = (lastValue name headers).isSome := by
  rw [Bool.eq_iff_iff, Option.isSome_iff_exists, Option.isSome_iff_exists]
  constructor
  · rintro ⟨value, hvalue⟩
    have hmem := mem_of_first hvalue
    have hlast := lastValue_isSome hmem
    rwa [hlower _ hmem] at hlast
  · rintro ⟨value, hvalue⟩
    have hmem := mem_of_lastValue hlower hvalue
    rw [← Option.isSome_iff_exists, HeaderMap.first, Option.isSome_map, List.find?_isSome]
    exact ⟨_, hmem, decide_eq_true rfl⟩

/-! ### The account of a request -/

/-- The credential header that counts. -/
def credentialName (headers : HeaderMap) : Option (List Char) :=
  credentialHeaders.find? fun name => (headers.first name).isSome

/-- The header that counts has the same value in its first and in its last place, and the value does
    not read like the marker of a value that is no text. -/
def Recoverable (headers : HeaderMap) : Prop :=
  ∀ name value, credentialName headers = some name → headers.first name = some value →
    lastValue name headers = some value ∧ latin1 value ≠ nonUtf8

theorem findSome?_eq_find? {α β : Type} (f : α → Option β) : ∀ xs : List α,
    xs.findSome? f = (xs.find? fun x => (f x).isSome).bind f
  | [] => rfl
  | x :: xs => by
      rw [List.findSome?_cons, List.find?_cons]
      cases hx : f x with
      | some y => simp [hx]
      | none => simp [findSome?_eq_find? f xs]

/-- What the proxy hashes. -/
theorem liveScope_eq (urls : UrlLib) (sha256Hex : Bytes → String) (config : RedactionConfig)
    (upstreamHeader : List Char) (headers : HeaderMap) :
    (redactHeaders urls sha256Hex config upstreamHeader headers).credentialScopeHash =
      ((credentialName headers).bind headers.first).map sha256Hex := by
  rw [redactHeaders, findSome?_eq_find?, credentialName]

theorem ofList_eq_iff {text : List Char} {s : String} : String.ofList text = s ↔ text = s.toList := by
  constructor
  · intro h
    rw [← h, String.toList_ofList]
  · intro h
    rw [h, String.ofList_toList]

/-- What is hashed of a record. -/
theorem recoveredScope_eq (lib : HashLib) (hlower : Lowercase headers) :
    credentialScopeFromHeaders lib (headersToJson headers) =
      ((((credentialName headers).bind fun name => lastValue name headers).map valueText).filter
        fun text => text ≠ nonUtf8).map fun text => lib.sha256Hex (utf8 text) := by
  have hread : ∀ name : List Char, ((headersToJson headers).get (String.ofList name)).bind Json.asStr =
      ((lastValue name headers).map valueText).map String.ofList := by
    intro name
    rw [headersToJson, Json.get_obj, fetch_jsonHeaders]
    cases lastValue name headers <;> rfl
  have hfind : (credentialHeaders.find? fun name =>
      (((lastValue name headers).map valueText).map String.ofList).isSome) = credentialName headers := by
    simp only [credentialName, Option.isSome_map, first_isSome_iff hlower]
  simp only [credentialScopeFromHeaders, hread]
  rw [findSome?_eq_find?, hfind]
  cases credentialName headers with
  | none => rfl
  | some name =>
    simp only [Option.bind_some]
    cases lastValue name headers with
    | none => rfl
    | some value =>
      have hmarker : String.ofList (valueText value) = "<non-utf8>" ↔ valueText value = nonUtf8 :=
        ofList_eq_iff
      simp only [ne_eq]
      simp only [Option.map_some, Option.filter_some, hmarker]
      by_cases htext : valueText value = nonUtf8
      · rw [if_neg (by simp [htext]), if_neg (by simp [htext])]
        rfl
      · rw [if_pos (by simp [htext]), if_pos (by simp [htext]), Option.map_some, Option.map_some,
          String.toList_ofList]
        rfl

/-- The text of visible bytes has these bytes in UTF-8. -/
theorem utf8_latin1 : ∀ {value : Bytes}, value.all visible = true → utf8 (latin1 value) = value
  | [], _ => rfl
  | b :: value, h => by
      rw [List.all_cons, Bool.and_eq_true] at h
      have ih := utf8_latin1 h.2
      have hsmall : b.toNat < 128 := by
        have hb := h.1
        rw [visible, Bool.or_eq_true, decide_eq_true_eq, beq_iff_eq] at hb
        rcases hb with hb | rfl
        · omega
        · decide
      have hbyte : String.utf8EncodeChar (Char.ofNat b.toNat) = [b] := by
        have hnat := latin1_toNat b
        rw [String.utf8EncodeChar_eq_singleton]
        · rw [List.cons.injEq, and_iff_left rfl, ← UInt8.toNat_inj]
          change (Char.ofNat b.toNat).toNat % 256 = b.toNat
          omega
        · rw [Char.utf8Size_eq_one_iff, UInt32.le_iff_toNat_le]
          change (Char.ofNat b.toNat).toNat ≤ 127
          omega
      rw [latin1, List.map_cons, utf8, List.flatMap_cons, hbyte, List.singleton_append]
      exact congrArg (b :: ·) ih

/-- The values under the credential names. -/
def credentialValues (headers : HeaderMap) : Set Bytes :=
  {value | ∃ name ∈ credentialHeaders, (name, value) ∈ headers}

theorem valueText_visible {value : Bytes} (h : value.all visible = true) :
    valueText value = latin1 value := by
  rw [valueText, toStr, if_pos h, Option.getD_some]

theorem sha256Hex_inj {lib : HashLib} {s t : Bytes} (h : lib.sha256Hex s = lib.sha256Hex t) :
    lib.sha256 s = lib.sha256 t :=
  Subtype.ext (hexEncode_inj (String.ofList_injective h))

/-- The account read from a record is the account of the request exactly when the header that counts
    does not change between its first and its last value. -/
theorem recoveredScope_iff (lib : HashLib) (urls : UrlLib) (config : RedactionConfig)
    (upstreamHeader : List Char) (hlower : Lowercase headers)
    (hvisible : ∀ value ∈ credentialValues headers, value.all visible = true)
    (hsha : Set.InjOn lib.sha256 (credentialValues headers)) :
    credentialScopeFromHeaders lib (headersToJson headers) =
        (redactHeaders urls lib.sha256Hex config upstreamHeader headers).credentialScopeHash ↔
      Recoverable headers := by
  rw [liveScope_eq, recoveredScope_eq lib hlower, Recoverable]
  cases hname : credentialName headers with
  | none => simp
  | some name =>
    have hcred : name ∈ credentialHeaders := List.mem_of_find?_eq_some hname
    have hsome : (headers.first name).isSome = true := by
      simpa using List.find?_some hname
    have hsome' := (first_isSome_iff hlower name).symm.trans hsome
    obtain ⟨value, hfirst⟩ := Option.isSome_iff_exists.mp hsome
    obtain ⟨last, hlast⟩ := Option.isSome_iff_exists.mp hsome'
    have hvalue : value ∈ credentialValues headers := ⟨name, hcred, mem_of_first hfirst⟩
    have hmem : last ∈ credentialValues headers := ⟨name, hcred, mem_of_lastValue hlower hlast⟩
    have hlive : ((some name).bind headers.first).map lib.sha256Hex = some (lib.sha256Hex value) := by
      rw [Option.bind_some, hfirst, Option.map_some]
    have hrecovered : ((((some name).bind fun name => lastValue name headers).map valueText).filter
        fun text => text ≠ nonUtf8).map (fun text => lib.sha256Hex (utf8 text)) =
        if latin1 last = nonUtf8 then none else some (lib.sha256Hex last) := by
      rw [Option.bind_some, hlast, Option.map_some, valueText_visible (hvisible last hmem),
        Option.filter_some]
      by_cases hmarker : latin1 last = nonUtf8
      · rw [if_neg (by simp [hmarker]), if_pos hmarker]
        rfl
      · rw [if_pos (by simp [hmarker]), if_neg hmarker, Option.map_some,
          utf8_latin1 (hvisible last hmem)]
    rw [hlive, hrecovered]
    constructor
    · rintro heq n v hn hv
      cases hn
      rw [hfirst] at hv
      cases hv
      split at heq
      · cases heq
      · rename_i hmarker
        have hdigest := sha256Hex_inj (Option.some.inj heq)
        have hsame := hsha hmem hvalue hdigest
        rw [hsame] at hlast hmarker
        exact ⟨hlast, hmarker⟩
    · intro hall
      obtain ⟨hsame, hmarker⟩ := hall name value rfl hfirst
      have hlv : last = value := Option.some.inj (hlast.symm.trans hsame)
      rw [hlv, if_neg hmarker]

/-- The account of a trace, with or without the recorded scope. -/
theorem credentialScope_legacy (lib : HashLib) (urls : UrlLib) (config : RedactionConfig)
    (upstreamHeader : List Char) {t : TraceInput}
    (hscope : t.event.credentialScopeHash =
      (redactHeaders urls lib.sha256Hex config upstreamHeader headers).credentialScopeHash)
    (hkey : t.event.apiKeyHash =
      (redactHeaders urls lib.sha256Hex config upstreamHeader headers).firstSecretHash)
    (hrecovered : credentialScopeFromHeaders lib t.event.pluginRequestHeaders =
      (redactHeaders urls lib.sha256Hex config upstreamHeader headers).credentialScopeHash) :
    TraceInput.credentialScope lib { t with event := { t.event with credentialScopeHash := none } } =
      t.credentialScope lib := by
  have hfirst : (redactHeaders urls lib.sha256Hex config upstreamHeader headers).firstSecretHash =
      if config.storeHeaderHash then
        (redactHeaders urls lib.sha256Hex config upstreamHeader headers).credentialScopeHash
      else none := rfl
  simp only [TraceInput.credentialScope, hscope, hkey, hrecovered, hfirst]
  cases (redactHeaders urls lib.sha256Hex config upstreamHeader headers).credentialScopeHash with
  | none => cases config.storeHeaderHash <;> rfl
  | some hash => cases config.storeHeaderHash <;> rfl

/-- A record without the scope leads to the account of the request exactly when the credential header
    that counts does not change from its first to its last value; and then to the session of the
    request. -/
theorem recovered_scope_agrees_iff (lib : HashLib) (urls : UrlLib) (config : RedactionConfig)
    (upstreamHeader : List Char) (hlower : Lowercase headers)
    (hvisible : ∀ value ∈ credentialValues headers, value.all visible = true)
    (hsha : Set.InjOn lib.sha256 (credentialValues headers)) :
    (credentialScopeFromHeaders lib (headersToJson headers) =
        (redactHeaders urls lib.sha256Hex config upstreamHeader headers).credentialScopeHash ↔
      Recoverable headers) ∧
    (Recoverable headers → ∀ t : TraceInput,
      t.event.credentialScopeHash =
        (redactHeaders urls lib.sha256Hex config upstreamHeader headers).credentialScopeHash →
      t.event.apiKeyHash =
        (redactHeaders urls lib.sha256Hex config upstreamHeader headers).firstSecretHash →
      t.event.pluginRequestHeaders = headersToJson headers →
      (buildTrace lib { t with event := { t.event with credentialScopeHash := none } }).sessionKey =
        (buildTrace lib t).sessionKey) := by
  have hiff := recoveredScope_iff lib urls config upstreamHeader hlower hvisible hsha
  refine ⟨hiff, ?_⟩
  rintro hrec t hscope hkey hplugin
  have hkeyOf : ∀ u : TraceInput, (buildTrace lib u).sessionKey = (boundOptionalText (some
      (scopedSessionKey lib u.event.upstreamUrl (u.credentialScope lib) u.explicitSessionKey u.event.id))
      maxTraceSessionKeyBytes).1 := fun _ => rfl
  have hsame := credentialScope_legacy lib urls config upstreamHeader hscope hkey
    (by rw [hplugin]; exact hiff.mpr hrec)
  rw [hkeyOf, hkeyOf, hsame]
  rfl

end

/-! ### One key, and two -/

/-- SHA-256 on two keys. -/
def keyHashes : HashLib where
  sha256 := fun bytes =>
    if bytes = utf8 "Bearer a".toList then
      ⟨[0x12, 0x2c, 0x4e, 0x37, 0x1d, 0x39, 0x34, 0x90, 0xe5, 0x78, 0x9c, 0x41, 0x8a, 0xf3, 0xd3, 0x85,
        0x4e, 0xd0, 0x7f, 0x2b, 0x8b, 0x08, 0x7f, 0x8a, 0xc4, 0xb4, 0x18, 0xdb, 0xa0, 0x1c, 0xf1, 0x97], rfl⟩
    else
      ⟨[0x92, 0x9c, 0xe5, 0xee, 0xb2, 0x71, 0x32, 0xf6, 0x7e, 0xd7, 0x16, 0x39, 0x93, 0xea, 0xa8, 0xe4,
        0xd5, 0xe7, 0xdb, 0xd2, 0x6d, 0x2a, 0x10, 0x05, 0xa9, 0x4d, 0x43, 0x14, 0xb3, 0x85, 0x68, 0x8d], rfl⟩
  urlOrigin := fun _ => some "https://h"

/-- One `Authorization` header for each key. -/
def authorized (keys : List Char) : HeaderMap :=
  keys.map fun key => ("authorization".toList, utf8 ("Bearer ".toList ++ [key]))

/-- A request with one key is recovered. -/
theorem recovered_scope_agrees_bearer :
    credentialScopeFromHeaders keyHashes (headersToJson (authorized ['a'])) =
      (redactHeaders sampleUrls keyHashes.sha256Hex noHashes "x-up".toList
        (authorized ['a'])).credentialScopeHash := by
  have hvalues : ∀ value ∈ credentialValues (authorized ['a']), value = utf8 "Bearer a".toList := by
    rintro value ⟨name, -, hmem⟩
    exact (Prod.mk.inj (List.mem_singleton.mp hmem)).2
  refine (recovered_scope_agrees_iff keyHashes sampleUrls noHashes "x-up".toList ?_ ?_ ?_).1.mpr ?_
  · intro h hh
    rw [List.mem_singleton.mp hh]
    decide
  · intro value hvalue
    rw [hvalues value hvalue]
    decide
  · rintro x hx y hy -
    rw [hvalues x hx, hvalues y hy]
  · rintro name value hname hvalue
    have hn : name = "authorization".toList := (Option.some.inj hname).symm
    rw [hn] at hvalue ⊢
    cases hvalue
    exact ⟨by decide, by decide⟩

/-- The proxy hashes the first of two keys, and the record holds the second. -/
theorem two_keys_not_recovered :
    Lowercase (authorized ['a', 'b']) ∧
      (∀ value ∈ credentialValues (authorized ['a', 'b']), value.all visible = true) ∧
      Set.InjOn keyHashes.sha256 (credentialValues (authorized ['a', 'b'])) ∧
      credentialScopeFromHeaders keyHashes (headersToJson (authorized ['a', 'b'])) ≠
        (redactHeaders sampleUrls keyHashes.sha256Hex noHashes "x-up".toList
          (authorized ['a', 'b'])).credentialScopeHash := by
  have hvalues : ∀ value ∈ credentialValues (authorized ['a', 'b']),
      value = utf8 "Bearer a".toList ∨ value = utf8 "Bearer b".toList := by
    rintro value ⟨name, -, hmem⟩
    rcases List.mem_cons.mp hmem with h | h
    · exact .inl (Prod.mk.inj h).2
    · exact .inr (Prod.mk.inj (List.mem_singleton.mp h)).2
  refine ⟨by unfold Lowercase; decide, ?_, ?_, by decide +kernel⟩
  · intro value hvalue
    rcases hvalues value hvalue with rfl | rfl <;> decide
  · rintro x hx y hy
    rcases hvalues x hx with rfl | rfl <;> rcases hvalues y hy with rfl | rfl <;> decide +kernel

end Llmtrace.Trace
