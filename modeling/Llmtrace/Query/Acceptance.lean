import Llmtrace.Query.RoundTrip
import Llmtrace.Query.Sql

/-! What the editor accepts the server accepts. A request of the editor reaches the server as JSON;
    `SameRequest` says that the server's request has the same values. The names, the number of filters
    and sort keys and every filter then pass the checks of `storage/query.rs`. -/

namespace Llmtrace.QueryText
open Schemes Query

/-! ### Names -/

theorem utf16_ne_dot {c : Char} (h : c ≠ '.') : 46 ∉ utf16 c := by
  have hne : c.toNat ≠ 46 := fun hc => h (charToNat_injective hc)
  unfold utf16
  split_ifs
  · simpa using hne.symm
  · simp only [List.mem_cons, List.not_mem_nil, or_false]
    omega

theorem splitOn_append {units rest : JsText} (h : 46 ∉ units) :
    (units ++ rest).splitOn 46 = (rest.splitOn 46).modifyHead (units ++ ·) := by
  induction units with
  | nil =>
    rw [List.nil_append]
    cases rest.splitOn 46 <;> rfl
  | cons c units ih =>
    rw [List.mem_cons, not_or] at h
    rw [List.cons_append, List.splitOn_cons_eq_if_modifyHead, if_neg (by simpa using Ne.symm h.1), ih h.2]
    cases rest.splitOn 46 <;> rfl

/-- Splitting at dots does not depend on the encoding. -/
theorem splitOn_jsChars (s : List Char) : (jsChars s).splitOn 46 = (s.splitOn '.').map jsChars := by
  induction s with
  | nil => rfl
  | cons c s ih =>
    rw [List.splitOn_cons_eq_if_modifyHead]
    by_cases hc : c = '.'
    · subst hc
      have hunits : jsChars ('.' :: s) = 46 :: jsChars s := rfl
      rw [hunits, List.splitOn_cons_eq_if_modifyHead, if_pos (by rfl), if_pos (by rfl), ih]
      rfl
    · have hunits : jsChars (c :: s) = utf16 c ++ jsChars s := rfl
      rw [hunits, splitOn_append (utf16_ne_dot hc), if_neg (by simpa using hc), ih]
      cases s.splitOn '.' <;> rfl

theorem segmentChar_of_unit {c : Char} (h : ∀ u ∈ utf16 c, isSegmentPart u) :
    segmentChar c ∧ c.toNat < 128 := by
  have hbmp : utf16 c = [c.toNat] := by
    unfold utf16
    split_ifs with hsmall
    · rfl
    · have := h (0xD800 + (c.toNat - 0x10000) / 0x400) (by simp [utf16, hsmall])
      simp only [isSegmentPart, isWordStart, isUpper, isLower, isDigit, Bool.or_eq_true,
        Bool.and_eq_true, decide_eq_true_eq] at this
      omega
  have hc := h c.toNat (by simp [hbmp])
  simp only [isSegmentPart, isWordStart, isUpper, isLower, isDigit, Bool.or_eq_true, Bool.and_eq_true,
    decide_eq_true_eq] at hc
  refine ⟨?_, by omega⟩
  have h95 : c.toNat = 95 → c = '_' := fun h => charToNat_injective h
  have h45 : c.toNat = 45 → c = '-' := fun h => charToNat_injective h
  simp only [segmentChar, Char.isAlphanum, Char.isAlpha, Char.isUpper, Char.isLower, Char.isDigit,
    Bool.or_eq_true, Bool.and_eq_true, decide_eq_true_eq, ge_iff_le, UInt32.le_iff_toNat_le]
  have hval : c.val.toNat = c.toNat := rfl
  rw [hval]
  rcases hc with ((((hc | hc) | hc) | hc) | hc)
  · exact .inl (.inl (.inl (.inl ⟨hc.1, hc.2⟩)))
  · exact .inl (.inl (.inl (.inr ⟨hc.1, hc.2⟩)))
  · exact .inl (.inr (h95 hc))
  · exact .inl (.inl (.inr ⟨hc.1, hc.2⟩))
  · exact .inr (h45 hc)

/-- A segment that the editor takes is one for the server. -/
theorem validSegment_of_part {segment : List Char} (hne : jsChars segment ≠ [])
    (hlen : (jsChars segment).length ≤ maxPluginMetadataPathSegmentLen)
    (hall : ∀ u ∈ jsChars segment, isSegmentPart u) : validPluginMetadataPathSegment segment := by
  have hchar : ∀ c ∈ segment, segmentChar c ∧ c.toNat < 128 := fun c hc =>
    segmentChar_of_unit fun u hu => hall u (List.mem_flatMap.mpr ⟨c, hc, hu⟩)
  have hlength : (jsChars segment).length = segment.length := by
    rw [jsChars, flatMap_utf16 fun c hc => (hchar c hc).2.trans (by decide), List.length_map]
  have hempty : segment.isEmpty = false := by
    cases segment with
    | nil => exact absurd rfl hne
    | cons c s => rfl
  simp only [validPluginMetadataPathSegment, hempty, Bool.not_false, Bool.true_and, Bool.and_eq_true,
    decide_eq_true_eq, List.all_eq_true]
  refine ⟨?_, fun c hc => (hchar c hc).1⟩
  rw [utf8Len_ascii fun c hc => (hchar c hc).2, ← hlength]
  exact hlen

/-- The same field for both. -/
def SameField (field : FieldSpec) (f : QueryField) : Prop :=
  field.filterKind = f.filter ∧ field.operators = (f.filter.map FilterKind.operators).getD []

theorem find_column {d : Query.DatasetSpec} {name : String} :
    (datasetSchema d).fields.find? (fun f => f.name = js name) =
      (d.fields.find? fun f => f.name = name).map fieldSchema := by
  rw [datasetSchema, List.find?_map]
  refine congrArg (fun p => Option.map fieldSchema (d.fields.find? p)) (funext fun f => ?_)
  simp only [Function.comp, fieldSchema, js_injective.eq_iff]

theorem pluginMetadataPath_of_parts {name : String}
    (hstart : (js pluginMetadataFieldPrefix).isPrefixOf (js name))
    (hcount : (((js name).drop (js pluginMetadataFieldPrefix).length).splitOn 46).length ≤
      maxPluginMetadataPathSegments)
    (hparts : ∀ p ∈ ((js name).drop (js pluginMetadataFieldPrefix).length).splitOn 46,
      p ≠ [] ∧ p.length ≤ maxPluginMetadataPathSegmentLen ∧ ∀ u ∈ p, isSegmentPart u) :
    ∃ path, pluginMetadataPath name = .ok (some path) := by
  obtain ⟨units, hunits⟩ := List.isPrefixOf_iff_prefix.mp hstart
  obtain ⟨rest, hname, hrest⟩ := jsChars_prefix hunits
  have hdrop : (js name).drop (js pluginMetadataFieldPrefix).length = jsChars rest := by
    rw [← hunits, List.drop_left, hrest]
  rw [hdrop, splitOn_jsChars] at hcount hparts
  have hvalid : ∀ segment ∈ rest.splitOn '.', validPluginMetadataPathSegment segment := by
    intro segment hsegment
    obtain ⟨hne, hlen, hall⟩ := hparts _ (List.mem_map_of_mem hsegment)
    exact validSegment_of_part hne hlen hall
  have hne : rest ≠ [] := by
    rintro rfl
    cases hvalid [] (by decide)
  have hfind : (rest.splitOn '.').find? (fun segment => !validPluginMetadataPathSegment segment) = none := by
    refine List.find?_eq_none.mpr fun segment hsegment => ?_
    simpa using hvalid segment hsegment
  rw [List.length_map] at hcount
  refine ⟨(rest.splitOn '.').map String.ofList, ?_⟩
  unfold pluginMetadataPath
  rw [hname, if_pos (List.isPrefixOf_iff_prefix.mpr (List.prefix_append _ _))]
  simp only [List.drop_left, if_neg hne, if_neg (Nat.not_lt.mpr hcount), hfind]

/-- Every name that the editor knows the server knows, with the same kind. -/
theorem queryField_server {d : Query.DatasetSpec} {name : String} {field : FieldSpec}
    (h : queryField structuredQuerySchema (datasetSchema d) (js name) = some field) :
    ∃ f, Query.queryField d name = .ok f ∧ f.name = name ∧ SameField field f := by
  unfold queryField at h
  rw [find_column] at h
  cases hcolumn : d.fields.find? (fun f => f.name = name) with
  | some spec =>
    rw [hcolumn] at h
    cases h
    have hname : spec.name = name := by simpa using List.find?_some hcolumn
    refine ⟨.column spec, ?_, hname, rfl, rfl⟩
    unfold Query.queryField fieldSpec
    rw [hcolumn]
  | none =>
    rw [hcolumn] at h
    simp only [Option.map_none] at h
    split_ifs at h with hdataset hparts
    cases h
    rw [not_or, not_not, not_not] at hdataset
    rw [not_or, Nat.not_lt] at hparts
    have hrequests : d.name = "requests" := js_injective hdataset.1
    have hpart : ∀ p ∈ ((js name).drop (js pluginMetadataFieldPrefix).length).splitOn 46,
        p ≠ [] ∧ p.length ≤ maxPluginMetadataPathSegmentLen ∧ ∀ u ∈ p, isSegmentPart u := by
      intro p hp
      have hno : ¬(p = [] || decide (maxPluginMetadataPathSegmentLen < p.length) ||
          !p.all isSegmentPart) = true := fun hbad => hparts.2 (List.any_eq_true.mpr ⟨p, hp, hbad⟩)
      simp only [Bool.or_eq_true, decide_eq_true_eq, Bool.not_eq_true', not_or, Nat.not_lt,
        Bool.not_eq_false, List.all_eq_true] at hno
      exact ⟨hno.1.1, hno.1.2, hno.2⟩
    obtain ⟨path, hpath⟩ := pluginMetadataPath_of_parts hdataset.2 hparts.1 hpart
    refine ⟨.pluginMetadataPath name path, ?_, rfl, rfl, rfl⟩
    unfold Query.queryField fieldSpec
    rw [hcolumn]
    simp only [hrequests, if_true, hpath]
    rfl

/-! ### Values -/

/-- The server's side of the transport: the readers of timestamps and UUIDs, and the text that
    `serde_json` writes of a number that is not whole. -/
structure Server (lib : JsLib) where
  values : ValueLib
  numberText : lib.Num → String

/-- `chrono` and `uuid` accept what the editor's checks accept, and the text of a fraction is no longer
    than JavaScript's. -/
structure Server.Lawful {lib : JsLib} (server : Server lib) : Prop where
  timestamp {s : String} : isRfc3339Timestamp lib (js s) → (server.values.parseRfc3339 s).isSome
  uuid {s : String} : isUuid (js s) → (server.values.parseUuid s).isSome
  number {x : lib.Num} : lib.isFinite x → lib.whole x = none →
    utf8Len (server.numberText x).toList ≤ byteLength (lib.text x)

section
variable {lib : JsLib} (server : Server lib)

mutual

/-- The JSON value that the server reads is the editor's. The server keeps the fields of an object in
    an order of its own. -/
def SameValue : JsValue lib.Num → Json → Prop
  | .null, .null => True
  | .bool b, .bool c => b = c
  | .num x, .int n => lib.whole x = some n
  | .num x, .float text => lib.whole x = none ∧ text = server.numberText x
  | .str s, .str t => s = js t
  | .arr vs, .arr ws => SameItems vs ws
  | .obj es, .obj fs => ∃ fs', fs'.Perm fs ∧ SameFields es fs'
  | _, _ => False

/-- The items are the same, one by one. -/
def SameItems : List (JsValue lib.Num) → List Json → Prop
  | [], [] => True
  | v :: vs, w :: ws => SameValue v w ∧ SameItems vs ws
  | _, _ => False

/-- The members are the same, one by one, under the same names. -/
def SameFields : List (JsText × JsValue lib.Num) → List (String × Json) → Prop
  | [], [] => True
  | (k, v) :: es, (l, w) :: fs => k = js l ∧ SameValue v w ∧ SameFields es fs
  | _, _ => False

end

end

/-- A text that takes at least `n` bytes wherever it stands. -/
def Takes (text : JsText) (n : ℕ) : Prop := ∀ rest, n + byteLength rest ≤ byteLength (text ++ rest)

theorem Takes.append {s t : JsText} {n m : ℕ} (hs : Takes s n) (ht : Takes t m) : Takes (s ++ t) (n + m) := by
  intro rest
  have h₁ := hs (t ++ rest)
  have h₂ := ht rest
  rw [List.append_assoc]
  omega

theorem takes_jsChars (s : List Char) : Takes (jsChars s) (utf8Len s) := fun rest =>
  (byteLength_append s rest).ge

theorem Takes.le {text : JsText} {n : ℕ} (h : Takes text n) : n ≤ byteLength text := by
  simpa [byteLength] using h []

theorem utf8Len_cons_ascii {c : Char} (h : c.utf8Size = 1) (s : List Char) :
    utf8Len (c :: s) = 1 + utf8Len s := by
  rw [utf8Len, List.map_cons, List.sum_cons, h, utf8Len]

theorem takes_unit {c : Char} (hc : c.toNat < 128) : Takes [c.toNat] 1 := by
  have h := takes_jsChars [c]
  have hunits : jsChars [c] = [c.toNat] := by
    rw [jsChars, flatMap_utf16 (by simpa using hc.trans (by decide))]
    rfl
  have hsize : utf8Len [c] = 1 := utf8Len_ascii (by simpa using hc)
  rwa [hunits, hsize] at h

theorem takes_ascii {t : JsText} (h : ∀ u ∈ t, u < 128) : Takes t (byteLength t) := by
  have hchars : ∀ u < 128, utf16 (Char.ofNat u) = [u] := by decide
  have hunits : jsChars (t.map Char.ofNat) = t := by
    rw [jsChars, List.flatMap_map]
    induction t with
    | nil => rfl
    | cons u t ih =>
      rw [List.flatMap_cons, ih fun v hv => h v (List.mem_cons_of_mem _ hv), hchars u (h u List.mem_cons_self)]
      rfl
  rw [← hunits, byteLength_jsChars]
  exact takes_jsChars _

theorem utf8Len_writeFields : ∀ fs : List (String × Json), utf8Len (Json.writeFields fs) =
    (fs.map fun e => utf8Len (Json.writeField e) + 1).sum - 1
  | [] => rfl
  | [e] => by simp [Json.writeFields]
  | e :: e' :: es => by
    have ih := utf8Len_writeFields (e' :: es)
    have hpos : 1 ≤ ((e' :: es).map fun e => utf8Len (Json.writeField e) + 1).sum := by
      rw [List.map_cons, List.sum_cons]
      omega
    rw [Json.writeFields, utf8Len_append, utf8Len_cons_ascii (by decide), ih]
    · simp only [List.map_cons, List.sum_cons] at hpos ⊢
      omega
    · exact List.cons_ne_nil _ _

theorem utf8Len_writeFields_perm {fs gs : List (String × Json)} (h : fs.Perm gs) :
    utf8Len (Json.writeFields fs) = utf8Len (Json.writeFields gs) := by
  rw [utf8Len_writeFields, utf8Len_writeFields, (h.map _).sum_eq]

section
variable {lib : JsLib} {server : Server lib}

theorem takes_number (hlib : lib.Lawful) (hserver : server.Lawful) {x : lib.Num} {w : Json} (h : SameValue server (.num x) w)
    (hsafe : safeJsonNumbers lib (.num x) = true) :
    Takes (stringify lib.toJsNumbers (.num x)) (utf8Len w.write) := by
  simp only [safeJsonNumbers, Bool.and_eq_true, Bool.or_eq_true, Bool.not_eq_true'] at hsafe
  rw [stringify, if_pos hsafe.1]
  cases w with
  | int n =>
    have hwhole : lib.whole x = some n := by simpa [SameValue] using h
    have hsmall : |n| < 2 ^ 53 := by
      have hint : lib.isInteger x = true := by rw [JsNumbers.isInteger, hwhole]; rfl
      rcases hsafe.2 with hno | hyes
      · rw [hint] at hno
        cases hno
      · rw [JsNumbers.isSafeInteger, hwhole] at hyes
        exact of_decide_eq_true hyes
    rw [hlib.text_whole hwhole hsmall]
    exact takes_jsChars _
  | float text =>
    obtain ⟨hwhole, rfl⟩ : lib.whole x = none ∧ text = server.numberText x := by
      simpa [SameValue] using h
    have hle := hserver.number hsafe.1 hwhole
    have htakes := takes_ascii fun u hu => (numeral_units (hlib.numeral hsafe.1) u hu).2
    intro rest
    have := htakes rest
    have hwrite : (Json.float (server.numberText x)).write = (server.numberText x).toList := by
      rw [Json.write]
    rw [hwrite]
    omega
  | _ => simp [SameValue] at h

mutual

/-- The server's text of a value takes no more bytes than the editor's. -/
theorem takes_stringify (hlib : lib.Lawful) (hserver : server.Lawful) :
    ∀ (v : JsValue lib.Num) (w : Json), SameValue server v w →
    safeJsonNumbers lib v = true → Takes (stringify lib.toJsNumbers v) (utf8Len w.write)
  | .null, w, h, _ => by
    cases w <;> simp only [SameValue] at h
    rw [stringify, Json.write]
    exact takes_jsChars _
  | .bool b, w, h, _ => by
    cases w <;> simp only [SameValue] at h
    subst h
    rw [stringify, Json.write]
    exact takes_jsChars _
  | .num x, w, h, hsafe => takes_number hlib hserver h hsafe
  | .str s, w, h, _ => by
    cases w <;> simp only [SameValue] at h
    subst h
    rw [stringify, quoteJson_js, Json.write]
    exact takes_jsChars _
  | .arr vs, w, h, hsafe => by
    cases w <;> simp only [SameValue] at h
    rename_i ws
    rw [safeJsonNumbers] at hsafe
    have hitems := takes_items hlib hserver vs ws h hsafe
    rw [stringify, Json.write, utf8Len_cons_ascii (by decide), utf8Len_append]
    exact (takes_unit (show '['.toNat < 128 by decide)).append
      (hitems.append (takes_unit (show ']'.toNat < 128 by decide)))
  | .obj es, w, h, hsafe => by
    cases w <;> simp only [SameValue] at h
    rename_i fs
    obtain ⟨fs', hperm, hfields⟩ := h
    rw [safeJsonNumbers] at hsafe
    have htakes := takes_fields hlib hserver es fs' hfields hsafe
    rw [stringify, Json.write, utf8Len_cons_ascii (by decide), utf8Len_append,
      ← utf8Len_writeFields_perm hperm]
    exact (takes_unit (show '\x7b'.toNat < 128 by decide)).append
      (htakes.append (takes_unit (show '\x7d'.toNat < 128 by decide)))

theorem takes_items (hlib : lib.Lawful) (hserver : server.Lawful) :
    ∀ (vs : List (JsValue lib.Num)) (ws : List Json), SameItems server vs ws →
    safeItems lib vs = true → Takes (stringifyItems lib.toJsNumbers vs) (utf8Len (Json.writeItems ws))
  | [], ws, h, _ => by
    cases ws with
    | nil => exact takes_jsChars []
    | cons w ws => simp [SameItems] at h
  | v :: vs, ws, h, hsafe => by
    cases ws with
    | nil => simp [SameItems] at h
    | cons w ws =>
      rw [SameItems] at h
      rw [safeItems, Bool.and_eq_true] at hsafe
      have hv := takes_stringify hlib hserver v w h.1 hsafe.1
      have hvs := takes_items hlib hserver vs ws h.2 hsafe.2
      rcases vs with _ | ⟨v', vs⟩ <;> rcases ws with _ | ⟨w', ws⟩
      · exact hv
      · simp [SameItems] at h
      · simp [SameItems] at h
      · rw [stringifyItems, Json.writeItems, utf8Len_append, utf8Len_cons_ascii (by decide)]
        · exact hv.append ((takes_unit (show ','.toNat < 128 by decide)).append hvs)
        · exact List.cons_ne_nil _ _
        · exact List.cons_ne_nil _ _

theorem takes_fields (hlib : lib.Lawful) (hserver : server.Lawful) :
    ∀ (es : List (JsText × JsValue lib.Num)) (fs : List (String × Json)),
    SameFields server es fs → safeFields lib es = true →
    Takes (stringifyFields lib.toJsNumbers es) (utf8Len (Json.writeFields fs))
  | [], fs, h, _ => by
    cases fs with
    | nil => exact takes_jsChars []
    | cons f fs => simp [SameFields] at h
  | (k, v) :: es, fs, h, hsafe => by
    cases fs with
    | nil => simp [SameFields] at h
    | cons f fs =>
      obtain ⟨l, w⟩ := f
      rw [SameFields] at h
      obtain ⟨rfl, hvw, hrest⟩ := h
      rw [safeFields, Bool.and_eq_true] at hsafe
      have hv := takes_stringify hlib hserver v w hvw hsafe.1
      have hfield : Takes (stringifyField lib.toJsNumbers (js l, v)) (utf8Len (Json.writeField (l, w))) := by
        rw [stringifyField, Json.writeField, quoteJson_js, utf8Len_append, utf8Len_cons_ascii (by decide)]
        exact (takes_jsChars _).append ((takes_unit (show ':'.toNat < 128 by decide)).append hv)
      have hes := takes_fields hlib hserver es fs hrest hsafe.2
      rcases es with _ | ⟨e', es⟩ <;> rcases fs with _ | ⟨f', fs⟩
      · exact hfield
      · simp [SameFields] at hrest
      · obtain ⟨k', v'⟩ := e'
        simp [SameFields] at hrest
      · rw [stringifyFields, Json.writeFields, utf8Len_append, utf8Len_cons_ascii (by decide)]
        · exact hfield.append ((takes_unit (show ','.toNat < 128 by decide)).append hes)
        · exact List.cons_ne_nil _ _
        · exact List.cons_ne_nil _ _

end

end

/-! ### Filters -/

section
variable {lib : JsLib} {server : Server lib}

/-- What it means that no check of a value fails. -/
theorem valueError_none {limits : Limits} {name : JsText} {kind : Option FilterKind}
    {v : JsValue lib.Num} (h : valueError lib limits name kind v = none) :
    (kind = some .int → isSafeNumber lib v = true) ∧ (kind = some .bool → isBoolean lib v = true) ∧
    (kind ∈ [some .text, some .textArray, some .uuid, some .timestamp] → isString lib v = true) ∧
    (kind = some .uuid → isUuid (stringOf lib v) = true) ∧
    (kind = some .timestamp → isRfc3339Timestamp lib (stringOf lib v) = true) ∧
    valueSize lib kind v ≤
      if FilterKind.isJson kind then limits.maxJsonValueBytes else limits.maxStringValueBytes := by
  unfold valueError at h
  split at h
  · cases h
  rename_i hint
  split at h
  · cases h
  rename_i hbool
  split at h
  · cases h
  rename_i hstring
  split at h
  · cases h
  rename_i huuid
  split at h
  · cases h
  rename_i htimestamp
  generalize (if FilterKind.isJson kind then limits.maxJsonValueBytes else limits.maxStringValueBytes) =
    bound at h ⊢
  split at h
  · cases h
  rename_i hsize
  simp only [not_and, Bool.not_eq_true', Bool.not_eq_false] at hint hbool hstring huuid htimestamp
  exact ⟨hint, hbool, hstring, huuid, htimestamp, Nat.not_lt.mp hsize⟩

theorem safe_of_literal {v : JsValue lib.Num} (h : Literal lib v) : safeJsonNumbers lib v = true := by
  cases v with
  | null => exact h.elim
  | bool b => simp only [safeJsonNumbers]
  | str s => simp only [safeJsonNumbers]
  | num x =>
    rw [safeJsonNumbers, h.1, Bool.true_and, Bool.or_eq_true, Bool.not_eq_true']
    cases hint : lib.isInteger x with
    | false => exact .inl rfl
    | true => exact .inr (h.2 hint)
  | arr items => exact h.1
  | obj fields => exact h.1

/-- A string of the editor, read by the server. -/
theorem valueAsString_ok (field : String) {kind : Option FilterKind} {v : JsValue lib.Num} {w : Json}
    (hsame : SameValue server v w) (hstring : isString lib v = true)
    (hsize : valueSize lib kind v ≤ maxStructuredQueryStringValueBytes)
    (hkind : FilterKind.isJson kind = false) :
    ∃ t, v = .str (js t) ∧ w = .str t ∧ valueAsString field w = .ok t := by
  cases v <;> simp only [isString, Bool.false_eq_true] at hstring
  cases w <;> simp only [SameValue] at hsame
  subst hsame
  rename_i t
  refine ⟨t, rfl, rfl, ?_⟩
  have hlen : utf8Len t.toList ≤ maxStructuredQueryStringValueBytes := by
    simp only [valueSize, hkind, Bool.false_eq_true, if_false, stringOf] at hsize
    rwa [← byteLength_jsChars]
  rw [valueAsString, Json.asStr_str]
  simp only [if_neg (Nat.not_lt.mpr hlen)]

theorem valueAsI64_ok (field : String) {v : JsValue lib.Num} {w : Json} (hsame : SameValue server v w)
    (hsafe : isSafeNumber lib v = true) : ∃ n, valueAsI64 field w = .ok n := by
  cases v <;> simp only [isSafeNumber, Bool.false_eq_true] at hsafe
  rename_i x
  rw [JsNumbers.isSafeInteger] at hsafe
  cases w with
  | int n =>
    rw [SameValue] at hsame
    rw [hsame, Option.any_some, decide_eq_true_eq, abs_lt] at hsafe
    refine ⟨n, ?_⟩
    rw [valueAsI64, Json.asI64, if_pos ⟨by linarith [hsafe.1], by linarith [hsafe.2]⟩]
  | float text =>
    rw [SameValue] at hsame
    rw [hsame.1] at hsafe
    cases hsafe
  | _ => simp [SameValue] at hsame

theorem valueAsBool_ok (field : String) {v : JsValue lib.Num} {w : Json} (hsame : SameValue server v w)
    (hbool : isBoolean lib v = true) : ∃ b, valueAsBool field w = .ok b := by
  cases v <;> simp only [isBoolean, Bool.false_eq_true] at hbool
  cases w <;> simp only [SameValue] at hsame
  exact ⟨_, rfl⟩

/-- What is left of the operators of a compared kind when they need a value. -/
theorem comparison_of_needed {op : QueryOp} (hop : op ∈ FilterKind.int.operators)
    (hneeded : op ≠ .isNull ∧ op ≠ .isNotNull) :
    op = .eq ∨ op = .ne ∨ op = .gt ∨ op = .gte ∨ op = .lt ∨ op = .lte := by
  cases op with
  | contains => exact absurd hop (by decide)
  | isNull => exact absurd rfl hneeded.1
  | isNotNull => exact absurd rfl hneeded.2
  | _ => decide

theorem appendJsonFilter_ok {b : QueryBuilder} {field : QueryField} {op : QueryOp} {w : Json}
    (hop : op ∈ FilterKind.json.operators) (hneeded : op ≠ .isNull ∧ op ≠ .isNotNull)
    (hsize : validateJsonFilterValueSize field.name w = .ok ()) :
    ∃ b', appendJsonFilter b field op w = .ok b' := by
  simp only [appendJsonFilter, hsize]
  cases op with
  | eq => exact ⟨_, rfl⟩
  | ne => exact ⟨_, rfl⟩
  | contains => exact ⟨_, rfl⟩
  | isNull => exact absurd rfl hneeded.1
  | isNotNull => exact absurd rfl hneeded.2
  | _ => exact absurd hop (by decide)

/-- A value that passed the editor's checks passes the server's, for each kind and each of its
    operators that takes a value. -/
theorem appendKindFilter_ok (hlib : lib.Lawful) (hserver : server.Lawful) {name : JsText}
    {kind : FilterKind} {v : JsValue lib.Num} {w : Json} {op : QueryOp} (hop : op ∈ kind.operators)
    (hneeded : ¬(op = .isNull ∨ op = .isNotNull)) (hliteral : Literal lib v)
    (hvalid : valueError lib structuredQuerySchema.limits name (some kind) v = none)
    (hsame : SameValue server v w) (b : QueryBuilder) (field : QueryField) :
    ∃ b', appendKindFilter server.values b field op w kind = .ok b' := by
  rw [not_or] at hneeded
  obtain ⟨hint, hbool, hstring, huuid, htimestamp, hsize⟩ := valueError_none hvalid
  have hbytes := (takes_stringify hlib hserver v w hsame (safe_of_literal hliteral)).le
  have hjson : ∀ {kind}, FilterKind.isJson (some kind) = true →
      valueSize lib (some kind) v ≤ maxStructuredQueryJsonValueBytes →
      validateJsonFilterValueSize field.name w = .ok () := by
    intro kind hkind hsize
    rw [valueSize, hkind, if_pos rfl] at hsize
    rw [validateJsonFilterValueSize, if_neg (by omega)]
  cases kind with
  | text =>
    obtain ⟨t, -, -, ht⟩ := valueAsString_ok field.name hsame (hstring (by simp)) hsize rfl
    simp only [appendKindFilter, appendTextFilter, ht]
    cases op with
    | isNull => exact absurd rfl hneeded.1
    | isNotNull => exact absurd rfl hneeded.2
    | _ => exact ⟨_, rfl⟩
  | int =>
    obtain ⟨n, hn⟩ := valueAsI64_ok field.name hsame (hint rfl)
    simp only [appendKindFilter, appendIntFilter, hn]
    rcases comparison_of_needed hop hneeded with rfl | rfl | rfl | rfl | rfl | rfl <;> exact ⟨_, rfl⟩
  | bool =>
    obtain ⟨c, hc⟩ := valueAsBool_ok field.name hsame (hbool rfl)
    simp only [appendKindFilter, appendBoolFilter, hc]
    cases op with
    | eq => exact ⟨_, rfl⟩
    | ne => exact ⟨_, rfl⟩
    | isNull => exact absurd rfl hneeded.1
    | isNotNull => exact absurd rfl hneeded.2
    | _ => exact absurd hop (by decide)
  | timestamp =>
    obtain ⟨t, rfl, -, ht⟩ := valueAsString_ok field.name hsame (hstring (by simp)) hsize rfl
    obtain ⟨at_, hat⟩ := Option.isSome_iff_exists.mp (hserver.timestamp (htimestamp rfl))
    have hvalue : valueAsTimestamp server.values field.name w = .ok at_ := by
      simp only [valueAsTimestamp, ht, bind, Except.bind, hat]
    simp only [appendKindFilter, appendTimestampFilter, hvalue]
    rcases comparison_of_needed hop hneeded with rfl | rfl | rfl | rfl | rfl | rfl <;> exact ⟨_, rfl⟩
  | uuid =>
    obtain ⟨t, rfl, -, ht⟩ := valueAsString_ok field.name hsame (hstring (by simp)) hsize rfl
    obtain ⟨id, hid⟩ := Option.isSome_iff_exists.mp (hserver.uuid (huuid rfl))
    have hvalue : valueAsUuid server.values field.name w = .ok id := by
      simp only [valueAsUuid, ht, bind, Except.bind, hid]
    simp only [appendKindFilter, appendUuidFilter, hvalue]
    rcases comparison_of_needed hop hneeded with rfl | rfl | rfl | rfl | rfl | rfl <;> exact ⟨_, rfl⟩
  | json => exact appendJsonFilter_ok hop hneeded (hjson rfl hsize)
  | jsonPath => exact appendJsonFilter_ok hop hneeded (hjson rfl hsize)
  | textArray =>
    obtain ⟨t, -, -, ht⟩ := valueAsString_ok field.name hsame (hstring (by simp)) hsize rfl
    simp only [appendKindFilter, appendTextArrayFilter, ht]
    cases op with
    | contains => exact ⟨_, rfl⟩
    | isNull => exact absurd rfl hneeded.1
    | isNotNull => exact absurd rfl hneeded.2
    | _ => exact absurd hop (by decide)

/-! ### Requests -/

variable (server)

/-- A filter of the editor, decoded by the server. -/
structure SameFilter (f : QueryFilter lib.Num) (g : Query.QueryFilter) : Prop where
  field : f.field = js g.field
  op : f.op = g.op
  value : Option.Rel (SameValue server) f.value g.value

/-- A sort key of the editor, decoded by the server; without a direction it is descending. -/
structure SameOrder (o : QueryOrder) (p : Query.QueryOrder) : Prop where
  field : o.field = js p.field
  direction : o.direction.getD .desc = p.direction

/-- The body of the editor's request, decoded by the server. -/
structure SameRequest (q : StructuredQueryRequest lib.Num) (request : StructuredQuery) : Prop where
  dataset : q.dataset = js request.dataset
  fields : q.fields = request.fields.map (List.map js)
  filters : List.Forall₂ (SameFilter server) (q.filters.getD []) request.filters
  orderBy : List.Forall₂ SameOrder (q.orderBy.getD []) request.orderBy
  limit : q.limit.bind lib.whole = request.limit

variable {server} {d : Query.DatasetSpec}

theorem appendFilter_ok (hlib : lib.Lawful) (hserver : server.Lawful) {f : QueryFilter lib.Num}
    {g : Query.QueryFilter} (hf : FilterOk lib structuredQuerySchema (datasetSchema d) f)
    (hsame : SameFilter server f g) (b : QueryBuilder) : ∃ b', appendFilter server.values d b g = .ok b' := by
  obtain ⟨⟨field, hfield, hop, hvalues⟩, hvalued⟩ := hf
  rw [hsame.field] at hfield
  obtain ⟨column, hcolumn, -, hkind, hoperators⟩ := queryField_server hfield
  rw [hoperators] at hop
  simp only [appendFilter, hcolumn]
  cases hfilter : column.filter with
  | none =>
    rw [hfilter] at hop
    cases hop
  | some kind =>
    rw [hfilter, Option.map_some, Option.getD_some] at hop
    rw [hfilter] at hkind
    simp only [bind, Except.bind, hfilter]
    rw [← hsame.op]
    by_cases hneeded : f.op = .isNull ∨ f.op = .isNotNull
    · rcases hneeded with hnull | hnull
      · exact ⟨_, if_pos hnull⟩
      · rw [hnull]
        exact ⟨_, rfl⟩
    · have hnull := not_or.mp hneeded
      rw [if_neg hnull.1, if_neg hnull.2]
      have hvalue := hsame.value
      cases hv : f.value with
      | none => exact absurd (hvalued.mp hv) hneeded
      | some v =>
        obtain ⟨hliteral, hvalid⟩ := hvalues v hv
        rw [hv] at hvalue
        rw [hkind] at hvalid
        obtain ⟨w, hw, hsameValue⟩ : ∃ w, g.value = some w ∧ SameValue server v w := by
          cases hg : g.value with
          | none => rw [hg] at hvalue; cases hvalue
          | some w => rw [hg] at hvalue; cases hvalue with | some h => exact ⟨w, rfl, h⟩
        have hnotNull : g.nullValue = false := by
          rw [QueryFilter.nullValue, hw]
          cases w with
          | null =>
            cases v <;> simp only [SameValue] at hsameValue
            exact hliteral.elim
          | _ => rfl
        rw [if_neg (by simp [hnotNull]), hw]
        exact appendKindFilter_ok hlib hserver hop hneeded hliteral hvalid hsameValue b column

theorem appendSeparated_ok {α : Type} {separator : String}
    {append : QueryBuilder → α → Except QueryError QueryBuilder} :
    ∀ {xs : List α} (index : ℕ) (b : QueryBuilder), (∀ x ∈ xs, ∀ b, ∃ b', append b x = .ok b') →
    ∃ b', appendSeparated separator append index xs b = .ok b'
  | [], _, b, _ => ⟨b, rfl⟩
  | x :: xs, index, b, h => by
    obtain ⟨b₁, h₁⟩ := h x List.mem_cons_self (if 0 < index then b.push separator else b)
    obtain ⟨b₂, h₂⟩ := appendSeparated_ok (index + 1) b₁ fun y hy => h y (List.mem_cons_of_mem _ hy)
    refine ⟨b₂, ?_⟩
    rw [appendSeparated, h₁]
    exact h₂

theorem selectFields_ok : ∀ {names : List String} {selected : List QueryField},
    (∀ n ∈ names, ∃ f, Query.queryField d n = .ok f) → (names ≠ [] ∨ selected ≠ []) →
    ∃ out, selectFields d names selected = .ok out ∧ out ≠ []
  | [], selected, _, hne => ⟨selected, rfl, by simpa using hne⟩
  | n :: names, selected, h, _ => by
    obtain ⟨f, hf⟩ := h n List.mem_cons_self
    have htail : ∀ m ∈ names, ∃ f, Query.queryField d m = .ok f := fun m hm =>
      h m (List.mem_cons_of_mem _ hm)
    simp only [selectFields, hf, bind, Except.bind]
    split
    · rename_i hseen
      refine selectFields_ok htail (.inr ?_)
      rintro rfl
      cases hseen
    · exact selectFields_ok htail (.inr (by simp))

theorem orders_ok {orders : List Query.QueryOrder}
    (h : ∀ o ∈ orders, ∃ f, Query.queryField d o.field = .ok f) :
    ∃ out, (orders.mapM fun order => return (← Query.queryField d order.field, order.direction) :
      Except QueryError (List (QueryField × SortDirection))) = .ok out := by
  induction orders with
  | nil => exact ⟨[], rfl⟩
  | cons o orders ih =>
    obtain ⟨f, hf⟩ := h o List.mem_cons_self
    obtain ⟨out, hout⟩ := ih fun p hp => h p (List.mem_cons_of_mem _ hp)
    refine ⟨(f, o.direction) :: out, ?_⟩
    rw [List.mapM_cons, hf]
    simp only [bind, Except.bind, pure, Except.pure] at hout ⊢
    rw [hout]

theorem datasetSpec_of_found {dataset : DatasetSpec} {name : String} (hname : dataset.name = js name)
    (h : structuredQuerySchema.datasets.find? (fun d => d.name = dataset.name) = some dataset) :
    ∃ d, datasetSpec name = .ok d ∧ dataset = datasetSchema d := by
  have hmap : structuredQuerySchema.datasets = Query.datasets.map datasetSchema := rfl
  rw [hmap, List.find?_map, Option.map_eq_some_iff] at h
  obtain ⟨d, hd, rfl⟩ := h
  refine ⟨d, ?_, rfl⟩
  have hpred : ((fun e : DatasetSpec => decide (e.name = (datasetSchema d).name)) ∘ datasetSchema) =
      fun e => decide (e.name = name) := by
    funext e
    rw [hname]
    simp only [Function.comp, datasetSchema, js_injective.eq_iff]
  rw [hpred] at hd
  rw [datasetSpec, hd]

theorem selectedFields_ok {names : List String} (hne : names ≠ [])
    (hle : names.length ≤ maxStructuredQueryFields)
    (h : ∀ n ∈ names, ∃ f, Query.queryField d n = .ok f) :
    ∃ out, selectedFields d (some names) = .ok out := by
  obtain ⟨out, hout, hsome⟩ := @selectFields_ok d names [] h (.inl hne)
  refine ⟨out, ?_⟩
  have hnames : selectedNames d (some names) = .ok names := by
    cases names with
    | nil => exact absurd rfl hne
    | cons n names => rw [selectedNames, if_neg (Nat.not_lt.mpr hle)]; simp
  simp only [selectedFields, hnames, bind, Except.bind, hout, if_neg hsome]

theorem selectedOrder_ok {orders : List Query.QueryOrder} (hne : orders ≠ [])
    (hle : orders.length ≤ maxStructuredQueryOrderBy)
    (h : ∀ o ∈ orders, ∃ f, Query.queryField d o.field = .ok f) :
    ∃ out, selectedOrder d orders = .ok out := by
  rw [selectedOrder, if_neg (Nat.not_lt.mpr hle), if_neg hne]
  exact orders_ok h

theorem knows_of_isSome {name : String}
    (h : (queryField structuredQuerySchema (datasetSchema d) (js name)).isSome) :
    ∃ f, Query.queryField d name = .ok f := by
  obtain ⟨field, hfield⟩ := Option.isSome_iff_exists.mp h
  obtain ⟨f, hf, -⟩ := queryField_server hfield
  exact ⟨f, hf⟩

theorem forall₂_right {α β : Type} {R : α → β → Prop} {xs : List α} {ys : List β}
    (h : List.Forall₂ R xs ys) : ∀ y ∈ ys, ∃ x ∈ xs, R x y := by
  induction h with
  | nil => intro y hy; cases hy
  | cons hxy _ ih =>
    intro z hz
    rcases List.mem_cons.mp hz with rfl | hz
    · exact ⟨_, List.mem_cons_self, hxy⟩
    · obtain ⟨x, hx, hR⟩ := ih z hz
      exact ⟨x, List.mem_cons_of_mem _ hx, hR⟩

/-- The builder has no other errors than those of its checks. -/
theorem build_ok {values : ValueLib} {request : StructuredQuery} {names : List String}
    {selected : List QueryField} {orderBy : List (QueryField × SortDirection)}
    (hd : datasetSpec request.dataset = .ok d) (hnames : request.fields = some names)
    (hselected : selectedFields d (some names) = .ok selected)
    (horderBy : selectedOrder d request.orderBy = .ok orderBy)
    (hcount : validateStructuredQueryFilters request.filters = .ok ())
    (hfilter : ∀ g ∈ request.filters, ∀ b, ∃ b', appendFilter values d b g = .ok b') :
    ∃ b, buildStructuredQuery values request = .ok b := by
  have hwhere : ∀ b, ∃ b', appendWhere values d request.filters b = .ok b' := by
    intro b
    unfold appendWhere
    split
    · exact ⟨b, rfl⟩
    · exact appendSeparated_ok 0 _ hfilter
  have horder : ∀ b, ∃ b', appendOrderBy orderBy b = .ok b' := by
    intro b
    unfold appendOrderBy
    split
    · exact ⟨b, rfl⟩
    · exact appendSeparated_ok 0 _ fun _ _ _ => ⟨_, rfl⟩
  have hselect : ∀ b, ∃ b', appendSeparated ", " (fun b field => .ok (appendSelected b field)) 0 selected b =
      .ok b' := fun b => appendSeparated_ok 0 b fun _ _ _ => ⟨_, rfl⟩
  unfold buildStructuredQuery
  rw [hd, hnames]
  simp only [bind, Except.bind, hselected, horderBy, hcount]
  obtain ⟨b₁, h₁⟩ := hselect
    { sql := "SELECT COALESCE(jsonb_agg(to_jsonb(q)), '[]'::jsonb) AS rows FROM (SELECT " }
  rw [h₁]
  obtain ⟨b₂, h₂⟩ := hwhere ((b₁.push " FROM ").push d.relation)
  simp only [h₂]
  obtain ⟨b₃, h₃⟩ := horder b₂
  simp only [h₃]
  exact ⟨_, rfl⟩

/-- ACCEPTED BY BOTH: whatever the editor accepts, the server builds a query from. -/
theorem editor_accepts_server_accepts (lib : JsLib) (hlib : lib.Lawful) (server : Server lib)
    (hserver : server.Lawful) (text : JsText) (q : StructuredQueryRequest lib.Num)
    (h : parseQueryText lib structuredQuerySchema text = .ok q) (request : StructuredQuery)
    (hsame : SameRequest server q request) : ∃ b, buildStructuredQuery server.values request = .ok b := by
  obtain ⟨dataset, fields, filters, order, limit, rfl, haccepted⟩ :=
    parseQueryText_accepted hlib structuredQuerySchema_sound h
  obtain ⟨d, hd, rfl⟩ := datasetSpec_of_found hsame.dataset haccepted.found
  obtain ⟨names, hnames, hfields⟩ : ∃ names, request.fields = some names ∧ fields = names.map js := by
    have := hsame.fields
    cases hrequest : request.fields with
    | none => rw [hrequest] at this; cases this
    | some names => rw [hrequest] at this; exact ⟨names, rfl, Option.some.inj this⟩
  subst hfields
  have hfilters : List.Forall₂ (SameFilter server) filters request.filters := hsame.filters
  have horders : List.Forall₂ SameOrder order request.orderBy := hsame.orderBy
  obtain ⟨selected, hselected⟩ := @selectedFields_ok d names (by simpa using haccepted.fields_ne)
    (by have := haccepted.fields_le; rwa [List.length_map] at this)
    fun n hn => knows_of_isSome (haccepted.fields_known _ (List.mem_map_of_mem hn))
  obtain ⟨orderBy, horderBy⟩ := @selectedOrder_ok d request.orderBy
    (fun hnil => haccepted.order_ne (by rw [hnil] at horders; cases horders; rfl))
    (by rw [← horders.length_eq]; exact haccepted.order_le)
    (by
      intro p hp
      obtain ⟨o, ho, hop⟩ := forall₂_right horders p hp
      have := (haccepted.order_ok o ho).1
      rw [hop.field] at this
      exact knows_of_isSome this)
  have hcount : validateStructuredQueryFilters request.filters = .ok () := by
    have := haccepted.filters_le
    rw [hfilters.length_eq] at this
    exact if_neg (Nat.not_lt.mpr this)
  have hfilter : ∀ g ∈ request.filters, ∀ b, ∃ b', appendFilter server.values d b g = .ok b' := by
    intro g hg b
    obtain ⟨f, hf, hfg⟩ := forall₂_right hfilters g hg
    exact appendFilter_ok hlib hserver (haccepted.filters_ok f hf) hfg b
  exact build_ok hd hnames hselected horderBy hcount hfilter

end

/-! ### An instance -/

/-- No timestamp is read by `teamLib`, and all its numbers are whole. -/
def teamServer : Server teamLib where
  values := ⟨fun _ => none, fun s => if isUuid (js s) then some 0 else none⟩
  numberText _ := ""

theorem teamServer_lawful : teamServer.Lawful where
  timestamp {s} h := by
    simp only [isRfc3339Timestamp, teamLib, Option.isNone_none, Bool.or_true, Bool.true_or, if_true,
      Bool.false_eq_true] at h
  uuid {s} h := by
    simp only [teamServer, h, if_true, Option.isSome_some]
  number _ h := by cases h

/-- A whole number, a JSON value and a text with a quote. -/
def teamFilters : List (QueryFilter teamLib.Num) := [
  ⟨js "status", .gte, some (.num (-400 : ℤ))⟩,
  ⟨js "plugin_metadata", .contains, some teamValue⟩,
  ⟨js "model", .eq, some (.str (js "O'Reilly"))⟩]

/-- The latest requests first. -/
def teamOrder : List QueryOrder := [⟨js "started_at", some .desc⟩]

/-- A column and a path into the plugin metadata. -/
def teamFields : List JsText := [js "id", js "plugin_metadata.My-plugin.team"]

/-- The dataset `requests`, as the editor has it. -/
def requestsSchema : DatasetSpec := structuredQuerySchema.datasets.head (by decide)

/-- The checks of a filter, as the editor makes them. -/
def filterChecked (f : QueryFilter teamLib.Num) : Bool :=
  (queryField structuredQuerySchema requestsSchema f.field).any fun field =>
    decide (f.op ∈ field.operators) && f.value.all fun v =>
      (valueError teamLib structuredQuerySchema.limits f.field field.filterKind v).isNone

theorem filterOk_of_checked {f : QueryFilter teamLib.Num} (h : filterChecked f = true)
    (hliteral : ∀ v, f.value = some v → Literal teamLib v)
    (hvalued : f.value = none ↔ f.op = .isNull ∨ f.op = .isNotNull) :
    FilterOk teamLib structuredQuerySchema requestsSchema f := by
  obtain ⟨field, hfield, hboth⟩ := (Option.any_eq_true _ _).mp h
  rw [Bool.and_eq_true, decide_eq_true_eq] at hboth
  refine ⟨⟨field, hfield, hboth.1, fun v hv => ⟨hliteral v hv, ?_⟩⟩, hvalued⟩
  have := hboth.2
  rw [hv] at this
  simpa using this

theorem team_accepted :
    Accepted teamLib structuredQuerySchema requestsSchema teamFields teamFilters teamOrder (10 : ℤ) where
  found := rfl
  fields_ne := by decide
  fields_nodup := by decide
  fields_le := by decide
  fields_known := by decide +kernel
  filters_le := by decide
  filters_ok := by
    refine List.forall_mem_cons.mpr ⟨?_, List.forall_mem_cons.mpr ⟨?_, List.forall_mem_singleton.mpr ?_⟩⟩
    · refine filterOk_of_checked (by decide +kernel) ?_ (by simp)
      rintro v ⟨⟩
      exact ⟨rfl, fun _ => by decide +kernel⟩
    · refine filterOk_of_checked (by decide +kernel) ?_ (by simp)
      rintro v ⟨⟩
      have hparse : (if teamJson = teamJson then some teamValue else none) = some teamValue := if_pos rfl
      exact ⟨by decide +kernel, teamJson, hparse⟩
    · refine filterOk_of_checked (by decide +kernel) ?_ (by simp)
      rintro v ⟨⟩
      trivial
  order_ne := by decide
  order_le := by decide
  order_ok := by decide +kernel
  limit_ok := ⟨10, rfl, by decide, by decide, by decide⟩

/-- What the server decodes of the editor's request. -/
def teamRequest : StructuredQuery where
  dataset := "requests"
  fields := some ["id", "plugin_metadata.My-plugin.team"]
  filters := [⟨"status", .gte, some (.int (-400))⟩,
    ⟨"plugin_metadata", .contains, some (.obj [("team", .str "x")])⟩,
    ⟨"model", .eq, some (.str "O'Reilly")⟩]
  orderBy := [⟨"started_at", .desc⟩]
  limit := some 10

theorem team_same : SameRequest teamServer
    ⟨requestsSchema.name, some teamFields, some teamFilters, some teamOrder, some (10 : ℤ)⟩ teamRequest where
  dataset := rfl
  fields := rfl
  filters := by
    refine .cons ⟨rfl, rfl, .some ?_⟩ (.cons ⟨rfl, rfl, .some ?_⟩ (.cons ⟨rfl, rfl, .some ?_⟩ .nil))
    · exact (rfl : wholeNumbers.whole (-400 : ℤ) = some (-400))
    · exact ⟨_, List.Perm.refl _, rfl, rfl, trivial⟩
    · exact (rfl : js "O'Reilly" = js "O'Reilly")
  orderBy := .cons ⟨rfl, rfl⟩ .nil
  limit := rfl

theorem editor_accepts_server_accepts_team : ∃ text q,
    parseQueryText teamLib structuredQuerySchema text = .ok q ∧ SameRequest teamServer q teamRequest ∧
    ∃ b, buildStructuredQuery teamServer.values teamRequest = .ok b :=
  have h := parse_printedQuery wholeNumbers_lawful teamLib_roundTrips team_accepted
  ⟨_, _, h, team_same, editor_accepts_server_accepts teamLib wholeNumbers_lawful teamServer
    teamServer_lawful _ _ h teamRequest team_same⟩

end Llmtrace.QueryText
