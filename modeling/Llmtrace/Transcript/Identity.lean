import Llmtrace.Query.RoundTrip
import Llmtrace.Schemes.JsSorted
import Llmtrace.Transcript.Stream

/-! The messages of a transcript and their identities (`ui/src/lib/transcript/parse.ts`). `message` makes
    of a JSON value the text that is displayed and a canonical text, the identity, by which the folding
    of the transcript takes two messages for one. The identity forgets the order of properties, the kind
    of a text part and fields that say nothing; it also forgets which number was too large, and takes it
    for `null`.

    Texts are made with `String`, which throws on an object with a property `toString`: a function that
    may do so returns an `Option`. -/

namespace Llmtrace.Transcript
open Schemes

section
variable (N : JsNumbers)

/-! ### Parts -/

mutual

/-- `String(v)` -/
def jsString : JsValue N.Num → Option JsText
  | .null => some (js "null")
  | .bool b => some (js (toString b))
  | .num x => some (N.text x)
  | .str s => some s
  | .arr items => (itemStrings items).map fun texts => (js ",").intercalate texts
  | .obj fields => if (fields.lookup (js "toString")).isSome then none else some (js "[object Object]")

/-- The texts that an array joins; `null` is empty. -/
def itemStrings : List (JsValue N.Num) → Option (List JsText)
  | [] => some []
  | .null :: items => (itemStrings items).map fun texts => [] :: texts
  | v :: items => (jsString v).bind fun text => (itemStrings items).map fun texts => text :: texts

end

/-- `String(part.type)` -/
def typeText (fields : List (JsText × JsValue N.Num)) : Option JsText :=
  match fields.lookup (js "type") with
  | none => some (js "undefined")
  | some v => jsString N v

/-- The types of a text part. -/
def textKinds : List JsText := [js "text", js "input_text", js "output_text"]

/-- The text of a part that has a kind, a text and no more. -/
def partText (part : JsValue N.Num) : Option (Option JsText) :=
  match part with
  | .obj fields => (typeText N fields).map fun kind =>
    match fields.lookup (js "text") with
    | some (.str text) =>
      if textKinds.any (· = kind) ∧ ∀ e ∈ fields, e.1 = js "type" ∨ e.1 = js "text" then some text else none
    | _ => none
  | _ => some none

/-- `{ type: 'text', text }` -/
def textMembers (text : JsText) : List (JsText × JsValue N.Num) :=
  [(js "type", .str (js "text")), (js "text", .str text)]

/-- The object that stands for a text part. -/
def textObject (text : JsText) : JsValue N.Num := .obj (assign (textMembers N text))

/-! ### Contents -/

/-- A text part in its one form, another part as it is. -/
def normalizedPart (part : JsValue N.Num) : Option (JsValue N.Num) :=
  (partText N part).map fun text => text.elim part (textObject N)

/-- The content that the identity is made of. -/
def normalizedContent : Option (JsValue N.Num) → Option (JsValue N.Num)
  | none | some .null => some .null
  | some (.str text) => some (.arr [textObject N text])
  | some (.arr parts) => (parts.mapM (normalizedPart N)).map .arr
  | some v => some v

/-- `print` is `JSON.stringify(part, null, 2)`. -/
def displayPart (print : JsValue N.Num → JsText) (part : JsValue N.Num) : Option JsText :=
  match part with
  | .str text => some text
  | part => (partText N part).map fun text => text.getD (print part)

/-- The content as it is displayed. -/
def displayContent (print : JsValue N.Num → JsText) : Option (JsValue N.Num) → Option JsText
  | none | some .null => some []
  | some (.str text) => some text
  | some (.arr parts) => (parts.mapM (displayPart N print)).map fun texts => (js "\n\n").intercalate texts
  | some v => some (print v)

/-! ### Messages -/

/-- `canonical` -/
def canonical (v : JsValue N.Num) : JsText := stringify N (sortKeys v)

variable {N}

/-- `v == null || (Array.isArray(v) && v.length === 0)` -/
def saysNothing : JsValue N.Num → Bool
  | .null | .arr [] => true
  | _ => false

/-- The fields that may say nothing. -/
def optionalFields : List JsText :=
  [js "refusal", js "reasoning", js "reasoning_content", js "annotations", js "tool_calls"]

/-- The field is kept beside role and content. -/
def isExtra (e : JsText × JsValue N.Num) : Bool :=
  e.1 ≠ js "role" && e.1 ≠ js "content" && !(e.1 = js "type" && isText (some e.2) (js "message")) &&
    !(optionalFields.any (· = e.1) && saysNothing e.2)

/-- `{ role: fallback, content: value }` -/
def bareRaw (v : JsValue N.Num) (fallback : JsText) : List (JsText × JsValue N.Num) :=
  assign [(js "role", .str fallback), (js "content", v)]

/-- The fields of a message, or of the one that a bare value stands for. -/
def rawOf (value : JsValue N.Num) (fallback : JsText) : List (JsText × JsValue N.Num) :=
  match value with
  | .obj fields => fields
  | v => bareRaw v fallback

/-- The role of a message, or the fallback. -/
def roleOf (raw : List (JsText × JsValue N.Num)) (fallback : JsText) : JsText :=
  match raw.lookup (js "role") with
  | some (.str role) => role
  | _ => fallback

/-- The further fields of a message. -/
def extraOf (raw : List (JsText × JsValue N.Num)) : List (JsText × JsValue N.Num) :=
  assign (raw.filter isExtra)

/-- The displayed content, with what else the message has. -/
def withExtra (print : JsValue N.Num → JsText) (content : JsText)
    (extra : List (JsText × JsValue N.Num)) : JsText :=
  if extra = [] then content
  else content ++ (if content = [] then [] else js "\n\n") ++ print (.obj extra)

/-- What `message` returns. -/
structure BuiltMessage where
  role : JsText
  content : JsText
  identity : JsText
  deriving DecidableEq

variable (N)

/-- `message` -/
def message (print : JsValue N.Num → JsText) (value : JsValue N.Num) (fallback : JsText) :
    Option BuiltMessage := do
  let raw := rawOf value fallback
  let role := roleOf raw fallback
  let extra := extraOf raw
  let content ← displayContent N print (raw.lookup (js "content"))
  let normalized ← normalizedContent N (raw.lookup (js "content"))
  return {
    role
    content := withExtra print content extra
    identity := canonical N
      (.obj (assign ((js "role", .str role) :: (js "content", normalized) :: extra))) }

variable {N}

/-- `{ role, ...value }`, and the role again. -/
def withRole (role : String) (fields : List (JsText × JsValue N.Num)) : JsValue N.Num × JsText :=
  (.obj (assign ((js "role", .str (js role)) :: fields)), js role)

/-- What `item` hands to `message`. -/
def itemInput (value : JsValue N.Num) (fallback : JsText) : JsValue N.Num × JsText :=
  match value with
  | .obj fields =>
    let type := fields.lookup (js "type")
    if isText type (js "function_call") then withRole "tool_call" fields
    else if isText type (js "function_call_output") then withRole "tool" fields
    else if isText type (js "reasoning") then withRole "reasoning" fields
    else if isText type (js "item_reference") then withRole "reference" fields
    else (value, fallback)
  | _ => (value, fallback)

variable (N)

/-- `item` -/
def item (print : JsValue N.Num → JsText) (value : JsValue N.Num) (fallback : JsText) :
    Option BuiltMessage :=
  message N print (itemInput value fallback).1 (itemInput value fallback).2

/-- The functions that build a message. -/
inductive Builder where
  | message
  | item
  deriving DecidableEq

/-- The function that builds the message. -/
def Builder.build (print : JsValue N.Num → JsText) : Builder → JsValue N.Num → JsText → Option BuiltMessage
  | .message => Transcript.message N print
  | .item => Transcript.item N print

/-! ### What identities are for -/

/-- The value comes out of `JSON.parse`. -/
def Parsed (v : JsValue N.Num) : Prop := ∃ text, jsonParse N text = some v

/-- What is displayed, but with the properties of each displayed object sorted. -/
def sortedDisplay (builder : Builder) (value : JsValue N.Num) (fallback : JsText) : Option JsText :=
  (builder.build N (fun v => prettify N 0 (sortKeys v)) value fallback).map BuiltMessage.content

/-- Two messages with one identity have one role, and are displayed alike up to the order of
    properties. -/
def IdentityTells (builder builder' : Builder) (a b : JsValue N.Num) (fallback fallback' : JsText) : Prop :=
  ∀ m m', builder.build N (prettify N 0) a fallback = some m →
    builder'.build N (prettify N 0) b fallback' = some m' → m.identity = m'.identity →
    m.role = m'.role ∧ sortedDisplay N builder a fallback = sortedDisplay N builder' b fallback'

variable {N}

/-- What a builder hands to `message`. -/
def Builder.input : Builder → JsValue N.Num → JsText → JsValue N.Num × JsText
  | .message, value, fallback => (value, fallback)
  | .item, value, fallback => itemInput value fallback

/-- `content == null` -/
def IsNullish (content : Option (JsValue N.Num)) : Prop := content = none ∨ content = some .null

/-- A number that JSON cannot write. -/
def IsUnwritable (content : Option (JsValue N.Num)) : Prop :=
  ∃ x, content = some (.num x) ∧ N.isFinite x = false

/-- Two messages, one without a content and one with a number that JSON cannot write; all else is the
    same. -/
structure Clash (input input' : JsValue N.Num × JsText) : Prop where
  role : roleOf (rawOf input.1 input.2) input.2 = roleOf (rawOf input'.1 input'.2) input'.2
  content :
    IsNullish ((rawOf input.1 input.2).lookup (js "content")) ∧
      IsUnwritable ((rawOf input'.1 input'.2).lookup (js "content")) ∨
    IsUnwritable ((rawOf input.1 input.2).lookup (js "content")) ∧
      IsNullish ((rawOf input'.1 input'.2).lookup (js "content"))
  extra : Same (nulled N (.obj (extraOf (rawOf input.1 input.2))))
    (nulled N (.obj (extraOf (rawOf input'.1 input'.2))))

/-! ### Parts -/

theorem textMembers_names (text : JsText) : ((textMembers N text).map Prod.fst).Nodup := by
  have h : [js "type", js "text"].Nodup := by decide
  exact h

theorem native_textObject (text : JsText) : Native (textObject N text) :=
  native_assign (by simp [textMembers, NativeFields, NativeField, Native])

/-- Only a text part is written as one. -/
theorem partText_of_legible {part : JsValue N.Num} {text : JsText} (hnative : Native part)
    (h : legible part = legible (textObject N text)) : partText N part = some (some text) := by
  obtain ⟨fields, rfl⟩ := legible_eq_obj h
  rw [Native] at hnative
  have hnames := hnative.1.names
  rw [← hnative.1.assign_eq] at h
  have h := (legible_assign_eq_iff hnames (textMembers_names text)).mp h
  have hlookup : ∀ {key s : JsText}, (key, .str s) ∈ fields.map (fun e => (e.1, legible e.2)) →
      fields.lookup key = some (.str s) := by
    intro key s hin
    obtain ⟨e, he, heq⟩ := List.mem_map.mp hin
    rw [Prod.mk.injEq] at heq
    refine lookup_eq_some_of_mem hnames ?_
    rw [← heq.1, ← legible_eq_str heq.2]
    exact he
  have htype : fields.lookup (js "type") = some (.str (js "text")) :=
    hlookup (h.mem_iff.mpr List.mem_cons_self)
  have htext : fields.lookup (js "text") = some (.str text) :=
    hlookup (h.mem_iff.mpr (List.mem_cons_of_mem _ List.mem_cons_self))
  have hkeys : ∀ e ∈ fields, e.1 = js "type" ∨ e.1 = js "text" := by
    intro e he
    have hin := h.mem_iff.mp (List.mem_map_of_mem he)
    simp only [textMembers, List.map_cons, List.map_nil, List.mem_cons, List.not_mem_nil, or_false,
      Prod.mk.injEq] at hin
    exact hin.imp And.left And.left
  have hkind : typeText N fields = some (js "text") := by
    simp only [typeText, htype, jsString]
  rw [partText, hkind, htext, Option.map_some]
  exact congrArg some (if_pos ⟨by decide, hkeys⟩)

theorem partText_textObject (text : JsText) : partText N (textObject N text) = some (some text) :=
  partText_of_legible (native_textObject text) rfl

theorem native_normalizedPart {part v : JsValue N.Num} (hnative : Native part)
    (h : normalizedPart N part = some v) : Native v := by
  obtain ⟨text, -, rfl⟩ := Option.map_eq_some_iff.mp h
  cases text with
  | none => exact hnative
  | some text => exact native_textObject text

theorem displayPart_text {print : JsValue N.Num → JsText} {part : JsValue N.Num} {text : JsText}
    (h : partText N part = some (some text)) : displayPart N print part = some text := by
  cases part with
  | obj fields => rw [displayPart, h, Option.map_some, Option.getD_some]; simp
  | null => cases h
  | bool b => cases h
  | num x => cases h
  | str s => cases h
  | arr items => cases h

theorem displayPart_other {print : JsValue N.Num → JsText} {part : JsValue N.Num}
    (h : partText N part = some none) (hstr : ∀ s, part ≠ .str s) :
    displayPart N print part = some (print part) := by
  rw [displayPart, h, Option.map_some, Option.getD_none]
  exact hstr

/-- Two parts that are written alike are displayed alike. -/
theorem displayPart_eq {part part' v v' : JsValue N.Num} (hnative : Native part) (hnative' : Native part')
    (hpart : normalizedPart N part = some v) (hpart' : normalizedPart N part' = some v')
    (h : legible v = legible v') :
    displayPart N (fun v => prettify N 0 (sortKeys v)) part =
      displayPart N (fun v => prettify N 0 (sortKeys v)) part' := by
  obtain ⟨text, htext, rfl⟩ := Option.map_eq_some_iff.mp hpart
  obtain ⟨text', htext', rfl⟩ := Option.map_eq_some_iff.mp hpart'
  cases text with
  | some text =>
    cases text' with
    | some text' =>
      have hsame := partText_of_legible (native_textObject text) h
      rw [partText_textObject, Option.some.injEq, Option.some.injEq] at hsame
      rw [displayPart_text htext, displayPart_text htext', hsame]
    | none =>
      have := partText_of_legible hnative' h.symm
      rw [htext'] at this
      cases this
  | none =>
    cases text' with
    | some text' =>
      have := partText_of_legible hnative h
      rw [htext] at this
      cases this
    | none =>
      by_cases hstr : ∃ s, part = .str s
      · obtain ⟨s, rfl⟩ := hstr
        have hpart' : part' = .str s := legible_eq_str h.symm
        rw [hpart']
      · have hstr' : ∀ s, part' ≠ .str s := by
          rintro s rfl
          exact hstr ⟨s, legible_eq_str h⟩
        rw [displayPart_other htext fun s hs => hstr ⟨s, hs⟩, displayPart_other htext' hstr']
        exact congrArg some (prettify_sortKeys N h 0)

theorem displayParts_eq : ∀ {parts parts' vs vs' : List (JsValue N.Num)}, NativeItems parts →
    NativeItems parts' → parts.mapM (normalizedPart N) = some vs →
    parts'.mapM (normalizedPart N) = some vs' → vs.map legible = vs'.map legible →
    parts.mapM (displayPart N fun v => prettify N 0 (sortKeys v)) =
      parts'.mapM (displayPart N fun v => prettify N 0 (sortKeys v))
  | [], [], _, _, _, _, _, _, _ => rfl
  | [], part' :: parts', vs, vs', _, _, h, h', heq => by
    simp only [List.mapM_nil, List.mapM_cons, Option.bind_eq_bind, Option.bind_eq_some_iff] at h h'
    obtain ⟨v', -, ws', -, hvs'⟩ := h'
    cases h
    cases hvs'
    cases heq
  | part :: parts, [], vs, vs', _, _, h, h', heq => by
    simp only [List.mapM_nil, List.mapM_cons, Option.bind_eq_bind, Option.bind_eq_some_iff] at h h'
    obtain ⟨v, -, ws, -, hvs⟩ := h
    cases h'
    cases hvs
    cases heq
  | part :: parts, part' :: parts', vs, vs', hnative, hnative', h, h', heq => by
    simp only [List.mapM_cons, Option.bind_eq_bind, Option.bind_eq_some_iff] at h h'
    obtain ⟨v, hv, ws, hws, hvs⟩ := h
    obtain ⟨v', hv', ws', hws', hvs'⟩ := h'
    cases hvs
    cases hvs'
    rw [List.map_cons, List.map_cons, List.cons.injEq] at heq
    rw [NativeItems] at hnative hnative'
    rw [List.mapM_cons, List.mapM_cons, displayPart_eq hnative.1 hnative'.1 hv hv' heq.1,
      displayParts_eq hnative.2 hnative'.2 hws hws' heq.2]

/-! ### Contents -/

theorem IsNullish.normalized {content : Option (JsValue N.Num)} (h : IsNullish content) :
    normalizedContent N content = some .null := by
  rcases h with rfl | rfl
  · rfl
  · rfl

theorem IsNullish.display {content : Option (JsValue N.Num)} (h : IsNullish content)
    (print : JsValue N.Num → JsText) : displayContent N print content = some [] := by
  rcases h with rfl | rfl
  · rfl
  · rfl

theorem displayContent_str (print : JsValue N.Num → JsText) (text : JsText) :
    displayContent N print (some (.arr [textObject N text])) = some text := by
  have hpart : displayPart N print (textObject N text) = some text :=
    displayPart_text (partText_textObject text)
  simp [displayContent, hpart, List.intercalate]

theorem normalizedContent_str (text : JsText) :
    normalizedContent N (some (.arr [textObject N text])) = some (.arr [textObject N text]) := by
  have hpart : normalizedPart N (textObject N text) = some (textObject N text) := by
    rw [normalizedPart, partText_textObject, Option.map_some, Option.elim_some]
  simp [normalizedContent, hpart]

/-- A content that is there and is no text is treated as a list of parts, or as a whole. -/
inductive Shape (content : Option (JsValue N.Num)) : Prop where
  | nullish : IsNullish content → Shape content
  | parts (parts : List (JsValue N.Num)) : NativeItems parts →
    normalizedContent N content = normalizedContent N (some (.arr parts)) →
    (∀ print, displayContent N print content = displayContent N print (some (.arr parts))) →
    Shape content
  | whole (v : JsValue N.Num) : content = some v → normalizedContent N content = some v →
    (∀ print, displayContent N print content = some (print v)) → v ≠ .null → (∀ parts, v ≠ .arr parts) →
    Shape content

theorem shape {content : Option (JsValue N.Num)} (h : ∀ v, content = some v → Native v) :
    Shape content := by
  cases content with
  | none => exact .nullish (.inl rfl)
  | some v =>
    cases v with
    | null => exact .nullish (.inr rfl)
    | bool b => exact .whole _ rfl rfl (fun _ => rfl) (by rintro ⟨⟩) (by rintro _ ⟨⟩)
    | num x => exact .whole _ rfl rfl (fun _ => rfl) (by rintro ⟨⟩) (by rintro _ ⟨⟩)
    | obj fields => exact .whole _ rfl rfl (fun _ => rfl) (by rintro ⟨⟩) (by rintro _ ⟨⟩)
    | arr parts => exact .parts parts (h _ rfl) rfl fun _ => rfl
    | str text =>
      refine .parts [textObject N text] ⟨native_textObject text, trivial⟩ ?_ fun print => ?_
      · rw [normalizedContent_str]
        rfl
      · rw [displayContent_str]
        rfl

theorem normalizedContent_arr {parts : List (JsValue N.Num)} {v : JsValue N.Num}
    (h : normalizedContent N (some (.arr parts)) = some v) :
    ∃ vs, parts.mapM (normalizedPart N) = some vs ∧ v = .arr vs := by
  obtain ⟨vs, hvs, heq⟩ := Option.map_eq_some_iff.mp h
  exact ⟨vs, hvs, heq.symm⟩

theorem native_normalizedParts : ∀ {parts vs : List (JsValue N.Num)}, NativeItems parts →
    parts.mapM (normalizedPart N) = some vs → NativeItems vs
  | [], _, _, h => by
    cases h
    simp [NativeItems]
  | part :: parts, vs, hnative, h => by
    simp only [List.mapM_cons, Option.bind_eq_bind, Option.bind_eq_some_iff] at h
    obtain ⟨v, hv, ws, hws, hvs⟩ := h
    cases hvs
    rw [NativeItems] at hnative
    exact ⟨native_normalizedPart hnative.1 hv, native_normalizedParts hnative.2 hws⟩

theorem native_normalizedContent {content : Option (JsValue N.Num)} {v : JsValue N.Num}
    (hnative : ∀ v, content = some v → Native v) (h : normalizedContent N content = some v) :
    Native v := by
  rcases shape hnative with hnull | ⟨parts, hparts, hnorm, -⟩ | ⟨w, hw, hnorm, -⟩
  · rw [hnull.normalized] at h
    cases h
    simp [Native]
  · rw [hnorm] at h
    obtain ⟨vs, hvs, rfl⟩ := normalizedContent_arr h
    rw [Native]
    exact native_normalizedParts hparts hvs
  · rw [hnorm] at h
    cases h
    exact hnative _ hw

theorem isUnwritable_of_legible {v : JsValue N.Num} (h : legible v = .null) (hne : v ≠ .null) :
    IsUnwritable (some v) := by
  rcases legible_eq_null h with rfl | ⟨x, rfl, hx⟩
  · exact absurd rfl hne
  · exact ⟨x, rfl, hx⟩

/-- Two contents that are written alike are displayed alike, unless one of them is missing and the other
    is a number that JSON cannot write. -/
theorem displayContent_eq {content content' : Option (JsValue N.Num)} {v v' : JsValue N.Num}
    (hnative : ∀ v, content = some v → Native v) (hnative' : ∀ v, content' = some v → Native v)
    (h : normalizedContent N content = some v) (h' : normalizedContent N content' = some v')
    (heq : legible v = legible v') :
    displayContent N (fun v => prettify N 0 (sortKeys v)) content =
      displayContent N (fun v => prettify N 0 (sortKeys v)) content' ∨
    IsNullish content ∧ IsUnwritable content' ∨ IsUnwritable content ∧ IsNullish content' := by
  rcases shape hnative with hnull | ⟨parts, hparts, hnorm, hshow⟩ | ⟨w, hw, hnorm, hshow, hne, harr⟩
  · rw [hnull.normalized] at h
    cases h
    rcases shape hnative' with hnull' | ⟨parts', -, hnorm', -⟩ | ⟨w', rfl, hnorm', -, hne', -⟩
    · exact .inl ((hnull.display _).trans (hnull'.display _).symm)
    · rw [hnorm'] at h'
      obtain ⟨vs', -, rfl⟩ := normalizedContent_arr h'
      cases heq
    · rw [hnorm'] at h'
      cases h'
      exact .inr (.inl ⟨hnull, isUnwritable_of_legible heq.symm hne'⟩)
  · rw [hnorm] at h
    obtain ⟨vs, hvs, rfl⟩ := normalizedContent_arr h
    rcases shape hnative' with hnull' | ⟨parts', hparts', hnorm', hshow'⟩ | ⟨w', -, hnorm', -, -, harr'⟩
    · rw [hnull'.normalized] at h'
      cases h'
      cases heq
    · rw [hnorm'] at h'
      obtain ⟨vs', hvs', rfl⟩ := normalizedContent_arr h'
      rw [legible_arr, legible_arr, JsValue.arr.injEq] at heq
      left
      rw [hshow, hshow', displayContent, displayContent, displayParts_eq hparts hparts' hvs hvs' heq]
    · rw [hnorm'] at h'
      cases h'
      rw [legible_arr] at heq
      obtain ⟨items, hitems⟩ := legible_eq_arr heq.symm
      exact absurd hitems (harr' items)
  · rw [hnorm] at h
    cases h
    rcases shape hnative' with hnull' | ⟨parts', -, hnorm', -⟩ | ⟨w', -, hnorm', hshow', -, -⟩
    · rw [hnull'.normalized] at h'
      cases h'
      exact .inr (.inr ⟨hw ▸ isUnwritable_of_legible heq hne, hnull'⟩)
    · rw [hnorm'] at h'
      obtain ⟨vs', -, rfl⟩ := normalizedContent_arr h'
      rw [legible_arr] at heq
      obtain ⟨items, hitems⟩ := legible_eq_arr heq
      exact absurd hitems (harr items)
    · rw [hnorm'] at h'
      cases h'
      left
      rw [hshow, hshow', prettify_sortKeys N heq 0]

/-! ### Messages -/

theorem native_content {raw : List (JsText × JsValue N.Num)} (h : NativeFields raw) (v : JsValue N.Num)
    (hv : raw.lookup (js "content") = some v) : Native v :=
  nativeFields_iff.mp h _ (mem_of_lookup_eq_some hv)

theorem extraOf_names {raw : List (JsText × JsValue N.Num)} {e : JsText × JsValue N.Num}
    (h : e ∈ extraOf raw) : e.1 ≠ js "role" ∧ e.1 ≠ js "content" := by
  have hextra := (List.mem_filter.mp (mem_assign h)).2
  simp only [isExtra, Bool.and_eq_true, decide_eq_true_eq] at hextra
  exact hextra.1.1

theorem native_extraOf {raw : List (JsText × JsValue N.Num)} (h : NativeFields raw) :
    Native (.obj (extraOf raw)) :=
  native_assign (nativeFields_iff.mpr fun e he => nativeFields_iff.mp h e (List.mem_filter.mp he).1)

theorem legible_extraOf {raw raw' : List (JsText × JsValue N.Num)} :
    legible (.obj (extraOf raw)) = legible (.obj (extraOf raw')) ↔
      ((extraOf raw).map fun e => (e.1, legible e.2)).Perm
        ((extraOf raw').map fun e => (e.1, legible e.2)) :=
  legible_obj_eq_iff (assign_ownOrder _) (assign_ownOrder _)

/-- The object of which the identity is the canonical text. -/
def identityMembers (role : JsText) (normalized : JsValue N.Num)
    (extra : List (JsText × JsValue N.Num)) : List (JsText × JsValue N.Num) :=
  (js "role", .str role) :: (js "content", normalized) :: extra

theorem identityMembers_names (role : JsText) (normalized : JsValue N.Num)
    (raw : List (JsText × JsValue N.Num)) :
    ((identityMembers role normalized (extraOf raw)).map Prod.fst).Nodup := by
  have hnames : ((extraOf raw).map Prod.fst).Nodup := (assign_ownOrder _).names
  have hne : js "role" ≠ js "content" := by decide
  have hnot : ∀ key, key ∈ (extraOf raw).map Prod.fst → key ≠ js "role" ∧ key ≠ js "content" := by
    intro key hkey
    obtain ⟨e, he, rfl⟩ := List.mem_map.mp hkey
    exact extraOf_names he
  rw [identityMembers, List.map_cons, List.map_cons, List.nodup_cons, List.nodup_cons, List.mem_cons]
  exact ⟨not_or.mpr ⟨hne, fun h => (hnot _ h).1 rfl⟩, fun h => (hnot _ h).2 rfl, hnames⟩

theorem native_identity {raw : List (JsText × JsValue N.Num)} {normalized : JsValue N.Num}
    (role : JsText) (hraw : NativeFields raw) (h : Native normalized) :
    Native (.obj (assign (identityMembers role normalized (extraOf raw)))) := by
  have hextra := native_extraOf hraw
  rw [Native] at hextra
  refine native_assign ?_
  simp only [identityMembers, NativeFields, NativeField]
  exact ⟨by simp [Native], h, hextra.2⟩

/-- An identity tells the role, what is written of the content, and what is written of the rest. -/
theorem identity_eq_iff (laws : N.Lawful) {raw raw' : List (JsText × JsValue N.Num)}
    (hraw : NativeFields raw) (hraw' : NativeFields raw') {role role' : JsText}
    {normalized normalized' : JsValue N.Num} (h : Native normalized) (h' : Native normalized') :
    canonical N (.obj (assign (identityMembers role normalized (extraOf raw)))) =
        canonical N (.obj (assign (identityMembers role' normalized' (extraOf raw')))) ↔
      role = role' ∧ legible normalized = legible normalized' ∧
        legible (.obj (extraOf raw)) = legible (.obj (extraOf raw')) := by
  have hnames := identityMembers_names role normalized raw
  have hnames' := identityMembers_names role' normalized' raw'
  have hrole : legible (.str role : JsValue N.Num) = .str role := rfl
  have hrole' : legible (.str role' : JsValue N.Num) = .str role' := rfl
  rw [canonical, canonical, stringify_sortKeys_eq_iff laws (native_identity role hraw h)
    (native_identity role' hraw' h'), legible_assign_eq_iff hnames hnames', legible_extraOf]
  rw [identityMembers, List.map_cons, List.map_cons, List.nodup_cons, List.nodup_cons] at hnames'
  rw [identityMembers, identityMembers, List.map_cons, List.map_cons, List.map_cons, List.map_cons,
    cons_perm_cons_iff, cons_perm_cons_iff, hrole, hrole', JsValue.str.injEq]
  · rw [List.map_map]
    exact hnames'.2.1
  · rw [List.map_cons, List.map_map]
    exact hnames'.1

theorem message_eq_some {print : JsValue N.Num → JsText} {value : JsValue N.Num} {fallback : JsText}
    {m : BuiltMessage} (h : message N print value fallback = some m) :
    ∃ content normalized,
      displayContent N print ((rawOf value fallback).lookup (js "content")) = some content ∧
      normalizedContent N ((rawOf value fallback).lookup (js "content")) = some normalized ∧
      m.role = roleOf (rawOf value fallback) fallback ∧
      m.identity = canonical N (.obj (assign (identityMembers (roleOf (rawOf value fallback) fallback)
        normalized (extraOf (rawOf value fallback))))) := by
  simp only [message, Option.bind_eq_bind, Option.bind_eq_some_iff] at h
  obtain ⟨content, hcontent, normalized, hnormalized, hm⟩ := h
  cases hm
  exact ⟨content, normalized, hcontent, hnormalized, rfl, rfl⟩

theorem message_content {print : JsValue N.Num → JsText} {value normalized : JsValue N.Num}
    {fallback : JsText}
    (h : normalizedContent N ((rawOf value fallback).lookup (js "content")) = some normalized) :
    (message N print value fallback).map BuiltMessage.content =
      (displayContent N print ((rawOf value fallback).lookup (js "content"))).map fun content =>
        withExtra print content (extraOf (rawOf value fallback)) := by
  simp only [message, h]
  cases displayContent N print ((rawOf value fallback).lookup (js "content")) with
  | none => rfl
  | some content => rfl

theorem extraOf_eq_nil_iff {raw raw' : List (JsText × JsValue N.Num)}
    (h : legible (.obj (extraOf raw)) = legible (.obj (extraOf raw'))) :
    extraOf raw = [] ↔ extraOf raw' = [] := by
  have hlen := (legible_extraOf.mp h).length_eq
  rw [List.length_map, List.length_map] at hlen
  rw [← List.length_eq_zero_iff, ← List.length_eq_zero_iff, hlen]

theorem withExtra_eq {raw raw' : List (JsText × JsValue N.Num)}
    (h : legible (.obj (extraOf raw)) = legible (.obj (extraOf raw'))) (content : JsText) :
    withExtra (fun v => prettify N 0 (sortKeys v)) content (extraOf raw) =
      withExtra (fun v => prettify N 0 (sortKeys v)) content (extraOf raw') := by
  have hnil := extraOf_eq_nil_iff h
  have hprint := prettify_sortKeys N h 0
  simp only [withExtra, hnil, hprint]

/-- A content is never displayed like its absence. -/
theorem withExtra_nil {print : JsValue N.Num → JsText} {extra : List (JsText × JsValue N.Num)}
    {content : JsText} (h : withExtra print content extra = withExtra print [] extra) : content = [] := by
  by_cases hextra : extra = []
  · rwa [withExtra, if_pos hextra, withExtra, if_pos hextra] at h
  · rw [withExtra, if_neg hextra, withExtra, if_neg hextra, if_pos rfl] at h
    have hlen := congrArg List.length h
    simp only [List.length_append, List.length_nil] at hlen
    exact List.length_eq_zero_iff.mp (by omega)

theorem IsUnwritable.normalized {content : Option (JsValue N.Num)} (h : IsUnwritable content) :
    ∃ v, normalizedContent N content = some v ∧ Native v ∧ legible v = .null := by
  obtain ⟨x, rfl, hx⟩ := h
  exact ⟨.num x, rfl, by simp [Native], by rw [legible_num, hx]; rfl⟩

theorem IsUnwritable.display {content : Option (JsValue N.Num)} (h : IsUnwritable content) :
    displayContent N (prettify N 0) content = some (js "null") ∧
    displayContent N (fun v => prettify N 0 (sortKeys v)) content = some (js "null") := by
  obtain ⟨x, rfl, hx⟩ := h
  have hshow : prettify N 0 (.num x) = js "null" := by
    rw [prettify, if_neg (by rw [hx]; decide)]
  exact ⟨congrArg some hshow, congrArg some hshow⟩

theorem Clash.display_ne {value value' : JsValue N.Num} {fallback fallback' : JsText}
    (h : IsNullish ((rawOf value fallback).lookup (js "content")))
    (h' : IsUnwritable ((rawOf value' fallback').lookup (js "content")))
    (hextra : legible (.obj (extraOf (rawOf value fallback))) =
      legible (.obj (extraOf (rawOf value' fallback')))) :
    (message N (fun v => prettify N 0 (sortKeys v)) value fallback).map BuiltMessage.content ≠
      (message N (fun v => prettify N 0 (sortKeys v)) value' fallback').map BuiltMessage.content := by
  obtain ⟨v', hv', -⟩ := h'.normalized
  rw [message_content h.normalized, message_content hv', h.display, h'.display.2, Option.map_some,
    Option.map_some, withExtra_eq hextra]
  intro heq
  exact absurd (withExtra_nil (Option.some.inj heq).symm) (by decide)

/-- A message whose content is missing, or cannot be written, is built. -/
theorem exists_message {value : JsValue N.Num} {fallback : JsText}
    (h : IsNullish ((rawOf value fallback).lookup (js "content")) ∨
      IsUnwritable ((rawOf value fallback).lookup (js "content"))) :
    ∃ m normalized, message N (prettify N 0) value fallback = some m ∧ Native normalized ∧
      legible normalized = .null ∧
      m.identity = canonical N (.obj (assign (identityMembers (roleOf (rawOf value fallback) fallback)
        normalized (extraOf (rawOf value fallback))))) := by
  have hboth : ∃ content normalized,
      displayContent N (prettify N 0) ((rawOf value fallback).lookup (js "content")) = some content ∧
      normalizedContent N ((rawOf value fallback).lookup (js "content")) = some normalized ∧
      Native normalized ∧ legible normalized = .null := by
    rcases h with h | h
    · exact ⟨_, _, h.display _, h.normalized, by simp [Native], rfl⟩
    · obtain ⟨v, hv, hnative, hnull⟩ := h.normalized
      exact ⟨_, v, h.display.1, hv, hnative, hnull⟩
  obtain ⟨content, normalized, hcontent, hnormalized, hnative, hnull⟩ := hboth
  have hbuilt : message N (prettify N 0) value fallback =
      some ⟨roleOf (rawOf value fallback) fallback,
        withExtra (prettify N 0) content (extraOf (rawOf value fallback)),
        canonical N (.obj (assign (identityMembers (roleOf (rawOf value fallback) fallback) normalized
          (extraOf (rawOf value fallback)))))⟩ := by
    simp only [message, hcontent, hnormalized]
    rfl
  exact ⟨_, normalized, hbuilt, hnative, hnull, rfl⟩

theorem message_tells_iff (laws : N.Lawful) {value value' : JsValue N.Num} {fallback fallback' : JsText}
    (hraw : NativeFields (rawOf value fallback)) (hraw' : NativeFields (rawOf value' fallback')) :
    (∀ m m', message N (prettify N 0) value fallback = some m →
      message N (prettify N 0) value' fallback' = some m' → m.identity = m'.identity →
      m.role = m'.role ∧
      (message N (fun v => prettify N 0 (sortKeys v)) value fallback).map BuiltMessage.content =
        (message N (fun v => prettify N 0 (sortKeys v)) value' fallback').map BuiltMessage.content) ↔
    ¬Clash (value, fallback) (value', fallback') := by
  have hextra : Same (nulled N (.obj (extraOf (rawOf value fallback))))
      (nulled N (.obj (extraOf (rawOf value' fallback')))) ↔
      legible (.obj (extraOf (rawOf value fallback))) =
        legible (.obj (extraOf (rawOf value' fallback'))) :=
    (legible_eq_iff (native_extraOf hraw) (native_extraOf hraw')).symm
  refine ⟨fun h hclash => ?_, fun hclash m m' hm hm' hidentity => ?_⟩
  · have hsame := hextra.mp hclash.extra
    obtain ⟨m, v, hm, hv, hnull, hid⟩ := exists_message (hclash.content.imp And.left And.left)
    obtain ⟨m', v', hm', hv', hnull', hid'⟩ := exists_message (hclash.content.symm.imp And.right And.right)
    have hidentity : m.identity = m'.identity := by
      rw [hid, hid', identity_eq_iff laws hraw hraw' hv hv']
      exact ⟨hclash.role, hnull.trans hnull'.symm, hsame⟩
    have hdisplay := (h m m' hm hm' hidentity).2
    rcases hclash.content with ⟨hc, hc'⟩ | ⟨hc, hc'⟩
    · exact Clash.display_ne hc hc' hsame hdisplay
    · exact Clash.display_ne hc' hc hsame.symm hdisplay.symm
  · obtain ⟨content, v, hcontent, hv, hrole, hid⟩ := message_eq_some hm
    obtain ⟨content', v', hcontent', hv', hrole', hid'⟩ := message_eq_some hm'
    have hnative := native_content hraw
    have hnative' := native_content hraw'
    rw [hid, hid', identity_eq_iff laws hraw hraw' (native_normalizedContent hnative hv)
      (native_normalizedContent hnative' hv')] at hidentity
    obtain ⟨hroles, hlegible, hsame⟩ := hidentity
    refine ⟨hrole.trans (hroles.trans hrole'.symm), ?_⟩
    rcases displayContent_eq hnative hnative' hv hv' hlegible with hdisplay | hlost
    · rw [message_content hv, message_content hv', hdisplay]
      exact congrArg (Option.map · _) (funext (withExtra_eq hsame))
    · exact absurd ⟨hroles, hlost, hextra.mpr hsame⟩ hclash

theorem Builder.build_eq (builder : Builder) (print : JsValue N.Num → JsText) (value : JsValue N.Num)
    (fallback : JsText) : builder.build N print value fallback =
      Transcript.message N print (builder.input value fallback).1 (builder.input value fallback).2 := by
  cases builder with
  | message => rfl
  | item => rfl

theorem native_rawOf {value : JsValue N.Num} (h : Native value) (fallback : JsText) :
    NativeFields (rawOf value fallback) := by
  cases value with
  | obj fields =>
    rw [Native] at h
    exact h.2
  | _ =>
    refine nativeFields_iff.mpr fun e he => ?_
    rcases List.mem_cons.mp (mem_assign he) with rfl | hcontent
    · simp [Native]
    · rw [List.mem_singleton.mp hcontent]
      exact h

theorem native_withRole {fields : List (JsText × JsValue N.Num)} (h : Native (.obj fields))
    (role : String) : Native (withRole role fields).1 := by
  rw [Native] at h
  refine native_assign ?_
  rw [NativeFields, NativeField]
  exact ⟨by simp [Native], h.2⟩

theorem Builder.native_input (builder : Builder) {value : JsValue N.Num} (h : Native value)
    (fallback : JsText) : Native (builder.input value fallback).1 := by
  cases builder with
  | message => exact h
  | item =>
    cases value with
    | obj fields =>
      simp only [Builder.input, itemInput]
      split_ifs
      · exact native_withRole h _
      · exact native_withRole h _
      · exact native_withRole h _
      · exact native_withRole h _
      · exact h
    | _ => exact h

theorem canonical_eq_iff (laws : N.Lawful) {x y : JsValue N.Num} (hx : Native x) (hy : Native y) :
    canonical N x = canonical N y ↔ Same (nulled N x) (nulled N y) := by
  rw [canonical, canonical, stringify_sortKeys_eq_iff laws hx hy, legible_eq_iff hx hy]

/-- An identity tells a message from every other, but for one without a content and one whose content is
    a number that JSON cannot write; and the canonical text tells a value from every other up to the order
    of properties, but for one in which such numbers are `null`. -/
theorem identities_tell_iff (laws : N.Lawful) (builder builder' : Builder) {a b x y : JsValue N.Num}
    (ha : Parsed N a) (hb : Parsed N b) (hx : Parsed N x) (hy : Parsed N y) (fallback fallback' : JsText) :
    (IdentityTells N builder builder' a b fallback fallback' ↔
      ¬Clash (builder.input a fallback) (builder'.input b fallback')) ∧
    ((canonical N x = canonical N y ↔ Same x y) ↔
      ¬(Same (nulled N x) (nulled N y) ∧ ¬Same x y)) := by
  obtain ⟨_, ha⟩ := ha
  obtain ⟨_, hb⟩ := hb
  obtain ⟨_, hx⟩ := hx
  obtain ⟨_, hy⟩ := hy
  have hraw := native_rawOf (builder.native_input (native_of_jsonParse ha) fallback)
    (builder.input a fallback).2
  have hraw' := native_rawOf (builder'.native_input (native_of_jsonParse hb) fallback')
    (builder'.input b fallback').2
  have hx := native_of_jsonParse hx
  have hy := native_of_jsonParse hy
  refine ⟨?_, ?_⟩
  · simp only [IdentityTells, sortedDisplay, Builder.build_eq]
    exact message_tells_iff laws hraw hraw'
  · rw [canonical_eq_iff laws hx hy]
    have hkeeps : Same x y → Same (nulled N x) (nulled N y) := Same.nulled hx hy
    tauto

end

/-! ### An instance -/

section
variable {N : JsNumbers}

/-- A value whose numbers JSON can write is what its own text is parsed to. -/
theorem parsed_of_native (laws : N.Lawful) {v : JsValue N.Num} (h : Native v) (hfinite : nulled N v = v) :
    Parsed N v :=
  ⟨stringify N v, (jsonParse_stringify laws h).trans (congrArg some hfinite)⟩

theorem bareRaw_content (v : JsValue N.Num) (fallback : JsText) :
    (bareRaw v fallback).lookup (js "content") = some v := by
  rw [bareRaw, assign, List.foldl_cons, List.foldl_cons, List.foldl_nil, lookup_setField, if_pos rfl]

theorem bareRaw_role (v : JsValue N.Num) (fallback : JsText) :
    roleOf (bareRaw v fallback) fallback = fallback := by
  have hne : js "role" ≠ js "content" := by decide
  have hrole : (bareRaw v fallback).lookup (js "role") = some (.str fallback) := by
    rw [bareRaw, assign, List.foldl_cons, List.foldl_cons, List.foldl_nil, lookup_setField, if_neg hne,
      lookup_setField, if_pos rfl]
  rw [roleOf, hrole]

theorem bareRaw_extra (v : JsValue N.Num) (fallback : JsText) : extraOf (bareRaw v fallback) = [] := by
  have hnone : (bareRaw v fallback).filter isExtra = [] := by
    refine List.filter_eq_nil_iff.mpr fun e he => ?_
    rcases List.mem_cons.mp (mem_assign he) with rfl | hcontent
    · simp [isExtra]
    · rw [List.mem_singleton.mp hcontent]
      simp [isExtra]
  rw [extraOf, hnone]
  rfl

theorem message_bare {print : JsValue N.Num → JsText} {v normalized : JsValue N.Num}
    {fallback text : JsText} (hbare : rawOf v fallback = bareRaw v fallback)
    (hnormalized : normalizedContent N (some v) = some normalized)
    (hshow : displayContent N print (some v) = some text) :
    (message N print v fallback).map BuiltMessage.content = some text := by
  have hcontent : (rawOf v fallback).lookup (js "content") = some v := by
    rw [hbare, bareRaw_content]
  rw [message_content (hcontent ▸ hnormalized), hcontent, hshow, Option.map_some, hbare, bareRaw_extra,
    withExtra, if_pos rfl]

end

/-- Whole numbers, and one that is too large. -/
def farNumbers : JsNumbers where
  Num := Option ℤ
  ofText text := if 101 ∈ text then none else some (QueryText.wholeNumbers.ofText text)
  text x := x.elim (js "Infinity") fun n => js (toString n)
  isFinite := Option.isSome
  whole := id

theorem farNumbers_ofText (n : ℤ) : farNumbers.ofText (js (toString n)) = some n := by
  have hplain : 101 ∉ js (toString n) := by
    cases n with
    | ofNat k =>
      have htext : js (toString (Int.ofNat k)) = decimal k := js_toString_nat k
      rw [htext]
      exact fun h => absurd (digit_of_mem_decimal h) (by decide)
    | negSucc k =>
      rw [js_toString_negSucc, List.mem_cons, not_or]
      exact ⟨by decide, fun h => absurd (digit_of_mem_decimal h) (by decide)⟩
  have htext : QueryText.wholeNumbers.ofText (js (toString n)) = n := QueryText.ofText_text n
  change (if 101 ∈ js (toString n) then none else some (QueryText.wholeNumbers.ofText _)) = some n
  rw [if_neg hplain, htext]
  rfl

theorem farNumbers_lawful : farNumbers.Lawful where
  finite_of_whole {x n} h := by
    cases x with
    | none => cases h
    | some m => rfl
  numeral {x} h := by
    cases x with
    | none => cases h
    | some n => exact numeral_toString n
  ofText_text {x} h := by
    cases x with
    | none => cases h
    | some n => exact farNumbers_ofText n
  whole_ofText {n} _ := farNumbers_ofText n
  text_whole {x n} h _ := by
    cases h
    rfl

/-- A text part, a field that says nothing and a field of its own. -/
def partsMessage : JsValue farNumbers.Num := .obj (assign [
  (js "role", .str (js "assistant")),
  (js "content", .arr [.obj (assign [
    (js "text", .str (js "hi")),
    (js "type", .str (js "output_text"))])]),
  (js "refusal", .null),
  (js "id", .num (some 7))])

/-- The same message with its content as a text. -/
def textMessage : JsValue farNumbers.Num := .obj (assign [
  (js "id", .num (some 7)),
  (js "content", .str (js "hi")),
  (js "role", .str (js "assistant"))])

theorem partsMessage_parsed : Parsed farNumbers partsMessage :=
  parsed_of_native farNumbers_lawful
    (native_assign ⟨trivial, ⟨native_assign ⟨trivial, trivial, trivial⟩, trivial⟩, trivial, trivial, trivial⟩)
    rfl

theorem textMessage_parsed : Parsed farNumbers textMessage :=
  parsed_of_native farNumbers_lawful (native_assign ⟨trivial, trivial, trivial, trivial⟩) rfl

/-- The two messages have one identity; `1` and `2` are written differently. -/
theorem identities_tell_iff_parts :
    (message farNumbers (prettify farNumbers 0) partsMessage (js "user")).map BuiltMessage.identity =
      (item farNumbers (prettify farNumbers 0) textMessage (js "user")).map BuiltMessage.identity ∧
    IdentityTells farNumbers .message .item partsMessage textMessage (js "user") (js "user") ∧
    (canonical farNumbers (.num (some 1)) = canonical farNumbers (.num (some 2)) ↔
      Same (.num (some 1) : JsValue farNumbers.Num) (.num (some 2))) := by
  have hone : Parsed farNumbers (.num (some 1)) := ⟨js "1", rfl⟩
  have htwo : Parsed farNumbers (.num (some 2)) := ⟨js "2", rfl⟩
  have htell := identities_tell_iff farNumbers_lawful .message .item partsMessage_parsed
    textMessage_parsed hone htwo (js "user") (js "user")
  have hparts : ∃ parts, (rawOf partsMessage (js "user")).lookup (js "content") = some (.arr parts) :=
    ⟨_, rfl⟩
  have htext : (rawOf (itemInput textMessage (js "user")).1 (js "user")).lookup (js "content") =
      some (.str (js "hi")) := rfl
  refine ⟨by decide +kernel, htell.1.mpr fun hclash => ?_, htell.2.mpr fun hlost => hlost.2 hlost.1⟩
  obtain ⟨parts, hparts⟩ := hparts
  rcases hclash.content with ⟨-, x, hx, -⟩ | ⟨⟨x, hx, -⟩, -⟩
  · cases htext.symm.trans hx
  · cases hparts.symm.trans hx

/-- `JSON.parse("1e400")` is too large to be written: its canonical text is that of `null`, and a message
    that is this number is taken for one without a content, though one is displayed as `null` and the
    other as nothing. -/
theorem overflow_taken_for_null :
    jsonParse farNumbers (js "1e400") = some (.num none) ∧ jsonParse farNumbers (js "null") = some .null ∧
    ¬IdentityTells farNumbers .message .message (.num none) .null (js "user") (js "user") ∧
    ¬(canonical farNumbers (.num none) = canonical farNumbers .null ↔
      Same (.num none : JsValue farNumbers.Num) .null) ∧
    (message farNumbers (prettify farNumbers 0) (.num none) (js "user")).map BuiltMessage.content =
      some (js "null") ∧
    (message farNumbers (prettify farNumbers 0) .null (js "user")).map BuiltMessage.content = some [] := by
  have hnative : Native (.num none : JsValue farNumbers.Num) := trivial
  have hnative' : Native (.null : JsValue farNumbers.Num) := trivial
  have hfar : IsUnwritable ((rawOf (.num none : JsValue farNumbers.Num) (js "user")).lookup (js "content")) :=
    ⟨none, bareRaw_content _ _, rfl⟩
  have hnull : IsNullish ((rawOf (.null : JsValue farNumbers.Num) (js "user")).lookup (js "content")) :=
    .inr (bareRaw_content _ _)
  have hclash : Clash ((.num none : JsValue farNumbers.Num), js "user") (.null, js "user") := {
    role := (bareRaw_role _ _).trans (bareRaw_role _ _).symm
    content := .inr ⟨hfar, hnull⟩
    extra := by
      have hextra : extraOf (rawOf (.num none : JsValue farNumbers.Num) (js "user")) =
          extraOf (rawOf (.null : JsValue farNumbers.Num) (js "user")) :=
        (bareRaw_extra _ _).trans (bareRaw_extra _ _).symm
      rw [hextra, ← legible_eq_iff (native_extraOf (native_rawOf hnative' _))
        (native_extraOf (native_rawOf hnative' _))] }
  refine ⟨rfl, rfl, fun htells => ?_, fun hiff => ?_, ?_, ?_⟩
  · exact (message_tells_iff farNumbers_lawful (native_rawOf hnative _) (native_rawOf hnative' _)).mp
      htells hclash
  · have hsame : Same (.num none : JsValue farNumbers.Num) .null := hiff.mp rfl
    simp [Same] at hsame
  · exact message_bare rfl rfl rfl
  · exact message_bare rfl rfl rfl

end Llmtrace.Transcript
