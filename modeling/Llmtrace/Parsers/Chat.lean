import Llmtrace.Parsers.Assembly

/-! Chat completions as they are streamed. A chunk says, for each of its choices, a piece of the content
    and fragments of tool calls; fields that are missing or `null` say nothing, and further fields are
    allowed. Read from such chunks, a call is the fold of its own fragments and the text is the content
    of choice 0, piece by piece. -/

namespace Llmtrace.Parsers
open Schemes ResponseParser

/-! ### Fields -/

/-- The value of a field, `null` counting as nothing. -/
def present (v : Json) (key : String) : Option Json := (v.get key).filter fun x => !x.isNull

/-- The field is the text, or says nothing where there is none. -/
def HasText (v : Json) (key : String) (text : Option String) : Prop := present v key = text.map .str

/-- The field is the index; zero may be left out. -/
def HasIndex (v : Json) (key : String) (n : ℕ) : Prop :=
  present v key = some (.int n) ∧ n < 2 ^ 63 ∨ present v key = none ∧ n = 0

/-- The field is a list of such items; an empty one may be left out. -/
def HasItems {α : Type*} (R : Json → α → Prop) (v : Json) (key : String) (xs : List α) : Prop :=
  (∃ items, present v key = some (.arr items) ∧ List.Forall₂ R items xs) ∨
    present v key = none ∧ xs = []

theorem field_of_present {v x : Json} {key : String} (h : present v key = some x) : v.field key = x := by
  rw [present, Option.filter_eq_some_iff] at h
  rw [Json.field, h.1, Option.getD_some]

theorem get_of_present {v x : Json} {key : String} (h : present v key = some x) : v.get key = some x := by
  rw [present, Option.filter_eq_some_iff] at h
  exact h.1

theorem field_of_absent {v : Json} {key : String} (h : present v key = none) : v.field key = .null := by
  rw [present, Option.filter_eq_none_iff] at h
  cases hget : v.get key with
  | none => rw [Json.field, hget, Option.getD_none]
  | some x =>
    have := h x hget
    cases x <;> simp_all [Json.isNull, Json.field]

/-- A reading that ignores `null` does not tell a missing field from `null`. -/
theorem bind_eq_field {β : Type*} {v : Json} {key : String} {f : Json → Option β}
    (h : f .null = none) : (v.get key).bind f = f (v.field key) := by
  cases hget : v.get key with
  | none => rw [Json.field, hget, Option.getD_none, h, Option.bind_none]
  | some x => rw [Json.field, hget, Option.getD_some, Option.bind_some]

theorem HasText.field {v : Json} {key : String} {text : Option String} (h : HasText v key text) :
    (v.field key).asStr = text := by
  cases text with
  | none => rw [field_of_absent h]; rfl
  | some text => rw [field_of_present h]; rfl

theorem HasText.get {v : Json} {key : String} {text : Option String} (h : HasText v key text) :
    (v.get key).bind Json.asStr = text := by
  rw [bind_eq_field rfl, h.field]

theorem HasIndex.indexOf {v : Json} {key : String} {n : ℕ} (h : HasIndex v key n) :
    indexOf v key = n := by
  rcases h with ⟨h, hn⟩ | ⟨h, rfl⟩
  · rw [ResponseParser.indexOf, field_of_present h, Json.asI64, if_pos (by constructor <;> omega)]
    rfl
  · rw [ResponseParser.indexOf, field_of_absent h]
    rfl

theorem HasItems.field {α : Type*} {R : Json → α → Prop} {v : Json} {key : String} {xs : List α}
    (h : HasItems R v key xs) : List.Forall₂ R ((v.field key).asArray.getD []) xs := by
  rcases h with ⟨items, h, hall⟩ | ⟨h, rfl⟩
  · rw [field_of_present h]
    exact hall
  · rw [field_of_absent h]
    exact .nil

theorem HasItems.get {α : Type*} {R : Json → α → Prop} {v : Json} {key : String} {xs : List α}
    (h : HasItems R v key xs) : List.Forall₂ R (((v.get key).bind Json.asArray).getD []) xs := by
  rw [bind_eq_field rfl]
  exact h.field

/-! ### Chunks -/

/-- A fragment of a call. -/
structure ToolDelta where
  index : ℕ
  id : Option String
  name : Option String
  arguments : Option String

/-- What a chunk says about a choice. -/
structure ChoiceDelta where
  index : ℕ
  content : Option String
  tools : List ToolDelta

/-- A value is the fragment of a call. -/
structure IsToolDelta (v : Json) (d : ToolDelta) : Prop where
  index : HasIndex v "index" d.index
  id : HasText v "id" d.id
  name : HasText (v.field "function") "name" d.name
  arguments : HasText (v.field "function") "arguments" d.arguments
  -- fields of other formats
  no_call_id : v.get "call_id" = none
  no_name : v.get "name" = none
  no_arguments : v.get "arguments" = none
  no_input : v.get "input" = none

/-- A value is a choice of a chunk. -/
structure IsChoiceDelta (v : Json) (d : ChoiceDelta) : Prop where
  index : HasIndex v "index" d.index
  content : HasText (v.field "delta") "content" d.content
  tools : HasItems IsToolDelta (v.field "delta") "tool_calls" d.tools

/-- A value is a chunk of a chat stream. -/
structure IsChatChunk (v : Json) (chunk : List ChoiceDelta) : Prop where
  no_type : HasText v "type" none
  choices : HasItems IsChoiceDelta v "choices" chunk

/-- The chunks of a stream, its events without JSON left out. -/
def Carries {α : Type*} (R : Json → α → Prop) (events : List (SseEvent × ℕ)) (xs : List α) : Prop :=
  List.Forall₂ R (events.filterMap eventJson) xs

/-- The fragments by choice and index. -/
def ChoiceDelta.fragments (d : ChoiceDelta) : List ((ℕ × ℕ) × ToolDelta) :=
  d.tools.map fun t => ((d.index, t.index), t)

/-- The fragments of a stream by choice and index. -/
def streamFragments (stream : List (List ChoiceDelta)) : List ((ℕ × ℕ) × ToolDelta) :=
  stream.flatten.flatMap ChoiceDelta.fragments

/-- The pieces of a choice's content. -/
def contentDeltas (stream : List (List ChoiceDelta)) (choice : ℕ) : List String :=
  stream.flatten.filterMap fun d => if d.index = choice then d.content else none

/-! ### What the server makes of the fragments -/

/-- A call with one more fragment. -/
def ToolDelta.absorb (tool : ToolCall) (d : ToolDelta) : ToolCall :=
  ⟨d.id.getD tool.id, tool.name ++ d.name.getD "", tool.arguments ++ d.arguments.getD ""⟩

/-- No field is longer than the preview. -/
structure Fits (fragments : List ToolDelta) : Prop where
  id : ∀ d ∈ fragments, ∀ id ∈ d.id, utf8Len id.toList ≤ maxToolTextBytes
  name : utf8Len (joinTexts (fragments.filterMap ToolDelta.name)).toList ≤ maxToolTextBytes
  arguments : utf8Len (joinTexts (fragments.filterMap ToolDelta.arguments)).toList ≤ maxToolTextBytes

theorem fits_nil : Fits [] := ⟨by simp, by decide, by decide⟩

theorem appendBounded_of_le {target value : String} {truncated : Bool}
    (h : utf8Len (target ++ value).toList ≤ maxToolTextBytes) :
    (appendBounded target value truncated).1 = target ++ value := by
  rw [String.toList_append, utf8Len_append] at h
  simp only [appendBounded]
  rw [truncateUtf8_of_le (by omega), String.ofList_toList]

theorem bounded_of_le {value : String} {truncated : Bool}
    (h : utf8Len value.toList ≤ maxToolTextBytes) : (bounded value truncated).1 = value := by
  have happend : (appendBounded "" value truncated).1 = "" ++ value :=
    appendBounded_of_le (by simpa using h)
  rw [bounded, happend, String.empty_append]

section
variable (serialize : Json → String)

theorem mergeId_of_isToolDelta {v : Json} {d : ToolDelta} (hd : IsToolDelta v d) (tool : ToolCall)
    (hid : ∀ id ∈ d.id, utf8Len id.toList ≤ maxToolTextBytes) :
    (mergeId tool v false).1 = d.id.getD tool.id := by
  rw [mergeId, hd.no_call_id, Option.none_or, hd.id.get]
  cases h : d.id with
  | none => rfl
  | some id => exact bounded_of_le (hid id h)

/-- Name and arguments are looked up in the function, or in the fragment when there is none. -/
theorem get_function {v : Json} {key : String} {text : Option String} (hkey : v.get key = none)
    (h : HasText (v.field "function") key text) :
    (((v.get "function").getD v).get key).bind Json.asStr = text := by
  have htext := h.get
  cases hf : v.get "function" with
  | none =>
    rw [Option.getD_none, hkey]
    rwa [Json.field, hf] at htext
  | some f => rwa [Json.field, hf] at htext

theorem merged_of_isToolDelta {v : Json} {d : ToolDelta} (hd : IsToolDelta v d) (tool : ToolCall)
    (hid : ∀ id ∈ d.id, utf8Len id.toList ≤ maxToolTextBytes)
    (hname : utf8Len (tool.name ++ d.name.getD "").toList ≤ maxToolTextBytes)
    (harguments : utf8Len (tool.arguments ++ d.arguments.getD "").toList ≤ maxToolTextBytes) :
    merged serialize true tool v = d.absorb tool := by
  have hn : (mergeName true tool ((v.get "function").getD v) false).1 =
      tool.name ++ d.name.getD "" := by
    rw [mergeName, get_function hd.no_name hd.name]
    cases h : d.name with
    | none => simp
    | some name =>
      rw [h] at hname
      exact appendBounded_of_le hname
  have ha : (mergeArguments serialize true tool ((v.get "function").getD v) v false).1 =
      tool.arguments ++ d.arguments.getD "" := by
    rw [mergeArguments, get_function hd.no_arguments hd.arguments]
    cases h : d.arguments with
    | none => simp [hd.no_input]
    | some arguments =>
      rw [h] at harguments
      exact appendBounded_of_le harguments
  rw [merged_eq, mergeId_of_isToolDelta hd tool hid, hn, ha]
  rfl

/-- Fragments that go on from `tool` stay within the preview. -/
structure FitsAfter (tool : ToolCall) (fragments : List ToolDelta) : Prop where
  id : ∀ d ∈ fragments, ∀ id ∈ d.id, utf8Len id.toList ≤ maxToolTextBytes
  name :
    utf8Len (tool.name ++ joinTexts (fragments.filterMap ToolDelta.name)).toList ≤ maxToolTextBytes
  arguments :
    utf8Len (tool.arguments ++ joinTexts (fragments.filterMap ToolDelta.arguments)).toList ≤
      maxToolTextBytes

theorem joinTexts_filterMap_cons {α : Type*} (f : α → Option String) (x : α) (xs : List α) :
    joinTexts ((x :: xs).filterMap f) = (f x).getD "" ++ joinTexts (xs.filterMap f) := by
  cases h : f x with
  | none => rw [List.filterMap_cons_none h, Option.getD_none, String.empty_append]
  | some text => rw [List.filterMap_cons_some h, Option.getD_some, joinTexts_cons]

theorem Fits.after {fragments : List ToolDelta} (h : Fits fragments) : FitsAfter {} fragments :=
  ⟨h.id, by simpa using h.name, by simpa using h.arguments⟩

theorem FitsAfter.head {tool : ToolCall} {d : ToolDelta} {ds : List ToolDelta}
    (h : FitsAfter tool (d :: ds)) :
    utf8Len (tool.name ++ d.name.getD "").toList ≤ maxToolTextBytes ∧
      utf8Len (tool.arguments ++ d.arguments.getD "").toList ≤ maxToolTextBytes := by
  have hn := h.name
  have ha := h.arguments
  rw [joinTexts_filterMap_cons, ← String.append_assoc, String.toList_append, utf8Len_append] at hn ha
  omega

theorem FitsAfter.tail {tool : ToolCall} {d : ToolDelta} {ds : List ToolDelta}
    (h : FitsAfter tool (d :: ds)) : FitsAfter (d.absorb tool) ds where
  id x hx := h.id x (List.mem_cons_of_mem _ hx)
  name := by
    have hn := h.name
    rwa [joinTexts_filterMap_cons, ← String.append_assoc] at hn
  arguments := by
    have ha := h.arguments
    rwa [joinTexts_filterMap_cons, ← String.append_assoc] at ha

theorem mergedAll_some : ∀ {vs : List Json} {ds : List ToolDelta} {tool : ToolCall},
    List.Forall₂ IsToolDelta vs ds → FitsAfter tool ds →
    mergedAll serialize true vs (some tool) = some (ds.foldl ToolDelta.absorb tool)
  | _, _, _, .nil, _ => rfl
  | v :: vs, d :: ds, tool, .cons hd hall, hfits => by
      obtain ⟨hname, harguments⟩ := hfits.head
      have hfirst := merged_of_isToolDelta serialize hd tool (hfits.id d List.mem_cons_self) hname
        harguments
      rw [mergedAll, List.foldl_cons, Option.getD_some, hfirst]
      exact mergedAll_some hall hfits.tail

/-- A call that starts with the first of its fragments. -/
theorem mergedAll_none {vs : List Json} {ds : List ToolDelta} (hall : List.Forall₂ IsToolDelta vs ds)
    (hfits : Fits ds) : mergedAll serialize true vs none =
      if ds = [] then none else some (ds.foldl ToolDelta.absorb {}) := by
  cases hall with
  | nil => rfl
  | cons hd hall => exact mergedAll_some serialize (.cons hd hall) hfits.after

end

/-! ### The fields of a call -/

theorem foldl_absorb_name : ∀ (ds : List ToolDelta) (tool : ToolCall),
    (ds.foldl ToolDelta.absorb tool).name = tool.name ++ joinTexts (ds.filterMap ToolDelta.name)
  | [], tool => by simp
  | d :: ds, tool => by
      rw [List.foldl_cons, foldl_absorb_name ds, joinTexts_filterMap_cons, ← String.append_assoc]
      rfl

theorem foldl_absorb_arguments : ∀ (ds : List ToolDelta) (tool : ToolCall),
    (ds.foldl ToolDelta.absorb tool).arguments =
      tool.arguments ++ joinTexts (ds.filterMap ToolDelta.arguments)
  | [], tool => by simp
  | d :: ds, tool => by
      rw [List.foldl_cons, foldl_absorb_arguments ds, joinTexts_filterMap_cons, ← String.append_assoc]
      rfl

/-- The last id counts. -/
theorem foldl_absorb_id : ∀ (ds : List ToolDelta) (tool : ToolCall),
    (ds.foldl ToolDelta.absorb tool).id = (ds.filterMap ToolDelta.id).getLast?.getD tool.id
  | [], _ => rfl
  | d :: ds, tool => by
      rw [List.foldl_cons, foldl_absorb_id ds]
      cases h : d.id with
      | none => rw [List.filterMap_cons_none h, ToolDelta.absorb, h, Option.getD_none]
      | some id =>
        rw [List.filterMap_cons_some h, List.getLast?_cons, ToolDelta.absorb, h, Option.getD_some,
          Option.getD_some]

/-! ### A stream of chunks -/

theorem colon_notMem_repr (n : ℕ) : ':' ∉ (Nat.repr n).toList := by
  intro h
  rw [Nat.toList_repr] at h
  have hdigit := Nat.isDigit_of_mem_toDigits (by decide) (by decide) h
  exact absurd hdigit (by decide)

/-- The key of a call by its place. -/
def callKey (place : ℕ × ℕ) : String := chatKey place.1 place.2

theorem toList_callKey (place : ℕ × ℕ) :
    (callKey place).toList =
      "chat:".toList ++ (place.1.repr.toList ++ ':' :: place.2.repr.toList) := by
  simp only [callKey, chatKey, String.toList_append]
  rfl

theorem callKey_injective : Function.Injective callKey := by
  rintro ⟨c, i⟩ ⟨c', i'⟩ h
  have hlist := congrArg String.toList h
  rw [toList_callKey, toList_callKey, List.append_cancel_left_eq] at hlist
  obtain ⟨hc, -, hi⟩ :=
    (List.append_cons_inj_of_notMem (colon_notMem_repr c) (colon_notMem_repr i)).mp hlist
  rw [Nat.repr_injective (String.toList_injective hc), Nat.repr_injective (String.toList_injective hi)]

theorem IsChatChunk.eventType {v : Json} {chunk : List ChoiceDelta} (h : IsChatChunk v chunk) :
    eventType v = .other := by
  rw [ResponseParser.eventType, h.no_type.field]
  rfl

theorem IsChoiceDelta.choiceTools {v : Json} {d : ChoiceDelta} (h : IsChoiceDelta v d) :
    List.Forall₂ (fun e e' => e.1 = callKey e'.1 ∧ IsToolDelta e.2 e'.2) (choiceTools v)
      d.fragments := by
  rw [ResponseParser.choiceTools, ChoiceDelta.fragments, h.index.indexOf, List.forall₂_map_left_iff,
    List.forall₂_map_right_iff]
  refine h.tools.field.imp fun tool t ht => ⟨?_, ht⟩
  rw [ht.index.indexOf, callKey]

theorem IsChoiceDelta.choicePieces {v : Json} {d : ChoiceDelta} (h : IsChoiceDelta v d) :
    choicePieces v = deltaPieces (textKey 0 0) (if d.index = 0 then d.content else none) := by
  rw [ResponseParser.choicePieces, h.index.indexOf, h.content.field]
  by_cases hzero : d.index = 0
  · rw [if_pos hzero, if_pos (by exact_mod_cast hzero)]
  · rw [if_neg hzero, if_neg (by exact_mod_cast hzero)]
    rfl

/-- The fragments of a stream, with the values that carry them. -/
theorem Carries.fragments {events : List (SseEvent × ℕ)} {stream : List (List ChoiceDelta)}
    (h : Carries IsChatChunk events stream) :
    List.Forall₂ (fun e e' => e.1 = callKey e'.1 ∧ IsToolDelta e.2 e'.2)
      ((events.filterMap eventJson).flatMap eventTools) (streamFragments stream) := by
  rw [streamFragments, List.flatten_eq_flatMap, List.flatMap_assoc]
  refine List.rel_flatMap h fun v chunk hv => ?_
  exact List.rel_flatMap hv.choices.get fun choice d hd => hd.choiceTools

theorem flatMap_deltaPieces {α : Type*} (key : TextKey) (f : α → Option String) :
    ∀ xs : List α, (xs.flatMap fun x => deltaPieces key (f x)) =
      (xs.filterMap f).map fun text => (key, .delta text)
  | [] => rfl
  | x :: xs => by
      rw [List.flatMap_cons, flatMap_deltaPieces key f xs]
      cases h : f x with
      | none => rw [List.filterMap_cons_none h]; rfl
      | some text => rw [List.filterMap_cons_some h]; rfl

theorem IsChatChunk.eventPieces {v : Json} {chunk : List ChoiceDelta} (h : IsChatChunk v chunk) :
    eventPieces v =
      chunk.flatMap fun d => deltaPieces (textKey 0 0) (if d.index = 0 then d.content else none) := by
  have htyped : typedPieces v = [] := by
    rw [typedPieces, h.eventType]
  rw [ResponseParser.eventPieces, htyped, List.nil_append]
  exact flatMap_eq_of_forall₂ (fun _ _ hd => hd.choicePieces) h.choices.get

theorem Carries.pieces {events : List (SseEvent × ℕ)} {stream : List (List ChoiceDelta)}
    (h : Carries IsChatChunk events stream) :
    (events.filterMap eventJson).flatMap eventPieces =
      (contentDeltas stream 0).map fun text => (textKey 0 0, .delta text) := by
  rw [contentDeltas, ← flatMap_deltaPieces, List.flatten_eq_flatMap, List.flatMap_assoc]
  exact flatMap_eq_of_forall₂ (fun _ _ hv => hv.eventPieces) h

theorem Carries.other {events : List (SseEvent × ℕ)} {stream : List (List ChoiceDelta)}
    (h : Carries IsChatChunk events stream) :
    ∀ value ∈ events.filterMap eventJson, eventType value = .other := by
  intro value hvalue
  obtain ⟨chunk, -, hchunk⟩ := mem_left_of_forall₂ h hvalue
  exact hchunk.eventType

section
variable (serialize : Json → String)

/-- The text read from a stream of chunks. -/
theorem parseStream_text {kind : RequestKind} {events : List (SseEvent × ℕ)}
    {stream : List (List ChoiceDelta)} (h : Carries IsChatChunk events stream) :
    (parseStream serialize kind events).text = joinTexts (contentDeltas stream 0) := by
  have hother : ∀ v ∈ events.filterMap eventJson, eventType v ≠ .responseFinal := by
    intro v hv
    rw [h.other v hv]
    decide
  have htexts : (events.foldl (streamEvent serialize) { kind }).texts =
      (((contentDeltas stream 0).map fun text => ((0, 0), Piece.delta text)).map
        fun e => (placeKey e.1, e.2)).foldl addPiece .empty := by
    rw [stream_texts serialize events _ hother, h.pieces, List.map_map]
    rfl
  show joinTexts (events.foldl (streamEvent serialize) { kind }).texts.values = _
  have hplaces : ∀ place, ((fetchAll place
      ((contentDeltas stream 0).map fun text => ((0, 0), Piece.delta text))).foldl pieced none).getD "" =
        (textAt [[joinTexts (contentDeltas stream 0)]] place).getD "" := by
    rintro ⟨i, j⟩
    by_cases hplace : (i, j) = (0, 0)
    · cases hplace
      rw [fetchAll_const, foldl_pieced_deltas]
      simp [textAt]
    · rw [fetchAll_eq_nil]
      · cases i <;> cases j <;> simp_all [textAt]
      · intro e he heq
        obtain ⟨text, -, rfl⟩ := List.mem_map.mp he
        exact hplace heq.symm
  rw [htexts, joinTexts_pieces hplaces]
  simp

/-- The call at a place of a stream of chunks, with at most `maxTools` places. -/
theorem stream_get {kind : RequestKind} {events : List (SseEvent × ℕ)}
    {stream : List (List ChoiceDelta)} (h : Carries IsChatChunk events stream)
    {places : List (ℕ × ℕ)} (hlen : places.length ≤ maxTools)
    (hplaces : ∀ e ∈ streamFragments stream, e.1 ∈ places) (place : ℕ × ℕ)
    (hfits : Fits (fetchAll place (streamFragments stream))) :
    (events.foldl (streamEvent serialize) { kind }).tools.get (callKey place) =
      if fetchAll place (streamFragments stream) = [] then none
      else some ((fetchAll place (streamFragments stream)).foldl ToolDelta.absorb {}) := by
  have hks : (places.map callKey).length ≤ maxTools := by simpa using hlen
  rw [stream_tools serialize events _ h.other, get_addTools serialize hks]
  · exact mergedAll_none serialize (forall₂_fetchAll callKey_injective place h.fragments) hfits
  · intro e he
    obtain ⟨e', he', hkey, -⟩ := mem_left_of_forall₂ h.fragments he
    rw [hkey]
    exact List.mem_map_of_mem (hplaces e' he')
  · intro k t ht
    cases ht

end

end Llmtrace.Parsers
