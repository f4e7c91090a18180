import Llmtrace.Parsers.Response

/-! How the maps of the parser grow, place by place. What is stored for a call depends only on the
    values that came for its key, as long as there are at most `maxTools` keys; what is stored for a
    text depends only on its own pieces. The joined texts then depend only on the text of each place. -/

namespace Llmtrace.Parsers
open Schemes

section
variable (serialize : Json → String)

namespace ResponseParser

/-! ### Calls -/

/-- The call after a value, whatever was cut before. -/
def merged (append : Bool) (tool : ToolCall) (value : Json) : ToolCall :=
  (mergeTool serialize append tool false value).1

/-- What `tool` does to the calls. -/
def addTool (append : Bool) (tools : OrdMap String ToolCall) (entry : String × Json) :
    OrdMap String ToolCall :=
  if (tools.get entry.1).isNone && decide (maxTools ≤ tools.size) then tools
  else tools.insert entry.1 (merged serialize append ((tools.get entry.1).getD {}) entry.2)

theorem mergeId_fst (tool : ToolCall) (value : Json) (truncated : Bool) :
    (mergeId tool value truncated).1 = (mergeId tool value false).1 := by
  unfold mergeId
  split <;> rfl

theorem mergeName_fst (append : Bool) (tool : ToolCall) (function : Json) (truncated : Bool) :
    (mergeName append tool function truncated).1 = (mergeName append tool function false).1 := by
  unfold mergeName
  split
  · cases append <;> rfl
  · rfl

theorem mergeArguments_fst (append : Bool) (tool : ToolCall) (function value : Json)
    (truncated : Bool) :
    (mergeArguments serialize append tool function value truncated).1 =
      (mergeArguments serialize append tool function value false).1 := by
  unfold mergeArguments
  split
  · cases append <;> rfl
  · split <;> rfl

theorem mergeTool_fst (append : Bool) (tool : ToolCall) (truncated : Bool) (value : Json) :
    (mergeTool serialize append tool truncated value).1 =
      ⟨(mergeId tool value false).1,
        (mergeName append tool ((value.get "function").getD value) false).1,
        (mergeArguments serialize append tool ((value.get "function").getD value) value false).1⟩ := by
  simp only [mergeTool]
  rw [mergeId_fst, mergeName_fst, mergeArguments_fst]

theorem merged_eq (append : Bool) (tool : ToolCall) (value : Json) :
    merged serialize append tool value =
      ⟨(mergeId tool value false).1,
        (mergeName append tool ((value.get "function").getD value) false).1,
        (mergeArguments serialize append tool ((value.get "function").getD value) value false).1⟩ :=
  mergeTool_fst serialize append tool false value

@[simp] theorem tool_tools (p : ResponseParser) (key : String) (value : Json) (append : Bool) :
    (p.tool serialize key value append).tools = addTool serialize append p.tools (key, value) := by
  unfold tool addTool
  split
  · rfl
  · simp only [merged]
    rw [mergeTool_fst, mergeTool_fst]

@[simp] theorem tool_texts (p : ResponseParser) (key : String) (value : Json) (append : Bool) :
    (p.tool serialize key value append).texts = p.texts := by
  unfold tool
  split <;> rfl

theorem toolAll_tools (append : Bool) : ∀ (values : List (String × Json)) (p : ResponseParser),
    (p.toolAll serialize values append).tools = values.foldl (addTool serialize append) p.tools
  | [], _ => rfl
  | e :: values, p => by
      have ih := toolAll_tools append values (p.tool serialize e.1 e.2 append)
      rw [tool_tools] at ih
      exact ih

theorem toolAll_texts (append : Bool) : ∀ (values : List (String × Json)) (p : ResponseParser),
    (p.toolAll serialize values append).texts = p.texts
  | [], _ => rfl
  | e :: values, p => by
      have ih := toolAll_texts append values (p.tool serialize e.1 e.2 append)
      rw [tool_texts] at ih
      exact ih

/-- The call at a key after the values that came for it. -/
def mergedAll (append : Bool) (values : List Json) (old : Option ToolCall) : Option ToolCall :=
  values.foldl (fun old value => some (merged serialize append (old.getD {}) value)) old

/-- With few keys no call is left out, and calls do not disturb each other. -/
theorem get_addTools {append : Bool} {ks : List String} (hlen : ks.length ≤ maxTools) (key : String) :
    ∀ (values : List (String × Json)) (tools : OrdMap String ToolCall),
      (∀ e ∈ values, e.1 ∈ ks) → (∀ k t, tools.get k = some t → k ∈ ks) →
      (values.foldl (addTool serialize append) tools).get key =
        mergedAll serialize append (fetchAll key values) (tools.get key)
  | [], _, _, _ => rfl
  | (k, v) :: values, tools, hks, htools => by
      have hk : k ∈ ks := hks _ List.mem_cons_self
      have hadd : addTool serialize append tools (k, v) =
          tools.insert k (merged serialize append ((tools.get k).getD {}) v) := by
        refine if_neg fun h => ?_
        obtain ⟨hnone, hfull⟩ := Bool.and_eq_true_iff.mp h
        have := OrdMap.size_lt htools (Option.isNone_iff_eq_none.mp hnone) hk
        exact absurd (of_decide_eq_true hfull) (by omega)
      rw [List.foldl_cons, hadd, get_addTools hlen key values _
        (fun e he => hks e (List.mem_cons_of_mem _ he)) ?_]
      · by_cases h : k = key
        · subst h
          rw [OrdMap.get_insert_self, fetchAll_cons_self]
          rfl
        · rw [OrdMap.get_insert_ne _ (Ne.symm h), fetchAll_cons_ne h]
      · intro k' t ht
        rw [OrdMap.get_insert] at ht
        split at ht
        · rename_i h
          exact h ▸ hk
        · exact htools k' t ht

theorem get_addTools_other {append : Bool} {key : String} :
    ∀ {values : List (String × Json)} {tools : OrdMap String ToolCall},
      (∀ e ∈ values, e.1 ≠ key) → (values.foldl (addTool serialize append) tools).get key = tools.get key
  | [], _, _ => rfl
  | e :: values, tools, h => by
      have hstep : (addTool serialize append tools e).get key = tools.get key := by
        unfold addTool
        split
        · rfl
        · exact OrdMap.get_insert_ne _ (h e List.mem_cons_self).symm
      rw [List.foldl_cons, get_addTools_other fun x hx => h x (List.mem_cons_of_mem _ hx), hstep]

/-! ### Texts -/

end ResponseParser

/-- What an event says about the text at a place: a further piece, or all of it. -/
inductive Piece where
  | delta (text : String)
  | whole (text : String)

namespace ResponseParser

/-- The text at a place after a piece. -/
def pieced (old : Option String) : Piece → Option String
  | .delta text => if text.isEmpty then old else some (old.getD "" ++ text)
  | .whole text => some (old.getD text)

/-- What a piece does to the texts. -/
def addPiece (texts : OrdMap TextKey String) (entry : TextKey × Piece) : OrdMap TextKey String :=
  match pieced (texts.get entry.1) entry.2 with
  | some text => texts.insert entry.1 text
  | none => texts

theorem get_addPiece (texts : OrdMap TextKey String) (entry : TextKey × Piece) (key : TextKey) :
    (addPiece texts entry).get key =
      if key = entry.1 then pieced (texts.get key) entry.2 else texts.get key := by
  unfold addPiece
  split
  · rename_i text h
    rw [OrdMap.get_insert]
    split
    · rename_i hk
      subst hk
      exact h.symm
    · rfl
  · rename_i h
    split
    · rename_i hk
      subst hk
      rw [h]
      cases hp : entry.2 <;> grind [pieced]
    · rfl

theorem get_addPieces (key : TextKey) :
    ∀ (pieces : List (TextKey × Piece)) (texts : OrdMap TextKey String),
      (pieces.foldl addPiece texts).get key = (fetchAll key pieces).foldl pieced (texts.get key)
  | [], _ => rfl
  | (k, piece) :: pieces, texts => by
      rw [List.foldl_cons, get_addPieces key pieces, get_addPiece]
      by_cases h : key = k
      · subst h
        rw [if_pos rfl, fetchAll_cons_self]
        rfl
      · rw [if_neg h, fetchAll_cons_ne (Ne.symm h)]

/-! ### One event -/

/-- The piece that `text_delta` appends. -/
def deltaPieces (key : TextKey) (text : Option String) : List (TextKey × Piece) :=
  text.toList.map fun text => (key, .delta text)

/-- What the type of an event says about the texts. -/
def typedPieces (value : Json) : List (TextKey × Piece) :=
  let key := textKey (indexOf value "output_index") (indexOf value "content_index")
  let block := textKey (indexOf value "index") 0
  match eventType value with
  | .outputTextDelta => deltaPieces key (value.field "delta").asStr
  | .outputTextDone => [(key, .whole ((value.field "text").asStr.getD ""))]
  | .contentBlockStart =>
    if isToolUse (value.field "content_block") then []
    else deltaPieces block ((value.field "content_block").field "text").asStr
  | .contentBlockDelta => deltaPieces block ((value.field "delta").field "text").asStr
  | _ => []

/-- What a choice says about the text. -/
def choicePieces (choice : Json) : List (TextKey × Piece) :=
  if indexOf choice "index" = 0 then
    deltaPieces (textKey 0 0) ((choice.field "delta").field "content").asStr
  else []

/-- The choices of a chunk. -/
def choicesOf (value : Json) : List Json := ((value.get "choices").bind Json.asArray).getD []

/-- What an event says about the texts. -/
def eventPieces (value : Json) : List (TextKey × Piece) :=
  typedPieces value ++ (choicesOf value).flatMap choicePieces

/-- What the choices of an event say about the calls. -/
def eventTools (value : Json) : List (String × Json) := (choicesOf value).flatMap choiceTools

@[simp] theorem textDelta_tools (p : ResponseParser) (key : TextKey) (text : Option String) :
    (p.textDelta key text).1.tools = p.tools := by
  unfold textDelta
  split
  · rfl
  · split <;> rfl

@[simp] theorem textDelta_texts (p : ResponseParser) (key : TextKey) (text : Option String) :
    (p.textDelta key text).1.texts = (deltaPieces key text).foldl addPiece p.texts := by
  cases text with
  | none => rfl
  | some text =>
    simp only [textDelta, deltaPieces, Option.toList_some, List.map_cons, List.map_nil,
      List.foldl_cons, List.foldl_nil, addPiece, pieced]
    by_cases h : text.isEmpty
    · simp only [h, if_true]
      split
      · rename_i old hold
        exact OrdMap.ext_get fun k => by grind [OrdMap.get_insert]
      · rfl
    · simp [h]

theorem choiceEvent_tools (p : ResponseParser) (choice : Json) :
    (p.choiceEvent serialize choice).1.tools =
      (choiceTools choice).foldl (addTool serialize true) p.tools := by
  simp only [choiceEvent]
  rw [toolAll_tools]
  split
  · rw [textDelta_tools]
  · rfl

theorem choiceEvent_texts (p : ResponseParser) (choice : Json) :
    (p.choiceEvent serialize choice).1.texts = (choicePieces choice).foldl addPiece p.texts := by
  simp only [choiceEvent, choicePieces]
  rw [toolAll_texts]
  split
  · rw [textDelta_texts]
  · rfl

theorem choiceEvents_tools : ∀ (choices : List Json) (p : ResponseParser),
    (p.choiceEvents serialize choices).1.tools =
      (choices.flatMap choiceTools).foldl (addTool serialize true) p.tools
  | [], _ => rfl
  | choice :: choices, p => by
      rw [List.flatMap_cons, List.foldl_append, ← choiceEvent_tools]
      exact choiceEvents_tools choices (p.choiceEvent serialize choice).1

theorem choiceEvents_texts : ∀ (choices : List Json) (p : ResponseParser),
    (p.choiceEvents serialize choices).1.texts =
      (choices.flatMap choicePieces).foldl addPiece p.texts
  | [], _ => rfl
  | choice :: choices, p => by
      rw [List.flatMap_cons, List.foldl_append, ← choiceEvent_texts serialize]
      exact choiceEvents_texts choices (p.choiceEvent serialize choice).1

theorem collectTools_texts (p : ResponseParser) (value : Json) :
    (p.collectTools serialize value).texts = p.texts := by
  simp only [collectTools, toolAll_texts]

/-- The final event of a response fills in its text only where there is none. -/
theorem typedEvent_texts {p : ResponseParser} {value : Json}
    (h : eventType value = .responseFinal → p.texts.entries ≠ []) :
    (p.typedEvent serialize value).1.texts = (typedPieces value).foldl addPiece p.texts := by
  simp only [typedEvent, typedPieces]
  cases htype : eventType value with
  | messageStart | messageStop | responseCreated | other => rfl
  | responseFinal =>
    have hne : p.texts.entries.isEmpty = false := by simpa using h htype
    simp [collectTools_texts, observe, hne]
  | outputTextDelta => exact textDelta_texts ..
  | outputTextDone =>
    simp only [List.foldl_cons, List.foldl_nil, addPiece, pieced]
    split
    · rename_i old hold
      rw [hold]
      exact OrdMap.ext_get fun k => by grind [OrdMap.get_insert]
    · rename_i hold
      rw [hold]
      rfl
  | outputItem =>
    simp only
    split <;> simp
  | functionArgumentsDelta => simp
  | contentBlockStart =>
    simp only
    split
    · simp
    · exact textDelta_texts ..
  | contentBlockDelta =>
    simp only
    split
    · simp
    · exact textDelta_texts ..

theorem event_texts {p : ResponseParser} {value : Json} {offset : ℕ}
    (h : eventType value = .responseFinal → p.texts.entries ≠ []) :
    (p.event serialize value offset).texts = (eventPieces value).foldl addPiece p.texts := by
  simp only [event, eventPieces, List.foldl_append]
  split
  · rw [choiceEvents_texts, typedEvent_texts]
    · rfl
    · exact h
  · rw [choiceEvents_texts, typedEvent_texts]
    · rfl
    · exact h

/-- An event without a type says nothing about calls but in its choices. -/
theorem event_tools {p : ResponseParser} {value : Json} {offset : ℕ} (h : eventType value = .other) :
    (p.event serialize value offset).tools =
      (eventTools value).foldl (addTool serialize true) p.tools := by
  simp only [event, typedEvent, h, eventTools]
  split
  · exact choiceEvents_tools serialize _ _
  · exact choiceEvents_tools serialize _ _

/-! ### A whole stream -/

/-- The JSON of an event, where it has some. -/
def eventJson : SseEvent × ℕ → Option Json
  | (.json value, _) => some value
  | _ => none

/-- A part of the parser to which each event adds entries of its own holds those of the whole stream. -/
theorem stream_part {β γ : Type} {part : ResponseParser → β} {entries : Json → List γ} {add : β → γ → β}
    {Good : Json → Prop} (hdone : ∀ p : ResponseParser, part { p with terminal := true } = part p)
    (hevent : ∀ p value offset, Good value →
      part (event serialize p value offset) = (entries value).foldl add (part p)) :
    ∀ (events : List (SseEvent × ℕ)) (p : ResponseParser),
      (∀ value ∈ events.filterMap eventJson, Good value) →
      part (events.foldl (streamEvent serialize) p) =
        ((events.filterMap eventJson).flatMap entries).foldl add (part p)
  | [], _, _ => rfl
  | (.json value, offset) :: events, p, h => by
      have hstep : part (streamEvent serialize p (.json value, offset)) =
          (entries value).foldl add (part p) := hevent p value offset (h value List.mem_cons_self)
      rw [List.foldl_cons, stream_part hdone hevent events _ fun v hv => h v (List.mem_cons_of_mem _ hv),
        hstep, ← List.foldl_append, ← List.flatMap_cons]
      rfl
  | (.done, _) :: events, p, h => by
      have hrest := stream_part hdone hevent events { p with terminal := true } h
      rw [hdone p] at hrest
      exact hrest
  | (.empty, _) :: events, p, h | (.other, _) :: events, p, h => stream_part hdone hevent events p h

theorem stream_texts (events : List (SseEvent × ℕ)) (p : ResponseParser)
    (h : ∀ value ∈ events.filterMap eventJson, eventType value ≠ .responseFinal) :
    (events.foldl (streamEvent serialize) p).texts =
      ((events.filterMap eventJson).flatMap eventPieces).foldl addPiece p.texts :=
  stream_part serialize (fun _ => rfl)
    (fun _ _ _ hother => event_texts serialize fun hfinal => absurd hfinal hother) events p h

theorem stream_tools (events : List (SseEvent × ℕ)) (p : ResponseParser)
    (h : ∀ value ∈ events.filterMap eventJson, eventType value = .other) :
    (events.foldl (streamEvent serialize) p).tools =
      ((events.filterMap eventJson).flatMap eventTools).foldl (addTool serialize true) p.tools :=
  stream_part serialize (fun _ => rfl) (fun _ _ _ hother => event_tools serialize hother) events p h

end ResponseParser

/-! ### Joined texts -/

@[simp] theorem joinTexts_nil : joinTexts [] = "" := rfl

@[simp] theorem joinTexts_cons (text : String) (texts : List String) :
    joinTexts (text :: texts) = text ++ joinTexts texts := by
  simp [joinTexts]

theorem joinTexts_append (texts texts' : List String) :
    joinTexts (texts ++ texts') = joinTexts texts ++ joinTexts texts' := by
  simp [joinTexts]

theorem joinTexts_filter : ∀ texts : List String,
    joinTexts (texts.filter fun text => text ≠ "") = joinTexts texts
  | [] => rfl
  | text :: texts => by
      have ih := joinTexts_filter texts
      by_cases h : text = ""
      · subst h
        simpa using ih
      · simpa [h] using ih

/-- Empty texts do not count, so it is enough to know the text of each place. -/
theorem joinTexts_values {texts : OrdMap TextKey String} {es : List (TextKey × String)}
    (hes : Ascending es) (h : ∀ k, (texts.get k).getD "" = (fetch k es).getD "") :
    joinTexts texts.values = joinTexts (es.map Prod.snd) := by
  rw [← joinTexts_filter texts.values, ← joinTexts_filter (es.map Prod.snd)]
  refine congrArg _ (OrdMap.values_filter hes fun k => ?_)
  have hk := h k
  cases hm : texts.get k <;> cases he : fetch k es <;> grind [Option.filter]

namespace ResponseParser

theorem foldl_pieced_deltas : ∀ (texts : List String) (old : Option String),
    ((texts.map Piece.delta).foldl pieced old).getD "" = old.getD "" ++ joinTexts texts
  | [], old => by simp
  | text :: texts, old => by
      rw [List.map_cons, List.foldl_cons, foldl_pieced_deltas texts, joinTexts_cons]
      by_cases h : text = ""
      · simp [pieced, h]
      · simp [pieced, h, String.append_assoc]

theorem foldl_pieced_whole (text : String) : ∀ (n : ℕ) {old : Option String}, old.getD "" = text →
    ((List.replicate n (Piece.whole text)).foldl pieced old).getD "" = text
  | 0, _, h => h
  | n + 1, none, _ => foldl_pieced_whole text n rfl
  | n + 1, some _, h => foldl_pieced_whole text n h

end ResponseParser

/-! ### Texts by their places -/

/-- The key of the `j`-th part of the `i`-th item. -/
def placeKey (place : ℕ × ℕ) : TextKey := textKey place.1 place.2

theorem placeKey_injective : Function.Injective placeKey := by
  rintro ⟨i, j⟩ ⟨i', j'⟩ h
  have hpair : ((i : ℤ), (j : ℤ)) = ((i' : ℤ), (j' : ℤ)) := toLex.injective h
  simpa using hpair

theorem placeKey_lt {i j i' j' : ℕ} (h : i < i' ∨ i = i' ∧ j < j') :
    placeKey (i, j) < placeKey (i', j') := by
  rw [placeKey, placeKey, textKey, textKey, Prod.Lex.toLex_lt_toLex]
  simpa using h

/-- The text at a place of an answer. -/
def textAt (texts : List (List String)) (place : ℕ × ℕ) : Option String :=
  texts[place.1]?.bind fun parts => parts[place.2]?

/-- All parts with their keys. -/
def placed (texts : List (List String)) : List (TextKey × String) :=
  texts.zipIdx.flatMap fun item => item.1.zipIdx.map fun part => (placeKey (item.2, part.2), part.1)

theorem mem_placed {texts : List (List String)} {e : TextKey × String} :
    e ∈ placed texts ↔ ∃ place, e.1 = placeKey place ∧ textAt texts place = some e.2 := by
  obtain ⟨k, t⟩ := e
  constructor
  · intro h
    obtain ⟨⟨parts, i⟩, hi, hpart⟩ := List.mem_flatMap.mp h
    obtain ⟨⟨text, j⟩, hj, heq⟩ := List.mem_map.mp hpart
    cases heq
    refine ⟨(i, j), rfl, ?_⟩
    rw [textAt, List.mem_zipIdx_iff_getElem?.mp hi]
    exact List.mem_zipIdx_iff_getElem?.mp hj
  · rintro ⟨⟨i, j⟩, rfl, h⟩
    obtain ⟨parts, hparts, htext⟩ := Option.bind_eq_some_iff.mp h
    refine List.mem_flatMap.mpr ⟨(parts, i), List.mem_zipIdx_iff_getElem?.mpr hparts, ?_⟩
    exact List.mem_map.mpr ⟨(t, j), List.mem_zipIdx_iff_getElem?.mpr htext, rfl⟩

theorem zipIdx_ascending {α : Type*} (xs : List α) : xs.zipIdx.Pairwise fun a b => a.2 < b.2 := by
  rw [← List.pairwise_map, List.zipIdx_map_snd]
  exact List.pairwise_lt_range'

theorem placed_ascending (texts : List (List String)) : Ascending (placed texts) := by
  refine List.pairwise_flatMap.mpr ⟨fun item _ => ?_, ?_⟩
  · refine List.pairwise_map.mpr ((zipIdx_ascending item.1).imp fun hlt => ?_)
    exact placeKey_lt (.inr ⟨rfl, hlt⟩)
  · refine (zipIdx_ascending texts).imp fun hlt x hx y hy => ?_
    obtain ⟨_, -, rfl⟩ := List.mem_map.mp hx
    obtain ⟨_, -, rfl⟩ := List.mem_map.mp hy
    exact placeKey_lt (.inl hlt)

theorem fetch_placed (texts : List (List String)) (place : ℕ × ℕ) :
    fetch (placeKey place) (placed texts) = textAt texts place := by
  cases h : textAt texts place with
  | some text => exact fetch_of_mem (placed_ascending texts) (mem_placed.mpr ⟨place, rfl, h⟩)
  | none =>
    refine Option.eq_none_iff_forall_ne_some.mpr fun text hfetch => ?_
    obtain ⟨place', hkey, htext⟩ := mem_placed.mp (mem_of_fetch hfetch)
    rw [← placeKey_injective hkey, h] at htext
    cases htext

theorem placed_texts (texts : List (List String)) : (placed texts).map Prod.snd = texts.flatten := by
  rw [placed, List.map_flatMap]
  have hitem : ∀ item : List String × ℕ,
      ((item.1.zipIdx.map fun part => (placeKey (item.2, part.2), part.1)).map Prod.snd) = item.1 := by
    intro item
    rw [List.map_map]
    exact List.zipIdx_map_fst 0 item.1
  simp only [hitem]
  rw [List.flatMap_def, List.zipIdx_map_fst]

namespace ResponseParser

/-- Pieces whose places end up with the texts of an answer give its text. -/
theorem joinTexts_pieces {pieces : List ((ℕ × ℕ) × Piece)} {texts : List (List String)}
    (h : ∀ place, ((fetchAll place pieces).foldl pieced none).getD "" = (textAt texts place).getD "") :
    joinTexts ((pieces.map fun e => (placeKey e.1, e.2)).foldl addPiece .empty).values =
      joinTexts texts.flatten := by
  rw [← placed_texts]
  refine joinTexts_values (placed_ascending texts) fun k => ?_
  rw [get_addPieces]
  by_cases hk : ∃ place, k = placeKey place
  · obtain ⟨place, rfl⟩ := hk
    rw [fetch_placed, fetchAll_map placeKey_injective]
    exact h place
  · have hnone : fetch k (placed texts) = none := by
      refine Option.eq_none_iff_forall_ne_some.mpr fun text hfetch => ?_
      obtain ⟨place, hkey, -⟩ := mem_placed.mp (mem_of_fetch hfetch)
      exact hk ⟨place, hkey⟩
    rw [hnone, fetchAll_eq_nil]
    · rfl
    · rintro e he rfl
      obtain ⟨e', -, rfl⟩ := List.mem_map.mp he
      exact hk ⟨e'.1, rfl⟩

end ResponseParser
end
end Llmtrace.Parsers
