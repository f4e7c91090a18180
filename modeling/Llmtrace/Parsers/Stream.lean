import Llmtrace.Parsers.Chat

/-! One answer, whole or streamed. For each of the three formats: when a JSON document is an answer, and
    when a stream of events is a way of cutting that answer; further fields are allowed everywhere. The
    stream and the document then give the same text, and for chat completions the same tool calls. -/

namespace Llmtrace.Parsers
open Schemes ResponseParser

/-! ### Chat completions -/

/-- A choice of a chat answer. -/
structure ChatChoice where
  content : Option String
  calls : List ToolCall

/-- A value is the call. -/
structure IsCall (v : Json) (call : ToolCall) : Prop where
  id : HasText v "id" (some call.id)
  name : HasText (v.field "function") "name" (some call.name)
  arguments : HasText (v.field "function") "arguments" (some call.arguments)
  no_call_id : v.get "call_id" = none

/-- A value is the choice. -/
structure IsChoice (v : Json) (choice : ChatChoice) : Prop where
  content : HasText (v.field "message") "content" choice.content
  calls : HasItems IsCall (v.field "message") "tool_calls" choice.calls

/-- A chat completion; it has none of the lists of the other formats. -/
structure IsChatAnswer (v : Json) (answer : List ChatChoice) : Prop where
  choices : HasItems IsChoice v "choices" answer
  no_output : present v "output" = none
  no_content : present v "content" = none

/-- The call at a place of an answer. -/
def callAt (answer : List ChatChoice) (place : ℕ × ℕ) : Option ToolCall :=
  answer[place.1]?.bind fun choice => choice.calls[place.2]?

/-- The fragments of one call: the id in the first, name and arguments in pieces. -/
structure Cuts (fragments : List ToolDelta) (call : ToolCall) : Prop where
  id : ∃ first rest, fragments = first :: rest ∧ first.id = some call.id ∧ ∀ d ∈ rest, d.id = none
  name : joinTexts (fragments.filterMap ToolDelta.name) = call.name
  arguments : joinTexts (fragments.filterMap ToolDelta.arguments) = call.arguments

/-- The chunks are a cutting of the answer, in any order that keeps each call's and each content's own. -/
structure ChatCutting (stream : List (List ChoiceDelta)) (answer : List ChatChoice) : Prop where
  content : ∀ choice, joinTexts (contentDeltas stream choice) =
    (answer[choice]?.bind ChatChoice.content).getD ""
  calls : ∀ place call, callAt answer place = some call →
    Cuts (fetchAll place (streamFragments stream)) call
  no_more : ∀ place, callAt answer place = none → fetchAll place (streamFragments stream) = []

/-- At most `maxTools` calls, none with a field longer than its preview. -/
structure WithinLimits (answer : List ChatChoice) : Prop where
  count : (answer.map fun choice => choice.calls.length).sum ≤ maxTools
  id : ∀ choice ∈ answer, ∀ call ∈ choice.calls, utf8Len call.id.toList ≤ maxToolTextBytes
  name : ∀ choice ∈ answer, ∀ call ∈ choice.calls, utf8Len call.name.toList ≤ maxToolTextBytes
  arguments : ∀ choice ∈ answer, ∀ call ∈ choice.calls, utf8Len call.arguments.toList ≤ maxToolTextBytes

/-- The calls with their places. -/
def answerCalls (answer : List ChatChoice) : List ((ℕ × ℕ) × ToolCall) :=
  answer.zipIdx.flatMap fun choice => choice.1.calls.zipIdx.map fun call => ((choice.2, call.2), call.1)

theorem mem_answerCalls {answer : List ChatChoice} {place : ℕ × ℕ} {call : ToolCall} :
    (place, call) ∈ answerCalls answer ↔ callAt answer place = some call := by
  constructor
  · intro h
    obtain ⟨⟨choice, c⟩, hc, hcall⟩ := List.mem_flatMap.mp h
    obtain ⟨⟨call', i⟩, hi, heq⟩ := List.mem_map.mp hcall
    cases heq
    rw [callAt, List.mem_zipIdx_iff_getElem?.mp hc]
    exact List.mem_zipIdx_iff_getElem?.mp hi
  · intro h
    obtain ⟨choice, hchoice, hcall⟩ := Option.bind_eq_some_iff.mp h
    refine List.mem_flatMap.mpr ⟨(choice, place.1), List.mem_zipIdx_iff_getElem?.mpr hchoice, ?_⟩
    exact List.mem_map.mpr ⟨(call, place.2), List.mem_zipIdx_iff_getElem?.mpr hcall, rfl⟩

theorem answerCalls_distinct (answer : List ChatChoice) :
    (answerCalls answer).Pairwise fun a b => a.1 ≠ b.1 := by
  refine List.pairwise_flatMap.mpr ⟨fun choice _ => ?_, ?_⟩
  · refine List.pairwise_map.mpr ((zipIdx_ascending choice.1.calls).imp fun hlt heq => ?_)
    exact hlt.ne (Prod.mk.inj heq).2
  · refine (zipIdx_ascending answer).imp fun hlt x hx y hy heq => ?_
    obtain ⟨_, -, rfl⟩ := List.mem_map.mp hx
    obtain ⟨_, -, rfl⟩ := List.mem_map.mp hy
    exact hlt.ne (congrArg Prod.fst heq)

theorem fetchAll_answerCalls (answer : List ChatChoice) (place : ℕ × ℕ) :
    fetchAll place (answerCalls answer) = (callAt answer place).toList := by
  cases h : callAt answer place with
  | some call => exact fetchAll_of_mem (answerCalls_distinct answer) (mem_answerCalls.mpr h)
  | none =>
    refine fetchAll_eq_nil fun e he heq => ?_
    obtain ⟨place', call⟩ := e
    obtain rfl : place' = place := heq
    rw [mem_answerCalls.mp he] at h
    cases h

theorem length_answerCalls (answer : List ChatChoice) :
    (answerCalls answer).length = (answer.map fun choice => choice.calls.length).sum := by
  have hmap : answer.map (fun choice => choice.calls.length) =
      answer.zipIdx.map fun choice => choice.1.calls.length := by
    nth_rewrite 1 [← List.zipIdx_map_fst 0 answer]
    rw [List.map_map]
    rfl
  rw [answerCalls, List.length_flatMap, hmap]
  simp

/-! #### The document -/

theorem pointer_pair {a b : String} (ha : Json.parseIndex a = none) (hb : Json.parseIndex b = none)
    (v : Json) : Json.pointer [a, b] v = (v.field a).get b := by
  cases v with
  | obj fields =>
    rw [Json.pointer, Json.field, Json.get_obj]
    cases fetch a fields with
    | none => rfl
    | some x => cases x <;> simp [Json.pointer, Json.get, Json.asObject, hb]
  | arr items => simp [Json.pointer, Json.field, Json.get, Json.asObject, ha]
  | _ => rfl

theorem forall₂_zipIdx {α β : Type*} {R : α → β → Prop} {xs : List α} {ys : List β}
    (h : List.Forall₂ R xs ys) (n : ℕ) :
    List.Forall₂ (fun x y => R x.1 y.1 ∧ x.2 = y.2) (xs.zipIdx n) (ys.zipIdx n) := by
  induction h generalizing n with
  | nil => exact .nil
  | cons hxy _ ih => exact .cons ⟨hxy, rfl⟩ (ih (n + 1))

theorem IsChatAnswer.chatTools_calls {v : Json} {answer : List ChatChoice} (h : IsChatAnswer v answer) :
    List.Forall₂ (fun e e' => e.1 = callKey e'.1 ∧ IsCall e.2 e'.2) (chatTools v)
      (answerCalls answer) := by
  refine List.rel_flatMap (forall₂_zipIdx h.choices.get 0) ?_
  rintro ⟨choice, c⟩ ⟨choice', c'⟩ ⟨hchoice, rfl⟩
  dsimp only
  rw [pointer_pair (by decide) (by decide), List.forall₂_map_left_iff, List.forall₂_map_right_iff]
  refine (forall₂_zipIdx hchoice.calls.get 0).imp ?_
  rintro ⟨tool, i⟩ ⟨call, i'⟩ ⟨hcall, rfl⟩
  exact ⟨rfl, hcall⟩

section
variable (serialize : Json → String)

theorem merged_of_isCall {v : Json} {call : ToolCall} (h : IsCall v call) (tool : ToolCall)
    (hid : utf8Len call.id.toList ≤ maxToolTextBytes)
    (hname : utf8Len call.name.toList ≤ maxToolTextBytes)
    (harguments : utf8Len call.arguments.toList ≤ maxToolTextBytes) :
    merged serialize false tool v = call := by
  have hfunction : (v.get "function").getD v = v.field "function" := by
    cases hf : v.get "function" with
    | some f => rw [Json.field, hf]; rfl
    | none =>
      have hnull := h.name.get
      rw [Json.field, hf] at hnull
      cases hnull
  rw [merged_eq, hfunction, mergeId, h.no_call_id, Option.none_or, h.id.get, mergeName, h.name.get,
    mergeArguments, h.arguments.get]
  simp only [Bool.false_eq_true, if_false]
  rw [bounded_of_le hid, bounded_of_le hname, bounded_of_le harguments]

theorem IsChatAnswer.collectTools_tools {v : Json} {answer : List ChatChoice} (h : IsChatAnswer v answer)
    (p : ResponseParser) :
    (p.collectTools serialize v).tools = (chatTools v).foldl (addTool serialize false) p.tools := by
  have hnone : ∀ key wanted name, present v name = none →
      indexedItems key wanted (v.get name) = [] := by
    intro key wanted name habsent
    rw [indexedItems, bind_eq_field rfl, field_of_absent habsent]
    rfl
  rw [ResponseParser.collectTools, hnone _ _ _ h.no_output, hnone _ _ _ h.no_content]
  exact toolAll_tools serialize false _ p

/-- The calls of the document, by place. -/
theorem document_get {v : Json} {answer : List ChatChoice} (h : IsChatAnswer v answer)
    (hlimits : WithinLimits answer) (p : ResponseParser) (hp : p.tools = .empty) (place : ℕ × ℕ) :
    (p.collectTools serialize v).tools.get (callKey place) = callAt answer place := by
  have hlen : ((answerCalls answer).map fun e => callKey e.1).length ≤ maxTools := by
    rw [List.length_map, length_answerCalls]
    exact hlimits.count
  rw [h.collectTools_tools serialize, hp, get_addTools serialize hlen]
  · have hall := forall₂_fetchAll callKey_injective place h.chatTools_calls
    rw [fetchAll_answerCalls] at hall
    cases hcall : callAt answer place with
    | none =>
      rw [hcall] at hall
      rw [List.forall₂_nil_right_iff.mp hall]
      rfl
    | some call =>
      rw [hcall] at hall
      obtain ⟨value, values, hvalue, hnil, heq⟩ := List.forall₂_cons_right_iff.mp hall
      obtain ⟨choice, hchoice, hmem⟩ := Option.bind_eq_some_iff.mp hcall
      have hmem := List.mem_of_getElem? hmem
      have hchoice := List.mem_of_getElem? hchoice
      rw [heq, List.forall₂_nil_right_iff.mp hnil]
      exact congrArg some (merged_of_isCall serialize hvalue {} (hlimits.id choice hchoice call hmem)
        (hlimits.name choice hchoice call hmem) (hlimits.arguments choice hchoice call hmem))
  · intro e he
    obtain ⟨e', he', hkey, -⟩ := mem_left_of_forall₂ h.chatTools_calls he
    rw [hkey]
    exact List.mem_map_of_mem he'
  · intro k t ht
    cases ht

/-! #### The stream -/

theorem Cuts.absorb {fragments : List ToolDelta} {call : ToolCall} (h : Cuts fragments call) :
    fragments.foldl ToolDelta.absorb {} = call := by
  obtain ⟨first, rest, rfl, hfirst, hrest⟩ := h.id
  have hids : (first :: rest).filterMap ToolDelta.id = [call.id] := by
    rw [List.filterMap_cons_some hfirst, List.filterMap_eq_nil_iff.mpr hrest]
  have hid := foldl_absorb_id (first :: rest) {}
  have hname := foldl_absorb_name (first :: rest) {}
  have harguments := foldl_absorb_arguments (first :: rest) {}
  rw [hids] at hid
  rw [h.name, String.empty_append] at hname
  rw [h.arguments, String.empty_append] at harguments
  rw [show call = ⟨call.id, call.name, call.arguments⟩ from rfl, ← hname, ← harguments]
  exact congrArg (fun id => ToolCall.mk id _ _) hid

theorem Cuts.fits {fragments : List ToolDelta} {call : ToolCall} (h : Cuts fragments call)
    (hid : utf8Len call.id.toList ≤ maxToolTextBytes)
    (hname : utf8Len call.name.toList ≤ maxToolTextBytes)
    (harguments : utf8Len call.arguments.toList ≤ maxToolTextBytes) : Fits fragments where
  id := by
    obtain ⟨first, rest, rfl, hfirst, hrest⟩ := h.id
    intro d hd id hdid
    rcases List.mem_cons.mp hd with rfl | hd
    · rw [hfirst] at hdid
      cases hdid
      exact hid
    · rw [hrest d hd] at hdid
      cases hdid
  name := by rwa [h.name]
  arguments := by rwa [h.arguments]

theorem ChatCutting.fits {stream : List (List ChoiceDelta)} {answer : List ChatChoice}
    (h : ChatCutting stream answer) (hlimits : WithinLimits answer) (place : ℕ × ℕ) :
    Fits (fetchAll place (streamFragments stream)) := by
  cases hcall : callAt answer place with
  | none =>
    rw [h.no_more place hcall]
    exact fits_nil
  | some call =>
    obtain ⟨choice, hchoice, hmem⟩ := Option.bind_eq_some_iff.mp hcall
    have hmem := List.mem_of_getElem? hmem
    have hchoice := List.mem_of_getElem? hchoice
    exact (h.calls place call hcall).fits (hlimits.id choice hchoice call hmem)
      (hlimits.name choice hchoice call hmem) (hlimits.arguments choice hchoice call hmem)

/-- The calls of the stream, by place. -/
theorem stream_get_callAt {kind : RequestKind} {events : List (SseEvent × ℕ)}
    {stream : List (List ChoiceDelta)} {answer : List ChatChoice}
    (h : Carries IsChatChunk events stream) (hcut : ChatCutting stream answer)
    (hlimits : WithinLimits answer) (place : ℕ × ℕ) :
    (events.foldl (streamEvent serialize) { kind }).tools.get (callKey place) =
      callAt answer place := by
  have hlen : ((answerCalls answer).map Prod.fst).length ≤ maxTools := by
    rw [List.length_map, length_answerCalls]
    exact hlimits.count
  rw [stream_get serialize h hlen ?_ place (hcut.fits hlimits place)]
  · cases hcall : callAt answer place with
    | none => rw [hcut.no_more place hcall, if_pos rfl]
    | some call =>
      have hcuts := hcut.calls place call hcall
      obtain ⟨first, rest, hne, -⟩ := hcuts.id
      rw [if_neg (by rw [hne]; exact List.cons_ne_nil _ _), hcuts.absorb]
  · rintro ⟨place', d⟩ he
    cases hcall : callAt answer place' with
    | some call => exact List.mem_map.mpr ⟨(place', call), mem_answerCalls.mpr hcall, rfl⟩
    | none =>
      have hmem : d ∈ fetchAll place' (streamFragments stream) :=
        List.mem_map.mpr ⟨(place', d), List.mem_filter.mpr ⟨he, by simp⟩, rfl⟩
      rw [hcut.no_more place' hcall] at hmem
      cases hmem

/-- The same calls in the same order. -/
theorem chat_toolCalls {kind : RequestKind} {events : List (SseEvent × ℕ)} {v : Json}
    {stream : List (List ChoiceDelta)} {answer : List ChatChoice}
    (hv : IsChatAnswer v answer) (h : Carries IsChatChunk events stream)
    (hcut : ChatCutting stream answer) (hlimits : WithinLimits answer) :
    (parseStream serialize kind events).toolCalls = (parseDocument serialize kind v).toolCalls := by
  have hsame : (events.foldl (streamEvent serialize) { kind }).tools =
      ((observe { kind } v).collectTools serialize v).tools := by
    refine OrdMap.ext_get fun k => ?_
    by_cases hk : ∃ place, k = callKey place
    · obtain ⟨place, rfl⟩ := hk
      rw [stream_get_callAt serialize h hcut hlimits, document_get serialize hv hlimits _ rfl]
    · rw [stream_tools serialize events _ h.other, hv.collectTools_tools serialize,
        get_addTools_other, get_addTools_other]
      · rfl
      · intro e he heq
        obtain ⟨e', -, hkey, -⟩ := mem_left_of_forall₂ hv.chatTools_calls he
        exact hk ⟨e'.1, heq.symm.trans hkey⟩
      · intro e he heq
        obtain ⟨e', -, hkey, -⟩ := mem_left_of_forall₂ h.fragments he
        exact hk ⟨e'.1, heq.symm.trans hkey⟩
  exact congrArg OrdMap.values hsame

theorem chat_messages {v : Json} {answer : List ChatChoice} (hv : IsChatAnswer v answer)
    {text : String} (htext : answer[0]?.bind ChatChoice.content = some text) :
    collectResponseMessages serialize v = [assistant text] := by
  obtain ⟨choice, hchoice, hcontent⟩ := Option.bind_eq_some_iff.mp htext
  obtain ⟨answer, rfl⟩ : ∃ rest, answer = choice :: rest := by
    cases answer with
    | nil => cases hchoice
    | cons c rest => cases hchoice; exact ⟨rest, rfl⟩
  obtain ⟨items, hitems, hall⟩ | ⟨-, hnil⟩ := hv.choices
  · obtain ⟨c, rest, hc, -, rfl⟩ := List.forall₂_cons_right_iff.mp hall
    have hpointer : Json.pointer ["choices", "0", "message", "content"] v =
        (c.field "message").get "content" := by
      have hget := get_of_present hitems
      cases v with
      | obj fields =>
        rw [Json.pointer, ← Json.get_obj, hget, Option.bind_some, Json.pointer,
          show Json.parseIndex "0" = some 0 from by decide]
        exact pointer_pair (by decide) (by decide) c
      | _ => cases hget
    have hcontents := hc.content
    rw [hcontent] at hcontents
    rw [collectResponseMessages, hpointer, get_of_present hcontents]
    rfl
  · cases hnil

end

/-! ### Texts by pieces -/

/-- The text of a stream whose events say pieces, up to its final event. -/
theorem stream_pieces {R : Json → List ((ℕ × ℕ) × Piece) → Prop} (serialize : Json → String)
    {kind : RequestKind} {events : List (SseEvent × ℕ)} {stream : List (List ((ℕ × ℕ) × Piece))}
    (hR : ∀ v pieces, R v pieces → eventType v ≠ .responseFinal ∧
      eventPieces v = pieces.map fun e => (placeKey e.1, e.2))
    (h : Carries R events stream) {texts : List (List String)}
    (hplaces : ∀ place, ((fetchAll place stream.flatten).foldl pieced none).getD "" =
      (textAt texts place).getD "") :
    joinTexts (events.foldl (streamEvent serialize) { kind }).texts.values = joinTexts texts.flatten := by
  have hnotfinal : ∀ v ∈ events.filterMap eventJson, eventType v ≠ .responseFinal := by
    intro v hv
    obtain ⟨pieces, -, hpieces⟩ := mem_left_of_forall₂ h hv
    exact (hR v pieces hpieces).1
  rw [stream_texts serialize events _ hnotfinal,
    flatMap_eq_of_forall₂ (fun v pieces hv => (hR v pieces hv).2) h, ← joinTexts_pieces hplaces,
    List.flatten_eq_flatMap, List.map_flatMap]
  rfl

theorem choicePieces_of_absent {v : Json} (h : present v "choices" = none) :
    (choicesOf v).flatMap choicePieces = [] := by
  rw [choicesOf, bind_eq_field rfl, field_of_absent h]
  rfl

theorem pointer_choices {v : Json} (h : present v "choices" = none) (path : List String) :
    Json.pointer ("choices" :: "0" :: path) v = none := by
  have hfield := field_of_absent h
  cases v with
  | obj fields =>
    rw [Json.field, Json.get_obj] at hfield
    rw [Json.pointer]
    cases hf : fetch "choices" fields with
    | none => rfl
    | some x =>
      rw [hf] at hfield
      obtain rfl : x = .null := hfield
      rfl
  | arr items => rw [Json.pointer, show Json.parseIndex "choices" = none from by decide]; rfl
  | _ => rfl

theorem nonemptyMessage_of_ne {content : String} (h : content ≠ "") :
    nonemptyMessage content = [assistant content] := by
  rw [nonemptyMessage, if_neg (by simpa using h)]

/-! ### Anthropic messages -/

/-- The texts of the blocks; a block of another kind has none. -/
structure IsAnthropicAnswer (v : Json) (blocks : List (Option String)) : Prop where
  blocks : HasItems (fun block text => HasText block "text" text) v "content" blocks
  no_choices : present v "choices" = none
  no_output_text : present v "output_text" = none
  no_output : present v "output" = none

/-- What an event says about the texts of the blocks. -/
inductive AnthropicSays : Json → List (ℕ × String) → Prop
  | start {v : Json} {index : ℕ} {text : Option String} :
    HasText v "type" (some "content_block_start") → HasIndex v "index" index →
    HasText (v.field "content_block") "text" text →
    (text = none ∨ HasText (v.field "content_block") "type" (some "text")) →
    AnthropicSays v (text.toList.map fun text => (index, text))
  | delta {v : Json} {index : ℕ} {text : Option String} :
    HasText v "type" (some "content_block_delta") → HasIndex v "index" index →
    HasText (v.field "delta") "text" text →
    AnthropicSays v (text.toList.map fun text => (index, text))
  | other {v : Json} {kind : String} : HasText v "type" (some kind) →
    kind ∈ ["message_start", "message_delta", "message_stop", "content_block_stop", "ping", "error"] →
    AnthropicSays v []

/-- An event of a message stream with what it says about the text. -/
def IsAnthropicEvent (v : Json) (pieces : List (ℕ × String)) : Prop :=
  present v "choices" = none ∧ AnthropicSays v pieces

/-- The pieces of each block, in order, are its text. -/
def AnthropicCutting (stream : List (List (ℕ × String))) (blocks : List (Option String)) : Prop :=
  ∀ index, joinTexts (fetchAll index stream.flatten) = (blocks[index]?.join).getD ""

theorem typedPieces_of_anthropic {v : Json} {pieces : List (ℕ × String)} (h : AnthropicSays v pieces) :
    eventType v ≠ .responseFinal ∧
      typedPieces v = pieces.map fun e => (placeKey (e.1, 0), .delta e.2) := by
  cases h with
  | @start index text htype hindex htext hkind =>
    have heventType : eventType v = .contentBlockStart := by rw [eventType, htype.field]; rfl
    refine ⟨by rw [heventType]; decide, ?_⟩
    rw [typedPieces, heventType]
    simp only [hindex.indexOf, htext.field]
    cases text with
    | none => split <;> rfl
    | some text =>
      have htool : isToolUse (v.field "content_block") = false := by
        rw [isToolUse, (hkind.resolve_left (by simp)).field]
        rfl
      rw [htool]
      rfl
  | @delta index text htype hindex htext =>
    have heventType : eventType v = .contentBlockDelta := by rw [eventType, htype.field]; rfl
    refine ⟨by rw [heventType]; decide, ?_⟩
    rw [typedPieces, heventType]
    simp only [hindex.indexOf, htext.field]
    cases text <;> rfl
  | @other kind htype hkind =>
    rw [typedPieces, eventType, htype.field, Option.getD_some]
    simp only [List.mem_cons, List.not_mem_nil, or_false] at hkind
    rcases hkind with rfl | rfl | rfl | rfl | rfl | rfl
    all_goals exact ⟨by decide, rfl⟩


/-- The texts of the blocks one after the other. -/
def blocksText (blocks : List (Option String)) : String := joinTexts (blocks.filterMap id)

theorem filterMap_eq_of_forall₂ {α β γ : Type*} {R : α → β → Prop} {f : α → Option γ} {g : β → Option γ}
    (hfg : ∀ x y, R x y → f x = g y) {xs : List α} {ys : List β} (h : List.Forall₂ R xs ys) :
    xs.filterMap f = ys.filterMap g := by
  induction h with
  | nil => rfl
  | cons hxy _ ih => rw [List.filterMap_cons, List.filterMap_cons, hfg _ _ hxy, ih]

theorem joinTexts_filterMap_id : ∀ texts : List (Option String),
    joinTexts (texts.filterMap id) = joinTexts (texts.map fun text => text.getD "")
  | [] => rfl
  | text :: texts => by
      rw [joinTexts_filterMap_cons, joinTexts_filterMap_id texts, List.map_cons, joinTexts_cons]
      rfl

/-- The pieces of the blocks' texts, each block an item of one part. -/
def blockPieces (texts : List (ℕ × String)) : List ((ℕ × ℕ) × Piece) :=
  texts.map fun e => ((e.1, 0), .delta e.2)

theorem flatten_blockPieces (stream : List (List (ℕ × String))) :
    (stream.map blockPieces).flatten = blockPieces stream.flatten := by
  rw [blockPieces, List.map_flatten]
  rfl

theorem fetchAll_blockPieces (index : ℕ) (texts : List (ℕ × String)) :
    fetchAll (index, 0) (blockPieces texts) = (fetchAll index texts).map Piece.delta := by
  simp [fetchAll, blockPieces, List.filter_map, Function.comp_def]

theorem fetchAll_blockPieces_succ (index part : ℕ) (texts : List (ℕ × String)) :
    fetchAll (index, part + 1) (blockPieces texts) = [] := by
  simp [fetchAll, blockPieces, List.filter_map, Function.comp_def]

section
variable (serialize : Json → String)

theorem anthropic_messages {v : Json} {blocks : List (Option String)} (hv : IsAnthropicAnswer v blocks)
    (htext : blocksText blocks ≠ "") :
    collectResponseMessages serialize v = [assistant (blocksText blocks)] := by
  obtain ⟨items, hitems, hall⟩ | ⟨-, rfl⟩ := hv.blocks
  · have hcontent : (v.get "content").bind Json.asArray = some items := by
      rw [get_of_present hitems]
      rfl
    have htexts : items.filterMap (fun item => (item.get "text").bind Json.asStr) =
        blocks.filterMap id := filterMap_eq_of_forall₂ (fun _ _ h => h.get) hall
    rw [collectResponseMessages, pointer_choices hv.no_choices, Option.bind_none,
      bind_eq_field rfl, field_of_absent hv.no_output_text, bind_eq_field rfl,
      field_of_absent hv.no_output, hcontent]
    simp only [Json.asStr, Json.asArray, htexts]
    exact nonemptyMessage_of_ne htext
  · exact absurd rfl htext

theorem anthropic_text {kind : RequestKind} {events : List (SseEvent × ℕ)}
    {stream : List (List (ℕ × String))} {blocks : List (Option String)}
    (h : Carries IsAnthropicEvent events stream) (hcut : AnthropicCutting stream blocks) :
    (parseStream serialize kind events).text = blocksText blocks := by
  have hcarries : Carries
      (fun v pieces => ∃ texts, pieces = blockPieces texts ∧ IsAnthropicEvent v texts)
      events (stream.map blockPieces) := by
    refine List.forall₂_map_right_iff.mpr (List.Forall₂.imp ?_ h)
    exact fun v texts hv => ⟨texts, rfl, hv⟩
  have hplaces : ∀ place, ((fetchAll place (stream.map blockPieces).flatten).foldl pieced none).getD "" =
      (textAt (blocks.map fun text => [text.getD ""]) place).getD "" := by
    rintro ⟨i, j⟩
    rw [flatten_blockPieces]
    cases j with
    | zero =>
      rw [fetchAll_blockPieces, foldl_pieced_deltas, hcut i, textAt, List.getElem?_map]
      cases blocks[i]? <;> rfl
    | succ j =>
      rw [fetchAll_blockPieces_succ, textAt, List.getElem?_map]
      cases blocks[i]? <;> rfl
  rw [blocksText, joinTexts_filterMap_id]
  refine (stream_pieces serialize ?_ hcarries hplaces).trans ?_
  · rintro v pieces ⟨texts, rfl, hchoices, hv⟩
    obtain ⟨hfinal, htyped⟩ := typedPieces_of_anthropic hv
    refine ⟨hfinal, ?_⟩
    rw [eventPieces, choicePieces_of_absent hchoices, List.append_nil, htyped, blockPieces, List.map_map]
    rfl
  · rw [← List.flatMap_def, ← List.map_eq_flatMap]

end

/-! ### Responses -/

/-- A part of an output item: its text, or a part of another kind. -/
inductive IsPart : Json → Option String → Prop
  | text {v : Json} {text : String} : HasText v "type" (some "output_text") →
    HasText v "text" (some text) → IsPart v (some text)
  | other {v : Json} {kind : String} : HasText v "type" (some kind) → kind ≠ "output_text" →
    kind ≠ "text" → IsPart v none

/-- The texts of the parts of the items; an item without content has no parts. -/
structure IsResponsesAnswer (v : Json) (items : List (List (Option String))) : Prop where
  items : HasItems (fun item parts => HasItems IsPart item "content" parts) v "output" items
  no_choices : present v "choices" = none
  no_output_text : present v "output_text" = none

/-- What an event before the final one says about the texts of the parts. -/
inductive ResponsesSays : Json → List ((ℕ × ℕ) × Piece) → Prop
  | delta {v : Json} {output content : ℕ} {text : String} :
    HasText v "type" (some "response.output_text.delta") → HasIndex v "output_index" output →
    HasIndex v "content_index" content → HasText v "delta" (some text) →
    ResponsesSays v [((output, content), .delta text)]
  | done {v : Json} {output content : ℕ} {text : String} :
    HasText v "type" (some "response.output_text.done") → HasIndex v "output_index" output →
    HasIndex v "content_index" content → HasText v "text" (some text) →
    ResponsesSays v [((output, content), .whole text)]
  | other {v : Json} {kind : String} : HasText v "type" (some kind) →
    kind ∉ ["response.output_text.delta", "response.output_text.done", "response.completed",
      "response.failed", "response.incomplete", "content_block_start", "content_block_delta"] →
    ResponsesSays v []

/-- An event of a response stream with what it says about the text. -/
def IsResponsesEvent (v : Json) (pieces : List ((ℕ × ℕ) × Piece)) : Prop :=
  present v "choices" = none ∧ ResponsesSays v pieces

/-- The event that ends a response stream. -/
structure IsResponsesFinal (v : Json) : Prop where
  type : ∃ kind, HasText v "type" (some kind) ∧
    kind ∈ ["response.completed", "response.failed", "response.incomplete"]
  no_choices : present v "choices" = none

/-- Pieces up to a final event, after which there is no more JSON. -/
def CarriesResponse (events : List (SseEvent × ℕ)) (stream : List (List ((ℕ × ℕ) × Piece))) : Prop :=
  ∃ body final offset rest, events = body ++ (SseEvent.json final, offset) :: rest ∧
    Carries IsResponsesEvent body stream ∧ IsResponsesFinal final ∧ rest.filterMap eventJson = []

/-- The text at a place; parts that are no text have none. -/
def partAt (items : List (List (Option String))) (place : ℕ × ℕ) : String :=
  ((items[place.1]?.bind fun parts => parts[place.2]?).join).getD ""

/-- The deltas of each part, in order, are its text; whole texts come after them. -/
def ResponsesCutting (stream : List (List ((ℕ × ℕ) × Piece))) (items : List (List (Option String))) :
    Prop :=
  ∀ place, ∃ deltas n, joinTexts deltas = partAt items place ∧
    fetchAll place stream.flatten =
      deltas.map Piece.delta ++ List.replicate n (.whole (partAt items place))

/-- The text of all parts. -/
def itemsText (items : List (List (Option String))) : String :=
  joinTexts ((items.flatten).map fun text => text.getD "")

theorem ofText_other {kind : String}
    (h : kind ∉ ["response.output_text.delta", "response.output_text.done", "response.completed",
      "response.failed", "response.incomplete", "content_block_start", "content_block_delta"]) :
    ResponseParser.EventType.ofText kind ∉
      [EventType.outputTextDelta, .outputTextDone, .responseFinal, .contentBlockStart,
        .contentBlockDelta] := by
  unfold ResponseParser.EventType.ofText
  split <;> simp_all

theorem typedPieces_of_responses {v : Json} {pieces : List ((ℕ × ℕ) × Piece)}
    (h : ResponsesSays v pieces) :
    eventType v ≠ .responseFinal ∧ typedPieces v = pieces.map fun e => (placeKey e.1, e.2) := by
  cases h with
  | delta htype houtput hcontent htext =>
    have heventType : eventType v = .outputTextDelta := by rw [eventType, htype.field]; rfl
    refine ⟨by rw [heventType]; decide, ?_⟩
    rw [typedPieces, heventType]
    simp only [houtput.indexOf, hcontent.indexOf, htext.field]
    rfl
  | done htype houtput hcontent htext =>
    have heventType : eventType v = .outputTextDone := by rw [eventType, htype.field]; rfl
    refine ⟨by rw [heventType]; decide, ?_⟩
    rw [typedPieces, heventType]
    simp only [houtput.indexOf, hcontent.indexOf, htext.field]
    rfl
  | @other kind htype hkind =>
    have hother := ofText_other hkind
    have heventType : eventType v = .ofText kind := by rw [eventType, htype.field]; rfl
    rw [typedPieces, heventType]
    cases hk : ResponseParser.EventType.ofText kind <;> simp_all

theorem partText_of_isPart {v : Json} {text : Option String} (h : IsPart v text) :
    partText v = text := by
  cases h with
  | text htype htext =>
    rw [partText, htype.get, htext.get]
    rfl
  | other htype houtput htext =>
    rw [partText, htype.get]
    simp [houtput, htext]

theorem partTexts_of_items {values : List Json} {items : List (List (Option String))}
    (h : List.Forall₂ (fun item parts => HasItems IsPart item "content" parts) values items) :
    joinTexts ((values.filterMap fun item => (item.get "content").bind Json.asArray).flatten.filterMap
      partText) = itemsText items := by
  induction h with
  | nil => rfl
  | @cons item parts values items hitem _ ih =>
    have hsplit : itemsText (parts :: items) =
        joinTexts (parts.filterMap id) ++ itemsText items := by
      rw [joinTexts_filterMap_id, itemsText, List.flatten_cons, List.map_append, joinTexts_append]
      rfl
    rw [hsplit, ← ih]
    obtain ⟨vs, hvs, hall⟩ | ⟨habsent, rfl⟩ := hitem
    · have hcontent : (item.get "content").bind Json.asArray = some vs := by
        rw [get_of_present hvs]
        rfl
      have hparts : vs.filterMap partText = parts.filterMap id :=
        filterMap_eq_of_forall₂ (fun _ _ hpart => partText_of_isPart hpart) hall
      rw [List.filterMap_cons, hcontent, List.flatten_cons, List.filterMap_append, joinTexts_append,
        hparts]
    · have hcontent : (item.get "content").bind Json.asArray = none := by
        rw [bind_eq_field rfl, field_of_absent habsent]
        rfl
      rw [List.filterMap_cons, hcontent]
      exact (String.empty_append).symm

theorem IsResponsesFinal.pieces {v : Json} (h : IsResponsesFinal v) : eventPieces v = [] := by
  obtain ⟨kind, htype, hkind⟩ := h.type
  have htyped : typedPieces v = [] := by
    rw [typedPieces, eventType, htype.field, Option.getD_some]
    simp only [List.mem_cons, List.not_mem_nil, or_false] at hkind
    rcases hkind with rfl | rfl | rfl
    all_goals rfl
  rw [eventPieces, htyped, choicePieces_of_absent h.no_choices]
  rfl

section
variable (serialize : Json → String)

theorem responses_messages {v : Json} {items : List (List (Option String))}
    (hv : IsResponsesAnswer v items) (htext : itemsText items ≠ "") :
    collectResponseMessages serialize v = [assistant (itemsText items)] := by
  obtain ⟨values, hvalues, hall⟩ | ⟨-, rfl⟩ := hv.items
  · have houtput : (v.get "output").bind Json.asArray = some values := by
      rw [get_of_present hvalues]
      rfl
    have htexts := partTexts_of_items hall
    rw [collectResponseMessages, pointer_choices hv.no_choices, Option.bind_none,
      bind_eq_field rfl, field_of_absent hv.no_output_text, houtput]
    simp only [Json.asStr, htexts]
    exact nonemptyMessage_of_ne htext
  · exact absurd rfl htext

theorem responses_text {kind : RequestKind} {events : List (SseEvent × ℕ)}
    {stream : List (List ((ℕ × ℕ) × Piece))} {items : List (List (Option String))}
    (h : CarriesResponse events stream) (hcut : ResponsesCutting stream items)
    (htext : itemsText items ≠ "") :
    (parseStream serialize kind events).text = itemsText items := by
  obtain ⟨body, final, offset, rest, rfl, hbody, hfinal, hrest⟩ := h
  have hplaces : ∀ place, ((fetchAll place stream.flatten).foldl pieced none).getD "" =
      (textAt (items.map fun parts => parts.map fun text => text.getD "") place).getD "" := by
    intro place
    obtain ⟨deltas, n, hdeltas, hfetch⟩ := hcut place
    have hjoined := foldl_pieced_deltas deltas none
    rw [hdeltas, Option.getD_none, String.empty_append] at hjoined
    rw [hfetch, List.foldl_append, foldl_pieced_whole _ n hjoined, partAt, textAt, List.getElem?_map]
    cases items[place.1]? with
    | none => rfl
    | some parts =>
      simp only [Option.map_some, Option.bind_some, List.getElem?_map]
      cases parts[place.2]? <;> rfl
  have hR : ∀ v pieces, IsResponsesEvent v pieces → eventType v ≠ .responseFinal ∧
      eventPieces v = pieces.map fun e => (placeKey e.1, e.2) := by
    rintro v pieces ⟨hchoices, hv⟩
    obtain ⟨hnot, htyped⟩ := typedPieces_of_responses hv
    refine ⟨hnot, ?_⟩
    rw [eventPieces, choicePieces_of_absent hchoices, List.append_nil, htyped]
  have hjoined :
      joinTexts (body.foldl (streamEvent serialize) { kind }).texts.values = itemsText items := by
    rw [stream_pieces serialize hR hbody hplaces, itemsText, List.map_flatten]
  -- with text there is something in the map when the final event comes
  have hne : (body.foldl (streamEvent serialize) { kind }).texts.entries ≠ [] := by
    intro hempty
    rw [OrdMap.values, hempty] at hjoined
    exact htext hjoined.symm
  have hfinaltexts : (streamEvent serialize (body.foldl (streamEvent serialize) { kind })
      (.json final, offset)).texts = (body.foldl (streamEvent serialize) { kind }).texts := by
    refine (event_texts serialize fun _ => hne).trans ?_
    rw [hfinal.pieces]
    rfl
  have hresttexts := stream_texts serialize rest (streamEvent serialize
    (body.foldl (streamEvent serialize) { kind }) (.json final, offset)) (by rw [hrest]; simp)
  rw [hrest, hfinaltexts] at hresttexts
  show joinTexts ((body ++ (SseEvent.json final, offset) :: rest).foldl
    (streamEvent serialize) { kind }).texts.values = _
  rw [List.foldl_append, List.foldl_cons, hresttexts]
  exact hjoined

/-! ### Whole or streamed -/

/-- However an answer with text is cut into a stream, the stream gives the assistant message of the
    document, and for chat completions its calls in its order and the same messages altogether. -/
theorem streamed_answer_parses_alike (kind : RequestKind) (events : List (SseEvent × ℕ)) (v : Json) :
    (∀ stream answer, IsChatAnswer v answer → Carries IsChatChunk events stream →
      ChatCutting stream answer → WithinLimits answer →
      (answer[0]?.bind ChatChoice.content).getD "" ≠ "" →
        collectResponseMessages serialize v = [assistant (parseStream serialize kind events).text] ∧
        (parseStream serialize kind events).toolCalls = (parseDocument serialize kind v).toolCalls ∧
        responseMessages serialize none (parseStream serialize kind events) =
          responseMessages serialize (some v) (parseDocument serialize kind v)) ∧
    (∀ stream blocks, IsAnthropicAnswer v blocks → Carries IsAnthropicEvent events stream →
      AnthropicCutting stream blocks → blocksText blocks ≠ "" →
        collectResponseMessages serialize v = [assistant (parseStream serialize kind events).text]) ∧
    (∀ stream items, IsResponsesAnswer v items → CarriesResponse events stream →
      ResponsesCutting stream items → itemsText items ≠ "" →
        collectResponseMessages serialize v = [assistant (parseStream serialize kind events).text]) := by
  refine ⟨?_, ?_, ?_⟩
  · intro stream answer hv h hcut hlimits htext
    obtain ⟨text, hcontent⟩ : ∃ text, answer[0]?.bind ChatChoice.content = some text := by
      cases hcontent : answer[0]?.bind ChatChoice.content with
      | none => rw [hcontent] at htext; exact absurd rfl htext
      | some text => exact ⟨text, rfl⟩
    have hstream : (parseStream serialize kind events).text = text := by
      rw [parseStream_text serialize h, hcut.content 0, hcontent, Option.getD_some]
    have hmessages := chat_messages serialize hv hcontent
    have hcalls : (parseStream serialize kind events).toolCalls =
        (parseDocument serialize kind v).toolCalls := chat_toolCalls serialize hv h hcut hlimits
    rw [hcontent, Option.getD_some] at htext
    refine ⟨by rw [hmessages, hstream], hcalls, ?_⟩
    rw [responseMessages, responseMessages, hcalls, hmessages, hstream, nonemptyMessage_of_ne htext]
  · intro stream blocks hv h hcut htext
    rw [anthropic_messages serialize hv htext, anthropic_text serialize h hcut]
  · intro stream items hv h hcut htext
    rw [responses_messages serialize hv htext, responses_text serialize h hcut htext]

end

/-- A chat answer with two calls. -/
def sampleAnswer : Json :=
  .obj [("choices", .arr [.obj [("message", .obj [("content", .str "hi"), ("tool_calls", .arr [
    .obj [("function", .obj [("arguments", .str "[1]"), ("name", .str "f")]), ("id", .str "a")],
    .obj [("function", .obj [("arguments", .str "[]"), ("name", .str "g")]), ("id", .str "b")]])])]])]

/-- A chunk with a delta of choice 0. -/
def sampleChunk (delta : List (String × Json)) : SseEvent × ℕ :=
  (.json (.obj [("choices", .arr [.obj [("delta", .obj delta), ("index", .int 0)]])]), 0)

/-- The fragments of the two calls between each other, the content in two pieces. -/
def sampleStream : List (SseEvent × ℕ) := [
  sampleChunk [("content", .str "h"), ("tool_calls", .arr [
    .obj [("function", .obj [("arguments", .str "["), ("name", .str "f")]), ("id", .str "a"),
      ("index", .int 0)]])],
  sampleChunk [("content", .null), ("tool_calls", .arr [
    .obj [("function", .obj [("name", .str "g")]), ("id", .str "b"), ("index", .int 1)],
    .obj [("function", .obj [("arguments", .str "1]")]), ("index", .int 0)]])],
  sampleChunk [("content", .str "i"), ("tool_calls", .arr [
    .obj [("function", .obj [("arguments", .str "[]")]), ("id", .null), ("index", .int 1)]])],
  (.done, 0)]

/-- What `sampleStream` carries. -/
def sampleDeltas : List (List ChoiceDelta) := [
  [⟨0, some "h", [⟨0, some "a", some "f", some "["⟩]⟩],
  [⟨0, none, [⟨1, some "b", some "g", none⟩, ⟨0, none, none, some "1]"⟩]⟩],
  [⟨0, some "i", [⟨1, none, none, some "[]"⟩]⟩]]

/-- What `sampleAnswer` says. -/
def sampleChoices : List ChatChoice := [⟨some "hi", [⟨"a", "f", "[1]"⟩, ⟨"b", "g", "[]"⟩]⟩]

theorem sampleAnswer_is : IsChatAnswer sampleAnswer sampleChoices where
  choices := .inl ⟨_, rfl, .cons ⟨rfl, .inl ⟨_, rfl,
    .cons ⟨rfl, rfl, rfl, rfl⟩ (.cons ⟨rfl, rfl, rfl, rfl⟩ .nil)⟩⟩ .nil⟩
  no_output := rfl
  no_content := rfl

theorem sampleStream_carries : Carries IsChatChunk sampleStream sampleDeltas := by
  have hindex : ∀ {v : Json} {n : ℕ}, n < 2 → present v "index" = some (.int n) → HasIndex v "index" n :=
    fun hn h => .inl ⟨h, by omega⟩
  refine .cons ⟨rfl, .inl ⟨_, rfl, .cons ⟨hindex (by decide) rfl, rfl, .inl ⟨_, rfl, ?_⟩⟩ .nil⟩⟩
    (.cons ⟨rfl, .inl ⟨_, rfl, .cons ⟨hindex (by decide) rfl, rfl, .inl ⟨_, rfl, ?_⟩⟩ .nil⟩⟩
    (.cons ⟨rfl, .inl ⟨_, rfl, .cons ⟨hindex (by decide) rfl, rfl, .inl ⟨_, rfl, ?_⟩⟩ .nil⟩⟩ .nil))
  · exact .cons ⟨hindex (by decide) rfl, rfl, rfl, rfl, rfl, rfl, rfl, rfl⟩ .nil
  · exact .cons ⟨hindex (by decide) rfl, rfl, rfl, rfl, rfl, rfl, rfl, rfl⟩
      (.cons ⟨hindex (by decide) rfl, rfl, rfl, rfl, rfl, rfl, rfl, rfl⟩ .nil)
  · exact .cons ⟨hindex (by decide) rfl, rfl, rfl, rfl, rfl, rfl, rfl, rfl⟩ .nil

theorem sampleDeltas_cut : ChatCutting sampleDeltas sampleChoices where
  content choice := by
    cases choice with
    | zero => rfl
    | succ n => rfl
  calls := by
    rintro ⟨_ | c, _ | _ | i⟩ call h
    · cases h
      exact ⟨⟨_, _, rfl, rfl, by simp [ChoiceDelta.fragments]⟩, rfl, rfl⟩
    · cases h
      exact ⟨⟨_, _, rfl, rfl, by simp [ChoiceDelta.fragments]⟩, rfl, rfl⟩
    all_goals cases h
  no_more := by
    rintro ⟨_ | c, _ | _ | i⟩ h
    · cases h
    · cases h
    all_goals rfl

theorem sampleChoices_within : WithinLimits sampleChoices := by
  constructor <;> decide

/-- A message of one block. -/
def sampleMessage : Json := .obj [("content", .arr [.obj [("text", .str "hi"), ("type", .str "text")]])]

/-- A piece of a block. -/
def sampleBlockDelta (text : String) : SseEvent × ℕ :=
  (.json (.obj [("delta", .obj [("text", .str text)]), ("index", .int 0),
    ("type", .str "content_block_delta")]), 0)

/-- The text of `sampleMessage` in two pieces. -/
def sampleMessageStream : List (SseEvent × ℕ) :=
  [sampleBlockDelta "h", sampleBlockDelta "i", (.json (.obj [("type", .str "message_stop")]), 0)]

theorem sampleMessageStream_carries :
    Carries IsAnthropicEvent sampleMessageStream [[(0, "h")], [(0, "i")], []] :=
  .cons ⟨rfl, @AnthropicSays.delta _ 0 (some "h") rfl (.inl ⟨rfl, by decide⟩) rfl⟩
    (.cons ⟨rfl, @AnthropicSays.delta _ 0 (some "i") rfl (.inl ⟨rfl, by decide⟩) rfl⟩
      (.cons ⟨rfl, .other rfl (by decide)⟩ .nil))

/-- A response of one part. -/
def sampleResponse : Json :=
  .obj [("output", .arr [.obj [("content", .arr [
    .obj [("text", .str "hi"), ("type", .str "output_text")]])]])]

/-- A piece of a part. -/
def samplePartDelta (text : String) : SseEvent × ℕ :=
  (.json (.obj [("content_index", .int 0), ("delta", .str text), ("output_index", .int 0),
    ("type", .str "response.output_text.delta")]), 0)

/-- The text of `sampleResponse` in two pieces. -/
def sampleResponseStream : List (SseEvent × ℕ) :=
  [samplePartDelta "h", samplePartDelta "i", (.json (.obj [("type", .str "response.completed")]), 0)]

theorem sampleResponseStream_carries :
    CarriesResponse sampleResponseStream [[((0, 0), .delta "h")], [((0, 0), .delta "i")]] := by
  refine ⟨[samplePartDelta "h", samplePartDelta "i"], _, _, [], rfl, ?_, ⟨⟨_, rfl, by decide⟩, rfl⟩, rfl⟩
  exact .cons ⟨rfl, .delta rfl (.inl ⟨rfl, by decide⟩) (.inl ⟨rfl, by decide⟩) rfl⟩
    (.cons ⟨rfl, .delta rfl (.inl ⟨rfl, by decide⟩) (.inl ⟨rfl, by decide⟩) rfl⟩ .nil)

/-- Two calls whose fragments come between each other, a message and a response in two pieces. -/
theorem streamed_answer_parses_alike_samples :
    (collectResponseMessages (fun _ => "") sampleAnswer =
        [assistant (parseStream (fun _ => "") .openAiChatCompletions sampleStream).text] ∧
      (parseStream (fun _ => "") .openAiChatCompletions sampleStream).toolCalls =
        [⟨"a", "f", "[1]"⟩, ⟨"b", "g", "[]"⟩]) ∧
    collectResponseMessages (fun _ => "") sampleMessage =
      [assistant (parseStream (fun _ => "") .anthropicMessages sampleMessageStream).text] ∧
    collectResponseMessages (fun _ => "") sampleResponse =
      [assistant (parseStream (fun _ => "") .openAiResponses sampleResponseStream).text] := by
  have hchat := (streamed_answer_parses_alike (fun _ => "") .openAiChatCompletions sampleStream
    sampleAnswer).1 sampleDeltas sampleChoices sampleAnswer_is sampleStream_carries sampleDeltas_cut
    sampleChoices_within (by decide)
  refine ⟨⟨hchat.1, hchat.2.1.trans (by decide)⟩, ?_, ?_⟩
  · refine (streamed_answer_parses_alike (fun _ => "") .anthropicMessages sampleMessageStream
      sampleMessage).2.1 _ [some "hi"] ⟨.inl ⟨_, rfl, .cons rfl .nil⟩, rfl, rfl, rfl⟩
      sampleMessageStream_carries ?_ (by decide)
    intro index
    cases index <;> rfl
  · have hresponse : IsResponsesAnswer sampleResponse [[some "hi"]] :=
      ⟨.inl ⟨_, rfl, .cons (.inl ⟨_, rfl, .cons (.text rfl rfl) .nil⟩) .nil⟩, rfl, rfl⟩
    refine (streamed_answer_parses_alike (fun _ => "") .openAiResponses sampleResponseStream
      sampleResponse).2.2 _ [[some "hi"]] hresponse sampleResponseStream_carries ?_ (by decide)
    rintro ⟨_ | i, _ | j⟩
    · exact ⟨["h", "i"], 0, rfl, rfl⟩
    all_goals exact ⟨[], 0, rfl, rfl⟩

end Llmtrace.Parsers
