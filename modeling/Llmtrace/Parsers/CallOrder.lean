import Llmtrace.Parsers.Chat
import Llmtrace.Parsers.Usage

/-! The order in which a response lists its tool calls (`tool`, `collect_tools`, `event` and `finish` in
    `parsers/response.rs`). A call is stored under a text that spells its place, and the calls are
    listed in the order of these texts. That is the order of the places as long as no two of them are
    compared as texts the other way round, as `2` and `10` are. The texts of the answer are kept under
    pairs of numbers, and need no such condition. -/

namespace Llmtrace.Parsers
open Schemes ResponseParser

/-! ### Places -/

/-- Where a call stands in a response. -/
inductive Place where
  | anthropic (index : ℤ)
  | chat (choice index : ℤ)
  | response (index : ℤ)
  deriving DecidableEq

namespace Place

/-- The key under which the parser keeps the call. -/
def key : Place → String
  | anthropic index => anthropicKey index
  | chat choice index => chatKey choice index
  | response index => responseKey index

/-- The order of the calls of one format: by choice and index, or by index. -/
def Before : Place → Place → Prop
  | anthropic i, anthropic j => i < j
  | chat c i, chat c' i' => c < c' ∨ c = c' ∧ i < i'
  | response i, response j => i < j
  | _, _ => False

theorem not_before_self (p : Place) : ¬p.Before p := by
  cases p with
  | anthropic index => exact lt_irrefl index
  | response index => exact lt_irrefl index
  | chat choice index =>
    rintro (h | ⟨-, h⟩)
    · exact lt_irrefl _ h
    · exact lt_irrefl _ h

end Place

theorem toList_toString (n : ℤ) : (toString n).toList =
    if n < 0 then '-' :: (Nat.repr n.natAbs).toList else (Nat.repr n.natAbs).toList := by
  cases n with
  | ofNat n => rfl
  | negSucc n =>
    rw [if_pos (Int.negSucc_lt_zero n)]
    change ("-" ++ Nat.repr (n + 1)).toList = _
    rw [String.toList_append]
    rfl

theorem minus_notMem_repr (n : ℕ) : '-' ∉ (Nat.repr n).toList := by
  intro h
  rw [Nat.toList_repr] at h
  exact absurd (Nat.isDigit_of_mem_toDigits (by decide) (by decide) h) (by decide)

theorem toString_injective {m n : ℤ} (h : (toString m).toList = (toString n).toList) : m = n := by
  rw [toList_toString, toList_toString] at h
  have habs : ∀ {a b : ℕ}, (Nat.repr a).toList = (Nat.repr b).toList → a = b :=
    fun hrepr => Nat.repr_injective (String.toList_injective hrepr)
  split at h
  · split at h
    · have := habs (List.cons.inj h).2
      omega
    · exact absurd (h ▸ List.mem_cons_self) (minus_notMem_repr n.natAbs)
  · split at h
    · exact absurd (h ▸ List.mem_cons_self) (minus_notMem_repr m.natAbs)
    · have := habs h
      omega

theorem colon_notMem_toString (n : ℤ) : ':' ∉ (toString n).toList := by
  rw [toList_toString]
  split
  · rw [List.mem_cons, not_or]
    exact ⟨by decide, colon_notMem_repr _⟩
  · exact colon_notMem_repr _

theorem key_injective : Function.Injective Place.key := by
  intro p q h
  have hlist := congrArg String.toList h
  -- the formats differ in the first character
  cases p <;> cases q <;> simp only [Place.key, anthropicKey, chatKey, responseKey, String.toList_append] at hlist
  case anthropic.anthropic i j => rw [toString_injective (List.append_cancel_left hlist)]
  case response.response i j => rw [toString_injective (List.append_cancel_left hlist)]
  case chat.chat c i c' i' =>
    have hcolon : ":".toList = [':'] := rfl
    rw [hcolon, List.append_cancel_left_eq, List.singleton_append, List.singleton_append] at hlist
    obtain ⟨hc, -, hi⟩ := (List.append_cons_inj_of_notMem (colon_notMem_toString c)
      (colon_notMem_toString i)).mp hlist
    rw [toString_injective hc, toString_injective hi]
  all_goals exact absurd (List.cons.inj hlist).1 (by decide)

/-! ### What a response says about its calls -/

/-- A value for a call: a fragment is appended. -/
abbrev CallPart := Json × Bool

/-- The fragments of calls in a choice of a chunk. -/
def choiceParts (choice : Json) : List (Place × CallPart) :=
  (((choice.field "delta").field "tool_calls").asArray.getD []).map fun tool =>
    (.chat (indexOf choice "index") (indexOf tool "index"), tool, true)

/-- The calls of a chat document. -/
def chatParts (value : Json) : List (Place × CallPart) :=
  (((value.get "choices").bind Json.asArray).getD []).zipIdx.flatMap fun (choice, c) =>
    (((Json.pointer ["message", "tool_calls"] choice).bind Json.asArray).getD []).zipIdx.map
      fun (tool, i) => (.chat c i, tool, false)

/-- The wanted items of a list, by their positions. -/
def indexedParts (place : ℤ → Place) (wanted : Json → Bool) (items : Option Json) :
    List (Place × CallPart) :=
  (((items.bind Json.asArray).getD []).zipIdx.filter fun (item, _) => wanted item).map
    fun (item, i) => (place i, item, false)

/-- The calls of a document. -/
def documentParts (value : Json) : List (Place × CallPart) :=
  chatParts value ++ (indexedParts .response isFunctionCall (value.get "output") ++
    indexedParts .anthropic isToolUse (value.get "content"))

/-- What the type of an event says about the calls. -/
def typedParts (value : Json) : List (Place × CallPart) :=
  let outputIndex := indexOf value "output_index"
  let index := indexOf value "index"
  match eventType value with
  | .responseFinal => documentParts (value.field "response")
  | .outputItem =>
    if isFunctionCall (value.field "item") then [(.response outputIndex, value.field "item", false)]
    else []
  | .functionArgumentsDelta =>
    [(.response outputIndex, argumentsOnly ((value.field "delta").asStr.getD ""), true)]
  | .contentBlockStart =>
    if isToolUse (value.field "content_block") then
      [(.anthropic index, value.field "content_block", false)]
    else []
  | .contentBlockDelta =>
    (((value.field "delta").field "partial_json").asStr.toList).map fun arguments =>
      (.anthropic index, argumentsOnly arguments, true)
  | _ => []

/-- What an event says about the calls. -/
def eventParts (value : Json) : List (Place × CallPart) :=
  typedParts value ++ (choicesOf value).flatMap choiceParts

/-- What a response says about its calls, in the order in which it is read. -/
def Response.parts : Response → List (Place × CallPart)
  | .document value => documentParts value
  | .stream events => (events.filterMap eventJson).flatMap eventParts

/-- The places of the calls of a response. -/
def Response.places (response : Response) : List Place := (response.parts.map Prod.fst).dedup

section
variable (serialize : Json → String)

/-- The call at a place after the parts that came for it. -/
def assembled (parts : List CallPart) (old : Option ToolCall) : Option ToolCall :=
  parts.foldl (fun old part => some (merged serialize part.2 (old.getD {}) part.1)) old

/-- The call of a response at a place. -/
def Response.callAt (response : Response) (place : Place) : ToolCall :=
  (assembled serialize (fetchAll place response.parts) none).getD {}

/-! ### The map of calls -/

/-- What a part does to the calls. -/
def addPart (tools : OrdMap String ToolCall) (entry : Place × CallPart) : OrdMap String ToolCall :=
  addTool serialize entry.2.2 tools (entry.1.key, entry.2.1)

theorem foldl_addTool_eq {append : Bool} : ∀ (parts : List (Place × CallPart))
    (tools : OrdMap String ToolCall), (∀ e ∈ parts, e.2.2 = append) →
    (parts.map fun e => (e.1.key, e.2.1)).foldl (addTool serialize append) tools =
      parts.foldl (addPart serialize) tools
  | [], _, _ => rfl
  | e :: parts, tools, h => by
      have he : e.2.2 = append := h e List.mem_cons_self
      rw [List.map_cons, List.foldl_cons, List.foldl_cons, addPart, he]
      exact foldl_addTool_eq parts _ fun e he => h e (List.mem_cons_of_mem _ he)

theorem toolAll_parts {append : Bool} {values : List (String × Json)} {parts : List (Place × CallPart)}
    (hvalues : values = parts.map fun e => (e.1.key, e.2.1)) (hparts : ∀ e ∈ parts, e.2.2 = append)
    (p : ResponseParser) :
    (p.toolAll serialize values append).tools = parts.foldl (addPart serialize) p.tools := by
  rw [toolAll_tools, hvalues, foldl_addTool_eq serialize parts _ hparts]

theorem chatTools_eq (value : Json) :
    chatTools value = (chatParts value).map fun e => (e.1.key, e.2.1) := by
  simp only [chatTools, chatParts, List.map_flatMap, List.map_map]
  rfl

theorem indexedItems_eq (key : ℤ → String) (place : ℤ → Place) (h : ∀ i, key i = (place i).key)
    (wanted : Json → Bool) (items : Option Json) :
    indexedItems key wanted items = (indexedParts place wanted items).map fun e => (e.1.key, e.2.1) := by
  simp only [indexedItems, indexedParts, List.map_map, h]
  rfl

theorem choiceTools_eq (choice : Json) :
    choiceTools choice = (choiceParts choice).map fun e => (e.1.key, e.2.1) := by
  simp only [choiceTools, choiceParts, List.map_map]
  rfl

theorem collectTools_parts (p : ResponseParser) (value : Json) :
    (p.collectTools serialize value).tools = (documentParts value).foldl (addPart serialize) p.tools := by
  have hindexed : ∀ place wanted items, ∀ e ∈ indexedParts place wanted items, e.2.2 = false := by
    intro place wanted items e he
    obtain ⟨item, -, rfl⟩ := List.mem_map.mp he
    rfl
  have hchat : ∀ e ∈ chatParts value, e.2.2 = false := by
    intro e he
    obtain ⟨choice, -, he⟩ := List.mem_flatMap.mp he
    obtain ⟨tool, -, rfl⟩ := List.mem_map.mp he
    rfl
  simp only [collectTools]
  rw [toolAll_parts serialize (indexedItems_eq anthropicKey .anthropic (fun _ => rfl) _ _) (hindexed .anthropic _ _),
    toolAll_parts serialize (indexedItems_eq responseKey .response (fun _ => rfl) _ _) (hindexed .response _ _),
    toolAll_parts serialize (chatTools_eq value) hchat, documentParts, List.foldl_append,
    List.foldl_append]

theorem typedEvent_parts (p : ResponseParser) (value : Json) :
    (p.typedEvent serialize value).1.tools = (typedParts value).foldl (addPart serialize) p.tools := by
  simp only [typedEvent, typedParts]
  cases eventType value with
  | messageStart | messageStop | responseCreated | other => rfl
  | responseFinal =>
    have hread := collectTools_parts serialize (p.observe (value.field "response")) (value.field "response")
    simp only
    split
    · exact hread
    · exact hread
  | outputTextDelta => exact textDelta_tools p _ _
  | outputTextDone =>
    simp only
    split <;> rfl
  | outputItem =>
    simp only
    split
    · exact tool_tools serialize p _ _ _
    · rfl
  | functionArgumentsDelta =>
    simp only
    exact tool_tools serialize p _ _ _
  | contentBlockStart =>
    simp only
    split
    · exact tool_tools serialize p _ _ _
    · exact textDelta_tools p _ _
  | contentBlockDelta =>
    simp only
    split
    · rename_i arguments harguments
      rw [harguments, tool_tools, textDelta_tools]
      rfl
    · rename_i harguments
      rw [harguments, textDelta_tools]
      rfl

theorem choiceEvents_parts (choices : List Json) (p : ResponseParser) :
    (p.choiceEvents serialize choices).1.tools =
      (choices.flatMap choiceParts).foldl (addPart serialize) p.tools := by
  have hparts : ∀ e ∈ choices.flatMap choiceParts, e.2.2 = true := by
    intro e he
    obtain ⟨choice, -, he⟩ := List.mem_flatMap.mp he
    obtain ⟨tool, -, rfl⟩ := List.mem_map.mp he
    rfl
  have hkeys : choices.flatMap choiceTools =
      (choices.flatMap choiceParts).map fun e => (e.1.key, e.2.1) := by
    rw [List.map_flatMap]
    exact congrArg (fun f => choices.flatMap f) (funext choiceTools_eq)
  rw [choiceEvents_tools, hkeys, foldl_addTool_eq serialize _ _ hparts]

theorem event_parts (p : ResponseParser) (value : Json) (offset : ℕ) :
    (p.event serialize value offset).tools = (eventParts value).foldl (addPart serialize) p.tools := by
  have hhandled : (handled serialize p value).1.tools =
      (eventParts value).foldl (addPart serialize) p.tools := by
    simp only [handled]
    rw [choiceEvents_parts, typedEvent_parts, eventParts, List.foldl_append]
    rfl
  rw [event_eq]
  split
  · exact hhandled
  · exact hhandled

theorem stream_parts : ∀ (events : List (SseEvent × ℕ)) (p : ResponseParser),
    (events.foldl (streamEvent serialize) p).tools =
      ((events.filterMap eventJson).flatMap eventParts).foldl (addPart serialize) p.tools
  | [], _ => rfl
  | (.json value, offset) :: events, p => by
      simp only [List.filterMap_cons, eventJson, List.flatMap_cons, List.foldl_append]
      rw [← event_parts serialize p value offset]
      exact stream_parts events _
  | (.done, _) :: events, p => stream_parts events { p with terminal := true }
  | (.empty, _) :: events, p => stream_parts events p
  | (.other, _) :: events, p => stream_parts events p

theorem parse_toolCalls (kind : RequestKind) (response : Response) :
    (response.parse serialize kind).toolCalls =
      (response.parts.foldl (addPart serialize) .empty).values := by
  rw [parse_eq]
  cases response with
  | document value => exact congrArg OrdMap.values (collectTools_parts serialize _ value)
  | stream events => exact congrArg OrdMap.values (stream_parts serialize events { kind })

/-- With few places no call is left out, and calls do not disturb each other. -/
theorem get_addParts {places : List Place} (hlen : places.length ≤ maxTools) (place : Place) :
    ∀ (parts : List (Place × CallPart)) (tools : OrdMap String ToolCall),
      (∀ e ∈ parts, e.1 ∈ places) → (∀ k t, tools.get k = some t → k ∈ places.map Place.key) →
      (parts.foldl (addPart serialize) tools).get place.key =
        assembled serialize (fetchAll place parts) (tools.get place.key)
  | [], _, _, _ => rfl
  | (q, part) :: parts, tools, hplaces, htools => by
      have hq : q.key ∈ places.map Place.key := List.mem_map_of_mem (hplaces _ List.mem_cons_self)
      have hadd : addPart serialize tools (q, part) =
          tools.insert q.key (merged serialize part.2 ((tools.get q.key).getD {}) part.1) := by
        refine if_neg fun h => ?_
        obtain ⟨hnone, hfull⟩ := Bool.and_eq_true_iff.mp h
        have := OrdMap.size_lt htools (Option.isNone_iff_eq_none.mp hnone) hq
        rw [List.length_map] at this
        exact absurd (of_decide_eq_true hfull) (by omega)
      rw [List.foldl_cons, hadd, get_addParts hlen place parts _
        (fun e he => hplaces e (List.mem_cons_of_mem _ he)) ?_]
      · by_cases h : q = place
        · subst h
          rw [OrdMap.get_insert_self, fetchAll_cons_self]
          rfl
        · rw [OrdMap.get_insert_ne _ (key_injective.ne (Ne.symm h)), fetchAll_cons_ne h]
      · intro k t ht
        rw [OrdMap.get_insert] at ht
        split at ht
        · rename_i h
          exact h ▸ hq
        · exact htools k t ht

theorem key_of_get_addParts {k : String} {t : ToolCall} : ∀ (parts : List (Place × CallPart))
    (tools : OrdMap String ToolCall), (parts.foldl (addPart serialize) tools).get k = some t →
    tools.get k = some t ∨ ∃ e ∈ parts, e.1.key = k
  | [], _, h => .inl h
  | e :: parts, tools, h => by
      by_cases hk : e.1.key = k
      · exact .inr ⟨e, List.mem_cons_self, hk⟩
      rcases key_of_get_addParts parts (addPart serialize tools e) h with hsome | ⟨e', he', hkey⟩
      · left
        unfold addPart addTool at hsome
        split at hsome
        · exact hsome
        · rwa [OrdMap.get_insert_ne _ (Ne.symm hk)] at hsome
      · exact .inr ⟨e', List.mem_cons_of_mem _ he', hkey⟩

theorem mem_places {response : Response} {place : Place} :
    place ∈ response.places ↔ ∃ part, (place, part) ∈ response.parts := by
  rw [Response.places, List.mem_dedup, List.mem_map]
  constructor
  · rintro ⟨⟨q, part⟩, he, rfl⟩
    exact ⟨part, he⟩
  · rintro ⟨part, he⟩
    exact ⟨(place, part), he, rfl⟩

/-- Every place has its call, put together from the parts that came for it. -/
theorem get_place {response : Response} (hfew : response.places.length ≤ maxTools) {place : Place}
    (hplace : place ∈ response.places) :
    (response.parts.foldl (addPart serialize) .empty).get place.key =
      some (response.callAt serialize place) := by
  rw [get_addParts serialize hfew place response.parts .empty
    (fun e he => mem_places.mpr ⟨e.2, he⟩) (by rintro k t ⟨⟩)]
  obtain ⟨part, hpart⟩ := mem_places.mp hplace
  have hne : fetchAll place response.parts ≠ [] := by
    have hmem : part ∈ fetchAll place response.parts :=
      List.mem_map.mpr ⟨(place, part), List.mem_filter.mpr ⟨hpart, by simp⟩, rfl⟩
    exact List.ne_nil_of_mem hmem
  rw [Response.callAt, OrdMap.get_empty]
  obtain ⟨first, rest, hparts⟩ := List.exists_cons_of_ne_nil hne
  rw [hparts]
  -- from the first part on there is a call
  have hsome : ∀ (parts : List CallPart) (call : ToolCall),
      ∃ call', assembled serialize parts (some call) = some call' := by
    intro parts
    induction parts with
    | nil => exact fun call => ⟨call, rfl⟩
    | cons part parts ih => exact fun call => ih _
  obtain ⟨call, hcall⟩ := hsome rest (merged serialize first.2 {} first.1)
  have hassembled : assembled serialize (first :: rest) none = some call := hcall
  rw [hassembled]
  rfl

/-! ### Listed by their keys -/

/-- The places in the order of their keys. -/
def byKey (places : List Place) : List Place := places.mergeSort fun p q => decide (p.key ≤ q.key)

theorem mem_byKey {places : List Place} {p : Place} : p ∈ byKey places ↔ p ∈ places :=
  (List.mergeSort_perm places _).mem_iff

theorem byKey_nodup (response : Response) : (byKey response.places).Nodup :=
  (List.mergeSort_perm _ _).nodup_iff.mpr (List.nodup_dedup _)

theorem byKey_ascending (response : Response) : (byKey response.places).Pairwise fun p q => p.key < q.key := by
  have hsorted : (byKey response.places).Pairwise fun p q => decide (p.key ≤ q.key) = true := by
    refine List.pairwise_mergeSort ?_ ?_ _
    · intro a b c hab hbc
      exact decide_eq_true ((of_decide_eq_true hab).trans (of_decide_eq_true hbc))
    · intro a b
      rcases le_total a.key b.key with h | h
      · rw [decide_eq_true h, Bool.true_or]
      · rw [decide_eq_true h, Bool.or_true]
  refine (hsorted.and (byKey_nodup response)).imp ?_
  rintro p q ⟨hle, hne⟩
  exact lt_of_le_of_ne (of_decide_eq_true hle) (key_injective.ne hne)

theorem toolCalls_byKey (kind : RequestKind) {response : Response}
    (hfew : response.places.length ≤ maxTools) :
    (response.parse serialize kind).toolCalls =
      (byKey response.places).map (response.callAt serialize) := by
  rw [parse_toolCalls]
  set tools := response.parts.foldl (addPart serialize) .empty with htools
  have hascending : Ascending ((byKey response.places).map fun p => (p.key, response.callAt serialize p)) :=
    List.pairwise_map.mpr (byKey_ascending response)
  have hentries : tools.entries =
      (byKey response.places).map fun p => (p.key, response.callAt serialize p) := by
    refine tools.ascending.ext hascending fun k => ?_
    cases hget : tools.get k with
    | some call =>
      -- a stored call has a place
      rcases key_of_get_addParts serialize _ _ hget with hempty | ⟨e, he, rfl⟩
      · cases hempty
      · have hplace : e.1 ∈ response.places := mem_places.mpr ⟨e.2, he⟩
        have hcall := get_place serialize hfew hplace
        rw [← htools, hget] at hcall
        rw [show fetch e.1.key tools.entries = some call from hget, hcall]
        exact (fetch_of_mem hascending (List.mem_map.mpr ⟨e.1, mem_byKey.mpr hplace, rfl⟩)).symm
    | none =>
      rw [show fetch k tools.entries = none from hget]
      cases hlisted : fetch k ((byKey response.places).map fun p => (p.key, response.callAt serialize p)) with
      | none => rfl
      | some call =>
        obtain ⟨p, hp, hpair⟩ := List.mem_map.mp (mem_of_fetch hlisted)
        obtain ⟨rfl, -⟩ := Prod.mk.inj hpair
        have hcall := get_place serialize hfew (mem_byKey.mp hp)
        rw [← htools, hget] at hcall
        cases hcall
  rw [OrdMap.values, hentries, List.map_map]
  rfl

end

/-! ### Listed by their places -/

/-- The keys of the places of a response are ordered as the places are. -/
def KeysAgree (response : Response) : Prop :=
  ∀ p ∈ response.places, ∀ q ∈ response.places, p.Before q → p.key < q.key

/-- The calls are those of the places, each once, and none stands behind a later one of its format. -/
def InOrder (serialize : Json → String) (response : Response) (calls : List ToolCall) : Prop :=
  ∃ listing : List Place, listing.Nodup ∧ (∀ p, p ∈ listing ↔ p ∈ response.places) ∧
    (listing.Pairwise fun p q => ¬q.Before p) ∧ calls = listing.map (response.callAt serialize)

/-- No two calls of the response are the same. -/
def Distinct (serialize : Json → String) (response : Response) : Prop :=
  ∀ p ∈ response.places, ∀ q ∈ response.places,
    response.callAt serialize p = response.callAt serialize q → p = q

theorem inOrder_of_keysAgree {serialize : Json → String} {kind : RequestKind} {response : Response}
    (hfew : response.places.length ≤ maxTools) (h : KeysAgree response) :
    InOrder serialize response (response.parse serialize kind).toolCalls := by
  refine ⟨byKey response.places, byKey_nodup response, fun p => mem_byKey, ?_,
    toolCalls_byKey serialize kind hfew⟩
  refine (byKey_ascending response).imp_of_mem fun {p q} hp hq hlt hbefore => ?_
  exact lt_asymm hlt (h q (mem_byKey.mp hq) p (mem_byKey.mp hp) hbefore)

/-- Lists whose images agree are the same, where different elements have different images. -/
theorem map_inj_on_mem {α β : Type*} {f : α → β} : ∀ {xs ys : List α},
    (∀ x ∈ xs, ∀ y ∈ ys, f x = f y → x = y) → xs.map f = ys.map f → xs = ys
  | [], [], _, _ => rfl
  | [], _ :: _, _, h => by cases h
  | _ :: _, [], _, h => by cases h
  | x :: xs, y :: ys, hinj, h => by
      obtain ⟨hhead, htail⟩ := List.cons.inj h
      obtain rfl := hinj x List.mem_cons_self y List.mem_cons_self hhead
      rw [map_inj_on_mem (fun x hx y hy => hinj x (List.mem_cons_of_mem _ hx) y (List.mem_cons_of_mem _ hy))
        htail]

theorem pairwise_either {α : Type*} {R : α → α → Prop} : ∀ {xs : List α}, xs.Pairwise R →
    ∀ {a b : α}, a ∈ xs → b ∈ xs → a ≠ b → R a b ∨ R b a
  | x :: xs, h, a, b, ha, hb, hne => by
      obtain ⟨hfirst, hrest⟩ := List.pairwise_cons.mp h
      rcases List.mem_cons.mp ha with hax | hax
      · rcases List.mem_cons.mp hb with hbx | hbx
        · exact absurd (hax.trans hbx.symm) hne
        · exact .inl (hax ▸ hfirst b hbx)
      · rcases List.mem_cons.mp hb with hbx | hbx
        · exact .inr (hbx ▸ hfirst a hax)
        · exact pairwise_either hrest hax hbx hne

theorem keysAgree_of_inOrder {serialize : Json → String} {kind : RequestKind} {response : Response}
    (hfew : response.places.length ≤ maxTools) (hdistinct : Distinct serialize response)
    (h : InOrder serialize response (response.parse serialize kind).toolCalls) : KeysAgree response := by
  obtain ⟨listing, -, hmem, horder, hcalls⟩ := h
  rw [toolCalls_byKey serialize kind hfew] at hcalls
  have hsame : byKey response.places = listing :=
    map_inj_on_mem (fun p hp q hq => hdistinct p (mem_byKey.mp hp) q ((hmem q).mp hq)) hcalls
  rw [← hsame] at horder
  intro p hp q hq hbefore
  have hne : p ≠ q := by
    rintro rfl
    exact p.not_before_self hbefore
  rcases pairwise_either ((byKey_ascending response).and horder) (mem_byKey.mpr hp) (mem_byKey.mpr hq) hne with
    ⟨hlt, -⟩ | ⟨-, hnot⟩
  · exact hlt
  · exact absurd hbefore hnot

/-- The calls are listed by their places where the keys of the places are in the same order, and, as far
    as the calls can be told apart, nowhere else. -/
theorem tool_calls_in_order_iff (serialize : Json → String) (kind : RequestKind) (response : Response)
    (hfew : response.places.length ≤ maxTools) :
    (KeysAgree response → InOrder serialize response (response.parse serialize kind).toolCalls) ∧
      (Distinct serialize response →
        (InOrder serialize response (response.parse serialize kind).toolCalls ↔ KeysAgree response)) :=
  ⟨inOrder_of_keysAgree hfew,
    fun hdistinct => ⟨keysAgree_of_inOrder hfew hdistinct, inOrder_of_keysAgree hfew⟩⟩

/-- A finished item of the output that calls a function. -/
def callItem (index : ℤ) (id : String) : Json :=
  .obj [("item", .obj [("arguments", .str ""), ("call_id", .str id), ("name", .str "run"),
      ("type", .str "function_call")]),
    ("output_index", .int index), ("type", .str "response.output_item.done")]

/-- Two calls of a stream, the items 2 and 10 of its output. -/
def twoAndTen : Response :=
  .stream [(.json (callItem 2 "first"), 150), (.json (callItem 10 "second"), 300)]

theorem places_twoAndTen : twoAndTen.places = [.response 2, .response 10] := by decide +kernel

theorem calls_twoAndTen :
    (twoAndTen.callAt (fun _ => "") (.response 2)).id = "first" ∧
      (twoAndTen.callAt (fun _ => "") (.response 10)).id = "second" := by decide +kernel

theorem distinct_twoAndTen : Distinct (fun _ => "") twoAndTen := by
  intro p hp q hq heq
  rw [places_twoAndTen] at hp hq
  obtain ⟨hfirst, hsecond⟩ := calls_twoAndTen
  have hid := congrArg ToolCall.id heq
  rcases List.mem_pair.mp hp with rfl | rfl
  · rcases List.mem_pair.mp hq with rfl | rfl
    · rfl
    · rw [hfirst, hsecond] at hid
      exact absurd hid (by decide)
  · rcases List.mem_pair.mp hq with rfl | rfl
    · rw [hfirst, hsecond] at hid
      exact absurd hid (by decide)
    · rfl

/-- As texts, ten comes before two. -/
theorem not_keysAgree_twoAndTen : ¬KeysAgree twoAndTen := by
  intro h
  rw [KeysAgree, places_twoAndTen] at h
  have htwo : (2 : ℤ) < 10 := by decide
  have hlt := h (.response 2) (by simp) (.response 10) (by simp) htwo
  exact absurd hlt (by decide +kernel)

/-- The items 2 and 5. -/
def twoAndFive : Response :=
  .stream [(.json (callItem 2 "first"), 150), (.json (callItem 5 "second"), 300)]

theorem places_twoAndFive : twoAndFive.places = [.response 2, .response 5] := by decide +kernel

theorem keysAgree_twoAndFive : KeysAgree twoAndFive := by
  intro p hp q hq hbefore
  rw [places_twoAndFive] at hp hq
  rcases List.mem_pair.mp hp with rfl | rfl
  · rcases List.mem_pair.mp hq with rfl | rfl
    · exact absurd hbefore (Place.not_before_self _)
    · decide +kernel
  · rcases List.mem_pair.mp hq with rfl | rfl
    · have hlt : (5 : ℤ) < 2 := hbefore
      omega
    · exact absurd hbefore (Place.not_before_self _)

/-- The calls of items 2 and 5 are listed in order; those of items 2 and 10 would have to agree. -/
theorem tool_calls_in_order_iff_pairs :
    InOrder (fun _ => "") twoAndFive (twoAndFive.parse (fun _ => "") .openAiResponses).toolCalls ∧
    (InOrder (fun _ => "") twoAndTen (twoAndTen.parse (fun _ => "") .openAiResponses).toolCalls ↔
      KeysAgree twoAndTen) :=
  ⟨(tool_calls_in_order_iff _ _ _ (by rw [places_twoAndFive]; decide)).1 keysAgree_twoAndFive,
    (tool_calls_in_order_iff _ _ _ (by rw [places_twoAndTen]; decide)).2 distinct_twoAndTen⟩

/-- The call of item 10 is listed in front of that of item 2. -/
theorem calls_out_of_order : twoAndTen.places.length ≤ maxTools ∧
    ¬InOrder (fun _ => "") twoAndTen (twoAndTen.parse (fun _ => "") .openAiResponses).toolCalls := by
  have hfew : twoAndTen.places.length ≤ maxTools := by
    rw [places_twoAndTen]
    decide
  exact ⟨hfew, fun h => not_keysAgree_twoAndTen (keysAgree_of_inOrder hfew distinct_twoAndTen h)⟩

end Llmtrace.Parsers
