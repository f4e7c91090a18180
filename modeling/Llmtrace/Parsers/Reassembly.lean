import Llmtrace.Parsers.Arrivals

/-! The browser and the server put the same chat stream together. For a field of a call, or the content
    of a choice, a stream is a list of operations: a text that is added, or a `null` that the browser
    takes for an erasure. What the browser has at the end is what was added since the last erasure; the
    server has the whole of it, and of the ids the last. -/

namespace Llmtrace.Parsers
open Schemes ResponseParser

/-! ### Chunks with their nulls -/

/-- A text field of a delta. -/
inductive Slot where
  | absent
  | null
  | text (text : String)

/-- The JSON of the field, where it is there. -/
def Slot.json : Slot → Option Json
  | .absent => none
  | .null => some .null
  | .text s => some (.str s)

/-- The text of the field; a `null` says nothing. -/
def Slot.said : Slot → Option String
  | .text s => some s
  | _ => none

/-- The field `function` of a fragment. -/
inductive FunctionSlot where
  | absent
  | null
  | object (name arguments : Slot)

/-- A fragment of a call, with its nulls. -/
structure RawTool where
  index : ℕ
  id : Slot
  function : FunctionSlot

/-- The field `tool_calls` of a delta. -/
inductive ToolsSlot where
  | absent
  | null
  | items (tools : List RawTool)

/-- A choice of a chunk, with its nulls. -/
structure RawChoice where
  index : ℕ
  content : Slot
  tools : ToolsSlot

/-- The function of a fragment. -/
inductive HasFunction (fields : Fields) : FunctionSlot → Prop
  | absent : fetch "function" fields = none → HasFunction fields .absent
  | null : fetch "function" fields = some .null → HasFunction fields .null
  | object {function : Fields} {name arguments : Slot} :
    fetch "function" fields = some (.obj function) → Ascending function →
    fetch "name" function = name.json → fetch "arguments" function = arguments.json →
    HasFunction fields (.object name arguments)

/-- A value is the fragment of a call. -/
structure IsRawTool (v : Json) (tool : RawTool) (fields : Fields) : Prop where
  object : v = .obj fields
  ascending : Ascending fields
  index : fetch "index" fields = some (.int tool.index)
  index_lt : tool.index < 65536
  id : fetch "id" fields = tool.id.json
  function : HasFunction fields tool.function
  no_call_id : fetch "call_id" fields = none
  no_name : fetch "name" fields = none
  no_arguments : fetch "arguments" fields = none
  no_input : fetch "input" fields = none

/-- The field `tool_calls` of a delta is this one. -/
inductive HasTools (fields : Fields) : ToolsSlot → Prop
  | absent : fetch "tool_calls" fields = none → HasTools fields .absent
  | null : fetch "tool_calls" fields = some .null → HasTools fields .null
  | items {values : List Json} {tools : List RawTool} :
    fetch "tool_calls" fields = some (.arr values) →
    List.Forall₂ (fun v tool => ∃ fields, IsRawTool v tool fields) values tools →
    HasTools fields (.items tools)

/-- A value is a choice of a chunk. -/
structure IsRawChoice (v : Json) (choice : RawChoice) (fields delta : Fields) : Prop where
  object : v = .obj fields
  index : fetch "index" fields = some (.int choice.index)
  index_lt : choice.index < 65536
  no_message : fetch "message" fields = none
  has_delta : fetch "delta" fields = some (.obj delta)
  ascending : Ascending delta
  content : fetch "content" delta = choice.content.json
  tools : HasTools delta choice.tools

/-- A chunk of a chat stream: its choices and calls carry their indices, and every index in it is an
    integer below 65536. -/
structure IsRawChunk (v : Json) (chunk : List RawChoice) : Prop where
  no_type : v.get "type" = none
  no_indices : ∀ key ∈ ["index", "output_index", "content_index", "summary_index"], v.get key = none
  choices : ∃ values, v.get "choices" = some (.arr values) ∧ safeDelta (.arr values) = true ∧
    List.Forall₂ (fun v choice => ∃ fields delta, IsRawChoice v choice fields delta) values chunk

/-! ### Operations -/

/-- What a delta does to a text: a `null` clears it. -/
inductive Op where
  | add (text : String)
  | clear
  deriving DecidableEq

/-- The text after an operation. -/
def Op.apply (old : String) : Op → String
  | add text => old ++ text
  | clear => ""

/-- What a field of a delta does to its text. -/
def Slot.ops : Slot → List Op
  | .absent => []
  | .null => [.clear]
  | .text s => [.add s]

/-- The fields of a call. -/
inductive CallField where
  | id
  | name
  | arguments

/-- The field of a call. -/
def ToolCall.at (tool : ToolCall) : CallField → String
  | .id => tool.id
  | .name => tool.name
  | .arguments => tool.arguments

/-- What a function does to the field that `pick` names. -/
def FunctionSlot.ops (pick : Slot → Slot → Slot) : FunctionSlot → List Op
  | .absent => []
  | .null => [.clear]
  | .object name arguments => (pick name arguments).ops

/-- What a fragment does to a field of its call. -/
def RawTool.ops (tool : RawTool) : CallField → List Op
  | .id => tool.id.ops
  | .name => tool.function.ops fun name _ => name
  | .arguments => tool.function.ops fun _ arguments => arguments

/-- What a delta does to a field of the call at `index`. -/
def ToolsSlot.ops (field : CallField) (index : ℕ) : ToolsSlot → List Op
  | absent => []
  | null => [.clear]
  | items tools => (tools.filter fun tool => tool.index = index).flatMap fun tool => tool.ops field

/-- What a stream does to the content of a choice. -/
def contentOps (stream : List (List RawChoice)) (index : ℕ) : List Op :=
  stream.flatten.flatMap fun choice => if choice.index = index then choice.content.ops else []

/-- What a stream does to a field of the call at a place. -/
def callOps (stream : List (List RawChoice)) (field : CallField) (place : ℕ × ℕ) : List Op :=
  stream.flatten.flatMap fun choice =>
    if choice.index = place.1 then choice.tools.ops field place.2 else []

theorem ops_items_cons (field : CallField) (i : ℕ) (tool : RawTool) (tools : List RawTool) :
    (ToolsSlot.items (tool :: tools)).ops field i =
      (if tool.index = i then tool.ops field else []) ++ (ToolsSlot.items tools).ops field i := by
  simp only [ToolsSlot.ops, List.filter_cons, decide_eq_true_eq]
  split <;> rfl

/-! ### The browser -/

/-- The text that a field shows. -/
def shown : Option Held → String
  | some (.str text) => text
  | _ => ""

/-- The field of a call in the browser's objects. -/
def callText (part : Option Held) : CallField → String
  | .id => shown (fetch "id" (objectOf part))
  | .name => shown (fetch "name" (objectOf (fetch "function" (objectOf part))))
  | .arguments => shown (fetch "arguments" (objectOf (fetch "function" (objectOf part))))

/-- The object of a choice. -/
def Chat.target (chat : Chat) (index : ℕ) : HeldFields := (chat.get index).getD []

/-- The content that a choice shows. -/
def Chat.content (chat : Chat) (index : ℕ) : String := shown (fetch "content" (chat.target index))

/-- The object of a call. -/
def Chat.part (chat : Chat) (place : ℕ × ℕ) : Option Held :=
  (arrayOf (fetch "tool_calls" (chat.target place.1)))[place.2]?

/-- The call that is shown at a place. -/
def Chat.call (chat : Chat) (place : ℕ × ℕ) : ToolCall :=
  ⟨callText (chat.part place) .id, callText (chat.part place) .name, callText (chat.part place) .arguments⟩

/-- A text, or nothing. -/
def Textual : Option Held → Prop
  | none | some .null | some (.str _) => True
  | _ => False

/-- The fields of a call hold texts or nothing. -/
structure PartOk (part : Option Held) : Prop where
  id : Textual (fetch "id" (objectOf part))
  name : Textual (fetch "name" (objectOf (fetch "function" (objectOf part))))
  arguments : Textual (fetch "arguments" (objectOf (fetch "function" (objectOf part))))

/-- The content and the calls of a choice hold texts or nothing. -/
structure TargetOk (target : HeldFields) : Prop where
  content : Textual (fetch "content" target)
  parts : ∀ i : ℕ, PartOk (arrayOf (fetch "tool_calls" target))[i]?

theorem partOk_none {part : Option Held} (h : objectOf part = []) : PartOk part := by
  constructor <;> rw [h] <;> trivial

theorem callText_eq_nil {part : Option Held} (h : objectOf part = []) (field : CallField) :
    callText part field = "" := by
  cases field <;> rw [callText, h] <;> rfl

section
variable {numberText : Held → String}

variable (numberText) in
/-- A field after a slot of a delta. -/
def afterSlot (old : Option Held) (slot : Slot) : Option Held :=
  match slot.json with
  | some value => mergeValue numberText old value
  | none => old

theorem textOf_textual {old : Option Held} (h : Textual old) : textOf numberText old = some (shown old) := by
  rcases old with _ | (_ | _ | _ | _ | _ | _ | _)
  all_goals first | rfl | exact h.elim

theorem textual_afterSlot {old : Option Held} (h : Textual old) (slot : Slot) :
    Textual (afterSlot numberText old slot) := by
  cases slot with
  | absent => exact h
  | null => trivial
  | text text =>
    simp only [afterSlot, Slot.json, mergeValue, textOf_textual h, Option.map_some]
    trivial

theorem shown_afterSlot {old : Option Held} (h : Textual old) (slot : Slot) :
    shown (afterSlot numberText old slot) = slot.ops.foldl Op.apply (shown old) := by
  cases slot with
  | absent => rfl
  | null => rfl
  | text text =>
    simp only [afterSlot, Slot.json, mergeValue, textOf_textual h, Option.map_some]
    rfl

theorem fetch_mergeDelta_slot {key : String} (hindex : key ≠ "index") (hrole : key ≠ "role")
    {delta : Fields} {target merged : HeldFields} (hasc : Ascending delta)
    (hmerged : mergeDelta numberText target delta = some merged) {slot : Slot}
    (h : fetch key delta = slot.json) :
    fetch key merged = afterSlot numberText (fetch key target) slot := by
  have hfetch := fetch_mergeDelta hindex hrole hasc hmerged
  rw [h] at hfetch
  cases slot with
  | absent => exact hfetch
  | null | text =>
    obtain ⟨held, hheld, hsome⟩ := hfetch
    exact hsome.trans hheld.symm

/-- A field for which an object comes. -/
theorem fetch_mergeDelta_object {key : String} (hindex : key ≠ "index") (hrole : key ≠ "role")
    {delta fields : Fields} {target merged : HeldFields} (hasc : Ascending delta)
    (hmerged : mergeDelta numberText target delta = some merged)
    (h : fetch key delta = some (.obj fields)) :
    mergeDelta numberText (objectOf (fetch key target)) fields = some (objectOf (fetch key merged)) := by
  have hfetch := fetch_mergeDelta hindex hrole hasc hmerged
  rw [h] at hfetch
  obtain ⟨held, hheld, hsome⟩ := hfetch
  rw [mergeValue] at hheld
  obtain ⟨new, hnew, rfl⟩ := Option.map_eq_some_iff.mp hheld
  rw [hnew, hsome]
  rfl

/-- A field for which a list comes. -/
theorem fetch_mergeDelta_list {key : String} (hindex : key ≠ "index") (hrole : key ≠ "role")
    {delta : Fields} {items : List Json} {target merged : HeldFields} (hasc : Ascending delta)
    (hmerged : mergeDelta numberText target delta = some merged)
    (h : fetch key delta = some (.arr items)) :
    mergeParts numberText (arrayOf (fetch key target)) 0 items = some (arrayOf (fetch key merged)) := by
  have hfetch := fetch_mergeDelta hindex hrole hasc hmerged
  rw [h] at hfetch
  obtain ⟨held, hheld, hsome⟩ := hfetch
  rw [mergeValue] at hheld
  obtain ⟨new, hnew, rfl⟩ := Option.map_eq_some_iff.mp hheld
  rw [hnew, hsome]
  rfl

/-- A field of the function after a fragment. -/
theorem function_step {fields : Fields} {function : FunctionSlot} (h : HasFunction fields function)
    (hasc : Ascending fields) {key : String} (hindex : key ≠ "index") (hrole : key ≠ "role")
    (pick : Slot → Slot → Slot)
    (hpick : ∀ (f : Fields) (name arguments : Slot), fetch "name" f = name.json →
      fetch "arguments" f = arguments.json → fetch key f = (pick name arguments).json)
    {target merged : HeldFields} (hmerged : mergeDelta numberText target fields = some merged)
    (hok : Textual (fetch key (objectOf (fetch "function" target)))) :
    Textual (fetch key (objectOf (fetch "function" merged))) ∧
      shown (fetch key (objectOf (fetch "function" merged))) =
        (function.ops pick).foldl Op.apply (shown (fetch key (objectOf (fetch "function" target)))) := by
  cases h with
  | absent hf =>
    have hsame : fetch "function" merged = fetch "function" target :=
      fetch_mergeDelta_slot (by decide) (by decide) hasc hmerged (show _ = Slot.absent.json from hf)
    rw [hsame]
    exact ⟨hok, rfl⟩
  | null hf =>
    have hnull : fetch "function" merged = some .null :=
      fetch_mergeDelta_slot (by decide) (by decide) hasc hmerged (show _ = Slot.null.json from hf)
    rw [hnull]
    exact ⟨trivial, rfl⟩
  | object hf hfasc hname harguments =>
    have hobject := fetch_mergeDelta_object (by decide) (by decide) hasc hmerged hf
    rw [fetch_mergeDelta_slot hindex hrole hfasc hobject (hpick _ _ _ hname harguments)]
    exact ⟨textual_afterSlot hok _, shown_afterSlot hok _⟩

/-- A part after a fragment, field by field. -/
theorem part_step {v : Json} {tool : RawTool} {fields : Fields} (h : IsRawTool v tool fields)
    {part : Option Held} (hok : PartOk part) {merged : HeldFields} {parsed : Bool}
    (hmerged : mergeDelta numberText (objectOf part) fields = some merged) :
    PartOk (some (.obj parsed merged)) ∧
      ∀ field, callText (some (.obj parsed merged)) field =
        (tool.ops field).foldl Op.apply (callText part field) := by
  have hid : fetch "id" merged = afterSlot numberText (fetch "id" (objectOf part)) tool.id :=
    fetch_mergeDelta_slot (by decide) (by decide) h.ascending hmerged h.id
  obtain ⟨hname, hnametext⟩ := function_step h.function h.ascending (by decide) (by decide)
    (fun name _ => name) (fun _ _ _ hname _ => hname) hmerged hok.name
  obtain ⟨harguments, hargumentstext⟩ := function_step h.function h.ascending (by decide)
    (by decide) (fun _ arguments => arguments) (fun _ _ _ _ harguments => harguments) hmerged
    hok.arguments
  refine ⟨⟨?_, hname, harguments⟩, ?_⟩
  · simp only [objectOf] at hid ⊢
    rw [hid]
    exact textual_afterSlot hok.id _
  · rintro (_ | _ | _)
    · simp only [callText, objectOf] at hid ⊢
      rw [hid]
      exact shown_afterSlot hok.id _
    · exact hnametext
    · exact hargumentstext

theorem PartOk.congr {part part' : Option Held} (heq : objectOf part = objectOf part')
    (h : PartOk part) : PartOk part' := by
  obtain ⟨hid, hname, harguments⟩ := h
  rw [heq] at hid hname harguments
  exact ⟨hid, hname, harguments⟩

theorem callText_congr {part part' : Option Held} (heq : objectOf part = objectOf part')
    (field : CallField) : callText part field = callText part' field := by
  cases field <;> simp only [callText, heq]

/-- The parts after one fragment: its own is merged, the others are as they were. -/
theorem mergePart_step {v : Json} {tool : RawTool} {fields : Fields} (h : IsRawTool v tool fields)
    {parts merged : List Held} (hok : ∀ i : ℕ, PartOk parts[i]?) {position : ℕ}
    (hmerged : mergePart numberText parts position v = some merged) (i : ℕ) :
    PartOk merged[i]? ∧
      ∀ field, callText merged[i]? field =
        (if tool.index = i then tool.ops field else []).foldl Op.apply (callText parts[i]? field) := by
  have hindex : indexOr fields position = tool.index := by
    rw [indexOr, h.index]
    exact Int.toNat_natCast _
  rw [h.object, mergePart, hindex] at hmerged
  obtain ⟨part, hpart, rfl⟩ := Option.map_eq_some_iff.mp hmerged
  rw [getElem?_setAt]
  by_cases hi : i = tool.index
  · subst hi
    rw [if_pos rfl]
    simp only [if_true]
    exact part_step h (hok tool.index) hpart
  · rw [if_neg hi]
    have hsame := objectOf_padded parts (tool.index + 1 - parts.length) i
    refine ⟨(hok i).congr hsame.symm, fun field => ?_⟩
    rw [if_neg (Ne.symm hi), callText_congr hsame]
    rfl

theorem mergeParts_run {values : List Json} {tools : List RawTool}
    (h : List.Forall₂ (fun v tool => ∃ fields, IsRawTool v tool fields) values tools) :
    ∀ {parts merged : List Held} {position : ℕ}, (∀ i : ℕ, PartOk parts[i]?) →
      mergeParts numberText parts position values = some merged → ∀ i : ℕ,
      PartOk merged[i]? ∧
        ∀ field, callText merged[i]? field =
          ((ToolsSlot.items tools).ops field i).foldl Op.apply (callText parts[i]? field) := by
  induction h with
  | nil =>
    intro parts merged position hok hmerged i
    cases hmerged
    exact ⟨hok i, fun field => rfl⟩
  | @cons v tool values tools hv _ ih =>
    intro parts merged position hok hmerged i
    obtain ⟨fields, hv⟩ := hv
    rw [mergeParts, Option.bind_eq_some_iff] at hmerged
    obtain ⟨next, hnext, hrest⟩ := hmerged
    have hstep := mergePart_step hv hok hnext
    obtain ⟨hpart, htext⟩ := ih (fun j => (hstep j).1) hrest i
    refine ⟨hpart, fun field => ?_⟩
    rw [htext field, (hstep i).2 field, ← List.foldl_append]
    rw [ops_items_cons]

/-- The object of a choice after a delta. -/
theorem target_step {v : Json} {choice : RawChoice} {fields delta : Fields}
    (h : IsRawChoice v choice fields delta) {target merged : HeldFields} (hok : TargetOk target)
    (hmerged : mergeDelta numberText target delta = some merged) :
    TargetOk merged ∧
      shown (fetch "content" merged) =
        choice.content.ops.foldl Op.apply (shown (fetch "content" target)) ∧
      ∀ (i : ℕ) field, callText (arrayOf (fetch "tool_calls" merged))[i]? field =
        (choice.tools.ops field i).foldl Op.apply
          (callText (arrayOf (fetch "tool_calls" target))[i]? field) := by
  have hcontent : fetch "content" merged =
      afterSlot numberText (fetch "content" target) choice.content :=
    fetch_mergeDelta_slot (by decide) (by decide) h.ascending hmerged h.content
  have hshown : shown (fetch "content" merged) =
      choice.content.ops.foldl Op.apply (shown (fetch "content" target)) := by
    rw [hcontent, shown_afterSlot hok.content]
  have htextual : Textual (fetch "content" merged) :=
    hcontent ▸ textual_afterSlot hok.content choice.content
  obtain ⟨index, content, tools⟩ := choice
  cases h.tools with
  | absent hnone =>
    have hsame : fetch "tool_calls" merged = fetch "tool_calls" target :=
      fetch_mergeDelta_slot (by decide) (by decide) h.ascending hmerged
        (show _ = Slot.absent.json from hnone)
    refine ⟨⟨htextual, ?_⟩, hshown, ?_⟩
    · rw [hsame]
      exact hok.parts
    · intro i field
      rw [hsame]
      rfl
  | null hnull =>
    have hcleared : fetch "tool_calls" merged = some .null :=
      fetch_mergeDelta_slot (by decide) (by decide) h.ascending hmerged
        (show _ = Slot.null.json from hnull)
    refine ⟨⟨htextual, ?_⟩, hshown, ?_⟩
    · intro i
      rw [hcleared]
      exact partOk_none rfl
    · intro i field
      rw [hcleared]
      exact callText_eq_nil rfl field
  | items harr hall =>
    have hrun := mergeParts_run hall hok.parts
      (fetch_mergeDelta_list (by decide) (by decide) h.ascending hmerged harr)
    exact ⟨⟨htextual, fun i => (hrun i).1⟩, hshown, fun i field => (hrun i).2 field⟩

/-- The browser's objects are what the operations of the choices so far give. -/
structure Built (chat : Chat) (choices : List RawChoice) : Prop where
  ok : ∀ index, TargetOk (chat.target index)
  content : ∀ index, chat.content index = (contentOps [choices] index).foldl Op.apply ""
  call : ∀ place field,
    callText (chat.part place) field = (callOps [choices] field place).foldl Op.apply ""

theorem built_empty : Built .empty [] where
  ok _ := ⟨trivial, fun _ => partOk_none rfl⟩
  content _ := rfl
  call _ field := callText_eq_nil rfl field

theorem contentOps_append (choices more : List RawChoice) (index : ℕ) :
    contentOps [choices ++ more] index = contentOps [choices] index ++ contentOps [more] index := by
  simp [contentOps]

theorem callOps_append (choices more : List RawChoice) (field : CallField) (place : ℕ × ℕ) :
    callOps [choices ++ more] field place =
      callOps [choices] field place ++ callOps [more] field place := by
  simp [callOps]

/-- The index of a choice and its delta are all that is read of it. -/
theorem mergeChoice_eq {v : Json} {choice : RawChoice} {fields delta : Fields}
    (h : IsRawChoice v choice fields delta) (chat : Chat) (position : ℕ) :
    mergeChoice numberText chat position v =
      (mergeDelta numberText (chat.target choice.index) delta).map (chat.insert choice.index) := by
  have hindex : indexOr fields position = choice.index := by
    rw [indexOr, h.index]
    exact Int.toNat_natCast _
  rw [h.object, mergeChoice, hindex, h.no_message, h.has_delta]
  rfl

theorem target_insert (chat : Chat) (i index : ℕ) (merged : HeldFields) :
    Chat.target (chat.insert i merged) index = if index = i then merged else chat.target index := by
  rw [Chat.target, OrdMap.get_insert]
  split <;> rfl

variable (numberText) in
/-- An event of a chat stream is no more than its choices. -/
theorem chatEvent_eq {v : Json} {chunk : List RawChoice} (h : IsRawChunk v chunk) :
    ∃ values, v.get "choices" = some (.arr values) ∧
      List.Forall₂ (fun v choice => ∃ fields delta, IsRawChoice v choice fields delta) values chunk ∧
      ∀ chat, chatEvent numberText chat v = mergeChoices numberText chat 0 values := by
  obtain ⟨values, hvalues, hsafe, hall⟩ := h.choices
  have hvalid : (["index", "output_index", "content_index", "summary_index"].all fun key =>
      validIndex (v.get key)) = true := by
    refine List.all_eq_true.mpr fun key hkey => ?_
    rw [h.no_indices key hkey]
    rfl
  refine ⟨values, hvalues, hall, fun chat => ?_⟩
  rw [chatEvent, hvalid, hvalues]
  simp only [Option.all_some, hsafe, Bool.and_self, if_true]

theorem Built.mergeChoice {chat merged : Chat} {choices : List RawChoice} (hbuilt : Built chat choices)
    {v : Json} {choice : RawChoice} {fields delta : Fields} (h : IsRawChoice v choice fields delta)
    {position : ℕ} (hmerged : mergeChoice numberText chat position v = some merged) :
    Built merged (choices ++ [choice]) := by
  rw [mergeChoice_eq h] at hmerged
  obtain ⟨target, htarget, rfl⟩ := Option.map_eq_some_iff.mp hmerged
  obtain ⟨hok, hcontent, hcall⟩ := target_step h (hbuilt.ok choice.index) htarget
  constructor
  · intro index
    rw [target_insert]
    split
    · exact hok
    · exact hbuilt.ok index
  · intro index
    rw [contentOps_append, List.foldl_append, ← hbuilt.content, Chat.content, target_insert]
    by_cases hi : index = choice.index
    · subst hi
      simp only [if_true]
      rw [hcontent]
      simp [contentOps, Chat.content]
    · rw [if_neg hi]
      simp [contentOps, Ne.symm hi, Chat.content]
  · intro place field
    rw [callOps_append, List.foldl_append, ← hbuilt.call, Chat.part, target_insert]
    by_cases hi : place.1 = choice.index
    · rw [if_pos hi, hcall]
      simp [callOps, Chat.part, hi]
    · rw [if_neg hi]
      simp [callOps, Ne.symm hi, Chat.part]

theorem Built.mergeChoices {values : List Json} {more : List RawChoice}
    (h : List.Forall₂ (fun v choice => ∃ fields delta, IsRawChoice v choice fields delta)
      values more) :
    ∀ {chat merged : Chat} {choices : List RawChoice} {position : ℕ}, Built chat choices →
      mergeChoices numberText chat position values = some merged → Built merged (choices ++ more) := by
  induction h with
  | nil =>
    intro chat merged choices position hbuilt hmerged
    cases hmerged
    rwa [List.append_nil]
  | cons hv _ ih =>
    intro chat merged choices position hbuilt hmerged
    obtain ⟨fields, delta, hv⟩ := hv
    rw [Parsers.mergeChoices, Option.bind_eq_some_iff] at hmerged
    obtain ⟨next, hnext, hrest⟩ := hmerged
    have hall := ih (hbuilt.mergeChoice hv hnext) hrest
    rwa [List.append_assoc] at hall

theorem Built.chatEvents {values : List Json} {stream : List (List RawChoice)}
    (h : List.Forall₂ IsRawChunk values stream) :
    ∀ {chat merged : Chat} {choices : List RawChoice}, Built chat choices →
      values.foldlM (chatEvent numberText) chat = some merged →
      Built merged (choices ++ stream.flatten) := by
  induction h with
  | nil =>
    intro chat merged choices hbuilt hmerged
    cases hmerged
    simpa using hbuilt
  | cons hv _ ih =>
    intro chat merged choices hbuilt hmerged
    obtain ⟨values, -, hall, heq⟩ := chatEvent_eq numberText hv
    rw [List.foldlM_cons, heq] at hmerged
    obtain ⟨next, hnext, hrest⟩ := Option.bind_eq_some_iff.mp hmerged
    have hend := ih (hbuilt.mergeChoices hall hnext) hrest
    rwa [List.append_assoc] at hend

/-- The browser's objects at the end of a stream. -/
theorem built_streamMessages {events : List (SseEvent × ℕ)} {stream : List (List RawChoice)}
    (h : Carries IsRawChunk events stream) {chat : Chat}
    (hchat : streamMessages numberText events = some chat) : Built chat stream.flatten :=
  Built.chatEvents h built_empty hchat

/-! ### Where the browser throws -/

variable (numberText) in
/-- The choices with what came for them. -/
def ChoicesHold (history : List (ℕ × Fields)) (chat : Chat) : Prop :=
  ∀ index, FieldsHold numberText (deltaFields index history) (chat.target index)

theorem landsDeltas_append (xs ys history : List (ℕ × Fields)) :
    landsDeltas history (xs ++ ys) = (landsDeltas history xs && landsDeltas (xs.reverse ++ history) ys) := by
  induction xs generalizing history with
  | nil => rfl
  | cons x xs ih =>
    rw [List.cons_append, landsDeltas, landsDeltas, ih, Bool.and_assoc, List.reverse_cons,
      List.append_assoc]
    rfl

theorem ChoicesHold.mergeChoice {history : List (ℕ × Fields)} {chat : Chat}
    (hhold : ChoicesHold numberText history chat) {v : Json} {choice : RawChoice}
    {fields delta : Fields} (h : IsRawChoice v choice fields delta) (position : ℕ) :
    Merges (landsFields (deltaFields choice.index history) delta)
      (mergeChoice numberText chat position v)
      (ChoicesHold numberText ((choice.index, delta) :: history)) := by
  rw [mergeChoice_eq h]
  refine (mergeDelta_lands delta (hhold choice.index)).map fun merged hmerged index => ?_
  rw [target_insert, deltaFields]
  by_cases hi : index = choice.index
  · rw [if_pos hi, if_pos hi.symm, hi]
    exact hmerged
  · rw [if_neg hi, if_neg (Ne.symm hi)]
    exact hhold index

/-- The deltas of the choices from a position on. -/
def deltasFrom (position : ℕ) (values : List Json) : List (ℕ × Fields) :=
  (values.zipIdx position).filterMap choiceDelta

theorem deltasFrom_cons {v : Json} {choice : RawChoice} {fields delta : Fields}
    (h : IsRawChoice v choice fields delta) (position : ℕ) (values : List Json) :
    deltasFrom position (v :: values) = (choice.index, delta) :: deltasFrom (position + 1) values := by
  have hdelta : choiceDelta (v, position) = some (choice.index, delta) := by
    rw [h.object, choiceDelta, h.has_delta, indexOr, h.index]
    rfl
  rw [deltasFrom, List.zipIdx_cons, List.filterMap_cons_some hdelta, deltasFrom]

theorem ChoicesHold.mergeChoices {values : List Json} {chunk : List RawChoice}
    (h : List.Forall₂ (fun v choice => ∃ fields delta, IsRawChoice v choice fields delta)
      values chunk) :
    ∀ {history : List (ℕ × Fields)} {chat : Chat} (position : ℕ), ChoicesHold numberText history chat →
      Merges (landsDeltas history (deltasFrom position values))
        (mergeChoices numberText chat position values)
        (ChoicesHold numberText ((deltasFrom position values).reverse ++ history)) := by
  induction h with
  | nil => exact fun _ hhold => ⟨rfl, hhold⟩
  | cons hv _ ih =>
    intro history chat position hhold
    obtain ⟨fields, delta, hv⟩ := hv
    rw [deltasFrom_cons hv, landsDeltas, Parsers.mergeChoices, List.reverse_cons, List.append_assoc]
    exact (hhold.mergeChoice hv position).bind fun next hnext => ih (position + 1) hnext

theorem ChoicesHold.chatEvents {values : List Json} {stream : List (List RawChoice)}
    (h : List.Forall₂ IsRawChunk values stream) :
    ∀ {history : List (ℕ × Fields)} {chat : Chat}, ChoicesHold numberText history chat →
      Merges (landsDeltas history (values.flatMap choiceDeltas))
        (values.foldlM (chatEvent numberText) chat)
        (ChoicesHold numberText ((values.flatMap choiceDeltas).reverse ++ history)) := by
  induction h with
  | nil => exact fun hhold => ⟨rfl, hhold⟩
  | @cons v chunk rest _ hv _ ih =>
    intro history chat hhold
    obtain ⟨values, hvalues, hall, heq⟩ := chatEvent_eq numberText hv
    have hdeltas : choiceDeltas v = deltasFrom 0 values := by
      rw [choiceDeltas, hvalues]
      rfl
    rw [List.flatMap_cons, landsDeltas_append, List.foldlM_cons, heq, hdeltas, List.reverse_append,
      List.append_assoc]
    exact (ChoicesHold.mergeChoices hall 0 hhold).bind fun next hnext => ih hnext

variable (numberText) in
/-- THROWS: the browser comes to the end of a stream exactly if every delta lands. -/
theorem streamMessages_isSome {events : List (SseEvent × ℕ)} {stream : List (List RawChoice)}
    (h : Carries IsRawChunk events stream) :
    (streamMessages numberText events).isSome = streamLands events := by
  have hempty : ChoicesHold numberText [] .empty := fun _ => fieldsHold_nil
  have hmerges := ChoicesHold.chatEvents h hempty
  rw [streamMessages, streamLands]
  cases hrun : (events.filterMap eventJson).foldlM (chatEvent numberText) .empty with
  | none =>
    rw [hrun] at hmerges
    exact Eq.symm hmerges
  | some chat =>
    rw [hrun] at hmerges
    exact hmerges.1.symm

-- an object, and then a text for the same field
example : streamLands [(.json (.obj [("choices", .arr [.obj [("delta", .obj [("content", .obj [])])]])]), 0),
    (.json (.obj [("choices", .arr [.obj [("delta", .obj [("content", .str "x")])]])]), 0)] = false := by
  decide

end

/-! ### The server -/

/-- What the server reads of the field of a function that `pick` names. -/
def FunctionSlot.said (pick : Slot → Slot → Slot) : FunctionSlot → Option String
  | .object name arguments => (pick name arguments).said
  | _ => none

/-- A fragment as the server reads it, nulls left out. -/
def RawTool.delta (tool : RawTool) : ToolDelta where
  index := tool.index
  id := tool.id.said
  name := tool.function.said fun name _ => name
  arguments := tool.function.said fun _ arguments => arguments

/-- The fragments of a delta as the server reads them. -/
def ToolsSlot.deltas : ToolsSlot → List ToolDelta
  | .items tools => tools.map RawTool.delta
  | _ => []

/-- A choice as the server reads it. -/
def RawChoice.delta (choice : RawChoice) : ChoiceDelta :=
  ⟨choice.index, choice.content.said, choice.tools.deltas⟩

/-- A stream as the server reads it. -/
def deltas (stream : List (List RawChoice)) : List (List ChoiceDelta) :=
  stream.map fun chunk => chunk.map RawChoice.delta

theorem hasText_of_slot {v : Json} {key : String} {slot : Slot} (h : v.get key = slot.json) :
    HasText v key slot.said := by
  rw [HasText, present, h]
  cases slot <;> rfl

theorem hasIndex_of_int {v : Json} {key : String} {n : ℕ} (h : v.get key = some (.int n))
    (hn : n < 65536) : HasIndex v key n := by
  refine .inl ⟨?_, by omega⟩
  rw [present, h]
  rfl

theorem HasFunction.hasText {fields : Fields} {function : FunctionSlot} (h : HasFunction fields function)
    (pick : Slot → Slot → Slot) {key : String}
    (hpick : ∀ (f : Fields) (name arguments : Slot), fetch "name" f = name.json →
      fetch "arguments" f = arguments.json → fetch key f = (pick name arguments).json) :
    HasText ((Json.obj fields).field "function") key (function.said pick) := by
  cases h with
  | absent hf => rw [Json.field, Json.get_obj, hf]; rfl
  | null hf => rw [Json.field, Json.get_obj, hf]; rfl
  | object hf _ hname harguments =>
    rw [Json.field, Json.get_obj, hf]
    exact hasText_of_slot (hpick _ _ _ hname harguments)

theorem IsRawTool.isToolDelta {v : Json} {tool : RawTool} {fields : Fields}
    (h : IsRawTool v tool fields) : IsToolDelta v tool.delta := by
  obtain rfl := h.object
  exact {
    index := hasIndex_of_int h.index h.index_lt
    id := hasText_of_slot h.id
    name := h.function.hasText (fun name _ => name) fun _ _ _ hname _ => hname
    arguments := h.function.hasText (fun _ arguments => arguments) fun _ _ _ _ harguments => harguments
    no_call_id := h.no_call_id
    no_name := h.no_name
    no_arguments := h.no_arguments
    no_input := h.no_input }

theorem IsRawChoice.isChoiceDelta {v : Json} {choice : RawChoice}
    {fields delta : Fields} (h : IsRawChoice v choice fields delta) :
    IsChoiceDelta v choice.delta := by
  obtain rfl := h.object
  have hdelta : (Json.obj fields).field "delta" = .obj delta := by
    rw [Json.field, Json.get_obj, h.has_delta]
    rfl
  refine ⟨hasIndex_of_int h.index h.index_lt, ?_, ?_⟩
  · rw [hdelta]
    exact hasText_of_slot h.content
  · rw [hdelta]
    obtain ⟨index, content, tools⟩ := choice
    cases h.tools with
    | absent hnone => exact .inr ⟨by rw [present, Json.get_obj, hnone]; rfl, rfl⟩
    | null hnull => exact .inr ⟨by rw [present, Json.get_obj, hnull]; rfl, rfl⟩
    | items harr hall =>
      refine .inl ⟨_, by rw [present, Json.get_obj, harr]; rfl, ?_⟩
      refine List.forall₂_map_right_iff.mpr (List.Forall₂.imp ?_ hall)
      rintro v tool ⟨fields, hv⟩
      exact hv.isToolDelta

theorem IsRawChunk.isChatChunk {v : Json} {chunk : List RawChoice}
    (h : IsRawChunk v chunk) : IsChatChunk v (chunk.map RawChoice.delta) := by
  obtain ⟨values, hvalues, -, hall⟩ := h.choices
  refine ⟨by rw [HasText, present, h.no_type]; rfl, .inl ⟨values, by rw [present, hvalues]; rfl, ?_⟩⟩
  refine List.forall₂_map_right_iff.mpr (List.Forall₂.imp ?_ hall)
  rintro v choice ⟨fields, delta, hv⟩
  exact hv.isChoiceDelta

theorem carries_deltas {events : List (SseEvent × ℕ)}
    {stream : List (List RawChoice)} (h : Carries IsRawChunk events stream) :
    Carries IsChatChunk events (deltas stream) :=
  List.forall₂_map_right_iff.mpr (List.Forall₂.imp (fun _ _ hv => hv.isChatChunk) h)

/-! ### Added texts -/

/-- The text that an operation adds. -/
def Op.added : Op → Option String
  | .add text => some text
  | .clear => none

/-- The texts that the operations add. -/
def adds (ops : List Op) : List String := ops.filterMap Op.added

/-- The field of a fragment. -/
def ToolDelta.at (d : ToolDelta) : CallField → Option String
  | .id => d.id
  | .name => d.name
  | .arguments => d.arguments

theorem adds_slot (slot : Slot) : adds slot.ops = slot.said.toList := by
  cases slot <;> rfl

theorem adds_function (function : FunctionSlot) (pick : Slot → Slot → Slot) :
    adds (function.ops pick) = (function.said pick).toList := by
  cases function with
  | absent => rfl
  | null => rfl
  | object name arguments => exact adds_slot _

theorem adds_tool (tool : RawTool) (field : CallField) :
    adds (tool.ops field) = (tool.delta.at field).toList := by
  cases field with
  | id => exact adds_slot _
  | name => exact adds_function _ _
  | arguments => exact adds_function _ _

theorem adds_append (ops more : List Op) : adds (ops ++ more) = adds ops ++ adds more := by
  simp [adds]

theorem adds_flatMap {α : Type*} (f : α → List Op) (xs : List α) :
    adds (xs.flatMap f) = xs.flatMap fun x => adds (f x) := by
  rw [adds, List.filterMap_flatMap]
  rfl

theorem flatten_deltas (stream : List (List RawChoice)) :
    (deltas stream).flatten = stream.flatten.map RawChoice.delta := by
  rw [deltas, List.map_flatten]

theorem contentDeltas_deltas (stream : List (List RawChoice)) (index : ℕ) :
    contentDeltas (deltas stream) index = adds (contentOps stream index) := by
  rw [contentDeltas, flatten_deltas, List.filterMap_map, contentOps, adds_flatMap,
    List.filterMap_eq_flatMap_toList]
  refine congrArg (stream.flatten.flatMap ·) (funext fun choice => ?_)
  show (if choice.index = index then choice.content.said else none).toList = _
  split
  · exact (adds_slot _).symm
  · rfl

theorem filterMap_cons_toList {α β : Type*} (f : α → Option β) (x : α) (xs : List α) :
    (x :: xs).filterMap f = (f x).toList ++ xs.filterMap f := by
  rw [List.filterMap_cons]
  cases f x <;> rfl

/-- The fragments of one call in a list of fragments. -/
theorem fetchAll_tools (index : ℕ) (place : ℕ × ℕ) (field : CallField) : ∀ tools : List RawTool,
    (fetchAll place ((tools.map RawTool.delta).map fun d => ((index, d.index), d))).filterMap
        (fun d => d.at field) =
      adds (if index = place.1 then (ToolsSlot.items tools).ops field place.2 else [])
  | [] => by split <;> rfl
  | tool :: tools => by
      have ih := fetchAll_tools index place field tools
      rw [List.map_cons, List.map_cons, show tool.delta.index = tool.index from rfl]
      by_cases hplace : (index, tool.index) = place
      · subst hplace
        rw [if_pos rfl] at ih ⊢
        rw [fetchAll_cons_self, filterMap_cons_toList, ih, ops_items_cons, if_pos rfl, adds_append,
          adds_tool]
      · rw [fetchAll_cons_ne hplace, ih]
        split
        · rename_i hindex
          subst hindex
          have htool : tool.index ≠ place.2 := fun h => hplace (by rw [h])
          rw [ops_items_cons, if_neg htool, List.nil_append]
        · rfl

theorem fetchAll_fragments (choice : RawChoice) (place : ℕ × ℕ) (field : CallField) :
    (fetchAll place choice.delta.fragments).filterMap (fun d => d.at field) =
      adds (if choice.index = place.1 then choice.tools.ops field place.2 else []) := by
  obtain ⟨index, content, tools⟩ := choice
  cases tools with
  | absent => split <;> rfl
  | null => split <;> rfl
  | items tools => exact fetchAll_tools index place field tools

theorem fragments_deltas (stream : List (List RawChoice)) (place : ℕ × ℕ) (field : CallField) :
    (fetchAll place (streamFragments (deltas stream))).filterMap (fun d => d.at field) =
      adds (callOps stream field place) := by
  rw [streamFragments, flatten_deltas, callOps, adds_flatMap, List.flatMap_map, fetchAll_flatMap,
    List.filterMap_flatMap]
  exact congrArg (stream.flatten.flatMap ·) (funext fun choice => fetchAll_fragments choice place field)

/-! ### When both have the same -/

/-- The texts added since the last erasure. -/
def sinceClear (ops : List Op) : List String :=
  ops.foldl (fun texts op => match op with | .add text => texts ++ [text] | .clear => []) []

theorem sinceClear_add (ops : List Op) (text : String) :
    sinceClear (ops ++ [.add text]) = sinceClear ops ++ [text] := by
  simp [sinceClear]

theorem sinceClear_clear (ops : List Op) : sinceClear (ops ++ [.clear]) = [] := by
  simp [sinceClear]

/-- What the browser has at the end. -/
theorem foldl_apply (ops : List Op) : ops.foldl Op.apply "" = joinTexts (sinceClear ops) := by
  induction ops using List.reverseRecOn with
  | nil => rfl
  | append_singleton ops op ih =>
    rw [List.foldl_append, ih]
    cases op with
    | add text =>
      rw [sinceClear_add, joinTexts_append]
      simp [Op.apply]
    | clear => rw [sinceClear_clear]; rfl

theorem sinceClear_suffix (ops : List Op) : sinceClear ops <:+ adds ops := by
  induction ops using List.reverseRecOn with
  | nil => exact List.suffix_refl _
  | append_singleton ops op ih =>
    cases op with
    | add text =>
      obtain ⟨before, hbefore⟩ := ih
      rw [sinceClear_add, adds_append, ← hbefore]
      exact ⟨before, by simp [adds, Op.added]⟩
    | clear =>
      rw [sinceClear_clear]
      exact List.nil_suffix

theorem joinTexts_eq_empty {texts : List String} : joinTexts texts = "" ↔ ∀ t ∈ texts, t = "" := by
  induction texts with
  | nil => simp
  | cons text texts ih => simp [joinTexts_cons, ih]

/-- Nothing but empty texts is erased. -/
def KeepsText (ops : List Op) : Prop :=
  ∀ before after, ops = before ++ .clear :: after → ∀ text, .add text ∈ before → text = ""

theorem mem_adds {ops : List Op} {text : String} : text ∈ adds ops ↔ .add text ∈ ops := by
  rw [adds, List.mem_filterMap]
  constructor
  · rintro ⟨op, hop, htext⟩
    cases op with
    | add t => cases htext; exact hop
    | clear => cases htext
  · exact fun h => ⟨_, h, rfl⟩

/-- Where something precedes an erasure in a list with one more operation. -/
theorem before_of_append {ops before after : List Op} {op : Op}
    (h : ops ++ [op] = before ++ .clear :: after) :
    (∃ rest, after = rest ++ [op] ∧ ops = before ++ .clear :: rest) ∨
      after = [] ∧ op = .clear ∧ ops = before := by
  rcases List.eq_nil_or_concat after with rfl | ⟨rest, last, rfl⟩
  · obtain ⟨hops, hop⟩ := List.append_inj' h rfl
    exact .inr ⟨rfl, by simpa using hop, hops⟩
  · rw [List.concat_eq_append, ← List.cons_append, ← List.append_assoc] at h
    obtain ⟨hops, hop⟩ := List.append_inj' h rfl
    exact .inl ⟨rest, by rw [List.concat_eq_append, hop], hops⟩

theorem keepsText_add {ops : List Op} {text : String} :
    KeepsText (ops ++ [.add text]) ↔ KeepsText ops := by
  constructor
  · rintro h before after rfl
    exact h before (after ++ [.add text]) (by simp)
  · intro h before after hops
    obtain ⟨rest, -, hrest⟩ | ⟨-, hop, -⟩ := before_of_append hops
    · exact h before rest hrest
    · cases hop

theorem keepsText_clear {ops : List Op} :
    KeepsText (ops ++ [.clear]) ↔ ∀ text ∈ adds ops, text = "" := by
  constructor
  · intro h text htext
    exact h ops [] rfl text (mem_adds.mp htext)
  · intro h before after hops t ht
    refine h t (mem_adds.mpr ?_)
    obtain ⟨rest, -, rfl⟩ | ⟨-, -, rfl⟩ := before_of_append hops
    · exact List.mem_append_left _ ht
    · exact ht

/-- The texts since the last erasure are all there is exactly if nothing but empty texts is erased. -/
theorem sinceClear_text (ops : List Op) :
    joinTexts (sinceClear ops) = joinTexts (adds ops) ↔ KeepsText ops := by
  induction ops using List.reverseRecOn with
  | nil => simp [sinceClear, adds, KeepsText]
  | append_singleton ops op ih =>
    cases op with
    | add text =>
      rw [keepsText_add, ← ih, sinceClear_add, adds_append, joinTexts_append, joinTexts_append]
      exact ⟨fun h => String.append_left_inj _ |>.mp h, fun h => by rw [h]; rfl⟩
    | clear =>
      rw [keepsText_clear, sinceClear_clear, adds_append, show adds [Op.clear] = [] from rfl,
        List.append_nil, ← joinTexts_eq_empty]
      exact eq_comm

/-- Since the last erasure only the last id was not empty; if none came since, the last one was. -/
structure KeepsId (ops : List Op) : Prop where
  others : ∀ text ∈ (sinceClear ops).dropLast, text = ""
  erased : sinceClear ops = [] → (adds ops).getLast?.getD "" = ""

theorem sinceClear_id (ops : List Op) :
    joinTexts (sinceClear ops) = (adds ops).getLast?.getD "" ↔ KeepsId ops := by
  obtain ⟨before, hbefore⟩ := sinceClear_suffix ops
  rcases List.eq_nil_or_concat (sinceClear ops) with hnil | ⟨texts, text, hlast⟩
  · rw [hnil]
    constructor
    · intro h
      exact ⟨by rw [hnil]; simp, fun _ => h.symm⟩
    · intro h
      exact (h.erased hnil).symm
  · rw [List.concat_eq_append] at hlast
    have hadds : (adds ops).getLast?.getD "" = text := by
      rw [← hbefore, hlast, ← List.append_assoc, List.getLast?_concat, Option.getD_some]
    have hjoin : joinTexts (sinceClear ops) = joinTexts texts ++ text := by
      rw [hlast, joinTexts_append, joinTexts_cons, joinTexts_nil, String.append_empty]
    have hempty : joinTexts texts ++ text = text ↔ ∀ t ∈ texts, t = "" := by
      rw [← joinTexts_eq_empty]
      constructor
      · intro h
        exact (String.append_left_inj text).mp (h.trans String.empty_append.symm)
      · intro h
        rw [h, String.empty_append]
    rw [hadds, hjoin, hempty]
    constructor
    · intro h
      refine ⟨?_, fun hnil => ?_⟩
      · rwa [hlast, List.dropLast_concat]
      · rw [hlast] at hnil
        simp at hnil
    · intro h t ht
      refine h.others t ?_
      rwa [hlast, List.dropLast_concat]

/-! ### Browser and server -/

section
variable (serialize : Json → String) (numberText : Held → String)

/-- The browser comes to the end of the stream, with the server's text of choice 0 and its calls. -/
def Agrees (kind : RequestKind) (events : List (SseEvent × ℕ)) : Prop :=
  ∃ chat, streamMessages numberText events = some chat ∧
    chat.content 0 = (parseStream serialize kind events).text ∧
    ∀ place, chat.call place =
      ((events.foldl (streamEvent serialize) { kind }).tools.get (callKey place)).getD {}

/-- At most `maxTools` calls, none with a field longer than its preview. -/
structure WithinPreview (stream : List (List RawChoice)) : Prop where
  count : ((streamFragments (deltas stream)).map Prod.fst).dedup.length ≤ maxTools
  fits : ∀ place, Fits (fetchAll place (streamFragments (deltas stream)))

/-- No text is lost by a `null`, and no id comes twice. -/
structure Undisturbed (stream : List (List RawChoice)) : Prop where
  content : KeepsText (contentOps stream 0)
  id : ∀ place, KeepsId (callOps stream .id place)
  name : ∀ place, KeepsText (callOps stream .name place)
  arguments : ∀ place, KeepsText (callOps stream .arguments place)

theorem toolCall_ext {tool : ToolCall} {id name arguments : String} (hid : tool.id = id)
    (hname : tool.name = name) (harguments : tool.arguments = arguments) :
    tool = ⟨id, name, arguments⟩ := by
  subst hid hname harguments
  rfl

/-- The server's call at a place, from the texts that were added. -/
theorem server_call {kind : RequestKind} {events : List (SseEvent × ℕ)}
    {stream : List (List RawChoice)} (h : Carries IsRawChunk events stream)
    (hlimits : WithinPreview stream) (place : ℕ × ℕ) :
    ((events.foldl (streamEvent serialize) { kind }).tools.get (callKey place)).getD {} =
      ⟨(adds (callOps stream .id place)).getLast?.getD "", joinTexts (adds (callOps stream .name place)),
        joinTexts (adds (callOps stream .arguments place))⟩ := by
  have hplaces : ∀ e ∈ streamFragments (deltas stream),
      e.1 ∈ ((streamFragments (deltas stream)).map Prod.fst).dedup :=
    fun e he => List.mem_dedup.mpr (List.mem_map_of_mem he)
  have hget : ((events.foldl (streamEvent serialize) { kind }).tools.get (callKey place)).getD {} =
      (fetchAll place (streamFragments (deltas stream))).foldl ToolDelta.absorb {} := by
    rw [stream_get serialize (carries_deltas h) hlimits.count hplaces place (hlimits.fits place)]
    split
    · rename_i hnil
      rw [hnil]
      rfl
    · rfl
  have hid := foldl_absorb_id (fetchAll place (streamFragments (deltas stream))) {}
  have hname := foldl_absorb_name (fetchAll place (streamFragments (deltas stream))) {}
  have harguments := foldl_absorb_arguments (fetchAll place (streamFragments (deltas stream))) {}
  rw [String.empty_append] at hname harguments
  rw [hget, ← fragments_deltas, ← fragments_deltas, ← fragments_deltas]
  exact toolCall_ext hid hname harguments

end
/-! ### Two fragments of a call -/

/-- A chunk with one fragment, for choice 0. -/
def fragmentChunk (fields : Fields) : Json :=
  .obj [("choices", .arr [.obj [("delta", .obj [("tool_calls", .arr [.obj fields])]), ("index", .int 0)]])]

/-- The first fragment of a call, with all its fields. -/
def firstFragment : Fields :=
  [("function", .obj [("arguments", .str "1"), ("name", .str "f")]), ("id", .str "a"), ("index", .int 0)]

/-- A fragment that has `null` where it says nothing new. -/
def nulledFragment : Fields :=
  [("function", .obj [("arguments", .str "2"), ("name", .null)]), ("id", .null), ("index", .int 0)]

/-- A fragment that leaves out what it says nothing new about. -/
def plainFragment : Fields :=
  [("function", .obj [("arguments", .str "2")]), ("index", .int 0)]

/-- A stream of two fragments. -/
def fragmentEvents (second : Fields) : List (SseEvent × ℕ) :=
  [(.json (fragmentChunk firstFragment), 0), (.json (fragmentChunk second), 0), (.done, 0)]

/-- What `fragmentEvents` carries. -/
def fragmentStream (second : RawTool) : List (List RawChoice) :=
  [[⟨0, .absent, .items [⟨0, .text "a", .object (.text "f") (.text "1")⟩]⟩],
    [⟨0, .absent, .items [second]⟩]]

theorem isRawChunk_of_fragment {fields : Fields} {tool : RawTool}
    (h : IsRawTool (.obj fields) tool fields)
    (hsafe : safeDelta ((fragmentChunk fields).field "choices") = true) :
    IsRawChunk (fragmentChunk fields) [⟨0, .absent, .items [tool]⟩] where
  no_type := rfl
  no_indices key hkey := by
    simp only [List.mem_cons, List.not_mem_nil, or_false] at hkey
    rcases hkey with rfl | rfl | rfl | rfl
    all_goals rfl
  choices := by
    have hindex : (0 : ℕ) < 65536 := by decide
    exact ⟨_, rfl, hsafe, .cons ⟨_, _, rfl, rfl, hindex, rfl, rfl, List.pairwise_singleton _ _, rfl,
      .items rfl (.cons ⟨fields, h⟩ .nil)⟩ .nil⟩

theorem isRawTool_of_fields {fields : Fields} {id : Slot} {function : FunctionSlot}
    (hascending : Ascending fields) (hindex : fetch "index" fields = some (.int 0))
    (hid : fetch "id" fields = id.json) (hfunction : HasFunction fields function)
    (hflat : ∀ key ∈ ["call_id", "name", "arguments", "input"], fetch key fields = none) :
    IsRawTool (.obj fields) ⟨0, id, function⟩ fields where
  object := rfl
  ascending := hascending
  index := hindex
  index_lt := Nat.succ_pos 65535
  id := hid
  function := hfunction
  no_call_id := hflat _ (by decide)
  no_name := hflat _ (by decide)
  no_arguments := hflat _ (by decide)
  no_input := hflat _ (by decide)

theorem isRawTool_first :
    IsRawTool (.obj firstFragment) ⟨0, .text "a", .object (.text "f") (.text "1")⟩ firstFragment :=
  isRawTool_of_fields (by decide) rfl rfl (.object rfl (by decide) rfl rfl) (by decide)

theorem carries_fragments {second : Fields} {tool : RawTool} (h : IsRawTool (.obj second) tool second)
    (hsafe : safeDelta ((fragmentChunk second).field "choices") = true) :
    Carries IsRawChunk (fragmentEvents second) (fragmentStream tool) :=
  .cons (isRawChunk_of_fragment isRawTool_first (by decide)) (.cons (isRawChunk_of_fragment h hsafe) .nil)

theorem withinPreview_fragments {tool : RawTool} (hindex : tool.index = 0)
    (hcount : ((streamFragments (deltas (fragmentStream tool))).map Prod.fst).dedup.length ≤ maxTools)
    (hfits : Fits (fetchAll (0, 0) (streamFragments (deltas (fragmentStream tool))))) :
    WithinPreview (fragmentStream tool) := by
  refine ⟨hcount, fun place => ?_⟩
  by_cases hplace : place = (0, 0)
  · rw [hplace]
    exact hfits
  · rw [fetchAll_eq_nil]
    · exact fits_nil
    · intro e he heq
      obtain rfl | rfl : e = ((0, 0), _) ∨ e = ((0, tool.index), tool.delta) := by
        simpa [streamFragments, deltas, fragmentStream, RawChoice.delta, ToolsSlot.deltas,
          ChoiceDelta.fragments, RawTool.delta] using he
      · exact hplace heq.symm
      · exact hplace (heq.symm.trans (by rw [hindex]))

theorem isRawTool_nulled :
    IsRawTool (.obj nulledFragment) ⟨0, .null, .object .null (.text "2")⟩ nulledFragment :=
  isRawTool_of_fields (by decide) rfl rfl (.object rfl (by decide) rfl rfl) (by decide)

theorem isRawTool_plain :
    IsRawTool (.obj plainFragment) ⟨0, .absent, .object .absent (.text "2")⟩ plainFragment :=
  isRawTool_of_fields (by decide) rfl rfl (.object rfl (by decide) rfl rfl) (by decide)

theorem keepsText_of_notMem {ops : List Op} (h : .clear ∉ ops) : KeepsText ops := by
  rintro before after rfl
  exact absurd (List.mem_append_right _ List.mem_cons_self) h

theorem callOps_other {tool : RawTool} (hindex : tool.index = 0) {place : ℕ × ℕ}
    (hplace : place ≠ (0, 0)) (field : CallField) : callOps (fragmentStream tool) field place = [] := by
  obtain ⟨c, i⟩ := place
  cases c with
  | zero =>
    have hi : i ≠ 0 := fun h => hplace (by rw [h])
    simp [callOps, fragmentStream, ToolsSlot.ops, hindex, Ne.symm hi]
  | succ c => rfl

end Llmtrace.Parsers
