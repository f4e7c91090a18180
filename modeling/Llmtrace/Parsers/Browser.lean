import Llmtrace.Parsers.Chat

/-! How the browser puts a chat stream together (`append`, `mergeDelta` and the part of `streamMessages`
    for events with choices, in `transcript/parse.ts`). Each choice has an object that is merged with one
    delta after the other, field by field: texts are appended, objects and indexed parts are merged in
    turn, and any other value is put in the place of the old one, `null` too.

    A text that comes for a field which holds no text is appended to `String` of what it holds. An object
    that was put together from deltas has no prototype, so `String` throws on it, and on a list with such
    an object in it; then the whole stream is lost.

    Objects are lists of fields in key order; the order in which the browser keeps them plays no part. A
    hole in an array is `null`: the code never tells the two apart. -/

namespace Llmtrace.Parsers
open Schemes ResponseParser

/-- The members of a parsed object. -/
abbrev Fields := List (String × Json)

/-- A value that the browser holds. An object is `parsed` if it came as a whole out of `JSON.parse`, and
    otherwise made by `Object.create(null)`. -/
inductive Held where
  | null
  | bool (b : Bool)
  | int (n : ℤ)
  | float (text : String)
  | str (s : String)
  | arr (items : List Held)
  | obj (parsed : Bool) (fields : List (String × Held))

/-- The members of an object that the browser holds. -/
abbrev HeldFields := List (String × Held)

mutual

/-- A value that is taken over as it was parsed. -/
def Held.ofJson (value : Json) : Held :=
  match value with
  | .null => .null
  | .bool b => .bool b
  | .int n => .int n
  | .float text => .float text
  | .str s => .str s
  | .arr items => .arr (ofItems items)
  | .obj fields => .obj true (ofFields fields)
termination_by structural value

/-- The items of a list that is taken over. -/
def Held.ofItems (items : List Json) : List Held :=
  match items with
  | [] => []
  | item :: items => ofJson item :: ofItems items
termination_by structural items

/-- The members of an object that is taken over. -/
def Held.ofFields (fields : Fields) : HeldFields :=
  match fields with
  | [] => []
  | field :: fields => ofField field :: ofFields fields
termination_by structural fields

/-- A member of an object that is taken over. -/
def Held.ofField (field : String × Json) : String × Held :=
  match field with
  | (key, value) => (key, ofJson value)
termination_by structural field

end

/-- The fields of `object(value)`, and none otherwise. -/
def objectOf : Option Held → HeldFields
  | some (.obj _ fields) => fields
  | _ => []

/-- Whether the object that is merged into came out of `JSON.parse`; a new one did not. -/
def isParsed : Option Held → Bool
  | some (.obj parsed _) => parsed
  | _ => false

/-- The items of a value that is a list, and none otherwise. -/
def arrayOf : Option Held → List Held
  | some (.arr items) => items
  | _ => []

/-- `parts[index] = value` -/
def setAt (index : ℕ) (value : Held) (parts : List Held) : List Held :=
  (parts ++ List.replicate (index + 1 - parts.length) Held.null).set index value

/-- The index of a part or a choice, or its position. -/
def indexOr (fields : Fields) (position : ℕ) : ℕ :=
  match fetch "index" fields with
  | some (.int n) => n.toNat
  | _ => position

/-- A number that is no integer of the range, or something else, is refused. -/
def validIndex : Option Json → Bool
  | none => true
  | some (.int n) => decide (0 ≤ n ∧ n < 65536)
  | _ => false

mutual

/-- `safeDelta`: every index within the value is valid. -/
def safeDelta (value : Json) : Bool :=
  match value with
  | .arr items => safeItems items
  | .obj fields => validIndex (fetch "index" fields) && safeFields fields
  | _ => true
termination_by structural value

/-- `safeDelta` of every item. -/
def safeItems (items : List Json) : Bool :=
  match items with
  | [] => true
  | item :: items => safeDelta item && safeItems items
termination_by structural items

/-- `safeDelta` of every member. -/
def safeFields (fields : Fields) : Bool :=
  match fields with
  | [] => true
  | field :: fields => safeField field && safeFields fields
termination_by structural fields

/-- `safeDelta` of a member. -/
def safeField (field : String × Json) : Bool :=
  match field with
  | (_, value) => safeDelta value
termination_by structural field

end

section
-- `String(value)` for a number
variable (numberText : Held → String)

mutual

/-- `String(value)`; `none` where it throws. A parsed object prints as `[object Object]`, unless a field
    of its own hides `toString`. -/
def Held.print (value : Held) : Option String :=
  match value with
  | .null => some "null"
  | .bool b => some (if b then "true" else "false")
  | .int n => some (numberText (.int n))
  | .float text => some (numberText (.float text))
  | .str s => some s
  | .arr items => (printItems items).map fun texts => ",".intercalate texts
  | .obj parsed fields =>
    if parsed && (fetch "toString" fields).isNone then some "[object Object]" else none
termination_by structural value

/-- The texts of the items of a list; `join` prints nothing for a `null`. -/
def Held.printItems (items : List Held) : Option (List String) :=
  match items with
  | [] => some []
  | .null :: items => (printItems items).map ("" :: ·)
  | item :: items => (print item).bind fun text => (printItems items).map (text :: ·)
termination_by structural items

end

/-- `String(value ?? '')` -/
def textOf : Option Held → Option String
  | none | some .null => some ""
  | some held => held.print numberText

/-- `append` -/
def append (target : HeldFields) (key delta : String) : Option HeldFields :=
  (textOf numberText (fetch key target)).map fun text => put key (.str (text ++ delta)) target

mutual

/-- The value of a field after a delta's; `none` where a text cannot be appended. -/
def mergeValue (old : Option Held) (value : Json) : Option Held :=
  match value with
  | .str delta => (textOf numberText old).map fun text => .str (text ++ delta)
  | .arr items => (mergeParts (arrayOf old) 0 items).map .arr
  | .obj fields => (mergeDelta (objectOf old) fields).map (.obj (isParsed old))
  | .null => some .null
  | .bool b => some (.bool b)
  | .int n => some (.int n)
  | .float text => some (.float text)
termination_by structural value

/-- The items of a delta's list, the first at `position`. -/
def mergeParts (parts : List Held) (position : ℕ) (items : List Json) : Option (List Held) :=
  match items with
  | [] => some parts
  | item :: items =>
    (mergePart parts position item).bind fun parts => mergeParts parts (position + 1) items
termination_by structural items

/-- An object is merged into the part at its index, anything else is pushed. -/
def mergePart (parts : List Held) (position : ℕ) (item : Json) : Option (List Held) :=
  match item with
  | .obj fields =>
    let index := indexOr fields position
    (mergeDelta (objectOf parts[index]?) fields).map fun merged =>
      setAt index (.obj (isParsed parts[index]?) merged) parts
  | item => some (parts ++ [.ofJson item])
termination_by structural item

/-- `mergeDelta` -/
def mergeDelta (target : HeldFields) (delta : Fields) : Option HeldFields :=
  match delta with
  | [] => some target
  | entry :: delta => (mergeEntry target entry).bind fun target => mergeDelta target delta
termination_by structural delta

/-- A field of a delta. -/
def mergeEntry (target : HeldFields) (entry : String × Json) : Option HeldFields :=
  match entry with
  | (key, value) =>
    if key = "index" then some target
    else if key = "role" then some (put key (.ofJson value) target)
    else (mergeValue (fetch key target) value).map fun merged => put key merged target
termination_by structural entry

end

/-- The objects of the choices. -/
abbrev Chat := OrdMap ℕ HeldFields

/-- A choice of an event, at its position. -/
def mergeChoice (chat : Chat) (position : ℕ) : Json → Option Chat
  | .obj choice =>
    let index := indexOr choice position
    let target := (chat.get index).getD []
    match fetch "message" choice with
    | some (.obj message) => some (chat.insert index (Held.ofFields message))
    | _ =>
      match fetch "delta" choice with
      | some (.obj delta) => (mergeDelta numberText target delta).map (chat.insert index)
      | _ =>
        match fetch "text" choice with
        | some (.str text) => (append numberText target "content" text).map (chat.insert index)
        | _ => some (chat.insert index target)
  | _ => some chat

/-- The choices of an event, the first at `position`. -/
def mergeChoices (chat : Chat) (position : ℕ) : List Json → Option Chat
  | [] => some chat
  | choice :: choices =>
    (mergeChoice numberText chat position choice).bind fun chat => mergeChoices chat (position + 1) choices

/-- What an event does to the choices; events with a wrong index anywhere are shown as they are. -/
def chatEvent (chat : Chat) (v : Json) : Option Chat :=
  if (["index", "output_index", "content_index", "summary_index"].all fun key =>
      validIndex (v.get key)) && ((v.get "choices").all safeDelta) then
    match v.get "choices" with
    | some (.arr choices) => mergeChoices numberText chat 0 choices
    | _ => some chat
  else some chat

/-- The choices at the end; `none` when `append` threw, which nothing in `streamMessages` catches. -/
def streamMessages (events : List (SseEvent × ℕ)) : Option Chat :=
  (events.filterMap eventJson).foldlM (chatEvent numberText) .empty

/-! ### Field by field -/

variable {numberText}

/-- A delta says about a field what it has there, whatever the other fields are. -/
theorem fetch_mergeDelta {key : String} (hindex : key ≠ "index") (hrole : key ≠ "role") :
    ∀ {delta : Fields} {target merged : HeldFields}, Ascending delta →
      mergeDelta numberText target delta = some merged →
      match fetch key delta with
      | some value => ∃ held, mergeValue numberText (fetch key target) value = some held ∧
          fetch key merged = some held
      | none => fetch key merged = fetch key target
  | [], target, merged, _, h => by
      rw [mergeDelta, Option.some.injEq] at h
      exact h ▸ rfl
  | (k, value) :: delta, target, merged, hasc, h => by
      obtain ⟨hlt, htail⟩ := List.pairwise_cons.mp hasc
      rw [mergeDelta, Option.bind_eq_some_iff] at h
      obtain ⟨next, hentry, hrest⟩ := h
      have ih := fetch_mergeDelta hindex hrole htail hrest
      rw [mergeEntry] at hentry
      by_cases hk : key = k
      · subst hk
        rw [if_neg hindex, if_neg hrole, Option.map_eq_some_iff] at hentry
        obtain ⟨held, hheld, rfl⟩ := hentry
        rw [fetch_of_lt hlt, fetch_put, if_pos rfl] at ih
        rw [fetch, if_pos rfl]
        exact ⟨held, hheld, ih⟩
      · have hother : fetch key next = fetch key target := by
          split at hentry
          · cases hentry
            rfl
          split at hentry
          · cases hentry
            rw [fetch_put, if_neg hk]
          · obtain ⟨held, -, rfl⟩ := Option.map_eq_some_iff.mp hentry
            rw [fetch_put, if_neg hk]
        rw [fetch, if_neg hk, ← hother]
        exact ih

theorem getElem?_setAt (parts : List Held) (index : ℕ) (value : Held) (i : ℕ) :
    (setAt index value parts)[i]? =
      if i = index then some value
      else (parts ++ List.replicate (index + 1 - parts.length) Held.null)[i]? := by
  rw [setAt, List.getElem?_set]
  split
  · rename_i h
    subst h
    rw [if_pos rfl, if_pos (by rw [List.length_append, List.length_replicate]; omega)]
  · rename_i h
    rw [if_neg (Ne.symm h)]

end
end Llmtrace.Parsers
