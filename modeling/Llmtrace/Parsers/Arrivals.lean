import Llmtrace.Parsers.Browser

/-! Where the browser cannot append a text, told from what came before it. What a place holds is decided
    by the values that came for it, the latest first: an object if the latest was one, put together from
    all objects that came last in a row; a list in the same way; and otherwise the latest value, or the
    text that was built. `String` throws on an object that was put together, and on a list with one in it.

        came:   obj  obj  ▸ str         arr [obj]  arr []  ▸ str        obj  null  ▸ str
        holds:  object: throws          list with an object: throws     null: appended -/

namespace Llmtrace.Parsers
open Schemes ResponseParser

/-! ### What came for a place -/

/-- The fields of the objects that came last in a row, the latest first. -/
def fieldsOf : List Json → Fields
  | .obj fields :: earlier => fields.reverse ++ fieldsOf earlier
  | _ => []

/-- The items of the lists that came last in a row, with their positions, the latest first. -/
def itemsOf : List Json → List (Json × ℕ)
  | .arr items :: earlier => items.zipIdx.reverse ++ itemsOf earlier
  | _ => []

/-- What came for a field of an object. -/
def arrivals (key : String) (history : Fields) : List Json :=
  (history.filter fun e => decide (e.1 = key)).map Prod.snd

/-- The fields that came for the part at `index` of a list. -/
def partFields (index : ℕ) : List (Json × ℕ) → Fields
  | [] => []
  | (.obj fields, position) :: earlier =>
    if indexOr fields position = index then fields.reverse ++ partFields index earlier
    else partFields index earlier
  | _ :: earlier => partFields index earlier

mutual

/-- `String` does not throw on a parsed value. -/
def printable (value : Json) : Bool :=
  match value with
  | .obj fields => (fetch "toString" fields).isNone
  | .arr items => printableItems items
  | _ => true
termination_by structural value

/-- `String` throws on none of the items. -/
def printableItems (items : List Json) : Bool :=
  match items with
  | [] => true
  | item :: items => printable item && printableItems items
termination_by structural items

end

/-- An item that leaves its list printable: an object does not, it is merged into one without prototype. -/
def printableItem : Json → Bool
  | .obj _ => false
  | item => printable item

/-- `String` does not throw on what a place holds. -/
def readable : List Json → Bool
  | .obj _ :: _ => false
  | earlier => (itemsOf earlier).all fun e => printableItem e.1

mutual

/-- A value can be merged into a place: no text in it meets something that `String` throws on. -/
def lands (earlier : List Json) (value : Json) : Bool :=
  match value with
  | .str _ => readable earlier
  | .arr items => landsItems (itemsOf earlier) 0 items
  | .obj fields => landsFields (fieldsOf earlier) fields
  | _ => true
termination_by structural value

/-- The items can be merged into a list, the first at `position`. -/
def landsItems (history : List (Json × ℕ)) (position : ℕ) (items : List Json) : Bool :=
  match items with
  | [] => true
  | item :: items =>
    landsItem history position item && landsItems ((item, position) :: history) (position + 1) items
termination_by structural items

/-- An item can be merged into the part at its index. -/
def landsItem (history : List (Json × ℕ)) (position : ℕ) (item : Json) : Bool :=
  match item with
  | .obj fields => landsFields (partFields (indexOr fields position) history) fields
  | _ => true
termination_by structural item

/-- The fields can be merged into an object, one after the other. -/
def landsFields (history fields : Fields) : Bool :=
  match fields with
  | [] => true
  | entry :: fields => landsField history entry && landsFields (entry :: history) fields
termination_by structural fields

/-- A field can be merged; indices and roles are taken over as they are. -/
def landsField (history : Fields) (entry : String × Json) : Bool :=
  match entry with
  | (key, value) => decide (key = "index") || decide (key = "role") || lands (arrivals key history) value
termination_by structural entry

end

/-- The delta of a choice at a position, with its index. -/
def choiceDelta : Json × ℕ → Option (ℕ × Fields)
  | (.obj choice, position) =>
    match fetch "delta" choice with
    | some (.obj delta) => some (indexOr choice position, delta)
    | _ => none
  | _ => none

/-- The deltas of an event. -/
def choiceDeltas (v : Json) : List (ℕ × Fields) :=
  match v.get "choices" with
  | some (.arr choices) => choices.zipIdx.filterMap choiceDelta
  | _ => []

/-- The fields that came for the choice at `index`. -/
def deltaFields (index : ℕ) : List (ℕ × Fields) → Fields
  | [] => []
  | (i, delta) :: earlier =>
    if i = index then delta.reverse ++ deltaFields index earlier else deltaFields index earlier

/-- The deltas land, each after the ones before it. -/
def landsDeltas (history : List (ℕ × Fields)) : List (ℕ × Fields) → Bool
  | [] => true
  | (index, delta) :: rest =>
    landsFields (deltaFields index history) delta && landsDeltas ((index, delta) :: history) rest

/-- Every delta of a stream lands in its choice. -/
def streamLands (events : List (SseEvent × ℕ)) : Bool :=
  landsDeltas [] ((events.filterMap eventJson).flatMap choiceDeltas)

/-! ### What a place holds -/

variable {numberText : Held → String}

/-- A place with what came for it. -/
inductive Holds (numberText : Held → String) : List Json → Option Held → Prop
  | nothing : Holds numberText [] none
  | text {s t : String} {earlier : List Json} : Holds numberText (.str s :: earlier) (some (.str t))
  | plain {v : Json} {earlier : List Json} : v.asStr = none → v.asArray = none → v.asObject = none →
    Holds numberText (v :: earlier) (some (.ofJson v))
  | list {items earlier : List Json} {parts : List Held} :
    (∀ (i : ℕ) (key : String), key ≠ "index" → key ≠ "role" →
      Holds numberText (arrivals key (partFields i (itemsOf (.arr items :: earlier))))
        (fetch key (objectOf parts[i]?))) →
    (∀ i : ℕ, isParsed parts[i]? = false) →
    (parts.all fun part => (part.print numberText).isSome) =
      ((itemsOf (.arr items :: earlier)).all fun e => printableItem e.1) →
    Holds numberText (.arr items :: earlier) (some (.arr parts))
  | object {delta : Fields} {earlier : List Json} {fields : HeldFields} :
    (∀ key : String, key ≠ "index" → key ≠ "role" →
      Holds numberText (arrivals key (fieldsOf (.obj delta :: earlier))) (fetch key fields)) →
    Holds numberText (.obj delta :: earlier) (some (.obj false fields))

/-- The fields of an object with what came for it. -/
def FieldsHold (numberText : Held → String) (history : Fields) (fields : HeldFields) : Prop :=
  ∀ key, key ≠ "index" → key ≠ "role" → Holds numberText (arrivals key history) (fetch key fields)

/-- The parts of a list with what came for it. -/
structure PartsHold (numberText : Held → String) (history : List (Json × ℕ)) (parts : List Held) :
    Prop where
  fields : ∀ i : ℕ, FieldsHold numberText (partFields i history) (objectOf parts[i]?)
  made : ∀ i : ℕ, isParsed parts[i]? = false
  prints : (parts.all fun part => (part.print numberText).isSome) =
    history.all fun e => printableItem e.1

/-! ### Printing -/

theorem printItems_isSome : ∀ items : List Held, (Held.printItems numberText items).isSome =
    items.all fun item => (item.print numberText).isSome
  | [] => rfl
  | item :: items => by
      have ih := printItems_isSome items
      rw [List.all_cons, ← ih]
      cases item with
      | null => rw [Held.printItems, Option.isSome_map]; rfl
      | bool | int | float | str | arr | obj =>
        rw [Held.printItems, Option.isSome_bind]
        · cases Held.print numberText _ with
          | none => rfl
          | some text => rw [Option.any_some, Option.isSome_map, Option.isSome_some, Bool.true_and]
        · exact nofun

theorem print_arr (items : List Held) : (Held.print numberText (.arr items)).isSome =
    items.all fun item => (item.print numberText).isSome := by
  rw [Held.print, Option.isSome_map, printItems_isSome]

theorem fetch_ofFields (key : String) : ∀ fields : Fields,
    fetch key (Held.ofFields fields) = (fetch key fields).map Held.ofJson
  | [] => rfl
  | (k, value) :: fields => by
      rw [Held.ofFields, Held.ofField, fetch, fetch, fetch_ofFields key fields]
      split <;> rfl

mutual

theorem print_ofJson (value : Json) :
    (Held.print numberText (.ofJson value)).isSome = printable value := by
  match value with
  | .null | .bool b | .int n | .float text | .str s => rfl
  | .arr items => rw [Held.ofJson, print_arr, printable, print_ofItems items]
  | .obj fields =>
    rw [Held.ofJson, Held.print, printable, fetch_ofFields, Option.isNone_map, Bool.true_and]
    cases (fetch "toString" fields).isNone <;> rfl
termination_by structural value

theorem print_ofItems (items : List Json) :
    ((Held.ofItems items).all fun item => (item.print numberText).isSome) = printableItems items := by
  match items with
  | [] => rfl
  | item :: items =>
    rw [Held.ofItems, List.all_cons, printableItems, print_ofJson item, print_ofItems items]
termination_by structural items

end

/-! ### What a place that holds something is -/

theorem fieldsHold_nil : FieldsHold numberText [] [] := fun _ _ _ => .nothing

theorem partsHold_nil : PartsHold numberText [] [] where
  fields _ := fieldsHold_nil
  made _ := rfl
  prints := rfl

/-- `String` throws on what a place holds exactly if the place is not readable. -/
theorem Holds.textOf {earlier : List Json} {old : Option Held} (h : Holds numberText earlier old) :
    (textOf numberText old).isSome = readable earlier := by
  cases h with
  | nothing => rfl
  | text => rfl
  | @plain v earlier hstr harr hobj =>
    cases v with
    | str => cases hstr
    | arr => cases harr
    | obj => cases hobj
    | null | bool | int | float => rfl
  | list _ _ hprints => exact (print_arr _).trans hprints
  | object => rfl

/-- The object that a delta for the place is merged into. -/
theorem Holds.objectOf {earlier : List Json} {old : Option Held} (h : Holds numberText earlier old) :
    FieldsHold numberText (fieldsOf earlier) (objectOf old) ∧ isParsed old = false := by
  cases h with
  | nothing => exact ⟨fieldsHold_nil, rfl⟩
  | text => exact ⟨fieldsHold_nil, rfl⟩
  | @plain v earlier hstr harr hobj =>
    cases v with
    | obj => cases hobj
    | _ => exact ⟨fieldsHold_nil, rfl⟩
  | list => exact ⟨fieldsHold_nil, rfl⟩
  | object hfields => exact ⟨hfields, rfl⟩

/-- The list that items for the place are merged into. -/
theorem Holds.arrayOf {earlier : List Json} {old : Option Held} (h : Holds numberText earlier old) :
    PartsHold numberText (itemsOf earlier) (arrayOf old) := by
  cases h with
  | nothing => exact partsHold_nil
  | text => exact partsHold_nil
  | @plain v earlier hstr harr hobj =>
    cases v with
    | arr => cases harr
    | _ => exact partsHold_nil
  | list hfields hmade hprints => exact ⟨hfields, hmade, hprints⟩
  | object => exact partsHold_nil

theorem arrivals_cons_self (key : String) (value : Json) (history : Fields) :
    arrivals key ((key, value) :: history) = value :: arrivals key history := by
  rw [arrivals, List.filter_cons_of_pos (by simp)]
  rfl

theorem arrivals_cons_ne {key : String} {entry : String × Json} (h : entry.1 ≠ key) (history : Fields) :
    arrivals key (entry :: history) = arrivals key history := by
  rw [arrivals, List.filter_cons_of_neg (by simpa using h)]
  rfl

theorem FieldsHold.put {history : Fields} {fields : HeldFields} (h : FieldsHold numberText history fields)
    {key : String} {value : Json} {held : Held}
    (hheld : key ≠ "role" → Holds numberText (value :: arrivals key history) (some held)) :
    FieldsHold numberText ((key, value) :: history) (put key held fields) := by
  intro k hindex hrole
  rw [fetch_put]
  by_cases hk : k = key
  · subst hk
    rw [if_pos rfl, arrivals_cons_self]
    exact hheld hrole
  · rw [if_neg hk, arrivals_cons_ne (Ne.symm hk)]
    exact h k hindex hrole

theorem FieldsHold.index {history : Fields} {fields : HeldFields}
    (h : FieldsHold numberText history fields) (value : Json) :
    FieldsHold numberText (("index", value) :: history) fields := by
  intro k hindex hrole
  rw [arrivals_cons_ne (Ne.symm hindex)]
  exact h k hindex hrole

theorem objectOf_padded (parts : List Held) (n i : ℕ) :
    objectOf (parts ++ List.replicate n Held.null)[i]? = objectOf parts[i]? := by
  rcases Nat.lt_or_ge i parts.length with h | h
  · rw [List.getElem?_append_left h]
  · rw [List.getElem?_append_right h, List.getElem?_eq_none h, List.getElem?_replicate]
    split <;> rfl

theorem isParsed_padded (parts : List Held) (n i : ℕ) :
    isParsed (parts ++ List.replicate n Held.null)[i]? = isParsed parts[i]? := by
  rcases Nat.lt_or_ge i parts.length with h | h
  · rw [List.getElem?_append_left h]
  · rw [List.getElem?_append_right h, List.getElem?_eq_none h, List.getElem?_replicate]
    split <;> rfl

/-- An object that was merged at an index. -/
theorem PartsHold.set {history : List (Json × ℕ)} {parts : List Held}
    (h : PartsHold numberText history parts) {fields : Fields} {position : ℕ} {merged : HeldFields}
    (hmerged : FieldsHold numberText
      (fields.reverse ++ partFields (indexOr fields position) history) merged) :
    PartsHold numberText ((.obj fields, position) :: history)
      (setAt (indexOr fields position) (.obj false merged) parts) where
  fields i := by
    rw [getElem?_setAt, partFields]
    by_cases hi : i = indexOr fields position
    · subst hi
      rw [if_pos rfl, if_pos rfl]
      exact hmerged
    · rw [if_neg hi, if_neg (Ne.symm hi), objectOf_padded]
      exact h.fields i
  made i := by
    rw [getElem?_setAt]
    split
    · rfl
    · rw [isParsed_padded]
      exact h.made i
  prints := by
    rw [List.all_cons, printableItem, Bool.false_and, List.all_eq_false]
    refine ⟨.obj false merged, ?_, by simp [Held.print]⟩
    refine List.mem_iff_getElem?.mpr ⟨indexOr fields position, ?_⟩
    rw [getElem?_setAt, if_pos rfl]

/-- An item that was put at the end. -/
theorem PartsHold.push {history : List (Json × ℕ)} {parts : List Held}
    (h : PartsHold numberText history parts) {item : Json} (hitem : item.asObject = none)
    (position : ℕ) :
    PartsHold numberText ((item, position) :: history) (parts ++ [.ofJson item]) := by
  have hnone : ∀ i : ℕ, objectOf (parts ++ [.ofJson item])[i]? = objectOf parts[i]? ∧
      isParsed (parts ++ [.ofJson item])[i]? = isParsed parts[i]? := by
    intro i
    rcases Nat.lt_or_ge i parts.length with hi | hi
    · rw [List.getElem?_append_left hi]
      exact ⟨rfl, rfl⟩
    · rw [List.getElem?_append_right hi, List.getElem?_eq_none hi]
      cases item with
      | obj => cases hitem
      | _ => rcases i - parts.length with _ | n <;> exact ⟨rfl, rfl⟩
  have hsame : ∀ i, partFields i ((item, position) :: history) = partFields i history := by
    intro i
    cases item with
    | obj => cases hitem
    | _ => rfl
  refine ⟨fun i => ?_, fun i => ?_, ?_⟩
  · rw [(hnone i).1, hsame]
    exact h.fields i
  · rw [(hnone i).2]
    exact h.made i
  · have hprint : printableItem item = printable item := by
      cases item with
      | obj => cases hitem
      | _ => rfl
    rw [List.all_append, List.all_cons, List.all_cons, h.prints, print_ofJson, hprint, List.all_nil,
      Bool.and_true, Bool.and_comm]

/-! ### Merging -/

/-- A merge throws exactly where it is told to, and keeps what it should otherwise. -/
def Merges {α : Type} (lands : Bool) (result : Option α) (keeps : α → Prop) : Prop :=
  match result with
  | some new => lands = true ∧ keeps new
  | none => lands = false

theorem Merges.map {α β : Type} {l : Bool} {result : Option α} {keeps : α → Prop} {keeps' : β → Prop}
    {f : α → β} (h : Merges l result keeps) (hf : ∀ new, keeps new → keeps' (f new)) :
    Merges l (result.map f) keeps' := by
  cases result with
  | none => exact h
  | some new => exact ⟨h.1, hf new h.2⟩

theorem Merges.bind {α β : Type} {l l' : Bool} {result : Option α} {keeps : α → Prop}
    {keeps' : β → Prop} {f : α → Option β} (h : Merges l result keeps)
    (hf : ∀ new, keeps new → Merges l' (f new) keeps') : Merges (l && l') (result.bind f) keeps' := by
  cases result with
  | none => rw [show l = false from h]; rfl
  | some new =>
    rw [h.1, Bool.true_and]
    exact hf new h.2

mutual

theorem mergeValue_lands (value : Json) {earlier : List Json} {old : Option Held}
    (h : Holds numberText earlier old) :
    Merges (lands earlier value) (mergeValue numberText old value) fun held =>
      Holds numberText (value :: earlier) (some held) := by
  match value with
  | .str delta =>
    have htext := h.textOf
    rw [mergeValue, lands]
    cases hold : textOf numberText old with
    | none =>
      rw [hold] at htext
      exact htext.symm
    | some text =>
      rw [hold] at htext
      exact ⟨htext.symm, .text⟩
  | .arr items =>
    rw [mergeValue, lands]
    refine (mergeParts_lands items h.arrayOf 0).map fun parts hparts => ?_
    exact .list hparts.fields hparts.made hparts.prints
  | .obj fields =>
    obtain ⟨hfields, hmade⟩ := h.objectOf
    rw [mergeValue, lands, hmade]
    exact (mergeDelta_lands fields hfields).map fun merged hmerged => .object hmerged
  | .null | .bool b | .int n | .float text => exact ⟨rfl, .plain rfl rfl rfl⟩
termination_by structural value

theorem mergeParts_lands (items : List Json) {history : List (Json × ℕ)} {parts : List Held}
    (h : PartsHold numberText history parts) (position : ℕ) :
    Merges (landsItems history position items) (mergeParts numberText parts position items) fun merged =>
      PartsHold numberText ((items.zipIdx position).reverse ++ history) merged := by
  match items with
  | [] => exact ⟨rfl, h⟩
  | item :: items =>
    rw [landsItems, mergeParts, List.zipIdx_cons, List.reverse_cons, List.append_assoc]
    exact (mergePart_lands item h position).bind fun next hnext =>
      mergeParts_lands items hnext (position + 1)
termination_by structural items

theorem mergePart_lands (item : Json) {history : List (Json × ℕ)} {parts : List Held}
    (h : PartsHold numberText history parts) (position : ℕ) :
    Merges (landsItem history position item) (mergePart numberText parts position item) fun merged =>
      PartsHold numberText ((item, position) :: history) merged := by
  match item with
  | .obj fields =>
    rw [mergePart, landsItem, h.made]
    exact (mergeDelta_lands fields (h.fields _)).map fun merged hmerged => h.set hmerged
  | .null | .bool b | .int n | .float text | .str s | .arr items => exact ⟨rfl, h.push rfl position⟩
termination_by structural item

theorem mergeDelta_lands (delta : Fields) {history : Fields} {target : HeldFields}
    (h : FieldsHold numberText history target) :
    Merges (landsFields history delta) (mergeDelta numberText target delta) fun merged =>
      FieldsHold numberText (delta.reverse ++ history) merged := by
  match delta with
  | [] => exact ⟨rfl, h⟩
  | entry :: delta =>
    rw [landsFields, mergeDelta, List.reverse_cons, List.append_assoc]
    exact (mergeEntry_lands entry h).bind fun next hnext => mergeDelta_lands delta hnext
termination_by structural delta

theorem mergeEntry_lands (entry : String × Json) {history : Fields} {target : HeldFields}
    (h : FieldsHold numberText history target) :
    Merges (landsField history entry) (mergeEntry numberText target entry) fun merged =>
      FieldsHold numberText (entry :: history) merged := by
  match entry with
  | (key, value) =>
    rw [landsField, mergeEntry]
    by_cases hindex : key = "index"
    · subst hindex
      exact ⟨rfl, h.index value⟩
    by_cases hrole : key = "role"
    · subst hrole
      exact ⟨rfl, h.put fun hne => absurd rfl hne⟩
    rw [decide_eq_false hindex, decide_eq_false hrole, if_neg hindex, if_neg hrole]
    exact (mergeValue_lands value (h key hindex hrole)).map fun held hheld => h.put fun _ => hheld
termination_by structural entry

end

end Llmtrace.Parsers
