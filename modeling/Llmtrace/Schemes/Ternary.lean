import Mathlib.Data.Option.Basic

/-! Three truth values. A condition about a missing value is unknown, and a filter keeps the rows of
    which its condition is true: what is unknown is left out like what is false.

    With the filter around it, a condition can be read with two truth values. The negation cannot: that
    a condition does not hold is not that its negation does. -/

namespace Llmtrace.Schemes

/-- `none` is unknown. -/
abbrev Ternary := Option Bool

namespace Ternary

/-- `AND` -/
def conj : Ternary → Ternary → Ternary
  | some false, _ => some false
  | _, some false => some false
  | some true, some true => some true
  | _, _ => none

/-- `OR` -/
def disj : Ternary → Ternary → Ternary
  | some true, _ => some true
  | _, some true => some true
  | some false, some false => some false
  | _, _ => none

/-- The conjunction of a list. -/
def allOf (cs : List Ternary) : Ternary := cs.foldr conj (some true)

/-- The disjunction of a list. -/
def anyOf (cs : List Ternary) : Ternary := cs.foldr disj (some false)

/-- `IS NULL` -/
def isNull {α : Type*} (x : Option α) : Ternary := some x.isNone

/-- `IS NOT NULL` -/
def notNull {α : Type*} (x : Option α) : Ternary := some x.isSome

/-- A comparison of two values, each of which may be missing. -/
def compare {α β : Type*} (p : α → β → Bool) (x : Option α) (y : Option β) : Ternary :=
  x.bind fun a => y.map (p a)

/-- The row is kept. -/
def holds (c : Ternary) : Bool := c.getD false

/-- `CASE WHEN … THEN … ELSE … END` -/
def firstOf {β : Type*} (branches : List (Ternary × β)) (otherwise : β) : β :=
  ((branches.find? fun branch => holds branch.1).map Prod.snd).getD otherwise

/-- The rows that a condition keeps; `none` is a condition that cannot be evaluated. -/
def select {α : Type*} (c : α → Option Ternary) (rows : List α) : Option (List α) :=
  rows.foldr (fun row kept => (c row).bind fun c => kept.map fun kept => if holds c then row :: kept else kept)
    (some [])

/-! ### Under a filter -/

@[simp] theorem holds_some (b : Bool) : holds (some b) = b := rfl

@[simp] theorem holds_none : holds none = false := rfl

@[simp] theorem holds_conj : ∀ c d : Ternary, holds (conj c d) = (holds c && holds d)
  | none, none | none, some false | none, some true => rfl
  | some false, none | some false, some false | some false, some true => rfl
  | some true, none | some true, some false | some true, some true => rfl

@[simp] theorem holds_disj : ∀ c d : Ternary, holds (disj c d) = (holds c || holds d)
  | none, none | none, some false | none, some true => rfl
  | some false, none | some false, some false | some false, some true => rfl
  | some true, none | some true, some false | some true, some true => rfl

@[simp] theorem holds_allOf (cs : List Ternary) : holds (allOf cs) = cs.all holds := by
  induction cs with
  | nil => rfl
  | cons c cs ih => rw [allOf, List.foldr_cons, holds_conj, ← allOf, ih, List.all_cons]

@[simp] theorem holds_anyOf (cs : List Ternary) : holds (anyOf cs) = cs.any holds := by
  induction cs with
  | nil => rfl
  | cons c cs ih => rw [anyOf, List.foldr_cons, holds_disj, ← anyOf, ih, List.any_cons]

section
variable {α β : Type*} (x : Option α) (y : Option β)

@[simp] theorem holds_isNull : holds (isNull x) = x.isNone := rfl

@[simp] theorem holds_notNull : holds (notNull x) = x.isSome := rfl

@[simp] theorem holds_map (p : α → Bool) : holds (x.map p) = x.any p := by cases x <;> rfl

@[simp] theorem holds_compare (p : α → β → Bool) : holds (compare p x y) = x.any fun a => y.any (p a) := by
  cases x with
  | none => rfl
  | some a => exact holds_map y (p a)

/-- `x IS NULL OR …` about a value that is given. -/
theorem holds_given (c : Ternary) (value : α) : holds (disj (isNull (some value)) c) = holds c := by
  rw [holds_disj]
  rfl

end

theorem select_eq {α : Type*} {c : α → Option Ternary} {c' : α → Ternary} (h : ∀ row, c row = some (c' row))
    (rows : List α) : select c rows = some (rows.filter fun row => holds (c' row)) := by
  induction rows with
  | nil => rfl
  | cons row rows ih =>
    rw [select, List.foldr_cons, h, Option.bind_some, ← select, ih, Option.map_some, List.filter_cons]

end Ternary

end Llmtrace.Schemes
