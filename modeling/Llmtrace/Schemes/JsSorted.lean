import Mathlib.Data.List.Perm.Basic
import Mathlib.Data.List.Sort
import Mathlib.Order.Lattice
import Llmtrace.Schemes.JsRoundTrip

/-! Values up to the order of their properties. To sort the properties of every object, from the inside
    out, is to choose one of the values that are the same up to that order; `JSON.stringify` with a
    replacer that sorts tells apart just those that are not, and the numbers that it cannot write. -/

namespace Llmtrace.Schemes

section
variable {ν : Type}

/-! ### The same value -/

mutual

/-- Equal up to the order of properties. -/
def Same : JsValue ν → JsValue ν → Prop
  | .null, .null => True
  | .bool b, .bool b' => b = b'
  | .num x, .num x' => x = x'
  | .str s, .str s' => s = s'
  | .arr items, .arr items' => SameItems items items'
  | .obj fields, .obj fields' => ∃ moved, moved.Perm fields' ∧ SameFields fields moved
  | _, _ => False

/-- The items are the same, one by one. -/
def SameItems : List (JsValue ν) → List (JsValue ν) → Prop
  | [], [] => True
  | v :: vs, w :: ws => Same v w ∧ SameItems vs ws
  | _, _ => False

/-- The members are the same, one by one. -/
def SameFields : List (JsText × JsValue ν) → List (JsText × JsValue ν) → Prop
  | [], [] => True
  | e :: es, e' :: es' => SameField e e' ∧ SameFields es es'
  | _, _ => False

/-- The names are equal, the values the same. -/
def SameField : JsText × JsValue ν → JsText × JsValue ν → Prop
  | (key, v), (key', w) => key = key' ∧ Same v w

end

/-! ### Sorted properties -/

/-- `Object.fromEntries(Object.keys(item).sort().map(key => [key, item[key]]))` -/
def sortFields (fields : List (JsText × JsValue ν)) : List (JsText × JsValue ν) :=
  assign (fields.insertionSort fun e e' => e.1 ≤ e'.1)

mutual

/-- `sortFields` in every object of a value. -/
def sortKeys : JsValue ν → JsValue ν
  | .arr items => .arr (sortItems items)
  | .obj fields => .obj (sortFields (sortValues fields))
  | v => v

/-- `sortKeys` of every item. -/
def sortItems : List (JsValue ν) → List (JsValue ν)
  | [] => []
  | v :: vs => sortKeys v :: sortItems vs

/-- `sortKeys` of every member. -/
def sortValues : List (JsText × JsValue ν) → List (JsText × JsValue ν)
  | [] => []
  | e :: es => sortValue e :: sortValues es

/-- `sortKeys` of a member. -/
def sortValue : JsText × JsValue ν → JsText × JsValue ν
  | (key, v) => (key, sortKeys v)

end

theorem sortItems_eq (items : List (JsValue ν)) : sortItems items = items.map sortKeys := by
  induction items with
  | nil => rfl
  | cons v items ih => rw [sortItems, ih, List.map_cons]

theorem sortValues_eq (fields : List (JsText × JsValue ν)) :
    sortValues fields = fields.map fun e => (e.1, sortKeys e.2) := by
  induction fields with
  | nil => rfl
  | cons e fields ih =>
    obtain ⟨key, v⟩ := e
    rw [sortValues, sortValue, ih, List.map_cons]

theorem names_sortValues (fields : List (JsText × JsValue ν)) :
    (sortValues fields).map Prod.fst = fields.map Prod.fst := by
  rw [sortValues_eq, List.map_map]
  rfl

theorem sortFields_perm {fields : List (JsText × JsValue ν)} (h : (fields.map Prod.fst).Nodup) :
    (sortFields fields).Perm fields := by
  have hsort := List.perm_insertionSort (fun e e' : JsText × JsValue ν => e.1 ≤ e'.1) fields
  exact (assign_perm ((hsort.map Prod.fst).nodup_iff.mpr h)).trans hsort

/-- Sorted, the same properties stand in the same order. -/
theorem sortFields_eq_iff {fields fields' : List (JsText × JsValue ν)}
    (h : (fields.map Prod.fst).Nodup) (h' : (fields'.map Prod.fst).Nodup) :
    sortFields fields = sortFields fields' ↔ fields.Perm fields' := by
  refine ⟨fun heq => ?_, fun hperm => ?_⟩
  · exact (sortFields_perm h).symm.trans (heq ▸ sortFields_perm h')
  · have hsort := List.perm_insertionSort (fun e e' : JsText × JsValue ν => e.1 ≤ e'.1) fields
    have hsort' := List.perm_insertionSort (fun e e' : JsText × JsValue ν => e.1 ≤ e'.1) fields'
    refine congrArg assign (List.Perm.eq_of_pairwise ?_ (List.pairwise_insertionSort _ fields)
      (List.pairwise_insertionSort _ fields') (hsort.trans (hperm.trans hsort'.symm)))
    -- two members of one name are one member
    intro a b ha hb hab hba
    have hb' := hperm.mem_iff.mpr (hsort'.mem_iff.mp hb)
    exact List.inj_on_of_nodup_map h (hsort.mem_iff.mp ha) hb' (le_antisymm hab hba)

theorem sortKeys_obj_eq_iff {fields fields' : List (JsText × JsValue ν)} (h : OwnOrder fields)
    (h' : OwnOrder fields') : sortKeys (.obj fields) = sortKeys (.obj fields') ↔
      (sortValues fields).Perm (sortValues fields') := by
  rw [sortKeys, sortKeys, JsValue.obj.injEq, sortFields_eq_iff]
  · rw [names_sortValues]
    exact h.names
  · rw [names_sortValues]
    exact h'.names

/-- A list whose images are moved about can be moved about itself. -/
theorem exists_perm_of_map {α β : Type} {f : α → β} {xs : List β} {ys : List α}
    (h : xs.Perm (ys.map f)) : ∃ moved : List α, moved.Perm ys ∧ xs = moved.map f := by
  have himage : List.Forall₂ (fun x y => x = f y) (ys.map f) ys := by
    rw [List.forall₂_map_left_iff]
    exact List.forall₂_same.mpr fun _ _ => rfl
  obtain ⟨moved, hmoved, hperm⟩ := List.perm_comp_forall₂ h himage
  refine ⟨moved, hperm, ?_⟩
  rw [← List.forall₂_eq_eq_eq]
  exact List.forall₂_map_right_iff.mpr hmoved

mutual

/-- Sorting chooses one of the values that are the same. -/
theorem same_iff : ∀ v w : JsValue ν, Native v → Native w → (Same v w ↔ sortKeys v = sortKeys w)
  | .null, w, _, _ => by cases w <;> simp [Same, sortKeys]
  | .bool b, w, _, _ => by cases w <;> simp [Same, sortKeys]
  | .num x, w, _, _ => by cases w <;> simp [Same, sortKeys]
  | .str s, w, _, _ => by cases w <;> simp [Same, sortKeys]
  | .arr items, w, hv, hw => by
    cases w with
    | arr items' =>
      rw [Same, sortKeys, sortKeys, JsValue.arr.injEq]
      exact sameItems_iff items items' hv hw
    | null => simp [Same, sortKeys]
    | bool b => simp [Same, sortKeys]
    | num x => simp [Same, sortKeys]
    | str s => simp [Same, sortKeys]
    | obj fields => simp [Same, sortKeys]
  | .obj fields, w, hv, hw => by
    cases w with
    | obj fields' =>
      rw [Native] at hv hw
      rw [Same, sortKeys_obj_eq_iff hv.1 hw.1]
      refine ⟨fun ⟨moved, hperm, hsame⟩ => ?_, fun hperm => ?_⟩
      · have hmoved : NativeFields moved :=
          nativeFields_iff.mpr fun e he => nativeFields_iff.mp hw.2 e (hperm.mem_iff.mp he)
        rw [(sameFields_iff fields moved hv.2 hmoved).mp hsame, sortValues_eq, sortValues_eq]
        exact hperm.map _
      · rw [sortValues_eq fields'] at hperm
        obtain ⟨moved, hmoved, heq⟩ := exists_perm_of_map hperm
        have hnative : NativeFields moved :=
          nativeFields_iff.mpr fun e he => nativeFields_iff.mp hw.2 e (hmoved.mem_iff.mp he)
        rw [← sortValues_eq] at heq
        exact ⟨moved, hmoved, (sameFields_iff fields moved hv.2 hnative).mpr heq⟩
    | null => simp [Same, sortKeys]
    | bool b => simp [Same, sortKeys]
    | num x => simp [Same, sortKeys]
    | str s => simp [Same, sortKeys]
    | arr items => simp [Same, sortKeys]

theorem sameItems_iff : ∀ vs ws : List (JsValue ν), NativeItems vs → NativeItems ws →
    (SameItems vs ws ↔ sortItems vs = sortItems ws)
  | [], [], _, _ => by simp [SameItems]
  | [], w :: ws, _, _ => by simp [SameItems, sortItems]
  | v :: vs, [], _, _ => by simp [SameItems, sortItems]
  | v :: vs, w :: ws, hv, hw => by
    rw [NativeItems] at hv hw
    rw [SameItems, sortItems, sortItems, List.cons.injEq, same_iff v w hv.1 hw.1,
      sameItems_iff vs ws hv.2 hw.2]

theorem sameFields_iff : ∀ es es' : List (JsText × JsValue ν), NativeFields es → NativeFields es' →
    (SameFields es es' ↔ sortValues es = sortValues es')
  | [], [], _, _ => by simp [SameFields]
  | [], e' :: es', _, _ => by simp [SameFields, sortValues]
  | e :: es, [], _, _ => by simp [SameFields, sortValues]
  | e :: es, e' :: es', hv, hw => by
    rw [NativeFields] at hv hw
    rw [SameFields, sortValues, sortValues, List.cons.injEq, sameField_iff e e' hv.1 hw.1,
      sameFields_iff es es' hv.2 hw.2]

theorem sameField_iff : ∀ e e' : JsText × JsValue ν, NativeField e → NativeField e' →
    (SameField e e' ↔ sortValue e = sortValue e')
  | (key, v), (key', w), hv, hw => by
    rw [NativeField] at hv hw
    rw [SameField, sortValue, sortValue, Prod.mk.injEq, same_iff v w hv hw]

end

theorem native_sortKeys (v : JsValue ν) (h : Native v) : Native (sortKeys v) := by
  induction v using JsValue.ind with
  | null => exact h
  | bool b => exact h
  | num x => exact h
  | str s => exact h
  | arr items ih =>
    rw [Native, nativeItems_iff] at h
    rw [sortKeys, Native, sortItems_eq, nativeItems_iff]
    intro w hw
    obtain ⟨v, hv, rfl⟩ := List.mem_map.mp hw
    exact ih v hv (h v hv)
  | obj fields ih =>
    rw [Native, nativeFields_iff] at h
    rw [sortKeys, sortValues_eq]
    refine native_assign (nativeFields_iff.mpr fun e' he' => ?_)
    rw [List.mem_insertionSort] at he'
    obtain ⟨e, he, rfl⟩ := List.mem_map.mp he'
    exact ih e he (h.2 e he)

theorem setField_map (f : JsValue ν → JsValue ν) (key : JsText) (v : JsValue ν) :
    ∀ fields : List (JsText × JsValue ν), setField key (f v) (fields.map fun e => (e.1, f e.2)) =
      (setField key v fields).map fun e => (e.1, f e.2)
  | [] => rfl
  | e :: fields => by
    have ih := setField_map f key v fields
    simp only [List.map_cons, setField]
    split_ifs
    · rfl
    · rfl
    · rw [ih, List.map_cons]

theorem assign_map (f : JsValue ν → JsValue ν) (members : List (JsText × JsValue ν)) :
    assign (members.map fun e => (e.1, f e.2)) = (assign members).map fun e => (e.1, f e.2) := by
  have hfold : ∀ (members fields : List (JsText × JsValue ν)),
      (members.map fun e => (e.1, f e.2)).foldl (fun fields e => setField e.1 e.2 fields)
          (fields.map fun e => (e.1, f e.2)) =
        (members.foldl (fun fields e => setField e.1 e.2 fields) fields).map fun e => (e.1, f e.2) := by
    intro members
    induction members with
    | nil => exact fun fields => rfl
    | cons e members ih =>
      intro fields
      rw [List.map_cons, List.foldl_cons, setField_map, ih, List.foldl_cons]
  exact hfold members []

theorem sortFields_map (f : JsValue ν → JsValue ν) (fields : List (JsText × JsValue ν)) :
    sortFields (fields.map fun e => (e.1, f e.2)) = (sortFields fields).map fun e => (e.1, f e.2) := by
  have hsort := List.map_insertionSort (fun e e' : JsText × JsValue ν => e.1 ≤ e'.1)
    (fun e e' : JsText × JsValue ν => e.1 ≤ e'.1) (fun e => (e.1, f e.2)) fields fun _ _ _ _ => Iff.rfl
  rw [sortFields, sortFields, ← assign_map, hsort]

end

/-! ### What is lost -/

section
variable {N : JsNumbers}

theorem native_nulled (v : JsValue N.Num) (h : Native v) : Native (nulled N v) := by
  induction v using JsValue.ind with
  | null => exact h
  | bool b => exact h
  | str s => exact h
  | num x =>
    rw [nulled]
    split_ifs
    · exact h
    · simp [Native]
  | arr items ih =>
    rw [Native, nativeItems_iff] at h
    rw [nulled, Native, nulledItems_eq, nativeItems_iff]
    intro w hw
    obtain ⟨v, hv, rfl⟩ := List.mem_map.mp hw
    exact ih v hv (h v hv)
  | obj fields ih =>
    rw [Native, nativeFields_iff] at h
    rw [nulled, Native]
    refine ⟨h.1.nulled, nativeFields_iff.mpr fun e' he' => ?_⟩
    rw [nulledFields_eq] at he'
    obtain ⟨e, he, rfl⟩ := List.mem_map.mp he'
    exact ih e he (h.2 e he)

theorem nulled_sortKeys (v : JsValue N.Num) : nulled N (sortKeys v) = sortKeys (nulled N v) := by
  induction v using JsValue.ind with
  | null => rfl
  | bool b => rfl
  | str s => rfl
  | num x =>
    have hnum : sortKeys (.num x : JsValue N.Num) = .num x := rfl
    rw [hnum, nulled]
    split_ifs
    · exact hnum.symm
    · rfl
  | arr items ih =>
    rw [sortKeys, nulled, nulled, sortKeys, sortItems_eq, sortItems_eq, nulledItems_eq, nulledItems_eq,
      List.map_map, List.map_map]
    exact congrArg JsValue.arr (List.map_congr_left ih)
  | obj fields ih =>
    rw [sortKeys, nulled, nulled, sortKeys, nulledFields_eq, ← sortFields_map, sortValues_eq,
      sortValues_eq, nulledFields_eq, List.map_map, List.map_map]
    refine congrArg (fun fields => JsValue.obj (sortFields fields)) (List.map_congr_left fun e he => ?_)
    exact congrArg (Prod.mk e.1) (ih e he)

/-- What `JSON.stringify` with a replacer that sorts tells of a value. -/
def legible (v : JsValue N.Num) : JsValue N.Num := sortKeys (nulled N v)

theorem stringify_sortKeys_eq_iff (laws : N.Lawful) {v w : JsValue N.Num} (hv : Native v) (hw : Native w) :
    stringify N (sortKeys v) = stringify N (sortKeys w) ↔ legible v = legible w := by
  rw [stringify_eq_iff laws (native_sortKeys v hv) (native_sortKeys w hw), nulled_sortKeys,
    nulled_sortKeys, legible, legible]

theorem legible_eq_iff {v w : JsValue N.Num} (hv : Native v) (hw : Native w) :
    legible v = legible w ↔ Same (nulled N v) (nulled N w) := by
  rw [legible, legible, same_iff _ _ (native_nulled v hv) (native_nulled w hw)]

theorem legible_num (x : N.Num) :
    legible (.num x : JsValue N.Num) = if N.isFinite x then .num x else .null := by
  rw [legible, nulled]
  split_ifs
  · rfl
  · rfl

theorem legible_arr (items : List (JsValue N.Num)) :
    legible (.arr items) = .arr (items.map legible) := by
  rw [legible, nulled, sortKeys, nulledItems_eq, sortItems_eq, List.map_map]
  rfl

theorem legible_eq_str {v : JsValue N.Num} {s : JsText} (h : legible v = .str s) : v = .str s := by
  cases v with
  | null => cases h
  | bool b => cases h
  | num x =>
    rw [legible_num] at h
    split_ifs at h
  | str t => exact h
  | arr items => cases h
  | obj fields => cases h

theorem legible_eq_null {v : JsValue N.Num} (h : legible v = .null) :
    v = .null ∨ ∃ x, v = .num x ∧ N.isFinite x = false := by
  cases v with
  | null => exact .inl rfl
  | bool b => cases h
  | num x =>
    rw [legible_num] at h
    split_ifs at h with hfinite
    exact .inr ⟨x, rfl, Bool.not_eq_true _ ▸ hfinite⟩
  | str t => cases h
  | arr items => cases h
  | obj fields => cases h

theorem legible_eq_arr {v : JsValue N.Num} {items : List (JsValue N.Num)} (h : legible v = .arr items) :
    ∃ parts, v = .arr parts := by
  cases v with
  | null => cases h
  | bool b => cases h
  | num x =>
    rw [legible_num] at h
    split_ifs at h
  | str t => cases h
  | arr parts => exact ⟨parts, rfl⟩
  | obj fields => cases h

theorem legible_eq_obj {v : JsValue N.Num} {fields : List (JsText × JsValue N.Num)}
    (h : legible v = .obj fields) : ∃ fields', v = .obj fields' := by
  cases v with
  | null => cases h
  | bool b => cases h
  | num x =>
    rw [legible_num] at h
    split_ifs at h
  | str t => cases h
  | arr parts => cases h
  | obj fields' => exact ⟨fields', rfl⟩

theorem sortValues_nulledFields (fields : List (JsText × JsValue N.Num)) :
    sortValues (nulledFields N fields) = fields.map fun e => (e.1, legible e.2) := by
  rw [sortValues_eq, nulledFields_eq, List.map_map]
  rfl

theorem legible_obj_eq_iff {fields fields' : List (JsText × JsValue N.Num)} (h : OwnOrder fields)
    (h' : OwnOrder fields') : legible (.obj fields) = legible (.obj fields') ↔
      (fields.map fun e => (e.1, legible e.2)).Perm (fields'.map fun e => (e.1, legible e.2)) := by
  rw [legible, legible, Schemes.nulled, Schemes.nulled, sortKeys_obj_eq_iff h.nulled h'.nulled,
    sortValues_nulledFields, sortValues_nulledFields]

/-- Objects of distinct members, in whichever order these were given. -/
theorem legible_assign_eq_iff {members members' : List (JsText × JsValue N.Num)}
    (h : (members.map Prod.fst).Nodup) (h' : (members'.map Prod.fst).Nodup) :
    legible (.obj (assign members)) = legible (.obj (assign members')) ↔
      (members.map fun e => (e.1, legible e.2)).Perm (members'.map fun e => (e.1, legible e.2)) := by
  have hperm := (assign_perm h).map fun e => (e.1, legible e.2)
  have hperm' := (assign_perm h').map fun e => (e.1, legible e.2)
  rw [legible_obj_eq_iff (assign_ownOrder members) (assign_ownOrder members')]
  exact ⟨fun hp => hperm.symm.trans (hp.trans hperm'), fun hp => hperm.trans (hp.trans hperm'.symm)⟩

/-- A name that both lists have only once, at the front, has the same value in both. -/
theorem cons_perm_cons_iff {key : JsText} {v w : JsValue N.Num} {es es' : List (JsText × JsValue N.Num)}
    (h : key ∉ es'.map Prod.fst) :
    ((key, v) :: es).Perm ((key, w) :: es') ↔ v = w ∧ es.Perm es' := by
  refine ⟨fun hperm => ?_, fun ⟨hvw, hperm⟩ => hvw ▸ hperm.cons (key, v)⟩
  rcases List.mem_cons.mp (hperm.mem_iff.mp List.mem_cons_self) with heq | hin
  · cases heq
    exact ⟨rfl, hperm.cons_inv⟩
  · exact absurd (List.mem_map_of_mem hin) h

theorem Same.nulled {v w : JsValue N.Num} (hv : Native v) (hw : Native w) (h : Same v w) :
    Same (nulled N v) (nulled N w) := by
  rw [← legible_eq_iff hv hw, legible, legible, ← nulled_sortKeys, ← nulled_sortKeys,
    (same_iff v w hv hw).mp h]

end

/-! ### Indented -/

section
variable (N : JsNumbers)

/-- A line end, and two spaces for each level. -/
def newline (depth : ℕ) : JsText := 10 :: List.replicate (2 * depth) 32

/-- Parts on lines of their own between two brackets. -/
def bracketed (depth opening closing : ℕ) (parts : List JsText) : JsText :=
  if parts = [] then [opening, closing]
  else opening :: (newline (depth + 1) ++ (44 :: newline (depth + 1)).intercalate parts ++
    newline depth ++ [closing])

mutual

/-- `JSON.stringify(v, null, 2)` inside so many brackets. -/
def prettify (depth : ℕ) : JsValue N.Num → JsText
  | .arr items => bracketed depth 91 93 (prettyItems (depth + 1) items)
  | .obj fields => bracketed depth 123 125 (prettyFields (depth + 1) fields)
  | .null => js "null"
  | .bool b => js (toString b)
  | .num x => if N.isFinite x then N.text x else js "null"
  | .str s => quoteJson s

/-- The texts of the items. -/
def prettyItems (depth : ℕ) : List (JsValue N.Num) → List JsText
  | [] => []
  | v :: vs => prettify depth v :: prettyItems depth vs

/-- The texts of the members. -/
def prettyFields (depth : ℕ) : List (JsText × JsValue N.Num) → List JsText
  | [] => []
  | e :: es => prettyField depth e :: prettyFields depth es

/-- The text of a member. -/
def prettyField (depth : ℕ) : JsText × JsValue N.Num → JsText
  | (key, v) => quoteJson key ++ 58 :: 32 :: prettify depth v

end

theorem prettyItems_eq (depth : ℕ) (items : List (JsValue N.Num)) :
    prettyItems N depth items = items.map (prettify N depth) := by
  induction items with
  | nil => rfl
  | cons v items ih => rw [prettyItems, ih, List.map_cons]

theorem prettyFields_eq (depth : ℕ) (fields : List (JsText × JsValue N.Num)) :
    prettyFields N depth fields = fields.map (prettyField N depth) := by
  induction fields with
  | nil => rfl
  | cons e fields ih => rw [prettyFields, ih, List.map_cons]

theorem prettify_nulled (v : JsValue N.Num) (depth : ℕ) :
    prettify N depth (nulled N v) = prettify N depth v := by
  induction v using JsValue.ind generalizing depth with
  | null => rfl
  | bool b => rfl
  | str s => rfl
  | num x =>
    rw [nulled]
    by_cases h : N.isFinite x
    · rw [if_pos h]
    · rw [if_neg h, prettify, prettify, if_neg h]
  | arr items ih =>
    rw [nulled, prettify, prettify, prettyItems_eq, prettyItems_eq, nulledItems_eq, List.map_map]
    exact congrArg (bracketed depth 91 93) (List.map_congr_left fun v hv => ih v hv (depth + 1))
  | obj fields ih =>
    rw [nulled, prettify, prettify, prettyFields_eq, prettyFields_eq, nulledFields_eq, List.map_map]
    refine congrArg (bracketed depth 123 125) (List.map_congr_left fun e he => ?_)
    rw [Function.comp_apply, prettyField, ih e he (depth + 1), ← prettyField]

/-- Sorted and indented, two values are written alike when they are the same up to what is lost. -/
theorem prettify_sortKeys {v w : JsValue N.Num} (h : legible v = legible w) (depth : ℕ) :
    prettify N depth (sortKeys v) = prettify N depth (sortKeys w) := by
  rw [← prettify_nulled N (sortKeys v), ← prettify_nulled N (sortKeys w), nulled_sortKeys,
    nulled_sortKeys]
  exact congrArg (prettify N depth) h

end
end Llmtrace.Schemes
