import Llmtrace.Schemes.JsonText

/-! `JSON.parse` behind `JSON.stringify`. A value as the language keeps it, with the properties of each
    object in their own order, is read back as it was, except for the numbers that are not finite:
    these are written as `null`. So two values are written alike exactly when they are the same up to
    those numbers. -/

namespace Llmtrace.Schemes

/-! ### The order of properties -/

section
variable {ν : Type} {fields : List (JsText × JsValue ν)}

/-- Distinct names, in the order in which they are enumerated. -/
structure OwnOrder (fields : List (JsText × JsValue ν)) : Prop where
  names : (fields.map Prod.fst).Nodup
  order : fields.Pairwise fun e e' => comesBefore e'.1 e.1 = false

theorem OwnOrder.nil : OwnOrder ([] : List (JsText × JsValue ν)) := ⟨List.nodup_nil, List.Pairwise.nil⟩

theorem mem_setField {key : JsText} {v : JsValue ν} {e : JsText × JsValue ν} :
    ∀ {fields : List (JsText × JsValue ν)}, e ∈ setField key v fields → e = (key, v) ∨ e ∈ fields
  | [], h => by simpa [setField] using h
  | x :: fields, h => by
    rw [setField] at h
    split_ifs at h
    · exact (List.mem_cons.mp h).imp_right (List.mem_cons_of_mem x)
    · exact List.mem_cons.mp h
    · rcases List.mem_cons.mp h with rfl | h
      · exact .inr List.mem_cons_self
      · exact (mem_setField h).imp_right (List.mem_cons_of_mem x)

/-- A new property is entered somewhere. -/
theorem setField_perm {key : JsText} {v : JsValue ν} : ∀ {fields : List (JsText × JsValue ν)},
    key ∉ fields.map Prod.fst → (setField key v fields).Perm ((key, v) :: fields)
  | [], _ => List.Perm.refl _
  | e :: fields, h => by
    obtain ⟨hne, hrest⟩ := not_or.mp (mt List.mem_cons.mpr h)
    rw [setField, if_neg (Ne.symm hne)]
    split_ifs
    · exact List.Perm.refl _
    · exact ((setField_perm hrest).cons e).trans (.swap _ _ _)

theorem foldl_setField_perm : ∀ (members fields : List (JsText × JsValue ν)),
    ((fields ++ members).map Prod.fst).Nodup →
    (members.foldl (fun fields e => setField e.1 e.2 fields) fields).Perm (fields ++ members)
  | [], fields, _ => by simp
  | e :: members, fields, h => by
    have hmiddle : (fields ++ e :: members).Perm (e :: (fields ++ members)) := List.perm_middle
    have hnodup := (hmiddle.map Prod.fst).nodup_iff.mp h
    simp only [List.map_cons, List.nodup_cons, List.map_append, List.mem_append, not_or] at hnodup
    have hset := setField_perm (v := e.2) hnodup.1.1
    refine (foldl_setField_perm members _ ?_).trans
      ((hset.append_right members).trans List.perm_middle.symm)
    refine ((hset.append_right members).map Prod.fst).nodup_iff.mpr ?_
    simpa using hnodup

/-- An object made of distinct members has just these. -/
theorem assign_perm {members : List (JsText × JsValue ν)} (h : (members.map Prod.fst).Nodup) :
    (assign members).Perm members :=
  foldl_setField_perm members [] h

theorem mem_assign {members : List (JsText × JsValue ν)} {e : JsText × JsValue ν}
    (h : e ∈ assign members) : e ∈ members := by
  have hfold : ∀ (members fields : List (JsText × JsValue ν)),
      e ∈ members.foldl (fun fields e => setField e.1 e.2 fields) fields → e ∈ fields ∨ e ∈ members := by
    intro members
    induction members with
    | nil => exact fun fields h => .inl h
    | cons x members ih =>
      intro fields h
      rcases ih _ h with h | h
      · rcases mem_setField h with rfl | h
        · exact .inr List.mem_cons_self
        · exact .inl h
      · exact .inr (List.mem_cons_of_mem x h)
  exact (hfold members [] h).resolve_left (by simp)

/-- What comes after a property comes after those that this one comes after. -/
theorem comesBefore_later {key other third : JsText} (h : comesBefore key other = true)
    (hlater : comesBefore third other = false) : comesBefore third key = false := by
  unfold comesBefore at *
  cases hk : arrayIndex key <;> cases ho : arrayIndex other <;> cases ht : arrayIndex third <;>
    simp_all
  omega

theorem OwnOrder.setField {key : JsText} {v : JsValue ν} : ∀ {fields : List (JsText × JsValue ν)},
    OwnOrder fields → OwnOrder (setField key v fields)
  | [], _ => ⟨by simp [Schemes.setField], by simp [Schemes.setField]⟩
  | e :: fields, ⟨hnames, horder⟩ => by
    obtain ⟨hnotin, hnames⟩ := List.nodup_cons.mp hnames
    obtain ⟨hfirst, horder⟩ := List.pairwise_cons.mp horder
    rw [Schemes.setField]
    split_ifs with heq hbefore
    · subst heq
      exact ⟨List.nodup_cons.mpr ⟨hnotin, hnames⟩, List.pairwise_cons.mpr ⟨hfirst, horder⟩⟩
    · have hirrefl : comesBefore e.1 e.1 = false := by
        unfold comesBefore
        cases arrayIndex e.1 <;> simp
      have hnew : key ∉ fields.map Prod.fst := by
        intro hin
        obtain ⟨x, hx, rfl⟩ := List.mem_map.mp hin
        rw [hfirst x hx] at hbefore
        cases hbefore
      refine ⟨List.nodup_cons.mpr ⟨?_, List.nodup_cons.mpr ⟨hnotin, hnames⟩⟩,
        List.pairwise_cons.mpr ⟨?_, List.pairwise_cons.mpr ⟨hfirst, horder⟩⟩⟩
      · rw [List.map_cons, List.mem_cons, not_or]
        exact ⟨Ne.symm heq, hnew⟩
      · rintro x (_ | ⟨_, hx⟩)
        · exact comesBefore_later hbefore hirrefl
        · exact comesBefore_later hbefore (hfirst x hx)
    · have hrest : OwnOrder (Schemes.setField key v fields) := OwnOrder.setField ⟨hnames, horder⟩
      obtain ⟨hnames', horder'⟩ := hrest
      refine ⟨List.nodup_cons.mpr ⟨?_, hnames'⟩, List.pairwise_cons.mpr ⟨?_, horder'⟩⟩
      · intro hin
        obtain ⟨x, hx, hxe⟩ := List.mem_map.mp hin
        rcases mem_setField hx with rfl | hx
        · exact heq hxe.symm
        · exact hnotin (hxe ▸ List.mem_map_of_mem hx)
      · intro x hx
        rcases mem_setField hx with rfl | hx
        · simpa using hbefore
        · exact hfirst x hx

theorem assign_ownOrder (members : List (JsText × JsValue ν)) : OwnOrder (assign members) := by
  have hfold : ∀ (members fields : List (JsText × JsValue ν)), OwnOrder fields →
      OwnOrder (members.foldl (fun fields e => setField e.1 e.2 fields) fields) := by
    intro members
    induction members with
    | nil => exact fun fields h => h
    | cons e members ih => exact fun fields h => ih _ h.setField
  exact hfold members [] .nil

/-- A property that comes after all others is entered at the end. -/
theorem setField_last {e : JsText × JsValue ν} : ∀ {fields : List (JsText × JsValue ν)},
    e.1 ∉ fields.map Prod.fst → (∀ x ∈ fields, comesBefore e.1 x.1 = false) →
    setField e.1 e.2 fields = fields ++ [e]
  | [], _, _ => rfl
  | x :: fields, hnew, hafter => by
    obtain ⟨hne, hrest⟩ := not_or.mp (mt List.mem_cons.mpr hnew)
    rw [setField, if_neg (Ne.symm hne), if_neg (by rw [hafter x List.mem_cons_self]; decide),
      setField_last hrest fun y hy => hafter y (List.mem_cons_of_mem x hy)]
    rfl

theorem mem_of_lookup_eq_some {key : JsText} {v : JsValue ν} : ∀ {fields : List (JsText × JsValue ν)},
    fields.lookup key = some v → (key, v) ∈ fields
  | e :: fields, h => by
    rw [lookup_cons_eq] at h
    split_ifs at h with heq
    · cases h
      exact heq ▸ List.mem_cons_self
    · exact List.mem_cons_of_mem e (mem_of_lookup_eq_some h)

theorem lookup_eq_some_of_mem {key : JsText} {v : JsValue ν} : ∀ {fields : List (JsText × JsValue ν)},
    (fields.map Prod.fst).Nodup → (key, v) ∈ fields → fields.lookup key = some v
  | e :: fields, hnames, h => by
    obtain ⟨hnotin, hnames⟩ := List.nodup_cons.mp hnames
    rw [lookup_cons_eq]
    rcases List.mem_cons.mp h with rfl | h
    · rw [if_pos rfl]
    · have hne : key ≠ e.1 := fun heq => hnotin (heq ▸ List.mem_map_of_mem (f := Prod.fst) h)
      rw [if_neg hne, lookup_eq_some_of_mem hnames h]

/-- An object keeps the order of its own properties. -/
theorem OwnOrder.assign_eq (h : OwnOrder fields) : assign fields = fields := by
  have hfold : ∀ (members fields : List (JsText × JsValue ν)), OwnOrder (fields ++ members) →
      members.foldl (fun fields e => Schemes.setField e.1 e.2 fields) fields = fields ++ members := by
    intro members
    induction members with
    | nil => exact fun fields _ => (List.append_nil fields).symm
    | cons e members ih =>
      intro fields ⟨hnames, horder⟩
      have hnew : e.1 ∉ fields.map Prod.fst := by
        rw [List.map_append, List.map_cons] at hnames
        exact fun hin => (List.nodup_append.mp hnames).2.2 _ hin _ List.mem_cons_self rfl
      have hafter : ∀ x ∈ fields, comesBefore e.1 x.1 = false := fun x hx =>
        (List.pairwise_append.mp horder).2.2 x hx e List.mem_cons_self
      rw [List.foldl_cons, setField_last hnew hafter, ih (fields ++ [e]) (by simpa using ⟨hnames, horder⟩)]
      simp
  exact hfold fields [] h

end

/-! ### Values as the language keeps them -/

section
variable {ν : Type}

/-- Over a value by way of its items and of the values of its properties. -/
@[elab_as_elim]
theorem JsValue.ind {motive : JsValue ν → Prop} (null : motive .null) (bool : ∀ b, motive (.bool b))
    (num : ∀ x, motive (.num x)) (str : ∀ s, motive (.str s))
    (arr : ∀ items, (∀ v ∈ items, motive v) → motive (.arr items))
    (obj : ∀ fields, (∀ e ∈ fields, motive e.2) → motive (.obj fields)) : ∀ v, motive v
  | .null => null
  | .bool b => bool b
  | .num x => num x
  | .str s => str s
  | .arr items => arr items fun v _ => JsValue.ind null bool num str arr obj v
  | .obj fields => obj fields fun e _ => JsValue.ind null bool num str arr obj e.2
termination_by v => sizeOf v
decreasing_by
  · have := List.sizeOf_lt_of_mem ‹v ∈ items›
    simp only [JsValue.arr.sizeOf_spec]
    omega
  · obtain ⟨key, v⟩ := e
    have := List.sizeOf_lt_of_mem ‹(key, v) ∈ fields›
    simp only [JsValue.obj.sizeOf_spec, Prod.mk.sizeOf_spec] at this ⊢
    omega

mutual

/-- Every object in the value has its names once, in the order in which the language keeps them. -/
def Native : JsValue ν → Prop
  | .arr items => NativeItems items
  | .obj fields => OwnOrder fields ∧ NativeFields fields
  | _ => True

/-- Every item is native. -/
def NativeItems : List (JsValue ν) → Prop
  | [] => True
  | v :: vs => Native v ∧ NativeItems vs

/-- Every member is native. -/
def NativeFields : List (JsText × JsValue ν) → Prop
  | [] => True
  | e :: es => NativeField e ∧ NativeFields es

/-- The value of a member is native. -/
def NativeField : JsText × JsValue ν → Prop
  | (_, v) => Native v

end

theorem nativeItems_iff {items : List (JsValue ν)} : NativeItems items ↔ ∀ v ∈ items, Native v := by
  induction items with
  | nil => simp [NativeItems]
  | cons v items ih => simp [NativeItems, ih]

theorem nativeFields_iff {fields : List (JsText × JsValue ν)} :
    NativeFields fields ↔ ∀ e ∈ fields, Native e.2 := by
  induction fields with
  | nil => simp [NativeFields]
  | cons e fields ih =>
    obtain ⟨key, v⟩ := e
    simp [NativeFields, NativeField, ih]

theorem native_assign {members : List (JsText × JsValue ν)} (h : NativeFields members) :
    Native (.obj (assign members)) := by
  rw [Native, nativeFields_iff]
  exact ⟨assign_ownOrder members, fun e he => nativeFields_iff.mp h e (mem_assign he)⟩

end

section
variable {N : JsNumbers}

theorem native_readAtom {text rest : JsText} {v : JsValue N.Num} (h : readAtom N text = some (v, rest)) :
    Native v := by
  have hword : ∀ (word : String) (w : JsValue N.Num), Native w →
      readWord N word w text = some (v, rest) → Native v := by
    intro word w hw hread
    simp only [readWord, Option.ite_none_right_eq_some, Option.some.injEq, Prod.mk.injEq] at hread
    exact hread.2.1 ▸ hw
  unfold readAtom at h
  split_ifs at h
  · exact hword _ .null (by simp [Native]) h
  · exact hword _ (.bool true) (by simp [Native]) h
  · exact hword _ (.bool false) (by simp [Native]) h
  · obtain ⟨r, -, hr⟩ := Option.map_eq_some_iff.mp h
    cases hr
    simp [Native]
  · obtain ⟨n, -, hn⟩ := Option.map_eq_some_iff.mp h
    cases hn
    simp [Native]

/-- `JSON.parse` keeps every object in its own order. -/
theorem native_read (N : JsNumbers) : ∀ n : ℕ,
    (∀ text v rest, readValue N n text = some (v, rest) → Native v) ∧
    (∀ text vs rest, readItems N n text = some (vs, rest) → NativeItems vs) ∧
    ∀ text es rest, readMembers N n text = some (es, rest) → NativeFields es
  | 0 => ⟨fun _ _ _ h => by simp [readValue] at h, fun _ _ _ h => by simp [readItems] at h,
      fun _ _ _ h => by simp [readMembers] at h⟩
  | n + 1 => by
    obtain ⟨hvalue, hitems, hmembers⟩ := native_read N n
    refine ⟨fun text v rest h => ?_, fun text vs rest h => ?_, fun text es rest h => ?_⟩
    · simp only [readValue] at h
      split_ifs at h
      · cases h
        simp [Native, NativeFields, OwnOrder.nil]
      · obtain ⟨r, hr, heq⟩ := Option.map_eq_some_iff.mp h
        cases heq
        exact native_assign (hmembers _ _ _ hr)
      · cases h
        trivial
      · obtain ⟨r, hr, heq⟩ := Option.map_eq_some_iff.mp h
        cases heq
        exact hitems _ _ _ hr
      · exact native_readAtom h
    · simp only [readItems, Option.bind_eq_some_iff] at h
      obtain ⟨r, hr, h⟩ := h
      split_ifs at h
      · obtain ⟨more, hmore, heq⟩ := Option.map_eq_some_iff.mp h
        cases heq
        exact ⟨hvalue _ _ _ hr, hitems _ _ _ hmore⟩
      · cases h
        exact ⟨hvalue _ _ _ hr, trivial⟩
    · simp only [readMembers, Option.bind_eq_some_iff] at h
      obtain ⟨k, -, r, hr, h⟩ := h
      split_ifs at h
      · obtain ⟨more, hmore, heq⟩ := Option.map_eq_some_iff.mp h
        cases heq
        exact ⟨hvalue _ _ _ hr, hmembers _ _ _ hmore⟩
      · cases h
        exact ⟨hvalue _ _ _ hr, trivial⟩

theorem native_of_jsonParse {text : JsText} {v : JsValue N.Num} (h : jsonParse N text = some v) :
    Native v := by
  simp only [jsonParse, Option.bind_eq_some_iff, Option.ite_none_right_eq_some, Option.some.injEq] at h
  obtain ⟨r, hr, -, rfl⟩ := h
  exact (native_read N _).1 _ _ _ hr

end

/-! ### What is read back -/

section
variable (N : JsNumbers)

mutual

/-- A number that is not finite is lost. -/
def nulled : JsValue N.Num → JsValue N.Num
  | .num x => if N.isFinite x then .num x else .null
  | .arr items => .arr (nulledItems items)
  | .obj fields => .obj (nulledFields fields)
  | v => v

/-- `nulled` of every item. -/
def nulledItems : List (JsValue N.Num) → List (JsValue N.Num)
  | [] => []
  | v :: vs => nulled v :: nulledItems vs

/-- `nulled` of every member. -/
def nulledFields : List (JsText × JsValue N.Num) → List (JsText × JsValue N.Num)
  | [] => []
  | e :: es => nulledField e :: nulledFields es

/-- `nulled` of a member. -/
def nulledField : JsText × JsValue N.Num → JsText × JsValue N.Num
  | (key, v) => (key, nulled v)

end

theorem nulledItems_eq (items : List (JsValue N.Num)) : nulledItems N items = items.map (nulled N) := by
  induction items with
  | nil => rfl
  | cons v items ih => rw [nulledItems, ih, List.map_cons]

theorem nulledFields_eq (fields : List (JsText × JsValue N.Num)) :
    nulledFields N fields = fields.map fun e => (e.1, nulled N e.2) := by
  induction fields with
  | nil => rfl
  | cons e fields ih =>
    obtain ⟨key, v⟩ := e
    rw [nulledFields, nulledField, ih, List.map_cons]

theorem stringifyItems_cons (v w : JsValue N.Num) (vs : List (JsValue N.Num)) :
    stringifyItems N (v :: w :: vs) = stringify N v ++ 44 :: stringifyItems N (w :: vs) := rfl

theorem stringifyFields_cons (e e' : JsText × JsValue N.Num) (es : List (JsText × JsValue N.Num)) :
    stringifyFields N (e :: e' :: es) = stringifyField N e ++ 44 :: stringifyFields N (e' :: es) := rfl

variable {N}

theorem stringifyItems_map {f : JsValue N.Num → JsValue N.Num} {items : List (JsValue N.Num)}
    (h : ∀ v ∈ items, stringify N (f v) = stringify N v) :
    stringifyItems N (items.map f) = stringifyItems N items := by
  induction items with
  | nil => rfl
  | cons v items ih =>
    have ih := ih fun w hw => h w (List.mem_cons_of_mem v hw)
    cases items with
    | nil => exact h v List.mem_cons_self
    | cons w items =>
      rw [List.map_cons] at ih
      rw [List.map_cons, List.map_cons, stringifyItems_cons, stringifyItems_cons, ih,
        h v List.mem_cons_self]

theorem stringifyFields_map {f : JsValue N.Num → JsValue N.Num} {fields : List (JsText × JsValue N.Num)}
    (h : ∀ e ∈ fields, stringify N (f e.2) = stringify N e.2) :
    stringifyFields N (fields.map fun e => (e.1, f e.2)) = stringifyFields N fields := by
  induction fields with
  | nil => rfl
  | cons e fields ih =>
    have ih := ih fun e' he' => h e' (List.mem_cons_of_mem e he')
    have he : stringifyField N (e.1, f e.2) = stringifyField N e := by
      rw [stringifyField, h e List.mem_cons_self, ← stringifyField]
    cases fields with
    | nil => exact he
    | cons e' fields =>
      rw [List.map_cons] at ih
      rw [List.map_cons, List.map_cons, stringifyFields_cons, stringifyFields_cons, ih, he]

theorem stringify_nulled (v : JsValue N.Num) : stringify N (nulled N v) = stringify N v := by
  induction v using JsValue.ind with
  | null => rfl
  | bool b => rfl
  | str s => rfl
  | num x =>
    rw [nulled]
    by_cases h : N.isFinite x
    · rw [if_pos h]
    · rw [if_neg h, stringify, stringify, if_neg h]
  | arr items ih => rw [nulled, stringify, stringify, nulledItems_eq, stringifyItems_map ih]
  | obj fields ih => rw [nulled, stringify, stringify, nulledFields_eq, stringifyFields_map ih]

end

section
variable {N : JsNumbers} (laws : N.Lawful)
include laws

theorem head_stringify (v : JsValue N.Num) (rest : JsText) :
    ∃ c, (stringify N v ++ rest).head? = some c ∧ isBlank c = false ∧ c ≠ 93 := by
  cases v with
  | null => exact ⟨110, rfl, by decide⟩
  | bool b =>
    cases b with
    | false => exact ⟨102, rfl, by decide⟩
    | true => exact ⟨116, rfl, by decide⟩
  | num x =>
    rw [stringify]
    by_cases h : N.isFinite x
    · obtain ⟨c, hc, hstarts, -⟩ := numeral_starts (laws.numeral h) rest
      rw [if_pos h]
      exact ⟨c, hc, hstarts.1, hstarts.2.2.2.1⟩
    · rw [if_neg h]
      exact ⟨110, rfl, by decide⟩
  | str s => exact ⟨34, rfl, by decide⟩
  | arr items => exact ⟨91, rfl, by decide⟩
  | obj fields => exact ⟨123, rfl, by decide⟩

theorem head_stringifyItems (v : JsValue N.Num) (vs : List (JsValue N.Num)) (rest : JsText) :
    (skip (stringifyItems N (v :: vs) ++ rest)).head? ≠ some 93 := by
  obtain ⟨after, h⟩ : ∃ after, stringifyItems N (v :: vs) ++ rest = stringify N v ++ after := by
    cases vs with
    | nil => exact ⟨rest, by rw [stringifyItems]⟩
    | cons w vs => exact ⟨_, by rw [stringifyItems_cons, List.append_assoc]⟩
  obtain ⟨c, hc, hblank, hne⟩ := head_stringify laws v after
  rw [h, skip_of_head hc hblank, hc]
  exact fun h => hne (Option.some.inj h)

end

section
variable {N : JsNumbers}

theorem skip_stringifyFields (e : JsText × JsValue N.Num) (es : List (JsText × JsValue N.Num))
    (rest : JsText) : skip (stringifyFields N (e :: es) ++ rest) = stringifyFields N (e :: es) ++ rest ∧
      (stringifyFields N (e :: es) ++ rest).head? = some 34 := by
  obtain ⟨key, v⟩ := e
  have hhead : (stringifyFields N ((key, v) :: es) ++ rest).head? = some 34 := by
    cases es with
    | nil => rfl
    | cons e' es => rfl
  exact ⟨skip_of_head hhead rfl, hhead⟩

theorem OwnOrder.nulled {fields : List (JsText × JsValue N.Num)} (h : OwnOrder fields) :
    OwnOrder (nulledFields N fields) := by
  rw [nulledFields_eq]
  refine ⟨?_, List.pairwise_map.mpr h.order⟩
  rw [List.map_map]
  exact h.names

mutual

/-- `JSON.parse` reads what `JSON.stringify` wrote, whatever follows. -/
theorem readValue_stringify (laws : N.Lawful) : ∀ (v : JsValue N.Num), Native v → ∀ (rest : JsText),
    Stops rest → ∀ n, 2 * (stringify N v).length + 1 ≤ n →
    readValue N n (stringify N v ++ rest) = some (nulled N v, rest)
  | .null, _, rest, _, n + 1, _ => (readValue_word rest n).1
  | .bool true, _, rest, _, n + 1, _ => (readValue_word rest n).2.1
  | .bool false, _, rest, _, n + 1, _ => (readValue_word rest n).2.2
  | .num x, _, rest, hrest, n + 1, _ => by
    rw [stringify, nulled]
    by_cases h : N.isFinite x
    · rw [if_pos h, if_pos h, readValue_numeral (laws.numeral h) hrest, laws.ofText_text h]
    · rw [if_neg h, if_neg h]
      exact (readValue_word rest n).1
  | .str s, _, rest, _, n + 1, _ => readValue_quoteJson s rest n
  | .arr [], _, rest, _, n + 1, _ => rfl
  | .arr (v :: vs), h, rest, _, n + 1, hn => by
    rw [Native, NativeItems] at h
    simp only [stringify, List.length_cons, List.length_append, List.length_nil] at hn
    rw [stringify, nulled, List.cons_append, List.append_assoc]
    exact readValue_arr (head_stringifyItems laws v vs _)
      (readItems_stringify laws v vs h.1 h.2 rest n (by omega))
  | .obj [], _, rest, _, n + 1, _ => rfl
  | .obj ((key, v) :: es), h, rest, _, n + 1, hn => by
    rw [Native, NativeFields, NativeField] at h
    simp only [stringify, List.length_cons, List.length_append, List.length_nil] at hn
    obtain ⟨hskip, hhead⟩ := skip_stringifyFields (key, v) es (125 :: rest)
    rw [stringify, nulled, List.cons_append, List.append_assoc, ← h.1.nulled.assign_eq]
    refine readValue_obj ?_ (readMembers_stringify laws key v es h.2.1 h.2.2 rest n (by omega))
    rw [List.cons_append, List.nil_append, hskip, hhead]
    decide

theorem readItems_stringify (laws : N.Lawful) : ∀ (v : JsValue N.Num) (vs : List (JsValue N.Num)),
    Native v → NativeItems vs → ∀ (rest : JsText) (n : ℕ),
    2 * (stringifyItems N (v :: vs)).length + 2 ≤ n →
    readItems N n (stringifyItems N (v :: vs) ++ 93 :: rest) = some (nulledItems N (v :: vs), rest)
  | v, [], hv, _, rest, n + 1, hn => by
    rw [stringifyItems] at hn ⊢
    exact readItems_last (readValue_stringify laws v hv _ (stops_delimiter (by decide) rest) n (by omega))
  | v, w :: vs, hv, hvs, rest, n + 1, hn => by
    rw [NativeItems] at hvs
    simp only [stringifyItems_cons, List.length_cons, List.length_append] at hn
    rw [stringifyItems_cons, nulledItems, List.append_assoc, List.cons_append]
    exact readItems_more (readValue_stringify laws v hv _ (stops_delimiter (by decide) _) n (by omega))
      (readItems_stringify laws w vs hvs.1 hvs.2 rest n (by omega))

theorem readMembers_stringify (laws : N.Lawful) : ∀ (key : JsText) (v : JsValue N.Num)
    (es : List (JsText × JsValue N.Num)), Native v → NativeFields es → ∀ (rest : JsText) (n : ℕ),
    2 * (stringifyFields N ((key, v) :: es)).length + 2 ≤ n →
    readMembers N n (stringifyFields N ((key, v) :: es) ++ 125 :: rest) =
      some (nulledFields N ((key, v) :: es), rest)
  | key, v, [], hv, _, rest, n + 1, hn => by
    have hskip := (skip_stringifyFields (key, v) [] (125 :: rest)).1
    rw [stringifyFields, stringifyField] at hn hskip ⊢
    simp only [List.length_cons, List.length_append] at hn
    refine readMembers_last ?_
      (readValue_stringify laws v hv _ (stops_delimiter (by decide) rest) n (by omega))
    rw [hskip, List.append_assoc, List.cons_append, readKey_quoteJson]
  | key, v, (key', w) :: es, hv, hes, rest, n + 1, hn => by
    rw [NativeFields, NativeField] at hes
    have hskip := (skip_stringifyFields (key, v) ((key', w) :: es) (125 :: rest)).1
    rw [stringifyFields_cons, stringifyField] at hn hskip ⊢
    simp only [List.length_cons, List.length_append] at hn
    refine readMembers_more ?_
      (readValue_stringify laws v hv _ (stops_delimiter (by decide) _) n (by omega))
      (readMembers_stringify laws key' w es hes.1 hes.2 rest n (by omega))
    rw [hskip, List.append_assoc, List.cons_append, List.append_assoc, List.cons_append,
      readKey_quoteJson]

end

theorem jsonParse_stringify (laws : N.Lawful) {v : JsValue N.Num} (h : Native v) :
    jsonParse N (stringify N v) = some (nulled N v) := by
  have hstops : Stops [] := by
    rintro _ ⟨⟩
  have hread := readValue_stringify laws v h [] hstops _ le_rfl
  rw [List.append_nil] at hread
  rw [jsonParse, hread]
  rfl

/-- Two values are written alike exactly when they are the same up to the numbers that are lost. -/
theorem stringify_eq_iff (laws : N.Lawful) {v w : JsValue N.Num} (hv : Native v) (hw : Native w) :
    stringify N v = stringify N w ↔ nulled N v = nulled N w := by
  refine ⟨fun h => ?_, fun h => ?_⟩
  · have hparse := jsonParse_stringify laws hv
    rw [h, jsonParse_stringify laws hw] at hparse
    exact (Option.some.inj hparse).symm
  · rw [← stringify_nulled v, ← stringify_nulled w, h]

end
end Llmtrace.Schemes
