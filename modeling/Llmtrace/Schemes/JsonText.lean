import Llmtrace.Schemes.JsValue

/-! `JSON.parse` on a text of code units. The readers take the fuel that bounds their rounds; two units
    for each code unit are enough (`readValue_extend`). -/

namespace Llmtrace.Schemes

/-! ### Strings -/

/-- What may stand between the tokens. -/
def isBlank (c : ℕ) : Bool := c ∈ [9, 10, 13, 32]

/-- The text behind its blanks. -/
def skip (text : JsText) : JsText := text.dropWhile isBlank

/-- The value of a hexadecimal digit. -/
def hexValue (c : ℕ) : Option ℕ :=
  if isDigit c then some (c - 48)
  else if 97 ≤ c ∧ c ≤ 102 then some (c - 87)
  else if 65 ≤ c ∧ c ≤ 70 then some (c - 55)
  else none

/-- The four digits of `\uXXXX`. -/
def readHex : JsText → Option (ℕ × JsText)
  | a :: b :: c :: d :: text => do
    let a ← hexValue a
    let b ← hexValue b
    let c ← hexValue c
    let d ← hexValue d
    return (4096 * a + 256 * b + 16 * c + d, text)
  | _ => none

/-- The letters of the short escapes. -/
def shortEscapes : List (ℕ × ℕ) :=
  [(34, 34), (92, 92), (47, 47), (98, 8), (102, 12), (110, 10), (114, 13), (116, 9)]

/-- What stands behind a backslash. -/
def readEscape : JsText → Option (ℕ × JsText)
  | [] => none
  | e :: text => if e = 117 then readHex text else (shortEscapes.lookup e).map fun c => (c, text)

/-- One code unit of a string. -/
def readUnit : JsText → Option (ℕ × JsText)
  | [] => none
  | c :: text => if c = 92 then readEscape text else if c < 32 then none else some (c, text)

/-- A string, behind its opening quote. -/
def readString : ℕ → JsText → Option (JsText × JsText)
  | 0, _ => none
  | n + 1, text =>
    if text.head? = some 34 then some ([], text.tail)
    else (readUnit text).bind fun u => (readString n u.2).map fun r => (u.1 :: r.1, r.2)

/-! ### Objects -/

/-- The array index that the name of a property spells. -/
def arrayIndex (key : JsText) : Option ℕ :=
  let n := key.foldl (fun n d => 10 * n + (d - 48)) 0
  if decimal n = key ∧ n < 2 ^ 32 - 1 then some n else none

/-- Array indices are enumerated first, from the smallest on; other names as they were added. -/
def comesBefore (key other : JsText) : Bool :=
  match arrayIndex key, arrayIndex other with
  | some n, some m => n < m
  | some _, none => true
  | none, _ => false

section
variable {ν : Type}

/-- The object after an assignment to a name; indices come first, in their order. -/
def setField (key : JsText) (v : JsValue ν) : List (JsText × JsValue ν) → List (JsText × JsValue ν)
  | [] => [(key, v)]
  | e :: fields =>
    if e.1 = key then (key, v) :: fields
    else if comesBefore key e.1 then (key, v) :: e :: fields
    else e :: setField key v fields

/-- The object with these members; the last of a name counts. -/
def assign (members : List (JsText × JsValue ν)) : List (JsText × JsValue ν) :=
  members.foldl (fun fields e => setField e.1 e.2 fields) []

theorem lookup_cons_eq (key : JsText) (e : JsText × JsValue ν) (fields : List (JsText × JsValue ν)) :
    List.lookup key (e :: fields) = if key = e.1 then some e.2 else fields.lookup key := by
  by_cases h : key = e.1
  · rw [if_pos h, List.lookup, beq_iff_eq.mpr h]
  · rw [if_neg h, List.lookup, beq_eq_false_iff_ne.mpr h]

theorem lookup_setField (key other : JsText) (v : JsValue ν) :
    ∀ fields, (setField key v fields).lookup other =
      if other = key then some v else fields.lookup other
  | [] => lookup_cons_eq other (key, v) []
  | e :: fields => by
    have ih := lookup_setField key other v fields
    rw [setField]
    by_cases he : e.1 = key
    · rw [if_pos he, lookup_cons_eq, lookup_cons_eq, he]
      split_ifs <;> rfl
    · rw [if_neg he]
      by_cases hbefore : comesBefore key e.1
      · rw [if_pos hbefore, lookup_cons_eq]
      · rw [if_neg hbefore, lookup_cons_eq, lookup_cons_eq, ih]
        split_ifs with h h'
        · exact absurd (h.symm.trans h') he
        · rfl
        · rfl
        · rfl

end

/-! ### Values -/

section
variable (N : JsNumbers)

/-- `true`, `false` or `null`. -/
def readWord (word : String) (v : JsValue N.Num) (text : JsText) : Option (JsValue N.Num × JsText) :=
  if (js word).isPrefixOf text then some (v, text.drop (js word).length) else none

/-- A value without parts. -/
def readAtom (text : JsText) : Option (JsValue N.Num × JsText) :=
  if text.head? = some 110 then readWord N "null" .null text
  else if text.head? = some 116 then readWord N "true" (.bool true) text
  else if text.head? = some 102 then readWord N "false" (.bool false) text
  else if text.head? = some 34 then
    (readString text.length text.tail).map fun r => (.str r.1, r.2)
  else (jsonNumberSize text).map fun n => (.num (N.ofText (text.take n)), text.drop n)

/-- `"key":`, and the key. -/
def readKey (text : JsText) : Option (JsText × JsText) :=
  if text.head? = some 34 then
    (readString text.length text.tail).bind fun r =>
      if (skip r.2).head? = some 58 then some (r.1, (skip r.2).tail) else none
  else none

mutual

/-- A value, and the text behind it, with `n` as the fuel. -/
def readValue : ℕ → JsText → Option (JsValue N.Num × JsText)
  | 0, _ => none
  | n + 1, text =>
    let text := skip text
    if text.head? = some 123 then
      if (skip text.tail).head? = some 125 then some (.obj [], (skip text.tail).tail)
      else (readMembers n text.tail).map fun r => (.obj (assign r.1), r.2)
    else if text.head? = some 91 then
      if (skip text.tail).head? = some 93 then some (.arr [], (skip text.tail).tail)
      else (readItems n text.tail).map fun r => (.arr r.1, r.2)
    else readAtom N text

/-- The items of an array and its closing bracket. -/
def readItems : ℕ → JsText → Option (List (JsValue N.Num) × JsText)
  | 0, _ => none
  | n + 1, text =>
    (readValue n text).bind fun r =>
      if (skip r.2).head? = some 44 then
        (readItems n (skip r.2).tail).map fun more => (r.1 :: more.1, more.2)
      else if (skip r.2).head? = some 93 then some ([r.1], (skip r.2).tail)
      else none

/-- The members of an object and its closing brace. -/
def readMembers : ℕ → JsText → Option (List (JsText × JsValue N.Num) × JsText)
  | 0, _ => none
  | n + 1, text =>
    (readKey (skip text)).bind fun k =>
      (readValue n k.2).bind fun r =>
        if (skip r.2).head? = some 44 then
          (readMembers n (skip r.2).tail).map fun more => ((k.1, r.1) :: more.1, more.2)
        else if (skip r.2).head? = some 125 then some ([(k.1, r.1)], (skip r.2).tail)
        else none

end

/-- `JSON.parse(text)`; nothing where it throws. -/
def jsonParse (text : JsText) : Option (JsValue N.Num) :=
  (readValue N (2 * text.length + 1) text).bind fun r => if skip r.2 = [] then some r.1 else none

end

/-! ### More text behind a value -/

/-- A reader takes at least one code unit, and the same when more text follows. -/
def Extends {α : Type} (read : JsText → Option (α × JsText)) (text : JsText) : Prop :=
  ∀ a rest, read text = some (a, rest) → rest.length < text.length ∧
    ∀ more, read (text ++ more) = some (a, rest ++ more)

theorem extends_readHex (text : JsText) : Extends readHex text := by
  intro c rest h
  match text, h with
  | a :: b :: c' :: d :: text, h =>
    simp only [readHex, Option.bind_eq_bind, Option.bind_eq_some_iff, Option.pure_def,
      Option.some.injEq, Prod.mk.injEq] at h
    obtain ⟨a', ha, b', hb, c'', hc, d', hd, rfl, rfl⟩ := h
    refine ⟨by simp only [List.length_cons]; omega, fun more => ?_⟩
    simp [readHex, ha, hb, hc, hd]

theorem extends_readEscape (text : JsText) : Extends readEscape text := by
  intro c rest h
  cases text with
  | nil => cases h
  | cons e text =>
    rw [readEscape] at h
    split_ifs at h with he
    · obtain ⟨hlt, hmore⟩ := extends_readHex text c rest h
      refine ⟨hlt.trans (Nat.lt_succ_self _), fun more => ?_⟩
      rw [List.cons_append, readEscape, if_pos he, hmore]
    · obtain ⟨c', hc, hpair⟩ := Option.map_eq_some_iff.mp h
      cases hpair
      refine ⟨Nat.lt_succ_self _, fun more => ?_⟩
      rw [List.cons_append, readEscape, if_neg he, hc, Option.map_some]

theorem extends_readUnit (text : JsText) : Extends readUnit text := by
  intro u rest h
  cases text with
  | nil => cases h
  | cons c text =>
    rw [readUnit] at h
    split_ifs at h with hc hcontrol
    · obtain ⟨hlt, hmore⟩ := extends_readEscape text u rest h
      refine ⟨hlt.trans (Nat.lt_succ_self _), fun more => ?_⟩
      rw [List.cons_append, readUnit, if_pos hc, hmore]
    · cases h
      refine ⟨Nat.lt_succ_self _, fun more => ?_⟩
      rw [List.cons_append, readUnit, if_neg hc, if_neg hcontrol]

theorem head_append {text : JsText} {c : ℕ} (h : text.head? = some c) (more : JsText) :
    (text ++ more).head? = some c ∧ (text ++ more).tail = text.tail ++ more := by
  cases text with
  | nil => cases h
  | cons d text => exact ⟨h, rfl⟩

theorem readString_extend : ∀ {m : ℕ} {text s rest : JsText}, readString m text = some (s, rest) →
    rest.length < text.length ∧ ∀ n more, text.length - rest.length ≤ n →
      readString n (text ++ more) = some (s, rest ++ more) := by
  intro m
  induction m with
  | zero =>
    intro text s rest h
    cases h
  | succ m ih =>
    intro text s rest h
    rw [readString] at h
    split_ifs at h with hquote
    · cases h
      have hlen := length_of_head hquote
      refine ⟨by omega, fun n more hn => ?_⟩
      obtain ⟨n, rfl⟩ : ∃ k, n = k + 1 := ⟨n - 1, by omega⟩
      obtain ⟨hhead, htail⟩ := head_append hquote more
      rw [readString, if_pos hhead, htail]
    · obtain ⟨⟨u, after⟩, hu, h⟩ := Option.bind_eq_some_iff.mp h
      obtain ⟨⟨s, rest'⟩, hs, hpair⟩ := Option.map_eq_some_iff.mp h
      cases hpair
      obtain ⟨hlt, hmore⟩ := extends_readUnit text u after hu
      obtain ⟨hlt', hmore'⟩ := ih hs
      refine ⟨hlt'.trans hlt, fun n more hn => ?_⟩
      obtain ⟨n, rfl⟩ : ∃ k, n = k + 1 := ⟨n - 1, by simp only at hlt' hn; omega⟩
      have hquote' : (text ++ more).head? ≠ some 34 := by
        cases text with
        | nil => cases hu
        | cons c text => exact hquote
      rw [readString, if_neg hquote', hmore, Option.bind_some, hmore' n more (by simp only at hlt' hn ⊢; omega)]
      rfl

theorem length_skip_le (text : JsText) : (skip text).length ≤ text.length :=
  (List.dropWhile_suffix isBlank).length_le

theorem skip_append {text : JsText} {c : ℕ} (h : (skip text).head? = some c) (more : JsText) :
    skip (text ++ more) = skip text ++ more := by
  have hne : (text.dropWhile isBlank).isEmpty = false := by
    rw [skip] at h
    cases htext : text.dropWhile isBlank with
    | nil =>
      rw [htext] at h
      cases h
    | cons d text => rfl
  rw [skip, List.dropWhile_append, if_neg (by simp [hne]), skip]

theorem head_skip_append {text : JsText} {c : ℕ} (h : (skip text).head? = some c) (more : JsText) :
    (skip (text ++ more)).head? = some c ∧ (skip (text ++ more)).tail = (skip text).tail ++ more := by
  rw [skip_append h]
  exact head_append h more

theorem length_tail_skip {text : JsText} {c : ℕ} (h : (skip text).head? = some c) :
    (skip text).tail.length < text.length := by
  have := length_of_head h
  have := length_skip_le text
  omega

/-- A delimiter ends a number, with or without blanks between them. -/
theorem stops_of_skip {text : JsText} {c : ℕ} (h : (skip text).head? = some c)
    (hc : c = 44 ∨ c = 93 ∨ c = 125) : text ≠ [] ∧ Stops text := by
  cases text with
  | nil => cases h
  | cons d text =>
    refine ⟨List.cons_ne_nil _ _, ?_⟩
    rintro _ ⟨⟩
    by_cases hd : isBlank d
    · have : d = 9 ∨ d = 10 ∨ d = 13 ∨ d = 32 := by simpa [isBlank] using hd
      rcases this with rfl | rfl | rfl | rfl <;> decide
    · rw [skip, List.dropWhile_cons_of_neg hd] at h
      cases h
      rcases hc with rfl | rfl | rfl <;> decide

theorem readKey_extend {text key rest : JsText} (h : readKey text = some (key, rest)) :
    rest.length < text.length ∧ ∀ more, readKey (text ++ more) = some (key, rest ++ more) := by
  rw [readKey] at h
  split_ifs at h with hquote
  obtain ⟨⟨s, after⟩, hs, h⟩ := Option.bind_eq_some_iff.mp h
  split_ifs at h with hcolon
  cases h
  obtain ⟨hlt, hmore⟩ := readString_extend hs
  have hlen := length_of_head hquote
  have htail := length_tail_skip hcolon
  refine ⟨by simp only at hlt htail ⊢; omega, fun more => ?_⟩
  obtain ⟨hhead, htail'⟩ := head_append hquote more
  obtain ⟨hcolon', hafter⟩ := head_skip_append hcolon more
  rw [readKey, if_pos hhead, htail', hmore _ more (by rw [List.length_append]; omega), Option.bind_some,
    if_pos hcolon', hafter]

section
variable {N : JsNumbers}

/-- A number ends where the text does; any other value can be told from its beginning. -/
def Settled (v : JsValue N.Num) (rest more : JsText) : Prop :=
  more = [] ∨ (∀ x, v ≠ .num x) ∨ rest ≠ [] ∧ Stops rest

theorem readWord_extend {word : String} {v w : JsValue N.Num} {text rest : JsText}
    (hword : 0 < (js word).length) (h : readWord N word v text = some (w, rest)) :
    rest.length < text.length ∧ ∀ more, readWord N word v (text ++ more) = some (w, rest ++ more) := by
  rw [readWord] at h
  split_ifs at h with hprefix
  cases h
  obtain ⟨t, rfl⟩ := List.isPrefixOf_iff_prefix.mp hprefix
  refine ⟨by rw [List.drop_left, List.length_append]; omega, fun more => ?_⟩
  have hprefix' : (js word).isPrefixOf (js word ++ t ++ more) :=
    List.isPrefixOf_iff_prefix.mpr ⟨t ++ more, by rw [List.append_assoc]⟩
  rw [readWord, if_pos hprefix', List.append_assoc, List.drop_left, List.drop_left]

theorem readNumber_extend {text : JsText} {n : ℕ} (h : jsonNumberSize text = some n) (more : JsText)
    (hmore : more = [] ∨ text.drop n ≠ [] ∧ Stops (text.drop n)) :
    jsonNumberSize (text ++ more) = some n ∧ (text ++ more).take n = text.take n ∧
      (text ++ more).drop n = text.drop n ++ more := by
  obtain ⟨hle, -, hnumeral⟩ := numeral_take h
  refine ⟨?_, List.take_append_of_le_length hle, List.drop_append_of_le_length hle⟩
  rcases hmore with rfl | ⟨hne, hstops⟩
  · rwa [List.append_nil]
  · have hcut : text ++ more = text.take n ++ (text.drop n ++ more) := by
      rw [← List.append_assoc, List.take_append_drop]
    have hstops' : Stops (text.drop n ++ more) := by
      intro c hc
      rw [List.head?_append_of_ne_nil _ hne] at hc
      exact hstops c hc
    rw [hcut, jsonNumberSize_append hnumeral hstops', List.length_take, Nat.min_eq_left hle]

theorem readAtom_extend {text rest : JsText} {v : JsValue N.Num} (h : readAtom N text = some (v, rest)) :
    rest.length < text.length ∧
      ∀ more, Settled v rest more → readAtom N (text ++ more) = some (v, rest ++ more) := by
  have hne : text ≠ [] := by
    rintro rfl
    cases h
  rw [readAtom] at h
  split_ifs at h with hnull htrue hfalse hquote
  · obtain ⟨hlt, hmore⟩ := readWord_extend (by decide) h
    refine ⟨hlt, fun more _ => ?_⟩
    rw [readAtom, List.head?_append_of_ne_nil _ hne, if_pos hnull, hmore]
  · obtain ⟨hlt, hmore⟩ := readWord_extend (by decide) h
    refine ⟨hlt, fun more _ => ?_⟩
    rw [readAtom, List.head?_append_of_ne_nil _ hne, if_neg hnull, if_pos htrue, hmore]
  · obtain ⟨hlt, hmore⟩ := readWord_extend (by decide) h
    refine ⟨hlt, fun more _ => ?_⟩
    rw [readAtom, List.head?_append_of_ne_nil _ hne, if_neg hnull, if_neg htrue, if_pos hfalse, hmore]
  · obtain ⟨⟨s, after⟩, hs, hpair⟩ := Option.map_eq_some_iff.mp h
    cases hpair
    have hlen := length_of_head hquote
    obtain ⟨hlt, hmore⟩ := readString_extend hs
    refine ⟨by simp only; omega, fun more _ => ?_⟩
    rw [readAtom, List.head?_append_of_ne_nil _ hne, if_neg hnull, if_neg htrue, if_neg hfalse,
      if_pos hquote, (head_append hquote more).2, hmore _ more (by rw [List.length_append]; omega)]
    rfl
  · obtain ⟨n, hn, hpair⟩ := Option.map_eq_some_iff.mp h
    cases hpair
    obtain ⟨hle, hpos, -⟩ := numeral_take hn
    refine ⟨by rw [List.length_drop]; omega, fun more hsettled => ?_⟩
    have hend : more = [] ∨ text.drop n ≠ [] ∧ Stops (text.drop n) := by
      rcases hsettled with hnil | hother | hstops
      · exact .inl hnil
      · exact absurd rfl (hother _)
      · exact .inr hstops
    obtain ⟨hsize, htake, hdrop⟩ := readNumber_extend hn more hend
    rw [readAtom, List.head?_append_of_ne_nil _ hne, if_neg hnull, if_neg htrue, if_neg hfalse,
      if_neg hquote, hsize, Option.map_some, htake, hdrop]

/-- A fuelled reader takes at least one code unit, and with fuel for what it took the same when more
    text follows. -/
def Continues {α : Type} (read : ℕ → JsText → Option (α × JsText)) (extra : ℕ)
    (settled : α → JsText → JsText → Prop) (m : ℕ) : Prop :=
  ∀ text a rest, read m text = some (a, rest) → rest.length < text.length ∧
    ∀ n more, 2 * (text.length - rest.length) + extra ≤ n → settled a rest more →
      read n (text ++ more) = some (a, rest ++ more)

theorem head_of_readValue {m : ℕ} {text : JsText} {r : JsValue N.Num × JsText}
    (h : readValue N m text = some r) : ∃ c, (skip text).head? = some c := by
  cases m with
  | zero => cases h
  | succ m =>
    cases hskip : skip text with
    | nil =>
      simp only [readValue, hskip] at h
      cases h
    | cons c text => exact ⟨c, rfl⟩

theorem head_of_readItems {m : ℕ} {text : JsText} {r : List (JsValue N.Num) × JsText}
    (h : readItems N m text = some r) : ∃ c, (skip text).head? = some c := by
  cases m with
  | zero => cases h
  | succ m =>
    rw [readItems] at h
    obtain ⟨v, hv, -⟩ := Option.bind_eq_some_iff.mp h
    exact head_of_readValue hv

theorem head_of_readMembers {m : ℕ} {text : JsText} {r : List (JsText × JsValue N.Num) × JsText}
    (h : readMembers N m text = some r) : ∃ c, (skip text).head? = some c := by
  cases m with
  | zero => cases h
  | succ m =>
    rw [readMembers] at h
    obtain ⟨k, hk, -⟩ := Option.bind_eq_some_iff.mp h
    rw [readKey] at hk
    split_ifs at hk with hquote
    exact ⟨34, hquote⟩

theorem not_head_skip_append {text : JsText} {c : ℕ} (hne : (skip text).head? ≠ some c)
    (h : ∃ d, (skip text).head? = some d) (more : JsText) : (skip (text ++ more)).head? ≠ some c := by
  obtain ⟨d, hd⟩ := h
  rw [(head_skip_append hd more).1, ← hd]
  exact hne

theorem continues_readValue {m : ℕ} (hitems : Continues (readItems N) 2 (fun _ _ _ => True) m)
    (hmembers : Continues (readMembers N) 2 (fun _ _ _ => True) m) :
    Continues (readValue N) 1 Settled (m + 1) := by
  intro text v rest h
  simp only [readValue] at h
  split_ifs at h with hobj hempty harr hempty
  · cases h
    have hlt := length_tail_skip hobj
    have hlt' := length_tail_skip hempty
    refine ⟨by omega, fun n more hn _ => ?_⟩
    obtain ⟨n, rfl⟩ : ∃ k, n = k + 1 := ⟨n - 1, by omega⟩
    obtain ⟨hhead, htail⟩ := head_skip_append hobj more
    obtain ⟨hhead', htail'⟩ := head_skip_append hempty more
    simp only [readValue]
    rw [if_pos hhead, htail, if_pos hhead', htail']
  · obtain ⟨⟨es, after⟩, hes, hpair⟩ := Option.map_eq_some_iff.mp h
    cases hpair
    have hlt := length_tail_skip hobj
    obtain ⟨hlt', hmore⟩ := hmembers _ _ _ hes
    refine ⟨hlt'.trans hlt, fun n more hn _ => ?_⟩
    obtain ⟨n, rfl⟩ : ∃ k, n = k + 1 := ⟨n - 1, by omega⟩
    obtain ⟨hhead, htail⟩ := head_skip_append hobj more
    have hopen := not_head_skip_append hempty (head_of_readMembers hes) more
    simp only [readValue]
    rw [if_pos hhead, htail, if_neg hopen, hmore n more (by simp only at hn hlt' ⊢; omega) trivial]
    rfl
  · cases h
    have hlt := length_tail_skip harr
    have hlt' := length_tail_skip hempty
    refine ⟨by omega, fun n more hn _ => ?_⟩
    obtain ⟨n, rfl⟩ : ∃ k, n = k + 1 := ⟨n - 1, by omega⟩
    obtain ⟨hhead, htail⟩ := head_skip_append harr more
    obtain ⟨hhead', htail'⟩ := head_skip_append hempty more
    have hobj' := not_head_skip_append hobj ⟨91, harr⟩ more
    simp only [readValue]
    rw [if_neg hobj', if_pos hhead, htail, if_pos hhead', htail']
  · obtain ⟨⟨vs, after⟩, hvs, hpair⟩ := Option.map_eq_some_iff.mp h
    cases hpair
    have hlt := length_tail_skip harr
    obtain ⟨hlt', hmore⟩ := hitems _ _ _ hvs
    refine ⟨hlt'.trans hlt, fun n more hn _ => ?_⟩
    obtain ⟨n, rfl⟩ : ∃ k, n = k + 1 := ⟨n - 1, by omega⟩
    obtain ⟨hhead, htail⟩ := head_skip_append harr more
    have hopen := not_head_skip_append hempty (head_of_readItems hvs) more
    have hobj' := not_head_skip_append hobj ⟨91, harr⟩ more
    simp only [readValue]
    rw [if_neg hobj', if_pos hhead, htail, if_neg hopen, hmore n more (by simp only at hn hlt' ⊢; omega) trivial]
    rfl
  · obtain ⟨hlt, hmore⟩ := readAtom_extend h
    have hle := length_skip_le text
    have hsome : ∃ c, (skip text).head? = some c := by
      cases hskip : skip text with
      | nil =>
        rw [hskip] at h
        cases h
      | cons c text => exact ⟨c, rfl⟩
    refine ⟨by omega, fun n more hn hsettled => ?_⟩
    obtain ⟨n, rfl⟩ : ∃ k, n = k + 1 := ⟨n - 1, by omega⟩
    have hobj' := not_head_skip_append hobj hsome more
    have harr' := not_head_skip_append harr hsome more
    obtain ⟨c, hc⟩ := hsome
    simp only [readValue]
    rw [if_neg hobj', if_neg harr', skip_append hc]
    exact hmore more hsettled

theorem settled_of_skip {v : JsValue N.Num} {text : JsText} {c : ℕ} (h : (skip text).head? = some c)
    (hc : c = 44 ∨ c = 93 ∨ c = 125) (more : JsText) : Settled v text more :=
  .inr (.inr (stops_of_skip h hc))

theorem continues_readItems {m : ℕ} (hvalue : Continues (readValue N) 1 Settled m)
    (hitems : Continues (readItems N) 2 (fun _ _ _ => True) m) :
    Continues (readItems N) 2 (fun _ _ _ => True) (m + 1) := by
  intro text vs rest h
  rw [readItems] at h
  obtain ⟨⟨v, after⟩, hv, h⟩ := Option.bind_eq_some_iff.mp h
  obtain ⟨hlt, hmore⟩ := hvalue _ _ _ hv
  split_ifs at h with hcomma hclose
  · obtain ⟨⟨more', rest'⟩, hvs, hpair⟩ := Option.map_eq_some_iff.mp h
    cases hpair
    have hlt' := length_tail_skip hcomma
    obtain ⟨hlt'', hmore'⟩ := hitems _ _ _ hvs
    simp only at hlt' hlt'' hmore'
    refine ⟨by simp only; omega, fun n more hn _ => ?_⟩
    obtain ⟨n, rfl⟩ : ∃ k, n = k + 1 := ⟨n - 1, by omega⟩
    obtain ⟨hhead, htail⟩ := head_skip_append hcomma more
    simp only at hn hhead htail
    rw [readItems, hmore n more (by omega) (settled_of_skip hcomma (by decide) more), Option.bind_some]
    rw [if_pos hhead, htail, hmore' n more (by omega) trivial]
    rfl
  · cases h
    have hlt' := length_tail_skip hclose
    simp only at hlt'
    refine ⟨by simp only; omega, fun n more hn _ => ?_⟩
    obtain ⟨n, rfl⟩ : ∃ k, n = k + 1 := ⟨n - 1, by omega⟩
    obtain ⟨hhead, htail⟩ := head_skip_append hclose more
    simp only at hn hhead htail
    have hcomma' := not_head_skip_append hcomma ⟨93, hclose⟩ more
    rw [readItems, hmore n more (by omega) (settled_of_skip hclose (by decide) more), Option.bind_some,
      if_neg hcomma', if_pos hhead, htail]

theorem continues_readMembers {m : ℕ} (hvalue : Continues (readValue N) 1 Settled m)
    (hmembers : Continues (readMembers N) 2 (fun _ _ _ => True) m) :
    Continues (readMembers N) 2 (fun _ _ _ => True) (m + 1) := by
  intro text es rest h
  rw [readMembers] at h
  obtain ⟨⟨key, behind⟩, hkey, h⟩ := Option.bind_eq_some_iff.mp h
  obtain ⟨⟨v, after⟩, hv, h⟩ := Option.bind_eq_some_iff.mp h
  obtain ⟨hlt₀, hmore₀⟩ := readKey_extend hkey
  obtain ⟨hlt, hmore⟩ := hvalue _ _ _ hv
  have hle := length_skip_le text
  have hskip : ∀ more, skip (text ++ more) = skip text ++ more := by
    intro more
    rw [readKey] at hkey
    split_ifs at hkey with hquote
    exact skip_append hquote more
  simp only at hlt hmore
  split_ifs at h with hcomma hclose
  · obtain ⟨⟨more', rest'⟩, hes, hpair⟩ := Option.map_eq_some_iff.mp h
    cases hpair
    have hlt' := length_tail_skip hcomma
    obtain ⟨hlt'', hmore'⟩ := hmembers _ _ _ hes
    simp only at hlt' hlt'' hmore'
    refine ⟨by simp only; omega, fun n more hn _ => ?_⟩
    obtain ⟨n, rfl⟩ : ∃ k, n = k + 1 := ⟨n - 1, by omega⟩
    obtain ⟨hhead, htail⟩ := head_skip_append hcomma more
    simp only at hn hhead htail
    rw [readMembers, hskip, hmore₀, Option.bind_some,
      hmore n more (by omega) (settled_of_skip hcomma (by decide) more), Option.bind_some]
    rw [if_pos hhead, htail, hmore' n more (by omega) trivial]
    rfl
  · cases h
    have hlt' := length_tail_skip hclose
    simp only at hlt'
    refine ⟨by simp only; omega, fun n more hn _ => ?_⟩
    obtain ⟨n, rfl⟩ : ∃ k, n = k + 1 := ⟨n - 1, by omega⟩
    obtain ⟨hhead, htail⟩ := head_skip_append hclose more
    simp only at hn hhead htail
    have hcomma' := not_head_skip_append hcomma ⟨125, hclose⟩ more
    rw [readMembers, hskip, hmore₀, Option.bind_some,
      hmore n more (by omega) (settled_of_skip hclose (by decide) more), Option.bind_some,
      if_neg hcomma', if_pos hhead, htail]

theorem continues_all (N : JsNumbers) : ∀ m, Continues (readValue N) 1 Settled m ∧
    Continues (readItems N) 2 (fun _ _ _ => True) m ∧ Continues (readMembers N) 2 (fun _ _ _ => True) m := by
  intro m
  induction m with
  | zero =>
    refine ⟨?_, ?_, ?_⟩
    · intro text v rest h
      cases h
    · intro text vs rest h
      cases h
    · intro text es rest h
      cases h
  | succ m ih =>
    exact ⟨continues_readValue ih.2.1 ih.2.2, continues_readItems ih.1 ih.2.1,
      continues_readMembers ih.1 ih.2.2⟩

/-- What was read from a text is read from every longer one, given that it was no number at the end,
    and with fuel for what was taken. -/
theorem readValue_extend {m : ℕ} {text rest : JsText} {v : JsValue N.Num}
    (h : readValue N m text = some (v, rest)) : rest.length < text.length ∧
      ∀ n more, 2 * (text.length - rest.length) + 1 ≤ n → Settled v rest more →
        readValue N n (text ++ more) = some (v, rest ++ more) :=
  (continues_all N m).1 text v rest h

end

/-! ### What `serde_json` wrote -/

section
variable (N : JsNumbers)

mutual

/-- The value of JavaScript that has this text. -/
def ofJson : Json → JsValue N.Num
  | .null => .null
  | .bool b => .bool b
  | .int n => .num (N.ofText (js (toString n)))
  | .float text => .num (N.ofText (js text))
  | .str s => .str (js s)
  | .arr items => .arr (ofItems items)
  | .obj fields => .obj (assign (ofFields fields))

/-- The items as the language keeps them. -/
def ofItems : List Json → List (JsValue N.Num)
  | [] => []
  | v :: vs => ofJson v :: ofItems vs

/-- The members as the language keeps them. -/
def ofFields : List (String × Json) → List (JsText × JsValue N.Num)
  | [] => []
  | e :: es => ofField e :: ofFields es

/-- A member as the language keeps it. -/
def ofField : String × Json → JsText × JsValue N.Num
  | (key, v) => (js key, ofJson v)

end

end

mutual

/-- Every number that is no 64-bit integer has the text of one. -/
def Json.Printable : Json → Prop
  | .float text => Numeral (js text)
  | .arr items => PrintableItems items
  | .obj fields => PrintableFields fields
  | _ => True

/-- Every item is printable. -/
def PrintableItems : List Json → Prop
  | [] => True
  | v :: vs => v.Printable ∧ PrintableItems vs

/-- Every member is printable. -/
def PrintableFields : List (String × Json) → Prop
  | [] => True
  | e :: es => PrintableField e ∧ PrintableFields es

/-- The value of a member is printable. -/
def PrintableField : String × Json → Prop
  | (_, v) => v.Printable

end

theorem readString_unit {text after : JsText} {u n : ℕ} (hquote : text.head? ≠ some 34)
    (h : readUnit text = some (u, after)) :
    readString (n + 1) text = (readString n after).map fun r => (u :: r.1, r.2) := by
  rw [readString, if_neg hquote, h, Option.bind_some]

theorem readString_plain {u n : ℕ} {text : JsText} (hquote : u ≠ 34) (hback : u ≠ 92) (hcontrol : 32 ≤ u) :
    readString (n + 1) (u :: text) = (readString n text).map fun r => (u :: r.1, r.2) := by
  refine readString_unit (fun h => hquote (Option.some.inj h)) ?_
  rw [readUnit, if_neg hback, if_neg (Nat.not_lt.mpr hcontrol)]

theorem hexValue_hexUnit : ∀ n < 16, hexValue (hexUnit n) = some n := by decide

theorem readHex_unicode {c : ℕ} (hc : c < 65536) (text : JsText) :
    readUnit (unicodeEscape c ++ text) = some (c, text) := by
  have h₁ := hexValue_hexUnit (c / 4096) (by omega)
  have h₂ := hexValue_hexUnit (c / 256 % 16) (by omega)
  have h₃ := hexValue_hexUnit (c / 16 % 16) (by omega)
  have h₄ := hexValue_hexUnit (c % 16) (by omega)
  have hsum : 4096 * (c / 4096) + 256 * (c / 256 % 16) + 16 * (c / 16 % 16) + c % 16 = c := by omega
  simp [unicodeEscape, readUnit, readEscape, readHex, h₁, h₂, h₃, h₄, hsum]

/-- A code unit is read back from what it is written as. -/
theorem readUnit_escapeUnit (c : ℕ) (text : JsText) :
    readUnit (escapeUnit c ++ text) = some (c, text) ∧ (escapeUnit c ++ text).head? ≠ some 34 := by
  unfold escapeUnit
  split_ifs with h34 h92 h8 h9 h10 h12 h13 hescaped
  · subst h34; exact ⟨rfl, by simp⟩
  · subst h92; exact ⟨rfl, by simp⟩
  · subst h8; exact ⟨rfl, by simp⟩
  · subst h9; exact ⟨rfl, by simp⟩
  · subst h10; exact ⟨rfl, by simp⟩
  · subst h12; exact ⟨rfl, by simp⟩
  · subst h13; exact ⟨rfl, by simp⟩
  · refine ⟨readHex_unicode ?_ text, by simp [unicodeEscape]⟩
    simp only [isHigh, isLow, Bool.or_eq_true, Bool.and_eq_true, decide_eq_true_eq] at hescaped
    omega
  · simp only [Bool.or_eq_true, decide_eq_true_eq, not_or] at hescaped
    simp only [List.cons_append, List.nil_append, readUnit, List.head?_cons]
    rw [if_neg h92, if_neg hescaped.1.1]
    exact ⟨rfl, by simpa using h34⟩

theorem readString_escapeUnit (c n : ℕ) (text : JsText) :
    readString (n + 1) (escapeUnit c ++ text) = (readString n text).map fun r => (c :: r.1, r.2) := by
  obtain ⟨hunit, hhead⟩ := readUnit_escapeUnit c text
  exact readString_unit hhead hunit

theorem readString_escapeUnits : ∀ (s rest : JsText),
    readString (s.length + 1) (escapeUnits s ++ 34 :: rest) = some (s, rest)
  | [], rest => rfl
  | [c], rest => by
    rw [escapeUnits, List.length_singleton, readString_escapeUnit]
    rfl
  | c :: d :: s, rest => by
    rw [escapeUnits]
    split_ifs with hpair
    · -- the two units of a pair stand for themselves
      simp only [isHigh, isLow, Bool.and_eq_true, decide_eq_true_eq] at hpair
      simp only [List.cons_append, List.length_cons]
      rw [readString_plain (by omega) (by omega) (by omega),
        readString_plain (by omega) (by omega) (by omega), readString_escapeUnits s rest]
      rfl
    · rw [List.append_assoc, List.length_cons, readString_escapeUnit,
        readString_escapeUnits (d :: s) rest]
      rfl

/-- A string, from its opening quote on. -/
theorem readString_quoteJson (s rest : JsText) : (quoteJson s ++ rest).head? = some 34 ∧
    readString (quoteJson s ++ rest).length (quoteJson s ++ rest).tail = some (s, rest) := by
  have hcut : quoteJson s ++ rest = 34 :: (escapeUnits s ++ 34 :: rest) := by
    simp [quoteJson]
  obtain ⟨-, hfuel⟩ := readString_extend (readString_escapeUnits s rest)
  rw [hcut]
  refine ⟨rfl, ?_⟩
  have := hfuel (34 :: (escapeUnits s ++ 34 :: rest)).length [] (by rw [List.length_cons]; omega)
  rwa [List.append_nil, List.append_nil] at this

theorem readKey_quoteJson (key rest : JsText) :
    readKey (quoteJson key ++ 58 :: rest) = some (key, rest) := by
  obtain ⟨hhead, hread⟩ := readString_quoteJson key (58 :: rest)
  rw [readKey, if_pos hhead, hread]
  rfl

theorem readString_quote (s : String) (rest : JsText) :
    (jsChars (Json.quote s.toList) ++ rest).head? = some 34 ∧
      readString (jsChars (Json.quote s.toList) ++ rest).length
        (jsChars (Json.quote s.toList) ++ rest).tail = some (js s, rest) := by
  rw [← quoteJson_js]
  exact readString_quoteJson (js s) rest

theorem readKey_quote (key : String) (rest : JsText) :
    readKey (jsChars (Json.quote key.toList) ++ 58 :: rest) = some (js key, rest) := by
  rw [← quoteJson_js]
  exact readKey_quoteJson (js key) rest

section
variable {N : JsNumbers}

/-- A code unit with which a value can start that has no parts. -/
def StartsAtom (c : ℕ) : Prop := isBlank c = false ∧ c ≠ 123 ∧ c ≠ 91 ∧ c ≠ 93 ∧ c ≠ 125

instance (c : ℕ) : Decidable (StartsAtom c) :=
  inferInstanceAs (Decidable (isBlank c = false ∧ c ≠ 123 ∧ c ≠ 91 ∧ c ≠ 93 ∧ c ≠ 125))

theorem skip_of_head {text : JsText} {c : ℕ} (h : text.head? = some c) (hc : isBlank c = false) :
    skip text = text := by
  cases text with
  | nil => cases h
  | cons d text =>
    cases h
    rw [skip, List.dropWhile_cons_of_neg (by simp [hc])]

theorem readValue_atom {text : JsText} {c n : ℕ} (h : text.head? = some c) (hc : StartsAtom c) :
    readValue N (n + 1) text = readAtom N text := by
  obtain ⟨hblank, hbrace, hbracket, -, -⟩ := hc
  simp only [readValue, skip_of_head h hblank]
  rw [if_neg fun h' => hbrace (Option.some.inj (h.symm.trans h')),
    if_neg fun h' => hbracket (Option.some.inj (h.symm.trans h'))]

theorem numeral_starts {t : JsText} (h : Numeral t) (rest : JsText) : ∃ c, (t ++ rest).head? = some c ∧
    StartsAtom c ∧ c ≠ 110 ∧ c ≠ 116 ∧ c ≠ 102 ∧ c ≠ 34 := by
  obtain ⟨c, more, rfl, hc⟩ := head_numeral h
  refine ⟨c, rfl, ?_⟩
  have hrange : 45 ≤ c ∧ c ≤ 57 := by
    rcases hc with hdigit | ⟨rfl, -⟩
    · simp only [isDigit, Bool.and_eq_true, decide_eq_true_eq] at hdigit
      omega
    · decide
  refine ⟨⟨?_, by omega, by omega, by omega, by omega⟩, by omega, by omega, by omega, by omega⟩
  simp only [isBlank, decide_eq_false_iff_not, List.mem_cons, List.not_mem_nil, or_false]
  omega

theorem readValue_numeral {t rest : JsText} (h : Numeral t) (hrest : Stops rest) (n : ℕ) :
    readValue N (n + 1) (t ++ rest) = some (.num (N.ofText t), rest) := by
  obtain ⟨c, hhead, hstarts, h110, h116, h102, h34⟩ := numeral_starts h rest
  have hne : ∀ d, c ≠ d → (t ++ rest).head? ≠ some d :=
    fun d hd h' => hd (Option.some.inj (hhead.symm.trans h'))
  rw [readValue_atom hhead hstarts, readAtom, if_neg (hne _ h110), if_neg (hne _ h116),
    if_neg (hne _ h102), if_neg (hne _ h34), jsonNumberSize_append h hrest, Option.map_some,
    List.take_left, List.drop_left]

theorem readValue_quoteJson (s rest : JsText) (n : ℕ) :
    readValue N (n + 1) (quoteJson s ++ rest) = some (.str s, rest) := by
  obtain ⟨hhead, hread⟩ := readString_quoteJson s rest
  have hne : ∀ d, 34 ≠ d → (quoteJson s ++ rest).head? ≠ some d :=
    fun d hd h' => hd (Option.some.inj (hhead.symm.trans h'))
  rw [readValue_atom hhead (by decide), readAtom, if_neg (hne _ (by decide)), if_neg (hne _ (by decide)),
    if_neg (hne _ (by decide)), if_pos hhead, hread, Option.map_some]

theorem readValue_quote (s : String) (rest : JsText) (n : ℕ) :
    readValue N (n + 1) (jsChars (Json.quote s.toList) ++ rest) = some (.str (js s), rest) := by
  rw [← quoteJson_js]
  exact readValue_quoteJson (js s) rest n

theorem readValue_word (rest : JsText) (n : ℕ) :
    readValue N (n + 1) (js "null" ++ rest) = some (.null, rest) ∧
    readValue N (n + 1) (js "true" ++ rest) = some (.bool true, rest) ∧
    readValue N (n + 1) (js "false" ++ rest) = some (.bool false, rest) := by
  refine ⟨?_, ?_, ?_⟩
  · exact readValue_atom (c := 110) rfl (by decide)
  · exact readValue_atom (c := 116) rfl (by decide)
  · exact readValue_atom (c := 102) rfl (by decide)

theorem head_write {j : Json} (h : j.Printable) (rest : JsText) :
    ∃ c, (jsChars j.write ++ rest).head? = some c ∧ isBlank c = false ∧ c ≠ 93 := by
  cases j with
  | null => exact ⟨110, rfl, by decide⟩
  | bool b =>
    cases b with
    | false => exact ⟨102, rfl, by decide⟩
    | true => exact ⟨116, rfl, by decide⟩
  | int n =>
    obtain ⟨c, hc, hstarts, -⟩ := numeral_starts (numeral_toString n) rest
    rw [Json.write]
    exact ⟨c, hc, hstarts.1, hstarts.2.2.2.1⟩
  | float text =>
    rw [Json.Printable] at h
    obtain ⟨c, hc, hstarts, -⟩ := numeral_starts h rest
    rw [Json.write]
    exact ⟨c, hc, hstarts.1, hstarts.2.2.2.1⟩
  | str s => exact ⟨34, (readString_quote s rest).1, by decide⟩
  | arr items => exact ⟨91, rfl, by decide⟩
  | obj fields => exact ⟨123, rfl, by decide⟩

theorem skip_write {j : Json} (h : j.Printable) (rest : JsText) :
    skip (jsChars j.write ++ rest) = jsChars j.write ++ rest := by
  obtain ⟨c, hc, hblank, -⟩ := head_write h rest
  exact skip_of_head hc hblank

theorem stops_delimiter {c : ℕ} (hc : c = 44 ∨ c = 93 ∨ c = 125) (rest : JsText) : Stops (c :: rest) := by
  rintro _ ⟨⟩
  rcases hc with rfl | rfl | rfl <;> decide

theorem jsChars_arr (items : List Json) (rest : JsText) : jsChars (Json.arr items).write ++ rest =
    91 :: (jsChars (Json.writeItems items) ++ 93 :: rest) := by
  rw [Json.write, jsChars_cons, jsChars_append, List.append_assoc, List.append_assoc]
  rfl

theorem jsChars_obj (fields : List (String × Json)) (rest : JsText) :
    jsChars (Json.obj fields).write ++ rest =
      123 :: (jsChars (Json.writeFields fields) ++ 125 :: rest) := by
  rw [Json.write, jsChars_cons, jsChars_append, List.append_assoc, List.append_assoc]
  rfl

theorem jsChars_items (v w : Json) (vs : List Json) (rest : JsText) :
    jsChars (Json.writeItems (v :: w :: vs)) ++ rest =
      jsChars v.write ++ 44 :: (jsChars (Json.writeItems (w :: vs)) ++ rest) := by
  have h : Json.writeItems (v :: w :: vs) = v.write ++ ',' :: Json.writeItems (w :: vs) := rfl
  rw [h, jsChars_append, jsChars_cons, List.append_assoc, List.append_assoc]
  rfl

theorem jsChars_field (key : String) (v : Json) (rest : JsText) :
    jsChars (Json.writeField (key, v)) ++ rest =
      jsChars (Json.quote key.toList) ++ 58 :: (jsChars v.write ++ rest) := by
  rw [Json.writeField, jsChars_append, jsChars_cons, List.append_assoc, List.append_assoc]
  rfl

theorem jsChars_fields (e e' : String × Json) (es : List (String × Json)) (rest : JsText) :
    jsChars (Json.writeFields (e :: e' :: es)) ++ rest =
      jsChars (Json.writeField e) ++ 44 :: (jsChars (Json.writeFields (e' :: es)) ++ rest) := by
  have h : Json.writeFields (e :: e' :: es) = Json.writeField e ++ ',' :: Json.writeFields (e' :: es) := rfl
  rw [h, jsChars_append, jsChars_cons, List.append_assoc, List.append_assoc]
  rfl

theorem readItems_last {n : ℕ} {text rest : JsText} {v : JsValue N.Num}
    (hv : readValue N n text = some (v, 93 :: rest)) : readItems N (n + 1) text = some ([v], rest) := by
  rw [readItems, hv]
  rfl

theorem readItems_more {n : ℕ} {text after rest : JsText} {v : JsValue N.Num}
    {vs : List (JsValue N.Num)} (hv : readValue N n text = some (v, 44 :: after))
    (hvs : readItems N n after = some (vs, rest)) : readItems N (n + 1) text = some (v :: vs, rest) := by
  have hskip : skip (44 :: after) = 44 :: after := rfl
  rw [readItems, hv, Option.bind_some, hskip, List.head?_cons, if_pos rfl, List.tail_cons, hvs]
  rfl

theorem readMembers_last {n : ℕ} {text key behind rest : JsText} {v : JsValue N.Num}
    (hkey : readKey (skip text) = some (key, behind))
    (hv : readValue N n behind = some (v, 125 :: rest)) :
    readMembers N (n + 1) text = some ([(key, v)], rest) := by
  rw [readMembers, hkey, Option.bind_some, hv]
  rfl

theorem readMembers_more {n : ℕ} {text key behind after rest : JsText} {v : JsValue N.Num}
    {es : List (JsText × JsValue N.Num)} (hkey : readKey (skip text) = some (key, behind))
    (hv : readValue N n behind = some (v, 44 :: after))
    (hes : readMembers N n after = some (es, rest)) :
    readMembers N (n + 1) text = some ((key, v) :: es, rest) := by
  have hskip : skip (44 :: after) = 44 :: after := rfl
  rw [readMembers, hkey, Option.bind_some, hv, Option.bind_some, hskip, List.head?_cons, if_pos rfl,
    List.tail_cons, hes]
  rfl

theorem readValue_arr {n : ℕ} {text rest : JsText} {vs : List (JsValue N.Num)}
    (hopen : (skip text).head? ≠ some 93) (hvs : readItems N n text = some (vs, rest)) :
    readValue N (n + 1) (91 :: text) = some (.arr vs, rest) := by
  have hskip : skip (91 :: text) = 91 :: text := rfl
  simp only [readValue, hskip, List.tail_cons]
  rw [List.head?_cons, if_neg (by decide), if_pos rfl, if_neg hopen, hvs]
  rfl

theorem readValue_obj {n : ℕ} {text rest : JsText} {es : List (JsText × JsValue N.Num)}
    (hopen : (skip text).head? ≠ some 125) (hes : readMembers N n text = some (es, rest)) :
    readValue N (n + 1) (123 :: text) = some (.obj (assign es), rest) := by
  have hskip : skip (123 :: text) = 123 :: text := rfl
  simp only [readValue, hskip, List.tail_cons]
  rw [List.head?_cons, if_pos rfl, if_neg hopen, hes]
  rfl

theorem head_writeItems {v : Json} (hv : v.Printable) (vs : List Json) (rest : JsText) :
    (skip (jsChars (Json.writeItems (v :: vs)) ++ rest)).head? ≠ some 93 := by
  obtain ⟨after, h⟩ : ∃ after, jsChars (Json.writeItems (v :: vs)) ++ rest = jsChars v.write ++ after := by
    cases vs with
    | nil => exact ⟨rest, by rw [Json.writeItems]⟩
    | cons w vs => exact ⟨_, jsChars_items v w vs rest⟩
  obtain ⟨c, hc, -, hne⟩ := head_write hv after
  rw [h, skip_write hv, hc]
  exact fun h => hne (Option.some.inj h)

theorem skip_writeFields (e : String × Json) (es : List (String × Json)) (rest : JsText) :
    skip (jsChars (Json.writeFields (e :: es)) ++ rest) = jsChars (Json.writeFields (e :: es)) ++ rest ∧
      (jsChars (Json.writeFields (e :: es)) ++ rest).head? = some 34 := by
  obtain ⟨after, h⟩ : ∃ after, jsChars (Json.writeFields (e :: es)) ++ rest =
      jsChars (Json.quote e.1.toList) ++ after := by
    cases es with
    | nil => exact ⟨_, by rw [Json.writeFields, jsChars_field]⟩
    | cons e' es => exact ⟨_, by rw [jsChars_fields, jsChars_field]⟩
  have hhead := (readString_quote e.1 after).1
  rw [h]
  exact ⟨skip_of_head hhead rfl, hhead⟩

mutual

/-- `JSON.parse` reads what `serde_json` wrote, whatever follows. -/
theorem readValue_write : ∀ (j : Json), j.Printable → ∀ (rest : JsText), Stops rest → ∀ n,
    2 * (jsChars j.write).length + 1 ≤ n →
    readValue N n (jsChars j.write ++ rest) = some (ofJson N j, rest)
  | .null, _, rest, _, n + 1, _ => (readValue_word rest n).1
  | .bool true, _, rest, _, n + 1, _ => (readValue_word rest n).2.1
  | .bool false, _, rest, _, n + 1, _ => (readValue_word rest n).2.2
  | .int k, _, rest, hrest, n + 1, _ => by
    rw [Json.write, ofJson]
    exact readValue_numeral (numeral_toString k) hrest n
  | .float text, h, rest, hrest, n + 1, _ => by
    rw [Json.Printable] at h
    rw [Json.write, ofJson]
    exact readValue_numeral h hrest n
  | .str s, _, rest, _, n + 1, _ => by
    rw [Json.write, ofJson]
    exact readValue_quote s rest n
  | .arr [], _, rest, _, n + 1, _ => rfl
  | .arr (v :: vs), h, rest, _, n + 1, hn => by
    rw [Json.Printable, PrintableItems] at h
    have hlen := congrArg List.length (jsChars_arr (v :: vs) [])
    simp only [List.append_nil, List.length_cons, List.length_append, List.length_nil] at hlen
    rw [jsChars_arr, ofJson]
    exact readValue_arr (head_writeItems h.1 vs _) (readItems_write v vs h.1 h.2 rest n (by omega))
  | .obj [], _, rest, _, n + 1, _ => rfl
  | .obj ((key, v) :: es), h, rest, _, n + 1, hn => by
    rw [Json.Printable, PrintableFields, PrintableField] at h
    have hlen := congrArg List.length (jsChars_obj ((key, v) :: es) [])
    simp only [List.append_nil, List.length_cons, List.length_append, List.length_nil] at hlen
    obtain ⟨hskip, hhead⟩ := skip_writeFields (key, v) es (125 :: rest)
    rw [jsChars_obj, ofJson]
    refine readValue_obj ?_ (readMembers_write key v es h.1 h.2 rest n (by omega))
    rw [hskip, hhead]
    decide

theorem readItems_write : ∀ (v : Json) (vs : List Json), v.Printable → PrintableItems vs →
    ∀ (rest : JsText) (n : ℕ), 2 * (jsChars (Json.writeItems (v :: vs))).length + 2 ≤ n →
    readItems N n (jsChars (Json.writeItems (v :: vs)) ++ 93 :: rest) =
      some (ofItems N (v :: vs), rest)
  | v, [], hv, _, rest, n + 1, hn => by
    rw [Json.writeItems] at hn ⊢
    exact readItems_last (readValue_write v hv _ (stops_delimiter (by decide) rest) n (by omega))
  | v, w :: vs, hv, hvs, rest, n + 1, hn => by
    rw [PrintableItems] at hvs
    have hlen := congrArg List.length (jsChars_items v w vs [])
    simp only [List.append_nil, List.length_cons, List.length_append] at hlen
    rw [jsChars_items, ofItems]
    exact readItems_more (readValue_write v hv _ (stops_delimiter (by decide) _) n (by omega))
      (readItems_write w vs hvs.1 hvs.2 rest n (by omega))

theorem readMembers_write : ∀ (key : String) (v : Json) (es : List (String × Json)), v.Printable →
    PrintableFields es → ∀ (rest : JsText) (n : ℕ),
    2 * (jsChars (Json.writeFields ((key, v) :: es))).length + 2 ≤ n →
    readMembers N n (jsChars (Json.writeFields ((key, v) :: es)) ++ 125 :: rest) =
      some (ofFields N ((key, v) :: es), rest)
  | key, v, [], hv, _, rest, n + 1, hn => by
    have hskip := (skip_writeFields (key, v) [] (125 :: rest)).1
    rw [Json.writeFields] at hn hskip ⊢
    have hlen := congrArg List.length (jsChars_field key v [])
    simp only [List.append_nil, List.length_cons, List.length_append] at hlen
    refine readMembers_last ?_ (readValue_write v hv _ (stops_delimiter (by decide) rest) n (by omega))
    rw [hskip, jsChars_field, readKey_quote]
  | key, v, (key', w) :: es, hv, hes, rest, n + 1, hn => by
    rw [PrintableFields, PrintableField] at hes
    have hskip := (skip_writeFields (key, v) ((key', w) :: es) (125 :: rest)).1
    have hlen := congrArg List.length (jsChars_fields (key, v) (key', w) es [])
    have hlen' := congrArg List.length (jsChars_field key v [])
    simp only [List.append_nil, List.length_cons, List.length_append] at hlen hlen'
    refine readMembers_more ?_ (readValue_write v hv _ (stops_delimiter (by decide) _) n (by omega))
      (readMembers_write key' w es hes.1 hes.2 rest n (by omega))
    rw [hskip, jsChars_fields, jsChars_field, readKey_quote]

end

theorem jsonParse_write {j : Json} (h : j.Printable) : jsonParse N (jsChars j.write) = some (ofJson N j) := by
  have hstops : Stops [] := by
    rintro _ ⟨⟩
  have hread := readValue_write (N := N) j h [] hstops _ le_rfl
  rw [List.append_nil] at hread
  rw [jsonParse, hread]
  rfl

theorem readValue_brace {m : ℕ} {text rest : JsText} {v : JsValue N.Num}
    (h : readValue N m (123 :: text) = some (v, rest)) (x : N.Num) : v ≠ .num x := by
  cases m with
  | zero => cases h
  | succ m =>
    have hskip : skip (123 :: text) = 123 :: text := rfl
    simp only [readValue, hskip, List.tail_cons] at h
    rw [List.head?_cons, if_pos rfl] at h
    split_ifs at h
    · cases h
      rintro ⟨⟩
    · obtain ⟨r, -, hpair⟩ := Option.map_eq_some_iff.mp h
      cases hpair
      rintro ⟨⟩

/-- No object can be read from a part of its text. -/
theorem jsonParse_cut {fields : List (String × Json)} (h : (Json.obj fields).Printable) {text more : JsText}
    (hcut : text ++ more = jsChars (Json.obj fields).write) (hmore : more ≠ []) :
    jsonParse N text = none := by
  rw [jsonParse, Option.bind_eq_none_iff]
  rintro ⟨v, rest⟩ hread
  obtain ⟨hlt, hextend⟩ := readValue_extend hread
  -- the text is not empty, so it starts with the brace
  obtain ⟨text, rfl⟩ : ∃ t, text = 123 :: t := by
    cases text with
    | nil => cases hlt
    | cons c text =>
      have hbrace := jsChars_obj fields []
      rw [List.append_nil, ← hcut, List.cons_append, List.cons.injEq] at hbrace
      exact ⟨text, by rw [hbrace.1]⟩
  have hstops : Stops [] := by
    rintro _ ⟨⟩
  have hwhole := readValue_write (N := N) _ h [] hstops _ le_rfl
  rw [List.append_nil, ← hcut, hextend _ more (by rw [List.length_append]; omega) (.inr (.inl (readValue_brace hread))),
    Option.some.injEq, Prod.mk.injEq, List.append_eq_nil_iff] at hwhole
  exact absurd hwhole.2.2 hmore

/-- The properties of an object that `serde_json` wrote. -/
theorem lookup_ofJson {fields : List (String × Json)} (h : Ascending fields) (key : String) :
    (assign (ofFields N fields)).lookup (js key) = (fetch key fields).map (ofJson N) := by
  have hrun : ∀ (fields : List (String × Json)) (acc : List (JsText × JsValue N.Num)), Ascending fields →
      ((ofFields N fields).foldl (fun fields e => setField e.1 e.2 fields) acc).lookup (js key) =
        ((fetch key fields).map (ofJson N)).or (acc.lookup (js key)) := by
    intro fields
    induction fields with
    | nil =>
      intro acc _
      rw [ofFields, List.foldl_nil, fetch, Option.map_none, Option.none_or]
    | cons e es ih =>
      intro acc hasc
      obtain ⟨name, v⟩ := e
      have hes : ∀ e ∈ es, name < e.1 := (List.pairwise_cons.mp hasc).1
      rw [ofFields, ofField, List.foldl_cons, ih _ (List.pairwise_cons.mp hasc).2, lookup_setField, fetch]
      by_cases hkey : key = name
      · subst hkey
        rw [fetch_of_lt hes, if_pos rfl, if_pos rfl]
        rfl
      · rw [if_neg hkey, if_neg fun hjs => hkey (js_injective hjs)]
  rw [assign, hrun fields [] h, List.lookup_nil, Option.or_none]

end

/-! ### One line -/

theorem units_escapeChar (c : Char) : ∀ u ∈ jsChars (Json.escapeChar c), 32 ≤ u := by
  by_cases h : c.toNat < 32 ∨ c = '"' ∨ c = '\\'
  · rcases h with h | rfl | rfl
    · have hall : ∀ n < 32, ∀ u ∈ jsChars (Json.escapeChar (Char.ofNat n)), 32 ≤ u := by decide
      have := hall c.toNat h
      rwa [Char.ofNat_toNat] at this
    · decide
    · decide
  · rw [not_or, not_or] at h
    obtain ⟨hcontrol, hquote, hback⟩ := h
    rw [escapeChar_plain (Nat.le_of_not_lt hcontrol) hquote hback, jsChars_cons]
    intro u hu
    unfold utf16 at hu
    split_ifs at hu with hbmp
    · cases List.mem_singleton.mp hu
      exact Nat.le_of_not_lt hcontrol
    · simp only [jsChars, List.flatMap_nil, List.append_nil, List.mem_cons, List.not_mem_nil,
        or_false] at hu
      omega

theorem units_quote (s : List Char) : ∀ u ∈ jsChars (Json.quote s), 32 ≤ u := by
  intro u hu
  have hcut : jsChars (Json.quote s) = 34 :: (s.flatMap fun c => jsChars (Json.escapeChar c)) ++ [34] := by
    rw [Json.quote, jsChars_cons, jsChars_append, jsChars, List.flatMap_assoc]
    rfl
  rw [hcut, List.mem_append, List.mem_cons, List.mem_flatMap] at hu
  rcases hu with (rfl | ⟨c, -, hc⟩) | hu
  · decide
  · exact units_escapeChar c u hc
  · cases List.mem_singleton.mp hu
    decide

theorem units_append {s t : JsText} (hs : ∀ u ∈ s, 32 ≤ u) (ht : ∀ u ∈ t, 32 ≤ u) :
    ∀ u ∈ s ++ t, 32 ≤ u := List.forall_mem_append.mpr ⟨hs, ht⟩

theorem units_cons {c : ℕ} {t : JsText} (hc : 32 ≤ c) (ht : ∀ u ∈ t, 32 ≤ u) : ∀ u ∈ c :: t, 32 ≤ u :=
  List.forall_mem_cons.mpr ⟨hc, ht⟩

mutual

/-- There is no control character in what `serde_json` writes, and so no line end. -/
theorem units_write : ∀ (j : Json), j.Printable → ∀ u ∈ jsChars j.write, 32 ≤ u
  | .null, _ => by decide
  | .bool true, _ => by decide
  | .bool false, _ => by decide
  | .int n, _ => by
    rw [Json.write]
    intro u hu
    have := numeral_units (numeral_toString n) u hu
    omega
  | .float text, h => by
    rw [Json.Printable] at h
    rw [Json.write]
    intro u hu
    have := numeral_units h u hu
    omega
  | .str s, _ => by
    rw [Json.write]
    exact units_quote s.toList
  | .arr items, h => by
    rw [Json.Printable] at h
    have hcut := jsChars_arr items []
    rw [List.append_nil] at hcut
    rw [hcut]
    exact units_cons (by decide) (units_append (units_writeItems items h) (by decide))
  | .obj fields, h => by
    rw [Json.Printable] at h
    have hcut := jsChars_obj fields []
    rw [List.append_nil] at hcut
    rw [hcut]
    exact units_cons (by decide) (units_append (units_writeFields fields h) (by decide))

theorem units_writeItems : ∀ (items : List Json), PrintableItems items →
    ∀ u ∈ jsChars (Json.writeItems items), 32 ≤ u
  | [], _ => by decide
  | [v], h => by
    rw [PrintableItems] at h
    rw [Json.writeItems]
    exact units_write v h.1
  | v :: w :: vs, h => by
    rw [PrintableItems] at h
    have hcut := jsChars_items v w vs []
    rw [List.append_nil, List.append_nil] at hcut
    rw [hcut]
    exact units_append (units_write v h.1) (units_cons (by decide) (units_writeItems (w :: vs) h.2))

theorem units_writeFields : ∀ (fields : List (String × Json)), PrintableFields fields →
    ∀ u ∈ jsChars (Json.writeFields fields), 32 ≤ u
  | [], _ => by decide
  | [(key, v)], h => by
    rw [PrintableFields, PrintableField] at h
    have hcut := jsChars_field key v []
    rw [List.append_nil, List.append_nil] at hcut
    rw [Json.writeFields, hcut]
    exact units_append (units_quote _) (units_cons (by decide) (units_write v h.1))
  | (key, v) :: e :: es, h => by
    rw [PrintableFields, PrintableField] at h
    have hcut := jsChars_fields (key, v) e es []
    rw [List.append_nil, List.append_nil, jsChars_field] at hcut
    rw [hcut]
    exact units_append (units_quote _) (units_cons (by decide)
      (units_append (units_write v h.1) (units_cons (by decide) (units_writeFields (e :: es) h.2))))

end

end Llmtrace.Schemes
