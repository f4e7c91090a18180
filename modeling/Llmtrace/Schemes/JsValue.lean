import Llmtrace.Schemes.Json
import Llmtrace.Schemes.Numeral
import Llmtrace.Schemes.Text

/-! The values that `JSON.parse` makes in JavaScript, how `JSON.stringify` writes them and how many
    bytes a string takes.

    Binary floating point is left open: a `JsNumbers` is the type of the numbers, in which `-0` is `0`,
    with the functions of the language on them. An object is the list of its own properties, in the
    order in which they are enumerated. -/

namespace Llmtrace.Schemes

/-! ### Numbers -/

/-- The numbers of the language, as far as JSON touches them. -/
structure JsNumbers where
  Num : Type
  /-- `Number(text)` -/
  ofText : JsText → Num
  /-- `String(x)` -/
  text : Num → JsText
  isFinite : Num → Bool
  /-- The whole number that `x` is, when `Number.isInteger(x)`. -/
  whole : Num → Option ℤ

namespace JsNumbers
variable (N : JsNumbers)

/-- `Number.isInteger(x)` -/
def isInteger (x : N.Num) : Bool := (N.whole x).isSome

/-- `Number.isSafeInteger(x)` -/
def isSafeInteger (x : N.Num) : Bool := (N.whole x).any fun n => |n| < 2 ^ 53

end JsNumbers

/-- What the language promises about its numbers. -/
structure JsNumbers.Lawful (N : JsNumbers) : Prop where
  finite_of_whole {x : N.Num} {n : ℤ} : N.whole x = some n → N.isFinite x
  numeral {x : N.Num} : N.isFinite x → Numeral (N.text x)
  /-- `Number(String(x))` is `x`. -/
  ofText_text {x : N.Num} : N.isFinite x → N.ofText (N.text x) = x
  whole_ofText {n : ℤ} : |n| < 2 ^ 53 → N.whole (N.ofText (js (toString n))) = some n
  text_whole {x : N.Num} {n : ℤ} : N.whole x = some n → |n| < 2 ^ 53 → N.text x = js (toString n)

/-! ### Values -/

/-- A JSON value as the language keeps it. -/
inductive JsValue (ν : Type) where
  | null
  | bool (b : Bool)
  | num (x : ν)
  | str (s : JsText)
  | arr (items : List (JsValue ν))
  | obj (fields : List (JsText × JsValue ν))

/-- The first half of a surrogate pair. -/
def isHigh (c : ℕ) : Bool := 0xD800 ≤ c && c < 0xDC00

/-- The second half of a surrogate pair. -/
def isLow (c : ℕ) : Bool := 0xDC00 ≤ c && c < 0xE000

/-! ### Bytes -/

/-- The UTF-8 bytes of a code unit outside a pair; a lone surrogate is written as U+FFFD. -/
def unitBytes (c : ℕ) : ℕ := if c < 0x80 then 1 else if c < 0x800 then 2 else 3

/-- `new TextEncoder().encode(text).length` -/
def byteLength : JsText → ℕ
  | [] => 0
  | [c] => unitBytes c
  | c :: d :: rest =>
    if isHigh c && isLow d then 4 + byteLength rest else unitBytes c + byteLength (d :: rest)

/-- The code units of characters. -/
def jsChars (s : List Char) : JsText := s.flatMap utf16

theorem jsChars_cons (c : Char) (s : List Char) : jsChars (c :: s) = utf16 c ++ jsChars s := rfl

theorem jsChars_append (s t : List Char) : jsChars (s ++ t) = jsChars s ++ jsChars t :=
  List.flatMap_append

theorem char_toNat_lt (c : Char) : c.toNat < 0xD800 ∨ 0xDFFF < c.toNat ∧ c.toNat < 0x110000 := by
  rcases c.valid with h | h
  · exact .inl h
  · exact .inr h

theorem utf16_append_inj {c d : Char} {xs ys : JsText} (h : utf16 c ++ xs = utf16 d ++ ys) :
    c = d ∧ xs = ys := by
  have hc := char_toNat_lt c
  have hd := char_toNat_lt d
  have hnat : c.toNat = d.toNat ∧ xs = ys := by
    unfold utf16 at h
    split_ifs at h with h₁ h₂ h₂
    · simpa using h
    · simp only [List.cons_append, List.nil_append, List.cons.injEq] at h
      omega
    · simp only [List.cons_append, List.nil_append, List.cons.injEq] at h
      omega
    · simp only [List.cons_append, List.nil_append, List.cons.injEq] at h
      exact ⟨by omega, h.2.2⟩
  exact ⟨charToNat_injective hnat.1, hnat.2⟩

theorem utf16_append_ne_nil (c : Char) (xs : JsText) : utf16 c ++ xs ≠ [] := by
  unfold utf16
  split_ifs <;> exact List.cons_ne_nil _ _

/-- What stands behind some characters in a text of characters is one too. -/
theorem jsChars_prefix : ∀ {s t : List Char} {units : JsText}, jsChars s ++ units = jsChars t →
    ∃ rest, t = s ++ rest ∧ units = jsChars rest
  | [], t, units, h => ⟨t, rfl, h⟩
  | c :: s, [], units, h => absurd (by rw [← List.append_assoc]; exact h) (utf16_append_ne_nil c _)
  | c :: s, d :: t, units, h => by
    have h' : utf16 c ++ (jsChars s ++ units) = utf16 d ++ jsChars t := by
      rw [← List.append_assoc]
      exact h
    obtain ⟨rfl, hrest⟩ := utf16_append_inj h'
    obtain ⟨rest, rfl, rfl⟩ := jsChars_prefix hrest
    exact ⟨rest, rfl, rfl⟩

theorem jsChars_injective : Function.Injective jsChars := by
  intro s t h
  obtain ⟨rest, rfl, hrest⟩ := jsChars_prefix ((List.append_nil (jsChars s)).trans h)
  cases rest with
  | nil => rw [List.append_nil]
  | cons c rest => exact absurd hrest.symm (utf16_append_ne_nil c _)

theorem js_injective : Function.Injective js := fun _ _ h =>
  String.toList_injective (jsChars_injective h)

/-- A character takes as many bytes in JavaScript's encoder as in Rust. -/
theorem byteLength_utf16 (c : Char) (rest : JsText) :
    byteLength (utf16 c ++ rest) = c.utf8Size + byteLength rest := by
  have hvalid := char_toNat_lt c
  have hsize : c.utf8Size = if c.toNat < 0x80 then 1 else if c.toNat < 0x800 then 2
      else if c.toNat < 0x10000 then 3 else 4 := by
    simp only [Char.utf8Size, UInt32.le_iff_toNat_le, Char.toNat]
    split_ifs <;> simp_all <;> omega
  unfold utf16
  split_ifs with hbmp
  · have hhigh : isHigh c.toNat = false := by
      simp only [isHigh, Bool.and_eq_false_iff, decide_eq_false_iff_not]
      omega
    have hunit : unitBytes c.toNat = c.utf8Size := by
      rw [hsize, unitBytes, if_pos hbmp]
    cases rest with
    | nil => simp [byteLength, hunit]
    | cons d rest => simp [byteLength, hhigh, hunit]
  · have hhigh : isHigh (0xD800 + (c.toNat - 0x10000) / 0x400) = true := by
      simp only [isHigh, Bool.and_eq_true, decide_eq_true_eq]
      omega
    have hlow : isLow (0xDC00 + (c.toNat - 0x10000) % 0x400) = true := by
      simp only [isLow, Bool.and_eq_true, decide_eq_true_eq]
      omega
    have hfour : c.utf8Size = 4 := by
      rw [hsize]
      split_ifs <;> omega
    simp [byteLength, hhigh, hlow, hfour]

theorem byteLength_append (s : List Char) (rest : JsText) :
    byteLength (jsChars s ++ rest) = utf8Len s + byteLength rest := by
  induction s with
  | nil => simp [jsChars, utf8Len]
  | cons c s ih =>
    rw [jsChars, List.flatMap_cons, List.append_assoc, byteLength_utf16, utf8Len, List.map_cons,
      List.sum_cons]
    rw [jsChars, utf8Len] at ih
    omega

theorem byteLength_jsChars (s : List Char) : byteLength (jsChars s) = utf8Len s := by
  simpa [byteLength] using byteLength_append s []

/-! ### `JSON.stringify` -/

/-- A hexadecimal digit. -/
def hexUnit (n : ℕ) : ℕ := (js "0123456789abcdef").getD n 48

/-- `\uXXXX` -/
def unicodeEscape (c : ℕ) : JsText :=
  [92, 117, hexUnit (c / 4096), hexUnit (c / 256 % 16), hexUnit (c / 16 % 16), hexUnit (c % 16)]

/-- A code unit outside a pair, inside a JSON string. -/
def escapeUnit (c : ℕ) : JsText :=
  if c = 34 then [92, 34]
  else if c = 92 then [92, 92]
  else if c = 8 then [92, 98]
  else if c = 9 then [92, 116]
  else if c = 10 then [92, 110]
  else if c = 12 then [92, 102]
  else if c = 13 then [92, 114]
  else if c < 32 || isHigh c || isLow c then unicodeEscape c
  else [c]

/-- The text with its escapes; lone surrogates are escaped. -/
def escapeUnits : JsText → JsText
  | [] => []
  | [c] => escapeUnit c
  | c :: d :: rest =>
    if isHigh c && isLow d then c :: d :: escapeUnits rest else escapeUnit c ++ escapeUnits (d :: rest)

theorem escapeChar_plain {c : Char} (hcontrol : 32 ≤ c.toNat) (hquote : c ≠ '"') (hback : c ≠ '\\') :
    Json.escapeChar c = [c] := by
  have hne : ∀ n < 32, c ≠ Char.ofNat n := by
    rintro n hn rfl
    have : (Char.ofNat n).toNat = n := by
      interval_cases n <;> rfl
    omega
  simp only [Json.escapeChar, if_neg hquote, if_neg hback, if_neg (hne 8 (by decide)),
    if_neg (hne 9 (by decide)), if_neg (hne 10 (by decide)), if_neg (hne 12 (by decide)),
    if_neg (hne 13 (by decide)), if_neg (Nat.not_lt.mpr hcontrol)]

theorem escapeUnits_utf16 (c : Char) (rest : JsText) :
    escapeUnits (utf16 c ++ rest) = jsChars (Json.escapeChar c) ++ escapeUnits rest := by
  have hvalid := char_toNat_lt c
  by_cases hbmp : c.toNat < 0x10000
  · have hutf : utf16 c = [c.toNat] := if_pos hbmp
    have hhigh : isHigh c.toNat = false := by
      simp only [isHigh, Bool.and_eq_false_iff, decide_eq_false_iff_not]
      omega
    have hlow : isLow c.toNat = false := by
      simp only [isLow, Bool.and_eq_false_iff, decide_eq_false_iff_not]
      omega
    have hone : escapeUnits (c.toNat :: rest) = escapeUnit c.toNat ++ escapeUnits rest := by
      cases rest with
      | nil => simp [escapeUnits]
      | cons d rest => simp [escapeUnits, hhigh]
    rw [hutf, List.singleton_append, hone]
    refine congrArg (· ++ escapeUnits rest) ?_
    by_cases hcontrol : c.toNat < 32
    · have hall : ∀ n < 32, escapeUnit n = jsChars (Json.escapeChar (Char.ofNat n)) := by decide
      have := hall c.toNat hcontrol
      rwa [Char.ofNat_toNat] at this
    · by_cases hquote : c = '"'
      · subst hquote
        rfl
      by_cases hback : c = '\\'
      · subst hback
        rfl
      have h34 : c.toNat ≠ 34 := fun h => hquote (charToNat_injective h)
      have h92 : c.toNat ≠ 92 := fun h => hback (charToNat_injective h)
      have hplain := escapeChar_plain (Nat.le_of_not_lt hcontrol) hquote hback
      have hunit : escapeUnit c.toNat = [c.toNat] := by
        simp only [escapeUnit, hhigh, hlow, Bool.or_false, decide_eq_true_eq]
        repeat rw [if_neg (by omega)]
      rw [hplain, hunit, jsChars, List.flatMap_cons, List.flatMap_nil, List.append_nil, hutf]
  · have hutf : utf16 c = [0xD800 + (c.toNat - 0x10000) / 0x400, 0xDC00 + (c.toNat - 0x10000) % 0x400] :=
      if_neg hbmp
    have hpair : (isHigh (0xD800 + (c.toNat - 0x10000) / 0x400) &&
        isLow (0xDC00 + (c.toNat - 0x10000) % 0x400)) = true := by
      simp only [isHigh, isLow, Bool.and_eq_true, decide_eq_true_eq]
      omega
    have hne : ∀ d : Char, d.toNat < 128 → c ≠ d := by
      rintro d hd rfl
      omega
    have hplain := escapeChar_plain (by omega) (hne '"' (by decide)) (hne '\\' (by decide))
    rw [hplain, jsChars, List.flatMap_cons, List.flatMap_nil, List.append_nil, hutf]
    simp [escapeUnits, hpair]

/-- JavaScript escapes a text of characters as `serde_json` does. -/
theorem escapeUnits_jsChars (s : List Char) :
    escapeUnits (jsChars s) = jsChars (s.flatMap Json.escapeChar) := by
  induction s with
  | nil => rfl
  | cons c s ih =>
    have hcons : jsChars (c :: s) = utf16 c ++ jsChars s := rfl
    rw [hcons, escapeUnits_utf16, ih, List.flatMap_cons, jsChars, jsChars, jsChars, List.flatMap_append]

/-- `JSON.stringify` of a text. -/
def quoteJson (s : JsText) : JsText := 34 :: (escapeUnits s ++ [34])

theorem quoteJson_js (s : String) : quoteJson (js s) = jsChars (Json.quote s.toList) := by
  have h := escapeUnits_jsChars s.toList
  have hquote : jsChars (Json.quote s.toList) = 34 :: (jsChars (s.toList.flatMap Json.escapeChar) ++ [34]) := by
    rw [Json.quote, jsChars, List.flatMap_cons, List.flatMap_append]
    rfl
  rw [hquote, ← h]
  rfl

section
variable (N : JsNumbers)

mutual

/-- `JSON.stringify` -/
def stringify : JsValue N.Num → JsText
  | .null => js "null"
  | .bool b => js (toString b)
  | .num x => if N.isFinite x then N.text x else js "null"
  | .str s => quoteJson s
  | .arr items => 91 :: (stringifyItems items ++ [93])
  | .obj fields => 123 :: (stringifyFields fields ++ [125])

/-- The items with commas between them. -/
def stringifyItems : List (JsValue N.Num) → JsText
  | [] => []
  | [v] => stringify v
  | v :: vs => stringify v ++ 44 :: stringifyItems vs

/-- The members with commas between them. -/
def stringifyFields : List (JsText × JsValue N.Num) → JsText
  | [] => []
  | [e] => stringifyField e
  | e :: es => stringifyField e ++ 44 :: stringifyFields es

/-- A member. -/
def stringifyField : JsText × JsValue N.Num → JsText
  | (key, v) => quoteJson key ++ 58 :: stringify v

end

end
end Llmtrace.Schemes
