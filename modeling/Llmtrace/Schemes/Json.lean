import Llmtrace.Schemes.Ordered

/-! JSON values with the accessors of `serde_json`. Objects are association lists in key order, as
    the library keeps them; a number is a 64-bit integer or something else. -/

namespace Llmtrace.Schemes

/-- A JSON value; objects are kept in the order of their keys. -/
inductive Json where
  | null
  | bool (b : Bool)
  | int (n : ℤ)
  | float (text : String)
  | str (s : String)
  | arr (items : List Json)
  | obj (fields : List (String × Json))

namespace Json

/-- `as_str` -/
def asStr : Json → Option String
  | str s => some s
  | _ => none

/-- `as_i64` -/
def asI64 : Json → Option ℤ
  | int n => if -2 ^ 63 ≤ n ∧ n < 2 ^ 63 then some n else none
  | _ => none

/-- `as_bool` -/
def asBool : Json → Option Bool
  | bool b => some b
  | _ => none

/-- `as_array` -/
def asArray : Json → Option (List Json)
  | arr items => some items
  | _ => none

/-- `as_object` -/
def asObject : Json → Option (List (String × Json))
  | obj fields => some fields
  | _ => none

/-- `is_null` -/
def isNull : Json → Bool
  | null => true
  | _ => false

/-- `is_object` -/
def isObject (v : Json) : Bool := v.asObject.isSome

/-- `is_array` -/
def isArray (v : Json) : Bool := v.asArray.isSome

/-- `value.get(key)` -/
def get (v : Json) (key : String) : Option Json := v.asObject.bind (fetch key)

/-- `value[key]`: `null` where there is nothing. -/
def field (v : Json) (key : String) : Json := (v.get key).getD null

/-- The array index that a reference token spells: digits without leading zeros. -/
def parseIndex (token : String) : Option ℕ :=
  if token.toList = [] ∨ token.toList.head? = some '0' ∧ token ≠ "0" then none
  else if token.toList.all Char.isDigit then
    some (token.toList.foldl (fun n c => 10 * n + (c.toNat - '0'.toNat)) 0)
  else none

/-- `value.pointer(path)`, the path given by its tokens. -/
def pointer : List String → Json → Option Json
  | [], v => some v
  | token :: path, obj fields => (fetch token fields).bind (pointer path)
  | token :: path, arr items => ((parseIndex token).bind fun i => items[i]?).bind (pointer path)
  | _ :: _, _ => none

/-- `json!(text)` for an optional text. -/
def ofOption : Option String → Json
  | none => null
  | some s => str s

@[simp] theorem asStr_str (s : String) : (str s).asStr = some s := rfl

@[simp] theorem asStr_null : null.asStr = none := rfl

@[simp] theorem get_obj (fields : List (String × Json)) (key : String) :
    (obj fields).get key = fetch key fields := rfl

/-! ### Strings as they are written -/

/-- A hexadecimal digit. -/
def hexChar (n : ℕ) : Char := "0123456789abcdef".toList.getD n '0'

/-- A character of a JSON string, as `serde_json` writes it. -/
def escapeChar (c : Char) : List Char :=
  if c = '"' then ['\\', '"']
  else if c = '\\' then ['\\', '\\']
  else if c = Char.ofNat 8 then ['\\', 'b']
  else if c = Char.ofNat 9 then ['\\', 't']
  else if c = Char.ofNat 10 then ['\\', 'n']
  else if c = Char.ofNat 12 then ['\\', 'f']
  else if c = Char.ofNat 13 then ['\\', 'r']
  else if c.toNat < 32 then ['\\', 'u', '0', '0', hexChar (c.toNat / 16), hexChar (c.toNat % 16)]
  else [c]

/-- Reads one character back. -/
def unescape : List Char → Option (Char × List Char)
  | '\\' :: 'u' :: '0' :: '0' :: h :: l :: rest =>
    some (Char.ofNat (16 * "0123456789abcdef".toList.idxOf h + "0123456789abcdef".toList.idxOf l), rest)
  | '\\' :: 'b' :: rest => some (Char.ofNat 8, rest)
  | '\\' :: 't' :: rest => some (Char.ofNat 9, rest)
  | '\\' :: 'n' :: rest => some (Char.ofNat 10, rest)
  | '\\' :: 'f' :: rest => some (Char.ofNat 12, rest)
  | '\\' :: 'r' :: rest => some (Char.ofNat 13, rest)
  | '\\' :: c :: rest => some (c, rest)
  | c :: rest => some (c, rest)
  | [] => none

theorem unescape_escapeChar (c : Char) (rest : List Char) :
    unescape (escapeChar c ++ rest) = some (c, rest) := by
  unfold escapeChar
  split_ifs with h1 h2 h3 h4 h5 h6 h7 h8
  · subst h1; rfl
  · subst h2; rfl
  · subst h3; rfl
  · subst h4; rfl
  · subst h5; rfl
  · subst h6; rfl
  · subst h7; rfl
  · obtain ⟨n, hn, rfl⟩ : ∃ n < 32, c = Char.ofNat n := ⟨c.toNat, h8, (Char.ofNat_toNat c).symm⟩
    interval_cases n <;> rfl
  · simp [unescape, h2]

/-- A JSON string. -/
def quote (s : List Char) : List Char := '"' :: (s.flatMap escapeChar ++ ['"'])

theorem escapeChar_ne_quote (c : Char) (rest tail : List Char) : escapeChar c ++ rest ≠ '"' :: tail := by
  intro h
  have hread := unescape_escapeChar c rest
  rw [h] at hread
  obtain ⟨rfl, rfl⟩ : '"' = c ∧ tail = rest := by simpa [unescape] using hread
  cases (List.cons.inj h).1

theorem flatMap_escapeChar_inj : ∀ {s t x y : List Char},
    s.flatMap escapeChar ++ '"' :: x = t.flatMap escapeChar ++ '"' :: y → s = t ∧ x = y
  | [], [], _, _, h => ⟨rfl, (List.cons.inj h).2⟩
  | [], d :: t, _, _, h => by
      rw [List.flatMap_cons, List.append_assoc] at h
      exact absurd h.symm (escapeChar_ne_quote _ _ _)
  | c :: s, [], _, _, h => by
      rw [List.flatMap_cons, List.append_assoc] at h
      exact absurd h (escapeChar_ne_quote _ _ _)
  | c :: s, d :: t, x, y, h => by
      rw [List.flatMap_cons, List.flatMap_cons, List.append_assoc, List.append_assoc] at h
      have hread := unescape_escapeChar c (s.flatMap escapeChar ++ '"' :: x)
      rw [h, unescape_escapeChar, Option.some.injEq, Prod.mk.injEq] at hread
      obtain ⟨rfl, hrest⟩ := hread
      obtain ⟨rfl, rfl⟩ := flatMap_escapeChar_inj hrest.symm
      exact ⟨rfl, rfl⟩

/-- Where a JSON string ends can be read from it. -/
theorem quote_append_inj {s t x y : List Char} (h : quote s ++ x = quote t ++ y) : s = t ∧ x = y := by
  simp only [quote, List.cons_append, List.append_assoc, List.nil_append, List.cons.injEq,
    true_and] at h
  exact flatMap_escapeChar_inj h

mutual

/-- The compact text of a value. -/
def write : Json → List Char
  | null => "null".toList
  | bool b => (toString b).toList
  | int n => (toString n).toList
  | float text => text.toList
  | str s => quote s.toList
  | arr items => '[' :: (writeItems items ++ [']'])
  | obj fields => '\x7b' :: (writeFields fields ++ ['\x7d'])

/-- The items with commas between them. -/
def writeItems : List Json → List Char
  | [] => []
  | [v] => write v
  | v :: vs => write v ++ ',' :: writeItems vs

/-- The members with commas between them. -/
def writeFields : List (String × Json) → List Char
  | [] => []
  | [e] => writeField e
  | e :: es => writeField e ++ ',' :: writeFields es

/-- A member. -/
def writeField : String × Json → List Char
  | (key, v) => quote key.toList ++ ':' :: write v

end

end Json
end Llmtrace.Schemes
