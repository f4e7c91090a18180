import Mathlib.Data.List.Basic
import Mathlib.Tactic.Common

/-! JavaScript strings: sequences of UTF-16 code units, in which a surrogate may stand alone. -/

namespace Llmtrace.Schemes

/-- A text as its UTF-16 code units. -/
abbrev JsText := List ℕ

/-- The code units of a character. -/
def utf16 (c : Char) : JsText :=
  if c.toNat < 0x10000 then [c.toNat]
  else [0xD800 + (c.toNat - 0x10000) / 0x400, 0xDC00 + (c.toNat - 0x10000) % 0x400]

/-- The code units of a string. -/
def js (s : String) : JsText := s.toList.flatMap utf16

/-- `String(n)` for a whole number. -/
def decimal (n : ℕ) : JsText := (Nat.toDigits 10 n).map Char.toNat

/-- `/\s/`, and what `trim` removes. -/
def isSpace (c : ℕ) : Bool :=
  (9 ≤ c && c ≤ 13) || (0x2000 ≤ c && c ≤ 0x200a) ||
    c ∈ [32, 0xa0, 0x1680, 0x2028, 0x2029, 0x202f, 0x205f, 0x3000, 0xfeff]

theorem charToNat_injective : Function.Injective Char.toNat := fun c d h => by
  rw [← Char.ofNat_toNat c, ← Char.ofNat_toNat d, h]

theorem decimal_injective : Function.Injective decimal := fun n m h => by
  have hdigits := List.map_injective_iff.mpr charToNat_injective h
  rw [← Nat.ofDigitChars_ten_toDigits (n := n), hdigits, Nat.ofDigitChars_ten_toDigits]

theorem digit_of_mem_decimal {n c : ℕ} (h : c ∈ decimal n) : 48 ≤ c ∧ c ≤ 57 := by
  obtain ⟨d, hd, rfl⟩ := List.mem_map.mp h
  have hdigit := Nat.isDigit_of_mem_toDigits (by decide) (by decide) hd
  simp only [Char.isDigit, Bool.and_eq_true, decide_eq_true_eq] at hdigit
  exact ⟨hdigit.1, hdigit.2⟩

/-- Characters of the basic plane are code units. -/
theorem flatMap_utf16 : ∀ {s : List Char}, (∀ c ∈ s, c.toNat < 0x10000) →
    s.flatMap utf16 = s.map Char.toNat
  | [], _ => rfl
  | c :: s, h => by
    have hc : utf16 c = [c.toNat] := if_pos (h c List.mem_cons_self)
    rw [List.flatMap_cons, List.map_cons, flatMap_utf16 fun d hd => h d (List.mem_cons_of_mem _ hd), hc]
    rfl

theorem js_toString_nat (k : ℕ) : js (toString k) = decimal k := by
  have hlist : (toString k).toList = Nat.toDigits 10 k := Nat.toList_repr
  rw [js, hlist, flatMap_utf16, decimal]
  intro c hc
  have := digit_of_mem_decimal (List.mem_map_of_mem hc : c.toNat ∈ decimal k)
  omega

theorem js_append (s t : String) : js (s ++ t) = js s ++ js t := by
  rw [js, String.toList_append, List.flatMap_append, js, js]

theorem js_toString_negSucc (k : ℕ) : js (toString (Int.negSucc k)) = 45 :: decimal (k + 1) := by
  have h : toString (Int.negSucc k) = "-" ++ toString (k + 1) := rfl
  rw [h, js_append, js_toString_nat]
  rfl

/-- A separator that the second part does not hold ends the first part. -/
theorem append_cons_inj {α : Type*} {a : α} : ∀ {xs ys us vs : List α}, a ∉ us → a ∉ vs →
    xs ++ a :: us = ys ++ a :: vs → xs = ys ∧ us = vs
  | [], [], us, vs, _, _, h => ⟨rfl, (List.cons.inj h).2⟩
  | [], y :: ys, us, vs, hu, _, h => by
    obtain ⟨-, rfl⟩ := List.cons.inj h
    exact absurd (List.mem_append_right ys List.mem_cons_self) hu
  | x :: xs, [], us, vs, _, hv, h => by
    obtain ⟨-, rfl⟩ := List.cons.inj h
    exact absurd (List.mem_append_right xs List.mem_cons_self) hv
  | x :: xs, y :: ys, us, vs, hu, hv, h => by
    obtain ⟨rfl, hrest⟩ := List.cons.inj h
    obtain ⟨rfl, rfl⟩ := append_cons_inj hu hv hrest
    exact ⟨rfl, rfl⟩

end Llmtrace.Schemes
