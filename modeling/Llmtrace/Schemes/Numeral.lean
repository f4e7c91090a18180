import Llmtrace.Schemes.JsText
import Mathlib.Data.Int.Notation
import Mathlib.Data.List.TakeWhile
import Mathlib.Tactic.IntervalCases

/-! Decimal numbers in a text: `/^-?\d+(?:\.\d+)?(?:[eE][+-]?\d+)?/` says how far a number goes. -/

namespace Llmtrace.Schemes

/-- A decimal digit. -/
def isDigit (c : ℕ) : Bool := 48 ≤ c && c ≤ 57

/-- One digit or more. -/
def Digits (ds : JsText) : Prop := ds ≠ [] ∧ ∀ d ∈ ds, isDigit d

/-- A point with digits behind it, or nothing. -/
def Fraction (t : JsText) : Prop := t = [] ∨ ∃ ds, t = 46 :: ds ∧ Digits ds

/-- An exponent, or nothing. -/
def Exponent (t : JsText) : Prop := t = [] ∨ ∃ e sign ds, t = e :: (sign ++ ds) ∧ (e = 101 ∨ e = 69) ∧
  (sign = [] ∨ sign = [43] ∨ sign = [45]) ∧ Digits ds

/-- A whole number that is not zero does not start with one. -/
inductive Numeral : JsText → Prop where
  | mk {minus whole fraction exponent : JsText} : minus = [] ∨ minus = [45] → Digits whole →
      whole = [48] ∨ whole.head? ≠ some 48 → Fraction fraction → Exponent exponent →
      Numeral (minus ++ whole ++ fraction ++ exponent)

/-! ### Sizes -/

/-- The digits that a text begins with. -/
def digitCount (text : JsText) : ℕ := (text.takeWhile isDigit).length

/-- `(?:\.\d+)?` -/
def fractionSize (text : JsText) : ℕ :=
  if text.head? = some 46 ∧ 0 < digitCount text.tail then 1 + digitCount text.tail else 0

/-- `[+-]?` -/
def signSize (text : JsText) : ℕ := if text.head? = some 43 ∨ text.head? = some 45 then 1 else 0

/-- `(?:[eE][+-]?\d+)?` -/
def exponentSize (text : JsText) : ℕ :=
  let sign := signSize text.tail
  let digits := digitCount (text.tail.drop sign)
  if (text.head? = some 101 ∨ text.head? = some 69) ∧ 0 < digits then 1 + sign + digits else 0

/-- `-?` -/
def minusSize (text : JsText) : ℕ := if text.head? = some 45 then 1 else 0

/-- The size of the number that a text begins with. -/
def numberSize (text : JsText) : Option ℕ :=
  let minus := minusSize text
  let whole := digitCount (text.drop minus)
  if whole = 0 then none
  else
    let fraction := fractionSize (text.drop (minus + whole))
    some (minus + whole + fraction + exponentSize (text.drop (minus + whole + fraction)))

theorem numberSize_pos {text : JsText} {n : ℕ} (h : numberSize text = some n) : 0 < n := by
  simp only [numberSize, Option.ite_none_left_eq_some, Option.some.injEq] at h
  omega

/-- No number goes on here. -/
def Stops (text : JsText) : Prop :=
  ∀ c, text.head? = some c → isDigit c = false ∧ c ∉ [43, 45, 46, 69, 101]

theorem Stops.not_head {text : JsText} (h : Stops text) {c : ℕ} (hc : c ∈ [43, 45, 46, 69, 101]) :
    text.head? ≠ some c := fun hhead => (h c hhead).2 hc

theorem digitCount_of_head {text : JsText} (h : ∀ c, text.head? = some c → isDigit c = false) :
    digitCount text = 0 := by
  cases text with
  | nil => rfl
  | cons c text => simp [digitCount, h c rfl]

theorem digitCount_append {ds text : JsText} (hds : ∀ d ∈ ds, isDigit d)
    (htext : ∀ c, text.head? = some c → isDigit c = false) : digitCount (ds ++ text) = ds.length := by
  have hzero := digitCount_of_head htext
  rw [digitCount] at hzero ⊢
  rw [List.takeWhile_append_of_pos hds, List.length_append, hzero, Nat.add_zero]

theorem head_digits {ds : JsText} (h : Digits ds) (text : JsText) :
    ∃ d, (ds ++ text).head? = some d ∧ isDigit d := by
  cases ds with
  | nil => exact absurd rfl h.1
  | cons d ds => exact ⟨d, rfl, h.2 d List.mem_cons_self⟩

/-! ### A number with something behind it -/

theorem exponentSize_append {exponent rest : JsText} (h : Exponent exponent) (hrest : Stops rest) :
    exponentSize (exponent ++ rest) = exponent.length := by
  rcases h with rfl | ⟨e, sign, ds, rfl, he, hsign, hds⟩
  · rw [List.nil_append, exponentSize, if_neg ?_]
    · rfl
    · rintro ⟨h | h, -⟩
      · exact hrest.not_head (by decide) h
      · exact hrest.not_head (by decide) h
  · have hcount : digitCount (ds ++ rest) = ds.length :=
      digitCount_append hds.2 fun c hc => (hrest c hc).1
    have hpos : 0 < ds.length := List.length_pos_iff.mpr hds.1
    have hsize : signSize (sign ++ (ds ++ rest)) = sign.length := by
      rcases hsign with rfl | rfl | rfl
      · obtain ⟨d, hd, hdigit⟩ := head_digits hds rest
        rw [List.nil_append, signSize, hd, if_neg ?_]
        · rfl
        · rintro (⟨⟨⟩⟩ | ⟨⟨⟩⟩) <;> cases hdigit
      · rfl
      · rfl
    have hhead : (e = 101 ∨ e = 69) ∧ 0 < ds.length := ⟨he, hpos⟩
    simp only [exponentSize, List.cons_append, List.append_assoc, List.tail_cons, List.head?_cons, hsize,
      List.drop_left, hcount, Option.some.injEq, if_pos hhead, List.length_cons, List.length_append]
    omega

theorem fractionSize_append {fraction text : JsText} (h : Fraction fraction)
    (htext : ∀ c, text.head? = some c → isDigit c = false ∧ c ≠ 46) :
    fractionSize (fraction ++ text) = fraction.length := by
  rcases h with rfl | ⟨ds, rfl, hds⟩
  · rw [List.nil_append, fractionSize, if_neg ?_]
    · rfl
    · rintro ⟨hhead, -⟩
      exact (htext 46 hhead).2 rfl
  · have hcount : digitCount (ds ++ text) = ds.length :=
      digitCount_append hds.2 fun c hc => (htext c hc).1
    have hpos : 0 < ds.length := List.length_pos_iff.mpr hds.1
    simp only [fractionSize, List.cons_append, List.tail_cons, List.head?_cons, hcount, true_and,
      if_pos hpos, List.length_cons]
    omega

theorem minusSize_append {minus whole text : JsText} (hminus : minus = [] ∨ minus = [45])
    (hwhole : Digits whole) : minusSize (minus ++ (whole ++ text)) = minus.length := by
  rcases hminus with rfl | rfl
  · obtain ⟨d, hd, hdigit⟩ := head_digits hwhole text
    rw [List.nil_append, minusSize, hd, if_neg ?_]
    · rfl
    · rintro ⟨⟩
      cases hdigit
  · rfl

theorem head_exponent {exponent rest : JsText} (h : Exponent exponent) (hrest : Stops rest) :
    ∀ c, (exponent ++ rest).head? = some c → isDigit c = false ∧ c ≠ 46 := by
  intro c hc
  rcases h with rfl | ⟨e, sign, ds, rfl, he, -, -⟩
  · exact ⟨(hrest c hc).1, fun h => (hrest c hc).2 (by subst h; decide)⟩
  · cases hc
    rcases he with rfl | rfl <;> decide

/-- The whole part ends where its digits do. -/
theorem head_fraction {fraction exponent rest : JsText} (h : Fraction fraction)
    (hexponent : Exponent exponent) (hrest : Stops rest) :
    ∀ c, (fraction ++ (exponent ++ rest)).head? = some c → isDigit c = false := by
  intro c hc
  rcases h with rfl | ⟨ds, rfl, -⟩
  · exact (head_exponent hexponent hrest c hc).1
  · cases hc
    rfl

/-- A number is read as a whole. -/
theorem numberSize_append {t rest : JsText} (h : Numeral t) (hrest : Stops rest) :
    numberSize (t ++ rest) = some t.length := by
  obtain ⟨hminus, hwhole, -, hfraction, hexponent⟩ := h
  rename_i minus whole fraction exponent
  have hhead := head_exponent hexponent hrest
  have hcount := digitCount_append hwhole.2 (head_fraction hfraction hexponent hrest)
  have hpos : whole.length ≠ 0 := fun h0 => hwhole.1 (List.eq_nil_of_length_eq_zero h0)
  have hdrop : (minus ++ (whole ++ (fraction ++ (exponent ++ rest)))).drop (minus.length + whole.length) =
      fraction ++ (exponent ++ rest) := by
    rw [← List.append_assoc, ← List.length_append, List.drop_left]
  have hdrop' : (minus ++ (whole ++ (fraction ++ (exponent ++ rest)))).drop
      (minus.length + whole.length + fraction.length) = exponent ++ rest := by
    rw [← List.drop_drop, hdrop, List.drop_left]
  simp only [numberSize, List.append_assoc, minusSize_append hminus hwhole, List.drop_left, hcount,
    if_neg hpos, hdrop, fractionSize_append hfraction hhead, hdrop', exponentSize_append hexponent hrest,
    List.length_append]
  rw [Nat.add_assoc, Nat.add_assoc]

theorem head_numeral {t : JsText} (h : Numeral t) : ∃ c more, t = c :: more ∧
    (isDigit c = true ∨ c = 45 ∧ ∃ d rest, more = d :: rest ∧ isDigit d = true) := by
  obtain ⟨hminus, hwhole, -, -, -⟩ := h
  rename_i minus whole fraction exponent
  cases whole with
  | nil => exact absurd rfl hwhole.1
  | cons d ds =>
    have hd : isDigit d = true := hwhole.2 d List.mem_cons_self
    rcases hminus with rfl | rfl
    · exact ⟨d, ds ++ fraction ++ exponent, by simp, .inl hd⟩
    · exact ⟨45, d :: (ds ++ fraction ++ exponent), by simp, .inr ⟨rfl, d, _, rfl, hd⟩⟩

/-- Digits, signs, a point and the letter of the exponent. -/
theorem numeral_units {t : JsText} (h : Numeral t) : ∀ u ∈ t, 43 ≤ u ∧ u < 128 := by
  have hdigits : ∀ {ds : JsText}, Digits ds → ∀ u ∈ ds, 43 ≤ u ∧ u < 128 := by
    intro ds hds u hu
    have := hds.2 u hu
    simp only [isDigit, Bool.and_eq_true, decide_eq_true_eq] at this
    omega
  obtain ⟨hminus, hwhole, -, hfraction, hexponent⟩ := h
  intro u hu
  simp only [List.mem_append] at hu
  rcases hu with ((hu | hu) | hu) | hu
  · rcases hminus with rfl | rfl
    · cases hu
    · cases List.mem_singleton.mp hu
      decide
  · exact hdigits hwhole u hu
  · rcases hfraction with rfl | ⟨ds, rfl, hds⟩
    · cases hu
    · rcases List.mem_cons.mp hu with rfl | hu
      · decide
      · exact hdigits hds u hu
  · rcases hexponent with rfl | ⟨e, sign, ds, rfl, he, hsign, hds⟩
    · cases hu
    · rw [List.mem_cons, List.mem_append] at hu
      rcases hu with rfl | hu | hu
      · omega
      · rcases hsign with rfl | rfl | rfl
        · cases hu
        · cases List.mem_singleton.mp hu
          decide
        · cases List.mem_singleton.mp hu
          decide
      · exact hdigits hds u hu

/-! ### Whole numbers -/

theorem digits_decimal (k : ℕ) : Digits (decimal k) := by
  refine ⟨?_, fun d hd => ?_⟩
  · rw [decimal, ne_eq, List.map_eq_nil_iff]
    exact Nat.toDigits_ne_nil
  · obtain ⟨hlow, hhigh⟩ := digit_of_mem_decimal hd
    simp [isDigit, hlow, hhigh]

theorem decimal_head (k : ℕ) : decimal k = [48] ∨ (decimal k).head? ≠ some 48 := by
  induction k using Nat.strongRecOn with
  | ind k ih =>
    by_cases hk : k < 10
    · interval_cases k <;> decide
    · right
      have hdigits : decimal k = decimal (k / 10) ++ [(Nat.digitChar (k % 10)).toNat] := by
        rw [decimal, Nat.toDigits_of_base_le (by decide) (by omega), List.map_append, decimal]
        rfl
      rcases ih (k / 10) (by omega) with hzero | hhead
      · have : k / 10 = 0 := decimal_injective (hzero.trans (by decide : [48] = decimal 0))
        omega
      · have hne := (digits_decimal (k / 10)).1
        rw [hdigits]
        cases hd : decimal (k / 10) with
        | nil => exact absurd hd hne
        | cons d ds =>
          rw [hd] at hhead
          exact hhead

theorem numeral_toString (n : ℤ) : Numeral (js (toString n)) := by
  have hdigits : ∀ {minus : JsText} (k : ℕ), minus = [] ∨ minus = [45] → Numeral (minus ++ decimal k) := by
    intro minus k hminus
    simpa using Numeral.mk hminus (digits_decimal k) (decimal_head k) (.inl rfl) (.inl rfl)
  cases n with
  | ofNat k =>
    have h : js (toString (Int.ofNat k)) = [] ++ decimal k := js_toString_nat k
    rw [h]
    exact hdigits k (.inl rfl)
  | negSucc k =>
    rw [js_toString_negSucc]
    exact hdigits (k + 1) (.inr rfl)

/-! ### Numbers of JSON -/

/-- No number has a zero in front. -/
def jsonNumberSize (text : JsText) : Option ℕ :=
  let whole := text.drop (minusSize text)
  if whole.head? = some 48 ∧ 1 < digitCount whole then none else numberSize text

theorem jsonNumberSize_append {t rest : JsText} (h : Numeral t) (hrest : Stops rest) :
    jsonNumberSize (t ++ rest) = some t.length := by
  have hsize := numberSize_append h hrest
  obtain ⟨hminus, hwhole, hzero, hfraction, hexponent⟩ := h
  rename_i minus whole fraction exponent
  have hcount := digitCount_append hwhole.2 (head_fraction hfraction hexponent hrest)
  rw [jsonNumberSize, hsize, if_neg ?_]
  simp only [List.append_assoc, minusSize_append hminus hwhole, List.drop_left, hcount]
  rintro ⟨hhead, hone⟩
  rcases hzero with rfl | hne
  · exact absurd hone (by decide)
  · rw [List.head?_append_of_ne_nil _ hwhole.1] at hhead
    exact hne hhead

theorem digitCount_le (text : JsText) : digitCount text ≤ text.length :=
  (List.takeWhile_prefix isDigit).length_le

theorem digits_take {text : JsText} (h : 0 < digitCount text) : Digits (text.take (digitCount text)) := by
  have htake : text.take (digitCount text) = text.takeWhile isDigit :=
    (List.prefix_iff_eq_take.mp (List.takeWhile_prefix isDigit)).symm
  rw [htake]
  exact ⟨List.length_pos_iff.mp h, fun d hd => List.mem_takeWhile_imp hd⟩

theorem take_cons_of_head {text : JsText} {c : ℕ} (h : text.head? = some c) (n : ℕ) :
    text.take (1 + n) = c :: text.tail.take n := by
  cases text with
  | nil => cases h
  | cons d text =>
    cases h
    rw [Nat.add_comm, List.take_succ_cons, List.tail_cons]

theorem length_of_head {text : JsText} {c : ℕ} (h : text.head? = some c) :
    text.length = text.tail.length + 1 := by
  cases text with
  | nil => cases h
  | cons d text => rfl

theorem minus_take (text : JsText) : minusSize text ≤ text.length ∧
    (text.take (minusSize text) = [] ∨ text.take (minusSize text) = [45]) := by
  rw [minusSize]
  split_ifs with h
  · refine ⟨by rw [length_of_head h]; omega, .inr ?_⟩
    exact take_cons_of_head h 0
  · exact ⟨Nat.zero_le _, .inl rfl⟩

theorem fraction_take (text : JsText) : fractionSize text ≤ text.length ∧
    Fraction (text.take (fractionSize text)) := by
  rw [fractionSize]
  split_ifs with h
  · have hle := digitCount_le text.tail
    refine ⟨by rw [length_of_head h.1]; omega, .inr ⟨_, take_cons_of_head h.1 _, digits_take h.2⟩⟩
  · exact ⟨Nat.zero_le _, .inl rfl⟩

theorem sign_take (text : JsText) : signSize text ≤ text.length ∧
    (text.take (signSize text) = [] ∨ text.take (signSize text) = [43] ∨
      text.take (signSize text) = [45]) := by
  rw [signSize]
  split_ifs with h
  · rcases h with h | h
    · exact ⟨by rw [length_of_head h]; omega, .inr (.inl (take_cons_of_head h 0))⟩
    · exact ⟨by rw [length_of_head h]; omega, .inr (.inr (take_cons_of_head h 0))⟩
  · exact ⟨Nat.zero_le _, .inl rfl⟩

theorem exponent_take (text : JsText) : exponentSize text ≤ text.length ∧
    Exponent (text.take (exponentSize text)) := by
  simp only [exponentSize]
  split_ifs with h
  · obtain ⟨hhead, hdigits⟩ := h
    obtain ⟨hle, hsign⟩ := sign_take text.tail
    have hcount := digitCount_le (text.tail.drop (signSize text.tail))
    rw [List.length_drop] at hcount
    obtain ⟨e, he, hhead⟩ : ∃ e, (e = 101 ∨ e = 69) ∧ text.head? = some e := by
      rcases hhead with hhead | hhead
      · exact ⟨101, .inl rfl, hhead⟩
      · exact ⟨69, .inr rfl, hhead⟩
    refine ⟨by rw [length_of_head hhead]; omega, .inr ⟨e, _, _, ?_, he, hsign, digits_take hdigits⟩⟩
    rw [Nat.add_assoc, take_cons_of_head hhead, List.take_add]
  · exact ⟨Nat.zero_le _, .inl rfl⟩

/-- What is taken for a number is one. -/
theorem numeral_take {text : JsText} {n : ℕ} (h : jsonNumberSize text = some n) :
    n ≤ text.length ∧ 0 < n ∧ Numeral (text.take n) := by
  simp only [jsonNumberSize, numberSize, Option.ite_none_left_eq_some, Option.some.injEq] at h
  obtain ⟨hzero, hcount, rfl⟩ := h
  have hdigits := digits_take (Nat.pos_of_ne_zero hcount)
  have hle := digitCount_le (text.drop (minusSize text))
  obtain ⟨hminusLe, hminus⟩ := minus_take text
  set minus := minusSize text
  set whole := digitCount (text.drop minus)
  obtain ⟨hfractionLe, hfraction⟩ := fraction_take (text.drop (minus + whole))
  set fraction := fractionSize (text.drop (minus + whole))
  obtain ⟨hexponentLe, hexponent⟩ := exponent_take (text.drop (minus + whole + fraction))
  set exponent := exponentSize (text.drop (minus + whole + fraction))
  rw [List.length_drop] at hle hfractionLe hexponentLe
  refine ⟨by omega, by omega, ?_⟩
  rw [List.take_add, List.take_add, List.take_add]
  refine .mk hminus hdigits ?_ hfraction hexponent
  by_cases hhead : (text.drop minus).head? = some 48
  · left
    have hone : whole = 1 + 0 := by
      have : ¬1 < whole := fun hlt => hzero ⟨hhead, hlt⟩
      omega
    rw [hone]
    exact take_cons_of_head hhead 0
  · right
    rwa [List.head?_take, if_neg hcount]

end Llmtrace.Schemes
