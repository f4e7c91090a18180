import Llmtrace.Parsers.Assembly

/-! The preview of a tool call's text (`append_bounded` and `bounded` in `parsers/response.rs`). A
    document brings the whole text, a stream brings fragments of it, and each fragment is cut on its own
    at what is left of the limit.

    A character that does not fit is left out, but the limit need not be reached by that: up to three
    bytes stay free, and a later fragment that starts with a shorter character is taken up again. -/

namespace Llmtrace.Parsers
open Schemes

/-- The fragments of a text, appended one after the other. -/
def appendAll (fragments : List String) : String × Bool :=
  fragments.foldl (fun r fragment => appendBounded r.1 fragment r.2) ("", false)

/-- The preview is that of the whole text, and the mark says whether it is shorter. -/
structure WholePreview (fragments : List String) : Prop where
  text : (appendAll fragments).1 = (bounded (joinTexts fragments) false).1
  longest : IsLongestPrefix (joinTexts fragments).toList maxToolTextBytes (appendAll fragments).1.toList
  marked : (appendAll fragments).2 = true ↔ (appendAll fragments).1 ≠ joinTexts fragments

/-- What the whole text leaves free of the limit. -/
def spareBytes (fragments : List String) : ℕ :=
  maxToolTextBytes - utf8Len (truncateUtf8 (joinTexts fragments).toList maxToolTextBytes)

/-- No fragment that comes after the limit was passed starts with a character for which there would
    still be room. -/
def NoSplice (fragments : List String) : Prop :=
  ∀ before fragment after, fragments = before ++ fragment :: after →
    maxToolTextBytes < utf8Len (joinTexts before).toList →
    ∀ c, fragment.toList.head? = some c → spareBytes fragments < c.utf8Size

/-! ### One fragment more -/

theorem joinTexts_snoc (xs : List String) (x : String) :
    (joinTexts (xs ++ [x])).toList = (joinTexts xs).toList ++ x.toList := by
  simp [joinTexts]

theorem appendAll_snoc (fragments : List String) (fragment : String) :
    appendAll (fragments ++ [fragment]) =
      appendBounded (appendAll fragments).1 fragment (appendAll fragments).2 := by
  rw [appendAll, List.foldl_append]
  rfl

theorem appendAll_text (fragments : List String) (fragment : String) :
    (appendAll (fragments ++ [fragment])).1.toList = (appendAll fragments).1.toList ++
      truncateUtf8 fragment.toList (maxToolTextBytes - utf8Len (appendAll fragments).1.toList) := by
  rw [appendAll_snoc, appendBounded, String.toList_append, String.toList_ofList]

/-- Up to the limit, all the text is kept. -/
theorem appendAll_within : ∀ {fragments : List String},
    utf8Len (joinTexts fragments).toList ≤ maxToolTextBytes → appendAll fragments = (joinTexts fragments, false) := by
  intro fragments
  induction fragments using List.reverseRecOn with
  | nil => exact fun _ => rfl
  | append_singleton fragments fragment ih =>
    intro h
    rw [joinTexts_snoc, utf8Len_append] at h
    have hkept : truncateUtf8 fragment.toList (maxToolTextBytes - utf8Len (joinTexts fragments).toList) =
        fragment.toList := truncateUtf8_of_le (by omega)
    rw [appendAll_snoc, ih (by omega), appendBounded]
    simp only [hkept, lt_irrefl, decide_false, Bool.or_false, String.ofList_toList, Prod.mk.injEq, and_true]
    apply String.toList_injective
    rw [joinTexts_snoc, String.toList_append]

/-- The preview of the whole text is never lost. -/
theorem truncate_prefix_appendAll (fragments : List String) :
    truncateUtf8 (joinTexts fragments).toList maxToolTextBytes <+: (appendAll fragments).1.toList := by
  induction fragments using List.reverseRecOn with
  | nil => exact List.prefix_rfl
  | append_singleton fragments fragment ih =>
    rw [joinTexts_snoc, truncateUtf8_append, appendAll_text]
    by_cases h : utf8Len (joinTexts fragments).toList ≤ maxToolTextBytes
    · rw [if_pos h, appendAll_within h]
    · rw [if_neg h]
      exact ih.trans (List.prefix_append _ _)

theorem appendAll_marked (fragments : List String) : (appendAll fragments).2 = true ↔
    maxToolTextBytes < utf8Len (joinTexts fragments).toList := by
  induction fragments using List.reverseRecOn with
  | nil => decide
  | append_singleton fragments fragment ih =>
    rw [appendAll_snoc, appendBounded]
    simp only [Bool.or_eq_true, ih, decide_eq_true_eq]
    rw [joinTexts_snoc, utf8Len_append]
    by_cases h : maxToolTextBytes < utf8Len (joinTexts fragments).toList
    · exact ⟨fun _ => by omega, fun _ => .inl h⟩
    · rw [appendAll_within (Nat.le_of_not_lt h), utf8Len_truncateUtf8_lt]
      simp only
      omega

/-- Once the limit is passed, the rest of the text is not part of its preview. -/
theorem truncate_joinTexts {before : List String} (after : List String)
    (h : maxToolTextBytes < utf8Len (joinTexts before).toList) :
    truncateUtf8 (joinTexts (before ++ after)).toList maxToolTextBytes =
      truncateUtf8 (joinTexts before).toList maxToolTextBytes := by
  rw [joinTexts_append, String.toList_append, truncateUtf8_append, if_neg (by omega)]

theorem appendAll_grows (before after : List String) :
    (appendAll before).1.toList <+: (appendAll (before ++ after)).1.toList := by
  induction after using List.reverseRecOn with
  | nil => rw [List.append_nil]
  | append_singleton after fragment ih =>
    rw [← List.append_assoc, appendAll_text]
    exact ih.trans (List.prefix_append _ _)

/-! ### The whole text -/

/-- The preview of the fragments is that of the text exactly when nothing is taken up again. -/
theorem appendAll_eq_iff (fragments : List String) :
    (appendAll fragments).1.toList = truncateUtf8 (joinTexts fragments).toList maxToolTextBytes ↔
      NoSplice fragments := by
  constructor
  · rintro h before fragment after rfl hpassed
    have hwhole := truncate_joinTexts (fragment :: after) hpassed
    -- the preview was there before this fragment, so this fragment adds nothing
    have hbefore := truncate_prefix_appendAll before
    have hgrows := appendAll_grows (before ++ [fragment]) after
    rw [List.append_assoc, List.singleton_append, h, hwhole, appendAll_text] at hgrows
    have hsame : (appendAll before).1.toList = truncateUtf8 (joinTexts before).toList maxToolTextBytes :=
      ((List.prefix_append _ _).trans hgrows).eq_of_length_le hbefore.length_le
    have hnil : truncateUtf8 fragment.toList
        (maxToolTextBytes - utf8Len (appendAll before).1.toList) = [] := by
      have hlen := hgrows.length_le
      rw [List.length_append, hsame] at hlen
      exact List.eq_nil_of_length_eq_zero (by rw [hsame]; omega)
    rw [spareBytes, hwhole, ← hsame]
    exact truncateUtf8_eq_nil.mp hnil
  · intro h
    -- along the fragments, by what was seen of them
    have hrun : ∀ before after, fragments = before ++ after →
        (appendAll before).1.toList = truncateUtf8 (joinTexts before).toList maxToolTextBytes := by
      intro before
      induction before using List.reverseRecOn with
      | nil => exact fun _ _ => rfl
      | append_singleton before fragment ih =>
        intro after hcut
        rw [List.append_assoc, List.singleton_append] at hcut
        rw [appendAll_text, joinTexts_snoc, truncateUtf8_append]
        by_cases hpassed : utf8Len (joinTexts before).toList ≤ maxToolTextBytes
        · rw [if_pos hpassed, appendAll_within hpassed]
        · rw [if_neg hpassed, ih _ hcut]
          have hspare := h before fragment after hcut (Nat.lt_of_not_le hpassed)
          rw [spareBytes, hcut, truncate_joinTexts _ (Nat.lt_of_not_le hpassed)] at hspare
          rw [truncateUtf8_eq_nil.mpr hspare, List.append_nil]
    exact hrun fragments [] (List.append_nil _).symm

theorem bounded_text (value : String) :
    (bounded value false).1.toList = truncateUtf8 value.toList maxToolTextBytes := by
  have hempty : "".toList = [] := rfl
  rw [bounded, appendBounded, String.toList_append, hempty, List.nil_append, String.toList_ofList]
  rfl

/-- The preview of a streamed text is that of the whole text exactly when no fragment behind the limit
    starts with a character that fits into what the whole text leaves free. -/
theorem preview_of_text_iff (fragments : List String) : WholePreview fragments ↔ NoSplice fragments := by
  rw [← appendAll_eq_iff]
  constructor
  · intro h
    rw [h.text, bounded_text]
  · intro h
    have htext : (appendAll fragments).1 = (bounded (joinTexts fragments) false).1 :=
      String.toList_injective (h.trans (bounded_text _).symm)
    refine ⟨htext, ?_, ?_⟩
    · rw [h]
      exact truncateUtf8_longest _ _
    · rw [appendAll_marked, ← not_iff_not, not_not, ← String.toList_inj, h, truncateUtf8_eq_self, not_lt]

/-! ### A character that does not fit -/

/-- One byte is left, the next character takes two, and a short one follows. -/
theorem splices_of_length {s : String} (hs : utf8Len s.toList = 16383) : ¬NoSplice [s, "é", "a"] := by
  intro h
  have hjoin : (joinTexts [s, "é", "a"]).toList = s.toList ++ ['é', 'a'] := by
    simp [joinTexts]
  have hbefore : (joinTexts [s, "é"]).toList = s.toList ++ ['é'] := by
    simp [joinTexts]
  have hspare : spareBytes [s, "é", "a"] = 1 := by
    rw [spareBytes, hjoin, truncateUtf8_append, hs, if_pos (by decide)]
    have hcut : truncateUtf8 ['é', 'a'] (maxToolTextBytes - 16383) = [] := by decide
    rw [hcut, List.append_nil, hs]
    rfl
  have hpassed : maxToolTextBytes < utf8Len (joinTexts [s, "é"]).toList := by
    rw [hbefore, utf8Len_append, hs]
    decide
  have := h [s, "é"] "a" [] rfl hpassed 'a' rfl
  rw [hspare] at this
  exact absurd this (by decide)

/-- A fragment that fills all but one byte, one of two bytes, and one that fits again. -/
def splicedFragments : List String := [String.ofList (List.replicate 16383 'x'), "é", "a"]

theorem preview_splices : ¬WholePreview splicedFragments := by
  intro h
  refine splices_of_length ?_ ((appendAll_eq_iff splicedFragments).mp ?_)
  · rw [String.toList_ofList, utf8Len_ascii, List.length_replicate]
    intro c hc
    rw [List.eq_of_mem_replicate hc]
    decide
  · rw [h.text, bounded_text]

end Llmtrace.Parsers
