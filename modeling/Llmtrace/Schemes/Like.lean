import Mathlib.Data.List.Infix

/-! The pattern language of `LIKE`. Two characters stand for something else, any sequence and any one
    character, and a third one in front of a special character takes its meaning away. A pattern in which
    it stands before anything else, or at the end, is refused.

    Escaping a text gives a pattern of that text alone, and between two wildcards it finds the texts that
    contain it. -/

namespace Llmtrace.Schemes

/-- A part of a pattern. -/
inductive LikeToken (α : Type) where
  | lit (c : α)
  | one
  | many

/-- The special characters. -/
structure Wildcards (α : Type) where
  many : α
  one : α
  escape : α

section
variable {α : Type} [DecidableEq α] (w : Wildcards α)

/-- A character that has to be escaped. -/
def Wildcards.isSpecial (c : α) : Bool := c = w.escape || c = w.many || c = w.one

/-! ### Meaning -/

/-- A character that is not escaped. -/
def Wildcards.token (c : α) : LikeToken α := if c = w.many then .many else if c = w.one then .one else .lit c

/-- The parts of a pattern; nothing when it ends in an escape. -/
def parsePattern : List α → Option (List (LikeToken α))
  | [] => some []
  | c :: rest =>
    if c = w.escape then
      match rest with
      | [] => none
      | d :: rest => if w.isSpecial d then (parsePattern rest).map (LikeToken.lit d :: ·) else none
    else (parsePattern rest).map (w.token c :: ·)

/-- The text matches the pattern. -/
def matchTokens : List (LikeToken α) → List α → Bool
  | [], text => text.isEmpty
  | .lit c :: tokens, d :: text => c = d && matchTokens tokens text
  | .one :: tokens, _ :: text => matchTokens tokens text
  | .many :: tokens, text => text.tails.any (matchTokens tokens)
  | _ :: _, [] => false

/-- `text LIKE pattern ESCAPE escape`; `none` is an error. -/
def like (text pattern : List α) : Option Bool :=
  (parsePattern w pattern).map fun tokens => matchTokens tokens text

/-! ### Literal texts -/

/-- A text with its special characters escaped. -/
def escapePattern (text : List α) : List α :=
  text.flatMap fun c => if w.isSpecial c then [w.escape, c] else [c]

variable {w}

theorem isSpecial_iff {c : α} : w.isSpecial c = true ↔ c = w.escape ∨ c = w.many ∨ c = w.one := by
  simp [Wildcards.isSpecial, or_assoc]

theorem parsePattern_escaped {c : α} (h : w.isSpecial c = true) (rest : List α) :
    parsePattern w (w.escape :: c :: rest) = (parsePattern w rest).map (LikeToken.lit c :: ·) := by
  rw [parsePattern.eq_def]
  simp only [if_true, h]

theorem parsePattern_plain {c : α} (h : c ≠ w.escape) (rest : List α) :
    parsePattern w (c :: rest) = (parsePattern w rest).map (w.token c :: ·) := by
  rw [parsePattern.eq_def]
  simp only [if_neg h]

/-- What is escaped is read as it was. -/
theorem parsePattern_escape (text rest : List α) : parsePattern w (escapePattern w text ++ rest) =
    (parsePattern w rest).map (text.map LikeToken.lit ++ ·) := by
  induction text with
  | nil => simp [escapePattern]
  | cons c text ih =>
    rw [escapePattern, List.flatMap_cons, List.append_assoc, ← escapePattern]
    by_cases hspecial : w.isSpecial c
    · rw [if_pos hspecial, List.cons_append, List.singleton_append, parsePattern_escaped hspecial, ih,
        Option.map_map]
      rfl
    · have hplain := hspecial
      rw [isSpecial_iff, not_or, not_or] at hplain
      obtain ⟨hescape, hmany, hone⟩ := hplain
      rw [if_neg hspecial, List.singleton_append, parsePattern_plain hescape, ih, Option.map_map,
        Wildcards.token, if_neg hmany, if_neg hone]
      rfl

theorem parsePattern_many (hmany : w.many ≠ w.escape) (rest : List α) :
    parsePattern w (w.many :: rest) = (parsePattern w rest).map (LikeToken.many :: ·) := by
  rw [parsePattern_plain hmany, Wildcards.token, if_pos rfl]

theorem matchTokens_lit (text : List α) (tokens : List (LikeToken α)) (s : List α) :
    matchTokens (text.map LikeToken.lit ++ tokens) s = true ↔
      ∃ rest, s = text ++ rest ∧ matchTokens tokens rest = true := by
  induction text generalizing s with
  | nil => simp
  | cons c text ih =>
    cases s with
    | nil => simp [matchTokens]
    | cons d s =>
      rw [List.map_cons, List.cons_append, matchTokens, Bool.and_eq_true, decide_eq_true_eq, ih]
      constructor
      · rintro ⟨rfl, rest, rfl, hrest⟩
        exact ⟨rest, rfl, hrest⟩
      · rintro ⟨rest, hs, hrest⟩
        cases hs
        exact ⟨rfl, rest, rfl, hrest⟩

theorem matchTokens_many (tokens : List (LikeToken α)) (s : List α) :
    matchTokens (.many :: tokens) s = true ↔ ∃ rest, rest <:+ s ∧ matchTokens tokens rest = true := by
  have hmatch : matchTokens (.many :: tokens) s = s.tails.any (matchTokens tokens) := by
    cases s <;> rfl
  rw [hmatch, List.any_eq_true]
  simp only [List.mem_tails]

/-- Between two wildcards an escaped text finds the texts that contain it. -/
theorem like_contains (hmany : w.many ≠ w.escape) (text s : List α) :
    like w s (w.many :: (escapePattern w text ++ [w.many])) = some (decide (text <:+: s)) := by
  have hend : parsePattern w [w.many] = some [LikeToken.many] := by
    rw [parsePattern_many hmany]
    rfl
  have hmatch : matchTokens (.many :: (text.map LikeToken.lit ++ [.many])) s = true ↔ text <:+: s := by
    have hany : ∀ rest : List α, matchTokens [.many] rest = true := fun rest =>
      (matchTokens_many [] rest).mpr ⟨[], List.nil_suffix, rfl⟩
    rw [matchTokens_many]
    simp only [matchTokens_lit, hany, and_true]
    constructor
    · rintro ⟨suffix, ⟨front, rfl⟩, rest, rfl⟩
      exact ⟨front, rest, by rw [List.append_assoc]⟩
    · rintro ⟨front, rest, rfl⟩
      exact ⟨text ++ rest, ⟨front, by rw [List.append_assoc]⟩, rest, rfl⟩
  rw [like, parsePattern_many hmany, parsePattern_escape, hend, Option.map_some, Option.map_some,
    Option.map_some]
  exact congrArg some (Bool.eq_iff_iff.mpr (hmatch.trans decide_eq_true_iff.symm))

/-! ### Folded texts -/

variable (w)

/-- `text ILIKE pattern ESCAPE escape`: text and pattern are folded first. -/
def ilike (fold : α → List α) (text pattern : List α) : Option Bool :=
  like w (text.flatMap fold) (pattern.flatMap fold)

/-- Special characters have no case, and no other character becomes one. -/
structure FoldsApart (fold : α → List α) : Prop where
  special {c : α} : w.isSpecial c = true → fold c = [c]
  plain {c d : α} : w.isSpecial c = false → d ∈ fold c → w.isSpecial d = false

variable {w} {fold : α → List α}

theorem escapePattern_eq_self {text : List α} (h : ∀ c ∈ text, w.isSpecial c = false) :
    escapePattern w text = text := by
  induction text with
  | nil => rfl
  | cons c text ih =>
    have hc : w.isSpecial c = false := h c List.mem_cons_self
    rw [escapePattern, List.flatMap_cons, ← escapePattern, ih fun d hd => h d (List.mem_cons_of_mem c hd),
      if_neg (by rw [hc]; exact Bool.false_ne_true), List.singleton_append]

theorem escapePattern_append (text rest : List α) :
    escapePattern w (text ++ rest) = escapePattern w text ++ escapePattern w rest :=
  List.flatMap_append

/-- To escape and to fold can be done in either order. -/
theorem FoldsApart.escapePattern (h : FoldsApart w fold) (text : List α) :
    (escapePattern w text).flatMap fold = escapePattern w (text.flatMap fold) := by
  have hescape : fold w.escape = [w.escape] := h.special (isSpecial_iff.mpr (Or.inl rfl))
  induction text with
  | nil => rfl
  | cons c text ih =>
    rw [Schemes.escapePattern, List.flatMap_cons, ← Schemes.escapePattern, List.flatMap_append, ih,
      List.flatMap_cons, escapePattern_append]
    refine congrArg (· ++ _) ?_
    by_cases hc : w.isSpecial c = true
    · rw [if_pos hc, List.flatMap_cons, List.flatMap_singleton, hescape, h.special hc]
      simp [Schemes.escapePattern, hc]
    · rw [if_neg hc, List.flatMap_singleton, escapePattern_eq_self]
      exact fun d hd => h.plain (Bool.not_eq_true _ ▸ hc) hd

theorem ilike_contains (hmany : w.many ≠ w.escape) (h : FoldsApart w fold) (text s : List α) :
    ilike w fold s (w.many :: (escapePattern w text ++ [w.many])) =
      some (decide (text.flatMap fold <:+: s.flatMap fold)) := by
  have hfold : fold w.many = [w.many] := h.special (isSpecial_iff.mpr (Or.inr (Or.inl rfl)))
  rw [ilike, List.flatMap_cons, List.flatMap_append, List.flatMap_singleton, hfold, h.escapePattern,
    List.singleton_append, like_contains hmany]

end
end Llmtrace.Schemes
