import Llmtrace.Schemes.Word

/-! Text as the sequence of its characters, measured in bytes of UTF-8, and lists cut at separators. -/

namespace Llmtrace.Schemes

/-! ### Characters -/

/-- `char::is_whitespace`: the Unicode property White_Space. -/
def isWhitespace (c : Char) : Bool :=
  let n := c.toNat
  decide (9 ≤ n ∧ n ≤ 13) || n == 0x20 || n == 0x85 || n == 0xA0 || n == 0x1680 ||
    decide (0x2000 ≤ n ∧ n ≤ 0x200A) || n == 0x2028 || n == 0x2029 || n == 0x202F ||
    n == 0x205F || n == 0x3000

/-- `str::trim_matches` -/
def trimMatches (p : Char → Bool) (s : List Char) : List Char :=
  ((s.dropWhile p).reverse.dropWhile p).reverse

/-- `str::trim` -/
def trim (s : List Char) : List Char :=
  ((s.dropWhile isWhitespace).reverse.dropWhile isWhitespace).reverse

/-- `to_ascii_lowercase` -/
def toAsciiLowercase (s : List Char) : List Char :=
  s.map fun c => if 'A' ≤ c ∧ c ≤ 'Z' then Char.ofNat (c.toNat + 32) else c

/-- `str::split_once` -/
def splitOnce (sep : Char) : List Char → Option (List Char × List Char)
  | [] => none
  | c :: cs =>
    if c = sep then some ([], cs) else (splitOnce sep cs).map fun cut => (c :: cut.1, cut.2)

/-- `str::rsplit_once` -/
def rsplitOnce (sep : Char) (s : List Char) : Option (List Char × List Char) :=
  (splitOnce sep s.reverse).map fun cut => (cut.2.reverse, cut.1.reverse)

/-- `str::split_once` at a text. -/
def splitOnceText (sep : List Char) : List Char → Option (List Char × List Char)
  | [] => if sep.isEmpty then some ([], []) else none
  | c :: cs =>
    if sep.isPrefixOf (c :: cs) then some ([], (c :: cs).drop sep.length)
    else (splitOnceText sep cs).map fun cut => (c :: cut.1, cut.2)

/-- `str::contains` -/
def containsText (part s : List Char) : Bool := s.tails.any fun rest => part.isPrefixOf rest

/-- Text without white space stays as it is. -/
theorem trim_eq_self {s : List Char} (h : ∀ c ∈ s, isWhitespace c = false) : trim s = s := by
  have hdrop : ∀ t : List Char, (∀ c ∈ t, isWhitespace c = false) → t.dropWhile isWhitespace = t := by
    intro t ht
    cases t with
    | nil => rfl
    | cons c t => rw [List.dropWhile_cons, if_neg (by simp [ht c List.mem_cons_self])]
  rw [trim, hdrop s h, hdrop s.reverse fun c hc => h c (List.mem_reverse.mp hc), List.reverse_reverse]

/-- Lowercasing removes no white space. -/
theorem isWhitespace_of_lowercase {s : List Char}
    (h : ∀ c ∈ toAsciiLowercase s, isWhitespace c = false) : ∀ c ∈ s, isWhitespace c = false := by
  intro c hc
  have hlow := h _ (List.mem_map_of_mem hc)
  split at hlow
  · rename_i hup
    have hA : 65 ≤ c.toNat := hup.1
    have hZ : c.toNat ≤ 90 := hup.2
    simp only [isWhitespace, Bool.or_eq_false_iff, decide_eq_false_iff_not, beq_eq_false_iff_ne]
    omega
  · exact hlow

/-! ### Bytes -/

/-- The bytes of a text. -/
def utf8 (s : List Char) : Bytes := s.flatMap String.utf8EncodeChar

/-- The number of bytes of `s` in UTF-8. -/
def utf8Len (s : List Char) : ℕ := (s.map Char.utf8Size).sum

theorem utf8_injective : Function.Injective utf8 := by
  intro s t h
  have hbytes : s.utf8Encode = t.utf8Encode := congrArg List.toByteArray h
  exact String.ofList_injective (String.toByteArray_inj.mp hbytes)

/-- ASCII text has a byte for each character. -/
theorem utf8Len_ascii : ∀ {s : List Char}, (∀ c ∈ s, c.toNat < 128) → utf8Len s = s.length
  | [], _ => rfl
  | c :: cs, h => by
      have hc : c.utf8Size = 1 := by
        rw [Char.utf8Size_eq_one_iff, UInt32.le_iff_toNat_le]
        exact Nat.lt_succ_iff.mp (h c List.mem_cons_self)
      have ih := utf8Len_ascii fun d hd => h d (List.mem_cons_of_mem _ hd)
      rw [utf8Len] at ih ⊢
      rw [List.map_cons, List.sum_cons, hc, ih, List.length_cons]
      omega

/-- The longest beginning of `s` that takes at most `maxBytes` bytes in UTF-8. -/
def truncateUtf8 : List Char → ℕ → List Char
  | [], _ => []
  | c :: cs, maxBytes =>
    if c.utf8Size ≤ maxBytes then c :: truncateUtf8 cs (maxBytes - c.utf8Size) else []

theorem truncateUtf8_of_le : ∀ {s : List Char} {maxBytes : ℕ}, utf8Len s ≤ maxBytes →
    truncateUtf8 s maxBytes = s
  | [], _, _ => rfl
  | c :: cs, maxBytes, h => by
      rw [utf8Len, List.map_cons, List.sum_cons] at h
      rw [truncateUtf8, if_pos (by omega), truncateUtf8_of_le]
      rw [utf8Len]
      omega

theorem truncateUtf8_eq_self {s : List Char} {maxBytes : ℕ} :
    truncateUtf8 s maxBytes = s ↔ utf8Len s ≤ maxBytes := by
  refine ⟨fun h => ?_, truncateUtf8_of_le⟩
  induction s generalizing maxBytes with
  | nil => exact Nat.zero_le _
  | cons c cs ih =>
    rw [truncateUtf8] at h
    split at h
    · have := ih (List.cons.inj h).2
      rw [utf8Len, List.map_cons, List.sum_cons]
      rw [utf8Len] at this
      omega
    · cases h

theorem utf8Len_append (s t : List Char) : utf8Len (s ++ t) = utf8Len s + utf8Len t := by
  rw [utf8Len, List.map_append, List.sum_append, utf8Len, utf8Len]

theorem utf8Len_cons (c : Char) (s : List Char) : utf8Len (c :: s) = c.utf8Size + utf8Len s := by
  rw [utf8Len, List.map_cons, List.sum_cons, utf8Len]

theorem truncateUtf8_isPrefix : ∀ (s : List Char) (maxBytes : ℕ), truncateUtf8 s maxBytes <+: s
  | [], _ => List.prefix_rfl
  | c :: cs, maxBytes => by
      rw [truncateUtf8]
      split_ifs
      · exact List.prefix_cons_inj c |>.mpr (truncateUtf8_isPrefix cs _)
      · exact List.nil_prefix

theorem utf8Len_truncateUtf8_le : ∀ (s : List Char) (maxBytes : ℕ),
    utf8Len (truncateUtf8 s maxBytes) ≤ maxBytes
  | [], _ => Nat.zero_le _
  | c :: cs, maxBytes => by
      rw [truncateUtf8]
      split_ifs with h
      · have := utf8Len_truncateUtf8_le cs (maxBytes - c.utf8Size)
        rw [utf8Len_cons]
        omega
      · exact Nat.zero_le _

theorem utf8Len_truncateUtf8_lt {s : List Char} {maxBytes : ℕ} :
    utf8Len (truncateUtf8 s maxBytes) < utf8Len s ↔ maxBytes < utf8Len s := by
  constructor
  · intro h
    by_contra hle
    rw [truncateUtf8_of_le (Nat.le_of_not_lt hle)] at h
    exact lt_irrefl _ h
  · exact fun h => (utf8Len_truncateUtf8_le s maxBytes).trans_lt h

theorem truncateUtf8_eq_nil {s : List Char} {maxBytes : ℕ} :
    truncateUtf8 s maxBytes = [] ↔ ∀ c, s.head? = some c → maxBytes < c.utf8Size := by
  cases s with
  | nil => simp [truncateUtf8]
  | cons c cs =>
    rw [truncateUtf8]
    split_ifs with h
    · simp [h]
    · simp only [List.head?_cons, Option.some.injEq, true_iff]
      rintro _ rfl
      exact Nat.lt_of_not_le h

/-- The cut of a longer text: in its first part, or behind it with what is left of the budget. -/
theorem truncateUtf8_append (s t : List Char) (maxBytes : ℕ) : truncateUtf8 (s ++ t) maxBytes =
    if utf8Len s ≤ maxBytes then s ++ truncateUtf8 t (maxBytes - utf8Len s)
    else truncateUtf8 s maxBytes := by
  induction s generalizing maxBytes with
  | nil => rfl
  | cons c cs ih =>
    rw [List.cons_append, truncateUtf8, truncateUtf8, utf8Len_cons]
    by_cases hc : c.utf8Size ≤ maxBytes
    · rw [if_pos hc, if_pos hc, ih]
      by_cases hcs : utf8Len cs ≤ maxBytes - c.utf8Size
      · rw [if_pos hcs, if_pos (by omega), Nat.sub_sub, List.cons_append]
      · rw [if_neg hcs, if_neg (by omega)]
    · rw [if_neg hc, if_neg hc, if_neg (by omega)]

/-- `t` is the longest beginning of `s` that takes at most `maxBytes` bytes. -/
structure IsLongestPrefix (s : List Char) (maxBytes : ℕ) (t : List Char) : Prop where
  isPrefix : t <+: s
  fits : utf8Len t ≤ maxBytes
  longest : ∀ u, u <+: s → utf8Len u ≤ maxBytes → u <+: t

theorem truncateUtf8_longest (s : List Char) (maxBytes : ℕ) :
    IsLongestPrefix s maxBytes (truncateUtf8 s maxBytes) := by
  refine ⟨truncateUtf8_isPrefix s maxBytes, utf8Len_truncateUtf8_le s maxBytes, ?_⟩
  rintro u ⟨rest, rfl⟩ hu
  rw [truncateUtf8_append, if_pos hu]
  exact List.prefix_append _ _

theorem IsLongestPrefix.unique {s t u : List Char} {maxBytes : ℕ} (ht : IsLongestPrefix s maxBytes t)
    (hu : IsLongestPrefix s maxBytes u) : t = u :=
  (hu.longest t ht.isPrefix ht.fits).eq_of_length_le
    (ht.longest u hu.isPrefix hu.fits).length_le

/-! ### Cutting once -/

theorem splitOnce_eq_none {sep : Char} : ∀ {s : List Char}, splitOnce sep s = none ↔ sep ∉ s
  | [] => by simp [splitOnce]
  | c :: s => by
      rw [splitOnce, List.mem_cons, not_or, eq_comm (a := sep)]
      split
      · rename_i h
        simp [h]
      · rename_i h
        rw [Option.map_eq_none_iff, splitOnce_eq_none, and_iff_right h]

theorem splitOnce_append {sep : Char} (t : List Char) : ∀ {s : List Char}, sep ∉ s →
    splitOnce sep (s ++ sep :: t) = some (s, t)
  | [], _ => by rw [List.nil_append, splitOnce, if_pos rfl]
  | c :: s, h => by
      rw [List.mem_cons, not_or] at h
      rw [List.cons_append, splitOnce, if_neg (Ne.symm h.1), splitOnce_append t h.2, Option.map_some]

/-- The cut is at the first separator. -/
theorem splitOnce_eq_some {sep : Char} : ∀ {s a b : List Char}, splitOnce sep s = some (a, b) ↔
    s = a ++ sep :: b ∧ sep ∉ a := by
  refine fun {s a b} => ⟨fun h => ?_, fun ⟨hs, ha⟩ => hs ▸ splitOnce_append b ha⟩
  induction s generalizing a with
  | nil => cases h
  | cons c s ih =>
    rw [splitOnce] at h
    split at h
    · rename_i hc
      cases h
      exact ⟨by rw [hc, List.nil_append], List.not_mem_nil⟩
    · rename_i hc
      obtain ⟨⟨a', b'⟩, hcut, heq⟩ := Option.map_eq_some_iff.mp h
      cases heq
      obtain ⟨rfl, ha⟩ := ih hcut
      exact ⟨rfl, by simp [ha, Ne.symm hc]⟩

/-- The cut is at the last separator. -/
theorem rsplitOnce_eq_some {sep : Char} {s a b : List Char} : rsplitOnce sep s = some (a, b) ↔
    s = a ++ sep :: b ∧ sep ∉ b := by
  rw [rsplitOnce, Option.map_eq_some_iff]
  constructor
  · rintro ⟨⟨x, y⟩, hcut, heq⟩
    cases heq
    obtain ⟨hs, hx⟩ := splitOnce_eq_some.mp hcut
    have := congrArg List.reverse hs
    exact ⟨by simpa using this, by simpa using hx⟩
  · rintro ⟨rfl, hb⟩
    refine ⟨(b.reverse, a.reverse), splitOnce_eq_some.mpr ⟨by simp, by simpa using hb⟩, ?_⟩
    simp

/-- The part before the separator. -/
theorem notMem_before {sep : Char} (s : List Char) :
    sep ∉ ((splitOnce sep s).map Prod.fst).getD s := by
  induction s with
  | nil => exact List.not_mem_nil
  | cons c s ih =>
    rw [splitOnce]
    split
    · exact List.not_mem_nil
    · rename_i hc
      cases hs : splitOnce sep s with
      | none =>
        have hnot := splitOnce_eq_none.mp hs
        simp [hnot, Ne.symm hc]
      | some cut =>
        rw [hs] at ih
        simp only [Option.map_some, Option.getD_some] at ih ⊢
        rw [List.mem_cons, not_or]
        exact ⟨Ne.symm hc, ih⟩

theorem mem_splitOnce {sep c : Char} : ∀ {s a b : List Char}, splitOnce sep s = some (a, b) →
    c ∈ a ∨ c ∈ b → c ∈ s
  | d :: s, a, b, h, hc => by
      rw [splitOnce] at h
      split at h
      · cases h
        exact hc.elim (fun h => nomatch h) (List.mem_cons_of_mem _)
      · obtain ⟨⟨a', b'⟩, hcut, heq⟩ := Option.map_eq_some_iff.mp h
        cases heq
        rcases hc with hc | hc
        · rcases List.mem_cons.mp hc with rfl | hc
          · exact List.mem_cons_self
          · exact List.mem_cons_of_mem _ (mem_splitOnce hcut (.inl hc))
        · exact List.mem_cons_of_mem _ (mem_splitOnce hcut (.inr hc))

/-- What stands in front of a separator, or all of it. -/
theorem mem_before {sep c : Char} {s : List Char} (h : c ∈ ((splitOnce sep s).map Prod.fst).getD s) :
    c ∈ s := by
  cases hcut : splitOnce sep s with
  | none => rwa [hcut] at h
  | some cut =>
    rw [hcut] at h
    exact mem_splitOnce hcut (.inl h)

/-! ### Cutting at separators -/

section
variable {α : Type}

theorem intercalate_append {sep : List α} : ∀ {ls ms : List (List α)}, ls ≠ [] → ms ≠ [] →
    sep.intercalate (ls ++ ms) = sep.intercalate ls ++ (sep ++ sep.intercalate ms)
  | [], _, h, _ => absurd rfl h
  | [l], ms, _, hms => by
      rw [List.singleton_append, List.intercalate_cons_of_ne_nil hms, List.intercalate_singleton,
        List.append_assoc]
  | l :: l' :: ls, ms, _, hms => by
      rw [List.cons_append, List.intercalate_cons_of_ne_nil (by simp),
        List.intercalate_cons_of_ne_nil (by simp), intercalate_append (by simp) hms]
      simp only [List.append_assoc]

variable [BEq α] [LawfulBEq α] {a : α}

/-- The pieces of `p` begin the pieces of `q` when `p` is `q`, or begins it and a separator follows. -/
theorem splitOn_isPrefix {p q : List α} :
    p.splitOn a <+: q.splitOn a ↔ q = p ∨ p ++ [a] <+: q := by
  constructor
  · rintro ⟨rest, hrest⟩
    cases rest with
    | nil =>
      rw [List.append_nil] at hrest
      have hq : [a].intercalate (q.splitOn a) = q := List.intercalate_splitOn a
      rw [← hq, ← hrest, List.intercalate_splitOn]
      exact .inl rfl
    | cons r rest =>
      refine .inr ⟨[a].intercalate (r :: rest), ?_⟩
      have hq : [a].intercalate (q.splitOn a) = q := List.intercalate_splitOn a
      rw [← hrest, intercalate_append (List.splitOn_ne_nil _ _) (by simp),
        List.intercalate_splitOn] at hq
      rw [List.append_assoc, hq]
  · rintro (rfl | ⟨rest, rfl⟩)
    · exact List.prefix_rfl
    · rw [List.append_assoc, List.singleton_append, List.splitOn_append_cons_self]
      exact List.prefix_append _ _

/-- No piece holds the separator. -/
theorem notMem_of_mem_splitOn : ∀ {l s : List α}, s ∈ l.splitOn a → a ∉ s
  | [], s, h => by
      rw [List.splitOn_nil, List.mem_singleton] at h
      rw [h]
      exact List.not_mem_nil
  | x :: l, s, h => by
      rw [List.splitOn_cons_eq_if_modifyHead] at h
      split at h
      · rcases List.mem_cons.mp h with rfl | h
        · exact List.not_mem_nil
        · exact notMem_of_mem_splitOn h
      · rename_i hx
        obtain ⟨head, tail, hcut⟩ := List.exists_cons_of_ne_nil (List.splitOn_ne_nil a l)
        rw [hcut, List.modifyHead_cons] at h
        rcases List.mem_cons.mp h with rfl | h
        · have hhead : a ∉ head := notMem_of_mem_splitOn (hcut ▸ List.mem_cons_self)
          rw [List.mem_cons, not_or]
          exact ⟨fun heq => hx (by rw [heq]; exact beq_self_eq_true x), hhead⟩
        · exact notMem_of_mem_splitOn (hcut ▸ List.mem_cons_of_mem _ h)

/-- An element other than the separator lies in one of the pieces. -/
theorem mem_splitOn_pieces {x : α} {l : List α} (hx : x ≠ a) :
    x ∈ l ↔ ∃ s ∈ l.splitOn a, x ∈ s := by
  induction l with
  | nil => simp
  | cons y l ih =>
    rw [List.splitOn_cons_eq_if_modifyHead, List.mem_cons, ih]
    obtain ⟨head, tail, hcut⟩ := List.exists_cons_of_ne_nil (List.splitOn_ne_nil a l)
    split
    · rename_i hy
      have hne : x ≠ y := fun h => hx (h.trans (beq_iff_eq.mp hy))
      simp [hne]
    · rw [hcut, List.modifyHead_cons]
      simp [or_assoc]

theorem mem_intercalate {c : Char} {sep : List Char} : ∀ {pieces : List (List Char)},
    c ∈ sep.intercalate pieces → c ∈ sep ∨ ∃ piece ∈ pieces, c ∈ piece
  | [], h => by simp [List.intercalate] at h
  | [piece], h => .inr ⟨piece, List.mem_singleton_self piece, by simpa [List.intercalate] using h⟩
  | piece :: next :: pieces, h => by
      rw [List.intercalate, List.intersperse_cons_cons, List.flatten_cons, List.flatten_cons, List.mem_append,
        List.mem_append] at h
      rcases h with h | h | h
      · exact .inr ⟨piece, List.mem_cons_self, h⟩
      · exact .inl h
      · have hrest : c ∈ sep.intercalate (next :: pieces) := h
        rcases mem_intercalate hrest with h | ⟨p, hp, hc⟩
        · exact .inl h
        · exact .inr ⟨p, List.mem_cons_of_mem _ hp, hc⟩

end

end Llmtrace.Schemes
