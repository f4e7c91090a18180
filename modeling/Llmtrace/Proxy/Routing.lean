import Llmtrace.Schemes.Text

/-! Which paths the proxy forwards and captures (`routing.rs`, and the prefix lists of `config.rs`).

    A decision about a path must survive what the URL library or the upstream does to the path later:
    dot segments are resolved, backslashes become slashes, escapes are decoded. `unambiguous_path`
    refuses every path that such a step would change.

    A path is the byte string of its UTF-8; the separators, dots and escapes are ASCII. -/

namespace Llmtrace.Proxy
open Schemes

/-- `/` -/
abbrev slash : UInt8 := 0x2F
/-- `\` -/
abbrev backslash : UInt8 := 0x5C
/-- `.` -/
abbrev dot : UInt8 := 0x2E
/-- `%` -/
abbrev percent : UInt8 := 0x25

/-! ### `unambiguous_path` -/

/-- `u8::to_ascii_lowercase` -/
def toLower (b : UInt8) : UInt8 := if 0x41 ≤ b ∧ b ≤ 0x5A then b + 32 else b

/-- `eq_ignore_ascii_case` with `"%2f"` or `"%5c"`. -/
def encodedSeparatorAt (a b c : UInt8) : Bool :=
  a == percent && (b == 0x32 && toLower c == 0x66 || b == 0x35 && toLower c == 0x63)

/-- Some window of three bytes is an encoded separator. -/
def encodedSeparator : Bytes → Bool
  | a :: b :: c :: rest => encodedSeparatorAt a b c || encodedSeparator (b :: c :: rest)
  | _ => false

/-- The scan of one segment, with `dots` dots behind it: is the segment ambiguous? -/
def ambiguousSegment : ℕ → Bytes → Bool
  | dots, [] => dots == 1 || dots == 2
  | dots, b :: rest =>
    if b = dot then ambiguousSegment (dots + 1) rest
    else
      match rest with
      | c :: d :: rest' =>
        if b = percent ∧ c = 0x32 ∧ toLower d = 0x65 then ambiguousSegment (dots + 1) rest'
        else encodedSeparator (b :: rest)
      | _ => encodedSeparator (b :: rest)

/-- `unambiguous_path` -/
def unambiguousPath (path : Bytes) : Bool :=
  !path.contains backslash && !(path.splitOn slash).any (ambiguousSegment 0)

/-! ### What a path means to others -/

/-- The value of a hexadecimal digit. -/
def hexValue (b : UInt8) : Option ℕ :=
  let n := b.toNat
  if 0x30 ≤ n ∧ n ≤ 0x39 then some (n - 0x30)
  else if 0x41 ≤ n ∧ n ≤ 0x46 then some (n - 0x37)
  else if 0x61 ≤ n ∧ n ≤ 0x66 then some (n - 0x57)
  else none

/-- The byte of a well-formed escape. -/
def escapedByte (a b c : UInt8) : Option UInt8 :=
  if a = percent then
    match hexValue b, hexValue c with
    | some high, some low => some (UInt8.ofNat (16 * high + low))
    | _, _ => none
  else none

/-- Percent-decoding, once; what is no escape stays. -/
def percentDecode : Bytes → Bytes
  | a :: b :: c :: rest =>
    match escapedByte a b c with
    | some decoded => decoded :: percentDecode rest
    | none => a :: percentDecode (b :: c :: rest)
  | a :: rest => a :: percentDecode rest
  | [] => []

/-- A slash of either kind. -/
def isSeparator (b : UInt8) : Bool := b == slash || b == backslash

/-- The segments that a path has for one who decodes it and takes both separators for one. -/
def decodedSegments (path : Bytes) : List Bytes := (percentDecode path).splitOnP isSeparator

/-- `.` or an encoding of it, at the front of a segment: what is left. -/
def stripDot : Bytes → Option Bytes
  | b :: rest =>
    if b = dot then some rest
    else
      match rest with
      | c :: d :: rest' => if b = percent ∧ c = 0x32 ∧ toLower d = 0x65 then some rest' else none
      | _ => none
  | [] => none

/-- A single-dot URL path segment of the URL standard. -/
def singleDot (segment : Bytes) : Bool := stripDot segment == some []

/-- A double-dot URL path segment of the URL standard. -/
def doubleDot (segment : Bytes) : Bool := (stripDot segment).bind stripDot == some []

/-- The path state of the URL standard: dot segments are resolved against the segments before. -/
def resolveDots (done : List Bytes) : List Bytes → List Bytes
  | [] => done
  | [last] =>
    if doubleDot last then done.dropLast ++ [[]]
    else if singleDot last then done ++ [[]]
    else done ++ [last]
  | segment :: rest =>
    if doubleDot segment then resolveDots done.dropLast rest
    else if singleDot segment then resolveDots done rest
    else resolveDots (done ++ [segment]) rest

/-- The normal form of a path under the URL standard, for a special scheme: both separators count,
    and dot segments go. The path `*` of a request has no slash in front. -/
def normalizePath : Bytes → Bytes
  | [] => []
  | b :: rest =>
    if isSeparator b then slash :: [slash].intercalate (resolveDots [] (rest.splitOnP isSeparator))
    else [slash].intercalate (resolveDots [] ((b :: rest).splitOnP isSeparator))

/-! ### Prefix lists -/

/-- Why `parse_proxy_path_prefix` refuses an entry; each names the field. -/
inductive PrefixError where
  | empty (field : String)
  | noLeadingSlash (field : String) (value : List Char)
  | notPlain (field : String)

/-- `normalize_allowlist_path` -/
def normalizeAllowlistPath (path : List Char) : List Char :=
  if path = [] ∨ path = ['/'] then ['/'] else '/' :: trimMatches (· == '/') path

/-- `parse_proxy_path_prefix` -/
def parseProxyPathPrefix (field : String) (value : List Char) : Except PrefixError (List Char) :=
  let value := trim value
  if value.isEmpty then .error (.empty field)
  else if value.head? ≠ some '/' then .error (.noLeadingSlash field value)
  else if (value.splitOn '/').any (fun segment => segment == ['.', '.'] || segment == ['.']) ||
      value.any (fun c => c == '?' || c == '#' || c == '%' || c == '\\') ||
      value.any isWhitespace then .error (.notPlain field)
  else .ok (normalizeAllowlistPath value)

/-- The prefixes as byte strings, to compare with paths. -/
structure PathPrefixAllowlist where
  prefixes : List Bytes := []

/-- The entries from `index` on. -/
def parsePrefixes (field : String) : ℕ → List (List Char) → Except PrefixError (List Bytes)
  | _, [] => .ok []
  | index, entry :: entries => do
    let parsed ← parseProxyPathPrefix s!"{field}[{index}]" entry
    let rest ← parsePrefixes field (index + 1) entries
    return utf8 parsed :: rest

/-- `PathPrefixAllowlist::parse` -/
def PathPrefixAllowlist.parse (entries : List (List Char)) (field : String) :
    Except PrefixError PathPrefixAllowlist := do
  let prefixes ← parsePrefixes field 0 entries
  return ⟨prefixes⟩

/-- `path.strip_prefix(head)` -/
def stripHead (head path : Bytes) : Option Bytes :=
  if head.isPrefixOf path then some (path.drop head.length) else none

/-- `path_prefix_matches` -/
def pathPrefixMatches (head path : Bytes) : Bool :=
  if head = [slash] then true
  else path == head || (stripHead head path).any fun suffix => suffix.head? == some slash

/-- `PathPrefixAllowlist::allows` -/
def PathPrefixAllowlist.allows (list : PathPrefixAllowlist) (path : Bytes) : Bool :=
  list.prefixes.any fun head => pathPrefixMatches head path

/-- `CapturePolicy` -/
structure CapturePolicy where
  prefixes : PathPrefixAllowlist
  inferenceMethodsOnly : Bool

/-- `CapturePolicy::captures` -/
def CapturePolicy.captures (policy : CapturePolicy) (method : String) (path : Bytes)
    (websocket : Bool) : Bool :=
  policy.prefixes.allows path && (!policy.inferenceMethodsOnly || method == "POST" || websocket)

/-! ### Escapes -/

/-- A hexadecimal letter and its value. -/
theorem hexValue_letter {b l : UInt8} (hl : 0x61 ≤ l.toNat ∧ l.toNat ≤ 0x66) :
    hexValue b = some (l.toNat - 0x57) ↔ toLower b = l := by
  have hb := b.toNat_lt
  simp only [hexValue, toLower, ← UInt8.toNat_inj, UInt8.le_iff_toNat_le, UInt8.reduceToNat]
  by_cases hup : 0x41 ≤ b.toNat ∧ b.toNat ≤ 0x5A
  · have hsum : (b + 32).toNat = b.toNat + 32 := by
      rw [UInt8.toNat_add]
      simp only [UInt8.reduceToNat]
      omega
    rw [if_pos hup, if_neg (by omega), hsum]
    grind
  · rw [if_neg hup]
    grind

theorem hexValue_digit {b d : UInt8} (hd : 0x30 ≤ d.toNat ∧ d.toNat ≤ 0x39) :
    hexValue b = some (d.toNat - 0x30) ↔ b = d := by
  rw [← UInt8.toNat_inj]
  unfold hexValue
  grind

theorem hexValue_bounds {b : UInt8} {v : ℕ} (h : hexValue b = some v) :
    v < 16 ∧ b ≠ percent ∧ b ≠ slash ∧ b ≠ backslash := by
  simp only [ne_eq, ← UInt8.toNat_inj]
  unfold hexValue at h
  grind

theorem escapedByte_eq_some {a b c d : UInt8} (h : escapedByte a b c = some d) :
    a = percent ∧ ∃ high low, hexValue b = some high ∧ hexValue c = some low ∧
      d.toNat = 16 * high + low := by
  unfold escapedByte at h
  split at h
  · rename_i ha
    refine ⟨ha, ?_⟩
    split at h
    · rename_i high low hhigh hlow
      cases h
      have := (hexValue_bounds hhigh).1
      have := (hexValue_bounds hlow).1
      refine ⟨high, low, hhigh, hlow, ?_⟩
      rw [UInt8.toNat_ofNat']
      omega
    · cases h
  · cases h

/-- Which byte an escape of a digit and a letter stands for. -/
theorem escapedByte_code (hd ld : UInt8) {a b c d : UInt8} (h : escapedByte a b c = some d)
    (hhd : 0x30 ≤ hd.toNat ∧ hd.toNat ≤ 0x39) (hld : 0x61 ≤ ld.toNat ∧ ld.toNat ≤ 0x66) :
    d.toNat = 16 * (hd.toNat - 0x30) + (ld.toNat - 0x57) ↔ b = hd ∧ toLower c = ld := by
  obtain ⟨-, high, low, hhigh, hlow, hd⟩ := escapedByte_eq_some h
  have := (hexValue_bounds hlow).1
  rw [← hexValue_digit hhd, ← hexValue_letter hld, hhigh, hlow, hd]
  simp only [Option.some.injEq]
  omega

theorem escapedByte_ne_none (hd ld : UInt8) {b c : UInt8} (hhd : 0x30 ≤ hd.toNat ∧ hd.toNat ≤ 0x39)
    (hld : 0x61 ≤ ld.toNat ∧ ld.toNat ≤ 0x66) (hb : b = hd) (hc : toLower c = ld) :
    escapedByte percent b c ≠ none := by
  rw [escapedByte, if_pos rfl, (hexValue_digit hhd).mpr hb, (hexValue_letter hld).mpr hc]
  exact Option.some_ne_none _

theorem escapedByte_dot {a b c d : UInt8} (h : escapedByte a b c = some d) :
    d = dot ↔ a = percent ∧ b = 0x32 ∧ toLower c = 0x65 := by
  have hcode := escapedByte_code 0x32 0x65 h (by decide) (by decide)
  rw [and_iff_right (escapedByte_eq_some h).1, ← hcode, ← UInt8.toNat_inj]
  rfl

/-- An escape is an encoded separator when it stands for a separator. -/
theorem escapedByte_separator {a b c d : UInt8} (h : escapedByte a b c = some d) :
    isSeparator d = encodedSeparatorAt a b c := by
  have h2f := escapedByte_code 0x32 0x66 h (by decide) (by decide)
  have h5c := escapedByte_code 0x35 0x63 h (by decide) (by decide)
  have hslash : d = slash ↔ b = 0x32 ∧ toLower c = 0x66 := by
    rw [← h2f, ← UInt8.toNat_inj]
    rfl
  have hback : d = backslash ↔ b = 0x35 ∧ toLower c = 0x63 := by
    rw [← h5c, ← UInt8.toNat_inj]
    rfl
  rw [Bool.eq_iff_iff]
  simp only [isSeparator, encodedSeparatorAt, (escapedByte_eq_some h).1, Bool.or_eq_true,
    Bool.and_eq_true, beq_iff_eq, true_and, hslash, hback]

/-- What is no escape is neither an encoded separator nor an encoded dot. -/
theorem escapedByte_none {a b c : UInt8} (h : escapedByte a b c = none) :
    encodedSeparatorAt a b c = false ∧ ¬(a = percent ∧ b = 0x32 ∧ toLower c = 0x65) := by
  refine ⟨?_, ?_⟩
  · rw [Bool.eq_false_iff]
    intro hsep
    simp only [encodedSeparatorAt, Bool.or_eq_true, Bool.and_eq_true, beq_iff_eq] at hsep
    obtain ⟨rfl, ⟨hb, hc⟩ | ⟨hb, hc⟩⟩ := hsep
    · exact escapedByte_ne_none 0x32 0x66 (by decide) (by decide) hb hc h
    · exact escapedByte_ne_none 0x35 0x63 (by decide) (by decide) hb hc h
  · rintro ⟨rfl, hb, hc⟩
    exact escapedByte_ne_none 0x32 0x65 (by decide) (by decide) hb hc h

/-- No encoded separator starts at a byte other than `%`. -/
theorem encodedSeparator_cons {a : UInt8} (ha : a ≠ percent) (rest : Bytes) :
    encodedSeparator (a :: rest) = encodedSeparator rest := by
  match rest with
  | [] | [_] => rfl
  | b :: c :: rest =>
    rw [encodedSeparator, encodedSeparatorAt, beq_eq_false_iff_ne.mpr ha, Bool.false_and,
      Bool.false_or]

/-- The windows find what decoding turns into a separator. -/
theorem encodedSeparator_eq (s : Bytes) (hs : ∀ b ∈ s, isSeparator b = false) :
    encodedSeparator s = (percentDecode s).any isSeparator := by
  fun_induction percentDecode s with
  | case1 a b c rest d hd ih =>
    obtain ⟨-, high, low, hb, hc, -⟩ := escapedByte_eq_some hd
    rw [encodedSeparator, encodedSeparator_cons (hexValue_bounds hb).2.1,
      encodedSeparator_cons (hexValue_bounds hc).2.1, List.any_cons, escapedByte_separator hd,
      ih fun x hx => hs x (by simp [hx])]
  | case2 a b c rest hd ih =>
    rw [encodedSeparator, (escapedByte_none hd).1, Bool.false_or, List.any_cons,
      hs a List.mem_cons_self, Bool.false_or, ih fun x hx => hs x (List.mem_cons_of_mem _ hx)]
  | case3 a rest hshort ih =>
    rw [List.any_cons, hs a List.mem_cons_self, Bool.false_or,
      ← ih fun x hx => hs x (List.mem_cons_of_mem _ hx)]
    match rest with
    | [] | [_] => rfl
    | b :: c :: rest => exact absurd rfl (hshort b c rest)
  | case4 => rfl

theorem percentDecode_cons {a : UInt8} {rest : Bytes}
    (h : ∀ b c rest', rest = b :: c :: rest' → escapedByte a b c = none) :
    percentDecode (a :: rest) = a :: percentDecode rest := by
  match rest with
  | [] | [_] => rfl
  | b :: c :: rest => rw [percentDecode, h b c rest rfl]

theorem percentDecode_cons_of_ne {a : UInt8} (ha : a ≠ percent) (rest : Bytes) :
    percentDecode (a :: rest) = a :: percentDecode rest :=
  percentDecode_cons fun b c _ _ => by rw [escapedByte, if_neg ha]

theorem hexValue_slash : hexValue slash = none := rfl

/-- A slash is part of no escape: the pieces on its two sides are decoded apart. -/
theorem percentDecode_slash (s t : Bytes) :
    percentDecode (s ++ slash :: t) = percentDecode s ++ slash :: percentDecode t := by
  fun_induction percentDecode s with
  | case1 a b c rest d hd ih =>
    rw [List.cons_append, List.cons_append, List.cons_append, percentDecode, hd]
    exact congrArg (d :: ·) ih
  | case2 a b c rest hd ih =>
    rw [List.cons_append, List.cons_append, List.cons_append, percentDecode, hd]
    exact congrArg (a :: ·) ih
  | case3 a rest hshort ih =>
    rw [List.cons_append, percentDecode_cons, ih]
    · rfl
    intro b c rest' heq
    match rest with
    | [] =>
      cases heq
      simp only [escapedByte, hexValue_slash, ite_self]
    | [_] =>
      cases heq
      unfold escapedByte
      split
      · split
        · rename_i hlow
          cases hlow
        · rfl
      · rfl
    | b :: c :: rest => exact absurd rfl (hshort b c rest)
  | case4 => exact percentDecode_cons_of_ne (by decide) t

/-- A backslash survives decoding. -/
theorem mem_percentDecode {s : Bytes} (h : backslash ∈ s) : backslash ∈ percentDecode s := by
  fun_induction percentDecode s with
  | case1 a b c rest d hd ih =>
    obtain ⟨rfl, high, low, hb, hc, -⟩ := escapedByte_eq_some hd
    rw [List.mem_cons, List.mem_cons, List.mem_cons] at h
    rcases h with h | h | h | h
    · cases h
    · exact absurd h.symm (hexValue_bounds hb).2.2.2
    · exact absurd h.symm (hexValue_bounds hc).2.2.2
    · exact List.mem_cons_of_mem _ (ih h)
  | case2 a b c rest hd ih =>
    rcases List.mem_cons.mp h with rfl | h
    · exact List.mem_cons_self
    · exact List.mem_cons_of_mem _ (ih h)
  | case3 a rest hshort ih =>
    rcases List.mem_cons.mp h with rfl | h
    · exact List.mem_cons_self
    · exact List.mem_cons_of_mem _ (ih h)
  | case4 => exact h

/-! ### The scanner -/

/-- The scanner in terms of the decoded segment: a run of dots counts them, anything else is searched
    for separators. -/
theorem ambiguousSegment_eq (dots : ℕ) (s : Bytes) (hs : ∀ b ∈ s, isSeparator b = false) :
    ambiguousSegment dots s =
      if (percentDecode s).all (· == dot) then
        dots + (percentDecode s).length == 1 || dots + (percentDecode s).length == 2
      else (percentDecode s).any isSeparator := by
  fun_induction ambiguousSegment dots s with
  | case1 dots => rfl
  | case2 dots rest ih =>
    rw [ih fun x hx => hs x (List.mem_cons_of_mem _ hx), percentDecode_cons_of_ne (by decide)]
    simp only [List.all_cons, beq_self_eq_true, Bool.true_and, List.length_cons, List.any_cons,
      hs dot List.mem_cons_self, Bool.false_or, Nat.add_assoc, Nat.add_comm 1]
  | case3 dots b hb c d rest hdot ih =>
    obtain ⟨rfl, rfl, hd⟩ := hdot
    obtain ⟨e, he⟩ := Option.ne_none_iff_exists'.mp
      (escapedByte_ne_none 0x32 0x65 (by decide) (by decide) rfl hd)
    have hedot : e = dot := (escapedByte_dot he).mpr ⟨rfl, rfl, hd⟩
    subst hedot
    rw [ih fun x hx => hs x (by simp [hx]), percentDecode, he]
    simp only [List.all_cons, beq_self_eq_true, Bool.true_and, List.length_cons, List.any_cons,
      show isSeparator dot = false from rfl, Bool.false_or, Nat.add_assoc, Nat.add_comm 1]
  | case4 dots b hb c d rest hdot =>
    rw [encodedSeparator_eq _ hs, if_neg]
    rw [percentDecode]
    split
    · rename_i e he
      have hne : e ≠ dot := fun heq => hdot ((escapedByte_dot he).mp heq)
      simp [hne]
    · simp [hb]
  | case5 dots b rest hb hshort =>
    rw [encodedSeparator_eq _ hs, if_neg]
    rw [percentDecode_cons fun c d rest' heq => absurd heq (hshort c d rest')]
    simp [hb]

theorem length_splitOnP (p : UInt8 → Bool) : ∀ s : Bytes, (s.splitOnP p).length = s.countP p + 1
  | [] => rfl
  | b :: s => by
      rw [List.splitOnP_cons_eq_if_modifyHead, List.countP_cons]
      split
      · rw [List.length_cons, length_splitOnP p s]
      · rw [List.length_modifyHead, length_splitOnP p s]

theorem decodedSegments_length {s : Bytes} :
    (decodedSegments s).length = 1 ↔ ∀ b ∈ percentDecode s, isSeparator b = false := by
  rw [decodedSegments, length_splitOnP, Nat.add_eq_right, List.countP_eq_zero]
  simp only [Bool.not_eq_true]

/-- One segment: the scanner accepts it when it stays one segment and is no dot segment. -/
theorem unambiguous_segment {s : Bytes} (hs : slash ∉ s) :
    backslash ∉ s ∧ ambiguousSegment 0 s = false ↔
      (decodedSegments s).length = 1 ∧
        ∀ segment ∈ decodedSegments s, segment ≠ [dot] ∧ segment ≠ [dot, dot] := by
  by_cases hback : backslash ∈ s
  · refine iff_of_false (fun h => h.1 hback) fun h => ?_
    have := decodedSegments_length.mp h.1 backslash (mem_percentDecode hback)
    cases this
  have hsep : ∀ b ∈ s, isSeparator b = false := by
    intro b hb
    simp only [isSeparator, Bool.or_eq_false_iff, beq_eq_false_iff_ne]
    exact ⟨fun h => hs (h ▸ hb), fun h => hback (h ▸ hb)⟩
  rw [and_iff_right hback, ambiguousSegment_eq 0 s hsep, decodedSegments_length]
  by_cases hclean : ∀ b ∈ percentDecode s, isSeparator b = false
  · have hany : (percentDecode s).any isSeparator = false := by simpa using hclean
    rw [and_iff_right hclean, decodedSegments, List.splitOnP_eq_singleton hclean, hany]
    simp only [List.mem_singleton, forall_eq, Nat.zero_add]
    match percentDecode s with
    | [] => simp
    | [a] => by_cases ha : a = dot <;> simp [ha]
    | [a, b] => by_cases ha : a = dot <;> by_cases hb : b = dot <;> simp [ha, hb]
    | a :: b :: c :: rest => simp
  · refine iff_of_false ?_ fun h => hclean h.1
    simp only [not_forall, Bool.not_eq_false] at hclean
    obtain ⟨b, hb, hbsep⟩ := hclean
    have hdots : ¬(percentDecode s).all (· == dot) = true := by
      intro hall
      have := List.all_eq_true.mp hall b hb
      rw [beq_iff_eq.mp this] at hbsep
      cases hbsep
    rw [if_neg hdots, List.any_eq_true.mpr ⟨b, hb, hbsep⟩]
    exact Bool.noConfusion

/-! ### Whole paths -/

/-- The decoded segments of a path are those of its raw segments, in order. -/
theorem decodedSegments_intercalate : ∀ segments : List Bytes, segments ≠ [] →
    decodedSegments ([slash].intercalate segments) = segments.flatMap decodedSegments
  | [], h => absurd rfl h
  | [s], _ => by rw [List.intercalate_singleton, List.flatMap_singleton]
  | s :: s' :: segments, _ => by
      rw [List.intercalate_cons_of_ne_nil (by simp), List.append_assoc, List.singleton_append,
        List.flatMap_cons, ← decodedSegments_intercalate (s' :: segments) (by simp)]
      rw [decodedSegments, percentDecode_slash, List.splitOnP_append_cons _ _ rfl]
      rfl

theorem decodedSegments_eq (path : Bytes) :
    decodedSegments path = (path.splitOn slash).flatMap decodedSegments := by
  rw [← decodedSegments_intercalate _ (List.splitOn_ne_nil _ _), List.intercalate_splitOn]

/-- When each of `f`'s lists has an element, they are as many as their elements when each has one. -/
theorem length_flatMap_eq {f : Bytes → List Bytes} (hf : ∀ s, f s ≠ []) :
    ∀ segments : List Bytes,
      segments.length ≤ (segments.flatMap f).length ∧
        ((segments.flatMap f).length = segments.length ↔ ∀ s ∈ segments, (f s).length = 1)
  | [] => by simp
  | s :: segments => by
      obtain ⟨hle, hiff⟩ := length_flatMap_eq hf segments
      have hpos : 0 < (f s).length := List.length_pos_iff.mpr (hf s)
      rw [List.flatMap_cons, List.length_append, List.length_cons, List.forall_mem_cons, ← hiff]
      omega

theorem unambiguousPath_eq {path : Bytes} :
    unambiguousPath path = true ↔
      ∀ s ∈ path.splitOn slash, backslash ∉ s ∧ ambiguousSegment 0 s = false := by
  rw [unambiguousPath, Bool.and_eq_true, Bool.not_eq_true', Bool.not_eq_true', Bool.eq_false_iff,
    ne_eq, List.contains_iff_mem, mem_splitOn_pieces (a := slash) (by decide), List.any_eq_false]
  simp only [Bool.not_eq_true]
  exact ⟨fun h s hs => ⟨fun hb => h.1 ⟨s, hs, hb⟩, h.2 s hs⟩,
    fun h => ⟨fun ⟨s, hs, hb⟩ => (h s hs).1 hb, fun s hs => (h s hs).2⟩⟩

/-- The scan accepts a path when decoding keeps its segments and makes none a dot segment. -/
theorem unambiguousPath_iff {path : Bytes} :
    unambiguousPath path = true ↔
      (decodedSegments path).length = (path.splitOn slash).length ∧
        ∀ segment ∈ decodedSegments path, segment ≠ [dot] ∧ segment ≠ [dot, dot] := by
  rw [unambiguousPath_eq, decodedSegments_eq,
    (length_flatMap_eq (f := decodedSegments) (fun s => List.splitOnP_ne_nil _ _) _).2]
  have hsegment : ∀ s ∈ path.splitOn slash, _ :=
    fun s hs => unambiguous_segment (notMem_of_mem_splitOn hs)
  simp only [List.mem_flatMap, forall_exists_index, and_imp]
  exact ⟨fun h => ⟨fun s hs => ((hsegment s hs).mp (h s hs)).1,
      fun segment s hs hseg => ((hsegment s hs).mp (h s hs)).2 segment hseg⟩,
    fun h s hs => (hsegment s hs).mpr ⟨h.1 s hs, fun segment hseg => h.2 segment s hs hseg⟩⟩

/-! ### Normalisation -/

theorem stripDot_eq_some {s rest : Bytes} (h : stripDot s = some rest) :
    s = dot :: rest ∨ ∃ d, toLower d = 0x65 ∧ s = percent :: 0x32 :: d :: rest := by
  fun_cases stripDot s with
  | case1 rest' =>
    cases (show some rest' = some rest from h)
    exact .inl rfl
  | case2 b hb c d rest' hdot =>
    simp only [stripDot, if_neg hb, if_pos hdot] at h
    cases h
    obtain ⟨rfl, rfl, hd⟩ := hdot
    exact .inr ⟨d, hd, rfl⟩
  | case3 b hb c d rest' hdot =>
    simp only [stripDot, if_neg hb, if_neg hdot] at h
    cases h
  | case4 b rest' hb hshort =>
    rw [stripDot, if_neg hb] at h
    cases h
    exact hshort
  | case5 => cases h

theorem ambiguousSegment_stripDot {s rest : Bytes} (h : stripDot s = some rest) (dots : ℕ) :
    ambiguousSegment dots s = ambiguousSegment (dots + 1) rest := by
  rw [ambiguousSegment.eq_def]
  obtain rfl | ⟨d, hd, rfl⟩ := stripDot_eq_some h
  · exact if_pos rfl
  · have hdot : percent ≠ dot := by decide
    simp only [if_neg hdot, hd, and_self, if_true]

/-- The dot segments of the URL standard are refused. -/
theorem not_dot_of_unambiguous {s : Bytes} (h : ambiguousSegment 0 s = false) :
    singleDot s = false ∧ doubleDot s = false := by
  rw [Bool.eq_false_iff, Bool.eq_false_iff]
  refine ⟨fun hdot => ?_, fun hdot => ?_⟩
  · rw [ambiguousSegment_stripDot (beq_iff_eq.mp hdot)] at h
    cases h
  · obtain ⟨rest, hrest, hend⟩ := Option.bind_eq_some_iff.mp (beq_iff_eq.mp hdot)
    rw [ambiguousSegment_stripDot hrest, ambiguousSegment_stripDot hend] at h
    cases h

theorem resolveDots_id : ∀ (segments done : List Bytes),
    (∀ s ∈ segments, singleDot s = false ∧ doubleDot s = false) →
    resolveDots done segments = done ++ segments
  | [], done, _ => by rw [resolveDots, List.append_nil]
  | [s], done, h => by
      obtain ⟨hsingle, hdouble⟩ := h s List.mem_cons_self
      simp only [resolveDots, hsingle, hdouble, Bool.false_eq_true, if_false]
  | s :: s' :: segments, done, h => by
      obtain ⟨hsingle, hdouble⟩ := h s List.mem_cons_self
      simp only [resolveDots, hsingle, hdouble, Bool.false_eq_true, if_false]
      rw [resolveDots_id (s' :: segments) _ fun x hx => h x (List.mem_cons_of_mem _ hx),
        List.append_assoc, List.singleton_append]

/-- Without backslashes only the slash separates. -/
theorem splitOnP_isSeparator {path : Bytes} (h : backslash ∉ path) :
    path.splitOnP isSeparator = path.splitOn slash := by
  induction path with
  | nil => rfl
  | cons b path ih =>
    rw [List.mem_cons, not_or] at h
    have hb : isSeparator b = (b == slash) := by
      rw [isSeparator, beq_eq_false_iff_ne.mpr (Ne.symm h.1), Bool.or_false]
    rw [List.splitOnP_cons_eq_if_modifyHead, List.splitOn_cons_eq_if_modifyHead, hb, ih h.2]

theorem resolve_join {path : Bytes} (hback : backslash ∉ path)
    (hdots : ∀ s ∈ path.splitOn slash, singleDot s = false ∧ doubleDot s = false) :
    [slash].intercalate (resolveDots [] (path.splitOnP isSeparator)) = path := by
  rw [splitOnP_isSeparator hback, resolveDots_id _ _ hdots, List.nil_append,
    List.intercalate_splitOn]

/-- An accepted path is its own normal form. -/
theorem normalizePath_id {path : Bytes} (h : unambiguousPath path = true) :
    normalizePath path = path := by
  have hsegments := unambiguousPath_eq.mp h
  have hback : backslash ∉ path := by
    rw [mem_splitOn_pieces (a := slash) (by decide)]
    rintro ⟨s, hs, hb⟩
    exact (hsegments s hs).1 hb
  have hdots : ∀ s ∈ path.splitOn slash, singleDot s = false ∧ doubleDot s = false :=
    fun s hs => not_dot_of_unambiguous (hsegments s hs).2
  cases path with
  | nil => rfl
  | cons b rest =>
    rw [normalizePath]
    split
    · rename_i hb
      have hslash : b = slash := by
        rw [isSeparator, Bool.or_eq_true, beq_iff_eq, beq_iff_eq] at hb
        exact hb.resolve_right fun heq => hback (heq ▸ List.mem_cons_self)
      subst hslash
      rw [List.splitOn_cons_eq_if_modifyHead, if_pos (beq_self_eq_true _)] at hdots
      rw [resolve_join (fun hin => hback (List.mem_cons_of_mem _ hin))
        fun s hs => hdots s (List.mem_cons_of_mem _ hs)]
    · exact resolve_join hback hdots

/-! ### Prefixes -/

/-- What is left behind `head` starts with a slash. -/
theorem stripHead_slash {head path : Bytes} :
    ((stripHead head path).any fun suffix => suffix.head? == some slash) = true ↔
      head ++ [slash] <+: path := by
  rw [stripHead]
  constructor
  · intro h
    split at h
    · rename_i hpre
      obtain ⟨suffix, rfl⟩ := List.isPrefixOf_iff_prefix.mp hpre
      rw [List.drop_left, Option.any_some, beq_iff_eq] at h
      obtain ⟨rest, rfl⟩ := List.head?_eq_some_iff.mp h
      exact ⟨rest, by rw [List.append_assoc, List.singleton_append]⟩
    · cases h
  · rintro ⟨rest, rfl⟩
    rw [List.append_assoc, List.singleton_append,
      if_pos (List.isPrefixOf_iff_prefix.mpr (List.prefix_append _ _)), List.drop_left]
    rfl

theorem pathPrefixMatches_iff {head path : Bytes} :
    pathPrefixMatches head path = true ↔
      head = [slash] ∨ head.splitOn slash <+: path.splitOn slash := by
  rw [splitOn_isPrefix, pathPrefixMatches]
  split
  · rename_i hroot
    exact iff_of_true rfl (.inl hroot)
  · rename_i hroot
    rw [or_iff_right hroot, Bool.or_eq_true, beq_iff_eq, stripHead_slash]

theorem allows_iff {list : PathPrefixAllowlist} {path : Bytes} :
    list.allows path = true ↔
      ∃ head ∈ list.prefixes, head = [slash] ∨ head.splitOn slash <+: path.splitOn slash := by
  rw [PathPrefixAllowlist.allows, List.any_eq_true]
  simp only [pathPrefixMatches_iff]

/-- Decisions about paths survive normalisation: an accepted path is its own normal form, and a
    prefix list looks at whole segments. -/
theorem path_decisions_survive_normalization (path : Bytes) :
    (unambiguousPath path = true ↔
      (decodedSegments path).length = (path.splitOn slash).length ∧
        ∀ segment ∈ decodedSegments path, segment ≠ [dot] ∧ segment ≠ [dot, dot]) ∧
    (unambiguousPath path = true → normalizePath path = path) ∧
    ∀ entries field list, PathPrefixAllowlist.parse entries field = .ok list →
      (list.allows path = true ↔
        ∃ head ∈ list.prefixes, head = [slash] ∨ head.splitOn slash <+: path.splitOn slash) ∧
      (unambiguousPath path = true →
        (∀ head ∈ list.prefixes,
          pathPrefixMatches head path = pathPrefixMatches head (normalizePath path)) ∧
        list.allows path = list.allows (normalizePath path) ∧
        ∀ only method websocket, CapturePolicy.captures ⟨list, only⟩ method path websocket =
          CapturePolicy.captures ⟨list, only⟩ method (normalizePath path) websocket) := by
  refine ⟨unambiguousPath_iff, normalizePath_id, fun entries field list _ => ⟨allows_iff, ?_⟩⟩
  intro h
  rw [normalizePath_id h]
  exact ⟨fun _ _ => rfl, rfl, fun _ _ _ => rfl⟩

/-- `/v1/models` under the prefix `/v1/`. -/
theorem path_decisions_survive_normalization_models :
    let path := utf8 "/v1/models".toList
    ∃ list, PathPrefixAllowlist.parse ["/v1/".toList] "proxy.path_prefixes" = .ok list ∧
      unambiguousPath path = true ∧ normalizePath path = path ∧ list.allows path = true := by
  intro path
  obtain ⟨hscan, hnormal, hlist⟩ := path_decisions_survive_normalization path
  have hpath : unambiguousPath path = true := hscan.mpr (by decide)
  have hparse : PathPrefixAllowlist.parse ["/v1/".toList] "proxy.path_prefixes" =
      .ok ⟨[utf8 "/v1".toList]⟩ := rfl
  exact ⟨_, hparse, hpath, hnormal hpath, (hlist _ _ _ hparse).1.mpr (by decide)⟩

end Llmtrace.Proxy
