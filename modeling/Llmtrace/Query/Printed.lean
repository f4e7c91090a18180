import Llmtrace.Query.Text

/-! The text that `formatQueryText` writes of an accepted query, and what the scanner makes of it.

    `Reads text views` says which tokens a text has, apart from their places. The printed text is read
    from its end, lexeme by lexeme. -/

namespace Llmtrace.QueryText
open Schemes Query

/-! ### The scanner -/

theorem scanned_pos {tolerant : Bool} {i c : ℕ} {rest : JsText} {lexeme : Lexeme}
    (h : scan tolerant i c rest = .ok lexeme) : 0 < lexeme.size := by
  have hword : ∀ {text : JsText} {n : ℕ}, wordSize text = some n → 0 < n := by
    intro text n h
    simp only [wordSize, Option.ite_none_right_eq_some, Option.some.injEq] at h
    omega
  have hsymbol : ∀ {text : JsText} {n : ℕ}, symbolSize text = some n → 0 < n := by
    intro text n h
    unfold symbolSize at h
    split_ifs at h <;> cases h <;> decide
  unfold scan at h
  simp only at h
  split at h
  · cases h
    exact Nat.one_pos
  split at h
  · cases h
    simp only [Lexeme.size, lineCommentSize]
    split <;> simp
  split at h
  · split at h
    · cases h
      exact Nat.succ_pos _
    · split at h
      · cases h
        exact Nat.succ_pos _
      · cases h
  split at h
  · split at h
    · cases h
    · cases h
      simp only [Lexeme.size]
      omega
  split at h
  · cases h
    exact numberSize_pos (by assumption)
  split at h
  · cases h
    exact hword (by assumption)
  split at h
  · cases h
    exact hsymbol (by assumption)
  split at h
  · cases h
    exact Nat.one_pos
  · cases h

/-- The length of the text is fuel enough. -/
theorem tokenLoop_fuel (tolerant includeComments : Bool) : ∀ {fuel : ℕ} (i : ℕ) {text : JsText},
    text.length ≤ fuel → tokenLoop tolerant includeComments (fuel + 1) i text =
      tokenLoop tolerant includeComments fuel i text := by
  intro fuel
  induction fuel with
  | zero =>
    intro i text h
    obtain rfl : text = [] := List.eq_nil_of_length_eq_zero (Nat.le_zero.mp h)
    rfl
  | succ fuel ih =>
    intro i text h
    cases text with
    | nil => rfl
    | cons c rest =>
      rw [tokenLoop, tokenLoop]
      cases hscan : scan tolerant i c rest with
      | error e => rfl
      | ok lexeme =>
        have hpos := scanned_pos hscan
        simp only [Except.bind, bind]
        rw [ih]
        rw [List.length_drop]
        omega

/-! ### What the scanner reads -/

/-- What the parser looks at. -/
def view (t : QueryToken) : TokenKind × JsText := (t.kind, t.text)

/-- The scanner reads a text, wherever it stands, as these tokens. -/
def Reads (text : JsText) (views : List (TokenKind × JsText)) : Prop :=
  ∀ (i fuel : ℕ), text.length ≤ fuel →
    ∃ tokens, tokenLoop false false fuel i text = .ok tokens ∧ tokens.map view = views

section
variable {rest : JsText} {views : List (TokenKind × JsText)}

theorem reads_nil : Reads [] [] := by
  intro i fuel _
  cases fuel with
  | zero => exact ⟨[], rfl, rfl⟩
  | succ fuel => exact ⟨[], rfl, rfl⟩

theorem Reads.space {c : ℕ} (h : Reads rest views) (hc : isSpace c) : Reads (c :: rest) views := by
  intro i fuel hfuel
  obtain ⟨fuel, rfl⟩ : ∃ f, fuel = f + 1 := ⟨fuel - 1, by rw [List.length_cons] at hfuel; omega⟩
  obtain ⟨tokens, htokens, hviews⟩ := h (i + 1) fuel (by rw [List.length_cons] at hfuel; omega)
  refine ⟨tokens, ?_, hviews⟩
  have hscan : scan false i c rest = .ok .space := by
    simp only [scan]
    rw [if_pos hc]
  rw [tokenLoop, hscan]
  simp only [bind, Except.bind, Lexeme.size, List.drop_succ_cons, List.drop_zero, htokens]
  rfl

/-- A lexeme that the scanner finds at the front. -/
theorem Reads.lexeme {c : ℕ} {more text : JsText} {kind : TokenKind} (h : Reads rest views)
    (hkind : kind ≠ .comment)
    (hscan : ∀ i, scan false i c (more ++ rest) = .ok (.token kind text (more.length + 1))) :
    Reads (c :: more ++ rest) ((kind, text) :: views) := by
  intro i fuel hfuel
  simp only [List.length_append, List.length_cons] at hfuel
  obtain ⟨fuel, rfl⟩ : ∃ f, fuel = f + 1 := ⟨fuel - 1, by omega⟩
  obtain ⟨tokens, htokens, hviews⟩ := h (i + (more.length + 1)) fuel (by omega)
  refine ⟨⟨kind, text, i, i + (more.length + 1)⟩ :: tokens, ?_, ?_⟩
  · rw [List.cons_append, tokenLoop, hscan]
    simp only [bind, Except.bind, Lexeme.size, List.drop_succ_cons, List.drop_left, htokens,
      Lexeme.tokens, hkind, false_and, if_false]
    rfl
  · rw [List.map_cons, hviews]
    rfl

/-- What stands behind a printed lexeme: a line break, a blank, a comma or a semicolon. -/
def Break (rest : JsText) : Prop := ∃ c more, rest = c :: more ∧ c ∈ [10, 32, 44, 59]

theorem Break.head {p : ℕ → Bool} (h : Break rest) (hp : ∀ c ∈ [10, 32, 44, 59], p c = false) :
    rest.takeWhile p = [] := by
  obtain ⟨c, more, rfl, hc⟩ := h
  rw [List.takeWhile_cons, hp c hc]
  rfl

/-- A word: its own code units and no more. -/
theorem Reads.word {c : ℕ} {more : JsText} (h : Reads rest views) (hrest : Break rest)
    (hc : isWordStart c) (hmore : ∀ d ∈ more, isWordPart d) :
    Reads (c :: more ++ rest) ((.word, c :: more) :: views) := by
  refine h.lexeme (by decide) fun i => ?_
  have hsmall : (65 ≤ c ∧ c ≤ 90) ∨ (97 ≤ c ∧ c ≤ 122) ∨ c = 95 := by
    simpa [isWordStart, isUpper, isLower, or_assoc] using hc
  have hspace : isSpace c = false := by
    simp only [isSpace, List.mem_cons, List.not_mem_nil, or_false, Bool.or_eq_false_iff, Bool.and_eq_false_iff,
      decide_eq_false_iff_not]
    omega
  have hdigit : isDigit c = false := by
    simp only [isDigit, Bool.and_eq_false_iff, decide_eq_false_iff_not]
    omega
  have hnumber : numberSize (c :: (more ++ rest)) = none := by
    have : c ≠ 45 := by omega
    simp [numberSize, minusSize, digitCount, this, hdigit]
  have hword : wordSize (c :: (more ++ rest)) = some (1 + more.length) := by
    rw [wordSize, List.head?_cons, Option.any_some, if_pos hc, List.tail_cons,
      List.takeWhile_append_of_pos hmore, hrest.head (by decide), List.append_nil]
  simp only [scan]
  rw [hspace, if_neg (by simp), if_neg (by omega), if_neg (by omega), if_neg (by omega), hnumber, hword]
  simp [Nat.add_comm 1]

/-! Quoted texts -/

/-- A text with its quotes doubled. -/
def doubled (q : ℕ) (value : JsText) : JsText := value.flatMap fun c => if c = q then [q, q] else [c]

theorem scanQuoted_cons {q c : ℕ} (h : c ≠ q) (text : JsText) : scanQuoted q (c :: text) =
    ⟨c :: (scanQuoted q text).value, (scanQuoted q text).size + 1, (scanQuoted q text).closed⟩ := by
  cases text with
  | nil => simp [scanQuoted, h]
  | cons d text => simp [scanQuoted, h]

theorem scanQuoted_doubled {q : ℕ} (hq : q ∉ [10, 32, 44, 59]) (hrest : Break rest) (value : JsText) :
    scanQuoted q (doubled q value ++ q :: rest) = ⟨value, (doubled q value).length + 1, true⟩ := by
  induction value with
  | nil =>
    obtain ⟨d, more, rfl, hd⟩ := hrest
    have hne : d ≠ q := fun h => hq (h ▸ hd)
    simp [doubled, scanQuoted, hne]
  | cons c value ih =>
    rw [doubled] at ih ⊢
    by_cases hc : c = q
    · subst hc
      simp [scanQuoted, ih]
    · rw [List.flatMap_cons, if_neg hc, List.append_assoc, List.singleton_append, scanQuoted_cons hc, ih]
      simp

theorem Reads.quoted {q : ℕ} (h : Reads rest views) (hrest : Break rest) (hq : q = 39 ∨ q = 34)
    (value : JsText) : Reads (q :: (doubled q value ++ [q]) ++ rest)
      ((if q = 39 then .string else .identifier, value) :: views) := by
  refine h.lexeme (by split <;> decide) fun i => ?_
  have hq' : q ∉ [10, 32, 44, 59] := by rcases hq with rfl | rfl <;> decide
  have hread := scanQuoted_doubled hq' hrest value
  have hspace : isSpace q = false := by rcases hq with rfl | rfl <;> decide
  simp only [scan]
  rw [hspace, if_neg (by simp), if_neg (by omega), if_neg (by omega), if_pos hq, List.append_assoc,
    List.singleton_append, hread]
  simp [Nat.add_comm 1]

/-! Numbers -/

theorem Break.stops (h : Break rest) : Stops rest := by
  obtain ⟨c, more, rfl, hc⟩ := h
  rintro _ ⟨⟩
  revert c
  decide

theorem Reads.number {t : JsText} (h : Reads rest views) (hrest : Break rest) (ht : Numeral t) :
    Reads (t ++ rest) ((.number, t) :: views) := by
  have hnumber := numberSize_append ht hrest.stops
  obtain ⟨c, more, rfl, hc⟩ := head_numeral ht
  refine h.lexeme (by decide) fun i => ?_
  have hsmall : (48 ≤ c ∧ c ≤ 57) ∨ c = 45 := by
    rcases hc with hc | ⟨rfl, -⟩
    · exact .inl (by simpa [isDigit] using hc)
    · exact .inr rfl
  have hspace : isSpace c = false := by
    simp only [isSpace, List.mem_cons, List.not_mem_nil, or_false, Bool.or_eq_false_iff,
      Bool.and_eq_false_iff, decide_eq_false_iff_not]
    omega
  have hcomment : ¬(c = 45 ∧ (more ++ rest).head? = some 45) := by
    rintro ⟨rfl, hhead⟩
    rcases hc with hc | ⟨-, d, rest, rfl, hd⟩
    · cases hc
    · cases hhead
      cases hd
  simp only [scan]
  rw [hspace, if_neg (by simp), if_neg hcomment, if_neg (by omega), if_neg (by omega),
    ← List.cons_append, hnumber]
  simp

/-! Symbols -/

theorem scan_symbol {c n : ℕ} {text : JsText} (hc : c ∈ [33, 44, 59, 60, 61, 62])
    (hsize : symbolSize (c :: text) = some n) (i : ℕ) :
    scan false i c text = .ok (.token .symbol ((c :: text).take n) n) := by
  have hspace : ∀ c ∈ [33, 44, 59, 60, 61, 62], isSpace c = false := by decide
  have hstart : ∀ c ∈ [33, 44, 59, 60, 61, 62], isWordStart c = false := by decide
  have hdigit : ∀ c ∈ [33, 44, 59, 60, 61, 62], isDigit c = false := by decide
  have hcases : c = 33 ∨ c = 44 ∨ c = 59 ∨ c = 60 ∨ c = 61 ∨ c = 62 := by simpa using hc
  have hnumber : numberSize (c :: text) = none := by
    have : c ≠ 45 := by omega
    simp [numberSize, minusSize, digitCount, this, hdigit c hc]
  have hword : wordSize (c :: text) = none := by
    simp [wordSize, hstart c hc]
  simp only [scan]
  rw [hspace c hc, if_neg (by simp), if_neg (by omega), if_neg (by omega), if_neg (by omega), hnumber,
    hword, hsize]

/-- A symbol of one code unit. -/
theorem Reads.symbol {c : ℕ} (h : Reads rest views) (hc : c ∈ [44, 59, 60, 61, 62])
    (hrest : rest = [] ∨ Break rest) : Reads (c :: rest) ((.symbol, [c]) :: views) := by
  have hmem : ∀ c ∈ [44, 59, 60, 61, 62], c ∈ [33, 44, 59, 60, 61, 62] := by decide
  have hone : ∀ c ∈ [44, 59, 60, 61, 62], c ∈ js "*,;=<>" := by decide
  have hpair : ∀ c ∈ [44, 59, 60, 61, 62], ∀ d ∈ [10, 32, 44, 59],
      [c, d] ∉ [js ">=", js "<=", js "!=", js "<>"] := by decide
  have hshort : ∀ c ∈ [44, 59, 60, 61, 62], [c] ∉ [js ">=", js "<=", js "!=", js "<>"] := by decide
  have hsize : symbolSize (c :: rest) = some 1 := by
    have htake : (c :: rest).take 2 ∉ [js ">=", js "<=", js "!=", js "<>"] := by
      rcases hrest with rfl | ⟨d, more, rfl, hd⟩
      · exact hshort c hc
      · exact hpair c hc d hd
    rw [symbolSize, if_neg htake, List.head?_cons, Option.any_some, if_pos (by simpa using hone c hc)]
  exact @Reads.lexeme rest views c [] [c] .symbol h (by decide) fun i => scan_symbol (hmem c hc) hsize i

/-- A symbol of two. -/
theorem Reads.symbolPair {c d : ℕ} (h : Reads rest views)
    (hcd : [c, d] ∈ [js ">=", js "<=", js "!="]) :
    Reads (c :: d :: rest) ((.symbol, [c, d]) :: views) := by
  have hsize : symbolSize (c :: d :: rest) = some 2 := by
    rw [symbolSize, if_pos]
    simp only [List.mem_cons, List.not_mem_nil, or_false] at hcd
    rcases hcd with hcd | hcd | hcd <;> simp [hcd]
  have hc : c ∈ [33, 44, 59, 60, 61, 62] := by
    simp only [List.mem_cons, List.not_mem_nil, or_false] at hcd
    rcases hcd with hcd | hcd | hcd <;> cases hcd <;> decide
  exact @Reads.lexeme rest views c [d] [c, d] .symbol h (by decide) fun i => scan_symbol hc hsize i

end

/-! ### What the printer writes -/

/-- The token of a printed name. -/
def nameView (value : JsText) : TokenKind × JsText :=
  if isPlainName value then (.word, value) else (.identifier, value)

/-- The tokens of a printed operator. -/
def operatorView : QueryOp → List (TokenKind × JsText)
  | .contains => [(.word, js "CONTAINS")]
  | .isNull => [(.word, js "IS"), (.word, js "NULL")]
  | .isNotNull => [(.word, js "IS"), (.word, js "NOT"), (.word, js "NULL")]
  | op => [(.symbol, queryOperators op)]

/-- The tokens of a printed sort key. -/
def orderView (o : QueryOrder) : List (TokenKind × JsText) :=
  [nameView o.field, (.word, SortDirection.upperText (o.direction.getD .desc))]

section
variable {rest : JsText} {views : List (TokenKind × JsText)}

/-- A fixed word. -/
theorem Reads.fixed {w : JsText} (h : Reads rest views) (hrest : Break rest)
    (hw : w.head?.any isWordStart && w.tail.all isWordPart) :
    Reads (w ++ rest) ((.word, w) :: views) := by
  cases w with
  | nil => cases hw
  | cons c more =>
    simp only [List.head?_cons, Option.any_some, List.tail_cons, Bool.and_eq_true, List.all_eq_true] at hw
    exact h.word hrest hw.1 hw.2

theorem break_cons {c : ℕ} (h : c ∈ [10, 32, 44, 59]) : Break (c :: rest) := ⟨c, rest, rfl, h⟩

theorem isWordPart_of_plain {c : ℕ} (h : (isLower c || isDigit c || decide (c = 95)) = true) :
    isWordPart c := by
  simp only [Bool.or_eq_true, decide_eq_true_eq] at h
  simp only [isWordPart, isWordStart, Bool.or_eq_true, decide_eq_true_eq]
  tauto

theorem Reads.name (h : Reads rest views) (hrest : Break rest) (value : JsText) :
    Reads (name value ++ rest) (nameView value :: views) := by
  rw [QueryText.name, nameView]
  split
  · rename_i hplain
    refine h.fixed hrest ?_
    simp only [isPlainName, Bool.and_eq_true, List.all_eq_true] at hplain ⊢
    refine ⟨?_, fun c hc => isWordPart_of_plain (hplain.2 c hc)⟩
    cases hhead : value.head? with
    | none => rw [hhead] at hplain; cases hplain.1
    | some c =>
      rw [hhead] at hplain
      have hc := hplain.1
      simp only [Option.any_some, Bool.or_eq_true, decide_eq_true_eq, isWordStart] at hc ⊢
      tauto
  · exact h.quoted hrest (.inr rfl) value

theorem Reads.operator (h : Reads rest views) (hrest : Break rest) (op : QueryOp) :
    Reads (queryOperators op ++ rest) (operatorView op ++ views) := by
  have hblank : (32 : ℕ) ∈ [10, 32, 44, 59] := by decide
  have hnull : Reads (js "NULL" ++ rest) ((.word, js "NULL") :: views) := h.fixed hrest (by decide)
  have hspaced := hnull.space (show isSpace 32 by decide)
  cases op with
  | eq => exact h.symbol (by decide) (.inr hrest)
  | gt => exact h.symbol (by decide) (.inr hrest)
  | lt => exact h.symbol (by decide) (.inr hrest)
  | ne => exact h.symbolPair (by decide)
  | gte => exact h.symbolPair (by decide)
  | lte => exact h.symbolPair (by decide)
  | contains => exact h.fixed hrest (by decide)
  | isNull => exact @Reads.fixed _ _ (js "IS") hspaced (break_cons hblank) (by decide)
  | isNotNull =>
    have hnot := @Reads.fixed _ _ (js "NOT") hspaced (break_cons hblank) (by decide)
    exact @Reads.fixed _ _ (js "IS") (hnot.space (show isSpace 32 by decide)) (break_cons hblank) (by decide)

theorem Reads.order (h : Reads rest views) (hrest : Break rest) (o : QueryOrder) :
    Reads (orderText o ++ rest) (orderView o ++ views) := by
  have hdirection : Reads (SortDirection.upperText (o.direction.getD .desc) ++ rest)
      ((.word, SortDirection.upperText (o.direction.getD .desc)) :: views) := by
    cases o.direction.getD .desc with
    | asc => exact h.fixed hrest (by decide)
    | desc => exact h.fixed hrest (by decide)
  have hname := (hdirection.space (show isSpace 32 by decide)).name (break_cons (by decide)) o.field
  rw [orderText, List.append_assoc, List.append_assoc]
  exact hname

/-- Items that are printed with a separator. -/
theorem Reads.intercalate {α : Type} {print : α → JsText} {item : α → List (TokenKind × JsText)}
    {separator : JsText} {separatorView : List (TokenKind × JsText)}
    (hseparator : ∀ {rest views}, Reads rest views → Reads (separator ++ rest) (separatorView ++ views))
    (hbreak : ∀ rest, Break (separator ++ rest)) (h : Reads rest views) (hrest : Break rest) :
    ∀ {xs : List α}, (∀ x ∈ xs, ∀ {rest views}, Reads rest views → Break rest →
      Reads (print x ++ rest) (item x ++ views)) →
    Reads (separator.intercalate (xs.map print) ++ rest) (Parser.separated item separatorView xs ++ views) := by
  intro xs
  induction xs with
  | nil => exact fun _ => h
  | cons x xs ih =>
    intro hitem
    cases xs with
    | nil => simpa [Parser.separated] using hitem x List.mem_cons_self h hrest
    | cons y xs =>
      have htail := hseparator (ih fun z hz => hitem z (List.mem_cons_of_mem _ hz))
      have hall := hitem x List.mem_cons_self htail (hbreak _)
      rw [Parser.separated]
      · simpa using hall
      · exact List.cons_ne_nil _ _

end

section
variable {lib : JsLib} {rest : JsText} {views : List (TokenKind × JsText)}

/-- What a literal stands for. -/
def Literal (lib : JsLib) (v : JsValue lib.Num) : Prop :=
  match v with
  | .null => False
  | .num x => lib.isFinite x = true ∧ (lib.isInteger x = true → lib.isSafeInteger x = true)
  | .arr _ | .obj _ => safeJsonNumbers lib v = true ∧ ∃ t, lib.jsonParse t = some v
  | _ => True

/-- The tokens of a printed value. -/
def literalView (v : JsValue lib.Num) : List (TokenKind × JsText) :=
  match v with
  | .str s => [(.string, s)]
  | .bool b => [(.word, if b then js "TRUE" else js "FALSE")]
  | .num x => [(.number, lib.text x)]
  | v => [(.word, js "JSON"), (.string, stringify lib.toJsNumbers v)]

theorem Reads.json (h : Reads rest views) (hrest : Break rest) (s : JsText) :
    Reads (js "JSON " ++ quote s ++ rest) ((.word, js "JSON") :: (.string, s) :: views) := by
  have hquoted := (h.quoted hrest (.inl rfl) s).space (show isSpace 32 by decide)
  have hword := @Reads.fixed _ _ (js "JSON") hquoted (break_cons (by decide)) (by decide)
  have hsplit : js "JSON " = js "JSON" ++ [32] := by decide
  rw [hsplit, List.append_assoc, List.append_assoc]
  exact hword

theorem Reads.literal {v : JsValue lib.Num} (hlib : lib.Lawful) (hv : Literal lib v) (h : Reads rest views)
    (hrest : Break rest) : Reads (literalText lib v ++ rest) (literalView v ++ views) := by
  cases v with
  | null => exact hv.elim
  | bool b =>
    cases b with
    | true => exact @Reads.fixed _ _ (js "TRUE") h hrest (by decide)
    | false => exact @Reads.fixed _ _ (js "FALSE") h hrest (by decide)
  | num x => exact h.number hrest (hlib.numeral hv.1)
  | str s => exact h.quoted hrest (.inl rfl) s
  | arr items => exact h.json hrest _
  | obj fields => exact h.json hrest _

/-- The operator and the value of an accepted filter. -/
structure FilterOk (lib : JsLib) (schema : QuerySchema) (dataset : DatasetSpec) (f : QueryFilter lib.Num) :
    Prop where
  known : ∃ field, queryField schema dataset f.field = some field ∧ f.op ∈ field.operators ∧
    ∀ v, f.value = some v →
      Literal lib v ∧ valueError lib schema.limits f.field field.filterKind v = none
  valued : f.value = none ↔ f.op = .isNull ∨ f.op = .isNotNull

/-- The tokens of a printed filter. -/
def filterView (f : QueryFilter lib.Num) : List (TokenKind × JsText) :=
  nameView f.field :: operatorView f.op ++ f.value.elim [] literalView

/-- What `formatQueryText` writes for an accepted filter. -/
def printedFilter (f : QueryFilter lib.Num) : JsText :=
  name f.field ++ 32 :: (queryOperators f.op ++ f.value.elim [] fun v => 32 :: literalText lib v)

theorem filterText_ok {schema : QuerySchema} {dataset : DatasetSpec} {f : QueryFilter lib.Num}
    (h : FilterOk lib schema dataset f) : filterText lib f = .ok (printedFilter f) := by
  unfold filterText printedFilter
  cases hv : f.value with
  | none =>
    rw [if_pos (h.valued.mp hv)]
    simp [js, utf16]
  | some v =>
    have hop : ¬(f.op = .isNull ∨ f.op = .isNotNull) := by
      rw [← h.valued, hv]
      simp
    rw [if_neg hop]
    simp [js, utf16]

theorem Reads.filter {schema : QuerySchema} {dataset : DatasetSpec} {f : QueryFilter lib.Num}
    (hlib : lib.Lawful) (hf : FilterOk lib schema dataset f) (h : Reads rest views) (hrest : Break rest) :
    Reads (printedFilter f ++ rest) (filterView f ++ views) := by
  have hvalue : Break ((f.value.elim [] fun v => 32 :: literalText lib v) ++ rest) ∧
      Reads ((f.value.elim [] fun v => 32 :: literalText lib v) ++ rest)
        (f.value.elim [] literalView ++ views) := by
    cases hv : f.value with
    | none => exact ⟨hrest, h⟩
    | some v =>
      obtain ⟨field, -, -, hvalues⟩ := hf.known
      exact ⟨break_cons (by decide),
        (h.literal hlib (hvalues v hv).1 hrest).space (show isSpace 32 by decide)⟩
  have hoperator := (hvalue.2.operator hvalue.1 f.op).space (show isSpace 32 by decide)
  have hname := hoperator.name (break_cons (by decide)) f.field
  simpa [printedFilter, filterView] using hname

/-! The whole text -/

/-- An accepted query, apart from its dataset. -/
structure Accepted (lib : JsLib) (schema : QuerySchema) (dataset : DatasetSpec) (fields : List JsText)
    (filters : List (QueryFilter lib.Num)) (order : List QueryOrder) (limit : lib.Num) : Prop where
  found : schema.datasets.find? (fun d => d.name = dataset.name) = some dataset
  fields_ne : fields ≠ []
  fields_nodup : fields.Nodup
  fields_le : fields.length ≤ schema.limits.maxFields
  fields_known : ∀ f ∈ fields, (queryField schema dataset f).isSome
  filters_le : filters.length ≤ schema.limits.maxFilters
  filters_ok : ∀ f ∈ filters, FilterOk lib schema dataset f
  order_ne : order ≠ []
  order_le : order.length ≤ schema.limits.maxOrderBy
  order_ok : ∀ o ∈ order, (queryField schema dataset o.field).isSome ∧ o.direction.isSome
  limit_ok : ∃ n : ℤ, lib.whole limit = some n ∧ |n| < 2 ^ 53 ∧ 1 ≤ n ∧ n ≤ schema.limits.maxLimit

/-- The token between two items of a list. -/
def comma : List (TokenKind × JsText) := [(.symbol, js ",")]

/-- The tokens of the printed filters. -/
def whereView (filters : List (QueryFilter lib.Num)) : List (TokenKind × JsText) :=
  if filters = [] then []
  else (.word, js "WHERE") :: Parser.separated filterView [(.word, js "AND")] filters

/-- The tokens of the printed limit, to the end of the text. -/
def limitView (limit : lib.Num) : List (TokenKind × JsText) :=
  [(.word, js "LIMIT"), (.number, lib.text limit), (.symbol, js ";")]

/-- The tokens of the printed sort keys and the limit. -/
def tailView (order : List QueryOrder) (limit : lib.Num) : List (TokenKind × JsText) :=
  (.word, js "ORDER") :: (.word, js "BY") :: (Parser.separated orderView comma order ++ limitView limit)

/-- The tokens of a printed query. -/
def queryView (dataset : JsText) (fields : List JsText) (filters : List (QueryFilter lib.Num))
    (order : List QueryOrder) (limit : lib.Num) : List (TokenKind × JsText) :=
  (.word, js "SELECT") :: (Parser.separated (fun n => [nameView n]) comma fields ++
    (.word, js "FROM") :: nameView dataset :: (whereView filters ++ tailView order limit))

/-- The printed sort keys and the limit. -/
def printedTail (order : List QueryOrder) (limit : lib.Num) : JsText :=
  js "\nORDER BY " ++ ((js ", ").intercalate (order.map orderText) ++
    (js "\nLIMIT " ++ (lib.text limit ++ js ";")))

/-- The printed filters. -/
def printedWhere (filters : List (QueryFilter lib.Num)) : JsText :=
  if filters = [] then [] else js "\nWHERE " ++ (js "\n  AND ").intercalate (filters.map printedFilter)

/-- What `formatQueryText` writes for an accepted query. -/
def printedQuery (dataset : JsText) (fields : List JsText) (filters : List (QueryFilter lib.Num))
    (order : List QueryOrder) (limit : lib.Num) : JsText :=
  js "SELECT " ++ ((js ", ").intercalate (fields.map name) ++
    (js "\nFROM " ++ (name dataset ++ (printedWhere filters ++ printedTail order limit))))

variable {schema : QuerySchema} {dataset : DatasetSpec} {fields : List JsText}
  {filters : List (QueryFilter lib.Num)} {order : List QueryOrder} {limit : lib.Num}

theorem mapM_filterText (h : ∀ f ∈ filters, FilterOk lib schema dataset f) :
    filters.mapM (filterText lib) = .ok (filters.map printedFilter) := by
  induction filters with
  | nil => rfl
  | cons f fs ih =>
    rw [List.mapM_cons, filterText_ok (h f List.mem_cons_self),
      ih fun g hg => h g (List.mem_cons_of_mem _ hg)]
    rfl

theorem formatQueryText_ok (h : Accepted lib schema dataset fields filters order limit) :
    formatQueryText lib schema ⟨dataset.name, some fields, some filters, some order, some limit⟩ =
      .ok (printedQuery dataset.name fields filters order limit) := by
  simp only [formatQueryText, h.found, Option.getD_some, mapM_filterText h.filters_ok, if_neg h.order_ne,
    limitText, bind, Except.bind, List.map_eq_nil_iff]
  refine congrArg Except.ok ?_
  have hfrom : js "\nFROM " = js "\n" ++ js "FROM " := by decide
  have hwhere : js "\nWHERE " = js "\n" ++ js "WHERE " := by decide
  have horder : js "\nORDER BY " = js "\n" ++ js "ORDER BY " := by decide
  have hlimit : js "\nLIMIT " = js "\n" ++ js "LIMIT " := by decide
  by_cases hfilters : filters = []
  · simp [hfilters, printedQuery, printedWhere, printedTail, hfrom, horder, hlimit, List.intercalate]
  · simp [hfilters, printedQuery, printedWhere, printedTail, hfrom, hwhere, horder, hlimit,
      List.intercalate]

theorem reads_comma {rest : JsText} {views : List (TokenKind × JsText)} (h : Reads rest views) :
    Reads (js ", " ++ rest) (comma ++ views) :=
  (h.space (show isSpace 32 by decide)).symbol (by decide) (.inr (break_cons (by decide)))

theorem reads_and {rest : JsText} {views : List (TokenKind × JsText)} (h : Reads rest views) :
    Reads (js "\n  AND " ++ rest) ([(.word, js "AND")] ++ views) := by
  have hblank : isSpace 32 := by decide
  have hword := @Reads.fixed _ _ (js "AND") (h.space hblank) (break_cons (by decide)) (by decide)
  exact ((hword.space hblank).space hblank).space (show isSpace 10 by decide)

theorem reads_printedTail (hlib : lib.Lawful)
    (h : Accepted lib schema dataset fields filters order limit) :
    Reads (printedTail order limit) (tailView order limit) := by
  have hline : isSpace 10 := by decide
  have hblank : isSpace 32 := by decide
  obtain ⟨n, hn, -⟩ := h.limit_ok
  have hend : Reads (js ";") [(.symbol, js ";")] := reads_nil.symbol (by decide) (.inl rfl)
  have hnumber := hend.number (break_cons (by decide)) (hlib.numeral (hlib.finite_of_whole hn))
  have hlimit := (@Reads.fixed _ _ (js "LIMIT") (hnumber.space hblank) (break_cons (by decide))
    (by decide)).space hline
  have horders : Reads ((js ", ").intercalate (order.map orderText) ++
      (js "\nLIMIT " ++ (lib.text limit ++ js ";")))
      (Parser.separated orderView comma order ++ limitView limit) :=
    Reads.intercalate reads_comma (fun _ => break_cons (by decide)) hlimit (break_cons (by decide))
      fun o _ _ _ ho hb => ho.order hb o
  have hby := @Reads.fixed _ _ (js "BY") (horders.space hblank) (break_cons (by decide)) (by decide)
  have horder := @Reads.fixed _ _ (js "ORDER") (hby.space hblank) (break_cons (by decide)) (by decide)
  exact horder.space hline

theorem reads_printedWhere (hlib : lib.Lawful)
    (h : Accepted lib schema dataset fields filters order limit) :
    Reads (printedWhere filters ++ printedTail order limit) (whereView filters ++ tailView order limit) ∧
      Break (printedWhere filters ++ printedTail order limit) := by
  have htail := reads_printedTail hlib h
  unfold printedWhere whereView
  split
  · exact ⟨htail, break_cons (by decide)⟩
  · refine ⟨?_, break_cons (by decide)⟩
    have hfilters : Reads ((js "\n  AND ").intercalate (filters.map printedFilter) ++
        printedTail order limit)
        (Parser.separated filterView [(.word, js "AND")] filters ++ tailView order limit) :=
      Reads.intercalate reads_and (fun _ => break_cons (by decide)) htail (break_cons (by decide))
        fun f hf _ _ hr hb => hr.filter hlib (h.filters_ok f hf) hb
    have hwhere := @Reads.fixed _ _ (js "WHERE") (hfilters.space (show isSpace 32 by decide))
      (break_cons (by decide)) (by decide)
    rw [List.append_assoc]
    exact hwhere.space (show isSpace 10 by decide)

theorem reads_printedQuery (hlib : lib.Lawful)
    (h : Accepted lib schema dataset fields filters order limit) :
    Reads (printedQuery dataset.name fields filters order limit)
      (queryView dataset.name fields filters order limit) := by
  have hblank : isSpace 32 := by decide
  obtain ⟨hwhere, hbreak⟩ := reads_printedWhere hlib h
  have hfrom := (@Reads.fixed _ _ (js "FROM") ((hwhere.name hbreak dataset.name).space hblank)
    (break_cons (by decide)) (by decide)).space (show isSpace 10 by decide)
  have hfields : Reads ((js ", ").intercalate (fields.map name) ++
      (js "\nFROM " ++ (name dataset.name ++ (printedWhere filters ++ printedTail order limit))))
      (Parser.separated (fun n => [nameView n]) comma fields ++
        (.word, js "FROM") :: nameView dataset.name :: (whereView filters ++ tailView order limit)) :=
    Reads.intercalate reads_comma (fun _ => break_cons (by decide)) hfrom (break_cons (by decide))
      fun n _ _ _ hr hb => hr.name hb n
  exact @Reads.fixed _ _ (js "SELECT") (hfields.space hblank) (break_cons (by decide)) (by decide)

end

end Llmtrace.QueryText
