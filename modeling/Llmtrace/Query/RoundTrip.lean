import Llmtrace.Query.Printed

/-! Query texts round-trip: the printer's text of an accepted query is accepted, with the same query. -/

namespace Llmtrace.QueryText
open Schemes Query

/-! ### The parser on these tokens -/

section
open Schemes.Parser (Yields)
variable {given vs : List (TokenKind × JsText)}

theorem yields_peek : Yields view peek given (fun t => t.map view = given.head?) given := by
  rintro ts rfl
  exact ⟨ts.head?, ts, rfl, List.head?_map.symm, rfl⟩

theorem yields_advance {v : TokenKind × JsText} : Yields view advance (v :: vs) (fun _ => True) vs := by
  intro ts hts
  exact ⟨(), ts.tail, rfl, trivial, by rw [List.map_tail, hts, List.tail_cons]⟩

section
variable {test : QueryToken → Bool} {f : TokenKind × JsText → Bool} (hf : ∀ t, test t = f (view t))
include hf

theorem any_view {token : Option QueryToken} (h : token.map view = given.head?) :
    token.any test = given.head?.any f := by
  rw [← h, Option.any_map]
  exact congrArg (fun g => token.any g) (funext hf)

theorem yields_accept {v : TokenKind × JsText} (hv : f v = true) :
    Yields view (accept test) (v :: vs) (· = true) vs := by
  refine yields_peek.bind fun token htoken => ?_
  rw [any_view hf htoken, List.head?_cons, Option.any_some, if_pos hv]
  exact yields_advance.bind fun _ _ => Yields.pure rfl

theorem yields_accept_not (h : given.head?.any f = false) :
    Yields view (accept test) given (· = false) given := by
  refine yields_peek.bind fun token htoken => ?_
  rw [any_view hf htoken, if_neg (by simp [h])]
  exact Yields.pure rfl

end

/-- `keyword` takes the token. -/
def isKeyword (word : JsText) (v : TokenKind × JsText) : Bool := v.1 = .word && upper v.2 = word

/-- `symbol` takes the token. -/
def isSymbol (value : JsText) (v : TokenKind × JsText) : Bool := v.1 = .symbol && v.2 = value

theorem yields_keyword {word w : JsText} (h : upper w = word) :
    Yields view (keyword word) ((.word, w) :: vs) (· = true) vs :=
  @yields_accept vs _ (isKeyword word) (fun _ => rfl) _ (by simp [isKeyword, h])

theorem yields_keyword_not {word : JsText} (h : given.head?.any (isKeyword word) = false) :
    Yields view (keyword word) given (· = false) given :=
  @yields_accept_not given _ (isKeyword word) (fun _ => rfl) h

theorem yields_other_keyword {word w : JsText} (h : upper w ≠ word) :
    Yields view (keyword word) ((.word, w) :: vs) (· = false) ((.word, w) :: vs) :=
  yields_keyword_not (by simp [isKeyword, h])

theorem yields_symbol {value : JsText} :
    Yields view (symbol value) ((.symbol, value) :: vs) (· = true) vs :=
  @yields_accept vs _ (isSymbol value) (fun _ => rfl) _ (by simp [isSymbol])

theorem yields_symbol_not {value : JsText} (h : given.head?.any (isSymbol value) = false) :
    Yields view (symbol value) given (· = false) given :=
  @yields_accept_not given _ (isSymbol value) (fun _ => rfl) h

theorem yields_word_not {value w : JsText} :
    Yields view (symbol value) ((.word, w) :: vs) (· = false) ((.word, w) :: vs) :=
  yields_symbol_not (by simp [isSymbol])

variable {size : ℕ}

theorem yields_expect {word w : JsText} (h : upper w = word) :
    Yields view (expect size word) ((.word, w) :: vs) (fun _ => True) vs := by
  refine (yields_keyword h).bind_eq ?_
  exact Yields.pure trivial

theorem lower_of_plain {n : JsText} (h : isPlainName n) : lower n = n := by
  have hc : ∀ c ∈ n, isUpper c = false := by
    intro c hc
    have hplain : (isLower c || isDigit c || decide (c = 95)) = true := by
      cases n with
      | nil => cases hc
      | cons d n =>
        simp only [isPlainName, List.head?_cons, Option.any_some, List.tail_cons, Bool.and_eq_true,
          List.all_eq_true] at h
        rcases List.mem_cons.mp hc with rfl | hc
        · rw [Bool.or_right_comm, h.1, Bool.true_or]
        · exact h.2 c hc
    simp only [isLower, isDigit, isUpper, Bool.or_eq_true, Bool.and_eq_true, decide_eq_true_eq,
      Bool.and_eq_false_iff, decide_eq_false_iff_not] at hplain ⊢
    omega
  rw [lower]
  refine (List.map_congr_left fun c h => ?_).trans (List.map_id n)
  rw [hc c h]
  rfl

theorem yields_identifier (n : JsText) :
    Yields view (identifier size) (nameView n :: vs) (fun t => t.text = n) vs := by
  refine yields_peek.bind ?_
  rintro (_ | t) ht
  · cases ht
  have hview : view t = nameView n := Option.some.inj ht
  unfold nameView at hview
  simp only
  by_cases hplain : isPlainName n
  · rw [if_pos hplain, view, Prod.mk.injEq] at hview
    rw [if_pos hview.1]
    refine yields_advance.bind fun _ _ => Yields.pure ?_
    simp only
    rw [hview.2, lower_of_plain hplain]
  · rw [if_neg hplain, view, Prod.mk.injEq] at hview
    rw [if_neg (by rw [hview.1]; decide), if_pos hview.1]
    exact yields_advance.bind fun _ _ => Yields.pure hview.2

variable {lib : JsLib} {schema : QuerySchema} {dataset : DatasetSpec}

theorem yields_requireField {token : QueryToken} {field : FieldSpec}
    (h : queryField schema dataset token.text = some field) :
    Yields view (requireField size schema dataset token) given (· = field) given := by
  unfold requireField
  rw [h]
  exact Yields.pure rfl

/-- `JSON.parse` reads back what `JSON.stringify` writes of a value that it made, when the numbers in
    it are finite. -/
def JsLib.RoundTrips (lib : JsLib) : Prop := ∀ t v, lib.jsonParse t = some v →
  safeJsonNumbers lib v = true → lib.jsonParse (stringify lib.toJsNumbers v) = some v

theorem yields_jsonLiteral {v : JsValue lib.Num} (hnull : v ≠ .null) (hsafe : safeJsonNumbers lib v = true)
    (hparse : lib.jsonParse (stringify lib.toJsNumbers v) = some v) :
    Yields view (jsonLiteral lib size) ((.string, stringify lib.toJsNumbers v) :: vs) (· = v) vs := by
  refine yields_peek.bind ?_
  rintro (_ | t) ht
  · cases ht
  have hview : view t = (.string, stringify lib.toJsNumbers v) := Option.some.inj ht
  rw [view, Prod.mk.injEq] at hview
  simp only
  rw [if_neg (by rw [hview.1]; decide)]
  refine yields_advance.bind fun _ _ => ?_
  rw [hview.2, hparse]
  cases v with
  | null => exact absurd rfl hnull
  | bool b => exact Yields.pure rfl
  | str s => exact Yields.pure rfl
  | num x => simp only [hsafe, if_true]; exact Yields.pure rfl
  | arr items => simp only [hsafe, if_true]; exact Yields.pure rfl
  | obj fields => simp only [hsafe, if_true]; exact Yields.pure rfl

/-- A literal of one token that is no word. -/
theorem yields_tokenLiteral {kind : TokenKind} {text : JsText} {v : JsValue lib.Num} (hkind : kind ≠ .word)
    (h : ∀ token, view token = (kind, text) →
      Yields view (tokenLiteral lib size token) ((kind, text) :: vs) (· = v) vs) :
    Yields view (literal lib size) ((kind, text) :: vs) (· = v) vs := by
  have hnot : ∀ word, Yields view (keyword word) ((kind, text) :: vs) (· = false) ((kind, text) :: vs) :=
    fun word => yields_keyword_not (by simp [isKeyword, hkind])
  refine yields_peek.bind ?_
  rintro (_ | token) htoken
  · cases htoken
  refine (hnot _).bind_eq ?_
  refine (hnot _).bind_eq ?_
  refine (hnot _).bind_eq ?_
  exact h token (Option.some.inj htoken)

theorem yields_json (hjson : JsLib.RoundTrips lib) {v : JsValue lib.Num} {t : JsText} (hnull : v ≠ .null)
    (hsafe : safeJsonNumbers lib v = true) (ht : lib.jsonParse t = some v) :
    Yields view (literal lib size)
      ((.word, js "JSON") :: (.string, stringify lib.toJsNumbers v) :: vs) (· = v) vs := by
  refine yields_peek.bind ?_
  rintro (_ | token) htoken
  · cases htoken
  refine (yields_keyword (by decide)).bind_eq ?_
  exact yields_jsonLiteral hnull hsafe (hjson t v ht hsafe)

theorem yields_literal (hlib : lib.Lawful) (hjson : JsLib.RoundTrips lib) {v : JsValue lib.Num}
    (hv : Literal lib v) : Yields view (literal lib size) (literalView v ++ vs) (· = v) vs := by
  cases v with
  | null => exact hv.elim
  | bool b =>
    refine yields_peek.bind ?_
    rintro (_ | token) htoken
    · cases htoken
    cases b with
    | true =>
      refine (yields_other_keyword (by decide)).bind_eq ?_
      refine (yields_keyword (by decide)).bind_eq ?_
      exact Yields.pure rfl
    | false =>
      refine (yields_other_keyword (by decide)).bind_eq ?_
      refine (yields_other_keyword (by decide)).bind_eq ?_
      refine (yields_keyword (by decide)).bind_eq ?_
      exact Yields.pure rfl
  | num x =>
    refine yields_tokenLiteral (by decide) fun token htoken => ?_
    rw [view, Prod.mk.injEq] at htoken
    unfold tokenLiteral
    rw [if_neg (by rw [htoken.1]; decide), if_pos htoken.1]
    refine yields_advance.bind fun _ _ => ?_
    have hsafe : ¬(lib.isInteger x && !lib.isSafeInteger x) = true := by
      intro h
      rw [Bool.and_eq_true, hv.2 (by simp_all)] at h
      cases h.2
    simp only [htoken.2, hlib.ofText_text hv.1, hv.1, Bool.not_true, Bool.false_eq_true, if_false,
      if_neg hsafe]
    exact Yields.pure rfl
  | str s =>
    refine yields_tokenLiteral (by decide) fun token htoken => ?_
    rw [view, Prod.mk.injEq] at htoken
    unfold tokenLiteral
    rw [if_pos htoken.1, htoken.2]
    exact yields_advance.bind fun _ _ => Yields.pure rfl
  | arr items =>
    obtain ⟨hsafe, t, ht⟩ := hv
    exact yields_json hjson (by simp) hsafe ht
  | obj fields =>
    obtain ⟨hsafe, t, ht⟩ := hv
    exact yields_json hjson (by simp) hsafe ht

theorem yields_operator (op : QueryOp) :
    Yields view (operator size) (operatorView op ++ vs) (· = op) vs := by
  have hsymbol : ∀ op, operatorView op = [(.symbol, queryOperators op)] →
      symbolOperators.lookup (queryOperators op) = some op →
      Yields view (operator size) (operatorView op ++ vs) (· = op) vs := by
    intro op hview hlookup
    rw [hview, List.singleton_append]
    refine (yields_keyword_not (by simp [isKeyword])).bind_eq ?_
    refine (yields_keyword_not (by simp [isKeyword])).bind_eq ?_
    refine yields_peek.bind ?_
    rintro (_ | token) htoken
    · cases htoken
    have hfound : (some token).bind symbolOperator = some op := by
      have hv : view token = (.symbol, queryOperators op) := Option.some.inj htoken
      rw [view, Prod.mk.injEq] at hv
      rw [Option.bind_some, symbolOperator, if_pos hv.1, hv.2, hlookup]
    rw [hfound]
    exact yields_advance.bind fun _ _ => Yields.pure rfl
  have hnull : ∀ {b : Bool}, Yields view (do
      expect size (js "NULL")
      return if b then QueryOp.isNotNull else QueryOp.isNull) ((.word, js "NULL") :: vs)
      (· = if b then .isNotNull else .isNull) vs :=
    (yields_expect (by decide)).bind fun _ _ => Yields.pure rfl
  cases op with
  | eq => exact hsymbol _ rfl (by decide)
  | ne => exact hsymbol _ rfl (by decide)
  | gt => exact hsymbol _ rfl (by decide)
  | gte => exact hsymbol _ rfl (by decide)
  | lt => exact hsymbol _ rfl (by decide)
  | lte => exact hsymbol _ rfl (by decide)
  | contains =>
    refine (yields_other_keyword (by decide)).bind_eq ?_
    refine (yields_keyword (by decide)).bind_eq ?_
    exact Yields.pure rfl
  | isNull =>
    refine (yields_keyword (by decide)).bind_eq ?_
    refine (yields_other_keyword (by decide)).bind_eq ?_
    exact hnull
  | isNotNull =>
    refine (yields_keyword (by decide)).bind_eq ?_
    refine (yields_keyword (by decide)).bind_eq ?_
    exact hnull

theorem yields_filter (hlib : lib.Lawful) (hjson : JsLib.RoundTrips lib) {f : QueryFilter lib.Num}
    (hf : FilterOk lib schema dataset f) :
    Yields view (filter lib size schema dataset) (filterView f ++ vs) (· = f) vs := by
  obtain ⟨⟨field, hfield, hop, hvalue⟩, hvalued⟩ := hf
  rw [filterView, List.append_assoc, List.cons_append]
  refine (yields_identifier f.field).bind fun token htoken => ?_
  refine (yields_requireField (by rw [htoken, hfield])).bind_eq ?_
  refine (yields_operator f.op).bind_eq ?_
  rw [if_neg (not_not.mpr hop)]
  cases hv : f.value with
  | none =>
    rw [if_pos (hvalued.mp hv), htoken]
    refine Yields.pure ?_
    rw [← hv]
  | some v =>
    have hneeded : ¬(f.op = .isNull ∨ f.op = .isNotNull) := by
      rw [← hvalued, hv]
      simp
    rw [if_neg hneeded]
    refine yields_peek.bind fun next _ => (yields_literal hlib hjson (hvalue v hv).1).bind_eq ?_
    rw [htoken, (hvalue _ hv).2]
    refine Yields.pure ?_
    rw [← hv]

theorem texts_eq {names : List JsText} {tokens : List QueryToken}
    (h : List.Forall₂ (fun n t => t.text = n) names tokens) : tokens.map QueryToken.text = names := by
  induction h with
  | nil => rfl
  | cons hnt _ ih => rw [List.map_cons, hnt, ih]

theorem separated_eq {α : Type} {xs as : List α} (h : List.Forall₂ (fun x a => a = x) xs as) : as = xs := by
  induction h with
  | nil => rfl
  | cons hxa _ ih => rw [hxa, ih]

variable {fields : List JsText} {filters : List (QueryFilter lib.Num)} {order : List QueryOrder}
  {limit : lib.Num}

theorem yields_filters (hlib : lib.Lawful) (hjson : JsLib.RoundTrips lib)
    (h : Accepted lib schema dataset fields filters order limit) :
    Yields view (QueryText.filters lib size schema dataset) (whereView filters ++ tailView order limit)
      (· = filters) (tailView order limit) := by
  unfold whereView
  split
  · rename_i hnil
    subst hnil
    refine (yields_other_keyword (by decide)).bind_eq ?_
    exact Yields.pure rfl
  · rename_i hne
    refine (yields_keyword (by decide)).bind_eq ?_
    have hloop : Yields view
        (Parser.repeatWhile (filter lib size schema dataset) (keyword (js "AND")))
        (Parser.separated filterView [(.word, js "AND")] filters ++ tailView order limit)
        (List.Forall₂ (fun f g => g = f) filters) (tailView order limit) :=
      Parser.yields_repeatWhile (fun f => by simp [filterView])
        (fun rest => yields_keyword (by decide)) (yields_other_keyword (by decide)) hne
        fun f hf rest => yields_filter hlib hjson (h.filters_ok f hf)
    intro ts hts
    obtain ⟨fs, rest, hrun, hfs, hrest⟩ := hloop ts hts
    exact ⟨fs, rest, hrun, separated_eq hfs, hrest⟩

theorem yields_orderItem {o : QueryOrder} (hfield : (queryField schema dataset o.field).isSome)
    (hdirection : o.direction.isSome) :
    Yields view (orderItem size schema dataset) (orderView o ++ vs) (· = o) vs := by
  obtain ⟨field, hfield⟩ := Option.isSome_iff_exists.mp hfield
  obtain ⟨direction, hdirection⟩ := Option.isSome_iff_exists.mp hdirection
  refine (yields_identifier o.field).bind fun token htoken => ?_
  refine (yields_requireField (by rw [htoken, hfield])).bind fun _ _ => ?_
  rw [htoken, hdirection]
  cases direction with
  | desc =>
    refine (yields_keyword (by decide)).bind_eq ?_
    refine Yields.pure ?_
    rw [← hdirection]
  | asc =>
    refine (yields_other_keyword (by decide)).bind_eq ?_
    refine (yields_keyword (by decide)).bind_eq ?_
    refine Yields.pure ?_
    rw [← hdirection]

theorem yields_order (h : Accepted lib schema dataset fields filters order limit) :
    Yields view (QueryText.order size schema dataset) (tailView order limit) (· = order)
      (limitView limit) := by
  refine (yields_keyword (by decide)).bind_eq ?_
  refine (yields_expect (by decide)).bind fun _ _ => ?_
  have hloop : Yields view (Parser.repeatWhile (orderItem size schema dataset) (symbol (js ",")))
      (Parser.separated orderView comma order ++ limitView limit)
      (List.Forall₂ (fun o p => p = o) order) (limitView limit) :=
    Parser.yields_repeatWhile (fun o => by simp [orderView]) (fun rest => yields_symbol)
      yields_word_not h.order_ne
      fun o ho rest => yields_orderItem (h.order_ok o ho).1 (h.order_ok o ho).2
  intro ts hts
  obtain ⟨os, rest, hrun, hos, hrest⟩ := hloop ts hts
  exact ⟨os, rest, hrun, separated_eq hos, hrest⟩

theorem yields_limit (hlib : lib.Lawful) (h : Accepted lib schema dataset fields filters order limit) :
    Yields view (QueryText.limit lib size schema) (limitView limit) (· = limit) [(.symbol, js ";")] := by
  obtain ⟨n, hn, hsmall, hone, hmax⟩ := h.limit_ok
  refine (yields_keyword (by decide)).bind_eq ?_
  refine yields_peek.bind ?_
  rintro (_ | t) ht
  · cases ht
  have hview : view t = (.number, lib.text limit) := Option.some.inj ht
  rw [view, Prod.mk.injEq] at hview
  have hsafe : lib.isSafeInteger limit = true := by
    rw [JsNumbers.isSafeInteger, hn]
    exact decide_eq_true hsmall
  have hvalid : (lib.isSafeInteger limit && (lib.whole limit).any fun n : ℤ =>
      1 ≤ n && n ≤ schema.limits.maxLimit) = true := by
    simp [hsafe, hn, hone, hmax]
  simp only [hview.1, ne_eq, not_true_eq_false, if_false, hview.2,
    hlib.ofText_text (hlib.finite_of_whole hn), hvalid, if_true]
  exact yields_advance.bind fun _ _ => Yields.pure rfl

theorem yields_clauses (hlib : lib.Lawful) (hjson : JsLib.RoundTrips lib)
    (h : Accepted lib schema dataset fields filters order limit) :
    Yields view (clauses lib size schema dataset fields) (whereView filters ++ tailView order limit)
      (· = ⟨dataset.name, some fields, some filters, some order, some limit⟩) [] := by
  refine (yields_filters hlib hjson h).bind_eq ?_
  rw [if_neg (by have := h.filters_le; omega)]
  refine (yields_order h).bind_eq ?_
  rw [if_neg (by have := h.order_le; omega)]
  refine (yields_limit hlib h).bind_eq ?_
  refine yields_symbol.bind fun _ _ => yields_peek.bind ?_
  rintro (_ | token) htoken
  · rw [if_neg h.order_ne]
    exact Yields.pure rfl
  · cases htoken

theorem yields_requireFields {tokens : List QueryToken}
    (h : ∀ t ∈ tokens, (queryField schema dataset t.text).isSome) :
    Yields view (requireFields size schema dataset tokens) given (fun _ => True) given := by
  induction tokens with
  | nil => exact Yields.pure trivial
  | cons t ts ih =>
    obtain ⟨field, hfield⟩ := Option.isSome_iff_exists.mp (h t List.mem_cons_self)
    exact (yields_requireField hfield).bind fun _ _ => ih fun u hu => h u (List.mem_cons_of_mem _ hu)

theorem distinct_of_nodup {xs : List JsText} (h : xs.Nodup) : distinct xs = xs := by
  unfold distinct
  induction xs using List.reverseRecOn with
  | nil => rfl
  | append_singleton xs x ih =>
    obtain ⟨hxs, -, hx⟩ := List.nodup_append.mp h
    rw [List.foldl_append, ih hxs, List.foldl_cons, List.foldl_nil, if_neg]
    exact fun hmem => hx x hmem x List.mem_cons_self rfl

theorem names_head {names : List JsText} (h : names ≠ []) :
    (Parser.separated (fun n => [nameView n]) comma names ++ vs).head?.any (isSymbol (js "*")) = false := by
  have hview : ∀ n, isSymbol (js "*") (nameView n) = false := by
    intro n
    unfold nameView
    split <;> rfl
  rcases names with _ | ⟨n, _ | ⟨m, names⟩⟩
  · exact absurd rfl h
  · exact hview n
  · exact hview n

theorem yields_query (hlib : lib.Lawful) (hjson : JsLib.RoundTrips lib)
    (h : Accepted lib schema dataset fields filters order limit) :
    Yields view (query lib size schema) (queryView dataset.name fields filters order limit)
      (· = ⟨dataset.name, some fields, some filters, some order, some limit⟩) [] := by
  refine (yields_expect (by decide)).bind fun _ _ => ?_
  have hselection : Yields view (selection size)
      (Parser.separated (fun n => [nameView n]) comma fields ++
        (.word, js "FROM") :: nameView dataset.name :: (whereView filters ++ tailView order limit))
      (fun r => r.1 = false ∧ List.Forall₂ (fun n t => t.text = n) fields r.2)
      ((.word, js "FROM") :: nameView dataset.name :: (whereView filters ++ tailView order limit)) := by
    refine (yields_symbol_not (names_head h.fields_ne)).bind_eq ?_
    refine (Parser.yields_repeatWhile (fun n => List.cons_ne_nil _ _) (fun rest => yields_symbol)
      yields_word_not h.fields_ne fun n _ rest => yields_identifier n).bind ?_
    exact fun tokens htokens => Yields.pure ⟨rfl, htokens⟩
  refine hselection.bind ?_
  rintro ⟨_, tokens⟩ ⟨rfl, htokens⟩
  refine (yields_expect (by decide)).bind fun _ _ => (yields_identifier dataset.name).bind ?_
  rintro source hsource
  have htexts := texts_eq htokens
  have hknown : ∀ t ∈ tokens, (queryField schema dataset t.text).isSome := fun t ht =>
    h.fields_known _ (htexts ▸ List.mem_map_of_mem ht)
  simp only [hsource, h.found]
  refine (yields_requireFields hknown).bind fun _ _ => ?_
  rw [if_neg Bool.false_ne_true, htexts, distinct_of_nodup h.fields_nodup,
    if_neg (by have := h.fields_le; omega)]
  exact yields_clauses hlib hjson h

end

/-! ### What the parser accepts -/

section
open Schemes.Parser (Ensures)
variable {size : ℕ} {lib : JsLib} {schema : QuerySchema} {dataset : DatasetSpec}

theorem ensures_fail {α : Type} {message : JsText} {token : Option QueryToken} {Q : α → Prop} :
    Ensures (fail size message token) Q := by
  intro ts a rest h
  cases h

theorem ensures_failHere {α : Type} {message : JsText} {Q : α → Prop} :
    Ensures (failHere size message) Q :=
  (Ensures.any peek).bind fun _ _ => ensures_fail

theorem ensures_requireField {token : QueryToken} : Ensures (requireField size schema dataset token)
    fun field => queryField schema dataset token.text = some field := by
  unfold requireField
  split
  · rename_i field hfield
    exact Ensures.pure hfield
  · exact ensures_fail

theorem ensures_jsonLiteral : Ensures (jsonLiteral lib size) (Literal lib) := by
  refine (Ensures.any peek).bind fun value _ => ?_
  split
  · exact ensures_failHere
  rename_i t
  split
  · exact ensures_failHere
  refine (Ensures.any advance).bind fun _ _ => ?_
  split
  · exact ensures_fail
  · exact ensures_fail
  · rename_i parsed hnull hparsed
    split
    · rename_i hsafe
      refine Ensures.pure ?_
      cases parsed with
      | null => exact absurd rfl hnull
      | bool b => trivial
      | str s => trivial
      | num x =>
        simp only [safeJsonNumbers, Bool.and_eq_true, Bool.or_eq_true, Bool.not_eq_true'] at hsafe
        refine ⟨hsafe.1, fun hint => ?_⟩
        rcases hsafe.2 with hno | hyes
        · rw [hint] at hno
          cases hno
        · exact hyes
      | arr items => exact ⟨hsafe, _, hparsed⟩
      | obj fields => exact ⟨hsafe, _, hparsed⟩
    · exact ensures_fail

theorem ensures_tokenLiteral {token : QueryToken} :
    Ensures (tokenLiteral lib size token) (Literal lib) := by
  unfold tokenLiteral
  split
  · exact (Ensures.any advance).bind fun _ _ => Ensures.pure trivial
  split
  · refine (Ensures.any advance).bind fun _ _ => ?_
    simp only
    split
    · exact ensures_fail
    split
    · exact ensures_fail
    · rename_i hfinite hsafe
      refine Ensures.pure ⟨by simpa using hfinite, fun hint => ?_⟩
      simpa [hint] using hsafe
  · exact ensures_fail

theorem ensures_literal : Ensures (literal lib size) (Literal lib) := by
  refine (Ensures.any peek).bind fun token _ => ?_
  split
  · exact ensures_failHere
  refine (Ensures.any _).bind fun json _ => ?_
  split
  · exact ensures_jsonLiteral
  refine (Ensures.any _).bind fun yes _ => ?_
  split
  · exact Ensures.pure trivial
  refine (Ensures.any _).bind fun no _ => ?_
  split
  · exact Ensures.pure trivial
  · exact ensures_tokenLiteral

theorem ensures_filter : Ensures (filter lib size schema dataset) (FilterOk lib schema dataset) := by
  refine (Ensures.any _).bind fun token _ => ensures_requireField.bind fun field hfield => ?_
  refine (Ensures.any _).bind fun op _ => ?_
  split
  · exact ensures_fail
  rename_i hop
  split
  · rename_i hnull
    refine Ensures.pure ⟨⟨field, hfield, not_not.mp hop, fun v hv => by cases hv⟩, ?_⟩
    exact iff_of_true rfl hnull
  rename_i hneeded
  refine (Ensures.any _).bind fun next _ => ensures_literal.bind fun v hv => ?_
  split
  · exact ensures_fail
  rename_i hvalid
  refine Ensures.pure ⟨⟨field, hfield, not_not.mp hop, ?_⟩, ?_⟩
  · rintro _ ⟨⟩
    exact ⟨hv, hvalid⟩
  · exact iff_of_false (by simp) hneeded

theorem ensures_filters : Ensures (filters lib size schema dataset)
    fun fs => ∀ f ∈ fs, FilterOk lib schema dataset f := by
  refine (Ensures.any _).bind fun found _ => ?_
  split
  · exact fun ts fs rest h => (Parser.ensures_repeatWhile ensures_filter ts fs rest h).2
  · exact Ensures.pure (by simp)

theorem ensures_orderItem : Ensures (orderItem size schema dataset)
    fun o => (queryField schema dataset o.field).isSome ∧ o.direction.isSome := by
  refine (Ensures.any _).bind fun token _ => ensures_requireField.bind fun field hfield => ?_
  have hsome := Option.isSome_of_eq_some hfield
  refine (Ensures.any _).bind fun desc _ => ?_
  split
  · exact Ensures.pure ⟨hsome, rfl⟩
  · exact (Ensures.any _).bind fun _ _ => Ensures.pure ⟨hsome, rfl⟩

theorem ensures_order : Ensures (order size schema dataset)
    fun os => ∀ o ∈ os, (queryField schema dataset o.field).isSome ∧ o.direction.isSome := by
  refine (Ensures.any _).bind fun found _ => ?_
  split
  · refine (Ensures.any _).bind fun _ _ => ?_
    exact fun ts os rest h => (Parser.ensures_repeatWhile ensures_orderItem ts os rest h).2
  · exact Ensures.pure (by simp)

/-- What the parser needs of a schema: every dataset has fields and a default order of its own fields,
    and the default limit is allowed. -/
structure QuerySchema.Sound (schema : QuerySchema) : Prop where
  fields_ne : ∀ d ∈ schema.datasets, d.fields ≠ []
  order_ne : ∀ d ∈ schema.datasets, d.defaultOrder ≠ []
  order_le : ∀ d ∈ schema.datasets, d.defaultOrder.length ≤ schema.limits.maxOrderBy
  order_ok : ∀ d ∈ schema.datasets, ∀ o ∈ d.defaultOrder,
    (queryField schema d o.field).isSome ∧ o.direction.isSome
  limit_le : 100 ≤ schema.limits.maxLimit

theorem structuredQuerySchema_sound : structuredQuerySchema.Sound where
  fields_ne := by decide
  order_ne := by decide
  order_le := by decide
  order_ok := by decide
  limit_le := by decide

theorem ensures_limit (hlib : lib.Lawful) (hschema : schema.Sound) : Ensures (limit lib size schema)
    fun x => ∃ n : ℤ, lib.whole x = some n ∧ |n| < 2 ^ 53 ∧ 1 ≤ n ∧ n ≤ schema.limits.maxLimit := by
  refine (Ensures.any _).bind fun found _ => ?_
  split
  · refine (Ensures.any _).bind fun token _ => ?_
    split
    · exact ensures_failHere
    split
    · exact ensures_failHere
    refine (Ensures.any _).bind fun _ _ => ?_
    simp only
    split
    · rename_i t hkind hvalid
      refine Ensures.pure ?_
      simp only [JsNumbers.isSafeInteger, Bool.and_eq_true, Option.any_eq_true, decide_eq_true_eq] at hvalid
      obtain ⟨⟨n, hn, hsmall⟩, m, hm, hone, hmax⟩ := hvalid
      rw [hn] at hm
      cases hm
      exact ⟨n, hn, hsmall, hone, hmax⟩
    · exact ensures_fail
  · have hsmall : |(100 : ℤ)| < 2 ^ 53 := by decide
    have hwhole : lib.whole (lib.ofText (js "100")) = some 100 := hlib.whole_ofText hsmall
    refine Ensures.pure ⟨100, hwhole, hsmall, by decide, ?_⟩
    exact_mod_cast hschema.limit_le

theorem distinct_concat (xs : List JsText) (y : JsText) : distinct (xs ++ [y]) =
    if y ∈ distinct xs then distinct xs else distinct xs ++ [y] := by
  rw [distinct, List.foldl_append, List.foldl_cons, List.foldl_nil, distinct]

theorem mem_distinct {xs : List JsText} {x : JsText} : x ∈ distinct xs ↔ x ∈ xs := by
  induction xs using List.reverseRecOn with
  | nil => rfl
  | append_singleton xs y ih =>
    rw [distinct_concat, List.mem_append, List.mem_singleton]
    split
    · rename_i hy
      rw [ih]
      refine ⟨.inl, ?_⟩
      rintro (hx | rfl)
      · exact hx
      · exact ih.mp hy
    · rw [List.mem_append, ih, List.mem_singleton]

theorem nodup_distinct (xs : List JsText) : (distinct xs).Nodup := by
  induction xs using List.reverseRecOn with
  | nil => exact List.nodup_nil
  | append_singleton xs y ih =>
    rw [distinct_concat]
    split
    · exact ih
    · rename_i hy
      rw [← List.concat_eq_append]
      exact ih.concat hy

theorem ensures_selection : Ensures (selection size)
    fun r => r.1 = true ∧ r.2 = [] ∨ r.1 = false ∧ r.2 ≠ [] := by
  refine (Ensures.any _).bind fun all _ => ?_
  split
  · exact Ensures.pure (.inl ⟨rfl, rfl⟩)
  · refine (Parser.ensures_repeatWhile (Ensures.any _)).bind fun tokens htokens => ?_
    exact Ensures.pure (.inr ⟨rfl, htokens.1⟩)

theorem ensures_requireFields {tokens : List QueryToken} : Ensures (requireFields size schema dataset tokens)
    fun _ => ∀ t ∈ tokens, (queryField schema dataset t.text).isSome := by
  induction tokens with
  | nil => exact Ensures.pure (by simp)
  | cons t ts ih =>
    refine ensures_requireField.bind fun field hfield => ?_
    intro tokens a rest h
    have hts := ih tokens a rest h
    simpa [hfield] using hts

/-- A column is found under its own name. -/
theorem queryField_column {d : DatasetSpec} {f : FieldSpec} (hf : f ∈ d.fields) :
    (queryField schema d f.name).isSome := by
  have hfound : (d.fields.find? fun g => g.name = f.name).isSome :=
    List.find?_isSome.mpr ⟨f, hf, by simp⟩
  obtain ⟨g, hg⟩ := Option.isSome_iff_exists.mp hfound
  rw [queryField, hg]
  rfl

/-- The query in its parts. -/
def AcceptedQuery (lib : JsLib) (schema : QuerySchema) (q : StructuredQueryRequest lib.Num) : Prop :=
  ∃ dataset fields filters order limit,
    q = ⟨dataset.name, some fields, some filters, some order, some limit⟩ ∧
    Accepted lib schema dataset fields filters order limit

theorem ensures_clauses (hlib : lib.Lawful) (hschema : schema.Sound) {fields : List JsText}
    (hfound : schema.datasets.find? (fun d => d.name = dataset.name) = some dataset)
    (hne : fields ≠ []) (hnodup : fields.Nodup) (hle : fields.length ≤ schema.limits.maxFields)
    (hknown : ∀ f ∈ fields, (queryField schema dataset f).isSome) :
    Ensures (clauses lib size schema dataset fields) (AcceptedQuery lib schema) := by
  have hmem : dataset ∈ schema.datasets := List.mem_of_find?_eq_some hfound
  refine ensures_filters.bind fun filters hfilters => ?_
  split
  · exact ensures_failHere
  rename_i hfiltersLe
  refine ensures_order.bind fun order horder => ?_
  split
  · exact ensures_failHere
  rename_i horderLe
  refine (ensures_limit hlib hschema).bind fun limit hlimit => ?_
  refine (Ensures.any _).bind fun _ _ => (Ensures.any _).bind fun token _ => ?_
  split
  · exact ensures_failHere
  refine Ensures.pure ⟨dataset, fields, filters, _, limit, rfl, ?_⟩
  have hdefault : order = [] ∨ order ≠ [] := em _
  rcases hdefault with rfl | hcustom
  · exact ⟨hfound, hne, hnodup, hle, hknown, by omega, hfilters, hschema.order_ne dataset hmem,
      hschema.order_le dataset hmem, hschema.order_ok dataset hmem, hlimit⟩
  · rw [if_neg hcustom]
    exact ⟨hfound, hne, hnodup, hle, hknown, by omega, hfilters, hcustom, by omega, horder, hlimit⟩

theorem ensures_query (hlib : lib.Lawful) (hschema : schema.Sound) :
    Ensures (query lib size schema) (AcceptedQuery lib schema) := by
  refine (Ensures.any _).bind fun _ _ => ensures_selection.bind fun selected hselected => ?_
  refine (Ensures.any _).bind fun _ _ => (Ensures.any _).bind fun source _ => ?_
  split
  · exact ensures_fail
  rename_i dataset hdataset
  have hname : dataset.name = source.text := by simpa using List.find?_some hdataset
  refine ensures_requireFields.bind fun _ hfields => ?_
  simp only
  generalize hnames : (if selected.1 then dataset.fields.map FieldSpec.name
    else selected.2.map QueryToken.text) = names
  split
  · exact ensures_fail
  rename_i hle
  rw [← hname] at hdataset
  have hmem : dataset ∈ schema.datasets := List.mem_of_find?_eq_some hdataset
  refine ensures_clauses hlib hschema hdataset ?_ (nodup_distinct _) (by omega) ?_
  · intro hnil
    have hempty : ∀ x, x ∉ names := by
      intro x hx
      rw [← mem_distinct, hnil] at hx
      cases hx
    rw [List.eq_nil_iff_forall_not_mem.mpr hempty] at hnames
    rcases hselected with ⟨hall, -⟩ | ⟨hall, hsome⟩
    · rw [hall, if_pos rfl, List.map_eq_nil_iff] at hnames
      exact hschema.fields_ne dataset hmem hnames
    · rw [hall, if_neg Bool.false_ne_true, List.map_eq_nil_iff] at hnames
      exact hsome hnames
  · intro f hf
    rw [mem_distinct, ← hnames] at hf
    split at hf
    · obtain ⟨spec, hspec, rfl⟩ := List.mem_map.mp hf
      exact queryField_column hspec
    · obtain ⟨t, ht, rfl⟩ := List.mem_map.mp hf
      exact hfields t ht

theorem parseQueryText_accepted (hlib : lib.Lawful) (hschema : schema.Sound) {text : JsText}
    {q : StructuredQueryRequest lib.Num} (h : parseQueryText lib schema text = .ok q) :
    AcceptedQuery lib schema q := by
  unfold parseQueryText at h
  cases htokens : queryTokens text false false with
  | error e => rw [htokens] at h; cases h
  | ok tokens =>
    rw [htokens] at h
    cases hquery : query lib text.length schema tokens with
    | error e =>
      simp only [bind, Except.bind, hquery] at h
      cases h
    | ok r =>
      simp only [bind, Except.bind, hquery] at h
      cases h
      exact ensures_query hlib hschema tokens r.1 r.2 hquery

/-- The printed text of an accepted query is read as that query. -/
theorem parse_printedQuery (hlib : lib.Lawful) (hjson : JsLib.RoundTrips lib) {fields : List JsText}
    {filters : List (QueryFilter lib.Num)} {order : List QueryOrder} {limit : lib.Num}
    (h : Accepted lib schema dataset fields filters order limit) :
    parseQueryText lib schema (printedQuery dataset.name fields filters order limit) =
      .ok ⟨dataset.name, some fields, some filters, some order, some limit⟩ := by
  obtain ⟨tokens, htokens, hviews⟩ := reads_printedQuery hlib h 0 _ le_rfl
  have hyields : Parser.Yields view
      (query lib (printedQuery dataset.name fields filters order limit).length schema)
      (queryView dataset.name fields filters order limit) _ [] := yields_query hlib hjson h
  obtain ⟨q, rest, hrun, rfl, -⟩ := hyields tokens hviews
  unfold parseQueryText queryTokens
  rw [htokens]
  simp only [bind, Except.bind, hrun]
  rfl

/-- ROUND TRIP: what the editor accepts is written as a text that the editor accepts, with the same
    query. -/
theorem query_text_round_trips (lib : JsLib) (hlib : lib.Lawful) (hjson : JsLib.RoundTrips lib)
    (text : JsText) (q : StructuredQueryRequest lib.Num)
    (h : parseQueryText lib structuredQuerySchema text = .ok q) :
    ∃ printed, formatQueryText lib structuredQuerySchema q = .ok printed ∧
      parseQueryText lib structuredQuerySchema printed = .ok q := by
  obtain ⟨dataset, fields, filters, order, limit, rfl, haccepted⟩ :=
    parseQueryText_accepted hlib structuredQuerySchema_sound h
  exact ⟨_, formatQueryText_ok haccepted, parse_printedQuery hlib hjson haccepted⟩

end

/-! ### An instance -/

/-- Numbers without fractions. -/
def wholeNumbers : JsNumbers where
  Num := ℤ
  ofText text := if text.head? = some 45 then -digitsValue text.tail else digitsValue text
  text n := js (toString n)
  isFinite _ := true
  whole := some

theorem digitsValue_decimal (k : ℕ) : digitsValue (decimal k) = k := by
  rw [digitsValue, decimal, List.foldl_map]
  exact Nat.ofDigitChars_ten_toDigits

theorem ofText_text (n : ℤ) : wholeNumbers.ofText (wholeNumbers.text n) = n := by
  cases n with
  | ofNat k =>
    have h : wholeNumbers.text (Int.ofNat k) = decimal k := js_toString_nat k
    obtain ⟨d, hd, hdigit⟩ := head_digits (digits_decimal k) []
    rw [List.append_nil] at hd
    have hhead : ¬(decimal k).head? = some 45 := by
      rw [hd]
      rintro ⟨⟩
      cases hdigit
    rw [h]
    change (if (decimal k).head? = some 45 then -((digitsValue (decimal k).tail : ℕ) : ℤ)
      else ((digitsValue (decimal k) : ℕ) : ℤ)) = _
    rw [if_neg hhead, digitsValue_decimal]
    rfl
  | negSucc k =>
    have h : wholeNumbers.text (Int.negSucc k) = 45 :: decimal (k + 1) := js_toString_negSucc k
    rw [h]
    change -((digitsValue (decimal (k + 1)) : ℕ) : ℤ) = _
    rw [digitsValue_decimal]
    rfl

theorem wholeNumbers_lawful : wholeNumbers.Lawful where
  finite_of_whole _ := rfl
  numeral _ := numeral_toString _
  ofText_text _ := ofText_text _
  whole_ofText {n} _ := congrArg some (ofText_text n)
  text_whole h _ := by cases h; rfl

/-- A JSON value as the sample query writes it. -/
def teamJson : JsText := js "\x7b\"team\":\"x\"\x7d"

/-- The value of `teamJson`. -/
def teamValue : JsValue ℤ := .obj [(js "team", .str (js "x"))]

/-- Reads one JSON text. -/
def teamLib : JsLib where
  toJsNumbers := wholeNumbers
  jsonParse t := if t = teamJson then some teamValue else none
  dateParse _ := none
  objectText _ := []

theorem teamLib_roundTrips : JsLib.RoundTrips teamLib := by
  intro t v h _
  have hvalue : v = teamValue := by
    change (if t = teamJson then some teamValue else none) = some v at h
    split at h
    · exact (Option.some.inj h).symm
    · cases h
  have hwritten : stringify wholeNumbers teamValue = teamJson := by decide +kernel
  subst hvalue
  change (if stringify wholeNumbers teamValue = teamJson then some teamValue else none) = some teamValue
  rw [if_pos hwritten]

/-- A query with a quoted name, a JSON value, a doubled quote and a comment. -/
def teamText : JsText := js ("SELECT id, \"plugin_metadata.My-plugin.team\" FROM requests " ++
  "WHERE status >= -400 and plugin_metadata contains JSON '\x7b\"team\":\"x\"\x7d' " ++
  "AND model = 'O''Reilly' /* any */ LIMIT 10")

theorem query_text_round_trips_team : ∃ q, parseQueryText teamLib structuredQuerySchema teamText = .ok q ∧
    ∃ printed, formatQueryText teamLib structuredQuerySchema q = .ok printed ∧
      parseQueryText teamLib structuredQuerySchema printed = .ok q := by
  have hok : (parseQueryText teamLib structuredQuerySchema teamText).isOk = true := by decide +kernel
  cases h : parseQueryText teamLib structuredQuerySchema teamText with
  | error e => rw [h] at hok; cases hok
  | ok q =>
    exact ⟨q, rfl, query_text_round_trips teamLib wholeNumbers_lawful teamLib_roundTrips teamText q h⟩

end Llmtrace.QueryText
