import Llmtrace.Query.Sql

/-! The answer of a structured query (`run_structured_query`): the names of the selected fields and
    one object for each row.

    The database is given by the values it returns for a statement. It names the columns itself: they
    are the quoted identifiers of the text, cut to `NAMEDATALEN - 1` bytes, and `to_jsonb` keeps one
    value for each name. The announced names are not cut. -/

namespace Llmtrace.Query
open Schemes

/-! ### The columns of a statement -/

/-- The quoted identifiers of a text; `some acc` is the one being read. -/
def quoted : Option (List Char) → List Char → List (List Char)
  | _, [] => []
  | none, c :: cs => if c = '"' then quoted (some []) cs else quoted none cs
  | some acc, c :: cs => if c = '"' then acc :: quoted none cs else quoted (some (acc ++ [c])) cs

/-- `NAMEDATALEN - 1` of PostgreSQL. -/
def identifierBytes : ℕ := 63

/-- `truncate_identifier` of the database. -/
def truncateIdentifier (name : List Char) : String := .ofList (truncateUtf8 name identifierBytes)

/-- The columns that the statement's aliases give its result. -/
def columnNames (sql : String) : List String := (quoted none sql.toList).map truncateIdentifier

/-- `to_jsonb` of a row, as the response holds it: the last value of each name, in the order of the
    names. -/
def toJsonb (columns : List String) (values : List Json) : List (String × Json) :=
  (columns.zip values).foldl (fun row column => put column.1 column.2 row) []

/-- What the database answers to a statement: the rows, with one value for each column, or an error. -/
structure Database where
  select : QueryBuilder → Except String (List (List Json))
  width : ∀ b rows, select b = .ok rows → ∀ row ∈ rows, row.length = (columnNames b.sql).length

/-- `StructuredQueryError` -/
inductive StructuredQueryError where
  | invalid (error : QueryError)
  | execution (error : String)

/-- The response of `run_structured_query`. -/
structure QueryResponse where
  dataset : String
  fields : List String
  rows : List (List (String × Json))
  limit : ℤ

/-- The response to a query that is accepted. -/
def respond (database : Database) (request : StructuredQuery) (dataset : DatasetSpec)
    (selected : List QueryField) (b : QueryBuilder) : Except StructuredQueryError QueryResponse := do
  let rows ← (database.select b).mapError .execution
  return {
    dataset := dataset.name
    fields := selected.map QueryField.name
    rows := rows.map (toJsonb (columnNames b.sql))
    limit := max 1 (min (request.limit.getD 100) 500) }

/-- `run_structured_query`, with the database that executes its statement. -/
def runStructuredQuery (lib : ValueLib) (database : Database) (request : StructuredQuery) :
    Except StructuredQueryError QueryResponse := do
  let dataset ← (datasetSpec request.dataset).mapError .invalid
  let selected ← (selectedFields dataset request.fields).mapError .invalid
  let b ← (buildStructuredQuery lib request).mapError .invalid
  respond database request dataset selected b

/-! ### The selected names -/

theorem queryField_name {dataset : DatasetSpec} {name : String} {field : QueryField}
    (h : queryField dataset name = .ok field) : field.name = name := by
  obtain ⟨spec, -, rfl, hname⟩ | ⟨path, -, rfl, -⟩ := queryField_ok h
  · exact hname
  · rfl

/-- The names are taken over once each. -/
theorem selectFields_names {dataset : DatasetSpec} : ∀ {names : List String}
    {selected out : List QueryField}, selectFields dataset names selected = .ok out →
    (selected.map QueryField.name).Nodup → (out.map QueryField.name).Nodup ∧
      ∀ name, name ∈ out.map QueryField.name ↔ name ∈ selected.map QueryField.name ∨ name ∈ names
  | [], selected, out, h, hnodup => by
    cases h
    exact ⟨hnodup, fun name => by simp⟩
  | x :: names, selected, out, h, hnodup => by
    simp only [selectFields, bind_eq_ok] at h
    obtain ⟨field, hfield, h⟩ := h
    have hname := queryField_name hfield
    split_ifs at h with hin
    · obtain ⟨hout, hmem⟩ := selectFields_names h hnodup
      have hx : x ∈ selected.map QueryField.name := by simpa [hname] using hin
      refine ⟨hout, fun name => (hmem name).trans ?_⟩
      rw [List.mem_cons]
      constructor
      · exact Or.imp_right .inr
      · rintro (hsel | rfl | hrest)
        exacts [.inl hsel, .inl hx, .inr hrest]
    · have hx : x ∉ selected.map QueryField.name := by simpa [hname] using hin
      have hnodup' : ((selected ++ [field]).map QueryField.name).Nodup := by
        rw [List.map_append, List.map_singleton, hname]
        refine List.nodup_append.mpr ⟨hnodup, List.nodup_singleton x, ?_⟩
        rintro name hin y hy rfl
        exact hx (List.mem_singleton.mp hy ▸ hin)
      obtain ⟨hout, hmem⟩ := selectFields_names h hnodup'
      refine ⟨hout, fun name => (hmem name).trans ?_⟩
      rw [List.map_append, List.map_singleton, hname, List.mem_append, List.mem_singleton, List.mem_cons,
        or_assoc]

theorem selectedFields_names {dataset : DatasetSpec} {requested : Option (List String)}
    {selected : List QueryField} (h : selectedFields dataset requested = .ok selected) :
    (selected.map QueryField.name).Nodup ∧
      ∀ name, name ∈ selected.map QueryField.name ↔ name ∈ requested.getD dataset.defaultFields := by
  simp only [selectedFields, bind_eq_ok] at h
  obtain ⟨names, hnames, out, hout, h⟩ := h
  split_ifs at h
  cases h
  obtain ⟨hnodup, hmem⟩ := selectFields_names hout List.nodup_nil
  have hrequested : requested.getD dataset.defaultFields = names := by
    unfold selectedNames at hnames
    split at hnames
    · cases hnames
    · split_ifs at hnames
      cases hnames
      rfl
    · cases hnames
      rfl
  exact ⟨hnodup, fun name => by simpa [hrequested] using hmem name⟩

/-! ### The aliases in the text -/

theorem quoted_outside {t : List Char} (h : '"' ∉ t) (rest : List Char) :
    quoted none (t ++ rest) = quoted none rest := by
  induction t with
  | nil => rfl
  | cons c t ih =>
    obtain ⟨hc, ht⟩ := not_or.mp (mt List.mem_cons.mpr h)
    rw [List.cons_append, quoted, if_neg (Ne.symm hc), ih ht]

theorem quoted_inside {t : List Char} (h : '"' ∉ t) (acc rest : List Char) :
    quoted (some acc) (t ++ '"' :: rest) = (acc ++ t) :: quoted none rest := by
  induction t generalizing acc with
  | nil => simp [quoted]
  | cons c t ih =>
    obtain ⟨hc, ht⟩ := not_or.mp (mt List.mem_cons.mpr h)
    rw [List.cons_append, quoted, if_neg (Ne.symm hc), ih ht]
    simp

/-- The alias that a piece writes. -/
def Piece.alias : Piece → Option String
  | .identifier name => some name
  | _ => none

/-- The aliases of a statement, in their order. -/
def aliases (ps : List Piece) : List String := ps.filterMap Piece.alias

theorem noQuote_of_identifierChar {name : String} (h : name.toList.all identifierChar) :
    '"' ∉ name.toList := by
  intro hmem
  have := List.all_eq_true.mp h _ hmem
  exact absurd this (by decide)

theorem noQuote_bind (n : ℕ) : '"' ∉ (Piece.bind.text n).toList := by
  have htext : (Piece.bind.text n).toList = '$' :: Nat.toDigits 10 (n + 1) := by
    simp only [Piece.text, String.toList_append, Nat.toString_eq_repr, Nat.toList_repr]
    rfl
  rw [htext]
  intro hmem
  rcases List.mem_cons.mp hmem with h | h
  · exact absurd h (by decide)
  · exact absurd (Nat.isDigit_of_mem_toDigits (by decide) (by decide) h) (by decide)

theorem fragments_noQuote : ∀ text ∈ fragments, '"' ∉ text.toList := by decide +kernel

theorem relations_noQuote : ∀ dataset ∈ datasets, '"' ∉ dataset.relation.toList := by decide +kernel

/-- Only the aliases are quoted: reading the text of a template gives them back. -/
theorem quoted_render {dataset : DatasetSpec} (hd : dataset ∈ datasets) : ∀ {ps : List Piece} (n : ℕ),
    AllAllowed dataset ps → quoted none (render n ps).toList = (aliases ps).map String.toList
  | [], _, _ => rfl
  | p :: ps, n, h => by
    obtain ⟨hp, hps⟩ := allAllowed_cons.mp h
    rw [render, String.toList_append]
    have ih := quoted_render hd (n + p.binds) hps
    cases p with
    | fixed text => exact (quoted_outside (fragments_noQuote text hp) _).trans ih
    | column name =>
      obtain ⟨spec, hspec, rfl⟩ := List.mem_map.mp hp
      have hname := fieldNames_safe dataset hd spec hspec
      exact (quoted_outside (noQuote_of_identifierChar hname) _).trans ih
    | relation name =>
      obtain rfl : name = dataset.relation := hp
      exact (quoted_outside (relations_noQuote dataset hd) _).trans ih
    | identifier name =>
      have hquoted := quoted_inside (noQuote_of_identifierChar hp) []
        (render (n + (Piece.identifier name).binds) ps).toList
      rw [ih] at hquoted
      simpa [Piece.text, quoted, aliases, Piece.alias] using hquoted
    | bind => exact (quoted_outside (noQuote_bind n) _).trans ih

@[simp] theorem aliases_nil : aliases [] = [] := rfl

@[simp] theorem aliases_cons (p : Piece) (ps : List Piece) :
    aliases (p :: ps) = p.alias.toList ++ aliases ps := by
  cases p <;> rfl

@[simp] theorem aliases_append (ps qs : List Piece) : aliases (ps ++ qs) = aliases ps ++ aliases qs :=
  List.filterMap_append

@[simp] theorem aliases_field (field : QueryField) : aliases (fieldPieces field) = [] := by
  cases field <;> rfl

theorem aliases_selected (field : QueryField) : aliases (selectedPieces field) = [field.name] := by
  rw [selectedPieces, aliases_append, aliases_field]
  rfl

theorem aliases_order (order : QueryField × SortDirection) : aliases (orderPieces order) = [] := by
  rw [orderPieces, aliases_append, aliases_field]
  rfl

theorem aliases_null (field : QueryField) (isNull : Bool) : aliases (nullPieces field isNull) = [] := by
  cases field <;> rfl

theorem aliases_value (field : QueryField) (op : QueryOp) (kind : FilterKind) :
    aliases (valuePieces field op kind) = [] := by
  cases kind with
  | text | json | jsonPath =>
    simp only [valuePieces]
    split_ifs <;> simp [Piece.alias]
  | _ => simp [valuePieces, Piece.alias]

theorem aliases_filter (dataset : DatasetSpec) (filter : QueryFilter) :
    aliases (filterTemplate dataset filter) = [] := by
  unfold filterTemplate
  split
  · unfold filterPieces
    split_ifs
    exacts [aliases_null _ _, aliases_null _ _, aliases_null _ _, aliases_value _ _ _]
  · rfl

theorem aliases_separated (separator : String) : ∀ (index : ℕ) (pieces : List (List Piece)),
    aliases (separatedPieces separator index pieces) = pieces.flatMap aliases
  | _, [] => rfl
  | index, ps :: rest => by
    rw [separatedPieces, aliases_append, aliases_append, aliases_separated separator (index + 1) rest,
      List.flatMap_cons]
    have hsep : aliases (if 0 < index then [.fixed separator] else []) = [] := by split_ifs <;> rfl
    rw [hsep, List.nil_append]

theorem aliases_queryTemplate (dataset : DatasetSpec) (selected : List QueryField)
    (filters : List QueryFilter) (orderBy : List (QueryField × SortDirection)) :
    aliases (queryTemplate dataset selected (filters.map (filterTemplate dataset)) orderBy) =
      selected.map QueryField.name := by
  have hselect : (selected.map selectedPieces).flatMap aliases = selected.map QueryField.name := by
    induction selected with
    | nil => rfl
    | cons field selected ih => simp [aliases_selected, ih]
  have hwhere : (filters.map (filterTemplate dataset)).flatMap aliases = [] := by
    simp [List.flatMap_eq_nil_iff, aliases_filter]
  have horder : (orderBy.map orderPieces).flatMap aliases = [] := by
    rw [List.flatMap_map, List.flatMap_eq_nil_iff]
    exact fun order _ => aliases_order order
  have hfilters : aliases (if filters.map (filterTemplate dataset) = [] then []
      else [.fixed " WHERE "] ++
        separatedPieces " AND " 0 (filters.map (filterTemplate dataset))) = [] := by
    split_ifs
    · rfl
    · rw [aliases_append, aliases_separated, hwhere]
      rfl
  have horderBy : aliases (if orderBy = [] then []
      else [.fixed " ORDER BY "] ++ separatedPieces ", " 0 (orderBy.map orderPieces)) = [] := by
    split_ifs
    · rfl
    · rw [aliases_append, aliases_separated, horder]
      rfl
  simp only [queryTemplate, aliases_append, aliases_separated, hselect, hfilters, horderBy]
  simp [Piece.alias]

/-- The columns of an accepted query are its selected names, cut. -/
theorem columnNames_build {lib : ValueLib} {request : StructuredQuery} {b : QueryBuilder}
    {dataset : DatasetSpec} {selected : List QueryField}
    (hd : datasetSpec request.dataset = .ok dataset)
    (hs : selectedFields dataset request.fields = .ok selected)
    (h : buildStructuredQuery lib request = .ok b) :
    columnNames b.sql = selected.map fun field => truncateIdentifier field.name.toList := by
  obtain ⟨d, s, orderBy, hd', hs', ho, hsql, -⟩ := build_renders h
  obtain rfl : dataset = d := Except.ok.inj (hd.symm.trans hd')
  obtain rfl : selected = s := Except.ok.inj (hs.symm.trans hs')
  obtain ⟨hmem, -⟩ := datasetSpec_ok hd
  have hallowed := queryTemplate_allowed hmem request.filters (selectedFields_found hs)
    (selectedOrder_found ho)
  have hquoted := quoted_render hmem 0 hallowed
  rw [aliases_queryTemplate] at hquoted
  rw [columnNames, hsql, String.empty_append, List.length_nil, hquoted, List.map_map, List.map_map]
  rfl

/-! ### Rows -/

theorem mem_keys_put {k key : String} {v : Json} : ∀ {es : List (String × Json)},
    key ∈ (put k v es).map Prod.fst ↔ key = k ∨ key ∈ es.map Prod.fst
  | [] => by simp [put]
  | e :: es => by
    rw [put]
    split_ifs with hlt heq
    · simp
    · subst heq
      simp
    · rw [List.map_cons, List.mem_cons, List.map_cons, List.mem_cons, mem_keys_put, or_left_comm]

theorem nodup_keys {es : List (String × Json)} (h : Ascending es) : (es.map Prod.fst).Nodup := by
  rw [List.Nodup, List.pairwise_map]
  exact h.imp fun hlt => hlt.ne

theorem toJsonb_from (columns : List (String × Json)) : ∀ {row : List (String × Json)}, Ascending row →
    Ascending (columns.foldl (fun row column => put column.1 column.2 row) row) ∧
      ∀ key, key ∈ (columns.foldl (fun row column => put column.1 column.2 row) row).map Prod.fst ↔
        key ∈ row.map Prod.fst ∨ key ∈ columns.map Prod.fst := by
  induction columns with
  | nil => exact fun h => ⟨h, by simp⟩
  | cons column columns ih =>
    intro row h
    obtain ⟨hasc, hmem⟩ := ih (h.put (k := column.1) (v := column.2))
    refine ⟨hasc, fun key => (hmem key).trans ?_⟩
    rw [mem_keys_put, List.map_cons, List.mem_cons, or_comm (a := key = column.1), or_assoc]

/-- A row has one entry for each name among its columns. -/
theorem toJsonb_keys {columns : List String} {values : List Json}
    (h : values.length = columns.length) : ((toJsonb columns values).map Prod.fst).Nodup ∧
      ∀ key, key ∈ (toJsonb columns values).map Prod.fst ↔ key ∈ columns := by
  obtain ⟨hasc, hmem⟩ := @toJsonb_from (columns.zip values) [] List.Pairwise.nil
  refine ⟨nodup_keys hasc, fun key => (hmem key).trans ?_⟩
  rw [List.map_fst_zip h.ge]
  simp

theorem truncateIdentifier_eq {name : String} :
    truncateIdentifier name.toList = name ↔ utf8Len name.toList ≤ identifierBytes := by
  rw [← truncateUtf8_eq_self, truncateIdentifier, ← String.toList_inj, String.toList_ofList]

theorem defaultFields_short : ∀ dataset ∈ datasets, ∀ name ∈ dataset.defaultFields,
    utf8Len name.toList ≤ identifierBytes := by decide +kernel

/-- The names that a request lists are all within the bytes of an identifier. -/
def ShortNames (request : StructuredQuery) : Prop :=
  ∀ names, request.fields = some names → ∀ name ∈ names, utf8Len name.toList ≤ identifierBytes

/-- The cut names are the announced ones only where nothing is cut. -/
theorem cut_names_iff {names : List String} :
    (∀ key, key ∈ names.map (fun name => truncateIdentifier name.toList) ↔ key ∈ names) ↔
      ∀ name ∈ names, utf8Len name.toList ≤ identifierBytes := by
  constructor
  · intro h name hname
    -- an announced name is one of the cut names, and these are short
    obtain ⟨other, -, rfl⟩ := List.mem_map.mp ((h name).mpr hname)
    rw [truncateIdentifier, String.toList_ofList]
    exact utf8Len_truncateUtf8_le _ _
  · intro h key
    have hmap : names.map (fun name => truncateIdentifier name.toList) = names := by
      conv_rhs => rw [← List.map_id names]
      exact List.map_congr_left fun name hname => truncateIdentifier_eq.mpr (h name hname)
    rw [hmap]

theorem shortNames_iff {request : StructuredQuery} {dataset : DatasetSpec} {selected : List QueryField}
    (hd : dataset ∈ datasets) (hs : selectedFields dataset request.fields = .ok selected) :
    (∀ name ∈ selected.map QueryField.name, utf8Len name.toList ≤ identifierBytes) ↔
      ShortNames request := by
  obtain ⟨-, hmem⟩ := selectedFields_names hs
  simp only [hmem, ShortNames]
  cases request.fields with
  | none => simpa using defaultFields_short dataset hd
  | some names => simp

theorem mapError_ok {ε ε' α : Type} {f : ε → ε'} {x : Except ε α} {a : α} :
    x.mapError f = .ok a ↔ x = .ok a := by
  cases x <;> simp [Except.mapError]

/-- What the database makes of the announced names. -/
theorem response_keys {lib : ValueLib} {database : Database} {request : StructuredQuery}
    {response : QueryResponse} (h : runStructuredQuery lib database request = .ok response) :
    ((∀ name ∈ response.fields, utf8Len name.toList ≤ identifierBytes) ↔ ShortNames request) ∧
    ∀ row ∈ response.rows, (row.map Prod.fst).Nodup ∧ ∀ key, key ∈ row.map Prod.fst ↔
      key ∈ response.fields.map fun name => truncateIdentifier name.toList := by
  simp only [runStructuredQuery, respond, bind_eq_ok, mapError_ok] at h
  obtain ⟨dataset, hd, selected, hs, b, hb, rows, hrows, h⟩ := h
  cases h
  refine ⟨shortNames_iff (datasetSpec_ok hd).1 hs, fun row hrow => ?_⟩
  obtain ⟨values, hvalues, rfl⟩ := List.mem_map.mp hrow
  have hcolumns : columnNames b.sql =
      (selected.map QueryField.name).map fun name => truncateIdentifier name.toList := by
    rw [columnNames_build hd hs hb, List.map_map]
    rfl
  rw [← hcolumns]
  exact toJsonb_keys (database.width b rows hrows values hvalues)

/-- EXACT: a row of an accepted query has pairwise distinct keys that are the announced names, exactly
    when no listed name is longer than an identifier may be. -/
theorem rows_carry_fields_iff (lib : ValueLib) (database : Database) (request : StructuredQuery)
    (response : QueryResponse) (h : runStructuredQuery lib database request = .ok response) :
    ∀ row ∈ response.rows,
      ((row.map Prod.fst).Nodup ∧ ∀ key, key ∈ row.map Prod.fst ↔ key ∈ response.fields) ↔
        ShortNames request := by
  obtain ⟨hshort, hkeys⟩ := response_keys h
  intro row hrow
  obtain ⟨hnodup, hmem⟩ := hkeys row hrow
  simp only [hmem, hnodup, true_and]
  rw [cut_names_iff, hshort]

/-- A database with one row, empty in every column. -/
def oneRow : Database where
  select b := .ok [(columnNames b.sql).map fun _ => .null]
  width b rows h row hrow := by
    cases h
    rw [List.mem_singleton.mp hrow, List.length_map]

theorem rows_carry_fields_iff_sample : ∃ response row,
    runStructuredQuery sampleValueLib oneRow (sampleQuery "a" 400 10) = .ok response ∧
    row ∈ response.rows ∧ (row.map Prod.fst).Nodup ∧
    ∀ key, key ∈ row.map Prod.fst ↔ key ∈ response.fields := by
  refine ⟨_, _, rfl, List.mem_cons_self, ?_⟩
  rw [rows_carry_fields_iff sampleValueLib oneRow (sampleQuery "a" 400 10) _ rfl _ List.mem_cons_self]
  rintro names ⟨⟩
  decide

/-- A field of a plugin with a name of 48 characters: 64 bytes with the `plugin_metadata.` before it. -/
def longNameQuery : StructuredQuery where
  dataset := "requests"
  fields := some ["plugin_metadata." ++ String.ofList (List.replicate 48 'a')]
  limit := none

/-- Its row holds a key of 63 bytes, and the announced name is no key of it. -/
theorem longName_row : ∃ response row,
    runStructuredQuery sampleValueLib oneRow longNameQuery = .ok response ∧ row ∈ response.rows ∧
    ¬ ((row.map Prod.fst).Nodup ∧ ∀ key, key ∈ row.map Prod.fst ↔ key ∈ response.fields) := by
  refine ⟨_, _, rfl, List.mem_cons_self, ?_⟩
  rintro ⟨-, hkeys⟩
  obtain ⟨-, hcut⟩ := (@response_keys sampleValueLib oneRow longNameQuery _ rfl).2 _ List.mem_cons_self
  have hin := (hcut _).mp ((hkeys _).mpr List.mem_cons_self)
  revert hin
  decide

end Llmtrace.Query
