import Llmtrace.Query.Sql
import Llmtrace.Schemes.Like

/-! Searching for a text. `escape_like` in `storage.rs` escapes the value in three replacements, and the
    filter `contains` of a query (`query.rs`) and the lists of requests and of sessions (`requests.rs`,
    `sessions.rs`) compare a column with it between two `%`.

    How the database folds case depends on its locale, and is given by a function on characters. -/

namespace Llmtrace.Query
open Schemes

/-- `LIKE … ESCAPE '\'` -/
def sqlWildcards : Wildcards Char where
  many := '%'
  one := '_'
  escape := '\\'

/-- `$1 IS NULL OR column ILIKE '%' || $1 || '%' ESCAPE '\' OR …`, with `escape_like` of the query bound
    to `$1`. A column that is `NULL` adds nothing. -/
def searchSelects (fold : Char → List Char) (q : Option String) (columns : List (Option String)) :
    Option Bool :=
  match q.map escapeLike with
  | none => some true
  | some pattern =>
    (columns.reduceOption.mapM fun column =>
      ilike sqlWildcards fold column.toList ("%" ++ pattern ++ "%").toList).map fun found => found.any id

/-- The search of `LIST_REQUESTS_SQL`. -/
def requestFound (fold : Char → List Char) (q : Option String) (upstreamUrl : String)
    (model : Option String) (requestKind : String) : Option Bool :=
  searchSelects fold q [some upstreamUrl, model, some requestKind]

/-- The search of `LIST_SESSIONS_SQL`. -/
def sessionFound (fold : Char → List Char) (q : Option String) (sessionKey : String)
    (userId userName : Option String) : Option Bool :=
  searchSelects fold q [some sessionKey, userId, userName]

/-! ### The escaped value -/

/-- The replacements do not meet: each one puts its character behind a backslash, and the backslashes
    of the value are doubled before there are others. -/
theorem escapeLike_eq (value : String) :
    (escapeLike value).toList = escapePattern sqlWildcards value.toList := by
  simp only [escapeLike, String.toList_ofList, List.flatMap_assoc, escapePattern]
  refine List.flatMap_congr fun c _ => ?_
  by_cases hback : c = '\\'
  · subst hback
    decide
  by_cases hmany : c = '%'
  · subst hmany
    decide
  by_cases hone : c = '_'
  · subst hone
    decide
  simp [sqlWildcards, Wildcards.isSpecial, hback, hmany, hone]

theorem pattern_eq (value : String) : ("%" ++ escapeLike value ++ "%").toList =
    '%' :: (escapePattern sqlWildcards value.toList ++ ['%']) := by
  rw [String.toList_append, String.toList_append, escapeLike_eq]
  rfl

/-! ### What is found -/

section
variable {fold : Char → List Char}

theorem ilike_escapeLike (hfold : FoldsApart sqlWildcards fold) (value text : String) :
    ilike sqlWildcards fold text.toList ("%" ++ escapeLike value ++ "%").toList =
      some (decide (value.toList.flatMap fold <:+: text.toList.flatMap fold)) := by
  rw [pattern_eq]
  exact ilike_contains (by decide) hfold value.toList text.toList

/-- The pattern is well formed, and holds of the texts that contain the value. -/
theorem like_escaping_exact (hfold : FoldsApart sqlWildcards fold) (value text : String) :
    (parsePattern sqlWildcards ("%" ++ escapeLike value ++ "%").toList).isSome = true ∧
    like sqlWildcards text.toList ("%" ++ escapeLike value ++ "%").toList =
      some (decide (value.toList <:+: text.toList)) ∧
    ilike sqlWildcards fold text.toList ("%" ++ escapeLike value ++ "%").toList =
      some (decide (value.toList.flatMap fold <:+: text.toList.flatMap fold)) := by
  have hlike : like sqlWildcards text.toList ("%" ++ escapeLike value ++ "%").toList =
      some (decide (value.toList <:+: text.toList)) := by
    rw [pattern_eq]
    exact like_contains (by decide) value.toList text.toList
  refine ⟨?_, hlike, ilike_escapeLike hfold value text⟩
  -- a pattern that is compared with a text has been read
  rw [like, Option.map_eq_some_iff] at hlike
  obtain ⟨tokens, hparse, -⟩ := hlike
  rw [hparse, Option.isSome_some]

/-- Lower case as it is in the `C` locale. -/
def asciiFold (c : Char) : List Char := [c.toLower]

theorem asciiFold_foldsApart : FoldsApart sqlWildcards asciiFold where
  special {c} hc := by
    rcases isSpecial_iff.mp hc with rfl | rfl | rfl <;> decide
  plain {c d} hc hd := by
    obtain rfl := List.mem_singleton.mp hd
    rw [Char.toLower]
    split
    next hupper =>
      rw [Bool.eq_false_iff, ne_eq, isSpecial_iff]
      have hlow : 65 ≤ c.val.toNat := UInt32.le_iff_toNat_le.mp hupper.1
      have hhigh : c.val.toNat ≤ 90 := UInt32.le_iff_toNat_le.mp hupper.2
      have hlower : (c.val + ('a'.val - 'A'.val)).toNat = c.val.toNat + 32 := by
        rw [UInt32.toNat_add]
        exact Nat.mod_eq_of_lt (show c.val.toNat + 32 < 2 ^ 32 by omega)
      simp only [sqlWildcards, Char.ext_iff, ← UInt32.toNat_inj, hlower]
      change ¬(c.val.toNat + 32 = 92 ∨ c.val.toNat + 32 = 37 ∨ c.val.toNat + 32 = 95)
      omega
    next => exact hc

theorem like_escaping_exact_ascii : FoldsApart sqlWildcards asciiFold ∧
    like sqlWildcards "at 100%\\_a of it".toList ("%" ++ escapeLike "100%\\_A" ++ "%").toList = some false ∧
    ilike sqlWildcards asciiFold "at 100%\\_a of it".toList ("%" ++ escapeLike "100%\\_A" ++ "%").toList =
      some true := by
  have hexact := like_escaping_exact asciiFold_foldsApart "100%\\_A" "at 100%\\_a of it"
  refine ⟨asciiFold_foldsApart, hexact.2.1.trans ?_, hexact.2.2.trans ?_⟩
  · decide
  · decide

/-! ### Where the patterns are used -/

/-- A search does not fail, and selects the rows with a column that contains the value. -/
theorem searchSelects_eq (hfold : FoldsApart sqlWildcards fold) (q : Option String)
    (columns : List (Option String)) : searchSelects fold q columns = some (decide (∀ value ∈ q,
      ∃ column ∈ columns.reduceOption, value.toList.flatMap fold <:+: column.toList.flatMap fold)) := by
  cases q with
  | none => simp [searchSelects]
  | some value =>
    simp only [searchSelects, Option.map_some, ilike_escapeLike hfold]
    refine (congrArg _ (List.mapM_pure (m := Option))).trans ?_
    rw [Option.pure_def, Option.map_some, Option.some_inj, Bool.eq_iff_iff]
    simp

theorem lists_find_value (hfold : FoldsApart sqlWildcards fold) (value : String) :
    (∀ upstreamUrl model requestKind, requestFound fold (some value) upstreamUrl model requestKind =
      some (decide (∃ column ∈ upstreamUrl :: (model.toList ++ [requestKind]),
        value.toList.flatMap fold <:+: column.toList.flatMap fold))) ∧
    (∀ sessionKey userId userName, sessionFound fold (some value) sessionKey userId userName =
      some (decide (∃ column ∈ sessionKey :: (userId.toList ++ userName.toList),
        value.toList.flatMap fold <:+: column.toList.flatMap fold))) := by
  refine ⟨fun upstreamUrl model requestKind => ?_, fun sessionKey userId userName => ?_⟩
  · rw [requestFound, searchSelects_eq hfold]
    cases model <;> simp
  · rw [sessionFound, searchSelects_eq hfold]
    cases userId <;> cases userName <;> simp

/-- What the filter `contains` binds last is a pattern of the texts that contain its value. -/
theorem appendTextFilter_contains (hfold : FoldsApart sqlWildcards fold) {b b' : QueryBuilder}
    {field : QueryField} {value : Json} (h : appendTextFilter b field .contains value = .ok b') :
    ∃ text pattern, value.asStr = some text ∧ b'.arguments.getLast? = some (.text pattern) ∧
      ∀ column : String, ilike sqlWildcards fold column.toList pattern.toList =
        some (decide (text.toList.flatMap fold <:+: column.toList.flatMap fold)) := by
  rw [appendTextFilter, bind_eq_ok] at h
  obtain ⟨text, htext, h⟩ := h
  cases h
  refine ⟨text, _, ?_, List.getLast?_concat, fun column => ilike_escapeLike hfold text column⟩
  unfold valueAsString at htext
  split at htext
  next => cases htext
  next hstr =>
    split at htext <;> cases htext
    exact hstr

end
end Llmtrace.Query
