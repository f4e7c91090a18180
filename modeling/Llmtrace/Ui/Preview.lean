import Llmtrace.Query.RoundTrip
import Llmtrace.Schemes.JsSorted

/-! The bounded preview of a JSON value (`json-preview.ts`): `visit` copies the value until a budget is
    spent, of characters, of nodes, of levels or of entries, and the copy is pretty-printed.

    Each cut sets one flag. A preview without the flag is the whole text, and the traversal is bounded
    whatever the value. -/

namespace Llmtrace.Ui
open Schemes

/-- The keys that lead to an object. A JSON value is a tree: they tell which object it is. -/
abbrev Path := List JsText

/-- The variables around `visit`; `visits` counts its calls. -/
structure Budget where
  remaining : ℚ
  nodes : ℤ
  truncated : Bool
  seen : List Path
  visits : ℕ

/-! ### Texts -/

/-- `text.slice(0, stop)` -/
def sliceTo (text : JsText) (stop : ℚ) : JsText :=
  let whole : ℤ := if 0 ≤ stop then stop.floor else stop.ceil
  text.take (if whole < 0 then text.length + whole else whole).toNat

/-- `text[index]` -/
def unitAt (text : JsText) (index : ℚ) : Option ℕ :=
  if index.isInt ∧ 0 ≤ index then text[index.num.toNat]? else none

/-- The sign of what was cut. -/
def ellipsis : JsText := js "…"

/-- The front of a text that is too long. No pair is cut in two. -/
def cutText (text : JsText) (remaining : ℚ) : JsText :=
  -- `undefined` is tested as a text, which has no surrogate
  let stop := if 0 < remaining ∧ (unitAt text (remaining - 1)).any isHigh then remaining - 1 else remaining
  sliceTo text stop ++ ellipsis

/-! ### The traversal -/

section
variable {ν ρ : Type}

/-- The result of a container: how a child is entered and how the rest is left out. -/
structure Target (ν ρ : Type) where
  empty : ρ
  put : ρ → JsText → JsValue ν → ρ
  cut : ρ → ρ
  value : ρ → JsValue ν

/-- The copy of an array. -/
def arrayTarget : Target ν (List (JsValue ν)) where
  empty := []
  put items _ child := items ++ [child]
  cut items := items ++ [.str ellipsis]
  value := .arr

/-- `Object.create(null)` -/
def objectTarget : Target ν (List (JsText × JsValue ν)) where
  empty := []
  put fields key child := setField key child fields
  cut fields := setField ellipsis (.str (js "preview truncated")) fields
  value := .obj

/-- `for (const key in item)` -/
def visitEntries (target : Target ν ρ) (visitChild : JsText → JsValue ν → Budget → JsValue ν × Budget) :
    List (JsText × JsValue ν) → ℕ → ρ → Budget → ρ × Budget
  | [], _, result, s => (result, s)
  | (key, item) :: entries, count, result, s =>
    if s.remaining ≤ 0 ∨ s.nodes ≤ 0 ∨ 256 ≤ count then
      (target.cut result, { s with truncated := true })
    else if s.remaining < key.length + 8 then
      (target.cut result, { s with truncated := true })
    else
      let visited := visitChild key item { s with remaining := s.remaining - (key.length + 8) }
      visitEntries target visitChild entries (count + 1) (target.put result key visited.1) visited.2

/-- The part of `visit` for arrays and objects. -/
def visitContainer (target : Target ν ρ) (visit : Path → JsValue ν → Budget → JsValue ν × Budget)
    (path : Path) (entries : List (JsText × JsValue ν)) (s : Budget) : JsValue ν × Budget :=
  if path ∈ s.seen then (.str (js "[Circular]"), s)
  else
    let visited := visitEntries target (fun key => visit (path ++ [key])) entries 0 target.empty
      { s with seen := path :: s.seen }
    (target.value visited.1, { visited.2 with seen := visited.2.seen.filter (· ≠ path) })

/-- An array is enumerated by its indices. -/
def arrayEntries (items : List (JsValue ν)) : List (JsText × JsValue ν) :=
  items.zipIdx.map fun e => (decimal e.2, e.1)

/-- A value for which there is room. -/
def visitItem (visit : Path → JsValue ν → Budget → JsValue ν × Budget) (path : Path) (item : JsValue ν)
    (s : Budget) : JsValue ν × Budget :=
  match item with
  | .str text =>
    if (text.length : ℚ) ≤ s.remaining then
      (.str text, { s with remaining := s.remaining - text.length })
    else (.str (cutText text s.remaining), { s with remaining := 0, truncated := true })
  | .arr items => visitContainer arrayTarget visit path (arrayEntries items) s
  | .obj fields => visitContainer objectTarget visit path fields s
  | v => (v, { s with remaining := s.remaining - 16 })

/-- `levels` is what is left of 25 levels: at depth 25 there are none. -/
def visit : ℕ → Path → JsValue ν → Budget → JsValue ν × Budget
  | levels, path, item, s =>
    let s : Budget := { s with visits := s.visits + 1 }
    if s.remaining ≤ 0 then (.str ellipsis, { s with truncated := true })
    else if s.nodes ≤ 0 then (.str ellipsis, { s with nodes := s.nodes - 1, truncated := true })
    else
      let s : Budget := { s with nodes := s.nodes - 1 }
      match levels with
      | 0 => (.str ellipsis, { s with truncated := true })
      | levels + 1 => visitItem (visit levels) path item s

/-- The outermost call of `visit`. -/
def visitAll (value : JsValue ν) (limit : ℚ) : JsValue ν × Budget :=
  visit 25 [] value { remaining := max 0 limit, nodes := 4096, truncated := false, seen := [], visits := 0 }

end

/-- `{ text, truncated }` -/
structure Preview where
  text : JsText
  truncated : Bool
  deriving DecidableEq

section
variable (N : JsNumbers)

/-- A JSON value always has a text: `String(value)` is not reached. -/
def jsonText (value : JsValue N.Num) : JsText := prettify N 0 value

/-- `jsonPreview` -/
def jsonPreview (value : JsValue N.Num) (limit : ℚ) : Preview :=
  let visited := visitAll value limit
  let text := jsonText N visited.1
  { text := sliceTo text limit, truncated := visited.2.truncated || limit < text.length }

end

/-- What a visit can do: it finds no characters left, or no nodes or levels, or it goes on. -/
theorem visit_cases {ν : Type} (levels : ℕ) (path : Path) (item : JsValue ν) (s : Budget) :
    (s.remaining ≤ 0 ∧ visit levels path item s =
      (.str ellipsis, { s with visits := s.visits + 1, truncated := true })) ∨
    visit levels path item s =
      (.str ellipsis, { s with visits := s.visits + 1, nodes := s.nodes - 1, truncated := true }) ∨
    ∃ left, levels = left + 1 ∧ visit levels path item s =
      visitItem (visit left) path item { s with visits := s.visits + 1, nodes := s.nodes - 1 } := by
  by_cases hremaining : s.remaining ≤ 0
  · refine .inl ⟨hremaining, ?_⟩
    rw [visit, if_pos hremaining]
  by_cases hnodes : s.nodes ≤ 0
  · refine .inr (.inl ?_)
    rw [visit, if_neg hremaining, if_pos hnodes]
  cases levels with
  | zero =>
    refine .inr (.inl ?_)
    rw [visit, if_neg hremaining, if_neg hnodes]
  | succ left =>
    refine .inr (.inr ⟨left, rfl, ?_⟩)
    rw [visit, if_neg hremaining, if_neg hnodes]

/-! ### The number of visits -/

/-- Visits and nodes add up. One visit more takes no node: the one that finds no characters left, after
    which none is made. -/
structure Within (s : Budget) : Prop where
  nodes : 0 ≤ s.nodes
  visits : s.visits + s.nodes ≤ 4096 ∨ s.remaining ≤ 0 ∧ s.visits + s.nodes ≤ 4097

/-- A node is left for the next visit. -/
structure Ready (s : Budget) : Prop where
  nodes : 0 < s.nodes
  visits : s.visits + s.nodes ≤ 4096

section
variable {ν ρ : Type}

theorem visitEntries_within (target : Target ν ρ)
    {visitChild : JsText → JsValue ν → Budget → JsValue ν × Budget}
    (hchild : ∀ key item s, Ready s → Within (visitChild key item s).2)
    (entries : List (JsText × JsValue ν)) (count : ℕ) (result : ρ) {s : Budget} (h : Within s) :
    Within (visitEntries target visitChild entries count result s).2 := by
  induction entries generalizing count result s with
  | nil => exact h
  | cons e entries ih =>
    obtain ⟨key, item⟩ := e
    rw [visitEntries]
    split_ifs with hspent hlong
    · exact ⟨h.nodes, h.visits⟩
    · exact ⟨h.nodes, h.visits⟩
    · rw [not_or, not_or] at hspent
      have hready : Ready { s with remaining := s.remaining - (key.length + 8) } := by
        refine ⟨not_le.mp hspent.2.1, ?_⟩
        rcases h.visits with hvisits | ⟨hremaining, -⟩
        · exact hvisits
        · exact absurd hremaining hspent.1
      exact ih _ _ (hchild key item _ hready)

theorem visitContainer_within (target : Target ν ρ)
    {visit : Path → JsValue ν → Budget → JsValue ν × Budget}
    (hchild : ∀ path item s, Ready s → Within (visit path item s).2) (path : Path)
    (entries : List (JsText × JsValue ν)) {s : Budget} (h : Within s) :
    Within (visitContainer target visit path entries s).2 := by
  rw [visitContainer]
  split_ifs
  · exact h
  · have hopen : Within { s with seen := path :: s.seen } := ⟨h.nodes, h.visits⟩
    have hloop := visitEntries_within target (fun key => hchild (path ++ [key])) entries 0 target.empty
      hopen
    exact ⟨hloop.nodes, hloop.visits⟩

theorem visitItem_within {visit : Path → JsValue ν → Budget → JsValue ν × Budget}
    (hchild : ∀ path item s, Ready s → Within (visit path item s).2) (path : Path) (item : JsValue ν)
    {s : Budget} (hnodes : 0 ≤ s.nodes) (hvisits : s.visits + s.nodes ≤ 4096) :
    Within (visitItem visit path item s).2 := by
  have h : Within s := ⟨hnodes, .inl hvisits⟩
  cases item with
  | str text =>
    rw [visitItem]
    split_ifs
    · exact ⟨hnodes, .inl hvisits⟩
    · exact ⟨hnodes, .inl hvisits⟩
  | arr items => exact visitContainer_within arrayTarget hchild path _ h
  | obj fields => exact visitContainer_within objectTarget hchild path _ h
  | null => exact ⟨hnodes, .inl hvisits⟩
  | bool b => exact ⟨hnodes, .inl hvisits⟩
  | num x => exact ⟨hnodes, .inl hvisits⟩

theorem visit_within (levels : ℕ) (path : Path) (item : JsValue ν) (s : Budget) (h : Ready s) :
    Within (visit levels path item s).2 := by
  induction levels using Nat.strong_induction_on generalizing path item s with
  | _ levels ih =>
    obtain ⟨hnodes, hvisits⟩ := h
    have hleft : 0 ≤ s.nodes - 1 := by omega
    have hsum : ((s.visits + 1 : ℕ) : ℤ) + (s.nodes - 1) ≤ 4096 := by
      push_cast
      omega
    rcases visit_cases levels path item s with ⟨hremaining, hvisit⟩ | hvisit | ⟨left, rfl, hvisit⟩
    · rw [hvisit]
      refine ⟨hnodes.le, .inr ⟨hremaining, ?_⟩⟩
      push_cast
      omega
    · rw [hvisit]
      exact ⟨hleft, .inl hsum⟩
    · rw [hvisit]
      exact visitItem_within (ih left (Nat.lt_succ_self left)) path item hleft hsum

/-! ### The copy -/

/-- What is computed from any budget in which these objects are open, unless something is cut. -/
def Copies {α : Type} (run : Budget → α × Budget) (seen : List Path) (a : α) : Prop :=
  ∀ s, s.seen = seen → (run s).2.seen = seen ∧
    ((run s).2.truncated = false → s.truncated = false ∧ (run s).1 = a)

theorem visitEntries_copies (target : Target ν ρ)
    (visitChild : JsText → JsValue ν → Budget → JsValue ν × Budget) {seen : List Path}
    {entries : List (JsText × JsValue ν)}
    (hchild : ∀ e ∈ entries, Copies (visitChild e.1 e.2) seen e.2) (count : ℕ) (result : ρ) :
    Copies (visitEntries target visitChild entries count result) seen
      (entries.foldl (fun result e => target.put result e.1 e.2) result) := by
  induction entries generalizing count result with
  | nil => exact fun s hs => ⟨hs, fun h => ⟨h, rfl⟩⟩
  | cons e entries ih =>
    obtain ⟨key, item⟩ := e
    intro s hs
    rw [visitEntries]
    split_ifs
    · exact ⟨hs, fun h => by cases h⟩
    · exact ⟨hs, fun h => by cases h⟩
    · have hitem := hchild _ List.mem_cons_self { s with remaining := s.remaining - (key.length + 8) } hs
      have hrest := ih (fun e he => hchild e (List.mem_cons_of_mem _ he)) (count + 1)
      refine ⟨(hrest _ _ hitem.1).1, fun h => ?_⟩
      obtain ⟨htruncated, hresult⟩ := (hrest _ _ hitem.1).2 h
      obtain ⟨hs', hcopy⟩ := hitem.2 htruncated
      refine ⟨hs', hresult.trans ?_⟩
      rw [List.foldl_cons, hcopy]

theorem visitContainer_copies (target : Target ν ρ)
    {visit : Path → JsValue ν → Budget → JsValue ν × Budget} {seen : List Path} {path : Path}
    {entries : List (JsText × JsValue ν)} (hpath : path ∉ seen)
    (hchild : ∀ e ∈ entries, Copies (visit (path ++ [e.1]) e.2) (path :: seen) e.2) :
    Copies (visitContainer target visit path entries) seen
      (target.value (entries.foldl (fun result e => target.put result e.1 e.2) target.empty)) := by
  intro s hs
  obtain ⟨hopen, hcopy⟩ := visitEntries_copies target (fun key => visit (path ++ [key])) hchild 0
    target.empty { s with seen := path :: s.seen } (congrArg (path :: ·) hs)
  rw [visitContainer, if_neg (hs ▸ hpath)]
  refine ⟨?_, fun h => ?_⟩
  · have hclosed : (path :: seen).filter (· ≠ path) = seen := by
      rw [List.filter_cons_of_neg (by simp), List.filter_eq_self]
      exact fun q hq => decide_eq_true fun heq => hpath (heq ▸ hq)
    exact (congrArg (List.filter _) hopen).trans hclosed
  · obtain ⟨htruncated, hresult⟩ := hcopy h
    exact ⟨htruncated, congrArg target.value hresult⟩

theorem foldl_arrayTarget (entries : List (JsText × JsValue ν)) (items : List (JsValue ν)) :
    entries.foldl (fun result e => arrayTarget.put result e.1 e.2) items =
      items ++ entries.map Prod.snd := by
  induction entries generalizing items with
  | nil => rw [List.foldl_nil, List.map_nil, List.append_nil]
  | cons e entries ih =>
    rw [List.foldl_cons, ih, List.map_cons, arrayTarget, List.append_assoc]
    rfl

theorem arrayEntries_values (items : List (JsValue ν)) : (arrayEntries items).map Prod.snd = items := by
  rw [arrayEntries, List.map_map]
  exact List.zipIdx_map_fst 0 items

/-- The children of a container, while it is open. -/
theorem visitItem_copies {visit : Path → JsValue ν → Budget → JsValue ν × Budget} {path : Path}
    {item : JsValue ν} {seen : List Path} (hnative : Native item) (hpath : path ∉ seen)
    (hchild : ∀ key child, Native child → Copies (visit (path ++ [key]) child) (path :: seen) child) :
    Copies (visitItem visit path item) seen item := by
  cases item with
  | null => exact fun s hs => ⟨hs, fun h => ⟨h, rfl⟩⟩
  | bool b => exact fun s hs => ⟨hs, fun h => ⟨h, rfl⟩⟩
  | num x => exact fun s hs => ⟨hs, fun h => ⟨h, rfl⟩⟩
  | str text =>
    intro s hs
    rw [visitItem]
    split_ifs
    · exact ⟨hs, fun h => ⟨h, rfl⟩⟩
    · exact ⟨hs, fun h => by cases h⟩
  | arr items =>
    rw [Native, nativeItems_iff] at hnative
    have hentries : ∀ e ∈ arrayEntries items, Native e.2 := by
      intro e he
      refine hnative e.2 ?_
      rw [← arrayEntries_values items]
      exact List.mem_map_of_mem he
    have hcopy := visitContainer_copies arrayTarget hpath fun e he => hchild e.1 e.2 (hentries e he)
    rw [foldl_arrayTarget, arrayEntries_values] at hcopy
    exact hcopy
  | obj fields =>
    rw [Native, nativeFields_iff] at hnative
    have hcopy := visitContainer_copies objectTarget hpath fun e he => hchild e.1 e.2 (hnative.2 e he)
    have hfields : fields.foldl (fun result e => objectTarget.put result e.1 e.2) objectTarget.empty =
        fields := hnative.1.assign_eq
    rw [hfields] at hcopy
    exact hcopy

theorem visit_copies (levels : ℕ) {path : Path} {item : JsValue ν} {seen : List Path}
    (hnative : Native item) (hpath : ∀ q ∈ seen, q.length < path.length) :
    Copies (visit levels path item) seen item := by
  induction levels using Nat.strong_induction_on generalizing path item seen with
  | _ levels ih =>
    intro s hs
    rcases visit_cases levels path item s with ⟨-, hvisit⟩ | hvisit | ⟨left, rfl, hvisit⟩
    · rw [hvisit]
      exact ⟨hs, fun h => by cases h⟩
    · rw [hvisit]
      exact ⟨hs, fun h => by cases h⟩
    · -- the objects around a child are those around its parent, and the parent
      have hchild : ∀ key (child : JsValue ν), Native child →
          Copies (visit left (path ++ [key]) child) (path :: seen) child := by
        intro key child hchild
        refine ih left (Nat.lt_succ_self left) hchild fun q hq => ?_
        rw [List.length_append, List.length_singleton]
        rcases List.mem_cons.mp hq with rfl | hq
        · omega
        · have := hpath q hq
          omega
      have hnotin : path ∉ seen := fun hin => absurd (hpath path hin) (lt_irrefl _)
      rw [hvisit]
      exact visitItem_copies hnative hnotin hchild _ hs

end

/-! ### The preview -/

theorem sliceTo_of_nonneg {stop : ℚ} (h : 0 ≤ stop) (text : JsText) :
    sliceTo text stop = text.take stop.floor.toNat := by
  have hfloor : 0 ≤ stop.floor := Rat.le_floor_iff.mpr (by exact_mod_cast h)
  rw [sliceTo, if_pos h, if_neg (not_lt.mpr hfloor)]

theorem length_sliceTo_le {stop : ℚ} (h : 0 ≤ stop) (text : JsText) :
    ((sliceTo text stop).length : ℚ) ≤ stop := by
  have hfloor : 0 ≤ stop.floor := Rat.le_floor_iff.mpr (by exact_mod_cast h)
  have hlen : (sliceTo text stop).length ≤ stop.floor.toNat := by
    rw [sliceTo_of_nonneg h]
    exact List.length_take_le _ _
  have hint : ((sliceTo text stop).length : ℤ) ≤ stop.floor := by omega
  exact_mod_cast Rat.le_floor_iff.mp hint

theorem sliceTo_eq_self {stop : ℚ} {text : JsText} (h : (text.length : ℚ) ≤ stop) :
    sliceTo text stop = text := by
  have hnonneg : 0 ≤ stop := le_trans (Nat.cast_nonneg _) h
  have hint : (text.length : ℤ) ≤ stop.floor := Rat.le_floor_iff.mpr (by exact_mod_cast h)
  rw [sliceTo_of_nonneg hnonneg, List.take_of_length_le (by omega)]

section
variable {N : JsNumbers}

/-- A preview that is not marked is the text. -/
theorem jsonPreview_whole {value : JsValue N.Num} (hnative : Native value) {limit : ℚ}
    (h : (jsonPreview N value limit).truncated = false) :
    (prettify N 0 value).length ≤ limit ∧ (jsonPreview N value limit).text = prettify N 0 value := by
  simp only [jsonPreview, Bool.or_eq_false_iff, decide_eq_false_iff_not, not_lt] at h
  have hcopy : (visitAll value limit).1 = value :=
    ((visit_copies 25 hnative (fun _ hq => absurd hq (List.not_mem_nil))) _ rfl).2 h.1 |>.2
  rw [hcopy] at h
  refine ⟨h.2, ?_⟩
  simp only [jsonPreview, hcopy]
  exact sliceTo_eq_self h.2

/-- The preview is never silently lossy. -/
theorem json_preview_not_lossy {value : JsValue N.Num} (hnative : Native value) {limit : ℚ}
    (hlimit : 0 ≤ limit) :
    (jsonPreview N value limit).text.length ≤ limit ∧
    (visitAll value limit).2.visits ≤ 4097 ∧
    ((jsonPreview N value limit).truncated = false →
      (jsonPreview N value limit).text = prettify N 0 value) ∧
    (limit < (prettify N 0 value).length → (jsonPreview N value limit).truncated = true) := by
  have hwithin : Within (visitAll value limit).2 :=
    visit_within 25 [] value _ ⟨by norm_num, by norm_num⟩
  have hvisits : (visitAll value limit).2.visits ≤ 4097 := by
    have hnodes := hwithin.nodes
    rcases hwithin.visits with hsum | ⟨-, hsum⟩
    · omega
    · omega
  refine ⟨length_sliceTo_le hlimit _, hvisits, fun h => (jsonPreview_whole hnative h).2, fun hlong => ?_⟩
  by_contra hmark
  have hwhole := (jsonPreview_whole hnative (Bool.not_eq_true _ ▸ hmark)).1
  exact absurd hlong (not_lt.mpr hwhole)

end

/-- `{ a: [1, 'hello', null, true] }` -/
def smallValue : JsValue ℤ :=
  .obj [(js "a", .arr [.num 1, .str (js "hello"), .null, .bool true])]

theorem native_smallValue : Native smallValue := by
  refine ⟨⟨List.nodup_singleton _, List.pairwise_singleton _ _⟩, ?_⟩
  simp [NativeFields, NativeField, NativeItems, Native]

/-- Two hundred characters are enough, forty are not. -/
theorem json_preview_not_lossy_small :
    (jsonPreview QueryText.wholeNumbers smallValue 200).truncated = false ∧
    (jsonPreview QueryText.wholeNumbers smallValue 200).text =
      prettify QueryText.wholeNumbers 0 smallValue ∧
    (jsonPreview QueryText.wholeNumbers smallValue 40).truncated = true ∧
    (jsonPreview QueryText.wholeNumbers smallValue 40).text.length ≤ (40 : ℚ) := by
  have hwhole : (jsonPreview QueryText.wholeNumbers smallValue 200).truncated = false := by decide +kernel
  have hlong : (40 : ℚ) < (prettify QueryText.wholeNumbers 0 smallValue).length := by decide +kernel
  have henough : (0 : ℚ) ≤ 200 := by norm_num
  have hshort : (0 : ℚ) ≤ 40 := by norm_num
  have hfits := json_preview_not_lossy (N := QueryText.wholeNumbers) native_smallValue henough
  have hcut := json_preview_not_lossy (N := QueryText.wholeNumbers) native_smallValue hshort
  exact ⟨hwhole, hfits.2.2.1 hwhole, hcut.2.2.2 hlong, hcut.1⟩

end Llmtrace.Ui
