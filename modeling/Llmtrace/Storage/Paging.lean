import Mathlib

/-! Offset pagination (`paging.rs`, `list_requests` and `list_session_requests` in `requests.rs`) and
    the client that follows `next_offset`.

    A page fetches one row more than it shows, which tells whether more rows follow. The offset of a
    request is clamped to a million, the offset that a page announces is not: a client that is sent past
    the clamp gets an earlier page again. With `L` rows a page the last page in reach starts at the
    largest multiple of `L` up to a million, and this bounds the tables that can be enumerated. -/

namespace Llmtrace.Storage

/-- `Page` -/
structure Page where
  limit : ℤ
  offset : ℤ
  deriving DecidableEq

/-- `PageInfo` -/
structure PageInfo where
  limit : ℤ
  offset : ℤ
  hasMore : Bool
  nextOffset : Option ℤ
  deriving DecidableEq

/-- `clamp` -/
def clamp (n lo hi : ℤ) : ℤ := max lo (min n hi)

/-- The largest offset that is taken. -/
def maxOffset : ℤ := 1000000

/-- `Page::from_query` -/
def Page.fromQuery (limit offset : Option ℤ) : Page :=
  ⟨clamp (limit.getD 100) 1 500, clamp (offset.getD 0) 0 maxOffset⟩

/-- `Page::fetch_limit`: one row more than is shown. -/
def Page.fetchLimit (page : Page) : ℤ := page.limit + 1

/-- `Page::info`; the sum saturates at the largest `i64`. -/
def Page.info (page : Page) (hasMore : Bool) : PageInfo where
  limit := page.limit
  offset := page.offset
  hasMore := hasMore
  nextOffset := if hasMore then some (min (page.offset + page.limit) (2 ^ 63 - 1)) else none

section
variable {α : Type}

/-- The items of a page with its information. -/
structure Listing (α : Type) where
  items : List α
  page : PageInfo

/-- `LIMIT limit OFFSET offset` -/
def selectRows (rows : List α) (limit offset : ℤ) : List α := (rows.drop offset.toNat).take limit.toNat

/-- `list_requests`, for the rows that match in their order. -/
def listRequests (rows : List α) (limit offset : Option ℤ) : Listing α :=
  let page := Page.fromQuery limit offset
  let fetched := selectRows rows page.fetchLimit page.offset
  ⟨fetched.take page.limit.toNat, page.info (decide (page.limit.toNat < fetched.length))⟩

/-- The pages that the client receives from `offset` on; `none` when it has not stopped after `fuel`
    of them. -/
def follow (rows : List α) (limit : Option ℤ) : ℕ → Option ℤ → Option (List (List α))
  | 0, _ => none
  | fuel + 1, offset =>
    let listing := listRequests rows limit offset
    match listing.page.nextOffset with
    | none => some [listing.items]
    | some next => (follow rows limit fuel (some next)).map (listing.items :: ·)

/-- The client stops and has received the rows, each once and in order. -/
def Enumerated (rows : List α) (limit : Option ℤ) : Prop :=
  ∃ fuel pages, follow rows limit fuel (some 0) = some pages ∧ pages.flatten = rows

/-- The rows of a page. -/
def pageSize (limit : Option ℤ) : ℕ := (Page.fromQuery limit none).limit.toNat

/-- The rows on the pages in reach of the clamp. -/
def reachable (size : ℕ) : ℕ := (1000000 / size + 1) * size

/-! ### One page -/

variable {rows : List α} {limit : Option ℤ}

theorem fromQuery_limit (offset : Option ℤ) : (Page.fromQuery limit offset).limit = pageSize limit := by
  simp only [pageSize, Page.fromQuery, clamp]
  omega

theorem pageSize_pos : 0 < pageSize limit := by
  simp only [pageSize, Page.fromQuery, clamp]
  omega

theorem pageSize_le : pageSize limit ≤ 500 := by
  simp only [pageSize, Page.fromQuery, clamp]
  omega

theorem fromQuery_offset (n : ℕ) :
    (Page.fromQuery limit (some (n : ℤ))).offset = (min n 1000000 : ℕ) := by
  simp only [Page.fromQuery, clamp, maxOffset, Option.getD_some]
  omega

/-- A page shows the rows from its clamped offset on, and names the next offset while rows are left. -/
theorem listRequests_eq (n : ℕ) :
    (listRequests rows limit (some (n : ℤ))).items = (rows.drop (min n 1000000)).take (pageSize limit) ∧
    (listRequests rows limit (some (n : ℤ))).page.nextOffset =
      if min n 1000000 + pageSize limit < rows.length then
        some ((min n 1000000 + pageSize limit : ℕ) : ℤ) else none := by
  have hlimit : (Page.fromQuery limit (some (n : ℤ))).limit = pageSize limit := fromQuery_limit _
  have hle : pageSize limit ≤ 500 := pageSize_le
  constructor
  · simp only [listRequests, selectRows, Page.fetchLimit, hlimit, fromQuery_offset, Int.toNat_natCast,
      List.take_take]
    congr 1
    omega
  · simp only [listRequests, selectRows, Page.fetchLimit, Page.info, hlimit, fromQuery_offset,
      Int.toNat_natCast, List.length_take, List.length_drop, decide_eq_true_eq]
    by_cases hmore : min n 1000000 + pageSize limit < rows.length
    · rw [if_pos hmore, if_pos (by omega)]
      congr 1
      omega
    · rw [if_neg hmore, if_neg (by omega)]

theorem follow_last {n : ℕ} (fuel : ℕ) (h : rows.length ≤ min n 1000000 + pageSize limit) :
    follow rows limit (fuel + 1) (some (n : ℤ)) =
      some [(rows.drop (min n 1000000)).take (pageSize limit)] := by
  obtain ⟨hitems, hnext⟩ := @listRequests_eq _ rows limit n
  rw [if_neg (by omega)] at hnext
  simp only [follow, hnext, hitems]

theorem follow_next {n : ℕ} (fuel : ℕ) (h : min n 1000000 + pageSize limit < rows.length) :
    follow rows limit (fuel + 1) (some (n : ℤ)) =
      (follow rows limit fuel (some ((min n 1000000 + pageSize limit : ℕ) : ℤ))).map
        ((rows.drop (min n 1000000)).take (pageSize limit) :: ·) := by
  obtain ⟨hitems, hnext⟩ := @listRequests_eq _ rows limit n
  rw [if_pos h] at hnext
  simp only [follow, hnext, hitems]

/-! ### All pages -/

/-- A table within reach: from each page on, the rest of the rows. -/
theorem follow_reachable (h : rows.length ≤ reachable (pageSize limit)) :
    ∀ left k : ℕ, rows.length ≤ (k + left) * pageSize limit → k * pageSize limit ≤ 1000000 →
      ∃ fuel pages, follow rows limit fuel (some ((k * pageSize limit : ℕ) : ℤ)) = some pages ∧
        pages.flatten = rows.drop (k * pageSize limit) := by
  have hpos : 0 < pageSize limit := pageSize_pos
  intro left
  induction left with
  | zero =>
    intro k hend hk
    rw [Nat.add_zero] at hend
    refine ⟨1, _, follow_last 0 (by omega), ?_⟩
    rw [min_eq_left hk, List.drop_eq_nil_of_le hend, List.take_nil, List.flatten_singleton]
  | succ left ih =>
    intro k hend hk
    by_cases hlast : rows.length ≤ k * pageSize limit + pageSize limit
    · refine ⟨1, _, follow_last 0 (by rw [min_eq_left hk]; exact hlast), ?_⟩
      rw [min_eq_left hk, List.flatten_singleton, List.take_of_length_le]
      rw [List.length_drop]
      omega
    · -- the next page starts within the clamp as well
      have hnext : (k + 1) * pageSize limit ≤ 1000000 := by
        have hlt : (k + 1) * pageSize limit < (1000000 / pageSize limit + 1) * pageSize limit := by
          rw [reachable] at h
          rw [Nat.succ_mul]
          omega
        have hk' : k + 1 ≤ 1000000 / pageSize limit :=
          Nat.lt_succ_iff.mp (Nat.lt_of_mul_lt_mul_right hlt)
        exact (Nat.mul_le_mul_right _ hk').trans (Nat.div_mul_le_self _ _)
      obtain ⟨fuel, pages, hpages, hflat⟩ := ih (k + 1) (by rw [Nat.add_right_comm]; exact hend) hnext
      rw [Nat.succ_mul] at hpages hflat
      refine ⟨fuel + 1, (rows.drop (k * pageSize limit)).take (pageSize limit) :: pages, ?_, ?_⟩
      · rw [follow_next fuel (by rw [min_eq_left hk]; omega), min_eq_left hk, hpages, Option.map_some]
      · rw [List.flatten_cons, hflat, ← List.drop_drop, List.take_append_drop]

/-- Past the clamp the client reads on from the same row for ever, or until the end of the table. -/
theorem follow_clamped : ∀ (fuel n : ℕ) {pages : List (List α)}, 1000000 ≤ n →
    follow rows limit fuel (some (n : ℤ)) = some pages →
    rows.length ≤ 1000000 + pages.flatten.length := by
  intro fuel
  induction fuel with
  | zero =>
    intro n pages _ h
    cases h
  | succ fuel ih =>
    intro n pages hn h
    by_cases hmore : min n 1000000 + pageSize limit < rows.length
    · rw [follow_next fuel hmore] at h
      obtain ⟨rest, hrest, rfl⟩ := Option.map_eq_some_iff.mp h
      have := ih _ (by omega) hrest
      rw [List.flatten_cons, List.length_append]
      omega
    · rw [follow_last fuel (by omega)] at h
      cases h
      rw [List.flatten_singleton, List.length_take, List.length_drop]
      omega

/-- A table out of reach: if the client stops at all, it has received too many rows. -/
theorem follow_unreachable (h : reachable (pageSize limit) < rows.length) :
    ∀ (fuel k : ℕ) {pages : List (List α)}, k ≤ 1000000 / pageSize limit →
      follow rows limit fuel (some ((k * pageSize limit : ℕ) : ℤ)) = some pages →
      rows.length < k * pageSize limit + pages.flatten.length := by
  have hpos : 0 < pageSize limit := pageSize_pos
  intro fuel
  induction fuel with
  | zero =>
    intro k pages _ hrun
    cases hrun
  | succ fuel ih =>
    intro k pages hk hrun
    have hle : k * pageSize limit ≤ 1000000 :=
      (Nat.mul_le_mul_right _ hk).trans (Nat.div_mul_le_self _ _)
    have hmul : (k + 1) * pageSize limit ≤ reachable (pageSize limit) :=
      Nat.mul_le_mul_right _ (Nat.succ_le_succ hk)
    rw [Nat.succ_mul] at hmul
    rw [follow_next fuel (by rw [min_eq_left hle]; omega), min_eq_left hle] at hrun
    obtain ⟨rest, hrest, rfl⟩ := Option.map_eq_some_iff.mp hrun
    rw [List.flatten_cons, List.length_append, List.length_take, List.length_drop]
    rcases Nat.lt_or_ge k (1000000 / pageSize limit) with hlt | hge
    · have := ih (k + 1) hlt (by rw [Nat.succ_mul]; exact hrest)
      rw [Nat.succ_mul] at this
      omega
    · -- the page after the last one in reach is clamped
      have hover : 1000000 < k * pageSize limit + pageSize limit := by
        have := Nat.lt_div_mul_add hpos (a := 1000000)
        rw [← Nat.le_antisymm hk hge] at this
        exact this
      have := follow_clamped fuel _ hover.le hrest
      omega

theorem not_enumerated (h : reachable (pageSize limit) < rows.length) : ¬Enumerated rows limit := by
  rintro ⟨fuel, pages, hrun, hflat⟩
  have := follow_unreachable h fuel 0 (Nat.zero_le _) (by rw [Nat.zero_mul]; exact hrun)
  rw [hflat] at this
  omega

end

/-- PAGING: the client receives every row once, in order, and stops, exactly when the table ends on a
    page that starts within the clamp. -/
theorem pages_enumerate_iff {α : Type} (rows : List α) (limit : Option ℤ) :
    Enumerated rows limit ↔ rows.length ≤ (1000000 / pageSize limit + 1) * pageSize limit := by
  constructor
  · intro h
    by_contra hlong
    exact not_enumerated (Nat.lt_of_not_le hlong) h
  · intro h
    have hpos : 0 < pageSize limit := pageSize_pos
    have hend : rows.length ≤ (0 + rows.length) * pageSize limit := by
      rw [Nat.zero_add]
      exact Nat.le_mul_of_pos_right _ hpos
    obtain ⟨fuel, pages, hrun, hflat⟩ := follow_reachable h rows.length 0 hend (by omega)
    rw [Nat.zero_mul] at hrun hflat
    exact ⟨fuel, pages, hrun, hflat⟩

/-- One row more than the pages of a hundred in reach. -/
theorem long_table_not_enumerated : ¬Enumerated (List.range 1000101) none := by
  refine not_enumerated ?_
  rw [List.length_range]
  decide

end Llmtrace.Storage
