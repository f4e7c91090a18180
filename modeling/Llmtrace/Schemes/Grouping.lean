import Mathlib

/-! Rows in groups. Every row is in the group of its key and in no other, so what is summed over all
    groups is the sum over the rows.

    A ranking shows the first groups in some order. It leaves none out while they are few, and what it
    leaves out does not come before what it shows. -/

namespace Llmtrace.Schemes

/-- An order in which groups are ranked. -/
structure Ranking (κ : Type*) where
  le : κ → κ → Bool
  trans : ∀ a b c, le a b = true → le b c = true → le a c = true
  total : ∀ a b, (le a b || le b a) = true

/-- By a weight from the largest down, then by another order. -/
def Ranking.byWeight {κ : Type*} (weight : κ → ℕ) (r : Ranking κ) : Ranking κ where
  le a b := decide (weight b < weight a) || decide (weight a = weight b) && r.le a b
  trans a b c := by
    simp only [Bool.or_eq_true, Bool.and_eq_true, decide_eq_true_eq]
    rintro (hab | ⟨hab, hle⟩) (hbc | ⟨hbc, hle'⟩)
    · exact .inl (hbc.trans hab)
    · exact .inl (hbc ▸ hab)
    · exact .inl (hab ▸ hbc)
    · exact .inr ⟨hab.trans hbc, r.trans a b c hle hle'⟩
  total a b := by
    have htotal := Bool.or_eq_true _ _ ▸ r.total a b
    simp only [Bool.or_eq_true, Bool.and_eq_true, decide_eq_true_eq]
    rcases Nat.lt_trichotomy (weight a) (weight b) with hlt | heq | hgt
    · exact .inr (.inl hlt)
    · exact htotal.imp (fun h => .inr ⟨heq, h⟩) fun h => .inr ⟨heq.symm, h⟩
    · exact .inl (.inl hgt)

/-- The order of the keys themselves. -/
def Ranking.ascending (κ : Type*) [LinearOrder κ] : Ranking κ where
  le a b := decide (a ≤ b)
  trans a b c := by
    simp only [decide_eq_true_eq]
    exact le_trans
  total a b := by
    simp only [Bool.or_eq_true, decide_eq_true_eq]
    exact le_total a b

/-- The list in the order of a ranking. -/
def Ranking.sort {κ : Type*} (r : Ranking κ) (ks : List κ) : List κ :=
  ks.insertionSort fun a b => r.le a b = true

section
variable {κ : Type*} (r : Ranking κ) (ks : List κ)

theorem Ranking.sort_perm : (r.sort ks).Perm ks := List.perm_insertionSort _ _

theorem Ranking.sort_pairwise : (r.sort ks).Pairwise fun a b => r.le a b = true :=
  haveI : Std.Total fun a b => r.le a b = true := ⟨fun a b => (Bool.or_eq_true _ _).mp (r.total a b)⟩
  haveI : IsTrans κ fun a b => r.le a b = true := ⟨r.trans⟩
  List.pairwise_insertionSort _ _

end

section
variable {α κ M : Type*} [DecidableEq κ] [AddCommMonoid M] (key : α → κ) (rows : List α)

/-- The keys of the rows, each once. -/
def groupKeys : List κ := (rows.map key).dedup

/-- The rows of one key. -/
def group (k : κ) : List α := rows.filter fun row => key row = k

/-- The first keys in the order. -/
def ranked (r : Ranking κ) (limit : ℕ) : List κ := (r.sort (groupKeys key rows)).take limit

variable {key rows}

theorem mem_groupKeys {k : κ} : k ∈ groupKeys key rows ↔ ∃ row ∈ rows, key row = k := by
  rw [groupKeys, List.mem_dedup, List.mem_map]

variable (key rows) in
theorem nodup_groupKeys : (groupKeys key rows).Nodup := List.nodup_dedup _

/-! ### Sums over the groups -/

theorem sum_filter_key {ks : List κ} (hks : ks.Nodup) (f : α → M) (row : α) :
    (ks.map fun k => if key row = k then f row else 0).sum = if key row ∈ ks then f row else 0 := by
  induction ks with
  | nil => rfl
  | cons k ks ih =>
    obtain ⟨hk, hks⟩ := List.nodup_cons.mp hks
    rw [List.map_cons, List.sum_cons, ih hks]
    by_cases heq : key row = k
    · rw [if_pos heq, if_neg (heq ▸ hk), if_pos (heq ▸ List.mem_cons_self), add_zero]
    · simp [heq]

/-- The groups of some keys sum to the rows that have one of them. -/
theorem sum_groups {ks : List κ} (hks : ks.Nodup) (f : α → M) :
    (ks.map fun k => ((group key rows k).map f).sum).sum =
      ((rows.filter fun row => key row ∈ ks).map f).sum := by
  induction rows with
  | nil => simp [group]
  | cons row rows ih =>
    have hhead : ∀ k, ((group key (row :: rows) k).map f).sum =
        (if key row = k then f row else 0) + ((group key rows k).map f).sum := by
      intro k
      by_cases heq : key row = k
      · rw [group, List.filter_cons_of_pos (by simpa using heq), List.map_cons, List.sum_cons, if_pos heq, group]
      · rw [group, List.filter_cons_of_neg (by simpa using heq), if_neg heq, zero_add, group]
    rw [List.map_congr_left fun k _ => hhead k, List.sum_map_add, sum_filter_key hks, ih]
    by_cases hin : key row ∈ ks
    · rw [if_pos hin, List.filter_cons_of_pos (by simpa using hin), List.map_cons, List.sum_cons]
    · rw [if_neg hin, List.filter_cons_of_neg (by simpa using hin), zero_add]

theorem sum_groupKeys (f : α → M) :
    ((groupKeys key rows).map fun k => ((group key rows k).map f).sum).sum = (rows.map f).sum := by
  rw [sum_groups (nodup_groupKeys key rows)]
  congr 2
  refine List.filter_eq_self.mpr fun row hrow => ?_
  exact decide_eq_true (mem_groupKeys.mpr ⟨row, hrow, rfl⟩)

theorem sum_one (rows : List α) : (rows.map fun _ => 1).sum = rows.length := by
  induction rows with
  | nil => rfl
  | cons row rows ih => rw [List.map_cons, List.sum_cons, ih, List.length_cons, Nat.add_comm]

/-! ### Rankings -/

variable {r : Ranking κ} {limit : ℕ}

theorem mem_of_ranked {k : κ} (h : k ∈ ranked key rows r limit) : k ∈ groupKeys key rows :=
  (r.sort_perm _).mem_iff.mp (List.mem_of_mem_take h)

/-- A ranking of few groups shows them all. -/
theorem ranked_perm (h : (groupKeys key rows).length ≤ limit) :
    (ranked key rows r limit).Perm (groupKeys key rows) := by
  rw [ranked, List.take_of_length_le (by rwa [(r.sort_perm _).length_eq])]
  exact r.sort_perm _

/-- A group is shown, or the ranking is full and all that it shows comes before it. -/
theorem ranked_or_before {k : κ} (h : k ∈ groupKeys key rows) :
    k ∈ ranked key rows r limit ∨
      (ranked key rows r limit).length = limit ∧ ∀ shown ∈ ranked key rows r limit, r.le shown k = true := by
  have hall : k ∈ r.sort (groupKeys key rows) := (r.sort_perm _).mem_iff.mpr h
  have hsorted : (r.sort (groupKeys key rows)).Pairwise fun a b => r.le a b = true :=
    r.sort_pairwise _
  rw [← List.take_append_drop limit (r.sort (groupKeys key rows))] at hall hsorted
  rcases List.mem_append.mp hall with hshown | hrest
  · exact .inl hshown
  · refine .inr ⟨?_, fun shown hin => (List.pairwise_append.mp hsorted).2.2 shown hin k hrest⟩
    have hlong : limit < (r.sort (groupKeys key rows)).length := by
      by_contra hshort
      rw [List.drop_eq_nil_of_le (Nat.le_of_not_lt hshort)] at hrest
      exact List.not_mem_nil hrest
    rw [ranked, List.length_take]
    omega

theorem sum_ranked (f : α → M) (h : (groupKeys key rows).length ≤ limit) :
    ((ranked key rows r limit).map fun k => ((group key rows k).map f).sum).sum = (rows.map f).sum := by
  rw [((ranked_perm h).map _).sum_eq, sum_groupKeys]

end

end Llmtrace.Schemes
