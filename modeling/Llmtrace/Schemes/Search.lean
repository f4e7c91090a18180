import Mathlib.Data.List.Basic
import Mathlib.Tactic.Common

/-! Binary search in a list whose first part satisfies a predicate and whose rest does not, as
    `slice::partition_point` of Rust does it. -/

namespace Llmtrace.Schemes

/-- Halves the interval of `size` positions from `base` on. -/
def bisect (below : ℕ → Bool) : ℕ → ℕ → ℕ → ℕ
  | 0, _, base => base
  | fuel + 1, size, base =>
    if 1 < size then
      bisect below fuel (size - size / 2) (if below (base + size / 2) then base + size / 2 else base)
    else base

/-- The number of elements in front that satisfy `p`. -/
def partitionPoint {α : Type*} (p : α → Bool) (l : List α) : ℕ :=
  if l.isEmpty then 0
  else
    let base := bisect (fun i => l[i]?.any p) l.length l.length 0
    if l[base]?.any p then base + 1 else base

/-- The first position from which on `below` fails stays in the interval. -/
theorem bisect_near {below : ℕ → Bool} {k : ℕ} (h : ∀ i, below i = decide (i < k)) :
    ∀ fuel size base, size ≤ fuel + 1 → (base < k ∨ base = 0) → k ≤ base + size →
      (bisect below fuel size base < k ∨ bisect below fuel size base = 0) ∧
        k ≤ bisect below fuel size base + 1
  | 0, size, base, hsize, hbase, hk => ⟨hbase, by rw [bisect]; omega⟩
  | fuel + 1, size, base, hsize, hbase, hk => by
      rw [bisect]
      split
      · rename_i hlarge
        rw [h]
        by_cases hmid : base + size / 2 < k
        · rw [decide_eq_true hmid, if_pos rfl]
          exact bisect_near h fuel _ _ (by omega) (.inl hmid) (by omega)
        · rw [decide_eq_false hmid, if_neg Bool.false_ne_true]
          exact bisect_near h fuel _ _ (by omega) hbase (by omega)
      · exact ⟨hbase, by omega⟩

theorem partitionPoint_append {α : Type*} {p : α → Bool} {a b : List α} (ha : ∀ x ∈ a, p x = true)
    (hb : ∀ x ∈ b, p x = false) : partitionPoint p (a ++ b) = a.length := by
  have hbelow : ∀ i, (a ++ b)[i]?.any p = decide (i < a.length) := by
    intro i
    by_cases hi : i < a.length
    · rw [List.getElem?_append_left hi, List.getElem?_eq_getElem hi, Option.any_some,
        ha _ (List.getElem_mem hi), decide_eq_true hi]
    · rw [List.getElem?_append_right (by omega), decide_eq_false hi]
      cases hx : b[i - a.length]? with
      | none => rfl
      | some x => rw [Option.any_some, hb x (List.mem_of_getElem? hx)]
  unfold partitionPoint
  split
  · rename_i hempty
    rw [List.isEmpty_iff, List.append_eq_nil_iff] at hempty
    rw [hempty.1, List.length_nil]
  · obtain ⟨hlow, hhigh⟩ := bisect_near hbelow (a ++ b).length (a ++ b).length 0 (by omega) (.inr rfl)
      (by rw [List.length_append]; omega)
    generalize bisect (fun i => (a ++ b)[i]?.any p) (a ++ b).length (a ++ b).length 0 = base at *
    simp only [hbelow]
    split
    · rename_i hlt
      rw [decide_eq_true_eq] at hlt
      omega
    · rename_i hlt
      rw [decide_eq_true_eq] at hlt
      omega

end Llmtrace.Schemes
