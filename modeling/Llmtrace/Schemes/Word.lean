import Mathlib

/-! Unsigned 64-bit words as naturals: saturating and checked arithmetic, and the little-endian byte
    codec `leBytes` / `leValue` (the two are inverse on words of the given width), with `beBytes` /
    `beValue` for the other byte order. -/

namespace Llmtrace.Schemes

/-- A byte string. -/
abbrev Bytes := List UInt8

/-- `u64::MAX` -/
def u64Max : ℕ := 2 ^ 64 - 1

/-- `saturating_add` -/
def saturatingAdd (a b : ℕ) : ℕ := min (a + b) u64Max

/-- `saturating_mul` -/
def saturatingMul (a b : ℕ) : ℕ := min (a * b) u64Max

/-- `checked_add` -/
def checkedAdd (a b : ℕ) : Option ℕ := if a + b ≤ u64Max then some (a + b) else none

theorem checkedAdd_eq_some {a b c : ℕ} : checkedAdd a b = some c ↔ a + b = c ∧ c ≤ u64Max := by
  unfold checkedAdd
  split
  · simp only [Option.some.injEq]; omega
  · simp only [reduceCtorEq, false_iff]; omega

/-- The `k` low bytes of `n`, least significant first. -/
def leBytes : ℕ → ℕ → Bytes
  | 0, _ => []
  | k + 1, n => UInt8.ofNat n :: leBytes k (n / 256)

/-- The number a byte string spells, least significant byte first. -/
def leValue : Bytes → ℕ
  | [] => 0
  | b :: bs => b.toNat + 256 * leValue bs

@[simp] theorem leBytes_length : ∀ k n, (leBytes k n).length = k
  | 0, _ => rfl
  | k + 1, n => by simp [leBytes, leBytes_length k]

theorem leValue_leBytes : ∀ {k n : ℕ}, n < 256 ^ k → leValue (leBytes k n) = n
  | 0, n, h => by simp only [pow_zero] at h; simp [leBytes, leValue]; omega
  | k + 1, n, h => by
      have hdiv : n / 256 < 256 ^ k := by
        rw [pow_succ] at h
        exact Nat.div_lt_of_lt_mul (by omega)
      simp only [leBytes, leValue, leValue_leBytes hdiv, UInt8.toNat_ofNat']
      omega

theorem leBytes_leValue : ∀ bs : Bytes, leBytes bs.length (leValue bs) = bs
  | [] => rfl
  | b :: bs => by
      have hb : b.toNat < 256 := b.toNat_lt
      have hdiv : (b.toNat + 256 * leValue bs) / 256 = leValue bs := by omega
      have hlow : UInt8.ofNat (b.toNat + 256 * leValue bs) = b := by
        apply UInt8.toNat_inj.mp
        simp only [UInt8.toNat_ofNat']
        omega
      simp only [List.length_cons, leBytes, leValue, hdiv, hlow, leBytes_leValue bs]

/-- The `k` low bytes of `n`, most significant first. -/
def beBytes (k n : ℕ) : Bytes := (leBytes k n).reverse

/-- The number a byte string spells, most significant byte first. -/
def beValue (bs : Bytes) : ℕ := leValue bs.reverse

@[simp] theorem beBytes_length (k n : ℕ) : (beBytes k n).length = k := by
  rw [beBytes, List.length_reverse, leBytes_length]

theorem beValue_beBytes {k n : ℕ} (h : n < 256 ^ k) : beValue (beBytes k n) = n := by
  rw [beValue, beBytes, List.reverse_reverse, leValue_leBytes h]

/-! ### Fields at fixed offsets -/

/-- `bytes.get(start..stop)` -/
def slice (bs : Bytes) (start stop : ℕ) : Option Bytes :=
  if start ≤ stop ∧ stop ≤ bs.length then some ((bs.drop start).take (stop - start)) else none

theorem slice_eq_some {bs out : Bytes} {start stop : ℕ} :
    slice bs start stop = some out ↔
      start ≤ stop ∧ stop ≤ bs.length ∧ out = (bs.drop start).take (stop - start) := by
  unfold slice
  split
  · rename_i h
    simp only [Option.some.injEq, h.1, h.2, true_and]
    exact eq_comm
  · rename_i h
    simp only [reduceCtorEq, false_iff]
    rintro ⟨h1, h2, -⟩
    exact h ⟨h1, h2⟩

theorem slice_length {bs out : Bytes} {start stop : ℕ} (h : slice bs start stop = some out) :
    out.length = stop - start := by
  obtain ⟨h1, h2, rfl⟩ := slice_eq_some.mp h
  rw [List.length_take, List.length_drop]
  omega

theorem slice_append {pre mid post : Bytes} {i k : ℕ} (hi : pre.length = i) (hk : mid.length = k) :
    ((pre ++ (mid ++ post)).drop i).take k = mid := by
  subst hi hk
  simp

/-- Three adjacent pieces of a byte string, put back together. -/
theorem pieces_append (bs : Bytes) {a b c : ℕ} (h : bs.length = a + b + c) :
    bs.take a ++ (bs.drop a).take b ++ (bs.drop (a + b)).take c = bs := by
  have hc : (bs.drop (a + b)).take c = bs.drop (a + b) :=
    List.take_of_length_le (by simp only [List.length_drop]; omega)
  rw [hc, ← List.drop_drop, List.append_assoc, List.take_append_drop, List.take_append_drop]

end Llmtrace.Schemes
