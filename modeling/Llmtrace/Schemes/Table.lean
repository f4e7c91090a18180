import Mathlib

/-! Keyed tables: finite maps from keys to rows, and sums of a row measure over a table. What an
    insertion or a removal does to such a sum is one equation each. -/

namespace Llmtrace.Schemes

/-- A finite map without repeated keys. -/
abbrev Table (κ β : Type) := AList fun _ : κ => β

namespace Table
variable {κ β : Type}

/-- The sum of `f` over the rows. -/
def total (f : β → ℕ) (t : Table κ β) : ℕ := (t.entries.map fun r => f r.2).sum

/-- The number of rows. -/
def size (t : Table κ β) : ℕ := t.entries.length

theorem size_eq_total (t : Table κ β) : t.size = t.total fun _ => 1 := by
  simp [size, total]

variable [DecidableEq κ]

theorem total_insert (f : β → ℕ) (k : κ) (b : β) (t : Table κ β) :
    total f (AList.insert k b t) = f b + total f (t.erase k) := by
  simp [total, AList.erase]

theorem total_erase (f : β → ℕ) {k : κ} {b : β} {t : Table κ β} (h : t.lookup k = some b) :
    f b + total f (t.erase k) = total f t := by
  have hk : k ∈ t.entries.keys := AList.lookup_isSome.mp (by rw [h]; rfl)
  obtain ⟨b', l₁, l₂, _, hl, hr⟩ := List.exists_of_kerase hk
  have hb : b' = b := by
    have hmem : (⟨k, b'⟩ : Sigma fun _ : κ => β) ∈ t.entries := by rw [hl]; simp
    have := (List.mem_dlookup_iff t.nodupKeys).mpr hmem
    simp only [AList.lookup] at h
    rw [h] at this
    exact (Option.some.inj this).symm
  subst hb
  simp only [total, AList.erase, hr]
  rw [hl]
  simp only [List.map_append, List.map_cons, List.sum_append, List.sum_cons]
  omega

theorem total_erase_of_notMem (f : β → ℕ) {k : κ} {t : Table κ β} (h : k ∉ t) :
    total f (t.erase k) = total f t := by
  simp only [total, AList.erase]
  rw [List.kerase_of_notMem_keys h]

theorem total_erase_le (f : β → ℕ) (k : κ) (t : Table κ β) : total f (t.erase k) ≤ total f t := by
  rcases hk : t.lookup k with _ | b
  · rw [total_erase_of_notMem f (AList.lookup_eq_none.mp hk)]
  · have := total_erase f hk
    omega

/-- Replacing a row by one of the same measure keeps the sum. -/
theorem total_replace (f : β → ℕ) {k : κ} {b b' : β} {t : Table κ β} (h : t.lookup k = some b)
    (hf : f b' = f b) : total f (AList.insert k b' t) = total f t := by
  rw [total_insert, hf, total_erase f h]

theorem le_total (f : β → ℕ) {k : κ} {b : β} {t : Table κ β} (h : t.lookup k = some b) :
    f b ≤ total f t := by
  have := total_erase f h
  omega

theorem size_insert {k : κ} {b : β} {t : Table κ β} (h : k ∉ t) :
    size (AList.insert k b t) = t.size + 1 := by
  rw [size_eq_total, total_insert, total_erase_of_notMem _ h, ← size_eq_total]
  omega

theorem size_erase {k : κ} {b : β} {t : Table κ β} (h : t.lookup k = some b) :
    size (t.erase k) + 1 = t.size := by
  rw [size_eq_total, size_eq_total, ← total_erase (fun _ => 1) h]
  omega

theorem size_replace {k : κ} {b : β} (b' : β) {t : Table κ β} (h : t.lookup k = some b) :
    size (AList.insert k b' t) = t.size := by
  rw [size_eq_total, size_eq_total]
  exact total_replace (fun _ => 1) h rfl

theorem mem_of_lookup {k : κ} {b : β} {t : Table κ β} (h : t.lookup k = some b) : k ∈ t :=
  AList.lookup_isSome.mp (by rw [h]; rfl)

theorem lookup_of_mem {k : κ} {t : Table κ β} (h : k ∈ t) : ∃ b, t.lookup k = some b :=
  Option.isSome_iff_exists.mp (AList.lookup_isSome.mpr h)

theorem lookup_eq_some {k : κ} {b : β} {t : Table κ β} :
    t.lookup k = some b ↔ (⟨k, b⟩ : Sigma fun _ : κ => β) ∈ t.entries :=
  List.mem_dlookup_iff t.nodupKeys

/-- A row found after an insertion is the new one or an old one. -/
theorem lookup_insert_cases {k k' : κ} {b b' : β} {t : Table κ β}
    (h : (AList.insert k b t).lookup k' = some b') :
    k' = k ∧ b' = b ∨ k' ≠ k ∧ t.lookup k' = some b' := by
  by_cases hk : k' = k
  · subst hk
    rw [AList.lookup_insert, Option.some.injEq] at h
    exact .inl ⟨rfl, h.symm⟩
  · rw [AList.lookup_insert_ne hk] at h
    exact .inr ⟨hk, h⟩

theorem lookup_of_erase {k k' : κ} {b : β} {t : Table κ β} (h : (t.erase k).lookup k' = some b) :
    k' ≠ k ∧ t.lookup k' = some b := by
  by_cases hk : k' = k
  · subst hk
    rw [AList.lookup_erase] at h
    cases h
  · rw [AList.lookup_erase_ne hk] at h
    exact ⟨hk, h⟩

/-- The rows that meet `p`. -/
def retain (p : β → Bool) (t : Table κ β) : Table κ β :=
  ⟨t.entries.filter fun r => p r.2, List.NodupKeys.sublist List.filter_sublist t.nodupKeys⟩

/-- The rows whose key meets `p`. -/
def retainKeys (p : κ → Bool) (t : Table κ β) : Table κ β :=
  ⟨t.entries.filter fun r => p r.1, List.NodupKeys.sublist List.filter_sublist t.nodupKeys⟩

theorem lookup_retainKeys {p : κ → Bool} {k : κ} {t : Table κ β} :
    (t.retainKeys p).lookup k = if p k = true then t.lookup k else none := by
  ext b
  have hmem : (t.retainKeys p).lookup k = some b ↔ t.lookup k = some b ∧ p k = true := by
    simp only [lookup_eq_some, retainKeys, List.mem_filter]
  split_ifs with hp
  · simp only [hmem, hp, and_true]
  · simp only [hmem, hp]
    simp

theorem lookup_of_retainKeys {p : κ → Bool} {k : κ} {b : β} {t : Table κ β}
    (h : (t.retainKeys p).lookup k = some b) : t.lookup k = some b := by
  rw [lookup_retainKeys] at h
  split at h
  · exact h
  · cases h

theorem lookup_retain {p : β → Bool} {k : κ} {b : β} {t : Table κ β} :
    (t.retain p).lookup k = some b ↔ t.lookup k = some b ∧ p b = true := by
  simp only [lookup_eq_some, retain, List.mem_filter]

end Table
end Llmtrace.Schemes
