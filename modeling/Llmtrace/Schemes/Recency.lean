import Mathlib

/-! A least-recently-used cache with an expiry time for each entry, as a list: no key twice, the entry
    used last at the end. A hit moves its entry to the end, a lookup at or after the expiry removes
    it, and a new key drops the first entry of a full list. -/

namespace Llmtrace.Schemes

/-- An item of the list. -/
structure Cached (κ β : Type) where
  key : κ
  value : β
  expiry : ℕ

namespace Cached
variable {κ β : Type} [DecidableEq κ]

/-- The item of a key. -/
def find (k : κ) (l : List (Cached κ β)) : Option (Cached κ β) := l.find? fun it => it.key = k

/-- The list without a key. -/
def without (k : κ) (l : List (Cached κ β)) : List (Cached κ β) := l.filter fun it => it.key ≠ k

/-- Looks `k` up at time `now`. -/
def lookup (k : κ) (now : ℕ) (l : List (Cached κ β)) : List (Cached κ β) × Option β :=
  match find k l with
  | none => (l, none)
  | some it => if now < it.expiry then (without k l ++ [it], some it.value) else (without k l, none)

/-- Stores an entry in a cache of at most `capacity` entries. -/
def store (capacity : ℕ) (it : Cached κ β) (l : List (Cached κ β)) : List (Cached κ β) :=
  if (find it.key l).isSome then without it.key l ++ [it]
  else if capacity ≤ l.length then l.tail ++ [it]
  else l ++ [it]

/-- No key twice, and at most `capacity` entries. -/
structure Fit (capacity : ℕ) (l : List (Cached κ β)) : Prop where
  nodup : (l.map key).Nodup
  bound : l.length ≤ capacity

variable {l : List (Cached κ β)} {k : κ} {it : Cached κ β} {capacity now : ℕ}

theorem find_eq_none : find k l = none ↔ k ∉ l.map key := by
  simp [find]

theorem mem_of_find (h : find k l = some it) : it ∈ l ∧ it.key = k :=
  ⟨List.mem_of_find?_eq_some h, by simpa using List.find?_some h⟩

theorem mem_without {it : Cached κ β} : it ∈ without k l ↔ it ∈ l ∧ it.key ≠ k := by
  simp [without]

theorem without_nodup (hl : (l.map key).Nodup) (hk : it.key = k) :
    ((without k l ++ [it]).map key).Nodup := by
  rw [List.map_append, List.map_singleton, List.nodup_append]
  refine ⟨hl.sublist (List.filter_sublist.map key), List.nodup_singleton _, ?_⟩
  rintro a ha b hb rfl
  obtain ⟨x, hx, rfl⟩ := List.mem_map.mp ha
  exact (mem_without.mp hx).2 (by rw [List.mem_singleton.mp hb, hk])

theorem without_length (h : k ∈ l.map key) : (without k l).length < l.length := by
  obtain ⟨x, hx, rfl⟩ := List.mem_map.mp h
  exact List.length_filter_lt_length_iff_exists.mpr ⟨x, hx, by simp⟩

theorem without_cons_self (hl : ((it :: l).map key).Nodup) : without it.key (it :: l) = l := by
  rw [List.map_cons, List.nodup_cons] at hl
  rw [without, List.filter_cons_of_neg (by simp)]
  refine List.filter_eq_self.mpr fun x hx => ?_
  have hne : x.key ≠ it.key := fun heq => hl.1 (heq ▸ List.mem_map_of_mem hx)
  simpa using hne

theorem Fit.without (h : Fit capacity l) : Fit capacity (without k l) :=
  ⟨h.nodup.sublist (List.filter_sublist.map key), (List.length_filter_le _ _).trans h.bound⟩

theorem Fit.lookup (h : Fit capacity l) : Fit capacity (lookup k now l).1 := by
  unfold Cached.lookup
  split
  · exact h
  rename_i it hit
  obtain ⟨hmem, rfl⟩ := mem_of_find hit
  have hlen := without_length (List.mem_map_of_mem (f := key) hmem)
  have hbound := h.bound
  split
  · exact ⟨without_nodup h.nodup rfl, by rw [List.length_append, List.length_singleton]; omega⟩
  · exact h.without

theorem Fit.store (h : Fit capacity l) (hpos : 0 < capacity) : Fit capacity (store capacity it l) := by
  have hbound := h.bound
  unfold Cached.store
  split
  · rename_i hsome
    obtain ⟨x, hx⟩ := Option.isSome_iff_exists.mp hsome
    obtain ⟨hmem, hkey⟩ := mem_of_find hx
    have hlen := without_length (List.mem_map_of_mem (f := key) hmem)
    rw [hkey] at hlen
    exact ⟨without_nodup h.nodup rfl, by rw [List.length_append, List.length_singleton]; omega⟩
  rename_i hnone
  have hnot := find_eq_none.mp (Option.not_isSome_iff_eq_none.mp hnone)
  split
  · refine ⟨?_, by rw [List.length_append, List.length_singleton, List.length_tail]; omega⟩
    rw [List.map_append, List.map_singleton, ← List.concat_eq_append, List.nodup_concat]
    have hsub : (l.tail.map key).Sublist (l.map key) := (List.tail_sublist l).map key
    exact ⟨fun hin => hnot (hsub.subset hin), h.nodup.sublist hsub⟩
  · refine ⟨?_, by rw [List.length_append, List.length_singleton]; omega⟩
    rw [List.map_append, List.map_singleton, ← List.concat_eq_append, List.nodup_concat]
    exact ⟨hnot, h.nodup⟩

/-- A lookup brings nothing new into the cache. -/
theorem mem_lookup {x : Cached κ β} (h : x ∈ (Cached.lookup k now l).1) : x ∈ l := by
  unfold Cached.lookup at h
  split at h
  · exact h
  rename_i it hit
  split at h
  · rcases List.mem_append.mp h with h | h
    · exact (mem_without.mp h).1
    · rw [List.mem_singleton.mp h]
      exact (mem_of_find hit).1
  · exact (mem_without.mp h).1

/-- What is stored besides the new entry was there before, under another key. -/
theorem mem_store {x : Cached κ β} (h : x ∈ Cached.store capacity it l) :
    x = it ∨ x ∈ l ∧ x.key ≠ it.key := by
  unfold Cached.store at h
  split at h
  · rcases List.mem_append.mp h with h | h
    · exact .inr (mem_without.mp h)
    · exact .inl (List.mem_singleton.mp h)
  rename_i hnone
  have hnot := find_eq_none.mp (Option.not_isSome_iff_eq_none.mp hnone)
  have hne : ∀ y ∈ l, y.key ≠ it.key := fun y hy hk => hnot (hk ▸ List.mem_map_of_mem hy)
  split at h
  · rcases List.mem_append.mp h with h | h
    · exact .inr ⟨List.mem_of_mem_tail h, hne x (List.mem_of_mem_tail h)⟩
    · exact .inl (List.mem_singleton.mp h)
  · rcases List.mem_append.mp h with h | h
    · exact .inr ⟨h, hne x h⟩
    · exact .inl (List.mem_singleton.mp h)

end Cached
end Llmtrace.Schemes
