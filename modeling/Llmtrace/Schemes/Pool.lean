import Mathlib

/-! A pool of running processes, kept in a list and addressed by position: what replacing or
    removing the process at a position does to the pool, up to order. -/

namespace Llmtrace.Schemes

variable {α : Type*}

theorem pool_perm {l : List α} {i : ℕ} {a : α} (h : l[i]? = some a) :
    l.Perm (a :: l.eraseIdx i) := by
  obtain ⟨hi, rfl⟩ := List.getElem?_eq_some_iff.mp h
  exact (List.getElem_cons_eraseIdx_perm hi).symm

theorem pool_set_perm {l : List α} {i : ℕ} {a : α} (h : l[i]? = some a) (b : α) :
    (l.set i b).Perm (b :: l.eraseIdx i) := by
  obtain ⟨hi, -⟩ := List.getElem?_eq_some_iff.mp h
  exact List.set_perm_cons_eraseIdx hi b

theorem pool_mem {l : List α} {i : ℕ} {a : α} (h : l[i]? = some a) : a ∈ l :=
  List.mem_of_getElem? h

theorem pool_mem_set {l : List α} {i : ℕ} {a b x : α} (h : l[i]? = some a) (hx : x ∈ l.set i b) :
    x = b ∨ x ∈ l.eraseIdx i :=
  List.mem_cons.mp ((pool_set_perm h b).mem_iff.mp hx)

theorem pool_countP {l : List α} {i : ℕ} {a : α} (h : l[i]? = some a) (p : α → Bool) :
    l.countP p = (l.eraseIdx i).countP p + if p a then 1 else 0 := by
  rw [(pool_perm h).countP_eq, List.countP_cons]

theorem pool_countP_set {l : List α} {i : ℕ} {a : α} (h : l[i]? = some a) (b : α)
    (p : α → Bool) : (l.set i b).countP p = (l.eraseIdx i).countP p + if p b then 1 else 0 := by
  rw [(pool_set_perm h b).countP_eq, List.countP_cons]

/-- Replacing a process by one of the same key keeps the keys. -/
theorem pool_map_set {β : Type*} {l : List α} {i : ℕ} {a b : α} (f : α → β)
    (h : l[i]? = some a) (hf : f b = f a) : (l.set i b).map f = l.map f := by
  obtain ⟨hi, rfl⟩ := List.getElem?_eq_some_iff.mp h
  have hself := @List.set_getElem_self _ (l.map f) i (by simpa using hi)
  rw [List.getElem_map] at hself
  rw [List.map_set, hf, hself]

/-- In a pool without repeated keys, the others have other keys. -/
theorem pool_key_ne {β : Type*} {l : List α} {i : ℕ} {a x : α} {f : α → β} (hu : (l.map f).Nodup)
    (h : l[i]? = some a) (hx : x ∈ l.eraseIdx i) : f x ≠ f a := by
  have := ((pool_perm h).map f).nodup_iff.mp hu
  simp only [List.map_cons, List.nodup_cons, List.mem_map, not_exists, not_and] at this
  exact this.1 x hx

end Llmtrace.Schemes
