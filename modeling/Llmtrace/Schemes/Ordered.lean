import Mathlib

/-! Finite maps in key order. `fetch` and `put` work on association lists over a linear order; an
    `OrdMap` is such a list with strictly ascending keys, so that two maps with the same lookups are
    the same map, and `values` lists the values in key order. -/

namespace Llmtrace.Schemes

variable {κ β : Type*} [LinearOrder κ]

/-- The value of a key in a list of entries. -/
def fetch (k : κ) : List (κ × β) → Option β
  | [] => none
  | e :: es => if k = e.1 then some e.2 else fetch k es

/-- Replaces the value of `k`, or enters it before the first greater key. -/
def put (k : κ) (v : β) : List (κ × β) → List (κ × β)
  | [] => [(k, v)]
  | e :: es =>
    if k < e.1 then (k, v) :: e :: es
    else if k = e.1 then (k, v) :: es
    else e :: put k v es

/-- Strictly ascending keys. -/
def Ascending (es : List (κ × β)) : Prop := es.Pairwise fun a b => a.1 < b.1

instance (es : List (κ × β)) : Decidable (Ascending es) :=
  inferInstanceAs (Decidable (es.Pairwise fun a b => a.1 < b.1))

theorem fetch_put (k k' : κ) (v : β) :
    ∀ es, fetch k (put k' v es) = if k = k' then some v else fetch k es
  | [] => rfl
  | e :: es => by
      rw [put]
      split
      · rfl
      split
      · rename_i h
        subst h
        simp only [fetch]
        split <;> rfl
      · rename_i h
        simp only [fetch, fetch_put k k' v es]
        split
        · rename_i he
          subst he
          rw [if_neg (Ne.symm h)]
        · rfl

theorem mem_of_fetch {k : κ} {v : β} : ∀ {es : List (κ × β)}, fetch k es = some v → (k, v) ∈ es
  | e :: es, h => by
      rw [fetch] at h
      split at h
      · rename_i hk
        cases h
        subst hk
        exact List.mem_cons_self
      · exact List.mem_cons_of_mem _ (mem_of_fetch h)

theorem fetch_of_lt {k : κ} : ∀ {es : List (κ × β)}, (∀ e ∈ es, k < e.1) → fetch k es = none
  | [], _ => rfl
  | e :: es, h => by
      rw [fetch, if_neg (h e List.mem_cons_self).ne]
      exact fetch_of_lt fun x hx => h x (List.mem_cons_of_mem _ hx)

theorem fetch_of_mem {k : κ} {v : β} : ∀ {es : List (κ × β)}, Ascending es → (k, v) ∈ es →
    fetch k es = some v
  | e :: es, hasc, h => by
      obtain ⟨hlt, htail⟩ := List.pairwise_cons.mp hasc
      rcases List.mem_cons.mp h with rfl | h
      · simp [fetch]
      · rw [fetch, if_neg (hlt _ h).ne']
        exact fetch_of_mem htail h

theorem mem_put {k : κ} {v : β} {e : κ × β} :
    ∀ {es : List (κ × β)}, e ∈ put k v es → e = (k, v) ∨ e ∈ es
  | [], h => .inl (List.mem_singleton.mp h)
  | x :: es, h => by
      rw [put] at h
      split at h
      · exact List.mem_cons.mp h
      split at h
      · exact (List.mem_cons.mp h).imp_right (List.mem_cons_of_mem _)
      · rcases List.mem_cons.mp h with rfl | h
        · exact .inr List.mem_cons_self
        · exact (mem_put h).imp_right (List.mem_cons_of_mem _)

theorem Ascending.put {k : κ} {v : β} :
    ∀ {es : List (κ × β)}, Ascending es → Ascending (put k v es)
  | [], _ => List.pairwise_singleton _ _
  | e :: es, h => by
      obtain ⟨hlt, htail⟩ := List.pairwise_cons.mp h
      rw [Schemes.put]
      split
      · rename_i hk
        refine List.pairwise_cons.mpr ⟨fun x hx => ?_, h⟩
        rcases List.mem_cons.mp hx with rfl | hx
        · exact hk
        · exact hk.trans (hlt x hx)
      split
      · rename_i hk
        subst hk
        exact List.pairwise_cons.mpr ⟨hlt, htail⟩
      · rename_i hnlt hne
        refine List.pairwise_cons.mpr ⟨fun x hx => ?_, Ascending.put htail⟩
        rcases mem_put hx with rfl | hx
        · exact lt_of_le_of_ne (not_lt.mp hnlt) (Ne.symm hne)
        · exact hlt x hx

/-- Ascending lists are determined by their lookups. -/
theorem Ascending.ext : ∀ {es es' : List (κ × β)}, Ascending es → Ascending es' →
    (∀ k, fetch k es = fetch k es') → es = es'
  | [], [], _, _, _ => rfl
  | [], e :: es, _, _, h => by simpa [fetch] using h e.1
  | e :: es, [], _, _, h => by simpa [fetch] using h e.1
  | (k, v) :: es, (k', v') :: es', h, h', hsame => by
      obtain ⟨hlt, htail⟩ := List.pairwise_cons.mp h
      obtain ⟨hlt', htail'⟩ := List.pairwise_cons.mp h'
      have hkey : k = k' := by
        rcases lt_trichotomy k k' with hk | hk | hk
        · have := hsame k
          rw [fetch, if_pos rfl, fetch_of_lt fun e he => ?_] at this
          · cases this
          · rcases List.mem_cons.mp he with rfl | he
            · exact hk
            · exact hk.trans (hlt' e he)
        · exact hk
        · have := hsame k'
          rw [fetch_of_lt fun e he => ?_, fetch, if_pos rfl] at this
          · cases this
          · rcases List.mem_cons.mp he with rfl | he
            · exact hk
            · exact hk.trans (hlt e he)
      subst hkey
      have hval : v = v' := by simpa [fetch] using hsame k
      subst hval
      refine congrArg _ (Ascending.ext htail htail' fun x => ?_)
      by_cases hx : x = k
      · subst hx
        rw [fetch_of_lt hlt, fetch_of_lt hlt']
      · simpa [fetch, hx] using hsame x

/-! ### Lists that agree entry by entry -/

theorem mem_left_of_forall₂ {α β : Type*} {R : α → β → Prop} {xs : List α} {ys : List β}
    (h : List.Forall₂ R xs ys) {x : α} (hx : x ∈ xs) : ∃ y ∈ ys, R x y := by
  induction h with
  | nil => cases hx
  | cons hxy _ ih =>
    rcases List.mem_cons.mp hx with rfl | hx
    · exact ⟨_, List.mem_cons_self, hxy⟩
    · obtain ⟨y, hy, hR⟩ := ih hx
      exact ⟨y, List.mem_cons_of_mem _ hy, hR⟩

theorem flatMap_eq_of_forall₂ {α β γ : Type*} {R : α → β → Prop} {f : α → List γ} {g : β → List γ}
    (hfg : ∀ x y, R x y → f x = g y) {xs : List α} {ys : List β} (h : List.Forall₂ R xs ys) :
    xs.flatMap f = ys.flatMap g := by
  induction h with
  | nil => rfl
  | cons hxy _ ih => rw [List.flatMap_cons, List.flatMap_cons, hfg _ _ hxy, ih]

/-! ### All values of a key -/

section
variable {ι : Type*} [DecidableEq ι]

/-- The values under `k`, in the order of the list. -/
def fetchAll (k : ι) (es : List (ι × β)) : List β := (es.filter fun e => e.1 = k).map Prod.snd

@[simp] theorem fetchAll_nil (k : ι) : fetchAll k ([] : List (ι × β)) = [] := rfl

@[simp] theorem fetchAll_cons_self (k : ι) (v : β) (es : List (ι × β)) :
    fetchAll k ((k, v) :: es) = v :: fetchAll k es := by
  simp [fetchAll]

theorem fetchAll_cons_ne {k k' : ι} (h : k' ≠ k) (v : β) (es : List (ι × β)) :
    fetchAll k ((k', v) :: es) = fetchAll k es := by
  simp [fetchAll, h]

theorem fetchAll_flatMap {α : Type*} (k : ι) (f : α → List (ι × β)) (xs : List α) :
    fetchAll k (xs.flatMap f) = xs.flatMap fun x => fetchAll k (f x) := by
  rw [fetchAll, List.filter_flatMap, List.map_flatMap]
  rfl

theorem fetchAll_eq_nil {k : ι} {es : List (ι × β)} (h : ∀ e ∈ es, e.1 ≠ k) : fetchAll k es = [] := by
  rw [fetchAll, List.filter_eq_nil_iff.mpr fun e he => by simpa using h e he]
  rfl

/-- Under distinct keys there is one value at most. -/
theorem fetchAll_of_mem {k : ι} {v : β} : ∀ {es : List (ι × β)},
    es.Pairwise (fun a b => a.1 ≠ b.1) → (k, v) ∈ es → fetchAll k es = [v]
  | (k', v') :: es, hdistinct, h => by
      obtain ⟨hhead, htail⟩ := List.pairwise_cons.mp hdistinct
      rcases List.mem_cons.mp h with heq | h
      · cases heq
        rw [fetchAll_cons_self, fetchAll_eq_nil fun e he => (hhead e he).symm]
      · rw [fetchAll_cons_ne (hhead _ h), fetchAll_of_mem htail h]

/-- All entries under one key. -/
theorem fetchAll_const {α : Type*} (k : ι) (f : α → β) (xs : List α) :
    fetchAll k (xs.map fun x => (k, f x)) = xs.map f := by
  simp [fetchAll, List.filter_map, Function.comp_def]

theorem fetchAll_map {ι' : Type*} [DecidableEq ι'] {f : ι → ι'} (hf : f.Injective) (k : ι)
    (es : List (ι × β)) : fetchAll (f k) (es.map fun e => (f e.1, e.2)) = fetchAll k es := by
  simp [fetchAll, List.filter_map, Function.comp_def, hf.eq_iff]

/-- Lists that agree entry by entry agree under each key. -/
theorem forall₂_fetchAll {γ ι' : Type*} [DecidableEq ι'] {f : ι → ι'} (hf : f.Injective)
    {R : γ → β → Prop} (k : ι) : ∀ {es : List (ι' × γ)} {es' : List (ι × β)},
    List.Forall₂ (fun e e' => e.1 = f e'.1 ∧ R e.2 e'.2) es es' →
      List.Forall₂ R (fetchAll (f k) es) (fetchAll k es')
  | _, _, .nil => .nil
  | (_, v) :: es, (k', v') :: es', .cons ⟨hkey, hR⟩ h => by
      dsimp only at hkey
      subst hkey
      by_cases hk : k' = k
      · subst hk
        rw [fetchAll_cons_self, fetchAll_cons_self]
        exact .cons hR (forall₂_fetchAll hf k' h)
      · rw [fetchAll_cons_ne hk, fetchAll_cons_ne fun h => hk (hf h)]
        exact forall₂_fetchAll hf k h

end

/-- A finite map, its entries in key order. -/
structure OrdMap (κ β : Type*) [LinearOrder κ] where
  entries : List (κ × β)
  ascending : Ascending entries

namespace OrdMap

/-- The map without entries. -/
def empty : OrdMap κ β := ⟨[], List.Pairwise.nil⟩

/-- The value of a key. -/
def get (m : OrdMap κ β) (k : κ) : Option β := fetch k m.entries

/-- The map with a key set. -/
def insert (m : OrdMap κ β) (k : κ) (v : β) : OrdMap κ β := ⟨put k v m.entries, m.ascending.put⟩

/-- The number of keys. -/
def size (m : OrdMap κ β) : ℕ := m.entries.length

/-- The values in key order. -/
def values (m : OrdMap κ β) : List β := m.entries.map Prod.snd

@[simp] theorem get_empty (k : κ) : (empty : OrdMap κ β).get k = none := rfl

theorem get_insert (m : OrdMap κ β) (k k' : κ) (v : β) :
    (m.insert k' v).get k = if k = k' then some v else m.get k := fetch_put k k' v m.entries

@[simp] theorem get_insert_self (m : OrdMap κ β) (k : κ) (v : β) :
    (m.insert k v).get k = some v := by
  rw [get_insert, if_pos rfl]

theorem get_insert_ne {m : OrdMap κ β} {k k' : κ} (v : β) (h : k ≠ k') :
    (m.insert k' v).get k = m.get k := by
  rw [get_insert, if_neg h]

theorem ext_get {m m' : OrdMap κ β} (h : ∀ k, m.get k = m'.get k) : m = m' := by
  obtain ⟨es, hes⟩ := m
  obtain ⟨es', hes'⟩ := m'
  obtain rfl : es = es' := hes.ext hes' h
  rfl

theorem fetch_filter {p : β → Bool} : ∀ {es : List (κ × β)}, Ascending es → ∀ k,
    fetch k (es.filter fun e => p e.2) = (fetch k es).filter p
  | [], _, _ => rfl
  | (k', v) :: es, h, k => by
      obtain ⟨hlt, htail⟩ := List.pairwise_cons.mp h
      have ih := fetch_filter (p := p) htail k
      by_cases hk : k = k'
      · subst hk
        rw [fetch_of_lt hlt] at ih
        by_cases hp : p v
        · simp [fetch, hp, Option.filter]
        · simp [fetch, hp, ih, Option.filter]
      · by_cases hp : p v
        · simp [fetch, hk, hp, ih]
        · simp [fetch, hk, hp, ih]

/-- The values with `p`, read off any ascending list with the same lookups as far as `p` holds. -/
theorem values_filter {m : OrdMap κ β} {es : List (κ × β)} {p : β → Bool} (hes : Ascending es)
    (h : ∀ k, (m.get k).filter p = (fetch k es).filter p) :
    m.values.filter p = (es.map Prod.snd).filter p := by
  have heq : m.entries.filter (fun e => p e.2) = es.filter fun e => p e.2 := by
    refine Ascending.ext (m.ascending.filter _) (hes.filter _) fun k => ?_
    rw [fetch_filter m.ascending, fetch_filter hes]
    exact h k
  rw [values, List.filter_map, List.filter_map]
  exact congrArg _ heq

/-- A map whose keys are among `ks` has at most as many entries. -/
theorem size_le {m : OrdMap κ β} {ks : List κ} (h : ∀ k v, m.get k = some v → k ∈ ks) :
    m.size ≤ ks.length := by
  have hnodup : (m.entries.map Prod.fst).Nodup :=
    List.pairwise_map.mpr (m.ascending.imp fun hlt => hlt.ne)
  have hsub : m.entries.map Prod.fst ⊆ ks := by
    rintro k hk
    obtain ⟨⟨k, v⟩, he, rfl⟩ := List.mem_map.mp hk
    exact h k v (fetch_of_mem m.ascending he)
  have := (hnodup.subperm hsub).length_le
  rwa [List.length_map] at this

/-- While a key of `ks` is missing, fewer. -/
theorem size_lt {m : OrdMap κ β} {ks : List κ} {k : κ} (h : ∀ k v, m.get k = some v → k ∈ ks)
    (hk : m.get k = none) (hmem : k ∈ ks) : m.size < ks.length := by
  have hle : m.size ≤ (ks.erase k).length := by
    refine size_le fun k' v hv => (List.mem_erase_of_ne ?_).mpr (h k' v hv)
    rintro rfl
    rw [hk] at hv
    cases hv
  rw [List.length_erase_of_mem hmem] at hle
  have := List.length_pos_of_mem hmem
  omega

end OrdMap
end Llmtrace.Schemes
