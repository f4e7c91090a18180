import Llmtrace.Schemes.Table

/-! Rows under READ COMMITTED with row locks.

    A row has a committed version and, while a transaction holds it, the version that transaction
    will commit. Others wait for the holder (`available`), read the committed version, or pass the
    row over. `Guarded` is the invariant such a table carries: the committed versions are right for
    the committed data, and a held version is right for the data as its holder will leave it. -/

namespace Llmtrace.Schemes

/-- A row: its committed version, and the transaction that holds it with the version it wrote.
    A missing row is the version `none`. -/
structure Cell (β : Type) where
  committed : Option β := none
  held : Option (ℕ × Option β) := none

namespace Cell
variable {β : Type}

/-- Transaction `i` has changed the row. -/
def HeldBy (c : Cell β) (i : ℕ) : Prop := ∃ v, c.held = some (i, v)

/-- No other transaction holds the row. -/
def available (c : Cell β) (i : ℕ) : Bool := c.held.all fun h => h.1 == i

/-- The version a statement of transaction `i` reads. -/
def visible (c : Cell β) (i : ℕ) : Option β :=
  match c.held with
  | none => c.committed
  | some (j, v) => if j = i then v else c.committed

/-- Transaction `i` changes the row. -/
def put (c : Cell β) (i : ℕ) (v : Option β) : Cell β := { c with held := some (i, v) }

/-- The change of transaction `i` becomes visible. -/
def commit (c : Cell β) (i : ℕ) : Cell β :=
  match c.held with
  | none => c
  | some (j, v) => if j = i then ⟨v, none⟩ else c

/-- The change of transaction `i` is undone. -/
def rollback (c : Cell β) (i : ℕ) : Cell β :=
  match c.held with
  | none => c
  | some (j, _) => if j = i then ⟨c.committed, none⟩ else c

theorem HeldBy.unique {c : Cell β} {i j : ℕ} (hi : c.HeldBy i) (hj : c.HeldBy j) : i = j := by
  obtain ⟨v, hv⟩ := hi
  obtain ⟨w, hw⟩ := hj
  rw [hv, Option.some.injEq, Prod.mk.injEq] at hw
  exact hw.1

theorem heldBy_put (c : Cell β) (i : ℕ) (v : Option β) : (c.put i v).HeldBy i := ⟨v, rfl⟩

theorem visible_self {c : Cell β} {i : ℕ} {v : Option β} (h : c.held = some (i, v)) :
    c.visible i = v := by
  simp only [visible, h, if_true]

theorem visible_other {c : Cell β} {i : ℕ} (h : ¬c.HeldBy i) : c.visible i = c.committed := by
  rcases hh : c.held with _ | ⟨j, v⟩
  · simp only [visible, hh]
  · have : j ≠ i := fun hji => h ⟨v, hji ▸ hh⟩
    simp only [visible, hh, if_neg this]

theorem not_heldBy_of_available {c : Cell β} {i j : ℕ} (h : c.available i = true) (hj : j ≠ i) :
    ¬c.HeldBy j := by
  rintro ⟨v, hv⟩
  simp only [available, hv, Option.all_some, beq_iff_eq] at h
  exact hj h

theorem commit_self {c : Cell β} {i : ℕ} {v : Option β} (h : c.held = some (i, v)) :
    c.commit i = ⟨v, none⟩ := by
  simp only [commit, h, if_true]

theorem commit_other {c : Cell β} {i : ℕ} (h : ¬c.HeldBy i) : c.commit i = c := by
  rcases hh : c.held with _ | ⟨j, v⟩
  · simp only [commit, hh]
  · have : j ≠ i := fun hji => h ⟨v, hji ▸ hh⟩
    simp only [commit, hh, if_neg this]

theorem rollback_self {c : Cell β} {i : ℕ} {v : Option β} (h : c.held = some (i, v)) :
    c.rollback i = ⟨c.committed, none⟩ := by
  simp only [rollback, h, if_true]

theorem rollback_other {c : Cell β} {i : ℕ} (h : ¬c.HeldBy i) : c.rollback i = c := by
  rcases hh : c.held with _ | ⟨j, v⟩
  · simp only [rollback, hh]
  · have : j ≠ i := fun hji => h ⟨v, hji ▸ hh⟩
    simp only [rollback, hh, if_neg this]

end Cell

/-! ### Tables of rows -/

/-- A table, by key. -/
abbrev Rows (κ β : Type) := κ → Cell β

namespace Rows
variable {κ β : Type}

/-- The changes of transaction `i` become visible. -/
def commit (rows : Rows κ β) (i : ℕ) : Rows κ β := fun k => (rows k).commit i

/-- The changes of transaction `i` are undone. -/
def rollback (rows : Rows κ β) (i : ℕ) : Rows κ β := fun k => (rows k).rollback i

/-- A `DELETE` over the rows that transaction `i` holds, of those that meet `p`. -/
def deleteHeld (rows : Rows κ β) (i : ℕ) (p : κ → β → Bool) : Rows κ β := fun k =>
  match (rows k).held with
  | some (j, some r) => if j = i ∧ p k r = true then (rows k).put i none else rows k
  | _ => rows k

variable [DecidableEq κ]

/-- Transaction `i` changes the row of a key. -/
def put (rows : Rows κ β) (i : ℕ) (k : κ) (v : Option β) : Rows κ β :=
  Function.update rows k ((rows k).put i v)

theorem put_self (rows : Rows κ β) (i : ℕ) (k : κ) (v : Option β) :
    rows.put i k v k = (rows k).put i v := by
  simp [put]

theorem put_ne (rows : Rows κ β) (i : ℕ) {k k' : κ} (h : k' ≠ k) (v : Option β) :
    rows.put i k v k' = rows k' := by
  simp [put, h]

theorem put_committed (rows : Rows κ β) (i : ℕ) (k k' : κ) (v : Option β) :
    (rows.put i k v k').committed = (rows k').committed := by
  by_cases h : k' = k
  · subst h
    rw [put_self]
    rfl
  · rw [put_ne rows i h]

/-- Taking an available row takes none from another transaction. -/
theorem heldBy_put_of_heldBy {rows : Rows κ β} {i j : ℕ} {k k' : κ} {v : Option β}
    (ha : (rows k).available i = true) (h : (rows k').HeldBy j) : (rows.put i k v k').HeldBy j := by
  by_cases hk : k' = k
  · subst hk
    rw [put_self]
    have hji : j = i := by
      by_contra hne
      exact Cell.not_heldBy_of_available ha hne h
    exact hji ▸ Cell.heldBy_put _ _ _
  · rwa [put_ne rows i hk]

end Rows

theorem Rows.heldBy_deleteHeld {κ β : Type} {rows : Rows κ β} {i j : ℕ} {k : κ}
    {p : κ → β → Bool} : (rows.deleteHeld i p k).HeldBy j ↔ (rows k).HeldBy j := by
  rcases hh : (rows k).held with _ | ⟨m, _ | r⟩
  · simp only [deleteHeld, hh]
  · simp only [deleteHeld, hh]
  · simp only [deleteHeld, hh]
    split
    · rename_i hm
      obtain ⟨rfl, -⟩ := hm
      simp only [Cell.HeldBy, Cell.put, hh, Option.some.injEq, Prod.mk.injEq]
      exact ⟨fun ⟨_, h, _⟩ => ⟨some r, h, rfl⟩, fun ⟨_, h, _⟩ => ⟨none, h, rfl⟩⟩
    · rfl

theorem Rows.heldBy_commit {κ β : Type} {rows : Rows κ β} {i j : ℕ} (hij : j ≠ i) {k : κ}
    (h : (rows k).HeldBy j) : (rows.commit i k).HeldBy j := by
  rw [Rows.commit, Cell.commit_other fun hi => hij (h.unique hi)]
  exact h

theorem Rows.heldBy_rollback {κ β : Type} {rows : Rows κ β} {i j : ℕ} (hij : j ≠ i) {k : κ}
    (h : (rows k).HeldBy j) : (rows.rollback i k).HeldBy j := by
  rw [Rows.rollback, Cell.rollback_other fun hi => hij (h.unique hi)]
  exact h

/-! ### The invariant of a table -/

/-- `Ok k v`: version `v` of row `k` is right for the committed data. `View i k v`: it is right for
    the data as transaction `i` will leave it. -/
structure Guarded {κ β : Type} (rows : Rows κ β) (Ok : κ → Option β → Prop)
    (View : ℕ → κ → Option β → Prop) : Prop where
  committed : ∀ k, Ok k (rows k).committed
  held : ∀ k i v, (rows k).held = some (i, v) → View i k v

namespace Guarded
variable {κ β : Type} {rows : Rows κ β} {Ok Ok' : κ → Option β → Prop}
  {View View' : ℕ → κ → Option β → Prop}

theorem mono (h : Guarded rows Ok View) (hok : ∀ k v, Ok k v → Ok' k v)
    (hview : ∀ k i v, (rows k).held = some (i, v) → View i k v → View' i k v) :
    Guarded rows Ok' View' :=
  ⟨fun k => hok k _ (h.committed k), fun k i v hv => hview k i v hv (h.held k i v hv)⟩

theorem deleteHeld (h : Guarded rows Ok View) {i : ℕ} {p : κ → β → Bool}
    (hp : ∀ k r, (rows k).held = some (i, some r) → p k r = true → View i k none) :
    Guarded (rows.deleteHeld i p) Ok View := by
  have hcell : ∀ k, rows.deleteHeld i p k = rows k ∨
      rows.deleteHeld i p k = (rows k).put i none ∧ View i k none := by
    intro k
    rcases hh : (rows k).held with _ | ⟨j, _ | r⟩
    · exact .inl (by simp only [Rows.deleteHeld, hh])
    · exact .inl (by simp only [Rows.deleteHeld, hh])
    · by_cases hj : j = i ∧ p k r = true
      · refine .inr ⟨by simp only [Rows.deleteHeld, hh, if_pos hj], ?_⟩
        obtain ⟨rfl, hpr⟩ := hj
        exact hp k r hh hpr
      · exact .inl (by simp only [Rows.deleteHeld, hh, if_neg hj])
  refine ⟨fun k => ?_, fun k j w hw => ?_⟩
  · rcases hcell k with hk | ⟨hk, -⟩ <;> rw [hk] <;> exact h.committed k
  · rcases hcell k with hk | ⟨hk, hnone⟩
    · rw [hk] at hw
      exact h.held k j w hw
    · rw [hk] at hw
      simp only [Cell.put, Option.some.injEq, Prod.mk.injEq] at hw
      obtain ⟨rfl, rfl⟩ := hw
      exact hnone

/-- COMMIT: what transaction `i` wrote becomes committed with the data it leaves; the rows it does
    not hold are right for that data too, and so are the versions of the other holders. -/
theorem commit (h : Guarded rows Ok View) {i : ℕ}
    (hself : ∀ k v, (rows k).held = some (i, v) → View i k v → Ok' k v)
    (hrest : ∀ k, ¬(rows k).HeldBy i → Ok k (rows k).committed → Ok' k (rows k).committed)
    (hothers : ∀ k j v, j ≠ i → (rows k).held = some (j, v) → View j k v → View' j k v) :
    Guarded (rows.commit i) Ok' View' := by
  refine ⟨fun k => ?_, fun k j w hw => ?_⟩
  · by_cases hk : (rows k).HeldBy i
    · obtain ⟨v, hv⟩ := hk
      rw [Rows.commit, Cell.commit_self hv]
      exact hself k v hv (h.held k i v hv)
    · rw [Rows.commit, Cell.commit_other hk]
      exact hrest k hk (h.committed k)
  · by_cases hk : (rows k).HeldBy i
    · obtain ⟨v, hv⟩ := hk
      rw [Rows.commit, Cell.commit_self hv] at hw
      simp at hw
    · rw [Rows.commit, Cell.commit_other hk] at hw
      exact hothers k j w (fun hji => hk ⟨w, hji ▸ hw⟩) hw (h.held k j w hw)

theorem rollback (h : Guarded rows Ok View) {i : ℕ}
    (hothers : ∀ k j v, j ≠ i → (rows k).held = some (j, v) → View j k v → View' j k v) :
    Guarded (rows.rollback i) Ok View' := by
  refine ⟨fun k => ?_, fun k j w hw => ?_⟩
  · by_cases hk : (rows k).HeldBy i
    · obtain ⟨v, hv⟩ := hk
      rw [Rows.rollback, Cell.rollback_self hv]
      exact h.committed k
    · rw [Rows.rollback, Cell.rollback_other hk]
      exact h.committed k
  · by_cases hk : (rows k).HeldBy i
    · obtain ⟨v, hv⟩ := hk
      rw [Rows.rollback, Cell.rollback_self hv] at hw
      simp at hw
    · rw [Rows.rollback, Cell.rollback_other hk] at hw
      exact hothers k j w (fun hji => hk ⟨w, hji ▸ hw⟩) hw (h.held k j w hw)

end Guarded

/-! ### Open transactions -/

/-- The holder is an open transaction, and the version is right for it. -/
def Owned {τ κ β : Type} (txs : Table ℕ τ) (P : τ → κ → Option β → Prop) :
    ℕ → κ → Option β → Prop :=
  fun i k v => ∃ tx, txs.lookup i = some tx ∧ P tx k v

namespace Guarded
variable {τ κ β : Type} {rows : Rows κ β} {Ok Ok' : κ → Option β → Prop}
  {txs : Table ℕ τ} {P P' : τ → κ → Option β → Prop}

/-- Transaction `i` goes on as `tx'` and writes no row. -/
theorem advance (h : Guarded rows Ok (Owned txs P)) {i : ℕ} {tx' : τ}
    (hi : ∀ tx k v, txs.lookup i = some tx → P tx k v → P tx' k v) :
    Guarded rows Ok (Owned (AList.insert i tx' txs) P) := by
  refine h.mono (fun _ _ hok => hok) ?_
  rintro k j v - ⟨tx, htx, hP⟩
  by_cases hj : j = i
  · subst hj
    exact ⟨tx', AList.lookup_insert txs, hi tx k v htx hP⟩
  · exact ⟨tx, by rwa [AList.lookup_insert_ne hj], hP⟩

/-- Transaction `i` goes on as `tx'` and writes row `k`. -/
theorem write [DecidableEq κ] (h : Guarded rows Ok (Owned txs P)) {i : ℕ} {tx' : τ} {k : κ}
    {v : Option β} (hv : P tx' k v)
    (hi : ∀ tx k' v', k' ≠ k → txs.lookup i = some tx → P tx k' v' → P tx' k' v') :
    Guarded (rows.put i k v) Ok (Owned (AList.insert i tx' txs) P) := by
  refine ⟨fun k' => ?_, fun k' j w hw => ?_⟩
  · rw [Rows.put_committed]
    exact h.committed k'
  by_cases hk : k' = k
  · subst hk
    rw [Rows.put_self] at hw
    simp only [Cell.put, Option.some.injEq, Prod.mk.injEq] at hw
    obtain ⟨rfl, rfl⟩ := hw
    exact ⟨tx', AList.lookup_insert txs, hv⟩
  · rw [Rows.put_ne rows i hk] at hw
    obtain ⟨tx, htx, hP⟩ := h.held k' j w hw
    by_cases hj : j = i
    · subst hj
      exact ⟨tx', AList.lookup_insert txs, hi tx k' w hk htx hP⟩
    · exact ⟨tx, by rwa [AList.lookup_insert_ne hj], hP⟩

/-- The version that `i` reads is right for it, given that a row it has not yet taken is. -/
theorem visible (h : Guarded rows Ok (Owned txs P)) (k : κ) {i : ℕ} {tx : τ}
    (htx : txs.lookup i = some tx) (hfree : ∀ v, ¬(rows k).HeldBy i → Ok k v → P tx k v) :
    P tx k ((rows k).visible i) := by
  by_cases hk : (rows k).HeldBy i
  · obtain ⟨v, hv⟩ := hk
    obtain ⟨tx', htx', hP⟩ := h.held k i v hv
    rw [htx, Option.some.injEq] at htx'
    rw [Cell.visible_self hv]
    exact htx' ▸ hP
  · rw [Cell.visible_other hk]
    exact hfree _ hk (h.committed k)

theorem commitTx (h : Guarded rows Ok (Owned txs P)) {i : ℕ} {tx : τ}
    (htx : txs.lookup i = some tx) (hself : ∀ k v, P tx k v → Ok' k v)
    (hrest : ∀ k v, ¬(rows k).HeldBy i → Ok k v → Ok' k v)
    (hothers : ∀ tx k v, ¬(rows k).HeldBy i → P tx k v → P' tx k v) :
    Guarded (rows.commit i) Ok' (Owned (txs.erase i) P') := by
  refine h.commit ?_ (fun k hk => hrest k _ hk) ?_
  · rintro k v - ⟨tx', htx', hP⟩
    rw [htx, Option.some.injEq] at htx'
    exact hself k v (htx' ▸ hP)
  · rintro k j v hj hv ⟨tx', htx', hP⟩
    have hk : ¬(rows k).HeldBy i := fun hi => hj (Cell.HeldBy.unique ⟨v, hv⟩ hi)
    exact ⟨tx', by rwa [AList.lookup_erase_ne hj], hothers tx' k v hk hP⟩

theorem rollbackTx (h : Guarded rows Ok (Owned txs P)) (i : ℕ) :
    Guarded (rows.rollback i) Ok (Owned (txs.erase i) P) := by
  refine h.rollback ?_
  rintro k j v hj - ⟨tx', htx', hP⟩
  exact ⟨tx', by rwa [AList.lookup_erase_ne hj], hP⟩

end Guarded
end Llmtrace.Schemes
