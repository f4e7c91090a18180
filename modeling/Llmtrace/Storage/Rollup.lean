import Llmtrace.Schemes.Run
import Llmtrace.Schemes.Table
import Llmtrace.Storage.Traces

/-! Minute rollups under insertion and retention, one transaction at a time.

    The table `trace_rollups_minute` is a view of `request_traces` that nobody recomputes: every
    insertion adds to a row and every deleted trace is subtracted by a trigger that fires when the
    whole batch is already gone. Between two triggers of a batch a row counts the traces that are
    left and those still to be subtracted, and its `last_seen` may belong to either; `Settling` says
    this, and with nothing left to subtract it is the view again. -/

namespace Llmtrace.Storage
open Schemes

/-- The tables of traces and rollups. -/
structure Db where
  traces : List Trace
  rollups : Table ℤ Rollup

/-- An empty database. -/
def Db.empty : Db := ⟨[], ∅⟩

/-- A committed `insert_trace`: the primary key is checked, then the bucket's row is upserted. -/
def insertTrace (db : Db) (t : Trace) : Option Db :=
  if t.id ∈ db.traces.map Trace.id then none
  else (updateRollup (db.rollups.lookup t.bucket) t).map fun r =>
    ⟨t :: db.traces, AList.insert t.bucket r db.rollups⟩

/-- The trigger of migration 005 for the deleted row `t`, when `request_traces` holds `retained`. -/
def removeDeletedTraceFromRollup (retained : List Trace) (rollups : Table ℤ Rollup) (t : Trace) :
    Table ℤ Rollup :=
  match rollups.lookup t.bucket with
  | none => rollups
  | some r =>
    match removeDeletedTrace retained r t with
    | none => rollups.erase t.bucket
    | some r' => AList.insert t.bucket r' rollups

/-- The rows that a `DELETE` of `batch` leaves. -/
def retainedAfter (db : Db) (batch : List Trace) : List Trace :=
  db.traces.filter fun t => decide (t ∉ batch)

/-- The rows of `batch` go first, then their triggers fire, in the order of `batch`. -/
def deleteTraces (db : Db) (batch : List Trace) : Option Db :=
  if batch.Nodup ∧ ∀ t ∈ batch, t ∈ db.traces then
    let retained := retainedAfter db batch
    some ⟨retained, batch.foldl (removeDeletedTraceFromRollup retained) db.rollups⟩
  else none

/-- The rows that `delete_request_traces_before` selects. -/
def doomed (traces : List Trace) (cutoff : ℤ) (batchSize : ℕ) : List Trace :=
  ((traces.filter fun t => decide (t.startedAt < cutoff)).insertionSort Trace.Before).take batchSize

/-- `delete_request_traces_before`; `fired` is the order in which the database fires the triggers. -/
def deleteRequestTracesBefore (db : Db) (cutoff : ℤ) (batchSize : ℕ) (fired : List Trace) :
    Option Db :=
  if fired.Perm (doomed db.traces cutoff batchSize) then deleteTraces db fired else none

/-- `delete_rollups_before`: the select and the recheck see the same state here. -/
def deleteRollupsBefore (db : Db) (cutoff : ℤ) (batchSize : ℕ) : Db :=
  let unused := fun b => !db.traces.any (inBucket b)
  let buckets := ((db.rollups.keys.filter fun b => decide (b < cutoff) && unused b).insertionSort
    (· ≤ ·)).take batchSize
  { db with rollups := (buckets.filter unused).foldl (fun rs b => rs.erase b) db.rollups }

/-- The statements that touch the two tables. -/
inductive DbAct where
  | insert (t : Trace)
  | delete (batch : List Trace)
  | deleteBefore (cutoff : ℤ) (batchSize : ℕ) (fired : List Trace)
  | deleteRollupsBefore (cutoff : ℤ) (batchSize : ℕ)

/-- What a statement does. -/
def dbStep (db : Db) : DbAct → Option Db
  | .insert t => insertTrace db t
  | .delete batch => deleteTraces db batch
  | .deleteBefore cutoff batchSize fired => deleteRequestTracesBefore db cutoff batchSize fired
  | .deleteRollupsBefore cutoff batchSize => some (deleteRollupsBefore db cutoff batchSize)

/-! ### The view -/

/-- The row a minute with traces `ts` should have. -/
def rollupOf (ts : List Trace) : Option Rollup :=
  (maxStartedAt ts).map fun m => ⟨m, aggregate ts⟩

/-- Every minute has the row that its traces make. -/
structure Matches (db : Db) : Prop where
  ids : (db.traces.map Trace.id).Nodup
  view : ∀ b, db.rollups.lookup b = rollupOf (inMinute b db.traces)

theorem Matches.empty : Matches .empty := ⟨List.nodup_nil, fun _ => rfl⟩

theorem maxStartedAt_eq_some {ts : List Trace} {m : ℤ} :
    maxStartedAt ts = some m ↔ (∃ t ∈ ts, t.startedAt = m) ∧ ∀ t ∈ ts, t.startedAt ≤ m := by
  simp [maxStartedAt, List.max?_eq_some_iff]

theorem maxStartedAt_eq_none {ts : List Trace} : maxStartedAt ts = none ↔ ts = [] := by
  simp [maxStartedAt]

theorem rollupOf_eq_none {ts : List Trace} : rollupOf ts = none ↔ ts = [] := by
  simp [rollupOf, maxStartedAt_eq_none]

theorem rollupOf_eq_some {ts : List Trace} {r : Rollup} :
    rollupOf ts = some r ↔ maxStartedAt ts = some r.lastSeen ∧ ∀ c, r.counts c = aggregate ts c := by
  cases r with
  | mk lastSeen counts =>
    simp only [rollupOf, Option.map_eq_some_iff, Rollup.mk.injEq, existsAndEq, true_and]
    refine and_congr_right fun _ => ?_
    rw [eq_comm, funext_iff]

/-! ### Insertion -/

/-- The upsert keeps the row the view of its minute. -/
theorem updateRollup_view {ts : List Trace} {t : Trace} {r : Rollup}
    (h : updateRollup (rollupOf ts) t = some r) : rollupOf (t :: ts) = some r := by
  rw [rollupOf_eq_some, maxStartedAt_eq_some]
  cases hrow : rollupOf ts with
  | none =>
    rw [rollupOf_eq_none] at hrow
    subst hrow
    simp only [rollupOf, maxStartedAt, List.map_nil, List.max?_nil, Option.map_none, updateRollup,
      Option.some.injEq] at h
    subst h
    simp
  | some r₀ =>
    obtain ⟨hmax, hcounts⟩ := rollupOf_eq_some.mp hrow
    obtain ⟨⟨u, hu, humax⟩, hle⟩ := maxStartedAt_eq_some.mp hmax
    rw [hrow] at h
    simp only [updateRollup, Option.ite_none_right_eq_some, Option.some.injEq] at h
    obtain ⟨-, rfl⟩ := h
    refine ⟨⟨?_, ?_⟩, ?_⟩
    · rcases le_total r₀.lastSeen t.startedAt with hlt | hlt
      · exact ⟨t, List.mem_cons_self, (max_eq_right hlt).symm⟩
      · exact ⟨u, List.mem_cons_of_mem _ hu, by rw [humax]; exact (max_eq_left hlt).symm⟩
    · rintro v (_ | ⟨_, hv⟩)
      · exact le_max_right _ _
      · exact le_max_of_le_left (hle v hv)
    · intro c
      rw [aggregate_cons, ← hcounts c]
      exact add_comm _ _

theorem insertTrace_matches {db db' : Db} {t : Trace} (h : Matches db)
    (hi : insertTrace db t = some db') : Matches db' := by
  simp only [insertTrace, Option.ite_none_left_eq_some, Option.map_eq_some_iff] at hi
  obtain ⟨hid, r, hr, rfl⟩ := hi
  refine ⟨?_, ?_⟩
  · simp only [List.map_cons, List.nodup_cons]
    exact ⟨hid, h.ids⟩
  · intro b
    by_cases hb : t.bucket = b
    · subst hb
      rw [h.view] at hr
      rw [AList.lookup_insert, inMinute_cons_self, updateRollup_view hr]
    · rw [AList.lookup_insert_ne (Ne.symm hb), inMinute_cons_ne hb, h.view]

/-! ### Deletion

`R` are the traces of the minute that stay, `P` those gone whose triggers are still to fire. -/

/-- The row of a minute while a batch is being subtracted. -/
def Settling (R P : List Trace) : Option Rollup → Prop
  | none => R = [] ∧ P = []
  | some r => R ++ P ≠ [] ∧ (∀ c, r.counts c = aggregate (R ++ P) c) ∧
      (∀ t ∈ R, t.startedAt ≤ r.lastSeen) ∧ (R = [] ∨ ∃ t ∈ R ++ P, t.startedAt = r.lastSeen)

/-- Before the first trigger. -/
theorem settling_of_view {ts R P : List Trace} (h : ts.Perm (R ++ P)) :
    Settling R P (rollupOf ts) := by
  cases hrow : rollupOf ts with
  | none =>
    rw [rollupOf_eq_none.mp hrow] at h
    simpa [Settling] using h.nil_eq.symm
  | some r =>
    obtain ⟨hmax, hcounts⟩ := rollupOf_eq_some.mp hrow
    obtain ⟨⟨u, hu, humax⟩, hle⟩ := maxStartedAt_eq_some.mp hmax
    have hmem : ∀ t, t ∈ ts ↔ t ∈ R ++ P := fun t => h.mem_iff
    refine ⟨List.ne_nil_of_mem ((hmem u).mp hu), ?_, ?_, .inr ⟨u, (hmem u).mp hu, humax⟩⟩
    · intro c
      rw [hcounts c, aggregate_perm h]
    · intro t ht
      exact hle t ((hmem t).mpr (List.mem_append_left _ ht))

/-- After the last trigger. -/
theorem view_of_settling {R : List Trace} {row : Option Rollup} (h : Settling R [] row) :
    row = rollupOf R := by
  cases row with
  | none => exact (rollupOf_eq_none.mpr h.1).symm
  | some r =>
    obtain ⟨hne, hcounts, hle, hmax⟩ := h
    simp only [List.append_nil] at hne hcounts hmax
    exact (rollupOf_eq_some.mpr
      ⟨maxStartedAt_eq_some.mpr ⟨hmax.resolve_left hne, hle⟩, hcounts⟩).symm

theorem aggregate_remove (R P : List Trace) (t : Trace) (c : Counter) :
    aggregate (R ++ t :: P) c = t.added c + aggregate (R ++ P) c := by
  rw [aggregate_perm List.perm_middle, aggregate_cons]

/-- CLAMPS: while a trace is still to be subtracted, the counter covers it. -/
theorem subtracted_nonneg {R P : List Trace} {t : Trace} {r : Rollup}
    (h : Settling R (t :: P) (some r)) (c : Counter) :
    t.subtracted (r.counts c) c = aggregate (R ++ P) c ∧ 0 ≤ t.subtracted (r.counts c) c := by
  have heq : t.subtracted (r.counts c) c = aggregate (R ++ P) c := by
    rw [Trace.subtracted_eq, h.2.1 c, aggregate_remove]
    omega
  exact ⟨heq, heq ▸ aggregate_nonneg _ c⟩

/-- One trigger on the row of its minute. -/
theorem removeDeletedTrace_settling {R P retained : List Trace} {t : Trace} {r : Rollup}
    (h : Settling R (t :: P) (some r)) (hR : inMinute t.bucket retained = R) :
    Settling R P (removeDeletedTrace retained r t) := by
  have hcounts : ∀ c, max 0 (t.subtracted (r.counts c) c) = aggregate (R ++ P) c := by
    intro c
    rw [max_eq_right (subtracted_nonneg h c).2, (subtracted_nonneg h c).1]
  simp only [removeDeletedTrace, hcounts, filter_inBucket, hR]
  by_cases hzero : aggregate (R ++ P) .total = 0
  · rw [if_pos hzero]
    exact List.append_eq_nil_iff.mp (aggregate_total_eq_zero.mp hzero)
  rw [if_neg hzero]
  obtain ⟨-, -, hle, hmax⟩ := h
  refine ⟨fun hnil => hzero (aggregate_total_eq_zero.mpr hnil), fun c => rfl, ?_⟩
  by_cases hlast : r.lastSeen = t.startedAt
  · rw [if_pos hlast]
    cases hm : maxStartedAt R with
    | none =>
      have hnil := maxStartedAt_eq_none.mp hm
      exact ⟨by simp [hnil], .inl hnil⟩
    | some m =>
      obtain ⟨⟨u, hu, hum⟩, hleR⟩ := maxStartedAt_eq_some.mp hm
      exact ⟨hleR, .inr ⟨u, List.mem_append_left _ hu, hum⟩⟩
  · rw [if_neg hlast]
    refine ⟨hle, hmax.imp_right ?_⟩
    -- the trace that `last_seen` belongs to is not the one subtracted
    rintro ⟨u, hu, hum⟩
    refine ⟨u, ?_, hum⟩
    have hut : u ≠ t := fun heq => hlast (by rw [← hum, heq])
    simpa [hut] using hu

/-- The whole table between two triggers. -/
def TableSettling (retained pending : List Trace) (rollups : Table ℤ Rollup) : Prop :=
  ∀ b, Settling (inMinute b retained) (inMinute b pending) (rollups.lookup b)

theorem fire_settling {retained pending : List Trace} {t : Trace} {rollups : Table ℤ Rollup}
    (h : TableSettling retained (t :: pending) rollups) :
    TableSettling retained pending (removeDeletedTraceFromRollup retained rollups t) := by
  have ht := h t.bucket
  rw [inMinute_cons_self] at ht
  cases hrow : rollups.lookup t.bucket with
  | none =>
    rw [hrow] at ht
    exact absurd ht.2 (List.cons_ne_nil _ _)
  | some r =>
    rw [hrow] at ht
    have hself := removeDeletedTrace_settling ht rfl
    intro b
    simp only [removeDeletedTraceFromRollup, hrow]
    by_cases hb : b = t.bucket
    · subst hb
      cases hrem : removeDeletedTrace retained r t with
      | none => rw [hrem] at hself; simpa using hself
      | some r' => rw [hrem] at hself; simpa using hself
    · have hother := h b
      rw [inMinute_cons_ne (Ne.symm hb)] at hother
      cases hrem : removeDeletedTrace retained r t with
      | none => simpa [AList.lookup_erase_ne hb] using hother
      | some r' => simpa [AList.lookup_insert_ne hb] using hother

/-- The triggers of the first part of a batch leave the rest to subtract. -/
theorem foldl_settling {retained : List Trace} :
    ∀ (done pending : List Trace) (rollups : Table ℤ Rollup),
      TableSettling retained (done ++ pending) rollups →
      TableSettling retained pending
        (done.foldl (removeDeletedTraceFromRollup retained) rollups)
  | [], _, _, h => h
  | _ :: done, pending, _, h => foldl_settling done pending _ (fire_settling h)

/-- A batch of distinct rows splits the table. -/
theorem perm_retainedAfter {db : Db} {batch : List Trace} (hids : (db.traces.map Trace.id).Nodup)
    (hn : batch.Nodup) (hsub : ∀ t ∈ batch, t ∈ db.traces) :
    db.traces.Perm (retainedAfter db batch ++ batch) := by
  have hnodup : db.traces.Nodup := hids.of_map
  refine (List.perm_ext_iff_of_nodup hnodup ?_).mpr ?_
  · refine (hnodup.filter _).append hn ?_
    intro t ht ht'
    simp only [List.mem_filter, decide_eq_true_eq] at ht
    exact ht.2 ht'
  · intro t
    simp only [retainedAfter, List.mem_append, List.mem_filter, decide_eq_true_eq]
    refine ⟨fun ht => ?_, ?_⟩
    · by_cases hb : t ∈ batch
      · exact .inr hb
      · exact .inl ⟨ht, hb⟩
    · rintro (ht | ht)
      · exact ht.1
      · exact hsub t ht

theorem batch_settling {db : Db} {batch : List Trace} (h : Matches db) (hn : batch.Nodup)
    (hsub : ∀ t ∈ batch, t ∈ db.traces) :
    TableSettling (retainedAfter db batch) batch db.rollups := by
  intro b
  rw [h.view b]
  refine settling_of_view ?_
  rw [← inMinute_append]
  exact inMinute_perm (perm_retainedAfter h.ids hn hsub) b

theorem deleteTraces_matches {db db' : Db} {batch : List Trace} (h : Matches db)
    (hd : deleteTraces db batch = some db') : Matches db' := by
  simp only [deleteTraces, Option.ite_none_right_eq_some, Option.some.injEq] at hd
  obtain ⟨⟨hn, hsub⟩, rfl⟩ := hd
  refine ⟨h.ids.sublist (List.filter_sublist.map _), fun b => ?_⟩
  have hstart : TableSettling (retainedAfter db batch) (batch ++ []) db.rollups := by
    rw [List.append_nil]
    exact batch_settling h hn hsub
  exact view_of_settling (foldl_settling batch [] _ hstart b)

/-! ### The rollup cleaner -/

/-- Every row has a retained trace, so the cleaner finds nothing to delete. -/
theorem deleteRollupsBefore_eq {db : Db} (h : Matches db) (cutoff : ℤ) (batchSize : ℕ) :
    deleteRollupsBefore db cutoff batchSize = db := by
  have hnone : (db.rollups.keys.filter fun b => decide (b < cutoff) && !db.traces.any (inBucket b))
      = [] := by
    rw [List.filter_eq_nil_iff]
    intro b hb
    obtain ⟨r, hr⟩ := Table.lookup_of_mem (AList.mem_keys.mpr hb)
    rw [h.view, rollupOf_eq_some, maxStartedAt_eq_some] at hr
    obtain ⟨⟨⟨t, ht, -⟩, -⟩, -⟩ := hr
    obtain ⟨htmem, rfl⟩ := mem_inMinute.mp ht
    simp only [Bool.and_eq_true, Bool.not_eq_true', not_and, Bool.not_eq_false]
    exact fun _ => List.any_eq_true.mpr ⟨t, htmem, inBucket_self t⟩
  simp only [deleteRollupsBefore, hnone, List.insertionSort_nil, List.take_nil, List.filter_nil,
    List.foldl_nil]

/-! ### Runs -/

theorem dbStep_matches {db db' : Db} {a : DbAct} (h : Matches db) (hs : dbStep db a = some db') :
    Matches db' := by
  cases a with
  | insert t => exact insertTrace_matches h hs
  | delete batch => exact deleteTraces_matches h hs
  | deleteBefore cutoff batchSize fired =>
    simp only [dbStep, deleteRequestTracesBefore, Option.ite_none_right_eq_some] at hs
    exact deleteTraces_matches h hs.2
  | deleteRollupsBefore cutoff batchSize =>
    simp only [dbStep, deleteRollupsBefore_eq h, Option.some.injEq] at hs
    exact hs ▸ h

theorem reachable_matches {db : Db} (h : Reaches dbStep anyAct Db.empty db) : Matches db :=
  h.inv (fun _ _ _ hm _ hs => dbStep_matches hm hs) .empty

/-- ROLLUPS: in every reachable database each minute's row is the aggregate of its retained traces,
    a minute without traces has no row, and no clamp of the trigger changes a value, whichever batch
    is deleted next and in whichever order its triggers fire. -/
theorem rollups_match_traces {db : Db} (h : Reaches dbStep anyAct Db.empty db) :
    (∀ b r, db.rollups.lookup b = some r →
      (∀ c, r.counts c = aggregate (inMinute b db.traces) c) ∧
      IsGreatest {x | ∃ t ∈ inMinute b db.traces, t.startedAt = x} r.lastSeen) ∧
    (∀ b, db.rollups.lookup b = none ↔ inMinute b db.traces = []) ∧
    ∀ batch done t rest, batch.Nodup → (∀ u ∈ batch, u ∈ db.traces) → batch = done ++ t :: rest →
      ∃ r, (done.foldl (removeDeletedTraceFromRollup (retainedAfter db batch))
          db.rollups).lookup t.bucket = some r ∧
        ∀ c, max 0 (t.subtracted (r.counts c) c) = t.subtracted (r.counts c) c := by
  have hm := reachable_matches h
  refine ⟨?_, ?_, ?_⟩
  · intro b r hr
    rw [hm.view, rollupOf_eq_some, maxStartedAt_eq_some] at hr
    refine ⟨hr.2, hr.1.1, ?_⟩
    rintro x ⟨t, ht, rfl⟩
    exact hr.1.2 t ht
  · intro b
    rw [hm.view, rollupOf_eq_none]
  · intro batch done t rest hn hsub hsplit
    have hstart := batch_settling hm hn hsub
    rw [hsplit] at hstart
    have hrow := foldl_settling done (t :: rest) _ hstart t.bucket
    rw [inMinute_cons_self, ← hsplit] at hrow
    cases hl : (done.foldl (removeDeletedTraceFromRollup (retainedAfter db batch))
        db.rollups).lookup t.bucket with
    | none =>
      rw [hl] at hrow
      exact absurd hrow.2 (List.cons_ne_nil _ _)
    | some r =>
      rw [hl] at hrow
      exact ⟨r, rfl, fun c => max_eq_right (subtracted_nonneg hrow c).2⟩

/-- Three failures of one minute, of which retention takes the last and the first. -/
def sampleActs : List DbAct :=
  [.insert (failedAt 1 10), .insert (failedAt 2 20), .insert (failedAt 3 30),
    .delete [failedAt 3 30, failedAt 1 10]]

theorem rollups_match_traces_sample : ∃ db r, run dbStep Db.empty sampleActs = some db ∧
    db.traces = [failedAt 2 20] ∧ db.rollups.lookup 0 = some r ∧ r.lastSeen = 20000 ∧
    r.counts .total = aggregate (inMinute 0 db.traces) .total := by
  have hrun : (run dbStep Db.empty sampleActs).map (fun db => (db.traces,
      (db.rollups.lookup 0).map Rollup.lastSeen)) = some ([failedAt 2 20], some 20000) := by
    decide +kernel
  obtain ⟨db, hdb, heq⟩ := Option.map_eq_some_iff.mp hrun
  simp only [Prod.mk.injEq, Option.map_eq_some_iff] at heq
  obtain ⟨htraces, r, hr, hlast⟩ := heq
  have hrows := (rollups_match_traces (reaches_of_run hdb)).1 0 r hr
  exact ⟨db, r, hdb, htraces, hr, hlast, hrows.1 .total⟩

end Llmtrace.Storage
