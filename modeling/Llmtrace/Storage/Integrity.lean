import Llmtrace.Storage.Rollup

/-! The integrity check of the rollups (`data_integrity` in `analytics.rs`).

    Two aggregations of the same window are joined by minute: the traces, recounted, and the rollup
    rows. The window of the rollups ends with the minute of `now`, the window of the traces with `now`
    itself. What started later in that minute is in its rollup row and not in the recount.

                 cutoff                              now
        traces   |──────────────────────────────────┤
        rollups  ├──────────────────────────────────────|
                 start of minute                        end of minute -/

namespace Llmtrace.Storage
open Schemes

/-- A row of `diffs`: the two sides of the full outer join, `0` for a missing one. -/
structure RollupDiff where
  bucket : ℤ
  hasRaw : Bool
  hasRollup : Bool
  raw : Counter → ℤ
  rollup : Counter → ℤ

/-- The difference of a counter. -/
def RollupDiff.delta (row : RollupDiff) (c : Counter) : ℤ := row.raw c - row.rollup c

/-- Some counter differs. -/
def RollupDiff.mismatched (row : RollupDiff) : Bool := decide (∃ c, row.raw c ≠ row.rollup c)

/-- The row of `DATA_INTEGRITY_ROLLUP_SUMMARY_SQL`. -/
structure RollupSummary where
  startBucket : ℤ
  endBucket : ℤ
  comparedBucketCount : ℕ
  mismatchedBucketCount : ℕ
  missingRollupBucketCount : ℕ
  extraRollupBucketCount : ℕ
  raw : Counter → ℤ
  rollup : Counter → ℤ
  delta : Counter → ℤ
  firstMismatchBucket : Option ℤ
  lastMismatchBucket : Option ℤ

section
variable (db : Db) (cutoff now : ℤ)

/-- The traces that `raw` groups by minute. -/
def rawTraces : List Trace :=
  db.traces.filter fun t =>
    decide (dateTruncMinute cutoff ≤ t.startedAt) && decide (t.startedAt ≤ now)

/-- The minutes of the traces that are counted. -/
def rawBuckets : List ℤ := ((rawTraces db cutoff now).map Trace.bucket).dedup

/-- The buckets of `rollups`; the table has one row for each. -/
def rollupBuckets : List ℤ :=
  db.rollups.keys.filter fun b =>
    decide (dateTruncMinute cutoff ≤ b) && decide (b ≤ dateTruncMinute now)

/-- A counter of the stored row, `0` without a row. -/
def storedCount (b : ℤ) (c : Counter) : ℤ := ((db.rollups.lookup b).map fun r => r.counts c).getD 0

/-- The row of a minute in the full join. -/
def rollupDiff (b : ℤ) : RollupDiff where
  bucket := b
  hasRaw := decide (b ∈ rawBuckets db cutoff now)
  hasRollup := decide (b ∈ rollupBuckets db cutoff now)
  raw c := if b ∈ rawBuckets db cutoff now then aggregate (inMinute b (rawTraces db cutoff now)) c else 0
  rollup c := if b ∈ rollupBuckets db cutoff now then storedCount db b c else 0

/-- The minutes of either side. -/
def comparedBuckets : List ℤ := (rawBuckets db cutoff now ++ rollupBuckets db cutoff now).dedup

/-- The rows of the full join. -/
def rollupDiffs : List RollupDiff := (comparedBuckets db cutoff now).map (rollupDiff db cutoff now)

/-- Every sum and difference of the statement is a `bigint`. -/
def summarizable (rows : List RollupDiff) : Bool :=
  rows.all (fun row =>
    decide (∀ c, isBigint (row.raw c) ∧ isBigint (row.rollup c) ∧ isBigint (row.delta c))) &&
  decide (∀ c, isBigint (rows.map fun row => row.raw c).sum ∧
    isBigint (rows.map fun row => row.rollup c).sum ∧ isBigint (rows.map fun row => row.delta c).sum)

/-- `DATA_INTEGRITY_ROLLUP_SUMMARY_SQL`, `none` if the statement fails. -/
def rollupSummary : Option RollupSummary :=
  let rows := rollupDiffs db cutoff now
  if summarizable rows then
    some {
      startBucket := dateTruncMinute cutoff
      endBucket := dateTruncMinute now
      comparedBucketCount := rows.length
      mismatchedBucketCount := rows.countP RollupDiff.mismatched
      missingRollupBucketCount := rows.countP fun row => row.hasRaw && !row.hasRollup
      extraRollupBucketCount := rows.countP fun row => row.hasRollup && !row.hasRaw
      raw := fun c => (rows.map fun row => row.raw c).sum
      rollup := fun c => (rows.map fun row => row.rollup c).sum
      delta := fun c => (rows.map fun row => row.delta c).sum
      firstMismatchBucket := ((rows.filter RollupDiff.mismatched).map RollupDiff.bucket).min?
      lastMismatchBucket := ((rows.filter RollupDiff.mismatched).map RollupDiff.bucket).max? }
  else none

/-- The check reports that no bucket differs. -/
def ReportsConsistent : Prop :=
  ∃ summary, rollupSummary db cutoff now = some summary ∧ summary.mismatchedBucketCount = 0

/-- A minute from that of `cutoff` to that of `now`. -/
def InWindow (b : ℤ) : Prop :=
  dateTruncMinute b = b ∧ dateTruncMinute cutoff ≤ b ∧ b ≤ dateTruncMinute now

/-- The stored rows of the window are those recounted from all traces. -/
def Consistent : Prop :=
  ∀ b, InWindow cutoff now b → ∀ c, storedCount db b c = aggregate (inMinute b db.traces) c

end

/-- The traces of the minutes of the window. -/
def windowTraces (traces : List Trace) (cutoff now : ℤ) : List Trace :=
  traces.filter fun t =>
    decide (dateTruncMinute cutoff ≤ t.bucket) && decide (t.bucket ≤ dateTruncMinute now)

/-- No trace of the minute of `now` started after `now`. -/
def NoneLate (traces : List Trace) (now : ℤ) : Prop :=
  ∀ t ∈ traces, t.bucket = dateTruncMinute now → t.startedAt ≤ now

/-- The totals over the window are `bigint`s. -/
def TotalsFit (traces : List Trace) (cutoff now : ℤ) : Prop :=
  ∀ c, aggregate (windowTraces traces cutoff now) c < 2 ^ 63

/-- The rollup table has minutes for keys, as it has after every run: `update_rollup` truncates. -/
def Aligned (rollups : Table ℤ Rollup) : Prop := ∀ b ∈ rollups, dateTruncMinute b = b

/-! ### One bucket -/

section
variable {db : Db} {cutoff now : ℤ} {b : ℤ} {c : Counter}

theorem bucket_le (t : Trace) : t.bucket ≤ t.startedAt ∧ t.startedAt < t.bucket + minute := by
  simp only [Trace.bucket, dateTruncMinute, minute]
  omega

theorem dateTruncMinute_bucket (t : Trace) : dateTruncMinute t.bucket = t.bucket := by
  simp only [Trace.bucket, dateTruncMinute, minute]
  omega

theorem dateTruncMinute_le_iff (x y : ℤ) :
    dateTruncMinute x ≤ y ↔ dateTruncMinute x ≤ dateTruncMinute y := by
  simp only [dateTruncMinute, minute]
  omega

theorem mem_rawTraces {t : Trace} :
    t ∈ rawTraces db cutoff now ↔
      t ∈ db.traces ∧ dateTruncMinute cutoff ≤ t.startedAt ∧ t.startedAt ≤ now := by
  simp [rawTraces]

theorem mem_rawBuckets :
    b ∈ rawBuckets db cutoff now ↔ inMinute b (rawTraces db cutoff now) ≠ [] := by
  rw [rawBuckets, List.mem_dedup, List.mem_map, ← List.length_pos_iff_ne_nil,
    List.length_pos_iff_exists_mem]
  simp only [mem_inMinute]

theorem mem_rollupBuckets :
    b ∈ rollupBuckets db cutoff now ↔
      b ∈ db.rollups ∧ dateTruncMinute cutoff ≤ b ∧ b ≤ dateTruncMinute now := by
  simp [rollupBuckets, AList.mem_keys]

theorem rollupDiff_raw :
    (rollupDiff db cutoff now b).raw c = aggregate (inMinute b (rawTraces db cutoff now)) c := by
  simp only [rollupDiff]
  split
  · rfl
  · rename_i hnot
    rw [mem_rawBuckets, not_not] at hnot
    rw [hnot, aggregate_nil]

theorem rollupDiff_rollup (hb : InWindow cutoff now b) :
    (rollupDiff db cutoff now b).rollup c = storedCount db b c := by
  simp only [rollupDiff]
  split
  · rfl
  · rename_i hnot
    have hnone : db.rollups.lookup b = none :=
      AList.lookup_eq_none.mpr fun hmem => hnot (mem_rollupBuckets.mpr ⟨hmem, hb.2⟩)
    rw [storedCount, hnone]
    rfl

theorem mem_comparedBuckets :
    b ∈ comparedBuckets db cutoff now ↔
      b ∈ rawBuckets db cutoff now ∨ b ∈ rollupBuckets db cutoff now := by
  rw [comparedBuckets, List.mem_dedup, List.mem_append]

theorem inWindow_of_compared (haligned : Aligned db.rollups)
    (h : b ∈ comparedBuckets db cutoff now) : InWindow cutoff now b := by
  rcases mem_comparedBuckets.mp h with hraw | hrollup
  · obtain ⟨t, ht⟩ := List.exists_mem_of_ne_nil _ (mem_rawBuckets.mp hraw)
    obtain ⟨hmem, rfl⟩ := mem_inMinute.mp ht
    obtain ⟨-, hlo, hhi⟩ := mem_rawTraces.mp hmem
    refine ⟨dateTruncMinute_bucket t, (dateTruncMinute_le_iff _ _).mp hlo, ?_⟩
    simp only [Trace.bucket, dateTruncMinute, minute]
    omega
  · obtain ⟨hmem, hwin⟩ := mem_rollupBuckets.mp hrollup
    exact ⟨haligned b hmem, hwin⟩

/-- The count is zero exactly when the recount and the rows agree on every minute of the window. -/
theorem mismatched_eq_zero (haligned : Aligned db.rollups) :
    (rollupDiffs db cutoff now).countP RollupDiff.mismatched = 0 ↔
      ∀ b, InWindow cutoff now b → ∀ c,
        storedCount db b c = aggregate (inMinute b (rawTraces db cutoff now)) c := by
  rw [List.countP_eq_zero]
  simp only [rollupDiffs, List.mem_map, forall_exists_index, and_imp, forall_apply_eq_imp_iff₂,
    RollupDiff.mismatched, decide_eq_true_eq, not_exists, not_not]
  constructor
  · intro h b hb c
    by_cases hcompared : b ∈ comparedBuckets db cutoff now
    · rw [← rollupDiff_rollup hb, ← rollupDiff_raw]
      exact (h b hcompared c).symm
    · -- a minute without traces and without a row
      rw [mem_comparedBuckets, not_or, mem_rawBuckets, not_not, mem_rollupBuckets] at hcompared
      have hnone : db.rollups.lookup b = none :=
        AList.lookup_eq_none.mpr fun hmem => hcompared.2 ⟨hmem, hb.2⟩
      rw [hcompared.1, aggregate_nil, storedCount, hnone]
      rfl
  · intro h b hb c
    have hwin := inWindow_of_compared haligned hb
    rw [rollupDiff_raw, rollupDiff_rollup hwin]
    exact (h b hwin c).symm

/-! ### The window -/

theorem rawTraces_eq_window (h : NoneLate db.traces now) :
    rawTraces db cutoff now = windowTraces db.traces cutoff now := by
  refine List.filter_congr fun t ht => ?_
  have hbucket := bucket_le t
  have hlate := h t ht
  rw [← Bool.decide_and, ← Bool.decide_and, decide_eq_decide, dateTruncMinute_le_iff]
  refine and_congr_right fun _ => ?_
  simp only [Trace.bucket, dateTruncMinute, minute] at hbucket hlate ⊢
  omega

theorem inMinute_window {traces : List Trace} (hb : InWindow cutoff now b) :
    inMinute b (windowTraces traces cutoff now) = inMinute b traces := by
  rw [inMinute, inMinute, windowTraces, List.filter_filter]
  refine List.filter_congr fun t _ => ?_
  by_cases hbucket : t.bucket = b
  · rw [hbucket, decide_eq_true hb.2.1, decide_eq_true hb.2.2, Bool.and_self, Bool.and_true]
  · simp [hbucket]

/-- A recount that misses nothing in the last minute misses nothing late. -/
theorem noneLate_of_total
    (h : aggregate (inMinute (dateTruncMinute now) (rawTraces db cutoff now)) .total =
      aggregate (inMinute (dateTruncMinute now) db.traces) .total) : NoneLate db.traces now := by
  have hsub : (inMinute (dateTruncMinute now) (rawTraces db cutoff now)).Sublist
      (inMinute (dateTruncMinute now) db.traces) := List.filter_sublist.filter _
  have hlen : (inMinute (dateTruncMinute now) db.traces).length ≤
      (inMinute (dateTruncMinute now) (rawTraces db cutoff now)).length := by
    simp only [aggregate] at h
    omega
  intro t ht hbucket
  have hmem : t ∈ inMinute (dateTruncMinute now) db.traces := mem_inMinute.mpr ⟨ht, hbucket⟩
  rw [← hsub.eq_of_length_le hlen] at hmem
  exact (mem_rawTraces.mp (mem_inMinute.mp hmem).1).2.2

/-! ### Totals -/

/-- The counts of the minutes add up. -/
theorem sum_inMinute {buckets : List ℤ} (hnodup : buckets.Nodup) :
    ∀ ts : List Trace, (∀ t ∈ ts, t.bucket ∈ buckets) →
      (buckets.map fun b => aggregate (inMinute b ts) c).sum = aggregate ts c
  | [], _ => by simp [inMinute]
  | t :: ts, hts => by
      have ih := sum_inMinute hnodup ts fun u hu => hts u (List.mem_cons_of_mem _ hu)
      have hcons : ∀ b, aggregate (inMinute b (t :: ts)) c =
          (if t.bucket = b then t.added c else 0) + aggregate (inMinute b ts) c := by
        intro b
        split
        · rename_i hb
          rw [← hb, inMinute_cons_self, aggregate_cons]
        · rename_i hb
          rw [inMinute_cons_ne hb, zero_add]
      simp only [hcons]
      rw [List.sum_map_add, ih, aggregate_cons, ← List.sum_toFinset _ hnodup, Finset.sum_ite_eq,
        if_pos (List.mem_toFinset.mpr (hts t List.mem_cons_self))]

theorem aggregate_inMinute_le (ts : List Trace) : aggregate (inMinute b ts) c ≤ aggregate ts c := by
  have hperm := aggregate_perm (List.filter_append_perm (fun t => decide (Trace.bucket t = b)) ts) c
  have hrest := aggregate_nonneg (ts.filter fun t => !decide (t.bucket = b)) c
  rw [aggregate_eq_sum, List.map_append, List.sum_append, ← aggregate_eq_sum, ← aggregate_eq_sum]
    at hperm
  rw [inMinute]
  omega

theorem sum_raw : ((rollupDiffs db cutoff now).map fun row => row.raw c).sum =
    aggregate (rawTraces db cutoff now) c := by
  rw [rollupDiffs, List.map_map]
  simp only [Function.comp_def, rollupDiff_raw]
  refine sum_inMinute (List.nodup_dedup _) _ fun t ht => ?_
  refine mem_comparedBuckets.mpr (.inl (mem_rawBuckets.mpr ?_))
  exact List.ne_nil_of_mem (mem_inMinute.mpr ⟨ht, rfl⟩)

theorem isBigint_of_nonneg {n : ℤ} (h : 0 ≤ n) (hlt : n < 2 ^ 63) : isBigint n = true := by
  simp only [isBigint, Bool.and_eq_true, decide_eq_true_eq]
  omega

/-- Where both sides agree and the totals fit, the statement does not fail. -/
theorem summarizable_of_agree (haligned : Aligned db.rollups)
    (hagree : ∀ b, InWindow cutoff now b → ∀ c,
      storedCount db b c = aggregate (inMinute b (rawTraces db cutoff now)) c)
    (hfit : ∀ c, aggregate (rawTraces db cutoff now) c < 2 ^ 63) :
    summarizable (rollupDiffs db cutoff now) = true := by
  have hrow : ∀ row ∈ rollupDiffs db cutoff now, row.rollup = row.raw ∧
      ∃ b, row.raw = aggregate (inMinute b (rawTraces db cutoff now)) := by
    intro row hrow
    obtain ⟨b, hb, rfl⟩ := List.mem_map.mp hrow
    refine ⟨funext fun c => ?_, b, funext fun c => rollupDiff_raw⟩
    have hwin := inWindow_of_compared haligned hb
    rw [rollupDiff_rollup hwin, rollupDiff_raw, hagree b hwin]
  have hzero : ∀ row ∈ rollupDiffs db cutoff now, ∀ c, row.delta c = 0 := by
    intro row hmem c
    rw [RollupDiff.delta, (hrow row hmem).1, sub_self]
  rw [summarizable, Bool.and_eq_true, List.all_eq_true, decide_eq_true_eq]
  refine ⟨fun row hmem => decide_eq_true fun c => ?_, fun c => ?_⟩
  · obtain ⟨hrollup, b, hraw⟩ := hrow row hmem
    have hbig : isBigint (row.raw c) = true := by
      rw [hraw]
      exact isBigint_of_nonneg (aggregate_nonneg _ _) ((aggregate_inMinute_le _).trans_lt (hfit c))
    rw [hrollup, hzero row hmem c]
    exact ⟨hbig, hbig, by decide⟩
  · have hbig : isBigint ((rollupDiffs db cutoff now).map fun row => row.raw c).sum = true := by
      rw [sum_raw]
      exact isBigint_of_nonneg (aggregate_nonneg _ _) (hfit c)
    have hsame : ((rollupDiffs db cutoff now).map fun row => row.rollup c) =
        (rollupDiffs db cutoff now).map fun row => row.raw c :=
      List.map_congr_left fun row hmem => congrFun (hrow row hmem).1 c
    have hnone : ((rollupDiffs db cutoff now).map fun row => row.delta c).sum = 0 :=
      List.sum_eq_zero fun n hn => by
        obtain ⟨row, hmem, rfl⟩ := List.mem_map.mp hn
        exact hzero row hmem c
    rw [hsame, hnone]
    exact ⟨hbig, hbig, by decide⟩

/-! ### The keys of the rollup table -/

theorem Aligned.insert {rollups : Table ℤ Rollup} (h : Aligned rollups) (t : Trace) (r : Rollup) :
    Aligned (AList.insert t.bucket r rollups) := by
  intro b hb
  rcases (AList.mem_insert _).mp hb with rfl | hold
  · exact dateTruncMinute_bucket t
  · exact h b hold

theorem Aligned.erase {rollups : Table ℤ Rollup} (h : Aligned rollups) (b : ℤ) :
    Aligned (rollups.erase b) := fun b' hb' => h b' (AList.mem_erase.mp hb').2

theorem Aligned.fire {rollups : Table ℤ Rollup} (h : Aligned rollups) (retained : List Trace) (t : Trace) :
    Aligned (removeDeletedTraceFromRollup retained rollups t) := by
  simp only [removeDeletedTraceFromRollup]
  split
  · exact h
  · split
    · exact h.erase _
    · exact h.insert t _

theorem Aligned.delete {db db' : Db} {batch : List Trace} (h : Aligned db.rollups)
    (hd : deleteTraces db batch = some db') : Aligned db'.rollups := by
  simp only [deleteTraces, Option.ite_none_right_eq_some, Option.some.injEq] at hd
  obtain ⟨-, rfl⟩ := hd
  exact List.foldlRecOn batch _ h fun _ hold t _ => hold.fire _ t

theorem aligned_step {db db' : Db} {a : DbAct} (h : Aligned db.rollups) (hstep : dbStep db a = some db') :
    Aligned db'.rollups := by
  cases a with
  | insert t =>
    simp only [dbStep, insertTrace, Option.ite_none_left_eq_some, Option.map_eq_some_iff] at hstep
    obtain ⟨-, r, -, rfl⟩ := hstep
    exact h.insert t r
  | delete batch => exact h.delete hstep
  | deleteBefore cutoff batchSize fired =>
    simp only [dbStep, deleteRequestTracesBefore, Option.ite_none_right_eq_some] at hstep
    exact h.delete hstep.2
  | deleteRollupsBefore cutoff batchSize =>
    simp only [dbStep, deleteRollupsBefore, Option.some.injEq] at hstep
    subst hstep
    exact List.foldlRecOn _ _ h fun _ hold b _ => hold.erase b

/-- After every run of insertions and deletions the keys are minutes. -/
theorem reaches_aligned {db : Db} (h : Reaches dbStep anyAct .empty db) : Aligned db.rollups :=
  h.inv (I := fun db => Aligned db.rollups) (fun _ _ _ hold _ hstep => aligned_step hold hstep)
    fun _ hb => absurd hb (AList.notMem_empty _)

/-! ### When the check is exact -/

theorem reportsConsistent_iff :
    ReportsConsistent db cutoff now ↔ summarizable (rollupDiffs db cutoff now) = true ∧
      (rollupDiffs db cutoff now).countP RollupDiff.mismatched = 0 := by
  rw [ReportsConsistent, rollupSummary]
  by_cases hsum : summarizable (rollupDiffs db cutoff now) = true
  · simp [hsum]
  · simp [hsum]

theorem reportsConsistent_of_consistent (haligned : Aligned db.rollups)
    (hlate : NoneLate db.traces now) (hfit : TotalsFit db.traces cutoff now)
    (h : Consistent db cutoff now) : ReportsConsistent db cutoff now := by
  have hwindow : rawTraces db cutoff now = windowTraces db.traces cutoff now :=
    rawTraces_eq_window hlate
  have hagree : ∀ b, InWindow cutoff now b → ∀ c,
      storedCount db b c = aggregate (inMinute b (rawTraces db cutoff now)) c := by
    intro b hb c
    rw [hwindow, inMinute_window hb]
    exact h b hb c
  rw [reportsConsistent_iff, mismatched_eq_zero haligned]
  exact ⟨summarizable_of_agree haligned hagree (by rw [hwindow]; exact hfit), hagree⟩

theorem consistent_of_reportsConsistent (haligned : Aligned db.rollups)
    (hlate : NoneLate db.traces now) (h : ReportsConsistent db cutoff now) :
    Consistent db cutoff now := by
  obtain ⟨-, hzero⟩ := reportsConsistent_iff.mp h
  intro b hb c
  rw [(mismatched_eq_zero haligned).mp hzero b hb c, rawTraces_eq_window hlate, inMinute_window hb]

/-- On rows that are right the check stays quiet only without late traces, and while it can count. -/
theorem noneLate_of_reportsConsistent (haligned : Aligned db.rollups) (hle : cutoff ≤ now)
    (h : Consistent db cutoff now) (hreports : ReportsConsistent db cutoff now) :
    NoneLate db.traces now ∧ TotalsFit db.traces cutoff now := by
  obtain ⟨hsum, hzero⟩ := reportsConsistent_iff.mp hreports
  have hend : InWindow cutoff now (dateTruncMinute now) := by
    simp only [InWindow, dateTruncMinute, minute]
    omega
  have hlate : NoneLate db.traces now := by
    have htotal := (mismatched_eq_zero haligned).mp hzero _ hend .total
    rw [h _ hend] at htotal
    exact noneLate_of_total htotal.symm
  refine ⟨hlate, fun c => ?_⟩
  rw [summarizable, Bool.and_eq_true, decide_eq_true_eq] at hsum
  have hbig := (hsum.2 c).1
  rw [sum_raw, rawTraces_eq_window hlate, isBigint, Bool.and_eq_true, decide_eq_true_eq,
    decide_eq_true_eq] at hbig
  exact hbig.2

end

/-- The rows that are right for `traces`. -/
def recounted (traces : List Trace) : Table ℤ Rollup where
  entries := (traces.map Trace.bucket).dedup.map fun b => ⟨b, 0, aggregate (inMinute b traces)⟩
  nodupKeys := by
    rw [List.NodupKeys, List.keys, List.map_map]
    exact (List.nodup_dedup _).map fun _ _ h => h

theorem lookup_recounted {traces : List Trace} {b : ℤ} {r : Rollup} :
    (recounted traces).lookup b = some r ↔
      b ∈ traces.map Trace.bucket ∧ r = ⟨0, aggregate (inMinute b traces)⟩ := by
  rw [Table.lookup_eq_some, recounted, List.mem_map]
  constructor
  · rintro ⟨b', hb', heq⟩
    cases heq
    exact ⟨List.mem_dedup.mp hb', rfl⟩
  · rintro ⟨hb, rfl⟩
    exact ⟨b, List.mem_dedup.mpr hb, rfl⟩

theorem aligned_recounted (traces : List Trace) : Aligned (recounted traces) := by
  intro b hb
  obtain ⟨r, hr⟩ := Table.lookup_of_mem hb
  obtain ⟨t, -, rfl⟩ := List.mem_map.mp (lookup_recounted.mp hr).1
  exact dateTruncMinute_bucket t

theorem consistent_recounted (traces : List Trace) (cutoff now : ℤ) :
    Consistent ⟨traces, recounted traces⟩ cutoff now := by
  intro b _ c
  simp only [storedCount]
  by_cases hb : b ∈ traces.map Trace.bucket
  · rw [lookup_recounted.mpr ⟨hb, rfl⟩]
    rfl
  · have hnone : (recounted traces).lookup b = none := by
      by_contra hsome
      obtain ⟨r, hr⟩ := Option.ne_none_iff_exists'.mp hsome
      exact hb (lookup_recounted.mp hr).1
    have hnil : inMinute b traces = [] := by
      refine List.eq_nil_iff_forall_not_mem.mpr fun t ht => hb ?_
      obtain ⟨hmem, rfl⟩ := mem_inMinute.mp ht
      exact List.mem_map_of_mem hmem
    rw [hnone, hnil, aggregate_nil]
    rfl

/-- INTEGRITY: over a given set of traces the check is exact for all contents of the rollup table
    exactly when no trace started after `now` in its minute and the totals can be counted; and on rows
    that are right it stays quiet exactly then. That the keys of the table are minutes holds after
    every run. -/
theorem integrity_check_exact_iff (traces : List Trace) (cutoff now : ℤ) (hle : cutoff ≤ now) :
    ((∀ rollups, Aligned rollups →
        (ReportsConsistent ⟨traces, rollups⟩ cutoff now ↔ Consistent ⟨traces, rollups⟩ cutoff now)) ↔
      NoneLate traces now ∧ TotalsFit traces cutoff now) ∧
    (∀ rollups, Aligned rollups → Consistent ⟨traces, rollups⟩ cutoff now →
      (ReportsConsistent ⟨traces, rollups⟩ cutoff now ↔
        NoneLate traces now ∧ TotalsFit traces cutoff now)) ∧
    ∀ db, Reaches dbStep anyAct .empty db → Aligned db.rollups := by
  have hquiet : ∀ rollups, Aligned rollups → Consistent ⟨traces, rollups⟩ cutoff now →
      (ReportsConsistent ⟨traces, rollups⟩ cutoff now ↔
        NoneLate traces now ∧ TotalsFit traces cutoff now) := by
    intro rollups haligned h
    constructor
    · exact noneLate_of_reportsConsistent haligned hle h
    · rintro ⟨hlate, hfit⟩
      exact reportsConsistent_of_consistent haligned hlate hfit h
  refine ⟨⟨fun hexact => ?_, ?_⟩, hquiet, fun db => reaches_aligned⟩
  · have hright := consistent_recounted traces cutoff now
    have haligned := aligned_recounted traces
    exact (hquiet _ haligned hright).mp ((hexact _ haligned).mpr hright)
  · rintro ⟨hlate, hfit⟩ rollups haligned
    exact ⟨consistent_of_reportsConsistent haligned hlate,
      reportsConsistent_of_consistent haligned hlate hfit⟩

/-- A trace that started before `now` is recounted with its minute. -/
theorem integrity_check_exact_iff_early :
    ReportsConsistent ⟨[failedAt 1 10], recounted [failedAt 1 10]⟩ 0 1000000 := by
  have hlate : NoneLate [failedAt 1 10] 1000000 := by
    intro t ht _
    rw [List.mem_singleton.mp ht]
    decide
  have hfit : TotalsFit [failedAt 1 10] 0 1000000 := by
    intro c
    cases c <;> decide
  exact ((integrity_check_exact_iff [failedAt 1 10] 0 1000000 (by decide)).2.1 _ (aligned_recounted _)
    (consistent_recounted _ _ _)).mpr ⟨hlate, hfit⟩

/-- A trace that started a second after `now`, and rows that are right. -/
theorem late_trace_raises_alarm :
    Consistent ⟨[failedAt 1 2000], recounted [failedAt 1 2000]⟩ 0 1000000 ∧
      ¬ReportsConsistent ⟨[failedAt 1 2000], recounted [failedAt 1 2000]⟩ 0 1000000 := by
  have hright := consistent_recounted [failedAt 1 2000] 0 1000000
  refine ⟨hright, fun hreports => ?_⟩
  have hlate := (noneLate_of_reportsConsistent (aligned_recounted _) (by decide) hright hreports).1
  exact absurd (hlate _ List.mem_cons_self (by decide)) (by decide)

end Llmtrace.Storage
