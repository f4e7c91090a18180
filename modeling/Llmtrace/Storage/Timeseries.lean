import Llmtrace.Schemes.Text
import Llmtrace.Storage.Integrity
import Llmtrace.Storage.Paging

/-! The usage timeseries (`usage_timeseries` in `analytics.rs`): the minute rollups of a window, grouped
    into minutes, hours or days.

    The series of points starts with the bucket of the cutoff. The rollup rows are taken from the
    cutoff itself on, so the row of the minute that the cutoff falls into is left out, with the traces
    that started in it after the cutoff.

                  |── minute ──|── minute ──| …
                      cutoff ↑
        rows                   ├────────────────
        announced            ├──────────────────   -/

namespace Llmtrace.Storage
open Schemes

/-- `UsageTimeseriesBucket` -/
inductive UsageTimeseriesBucket where
  | minute | hour | day
  deriving DecidableEq

namespace UsageTimeseriesBucket

/-- The width of a bucket. -/
def minutes : UsageTimeseriesBucket → ℤ
  | .minute => 1
  | .hour => 60
  | .day => 1440

/-- `UsageTimeseriesBucket::parse` -/
def parse (value : Option (List Char)) : Except String UsageTimeseriesBucket :=
  let name := toAsciiLowercase (trim (value.getD "hour".toList))
  if name = [] ∨ name = "hour".toList then .ok .hour
  else if name = "minute".toList then .ok .minute
  else if name = "day".toList then .ok .day
  else .error "bucket must be one of minute, hour, or day"

/-- `UsageTimeseriesBucket::as_str` -/
def asStr : UsageTimeseriesBucket → String
  | .minute => "minute"
  | .hour => "hour"
  | .day => "day"

/-- `interval_sql`, in microseconds. -/
def interval (bucket : UsageTimeseriesBucket) : ℤ := bucket.minutes * Storage.minute

/-- `UsageTimeseriesBucket::max_since_hours` -/
def maxSinceHours : UsageTimeseriesBucket → ℤ
  | .minute => 24
  | .hour => 24 * 90
  | .day => 24 * 365

/-- `date_trunc` with the unit of the bucket, in UTC. -/
def dateTrunc (bucket : UsageTimeseriesBucket) (t : ℤ) : ℤ := t - t % bucket.interval

end UsageTimeseriesBucket

/-- `bounded_hours` -/
def boundedHours (hours : Option ℤ) (max : ℤ) : ℤ := clamp (hours.getD 24) 1 max

/-- `UsageTimeseriesWindow` -/
structure UsageTimeseriesWindow where
  sinceHours : ℤ
  bucket : UsageTimeseriesBucket

namespace UsageTimeseriesWindow

/-- `UsageTimeseriesWindow::from_query` -/
def fromQuery (hours : Option ℤ) (bucket : Option (List Char)) : Except String UsageTimeseriesWindow := do
  let bucket ← UsageTimeseriesBucket.parse bucket
  return ⟨boundedHours hours bucket.maxSinceHours, bucket⟩

/-- `UsageTimeseriesWindow::cutoff` -/
def cutoff (window : UsageTimeseriesWindow) (now : ℤ) : ℤ := now - window.sinceHours * 60 * minute

end UsageTimeseriesWindow

/-! ### The statement -/

/-- `generate_series(start, stop, step)` -/
def generateSeries (start stop step : ℤ) : List ℤ :=
  (List.range ((stop - start) / step + 1).toNat).map fun i : ℕ => start + i * step

/-- `UsagePoint` -/
structure UsagePoint where
  bucket : ℤ
  requestCount : ℤ
  errorCount : ℤ
  capturedBytes : ℤ
  avgDurationMs : Option ℤ
  avgTtftMs : Option ℤ

/-- What `usage_timeseries` returns. -/
structure UsageTimeseries where
  sinceHours : ℤ
  startedAtGte : ℤ
  bucket : String
  points : List UsagePoint

section
variable (db : Db) (window : UsageTimeseriesWindow) (now : ℤ)

/-- The rollup rows between the cutoff and `now`. -/
def windowRows : List ℤ :=
  db.rollups.keys.filter fun b => decide (window.cutoff now ≤ b) && decide (b ≤ now)

/-- The buckets of the grouped rollups. -/
def rollupGroups : List ℤ := ((windowRows db window now).map window.bucket.dateTrunc).dedup

/-- The rows of one group. -/
def groupRows (bucket : ℤ) : List ℤ :=
  (windowRows db window now).filter fun b => decide (window.bucket.dateTrunc b = bucket)

/-- The sum of a counter over the rollups of a bucket. -/
def groupSum (bucket : ℤ) (c : Counter) : ℤ :=
  ((groupRows db window now bucket).map fun b => storedCount db b c).sum

/-- The sums are cast to `bigint`. -/
def sumsFit : Bool :=
  (rollupGroups db window now).all fun bucket =>
    decide (∀ c, isBigint (groupSum db window now bucket c))

/-- The row of `rollups` that the left join finds for a bucket of the series. -/
def joined (bucket : ℤ) : Option (Counter → ℤ) :=
  if bucket ∈ rollupGroups db window now then some (groupSum db window now bucket) else none

/-- `COALESCE(r.count, 0) = 0` gives `NULL`, anything else the quotient. -/
def average (r : Option (Counter → ℤ)) (sum count : Counter) : Option ℤ :=
  r.bind fun sums => if sums count = 0 then none else some ((sums sum).tdiv (sums count))

/-- The point of a bucket of the series. -/
def usagePoint (bucket : ℤ) : UsagePoint :=
  let r := joined db window now bucket
  { bucket
    requestCount := (r.map fun sums => sums .total).getD 0
    errorCount := (r.map fun sums => sums .errors).getD 0
    capturedBytes := (r.map fun sums => sums .capturedBytes).getD 0
    avgDurationMs := average r .durationSumMs .durationCount
    avgTtftMs := average r .ttftSumMs .ttftCount }

/-- The series ascends, so `ORDER BY s.bucket` keeps its order. -/
def usagePoints : Except String (List UsagePoint) :=
  if sumsFit db window now then
    .ok ((generateSeries (window.bucket.dateTrunc (window.cutoff now)) (window.bucket.dateTrunc now)
      window.bucket.interval).map (usagePoint db window now))
  else .error "bigint out of range"

end

/-- `usage_timeseries` -/
def usageTimeseries (db : Db) (sinceHours : Option ℤ) (bucket : Option (List Char)) (now : ℤ) :
    Except String UsageTimeseries := do
  let window ← UsageTimeseriesWindow.fromQuery sinceHours bucket
  let points ← usagePoints db window now
  return ⟨window.sinceHours, window.cutoff now, window.bucket.asStr, points⟩

/-! ### What a timeseries should be -/

/-- The point that a list of traces gives. -/
def pointOf (bucket : ℤ) (ts : List Trace) : UsagePoint where
  bucket := bucket
  requestCount := aggregate ts .total
  errorCount := aggregate ts .errors
  capturedBytes := aggregate ts .capturedBytes
  avgDurationMs := average (some (aggregate ts)) .durationSumMs .durationCount
  avgTtftMs := average (some (aggregate ts)) .ttftSumMs .ttftCount

/-- The traces whose rollup row is summed up for `bucket`. -/
def counted (db : Db) (window : UsageTimeseriesWindow) (now bucket : ℤ) : List Trace :=
  db.traces.filter fun t => decide (t.bucket ∈ groupRows db window now bucket)

/-- The points split the window up: they are the consecutive buckets, each has the numbers of the
    traces it counts, and each trace of the window is counted in its bucket and no other. -/
structure Splits (db : Db) (window : UsageTimeseriesWindow) (now : ℤ) (points : List UsagePoint) :
    Prop where
  ascending : (points.map UsagePoint.bucket).Pairwise (· < ·)
  buckets : ∀ b, b ∈ points.map UsagePoint.bucket ↔ window.bucket.dateTrunc b = b ∧
    window.bucket.dateTrunc (window.cutoff now) ≤ b ∧ b ≤ window.bucket.dateTrunc now
  numbers : ∀ p ∈ points, p = pointOf p.bucket (counted db window now p.bucket)
  inside : ∀ t ∈ db.traces, window.cutoff now ≤ t.startedAt → t.startedAt ≤ now →
    window.bucket.dateTrunc t.startedAt ∈ points.map UsagePoint.bucket ∧
    ∀ p ∈ points, t ∈ counted db window now p.bucket ↔ p.bucket = window.bucket.dateTrunc t.startedAt
  outside : ∀ t ∈ db.traces,
    t.bucket < dateTruncMinute (window.cutoff now) ∨ dateTruncMinute now < t.bucket →
    ∀ p ∈ points, t ∉ counted db window now p.bucket
  durations : ∀ p ∈ points, p.avgDurationMs = none ↔
    ∀ t ∈ counted db window now p.bucket, t.durationMs = none
  ttfts : ∀ p ∈ points, p.avgTtftMs = none ↔ ∀ t ∈ counted db window now p.bucket, t.ttftMs = none

/-- No trace of the window started in a minute that began before the cutoff. -/
def WholeMinutes (traces : List Trace) (cutoff now : ℤ) : Prop :=
  ∀ t ∈ traces, cutoff ≤ t.startedAt → t.startedAt ≤ now → cutoff ≤ t.bucket

/-- The numbers of every bucket are `bigint`s. -/
def BucketsFit (db : Db) (window : UsageTimeseriesWindow) (now : ℤ) : Prop :=
  ∀ b c, aggregate (counted db window now b) c < 2 ^ 63

/-! ### Truncation -/

section
variable {bucket : UsageTimeseriesBucket} {x y : ℤ}

theorem interval_pos (bucket : UsageTimeseriesBucket) : 0 < bucket.interval := by
  cases bucket <;> decide

/-- Truncating to the minute first changes nothing. -/
theorem dateTrunc_dateTruncMinute (x : ℤ) :
    bucket.dateTrunc (dateTruncMinute x) = bucket.dateTrunc x := by
  cases bucket <;>
    simp only [UsageTimeseriesBucket.dateTrunc, UsageTimeseriesBucket.interval,
      UsageTimeseriesBucket.minutes, dateTruncMinute, minute] <;> omega

theorem dateTrunc_idem (x : ℤ) : bucket.dateTrunc (bucket.dateTrunc x) = bucket.dateTrunc x := by
  cases bucket <;>
    simp only [UsageTimeseriesBucket.dateTrunc, UsageTimeseriesBucket.interval,
      UsageTimeseriesBucket.minutes, minute] <;> omega

theorem dateTrunc_mono (h : x ≤ y) : bucket.dateTrunc x ≤ bucket.dateTrunc y := by
  cases bucket <;>
    simp only [UsageTimeseriesBucket.dateTrunc, UsageTimeseriesBucket.interval,
      UsageTimeseriesBucket.minutes, minute] <;> omega

theorem dateTrunc_eq_self : bucket.dateTrunc x = x ↔ bucket.interval ∣ x := by
  rw [UsageTimeseriesBucket.dateTrunc, Int.dvd_iff_emod_eq_zero]
  omega

end

/-- A series from one multiple of the step to another has all those between them. -/
theorem mem_generateSeries {start stop step b : ℤ} (hstep : 0 < step) (hstart : step ∣ start)
    (hstop : step ∣ stop) :
    b ∈ generateSeries start stop step ↔ step ∣ b ∧ start ≤ b ∧ b ≤ stop := by
  obtain ⟨m, rfl⟩ := hstart
  obtain ⟨n, rfl⟩ := hstop
  have hquot : (step * n - step * m) / step = n - m := by
    rw [← mul_sub, Int.mul_ediv_cancel_left _ hstep.ne']
  rw [generateSeries, hquot]
  simp only [List.mem_map, List.mem_range]
  constructor
  · rintro ⟨i, hi, rfl⟩
    refine ⟨Dvd.intro (m + i) (by ring), by nlinarith, ?_⟩
    have : m + i ≤ n := by omega
    nlinarith
  · rintro ⟨⟨k, rfl⟩, hlo, hhi⟩
    have hmk := le_of_mul_le_mul_left hlo hstep
    have hkn := le_of_mul_le_mul_left hhi hstep
    refine ⟨(k - m).toNat, by omega, ?_⟩
    have : ((k - m).toNat : ℤ) = k - m := by omega
    rw [this]
    ring

theorem generateSeries_ascending {start stop step : ℤ} (hstep : 0 < step) :
    (generateSeries start stop step).Pairwise (· < ·) := by
  rw [generateSeries, List.pairwise_map]
  refine List.pairwise_lt_range.imp fun hij => ?_
  have := Int.ofNat_lt.mpr hij
  nlinarith

/-! ### What is counted -/

section
variable {db : Db} {window : UsageTimeseriesWindow} {now b : ℤ} {t : Trace} {c : Counter}

theorem storedCount_of_matches (h : Matches db) (b : ℤ) (c : Counter) :
    storedCount db b c = aggregate (inMinute b db.traces) c := by
  rw [storedCount, h.view b]
  cases hrow : rollupOf (inMinute b db.traces) with
  | none =>
    rw [rollupOf_eq_none.mp hrow, aggregate_nil]
    rfl
  | some r => exact (rollupOf_eq_some.mp hrow).2 c

/-- Every trace has its row. -/
theorem bucket_mem_rollups (h : Matches db) (ht : t ∈ db.traces) : t.bucket ∈ db.rollups := by
  rw [← AList.lookup_isSome, h.view, Option.isSome_iff_ne_none, ne_eq, rollupOf_eq_none]
  exact List.ne_nil_of_mem (mem_inMinute.mpr ⟨ht, rfl⟩)

theorem mem_groupRows {r : ℤ} : r ∈ groupRows db window now b ↔
    r ∈ db.rollups ∧ window.cutoff now ≤ r ∧ r ≤ now ∧ window.bucket.dateTrunc r = b := by
  simp only [groupRows, windowRows, List.mem_filter, AList.mem_keys, Bool.and_eq_true,
    decide_eq_true_eq, and_assoc]

theorem nodup_groupRows : (groupRows db window now b).Nodup :=
  (db.rollups.keys_nodup.filter _).filter _

theorem mem_rollupGroups : b ∈ rollupGroups db window now ↔ groupRows db window now b ≠ [] := by
  simp only [rollupGroups, List.mem_dedup, List.mem_map, groupRows, ne_eq, List.filter_eq_nil_iff,
    decide_eq_true_eq, not_forall, not_not, exists_prop]

/-- A trace is counted by its minute: from the cutoff to `now`, in the bucket it started in. -/
theorem mem_counted (h : Matches db) : t ∈ counted db window now b ↔ t ∈ db.traces ∧
    window.cutoff now ≤ t.bucket ∧ t.bucket ≤ now ∧ window.bucket.dateTrunc t.startedAt = b := by
  simp only [counted, List.mem_filter, decide_eq_true_eq, mem_groupRows]
  rw [Trace.bucket, dateTrunc_dateTruncMinute, ← Trace.bucket]
  constructor
  · rintro ⟨ht, -, hrest⟩
    exact ⟨ht, hrest⟩
  · rintro ⟨ht, hrest⟩
    exact ⟨ht, bucket_mem_rollups h ht, hrest⟩

/-- The sum of the rows is the aggregate of the traces they stand for. -/
theorem groupSum_eq (h : Matches db) :
    groupSum db window now b c = aggregate (counted db window now b) c := by
  have hrow : ∀ r ∈ groupRows db window now b,
      storedCount db r c = aggregate (inMinute r (counted db window now b)) c := by
    intro r hr
    rw [storedCount_of_matches h]
    congr 1
    rw [inMinute, inMinute, counted, List.filter_filter]
    refine List.filter_congr fun t _ => ?_
    by_cases htr : t.bucket = r
    · simp [htr, hr]
    · simp [htr]
  rw [groupSum, List.map_congr_left hrow]
  refine sum_inMinute nodup_groupRows _ fun t ht => ?_
  simpa using (List.mem_filter.mp ht).2

theorem counted_eq_nil (hb : b ∉ rollupGroups db window now) : counted db window now b = [] := by
  rw [mem_rollupGroups, not_not] at hb
  simp [counted, hb]

theorem usagePoint_eq (h : Matches db) :
    usagePoint db window now b = pointOf b (counted db window now b) := by
  by_cases hb : b ∈ rollupGroups db window now
  · have hsums : groupSum db window now b = aggregate (counted db window now b) :=
      funext fun c => groupSum_eq h
    simp [usagePoint, joined, hb, hsums, pointOf]
  · simp [usagePoint, joined, hb, pointOf, counted_eq_nil hb, average]

/-- The statement does not fail where the numbers are `bigint`s. -/
theorem sumsFit_iff (h : Matches db) : sumsFit db window now = true ↔ BucketsFit db window now := by
  simp only [sumsFit, List.all_eq_true, decide_eq_true_eq, groupSum_eq h, BucketsFit]
  constructor
  · intro hfit b c
    by_cases hb : b ∈ rollupGroups db window now
    · have := hfit b hb c
      simp only [isBigint, Bool.and_eq_true, decide_eq_true_eq] at this
      exact this.2
    · rw [counted_eq_nil hb, aggregate_nil]
      decide
  · intro hfit b _ c
    exact isBigint_of_nonneg (aggregate_nonneg _ c) (hfit b c)

/-! ### Averages -/

theorem average_eq_none {ts : List Trace} {sum count : Counter} :
    average (some (aggregate ts)) sum count = none ↔ aggregate ts count = 0 := by
  simp only [average, Option.bind_some]
  split_ifs with h <;> simp [h]

theorem durationCount_eq_zero {ts : List Trace} :
    aggregate ts .durationCount = 0 ↔ ∀ t ∈ ts, t.durationMs = none := by
  simp [aggregate, List.countP_eq_zero]

theorem ttftCount_eq_zero {ts : List Trace} :
    aggregate ts .ttftCount = 0 ↔ ∀ t ∈ ts, t.ttftMs = none := by
  simp [aggregate, List.countP_eq_zero]

/-! ### The points -/

/-- The points of a statement that does not fail. -/
def allPoints (db : Db) (window : UsageTimeseriesWindow) (now : ℤ) : List UsagePoint :=
  (generateSeries (window.bucket.dateTrunc (window.cutoff now)) (window.bucket.dateTrunc now)
    window.bucket.interval).map (usagePoint db window now)

theorem allPoints_buckets : (allPoints db window now).map UsagePoint.bucket =
    generateSeries (window.bucket.dateTrunc (window.cutoff now)) (window.bucket.dateTrunc now)
      window.bucket.interval := by
  rw [allPoints, List.map_map]
  exact List.map_id _

theorem mem_allPoints_buckets : b ∈ (allPoints db window now).map UsagePoint.bucket ↔
    window.bucket.dateTrunc b = b ∧ window.bucket.dateTrunc (window.cutoff now) ≤ b ∧
      b ≤ window.bucket.dateTrunc now := by
  rw [allPoints_buckets, dateTrunc_eq_self]
  exact mem_generateSeries (interval_pos _) (dateTrunc_eq_self.mp (dateTrunc_idem _))
    (dateTrunc_eq_self.mp (dateTrunc_idem _))

theorem eq_pointOf (h : Matches db) {p : UsagePoint} (hp : p ∈ allPoints db window now) :
    p = pointOf p.bucket (counted db window now p.bucket) := by
  obtain ⟨b, -, rfl⟩ := List.mem_map.mp hp
  rw [usagePoint_eq h]
  rfl

/-- The bucket of a trace of the window is one of the points. -/
theorem bucket_mem_allPoints (hlo : window.cutoff now ≤ t.startedAt) (hhi : t.startedAt ≤ now) :
    window.bucket.dateTrunc t.startedAt ∈ (allPoints db window now).map UsagePoint.bucket :=
  mem_allPoints_buckets.mpr ⟨dateTrunc_idem _, dateTrunc_mono hlo, dateTrunc_mono hhi⟩

theorem splits_allPoints_iff (h : Matches db) : Splits db window now (allPoints db window now) ↔
    WholeMinutes db.traces (window.cutoff now) now := by
  constructor
  · intro hs t ht hlo hhi
    obtain ⟨p, hp, hbucket⟩ := List.mem_map.mp (hs.inside t ht hlo hhi).1
    have hin := ((hs.inside t ht hlo hhi).2 p hp).mpr hbucket
    exact ((mem_counted h).mp hin).2.1
  · intro hwhole
    constructor
    case ascending => exact allPoints_buckets ▸ generateSeries_ascending (interval_pos _)
    case buckets => exact fun b => mem_allPoints_buckets
    case numbers => exact fun p hp => eq_pointOf h hp
    case inside =>
      intro t ht hlo hhi
      refine ⟨bucket_mem_allPoints hlo hhi, fun p hp => ?_⟩
      rw [mem_counted h, eq_comm (a := p.bucket)]
      refine ⟨fun hin => hin.2.2.2, fun hb => ⟨ht, hwhole t ht hlo hhi, ?_, hb⟩⟩
      exact (bucket_le t).1.trans hhi
    case outside =>
      rintro t - hout p - hin
      obtain ⟨-, hlo, hhi, -⟩ := (mem_counted h).mp hin
      have hbucket := dateTruncMinute_bucket t
      simp only [dateTruncMinute, minute] at hout hbucket
      omega
    case durations =>
      intro p hp
      rw [eq_pointOf h hp, pointOf, average_eq_none, durationCount_eq_zero]
    case ttfts =>
      intro p hp
      rw [eq_pointOf h hp, pointOf, average_eq_none, ttftCount_eq_zero]

/-- EXACT: over rollups that are those of the traces, the points of an accepted request split its
    window up exactly when no trace of the window started in a minute that began before the cutoff,
    and the numbers of the buckets are `bigint`s. -/
theorem usage_timeseries_splits_iff (db : Db) (hdb : Matches db) (sinceHours : Option ℤ)
    (bucket : Option (List Char)) (window : UsageTimeseriesWindow)
    (haccepted : UsageTimeseriesWindow.fromQuery sinceHours bucket = .ok window) (now : ℤ) :
    (∃ series, usageTimeseries db sinceHours bucket now = .ok series ∧
      series.startedAtGte = window.cutoff now ∧ Splits db window now series.points) ↔
    WholeMinutes db.traces (window.cutoff now) now ∧ BucketsFit db window now := by
  rw [← splits_allPoints_iff hdb, ← sumsFit_iff hdb]
  simp only [usageTimeseries, haccepted, usagePoints]
  by_cases hfit : sumsFit db window now = true
  · simp [hfit, allPoints, bind, Except.bind, pure, Except.pure]
  · simp [hfit, bind, Except.bind]

end

/-- One trace of the first minute, and its rollup. -/
def oneTrace : Db := (insertTrace .empty (failedAt 1 10)).getD .empty

theorem oneTrace_matches : Matches oneTrace :=
  insertTrace_matches .empty (show insertTrace .empty (failedAt 1 10) = _ from rfl)

theorem oneTrace_fits (window : UsageTimeseriesWindow) (now : ℤ) : BucketsFit oneTrace window now := by
  intro b c
  have hsub : (counted oneTrace window now b).Sublist [failedAt 1 10] := List.filter_sublist
  rcases List.sublist_singleton.mp hsub with hnil | hone
  · rw [hnil, aggregate_nil]
    decide
  · rw [hone]
    cases c <;> decide

/-- Asked on the hour, the trace is counted. -/
theorem usage_timeseries_splits_iff_aligned : ∃ series,
    usageTimeseries oneTrace (some 1) (some "minute".toList) 3600000000 = .ok series ∧
    series.startedAtGte = 0 ∧ Splits oneTrace ⟨1, .minute⟩ 3600000000 series.points := by
  have hwhole : WholeMinutes oneTrace.traces 0 3600000000 := by
    intro t ht _ _
    rw [List.mem_singleton.mp ht]
    decide
  exact (usage_timeseries_splits_iff oneTrace oneTrace_matches (some 1) (some "minute".toList)
    ⟨1, .minute⟩ rfl 3600000000).mpr ⟨hwhole, oneTrace_fits _ _⟩

/-- Asked five milliseconds later, the window still has the trace and no point counts it. -/
theorem partial_minute_not_counted :
    Matches oneTrace ∧ UsageTimeseriesWindow.fromQuery (some 1) none = .ok ⟨1, .hour⟩ ∧
    (∃ t ∈ oneTrace.traces, UsageTimeseriesWindow.cutoff ⟨1, .hour⟩ 3600005000 ≤ t.startedAt ∧
      t.startedAt ≤ 3600005000) ∧
    ∃ series, usageTimeseries oneTrace (some 1) none 3600005000 = .ok series ∧
      (∀ p ∈ series.points, p.requestCount = 0) ∧
      ¬ Splits oneTrace ⟨1, .hour⟩ 3600005000 series.points := by
  refine ⟨oneTrace_matches, rfl, ⟨failedAt 1 10, List.mem_cons_self, by decide⟩,
    ⟨1, 5000, "hour", allPoints oneTrace ⟨1, .hour⟩ 3600005000⟩, ?_, by decide, ?_⟩
  · rfl
  · rw [splits_allPoints_iff oneTrace_matches]
    intro hwhole
    exact absurd (hwhole (failedAt 1 10) List.mem_cons_self (by decide) (by decide)) (by decide)

end Llmtrace.Storage
