import Llmtrace.Storage.Archive

/-! Size rotation (`rotate_batch`): the oldest traces go until the archive fits its limit.

    The loop does not measure the archive again. Before each deletion it asks how much the deletion
    will free and subtracts that from a running `size`, while what is really freed is decided by a
    cascade and two triggers. `RotationSpec` says what rotation is for in terms of the tables alone;
    the running size never leaves the measured one, so the loop meets it. -/

namespace Llmtrace.Storage
open Schemes

/-- What a rotation reads of the configuration. -/
structure RotateConfig where
  retentionPruneBatchSize : ℕ
  rotateSizeBytes : ℕ

/-- `ORDER BY s.created_at, s.id` -/
def Segment.Before (s u : Segment) : Prop :=
  s.createdAt < u.createdAt ∨ s.createdAt = u.createdAt ∧ s.id ≤ u.id

instance : DecidableRel Segment.Before := fun _ _ => inferInstanceAs (Decidable (_ ∨ _))

/-- The segments without a record that one batch reclaims. -/
def orphans (db : Archive) (batchSize : ℕ) : List Segment :=
  ((db.segments.filter fun s => !isReferenced db.records s.id).insertionSort Segment.Before).take
    batchSize

/-- Segments that no record points to are deleted. -/
def reclaimOrphans (db : Archive) (batchSize : ℕ) : Archive :=
  deleteSegments db fun s => (orphans db batchSize).any fun o => decide (o.id = s.id)

/-- A cast to `bigint`, which fails out of range. -/
def toBigint (n : ℕ) : Option ℕ := if n < 2 ^ 63 then some n else none

theorem toBigint_of_lt {n : ℕ} (h : n < 2 ^ 63) : toBigint n = some n := if_pos h

theorem toBigint_of_le {n : ℕ} (h : 2 ^ 63 ≤ n) : toBigint n = none := if_neg (Nat.not_lt.mpr h)

/-- `ArchiveFootprint` -/
structure ArchiveFootprint where
  retainedBytes : ℕ
  pendingBytes : ℕ
  pendingFiles : ℕ

/-- `archive_footprint`: the sums fit a bigint. -/
def archiveFootprint (db : Archive) : Option ArchiveFootprint :=
  (toBigint db.retainedBytes).bind fun retainedBytes =>
    (toBigint db.pendingBytes).map fun pendingBytes => ⟨retainedBytes, pendingBytes, db.pendingFiles⟩

/-- The query for what a deletion will free: `NULL`, which is an error, if there is no such trace. -/
def freedBytes (db : Archive) (id : ℕ) : Option ℕ :=
  match db.traces.find? fun t => decide (t.id = id) with
  | none => none
  | some t => toBigint
      (((db.segments.filter (onlyFor db.records id)).map Segment.compressedBytes).sum + t.inlineBytes)

/-- `i64::saturating_sub` -/
def saturatingSub (a b : ℤ) : ℤ := max (-2 ^ 63) (min (2 ^ 63 - 1) (a - b))

/-- One deletion: the trace, the rows the statement reports, and what it leaves. -/
structure RotateStep where
  id : ℕ
  rows : ℕ
  size : ℤ
  db : Archive

section
variable (fire : List ArchiveRecord → List ArchiveRecord)

/-- The loop over the selected ids. `expired` says whether the deadline has passed, by the number of
    ids still to come. -/
def rotateLoop (limit : ℤ) (expired : ℕ → Bool) :
    List ℕ → Archive → ℤ → Option (List RotateStep)
  | [], _, _ => some []
  | id :: ids, db, size =>
    (freedBytes db id).bind fun freed =>
      let db' := deleteTrace fire db id
      let size' := saturatingSub size freed
      let step : RotateStep := ⟨id, db.traces.countP fun t => decide (t.id = id), size', db'⟩
      if size' ≤ limit ∨ expired ids.length = true then some [step]
      else (rotateLoop limit expired ids db' size').map fun steps => step :: steps

/-- `SELECT id FROM request_traces ORDER BY started_at, id` -/
def rotationOrder (db : Archive) : List Trace := db.traces.insertionSort Trace.Before

/-- What a rotation leaves, and what it did. -/
structure RotateOutcome where
  db : Archive
  steps : List RotateStep
  deleted : ℕ

/-- `rotate_batch`; `none` is an error, which rolls the transaction back. -/
def rotateBatch (cfg : RotateConfig) (expired : ℕ → Bool) (locked : Bool) (db : Archive) :
    Option RotateOutcome :=
  if locked then
    let db := reclaimOrphans db cfg.retentionPruneBatchSize
    (archiveFootprint db).bind fun footprint =>
      if 0 < footprint.pendingFiles then some ⟨db, [], 0⟩
      else (toBigint cfg.rotateSizeBytes).bind fun limit =>
        if limit < footprint.retainedBytes then
          let ids := ((rotationOrder db).take cfg.retentionPruneBatchSize).map Trace.id
          (rotateLoop fire limit expired ids db footprint.retainedBytes).map fun steps =>
            ⟨(steps.getLast?.map RotateStep.db).getD db, steps, (steps.map RotateStep.rows).sum⟩
        else some ⟨db, [], 0⟩
  else some ⟨db, [], 0⟩

/-- The archive without the first `n` of the traces `ids`. -/
def afterPrefix (db : Archive) (ids : List ℕ) (n : ℕ) : Archive :=
  (ids.take n).foldl (deleteTrace fire) db

/-! ### What a deletion frees -/

variable {fire}

/-- FREED: the prediction is what the cascade and the triggers release. -/
theorem retained_deleteTrace (hfire : ∀ rs, (fire rs).Perm rs) {db : Archive} (hv : db.Valid)
    {t : Trace} (ht : t ∈ db.traces) :
    ((db.segments.filter (onlyFor db.records t.id)).map Segment.compressedBytes).sum +
      t.inlineBytes + (deleteTrace fire db t.id).retainedBytes = db.retainedBytes := by
  have hself : db.traces.filter (fun u => !decide (u.id ≠ t.id)) = [t] := by
    have hnodup := hv.traceIds.of_map
    refine List.perm_singleton.mp ((List.perm_ext_iff_of_nodup (hnodup.filter _) (by simp)).mpr ?_)
    intro u
    simp only [ne_eq, decide_not, Bool.not_not, List.mem_filter, decide_eq_true_eq,
      List.mem_singleton]
    refine ⟨fun hu => List.inj_on_of_nodup_map hv.traceIds hu.1 ht hu.2, ?_⟩
    rintro rfl
    exact ⟨ht, rfl⟩
  have hinline := sum_filter_split Trace.inlineBytes (fun u => decide (u.id ≠ t.id)) db.traces
  have hstored := sum_filter_split Segment.compressedBytes (onlyFor db.records t.id) db.segments
  rw [hself] at hinline
  simp only [List.map_cons, List.map_nil, List.sum_cons, List.sum_nil] at hinline
  rw [Archive.retainedBytes_eq, Archive.retainedBytes_eq, deleteTrace_traces,
    deleteTrace_segments db t.id hfire]
  omega

theorem freedBytes_eq (hfire : ∀ rs, (fire rs).Perm rs) {db : Archive} (hv : db.Valid) {t : Trace}
    (ht : t ∈ db.traces) (hfit : db.retainedBytes < 2 ^ 63) :
    ∃ freed, freedBytes db t.id = some freed ∧
      freed + (deleteTrace fire db t.id).retainedBytes = db.retainedBytes := by
  have hsum := retained_deleteTrace hfire hv ht
  have hfind : db.traces.find? (fun u => decide (u.id = t.id)) = some t := by
    have hsome : (db.traces.find? fun u => decide (u.id = t.id)).isSome = true :=
      List.find?_isSome.mpr ⟨t, ht, decide_eq_true rfl⟩
    obtain ⟨u, hu⟩ := Option.isSome_iff_exists.mp hsome
    have huid : u.id = t.id := by simpa using List.find?_some hu
    rw [hu, List.inj_on_of_nodup_map hv.traceIds (List.mem_of_find?_eq_some hu) ht huid]
  refine ⟨_, ?_, hsum⟩
  simp only [freedBytes, hfind]
  exact toBigint_of_lt (by omega)

theorem countP_id {db : Archive} (hv : db.Valid) {t : Trace} (ht : t ∈ db.traces) :
    db.traces.countP (fun u => decide (u.id = t.id)) = 1 := by
  have : db.traces.countP (fun u => decide (u.id = t.id)) =
      (db.traces.map Trace.id).count t.id := by
    rw [List.count, List.countP_map]
    exact List.countP_congr fun u _ => by simp
  rw [this]
  exact List.count_eq_one_of_mem hv.traceIds (List.mem_map_of_mem ht)

/-! ### The loop -/

theorem afterPrefix_succ (fire : List ArchiveRecord → List ArchiveRecord) (db : Archive) (id : ℕ)
    (ids : List ℕ) (n : ℕ) :
    afterPrefix fire db (id :: ids) (n + 1) = afterPrefix fire (deleteTrace fire db id) ids n :=
  rfl

theorem afterPrefix_traces (db : Archive) (ids : List ℕ) (n : ℕ) :
    (afterPrefix fire db ids n).traces =
      db.traces.filter fun t => decide (t.id ∉ ids.take n) := by
  induction ids generalizing db n with
  | nil => simp [afterPrefix]
  | cons id ids ih =>
    cases n with
    | zero => simp [afterPrefix]
    | succ n =>
      rw [afterPrefix_succ, ih, deleteTrace_traces, List.filter_filter]
      refine List.filter_congr fun t _ => ?_
      simp [Bool.and_comm]

/-- What the loop has done when it ends after `steps`. -/
structure LoopSpec (fire : List ArchiveRecord → List ArchiveRecord) (limit : ℕ) (db : Archive)
    (ids : List ℕ) (steps : List RotateStep) : Prop where
  taken : steps.map RotateStep.id = ids.take steps.length
  step : ∀ k st, steps[k]? = some st → st.rows = 1 ∧ st.db = afterPrefix fire db ids (k + 1) ∧
    st.size = ((afterPrefix fire db ids (k + 1)).retainedBytes : ℤ)
  continues : ∀ k, 0 < k → k < steps.length → limit < (afterPrefix fire db ids k).retainedBytes
  stops : (afterPrefix fire db ids steps.length).retainedBytes ≤ limit ∨ steps.length = ids.length

/-- The loop returns, and its running size is the measured one after every deletion. -/
theorem rotateLoop_spec (hfire : ∀ rs, (fire rs).Perm rs) (limit : ℕ) :
    ∀ (ids : List ℕ) (db : Archive), db.Valid → ids.Nodup →
      (∀ id ∈ ids, id ∈ db.traces.map Trace.id) → db.retainedBytes < 2 ^ 63 →
      ∃ steps, rotateLoop fire limit (fun _ => false) ids db db.retainedBytes = some steps ∧
        LoopSpec fire limit db ids steps
  | [], db, _, _, _, _ => ⟨[], rfl, rfl, by simp, by simp, .inr rfl⟩
  | id :: ids, db, hv, hn, hmem, hfit => by
      obtain ⟨t, ht, rfl⟩ := List.mem_map.mp (hmem id List.mem_cons_self)
      obtain ⟨freed, hfreed, hsum⟩ := freedBytes_eq hfire hv ht hfit
      have hsize : saturatingSub db.retainedBytes freed =
          (deleteTrace fire db t.id).retainedBytes := by
        simp only [saturatingSub]
        omega
      have hrows := countP_id hv ht
      simp only [rotateLoop, hfreed, Option.bind_some, hsize, hrows, Bool.false_eq_true, or_false,
        Nat.cast_le]
      by_cases hle : (deleteTrace fire db t.id).retainedBytes ≤ limit
      · rw [if_pos hle]
        refine ⟨_, rfl, rfl, ?_, ?_, .inl hle⟩
        · rintro (_ | k) st hst
          · obtain rfl := Option.some.inj hst
            exact ⟨rfl, rfl, rfl⟩
          · simp at hst
        · intro k hk hk'
          simp only [List.length_singleton] at hk'
          omega
      · rw [if_neg hle]
        obtain ⟨hid, hn⟩ := List.nodup_cons.mp hn
        have hrest : ∀ u ∈ ids, u ∈ (deleteTrace fire db t.id).traces.map Trace.id := by
          intro u hu
          obtain ⟨v, hv', rfl⟩ := List.mem_map.mp (hmem u (List.mem_cons_of_mem _ hu))
          rw [deleteTrace_traces]
          refine List.mem_map_of_mem (List.mem_filter.mpr ⟨hv', decide_eq_true ?_⟩)
          rintro heq
          exact hid (heq ▸ hu)
        obtain ⟨steps, hsteps, hspec⟩ := rotateLoop_spec hfire limit ids (deleteTrace fire db t.id)
          (deleteTrace_valid hfire hv t.id) hn hrest (by omega)
        rw [hsteps]
        refine ⟨_, rfl, ?_, ?_, ?_, ?_⟩
        · simp only [List.map_cons, List.length_cons, List.take_succ_cons, hspec.taken]
        · rintro (_ | k) st hst
          · obtain rfl := Option.some.inj hst
            exact ⟨rfl, rfl, rfl⟩
          · exact hspec.step k st hst
        · rintro (_ | k) hk hk'
          · omega
          · rw [afterPrefix_succ]
            rcases Nat.eq_zero_or_pos k with rfl | hpos
            · exact Nat.lt_of_not_le hle
            · exact hspec.continues k hpos (by simpa using hk')
        · rw [List.length_cons, afterPrefix_succ]
          exact hspec.stops.imp_right fun h => by rw [h, List.length_cons]

/-! ### Orphans -/

theorem reclaimOrphans_traces (db : Archive) (n : ℕ) : (reclaimOrphans db n).traces = db.traces := rfl

theorem reclaimOrphans_valid {db : Archive} (hv : db.Valid) (n : ℕ) :
    (reclaimOrphans db n).Valid := by
  refine deleteSegments_valid hv fun s hs => ?_
  obtain ⟨o, ho, hos⟩ := List.any_eq_true.mp hs
  have hmem := (List.mem_insertionSort _).mp (List.mem_of_mem_take ho)
  rw [← of_decide_eq_true hos]
  simpa using (List.mem_filter.mp hmem).2

theorem retained_reclaimOrphans_le (db : Archive) (n : ℕ) :
    (reclaimOrphans db n).retainedBytes ≤ db.retainedBytes := by
  have := sum_filter_split Segment.compressedBytes
    (fun s => (orphans db n).any fun o => decide (o.id = s.id)) db.segments
  simp only [Archive.retainedBytes_eq, reclaimOrphans, deleteSegments]
  omega

theorem size_queueDeletedFile_le (deletions : Table StorageKey ℕ) (s : Segment) :
    deletions.size ≤ (queueDeletedFile deletions s).size := by
  simp only [queueDeletedFile]
  split
  · rename_i h
    rw [Table.size_insert h.2]
    omega
  · exact le_refl _

/-- Reclaiming empties no queue. -/
theorem pendingFiles_reclaimOrphans_le (db : Archive) (n : ℕ) :
    db.pendingFiles ≤ (reclaimOrphans db n).pendingFiles := by
  have hfold : ∀ (ss : List Segment) (deletions : Table StorageKey ℕ),
      deletions.size ≤ (ss.foldl queueDeletedFile deletions).size := by
    intro ss
    induction ss with
    | nil => exact fun _ => le_refl _
    | cons s ss ih => exact fun d => (size_queueDeletedFile_le d s).trans (ih _)
  exact hfold _ _

/-! ### The specification -/

/-- What one rotation of `db` is for, said of the tables: `start` is the archive without the reclaimed
    orphans, `order` its traces from the oldest on, and `n` of them went. -/
structure RotationSpec (fire : List ArchiveRecord → List ArchiveRecord) (cfg : RotateConfig)
    (db start : Archive) (order : List Trace) (n : ℕ) (out : RotateOutcome) : Prop where
  bounded : n ≤ cfg.retentionPruneBatchSize ∧ n ≤ order.length
  deleted : out.deleted = n ∧ out.steps.map RotateStep.id = (order.take n).map Trace.id
  /-- The deleted traces are a beginning of the order. -/
  kept : ∀ t, t ∈ out.db.traces ↔ t ∈ db.traces ∧ t ∉ order.take n
  oldest : ∀ t ∈ order.take n, ∀ u ∈ out.db.traces, t.Before u
  /-- The running size is the measured one after every deletion. -/
  size : ∀ k st, out.steps[k]? = some st →
    st.db = afterPrefix fire start (order.map Trace.id) (k + 1) ∧ st.size = st.db.retainedBytes
  result : out.db = afterPrefix fire start (order.map Trace.id) n
  /-- A segment goes with the last trace that it is stored for. -/
  released : ∀ k t, k < n → order[k]? = some t → ∀ s,
    s ∈ (afterPrefix fire start (order.map Trace.id) (k + 1)).segments ↔
    s ∈ (afterPrefix fire start (order.map Trace.id) k).segments ∧
      onlyFor (afterPrefix fire start (order.map Trace.id) k).records t.id s = false
  /-- No deletion is made that is not needed, and none is left out that is allowed. -/
  needed : ∀ k < n,
    cfg.rotateSizeBytes < (afterPrefix fire start (order.map Trace.id) k).retainedBytes
  enough : start.pendingFiles = 0 → out.db.retainedBytes ≤ cfg.rotateSizeBytes ∨
    n = min cfg.retentionPruneBatchSize order.length
  pending : 0 < start.pendingFiles → n = 0
  /-- Nothing goes from an archive that fits or has files to remove. -/
  quiet : db.retainedBytes ≤ cfg.rotateSizeBytes ∨ 0 < db.pendingFiles → n = 0

theorem before_total (t u : Trace) : t.Before u ∨ u.Before t := by
  simp only [Trace.Before]
  omega

theorem before_trans (t u v : Trace) (h₁ : t.Before u) (h₂ : u.Before v) : t.Before v := by
  simp only [Trace.Before] at *
  omega

theorem pairwise_rotationOrder (db : Archive) : (rotationOrder db).Pairwise Trace.Before := by
  have : Std.Total Trace.Before := ⟨before_total⟩
  have : IsTrans Trace Trace.Before := ⟨before_trans⟩
  exact List.pairwise_insertionSort _ _

/-- A rotation that deletes nothing. -/
theorem spec_nothing {cfg : RotateConfig} {db : Archive} {start : Archive}
    (hstart : start = reclaimOrphans db cfg.retentionPruneBatchSize)
    (henough : start.pendingFiles = 0 → start.retainedBytes ≤ cfg.rotateSizeBytes) :
    RotationSpec fire cfg db start (rotationOrder start) 0 ⟨start, [], 0⟩ where
  bounded := ⟨Nat.zero_le _, Nat.zero_le _⟩
  deleted := ⟨rfl, rfl⟩
  kept t := by simp [hstart, reclaimOrphans_traces]
  oldest t ht := by simp at ht
  size k st hst := by simp at hst
  result := rfl
  released k t hk := by omega
  needed k hk := by omega
  enough hp := .inl (henough hp)
  pending _ := rfl
  quiet _ := rfl

theorem afterPrefix_take (db : Archive) (ids : List ℕ) {k n : ℕ} (h : k ≤ n) :
    afterPrefix fire db (ids.take n) k = afterPrefix fire db ids k := by
  rw [afterPrefix, afterPrefix, List.take_take, min_eq_left h]

theorem afterPrefix_next {db : Archive} {ids : List ℕ} {k id : ℕ} (h : ids[k]? = some id) :
    afterPrefix fire db ids (k + 1) = deleteTrace fire (afterPrefix fire db ids k) id := by
  rw [afterPrefix, List.take_add_one, h, List.foldl_append]
  rfl

/-- What the first `n` traces of the order leave. -/
theorem mem_afterPrefix {db : Archive} (hv : db.Valid) (n : ℕ) (t : Trace) :
    t ∈ (afterPrefix fire db ((rotationOrder db).map Trace.id) n).traces ↔
      t ∈ db.traces ∧ t ∉ (rotationOrder db).take n := by
  rw [afterPrefix_traces, List.mem_filter, decide_eq_true_eq, ← List.map_take]
  refine and_congr_right fun ht => not_congr ⟨fun hmem => ?_, List.mem_map_of_mem⟩
  obtain ⟨u, hu, hut⟩ := List.mem_map.mp hmem
  have hudb := (List.mem_insertionSort _).mp (List.mem_of_mem_take hu)
  exact List.inj_on_of_nodup_map hv.traceIds hudb ht hut ▸ hu

theorem LoopSpec.length_le {limit n : ℕ} {db : Archive} {ids : List ℕ} {steps : List RotateStep}
    (h : LoopSpec fire limit db (ids.take n) steps) : steps.length ≤ n ∧ steps.length ≤ ids.length := by
  have := congrArg List.length h.taken
  simp only [List.length_map, List.length_take] at this
  omega

theorem LoopSpec.last_db {limit : ℕ} {db : Archive} {ids : List ℕ} {steps : List RotateStep}
    (h : LoopSpec fire limit db ids steps) :
    (steps.getLast?.map RotateStep.db).getD db = afterPrefix fire db ids steps.length := by
  rcases Nat.eq_zero_or_pos steps.length with hz | hpos
  · rw [List.length_eq_zero_iff.mp hz]
    rfl
  · obtain ⟨st, hst⟩ : ∃ st, steps[steps.length - 1]? = some st :=
      ⟨_, List.getElem?_eq_getElem (by omega)⟩
    rw [List.getLast?_eq_getElem?, hst, Option.map_some, Option.getD_some, (h.step _ st hst).2.1,
      Nat.sub_add_cancel hpos]

/-- What is not among the first comes later in the order. -/
theorem before_of_notMem_take {db : Archive} {n : ℕ} {t u : Trace}
    (ht : t ∈ (rotationOrder db).take n) (hu : u ∈ db.traces) (hnot : u ∉ (rotationOrder db).take n) :
    t.Before u := by
  have huorder : u ∈ rotationOrder db := (List.mem_insertionSort _).mpr hu
  have hsorted := pairwise_rotationOrder db
  rw [← List.take_append_drop n (rotationOrder db)] at hsorted huorder
  exact (List.pairwise_append.mp hsorted).2.2 t ht u ((List.mem_append.mp huorder).resolve_left hnot)

/-- A rotation whose loop ran over the oldest traces. -/
theorem spec_loop {cfg : RotateConfig} {db start : Archive} {steps : List RotateStep}
    (hfire : ∀ rs, (fire rs).Perm rs) (hv : start.Valid)
    (hstart : start = reclaimOrphans db cfg.retentionPruneBatchSize)
    (hpending : start.pendingFiles = 0) (hover : cfg.rotateSizeBytes < start.retainedBytes)
    (h : LoopSpec fire cfg.rotateSizeBytes start
      (((rotationOrder start).map Trace.id).take cfg.retentionPruneBatchSize) steps) :
    RotationSpec fire cfg db start (rotationOrder start) steps.length
      ⟨(steps.getLast?.map RotateStep.db).getD start, steps, (steps.map RotateStep.rows).sum⟩ := by
  have hlen : steps.length ≤ cfg.retentionPruneBatchSize ∧
      steps.length ≤ (rotationOrder start).length := by
    simpa using h.length_le
  have htake : ∀ k ≤ steps.length, afterPrefix fire start
      (((rotationOrder start).map Trace.id).take cfg.retentionPruneBatchSize) k =
      afterPrefix fire start ((rotationOrder start).map Trace.id) k :=
    fun k hk => afterPrefix_take start _ (hk.trans hlen.1)
  have hresult : (steps.getLast?.map RotateStep.db).getD start =
      afterPrefix fire start ((rotationOrder start).map Trace.id) steps.length := by
    rw [h.last_db, htake _ (le_refl _)]
  have hkept : ∀ t, t ∈ (afterPrefix fire start ((rotationOrder start).map Trace.id)
      steps.length).traces ↔ t ∈ db.traces ∧ t ∉ (rotationOrder start).take steps.length := by
    intro t
    rw [mem_afterPrefix hv, hstart, reclaimOrphans_traces]
  refine ⟨hlen, ⟨?_, ?_⟩, ?_, ?_, ?_, hresult, ?_, ?_, ?_, ?_, ?_⟩
  · have hrows : ∀ st ∈ steps, st.rows = 1 := by
      intro st hst
      obtain ⟨k, hk⟩ := List.getElem?_of_mem hst
      exact (h.step k st hk).1
    simp only [List.map_congr_left hrows, List.map_const', List.sum_replicate, smul_eq_mul, mul_one]
  · rw [h.taken, List.take_take, min_eq_left hlen.1, List.map_take]
  · intro t
    rw [hresult]
    exact hkept t
  · intro t ht u hu
    rw [hresult, hkept] at hu
    have hmem : u ∈ start.traces := by
      rw [hstart, reclaimOrphans_traces]
      exact hu.1
    exact before_of_notMem_take ht hmem hu.2
  · intro k st hst
    have hk : k + 1 ≤ steps.length := (List.getElem?_eq_some_iff.mp hst).1
    obtain ⟨-, hdb, hsize⟩ := h.step k st hst
    rw [htake _ hk] at hdb hsize
    exact ⟨hdb, by rw [hsize, hdb]⟩
  · intro k t hk ht s
    have hid : ((rotationOrder start).map Trace.id)[k]? = some t.id := by
      rw [List.getElem?_map, ht, Option.map_some]
    rw [afterPrefix_next hid, deleteTrace_segments _ _ hfire, List.mem_filter, Bool.not_eq_true']
  · intro k hk
    rcases Nat.eq_zero_or_pos k with rfl | hpos
    · exact hover
    · have := h.continues k hpos hk
      rwa [htake k hk.le] at this
  · intro _
    rw [hresult]
    refine h.stops.imp (fun hle => ?_) fun heq => ?_
    · rwa [htake _ (le_refl _)] at hle
    · rw [heq, List.length_take, List.length_map]
  · intro hp
    omega
  · have hle := retained_reclaimOrphans_le db cfg.retentionPruneBatchSize
    have hfiles := pendingFiles_reclaimOrphans_le db cfg.retentionPruneBatchSize
    rw [← hstart] at hle hfiles
    intro hquiet
    omega

/-- ROTATION: with the prune lock held and within its time, `rotate_batch` meets its specification;
    it fails only where a measured size or the limit is no `bigint`. -/
theorem rotation_meets_spec (hfire : ∀ rs, (fire rs).Perm rs) (cfg : RotateConfig) (db : Archive)
    (hv : db.Valid) :
    let start := reclaimOrphans db cfg.retentionPruneBatchSize
    (rotateBatch fire cfg (fun _ => false) true db = none ↔ 2 ^ 63 ≤ start.retainedBytes ∨
      2 ^ 63 ≤ start.pendingBytes ∨ start.pendingFiles = 0 ∧ 2 ^ 63 ≤ cfg.rotateSizeBytes) ∧
    ∀ out, rotateBatch fire cfg (fun _ => false) true db = some out →
      RotationSpec fire cfg db start (rotationOrder start) out.steps.length out := by
  intro start
  have hstart : start = reclaimOrphans db cfg.retentionPruneBatchSize := rfl
  have hvs : start.Valid := reclaimOrphans_valid hv _
  clear_value start
  simp only [rotateBatch, if_true, ← hstart, archiveFootprint]
  rcases Nat.lt_or_ge start.retainedBytes (2 ^ 63) with hret | hret
  swap
  · simp only [toBigint_of_le hret, Option.bind_none]
    exact ⟨iff_of_true trivial (.inl hret), fun out hout => by cases hout⟩
  rcases Nat.lt_or_ge start.pendingBytes (2 ^ 63) with hpend | hpend
  swap
  · simp only [toBigint_of_lt hret, toBigint_of_le hpend, Option.bind_some, Option.map_none,
      Option.bind_none]
    exact ⟨iff_of_true trivial (.inr (.inl hpend)), fun out hout => by cases hout⟩
  simp only [toBigint_of_lt hret, toBigint_of_lt hpend, Option.bind_some, Option.map_some]
  rcases Nat.eq_zero_or_pos start.pendingFiles with hfiles | hfiles
  swap
  · -- files wait for their removal
    rw [if_pos hfiles]
    refine ⟨iff_of_false (by simp) (by omega), fun out hout => ?_⟩
    obtain rfl := Option.some.inj hout
    exact spec_nothing hstart (by omega)
  rw [if_neg (by omega)]
  rcases Nat.lt_or_ge cfg.rotateSizeBytes (2 ^ 63) with hlimit | hlimit
  swap
  · simp only [toBigint_of_le hlimit, Option.bind_none]
    exact ⟨iff_of_true trivial (.inr (.inr ⟨hfiles, hlimit⟩)), fun out hout => by cases hout⟩
  simp only [toBigint_of_lt hlimit, Option.bind_some]
  rcases Nat.lt_or_ge cfg.rotateSizeBytes start.retainedBytes with hover | hunder
  swap
  · -- the archive fits
    rw [if_neg (by omega)]
    refine ⟨iff_of_false (by simp) (by omega), fun out hout => ?_⟩
    obtain rfl := Option.some.inj hout
    exact spec_nothing hstart fun _ => hunder
  rw [if_pos hover, List.map_take]
  have hperm := (List.perm_insertionSort Trace.Before start.traces).map Trace.id
  obtain ⟨steps, hsteps, hspec⟩ := rotateLoop_spec hfire cfg.rotateSizeBytes
    (((rotationOrder start).map Trace.id).take cfg.retentionPruneBatchSize) start hvs
    ((hperm.nodup_iff.mpr hvs.traceIds).sublist (List.take_sublist _ _))
    (fun id hid => hperm.mem_iff.mp (List.mem_of_mem_take hid)) hret
  rw [hsteps, Option.map_some]
  refine ⟨iff_of_false (by simp) (by omega), fun out hout => ?_⟩
  obtain rfl := Option.some.inj hout
  exact spec_loop hfire hvs hstart hfiles hover hspec

end

/-- Two traces share a segment, and the older one has one of its own. -/
def sampleArchive : Archive where
  traces := [failedAt 1 10, failedAt 2 20, failedAt 3 30]
  segments := [⟨7, 0, 100, .postgres, .blob 7⟩, ⟨8, 0, 40, .postgres, .blob 8⟩]
  records := [⟨1, 8, .request⟩, ⟨1, 7, .response⟩, ⟨2, 7, .request⟩, ⟨2, 7, .response⟩]
  deletions := ∅

/-- Deleting the first trace frees its own segment only; the shared one goes with the second. -/
theorem rotation_meets_spec_sample : ∃ out,
    rotateBatch id ⟨10, 50⟩ (fun _ => false) true sampleArchive = some out ∧
    out.steps.map RotateStep.size = [100, 0] ∧ out.db.retainedBytes ≤ 50 := by
  have hrun : (rotateBatch id ⟨10, 50⟩ (fun _ => false) true sampleArchive).map
      (fun out => out.steps.map RotateStep.size) = some [100, 0] := by
    decide +kernel
  obtain ⟨out, hout, hsizes⟩ := Option.map_eq_some_iff.mp hrun
  have hvalid : sampleArchive.Valid := ⟨by decide, by decide, by decide, by decide⟩
  have hspec := (rotation_meets_spec (fun rs => List.Perm.refl rs) ⟨10, 50⟩ sampleArchive
    hvalid).2 out hout
  have hlen : out.steps.length = 2 := by rw [← List.length_map, hsizes]; rfl
  refine ⟨out, hout, hsizes, (hspec.enough (by decide +kernel)).resolve_right ?_⟩
  rw [hlen]
  decide +kernel

end Llmtrace.Storage
