import Llmtrace.Storage.Rollup

/-! Age retention (`retention.rs`): a round of `prune_retention` is six batched deletions, and
    `RETENTION_STATUS_SQL` counts what is expired in the same six tables.

    Nothing else runs and the prune lock is free. What the database may choose, the order of the
    triggers and of rows that a statement does not order, is given to a round as `Orders`. Rounds are
    repeated until one deletes nothing. The two sides differ on one kind of row: the rollup row of a
    minute that begins before the cutoff and has a trace from after it.

                        cutoff
            |──── minute ──┼────────|
            bucket < cutoff│  × retained trace
        counted as expired, never deleted -/

namespace Llmtrace.Storage
open Schemes

/-- The six tables; of the last four only the key and the instant that retention looks at: `last_seen`,
    `created_at`, `expires_at`, `expires_at`. -/
structure RetentionDb where
  db : Db
  sessions : List (ℕ × ℤ)
  auditEvents : List (ℕ × ℤ)
  uiSessions : List (ℕ × ℤ)
  oauthStates : List (String × ℤ)

/-- The counts of `RETENTION_STATUS_SQL`, and of the rows that a round deletes. -/
structure RetentionCounts where
  requestTraces : ℕ
  traceRollupsMinute : ℕ
  traceSessions : ℕ
  uiAuditEvents : ℕ
  uiSessions : ℕ
  oauthStates : ℕ
  deriving DecidableEq

/-- `RetentionCounts::total_deleted` -/
def RetentionCounts.totalDeleted (n : RetentionCounts) : ℕ :=
  n.requestTraces + n.traceRollupsMinute + n.traceSessions + n.uiAuditEvents + n.uiSessions +
    n.oauthStates

/-- `NOT EXISTS (SELECT 1 FROM request_traces r WHERE r.session_id = s.id)` -/
def sessionUnused (traces : List Trace) (id : ℕ) : Bool :=
  traces.all fun t => decide (t.sessionId ≠ some id)

/-- `RETENTION_STATUS_SQL`; without a cutoff only sign-ins expire. -/
def retentionStatus (s : RetentionDb) (cutoff : Option ℤ) (now : ℤ) : RetentionCounts where
  requestTraces := cutoff.elim 0 fun c => s.db.traces.countP fun t => decide (t.startedAt < c)
  traceRollupsMinute := cutoff.elim 0 fun c => s.db.rollups.keys.countP fun b => decide (b < c)
  traceSessions := cutoff.elim 0 fun c =>
    s.sessions.countP fun r => decide (r.2 < c) && sessionUnused s.db.traces r.1
  uiAuditEvents := cutoff.elim 0 fun c => s.auditEvents.countP fun r => decide (r.2 < c)
  uiSessions := s.uiSessions.countP fun r => decide (r.2 < now)
  oauthStates := s.oauthStates.countP fun r => decide (r.2 < now)

/-! ### Deletions -/

section
variable {κ : Type}

/-- `ORDER BY expires_at ASC` -/
def byStamp (r r' : κ × ℤ) : Prop := r.2 ≤ r'.2

instance : DecidableRel (@byStamp κ) := fun _ _ => inferInstanceAs (Decidable (_ ≤ _))

/-- `ORDER BY created_at ASC, id ASC` -/
def byStampAndId (r r' : ℕ × ℤ) : Prop := r.2 < r'.2 ∨ r.2 = r'.2 ∧ r.1 ≤ r'.1

instance : DecidableRel byStampAndId := fun _ _ => inferInstanceAs (Decidable (_ ∨ _))

variable [DecidableEq κ]

/-- Deletes by key and counts the rows. -/
def deleteKeys (keys : List κ) (rows : List (κ × ℤ)) : List (κ × ℤ) × ℕ :=
  (rows.filter fun r => decide (r.1 ∉ keys), rows.countP fun r => decide (r.1 ∈ keys))

/-- The keys of the first `batch` rows that meet `p`, in `order`; `none` if that is no order the
    statement allows. -/
def selectDoomed (before : κ × ℤ → κ × ℤ → Prop) [DecidableRel before] (p : κ × ℤ → Bool) (batch : ℕ)
    (order rows : List (κ × ℤ)) : Option (List κ) :=
  if order.Perm (rows.filter p) ∧ order.Pairwise before then some ((order.take batch).map Prod.fst)
  else none

/-- The deletions of sign-ins and audit events: the oldest rows before a limit. -/
def deleteStampedBefore (before : κ × ℤ → κ × ℤ → Prop) [DecidableRel before] (limit : ℤ) (batch : ℕ)
    (order rows : List (κ × ℤ)) : Option (List (κ × ℤ) × ℕ) :=
  (selectDoomed before (fun r => decide (r.2 < limit)) batch order rows).map fun keys =>
    deleteKeys keys rows

end

/-- `delete_ui_audit_events_before` -/
def deleteUiAuditEventsBefore (cutoff : ℤ) (batch : ℕ) (order rows : List (ℕ × ℤ)) :=
  deleteStampedBefore byStampAndId cutoff batch order rows

/-- `delete_expired_ui_sessions` -/
def deleteExpiredUiSessions (now : ℤ) (batch : ℕ) (order rows : List (ℕ × ℤ)) :=
  deleteStampedBefore byStamp now batch order rows

/-- `delete_expired_oauth_states` -/
def deleteExpiredOauthStates (now : ℤ) (batch : ℕ) (order rows : List (String × ℤ)) :=
  deleteStampedBefore byStamp now batch order rows

/-- Selects the empty sessions, and deletes those of them that are still empty. -/
def deleteEmptySessionsBefore (traces : List Trace) (cutoff : ℤ) (batch : ℕ)
    (order rows : List (ℕ × ℤ)) : Option (List (ℕ × ℤ) × ℕ) :=
  (selectDoomed byStampAndId (fun r => decide (r.2 < cutoff) && sessionUnused traces r.1) batch order
    rows).map fun ids => deleteKeys (ids.filter (sessionUnused traces)) rows

/-! ### Rounds -/

/-- The orders that the database takes in one round. -/
structure Orders where
  fired : List Trace
  sessions : List (ℕ × ℤ)
  auditEvents : List (ℕ × ℤ)
  uiSessions : List (ℕ × ℤ)
  oauthStates : List (String × ℤ)

/-- The six deletions with the cutoff; the state after them and the rows each deleted itself. -/
def pruneTables (s : RetentionDb) (cutoff now : ℤ) (batch : ℕ) (o : Orders) :
    Option (RetentionDb × RetentionCounts) := do
  let db ← deleteRequestTracesBefore s.db cutoff batch o.fired
  let db' := deleteRollupsBefore db cutoff batch
  let (sessions, traceSessions) ←
    deleteEmptySessionsBefore db'.traces cutoff batch o.sessions s.sessions
  let (auditEvents, uiAuditEvents) ←
    deleteUiAuditEventsBefore cutoff batch o.auditEvents s.auditEvents
  let (uiSessions, expiredSessions) ← deleteExpiredUiSessions now batch o.uiSessions s.uiSessions
  let (oauthStates, expiredStates) ← deleteExpiredOauthStates now batch o.oauthStates s.oauthStates
  return (⟨db', sessions, auditEvents, uiSessions, oauthStates⟩, {
    requestTraces := o.fired.length
    traceRollupsMinute := db.rollups.size - db'.rollups.size
    traceSessions
    uiAuditEvents
    uiSessions := expiredSessions
    oauthStates := expiredStates })

/-- A day, in microseconds. -/
def day : ℤ := 1440 * minute

/-- `retention_cutoff` -/
def retentionCutoff (now retentionDays : ℤ) : ℤ := now - retentionDays * day

/-- `prune_retention` at `now`; `none` for orders that the database would not take. -/
def pruneRetention (s : RetentionDb) (now retentionDays batchSize : ℤ) (o : Orders) :
    Except String (Option (RetentionDb × RetentionCounts)) :=
  if retentionDays ≤ 0 then .error "retention_days must be greater than 0"
  else if batchSize ≤ 0 then .error "retention prune batch_size must be greater than 0"
  else .ok (pruneTables s (retentionCutoff now retentionDays) now batchSize.toNat o)

/-- A round that deletes `n` rows. -/
def PruneRound (now retentionDays batchSize : ℤ) (s : RetentionDb) (n : ℕ) (s' : RetentionDb) : Prop :=
  ∃ o counts, pruneRetention s now retentionDays batchSize o = .ok (some (s', counts)) ∧
    counts.totalDeleted = n

/-! ### What a prune should do -/

/-- The rows that a remaining trace needs are still there: each trace from the cutoff on, its session
    and its rollup. -/
structure KeepsRetained (cutoff : ℤ) (s s' : RetentionDb) : Prop where
  subset : ∀ t ∈ s'.db.traces, t ∈ s.db.traces
  traces : ∀ t ∈ s.db.traces, cutoff ≤ t.startedAt → t ∈ s'.db.traces
  sessions : ∀ t ∈ s'.db.traces, ∀ r ∈ s.sessions, t.sessionId = some r.1 → r ∈ s'.sessions
  rollups : ∀ t ∈ s'.db.traces, t.bucket ∈ s.db.rollups → t.bucket ∈ s'.db.rollups

/-- The rollups count at least the traces of their minute; ids are a primary key. -/
structure Counted (db : Db) : Prop where
  ids : (db.traces.map Trace.id).Nodup
  totals : ∀ b r, db.rollups.lookup b = some r → ((inMinute b db.traces).length : ℤ) ≤ r.counts .total

/-- No rollup row of before the cutoff has a trace from after it in its minute. -/
def NoneStraddles (db : Db) (cutoff : ℤ) : Prop :=
  ∀ b ∈ db.rollups, b < cutoff → ∀ t ∈ db.traces, inBucket b t = true → t.startedAt < cutoff

/-- The number of rows. -/
def RetentionDb.rows (s : RetentionDb) : ℕ :=
  s.db.traces.length + s.db.rollups.size + s.sessions.length + s.auditEvents.length +
    s.uiSessions.length + s.oauthStates.length

/-! ### Batches of stamped rows -/

section
variable {κ : Type} [DecidableEq κ] {before : κ × ℤ → κ × ℤ → Prop} [DecidableRel before]
  {p : κ × ℤ → Bool} {batch : ℕ} {order rows : List (κ × ℤ)} {keys : List κ}

theorem deleteKeys_length (keys : List κ) (rows : List (κ × ℤ)) :
    (deleteKeys keys rows).1.length + (deleteKeys keys rows).2 = rows.length := by
  have := List.length_eq_countP_add_countP (fun r : κ × ℤ => decide (r.1 ∈ keys)) (l := rows)
  simp only [deleteKeys, ← List.countP_eq_length_filter, decide_not, decide_eq_true_eq] at this ⊢
  omega

/-- Only rows of the statement are selected, and all of them where nothing is. -/
theorem selectDoomed_spec (h : selectDoomed before p batch order rows = some keys) :
    (∀ k ∈ keys, ∃ r ∈ rows, p r = true ∧ r.1 = k) ∧
    (0 < batch → keys = [] → ∀ r ∈ rows, p r = false) := by
  simp only [selectDoomed, Option.ite_none_right_eq_some, Option.some.injEq] at h
  obtain ⟨⟨hperm, -⟩, rfl⟩ := h
  constructor
  · intro k hk
    obtain ⟨r, hr, rfl⟩ := List.mem_map.mp hk
    obtain ⟨hmem, hp⟩ := List.mem_filter.mp (hperm.mem_iff.mp (List.mem_of_mem_take hr))
    exact ⟨r, hmem, hp, rfl⟩
  · intro hbatch hnil r hr
    by_contra hp
    have hin : r ∈ order := hperm.mem_iff.mpr (List.mem_filter.mpr ⟨hr, by simpa using hp⟩)
    rw [List.map_eq_nil_iff, List.take_eq_nil_iff] at hnil
    rcases hnil with hzero | hnil
    · omega
    · rw [hnil] at hin
      cases hin

/-- A deletion of keys that are there deletes something. -/
theorem deleteKeys_eq_zero (hkeys : ∀ k ∈ keys, ∃ r ∈ rows, r.1 = k)
    (hzero : (deleteKeys keys rows).2 = 0) : keys = [] := by
  refine List.eq_nil_iff_forall_not_mem.mpr fun k hk => ?_
  obtain ⟨r, hr, rfl⟩ := hkeys k hk
  exact List.countP_eq_zero.mp hzero r hr (by simpa using hk)

theorem deleteStampedBefore_spec {limit : ℤ} {kept : List (κ × ℤ)} {n : ℕ}
    (h : deleteStampedBefore before limit batch order rows = some (kept, n)) :
    kept.length + n = rows.length ∧ (0 < batch → n = 0 → ∀ r ∈ kept, limit ≤ r.2) := by
  simp only [deleteStampedBefore, Option.map_eq_some_iff] at h
  obtain ⟨keys, hkeys, hdelete⟩ := h
  obtain ⟨hthere, hall⟩ := selectDoomed_spec hkeys
  obtain ⟨rfl, rfl⟩ := Prod.mk.inj hdelete
  refine ⟨deleteKeys_length keys rows, fun hbatch hzero r hr => ?_⟩
  have hnil := deleteKeys_eq_zero (fun k hk => (hthere k hk).imp fun r hr => ⟨hr.1, hr.2.2⟩) hzero
  simpa using hall hbatch hnil r (List.mem_of_mem_filter hr)

variable (before) in
theorem exists_selectDoomed [Std.Total before] [IsTrans (κ × ℤ) before] (p : κ × ℤ → Bool) (batch : ℕ)
    (rows : List (κ × ℤ)) : ∃ order keys, selectDoomed before p batch order rows = some keys := by
  refine ⟨(rows.filter p).insertionSort before, _, if_pos ⟨?_, ?_⟩⟩
  · exact List.perm_insertionSort _ _
  · exact List.pairwise_insertionSort _ _

variable (before) in
theorem exists_deleteStampedBefore [Std.Total before] [IsTrans (κ × ℤ) before] (limit : ℤ)
    (batch : ℕ) (rows : List (κ × ℤ)) :
    ∃ order result, deleteStampedBefore before limit batch order rows = some result := by
  obtain ⟨order, keys, h⟩ := exists_selectDoomed before (fun r => decide (r.2 < limit)) batch rows
  exact ⟨order, _, by rw [deleteStampedBefore, h, Option.map_some]⟩

end

instance {κ : Type} : Std.Total (@byStamp κ) := ⟨fun r r' => le_total r.2 r'.2⟩

instance {κ : Type} : IsTrans (κ × ℤ) byStamp := ⟨fun _ _ _ h h' => le_trans h h'⟩

instance : Std.Total byStampAndId := ⟨fun r r' => by unfold byStampAndId; omega⟩

instance : IsTrans (ℕ × ℤ) byStampAndId := ⟨fun r r' r'' h h' => by unfold byStampAndId at *; omega⟩

/-- A session with a trace stays, and an empty one from before the cutoff is found. -/
theorem deleteEmptySessionsBefore_spec {traces : List Trace} {cutoff : ℤ} {batch : ℕ}
    {order rows kept : List (ℕ × ℤ)} {n : ℕ}
    (h : deleteEmptySessionsBefore traces cutoff batch order rows = some (kept, n)) :
    kept.length + n = rows.length ∧
    (∀ r ∈ rows, sessionUnused traces r.1 = false → r ∈ kept) ∧
    (0 < batch → n = 0 → ∀ r ∈ kept, r.2 < cutoff → sessionUnused traces r.1 = false) := by
  simp only [deleteEmptySessionsBefore, Option.map_eq_some_iff] at h
  obtain ⟨ids, hids, hdelete⟩ := h
  obtain ⟨hthere, hall⟩ := selectDoomed_spec hids
  obtain ⟨rfl, rfl⟩ := Prod.mk.inj hdelete
  -- nothing happens between the select and the recheck
  have hsame : ids.filter (sessionUnused traces) = ids := by
    refine List.filter_eq_self.mpr fun id hid => ?_
    obtain ⟨r, -, hp, rfl⟩ := hthere id hid
    exact (Bool.and_eq_true _ _ ▸ hp).2
  rw [hsame]
  refine ⟨deleteKeys_length ids rows, fun r hr hused => ?_, fun hbatch hzero r hr hlt => ?_⟩
  · refine List.mem_filter.mpr ⟨hr, decide_eq_true fun hin => ?_⟩
    obtain ⟨r', -, hp, heq⟩ := hthere r.1 hin
    simp [heq, hused] at hp
  · have hnil := deleteKeys_eq_zero (fun k hk => (hthere k hk).imp fun r hr => ⟨hr.1, hr.2.2⟩) hzero
    simpa [hlt] using hall hbatch hnil r (List.mem_of_mem_filter hr)

theorem exists_deleteEmptySessionsBefore (traces : List Trace) (cutoff : ℤ) (batch : ℕ)
    (rows : List (ℕ × ℤ)) :
    ∃ order result, deleteEmptySessionsBefore traces cutoff batch order rows = some result := by
  obtain ⟨order, ids, h⟩ := exists_selectDoomed byStampAndId
    (fun r => decide (r.2 < cutoff) && sessionUnused traces r.1) batch rows
  exact ⟨order, _, by rw [deleteEmptySessionsBefore, h, Option.map_some]⟩

/-! ### Traces and their rollups -/

/-- While a batch is being subtracted, a row counts at least the traces that stay and those still to
    be subtracted. -/
def Weighs (retained pending : List Trace) (rollups : Table ℤ Rollup) : Prop :=
  ∀ b r, rollups.lookup b = some r →
    ((inMinute b retained).length : ℤ) + (inMinute b pending).length ≤ r.counts .total

/-- What the triggers may do to the table: rows only go, and none of a minute that keeps a trace or has
    lost none. -/
structure Fired (retained gone : List Trace) (rollups rollups' : Table ℤ Rollup) : Prop where
  subset : ∀ b ∈ rollups', b ∈ rollups
  kept : ∀ b ∈ rollups, inMinute b retained ≠ [] ∨ inMinute b gone = [] → b ∈ rollups'
  size : rollups'.size ≤ rollups.size

theorem removeDeletedTrace_total {retained : List Trace} {r r' : Rollup} {t : Trace}
    (h : removeDeletedTrace retained r t = some r') : r.counts .total - 1 ≤ r'.counts .total := by
  simp only [removeDeletedTrace, Option.ite_none_left_eq_some, Option.some.injEq] at h
  obtain ⟨-, rfl⟩ := h
  exact le_max_right _ _

theorem removeDeletedTrace_none {retained : List Trace} {r : Rollup} {t : Trace}
    (h : removeDeletedTrace retained r t = none) : r.counts .total ≤ 1 := by
  simp only [removeDeletedTrace, ite_eq_left_iff, reduceCtorEq, imp_false, not_not] at h
  have := le_max_right 0 (t.subtracted (r.counts .total) .total)
  simp only [Trace.subtracted] at h this
  omega

/-- One trigger. -/
theorem fire_weighs {retained pending : List Trace} {t : Trace} {rollups : Table ℤ Rollup}
    (h : Weighs retained (t :: pending) rollups) :
    Weighs retained pending (removeDeletedTraceFromRollup retained rollups t) ∧
    Fired retained [t] rollups (removeDeletedTraceFromRollup retained rollups t) := by
  have hother {b : ℤ} (hb : b ≠ t.bucket) : inMinute b (t :: pending) = inMinute b pending :=
    inMinute_cons_ne (Ne.symm hb) pending
  cases hrow : rollups.lookup t.bucket with
  | none =>
    simp only [removeDeletedTraceFromRollup, hrow]
    refine ⟨fun b r hb => ?_, fun b hb => hb, fun b hb _ => hb, le_refl _⟩
    have hne : b ≠ t.bucket := by
      rintro rfl
      rw [hrow] at hb
      cases hb
    have := h b r hb
    rwa [hother hne] at this
  | some r =>
    have hr := h t.bucket r hrow
    rw [inMinute_cons_self, List.length_cons] at hr
    cases hrem : removeDeletedTrace retained r t with
    | none =>
      simp only [removeDeletedTraceFromRollup, hrow, hrem]
      have hle := removeDeletedTrace_none hrem
      refine ⟨fun b r' hb => ?_, fun b hb => (AList.mem_erase.mp hb).2, fun b hb hkeep => ?_, ?_⟩
      · obtain ⟨hne, hb⟩ := Table.lookup_of_erase hb
        have := h b r' hb
        rwa [hother hne] at this
      · refine AList.mem_erase.mpr ⟨?_, hb⟩
        -- the row that goes counted one trace, the one deleted
        rintro rfl
        rcases hkeep with hkeep | hkeep
        · have := List.length_pos_iff.mpr hkeep
          push_cast at hr
          omega
        · rw [inMinute_cons_self] at hkeep
          cases hkeep
      · have := Table.size_erase hrow
        omega
    | some r' =>
      simp only [removeDeletedTraceFromRollup, hrow, hrem]
      have hle := removeDeletedTrace_total hrem
      refine ⟨fun b r'' hb => ?_, fun b hb => ?_, fun b hb _ => (AList.mem_insert _).mpr (.inr hb),
        (Table.size_replace r' hrow).le⟩
      · rcases Table.lookup_insert_cases hb with ⟨rfl, rfl⟩ | ⟨hne, hb⟩
        · push_cast at hr
          omega
        · have := h b r'' hb
          rwa [hother hne] at this
      · rcases (AList.mem_insert _).mp hb with rfl | hb
        · exact Table.mem_of_lookup hrow
        · exact hb

theorem foldl_weighs {retained : List Trace} : ∀ (batch : List Trace) {rollups : Table ℤ Rollup},
    Weighs retained batch rollups →
    Weighs retained [] (batch.foldl (removeDeletedTraceFromRollup retained) rollups) ∧
    Fired retained batch rollups (batch.foldl (removeDeletedTraceFromRollup retained) rollups)
  | [], rollups, h => ⟨h, fun _ hb => hb, fun _ hb _ => hb, le_refl _⟩
  | t :: batch, rollups, h => by
    obtain ⟨hw, hfired⟩ := fire_weighs h
    obtain ⟨hlast, hrest⟩ := foldl_weighs batch hw
    refine ⟨hlast, fun b hb => hfired.subset b (hrest.subset b hb), fun b hb hkeep => ?_,
      hrest.size.trans hfired.size⟩
    rw [← List.singleton_append, inMinute_append, List.append_eq_nil_iff] at hkeep
    exact hrest.kept b (hfired.kept b hb (hkeep.imp_right And.left)) (hkeep.imp_right And.right)

/-- The batch of traces: nothing from the cutoff on goes, and all that is older is found. -/
theorem deleteRequestTracesBefore_spec {db db' : Db} {cutoff : ℤ} {batch : ℕ} {fired : List Trace}
    (hdb : Counted db) (h : deleteRequestTracesBefore db cutoff batch fired = some db') :
    Counted db' ∧ (∀ t ∈ db'.traces, t ∈ db.traces) ∧
    (∀ t ∈ db.traces, cutoff ≤ t.startedAt → t ∈ db'.traces) ∧
    db'.traces.length + fired.length = db.traces.length ∧
    (0 < batch → fired = [] → ∀ t ∈ db.traces, cutoff ≤ t.startedAt) ∧
    Fired db'.traces fired db.rollups db'.rollups := by
  simp only [deleteRequestTracesBefore, deleteTraces, Option.ite_none_right_eq_some,
    Option.some.injEq] at h
  obtain ⟨hperm, ⟨hnodup, hsub⟩, rfl⟩ := h
  have hsplit := perm_retainedAfter hdb.ids hnodup hsub
  have hdoomed : ∀ t ∈ fired, t.startedAt < cutoff := by
    intro t ht
    have hmem := (List.mem_insertionSort _).mp (List.mem_of_mem_take (hperm.mem_iff.mp ht))
    simpa using (List.mem_filter.mp hmem).2
  have hstart : Weighs (retainedAfter db fired) fired db.rollups := by
    intro b r hb
    have hcount := (inMinute_perm hsplit b).length_eq
    rw [inMinute_append, List.length_append] at hcount
    have := hdb.totals b r hb
    omega
  obtain ⟨hlast, hfired⟩ := foldl_weighs fired hstart
  refine ⟨⟨hdb.ids.sublist (List.filter_sublist.map _), fun b r hb => ?_⟩,
    fun t ht => List.mem_of_mem_filter ht, fun t ht hle => ?_, ?_, fun hbatch hnil t ht => ?_, hfired⟩
  · have := hlast b r hb
    simpa [inMinute] using this
  · refine List.mem_filter.mpr ⟨ht, decide_eq_true fun hin => ?_⟩
    have := hdoomed t hin
    omega
  · rw [hsplit.length_eq, List.length_append]
  · by_contra hlt
    have hin : t ∈ (db.traces.filter fun t => decide (t.startedAt < cutoff)).insertionSort
        Trace.Before :=
      (List.mem_insertionSort _).mpr (List.mem_filter.mpr ⟨ht, by simpa using hlt⟩)
    rw [hnil, doomed, List.nil_perm, List.take_eq_nil_iff] at hperm
    rcases hperm with hzero | hempty
    · omega
    · rw [hempty] at hin
      cases hin

theorem exists_deleteRequestTracesBefore {db : Db} (hids : (db.traces.map Trace.id).Nodup) (cutoff : ℤ)
    (batch : ℕ) : ∃ fired db', deleteRequestTracesBefore db cutoff batch fired = some db' := by
  have hnodup : (doomed db.traces cutoff batch).Nodup := by
    refine List.Nodup.sublist (List.take_sublist _ _) ?_
    exact (List.perm_insertionSort _ _).nodup_iff.mpr ((hids.of_map).filter _)
  have hsub : ∀ t ∈ doomed db.traces cutoff batch, t ∈ db.traces := fun t ht =>
    List.mem_of_mem_filter ((List.mem_insertionSort _).mp (List.mem_of_mem_take ht))
  exact ⟨doomed db.traces cutoff batch, _,
    (if_pos (List.Perm.refl _)).trans (if_pos ⟨hnodup, hsub⟩)⟩

/-! ### The rollup cleaner -/

theorem mem_eraseAll {b : ℤ} : ∀ {keys : List ℤ} {rollups : Table ℤ Rollup},
    b ∈ keys.foldl (fun rs b => rs.erase b) rollups ↔ b ∈ rollups ∧ b ∉ keys
  | [], rollups => by simp
  | k :: keys, rollups => by
    rw [List.foldl_cons, mem_eraseAll, AList.mem_erase, List.mem_cons]
    tauto

theorem lookup_eraseAll {b : ℤ} : ∀ {keys : List ℤ} {rollups : Table ℤ Rollup}, b ∉ keys →
    (keys.foldl (fun rs b => rs.erase b) rollups).lookup b = rollups.lookup b
  | [], _, _ => rfl
  | k :: keys, rollups, h => by
    obtain ⟨hk, hkeys⟩ := not_or.mp (mt List.mem_cons.mpr h)
    rw [List.foldl_cons, lookup_eraseAll hkeys, AList.lookup_erase_ne hk]

theorem size_eraseAll (keys : List ℤ) : ∀ (rollups : Table ℤ Rollup),
    (keys.foldl (fun rs b => rs.erase b) rollups).size ≤ rollups.size ∧
    ((∃ b ∈ keys, b ∈ rollups) →
      (keys.foldl (fun rs b => rs.erase b) rollups).size < rollups.size) := by
  induction keys with
  | nil => simp
  | cons k keys ih =>
    intro rollups
    obtain ⟨hle, hlt⟩ := ih (rollups.erase k)
    rw [List.foldl_cons]
    by_cases hk : k ∈ rollups
    · obtain ⟨r, hr⟩ := Table.lookup_of_mem hk
      have := Table.size_erase hr
      exact ⟨by omega, fun _ => by omega⟩
    · have hsame : Table.size (rollups.erase k) = rollups.size := by
        rw [Table.size_eq_total, Table.size_eq_total, Table.total_erase_of_notMem _ hk]
      refine ⟨by omega, ?_⟩
      rintro ⟨b, hb, hmem⟩
      have hne : b ≠ k := fun heq => hk (heq ▸ hmem)
      rw [← hsame]
      exact hlt ⟨b, (List.mem_cons.mp hb).resolve_left hne, AList.mem_erase.mpr ⟨hne, hmem⟩⟩

/-- A row whose minute has a trace stays, and an empty one from before the cutoff is found. -/
theorem deleteRollupsBefore_spec (db : Db) (cutoff : ℤ) (batch : ℕ) :
    (deleteRollupsBefore db cutoff batch).traces = db.traces ∧
    (∀ b r, (deleteRollupsBefore db cutoff batch).rollups.lookup b = some r →
      db.rollups.lookup b = some r) ∧
    (∀ b ∈ db.rollups, db.traces.any (inBucket b) = true →
      b ∈ (deleteRollupsBefore db cutoff batch).rollups) ∧
    (deleteRollupsBefore db cutoff batch).rollups.size ≤ db.rollups.size ∧
    (0 < batch → db.rollups.size - (deleteRollupsBefore db cutoff batch).rollups.size = 0 →
      ∀ b ∈ db.rollups, b < cutoff → db.traces.any (inBucket b) = true) := by
  set unused := fun b => !db.traces.any (inBucket b) with hunused
  set candidates := (db.rollups.keys.filter fun b => decide (b < cutoff) && unused b).insertionSort
    (· ≤ ·) with hcandidates
  have hmem {b : ℤ} : b ∈ candidates ↔ b ∈ db.rollups ∧ b < cutoff ∧ unused b = true := by
    rw [hcandidates, List.mem_insertionSort, List.mem_filter, AList.mem_keys, Bool.and_eq_true,
      decide_eq_true_eq]
  have hdef : (deleteRollupsBefore db cutoff batch).rollups =
      ((candidates.take batch).filter unused).foldl (fun rs b => rs.erase b) db.rollups := rfl
  obtain ⟨hle, hlt⟩ := size_eraseAll ((candidates.take batch).filter unused) db.rollups
  rw [hdef]
  refine ⟨rfl, fun b r hb => ?_, fun b hb hused => ?_, hle, fun hbatch hzero b hb hcut => ?_⟩
  · have hin := Table.mem_of_lookup hb
    rwa [lookup_eraseAll (mem_eraseAll.mp hin).2] at hb
  · refine mem_eraseAll.mpr ⟨hb, fun hin => ?_⟩
    have := (List.mem_filter.mp hin).2
    simp [hunused, hused] at this
  · -- the first candidate would be deleted
    by_contra hempty
    have hb' : b ∈ candidates := hmem.mpr ⟨hb, hcut, by simp [hunused, hempty]⟩
    obtain ⟨first, rest, hcons⟩ := List.exists_cons_of_ne_nil (List.ne_nil_of_mem hb')
    obtain ⟨hfirst, -, hfree⟩ := hmem.mp (hcons ▸ List.mem_cons_self : first ∈ candidates)
    have htaken : first ∈ candidates.take batch := by
      obtain ⟨n, rfl⟩ := Nat.exists_eq_add_of_lt hbatch
      rw [hcons, Nat.zero_add, List.take_succ_cons]
      exact List.mem_cons_self
    have := hlt ⟨first, List.mem_filter.mpr ⟨htaken, hfree⟩, hfirst⟩
    omega

/-! ### One round -/

/-- The rollup row that a trace falls into is the one of its bucket, or one that no trace is counted
    in. -/
theorem inBucket_cases {b : ℤ} {t : Trace} (h : inBucket b t = true) :
    t.bucket = b ∨ ∀ u : Trace, u.bucket ≠ b := by
  by_cases hb : dateTruncMinute b = b
  · left
    rw [← hb, inBucket_dateTruncMinute, decide_eq_true_eq] at h
    exact h.trans hb
  · right
    rintro u rfl
    exact hb (by simp only [Trace.bucket, dateTruncMinute, minute]; omega)

theorem inMinute_eq_nil {b : ℤ} (h : ∀ u : Trace, u.bucket ≠ b) (ts : List Trace) :
    inMinute b ts = [] := by
  refine List.filter_eq_nil_iff.mpr fun u _ => ?_
  simpa using h u

/-- What a round leaves and what it may take. -/
structure Pruned (cutoff now : ℤ) (n : ℕ) (s s' : RetentionDb) : Prop where
  counted : Counted s'.db
  keeps : KeepsRetained cutoff s s'
  rollups_subset : ∀ b ∈ s'.db.rollups, b ∈ s.db.rollups
  straddling : ∀ b ∈ s.db.rollups, ∀ t ∈ s'.db.traces, inBucket b t = true → b ∈ s'.db.rollups
  rows : s'.rows + n ≤ s.rows
  finished : n = 0 → (∀ t ∈ s'.db.traces, cutoff ≤ t.startedAt) ∧
    (∀ b ∈ s'.db.rollups, b < cutoff → s'.db.traces.any (inBucket b) = true) ∧
    (∀ r ∈ s'.sessions, r.2 < cutoff → sessionUnused s'.db.traces r.1 = false) ∧
    (∀ r ∈ s'.auditEvents, cutoff ≤ r.2) ∧ (∀ r ∈ s'.uiSessions, now ≤ r.2) ∧
    ∀ r ∈ s'.oauthStates, now ≤ r.2

theorem sessionUnused_of_mem {traces : List Trace} {t : Trace} {id : ℕ} (ht : t ∈ traces)
    (hid : t.sessionId = some id) : sessionUnused traces id = false := by
  rw [sessionUnused, List.all_eq_false]
  exact ⟨t, ht, by simp [hid]⟩

theorem pruneTables_spec {s s' : RetentionDb} {cutoff now : ℤ} {batch : ℕ} {o : Orders}
    {counts : RetentionCounts} (hbatch : 0 < batch) (hs : Counted s.db)
    (h : pruneTables s cutoff now batch o = some (s', counts)) :
    Pruned cutoff now counts.totalDeleted s s' := by
  simp only [pruneTables, Option.bind_eq_bind, Option.bind_eq_some_iff, Prod.exists, Option.pure_def,
    Option.some.injEq, Prod.mk.injEq] at h
  obtain ⟨db, htraces, sessions, n₃, hsessions, audit, n₄, haudit, ui, n₅, hui, oauth, n₆, hoauth, rfl,
    rfl⟩ := h
  obtain ⟨hcounted, hsub, hkeep, hlength, hfound, hfired⟩ := deleteRequestTracesBefore_spec hs htraces
  obtain ⟨hsame, hlookup, hused, hsize, hempty⟩ := deleteRollupsBefore_spec db cutoff batch
  obtain ⟨hlen₃, hkept₃, hfound₃⟩ := deleteEmptySessionsBefore_spec hsessions
  obtain ⟨hlen₄, hfound₄⟩ := deleteStampedBefore_spec haudit
  obtain ⟨hlen₅, hfound₅⟩ := deleteStampedBefore_spec hui
  obtain ⟨hlen₆, hfound₆⟩ := deleteStampedBefore_spec hoauth
  rw [hsame] at hkept₃ hfound₃
  have hsubset : ∀ b ∈ (deleteRollupsBefore db cutoff batch).rollups, b ∈ db.rollups := by
    intro b hb
    obtain ⟨r, hr⟩ := Table.lookup_of_mem hb
    exact Table.mem_of_lookup (hlookup b r hr)
  have hstraddling : ∀ b ∈ s.db.rollups, ∀ t ∈ db.traces, inBucket b t = true →
      b ∈ (deleteRollupsBefore db cutoff batch).rollups := by
    intro b hb t ht hin
    refine hused b (hfired.kept b hb ?_) (List.any_eq_true.mpr ⟨t, ht, hin⟩)
    rcases inBucket_cases hin with rfl | hnone
    · exact .inl (List.ne_nil_of_mem (mem_inMinute.mpr ⟨ht, rfl⟩))
    · exact .inr (inMinute_eq_nil hnone _)
  constructor
  case counted => exact ⟨hsame ▸ hcounted.ids, fun b r hb => hsame ▸ hcounted.totals b r (hlookup b r hb)⟩
  case keeps =>
    constructor
    case subset => exact fun t ht => hsub t (hsame ▸ ht)
    case traces => exact fun t ht hle => hsame ▸ hkeep t ht hle
    case sessions =>
      exact fun t ht r hr hid => hkept₃ r hr (sessionUnused_of_mem (hsame ▸ ht) hid)
    case rollups => exact fun t ht hb => hstraddling t.bucket hb t (hsame ▸ ht) (inBucket_self t)
  case rollups_subset => exact fun b hb => hfired.subset b (hsubset b hb)
  case straddling => exact fun b hb t ht hin => hstraddling b hb t (hsame ▸ ht) hin
  case rows =>
    have := hfired.size
    simp only [RetentionDb.rows, RetentionCounts.totalDeleted, hsame]
    omega
  case finished =>
    intro hzero
    simp only [RetentionCounts.totalDeleted, Nat.add_eq_zero_iff] at hzero
    obtain ⟨⟨⟨⟨⟨h₁, h₂⟩, h₃⟩, h₄⟩, h₅⟩, h₆⟩ := hzero
    simp only [hsame]
    refine ⟨fun t ht => hfound hbatch (List.length_eq_zero_iff.mp h₁) t (hsub t ht),
      fun b hb hlt => hempty hbatch h₂ b (hsubset b hb) hlt, hfound₃ hbatch h₃, hfound₄ hbatch h₄,
      hfound₅ hbatch h₅, hfound₆ hbatch h₆⟩

theorem exists_pruneTables {s : RetentionDb} (hs : Counted s.db) (cutoff now : ℤ) (batch : ℕ) :
    ∃ o result, pruneTables s cutoff now batch o = some result := by
  obtain ⟨fired, db, htraces⟩ := exists_deleteRequestTracesBefore hs.ids cutoff batch
  obtain ⟨o₃, r₃, h₃⟩ := exists_deleteEmptySessionsBefore
    (deleteRollupsBefore db cutoff batch).traces cutoff batch s.sessions
  obtain ⟨o₄, r₄, h₄⟩ := exists_deleteStampedBefore byStampAndId cutoff batch s.auditEvents
  obtain ⟨o₅, r₅, h₅⟩ := exists_deleteStampedBefore byStamp now batch s.uiSessions
  obtain ⟨o₆, r₆, h₆⟩ := exists_deleteStampedBefore byStamp now batch s.oauthStates
  refine ⟨⟨fired, o₃, o₄, o₅, o₆⟩, Option.isSome_iff_exists.mp ?_⟩
  simp [pruneTables, htraces, h₃, deleteUiAuditEventsBefore, h₄, deleteExpiredUiSessions, h₅,
    deleteExpiredOauthStates, h₆]

/-! ### Rounds until nothing is deleted -/

section
variable {s s' s'' : RetentionDb} {cutoff now retentionDays batchSize : ℤ} {n : ℕ}

theorem pruneRetention_eq (hdays : 0 < retentionDays) (hbatch : 0 < batchSize) (s : RetentionDb)
    (now : ℤ) (o : Orders) : pruneRetention s now retentionDays batchSize o =
      .ok (pruneTables s (retentionCutoff now retentionDays) now batchSize.toNat o) := by
  rw [pruneRetention, if_neg (by omega), if_neg (by omega)]

theorem PruneRound.pruned (hdays : 0 < retentionDays) (hbatch : 0 < batchSize) (hs : Counted s.db)
    (h : PruneRound now retentionDays batchSize s n s') :
    Pruned (retentionCutoff now retentionDays) now n s s' := by
  obtain ⟨o, counts, hprune, rfl⟩ := h
  rw [pruneRetention_eq hdays hbatch, Except.ok.injEq] at hprune
  exact pruneTables_spec (by omega) hs hprune

theorem exists_pruneRound (hdays : 0 < retentionDays) (hbatch : 0 < batchSize) (hs : Counted s.db) :
    ∃ n s', PruneRound now retentionDays batchSize s n s' := by
  obtain ⟨o, ⟨s', counts⟩, h⟩ :=
    exists_pruneTables hs (retentionCutoff now retentionDays) now batchSize.toNat
  exact ⟨counts.totalDeleted, s', o, counts, by rw [pruneRetention_eq hdays hbatch, h], rfl⟩

theorem KeepsRetained.trans (h : KeepsRetained cutoff s s') (h' : KeepsRetained cutoff s' s'') :
    KeepsRetained cutoff s s'' where
  subset t ht := h.subset t (h'.subset t ht)
  traces t ht hle := h'.traces t (h.traces t ht hle) hle
  sessions t ht r hr hid := h'.sessions t ht r (h.sessions t (h'.subset t ht) r hr hid) hid
  rollups t ht hb := h'.rollups t ht (h.rollups t (h'.subset t ht) hb)

/-- What all rounds together do: besides `KeepsRetained`, no rollup row appears, and a row stays as
    long as a trace falls into its minute. -/
structure PrunedTo (cutoff : ℤ) (s s' : RetentionDb) : Prop where
  keeps : KeepsRetained cutoff s s'
  rollups_subset : ∀ b ∈ s'.db.rollups, b ∈ s.db.rollups
  straddling : ∀ b ∈ s.db.rollups, ∀ t ∈ s'.db.traces, inBucket b t = true → b ∈ s'.db.rollups

theorem PrunedTo.trans (h : PrunedTo cutoff s s') (h' : PrunedTo cutoff s' s'') : PrunedTo cutoff s s'' where
  keeps := h.keeps.trans h'.keeps
  rollups_subset b hb := h.rollups_subset b (h'.rollups_subset b hb)
  straddling b hb t ht hin :=
    h'.straddling b (h.straddling b hb t (h'.keeps.subset t ht) hin) t ht hin

/-- RUN: from a state whose rollups count their traces, the rounds end, and what they leave has
    nothing that the deletions take for expired. -/
theorem drains_prunedTo (hdays : 0 < retentionDays) (hbatch : 0 < batchSize) (hs : Counted s.db)
    (h : Drains (PruneRound now retentionDays batchSize) s s') :
    PrunedTo (retentionCutoff now retentionDays) s s' ∧
    ∃ t, Pruned (retentionCutoff now retentionDays) now 0 t s' := by
  have hround : ∀ s n s', Counted s.db → PruneRound now retentionDays batchSize s n s' →
      Counted s'.db ∧ PrunedTo (retentionCutoff now retentionDays) s s' := by
    intro s n s' hs hround
    have hpruned := hround.pruned hdays hbatch hs
    exact ⟨hpruned.counted, hpruned.keeps, hpruned.rollups_subset, hpruned.straddling⟩
  obtain ⟨hall, t, ht, hlast⟩ := h.rule hround (fun _ _ _ => PrunedTo.trans) hs
  exact ⟨hall, t, hlast.pruned hdays hbatch ht⟩

theorem round_rows (hdays : 0 < retentionDays) (hbatch : 0 < batchSize) (s : RetentionDb) (n : ℕ)
    (s' : RetentionDb) (hs : Counted s.db) (h : PruneRound now retentionDays batchSize s n s') :
    Counted s'.db ∧ s'.rows + n ≤ s.rows :=
  ⟨(h.pruned hdays hbatch hs).counted, (h.pruned hdays hbatch hs).rows⟩

/-- A row that a retained trace falls into is left, and counted as expired. -/
theorem straddling_counted (hdays : 0 < retentionDays) (hbatch : 0 < batchSize) (hs : Counted s.db)
    (h : Drains (PruneRound now retentionDays batchSize) s s') {b : ℤ} {t : Trace}
    (hb : b ∈ s.db.rollups) (hlt : b < retentionCutoff now retentionDays) (ht : t ∈ s.db.traces)
    (hin : inBucket b t = true) (hle : retentionCutoff now retentionDays ≤ t.startedAt) :
    (retentionStatus s' (some (retentionCutoff now retentionDays)) now).traceRollupsMinute ≠ 0 := by
  obtain ⟨hall, -⟩ := drains_prunedTo hdays hbatch hs h
  have hleft := hall.straddling b hb t (hall.keeps.traces t ht hle) hin
  intro hzero
  have := List.countP_eq_zero.mp hzero b (AList.mem_keys.mp hleft)
  simp [hlt] at this

theorem status_eq_zero (hdays : 0 < retentionDays) (hbatch : 0 < batchSize) (hs : Counted s.db)
    (h : Drains (PruneRound now retentionDays batchSize) s s')
    (hnone : NoneStraddles s.db (retentionCutoff now retentionDays)) :
    retentionStatus s' (some (retentionCutoff now retentionDays)) now = ⟨0, 0, 0, 0, 0, 0⟩ := by
  obtain ⟨hall, t, hlast⟩ := drains_prunedTo hdays hbatch hs h
  obtain ⟨htraces, hrollups, hsessions, haudit, hui, hoauth⟩ := hlast.finished rfl
  simp only [retentionStatus, Option.elim_some, RetentionCounts.mk.injEq, List.countP_eq_zero,
    Bool.and_eq_true, decide_eq_true_eq, not_and, not_lt, Bool.not_eq_true]
  refine ⟨htraces, fun b hb => ?_, hsessions, haudit, hui, hoauth⟩
  by_contra hlt
  -- the deletion spared the row for a trace, which was there from the start
  have hb := AList.mem_keys.mpr hb
  obtain ⟨u, hu, hin⟩ := List.any_eq_true.mp (hrollups b hb (not_le.mp hlt))
  have := hnone b (hall.rollups_subset b hb) (not_le.mp hlt) u (hall.keeps.subset u hu) hin
  exact absurd (htraces u hu) (not_le.mpr this)

end

/-- EXACT: the rounds always end, without an endless sequence that keeps deleting, and take nothing
    that a remaining trace needs; what they leave is counted as expired nowhere exactly when no rollup
    row from before the cutoff has a trace from after it. -/
theorem finished_prune_leaves_nothing_iff (s : RetentionDb) (hs : Counted s.db)
    (now retentionDays batchSize : ℤ) (hdays : 0 < retentionDays) (hbatch : 0 < batchSize) :
    ((∃ s', Drains (PruneRound now retentionDays batchSize) s s') ∧
      (∀ f : ℕ → RetentionDb, f 0 = s →
        ¬ ∀ i, ∃ n, 0 < n ∧ PruneRound now retentionDays batchSize (f i) n (f (i + 1))) ∧
      ∀ s', Drains (PruneRound now retentionDays batchSize) s s' →
        KeepsRetained (retentionCutoff now retentionDays) s s' ∧
        retentionStatus s' (some (retentionCutoff now retentionDays)) now = ⟨0, 0, 0, 0, 0, 0⟩) ↔
    NoneStraddles s.db (retentionCutoff now retentionDays) := by
  constructor
  · rintro ⟨⟨s', hs'⟩, -, hall⟩ b hb hlt t ht hin
    by_contra hle
    refine straddling_counted hdays hbatch hs hs' hb hlt ht hin (not_lt.mp hle) ?_
    rw [(hall s' hs').2]
  · intro hnone
    refine ⟨exists_drains (round_rows hdays hbatch) (fun _ => exists_pruneRound hdays hbatch) hs,
      fun f hf => ?_, fun s' hs' => ⟨(drains_prunedTo hdays hbatch hs hs').1.keeps,
        status_eq_zero hdays hbatch hs hs' hnone⟩⟩
    exact no_endless_rounds (round_rows hdays hbatch) (hf ▸ hs)

/-- A database whose rollups are those of its traces counts them. -/
theorem Matches.counted {db : Db} (h : Matches db) : Counted db := by
  refine ⟨h.ids, fun b r hb => ?_⟩
  rw [h.view] at hb
  rw [(rollupOf_eq_some.mp hb).2]
  exact le_refl _

/-- One trace of the first minute, and its rollup. -/
def oneFailure : RetentionDb where
  db := (insertTrace .empty (failedAt 1 10)).getD .empty
  sessions := []
  auditEvents := []
  uiSessions := []
  oauthStates := []

theorem oneFailure_counted : Counted oneFailure.db :=
  (insertTrace_matches .empty (show insertTrace .empty (failedAt 1 10) = _ from rfl)).counted

/-- A day and a minute later the trace and its row have expired together. -/
theorem finished_prune_leaves_nothing_iff_later :
    NoneStraddles oneFailure.db (retentionCutoff (day + minute) 1) ∧
    ∀ s', Drains (PruneRound (day + minute) 1 10) oneFailure s' →
      KeepsRetained minute oneFailure s' ∧
      retentionStatus s' (some minute) (day + minute) = ⟨0, 0, 0, 0, 0, 0⟩ := by
  have hnone : NoneStraddles oneFailure.db (retentionCutoff (day + minute) 1) := by
    intro b _ _ t ht _
    rw [List.mem_singleton.mp ht]
    decide
  exact ⟨hnone, ((finished_prune_leaves_nothing_iff oneFailure oneFailure_counted (day + minute) 1 10
    (by decide) (by decide)).mpr hnone).2.2⟩

/-- A day and five milliseconds after the minute began the trace is retained; its row is left, and
    counted as expired. -/
theorem straddled_minute_counted :
    Counted oneFailure.db ∧ (∃ s', Drains (PruneRound (day + 5000) 1 10) oneFailure s') ∧
    ∀ s', Drains (PruneRound (day + 5000) 1 10) oneFailure s' →
      retentionStatus s' (some (retentionCutoff (day + 5000) 1)) (day + 5000) ≠ ⟨0, 0, 0, 0, 0, 0⟩ := by
  refine ⟨oneFailure_counted, exists_drains (round_rows (by decide) (by decide))
    (fun _ => exists_pruneRound (by decide) (by decide)) oneFailure_counted, fun s' hs' hzero => ?_⟩
  refine straddling_counted (b := 0) (t := failedAt 1 10) (by decide) (by decide) oneFailure_counted hs'
    ?_ (by decide) List.mem_cons_self (by decide) (by decide) ?_
  · exact AList.mem_keys.mpr List.mem_cons_self
  · rw [hzero]

end Llmtrace.Storage
