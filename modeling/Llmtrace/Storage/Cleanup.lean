import Llmtrace.Schemes.Run
import Llmtrace.Storage.Transactions

/-! Cleanup never orphans a concurrent insert.

    `request_traces.session_id` has no foreign key. What keeps it true is the order of locks: a
    writer holds its session row and its rollup row until it commits, a cleaner deletes only rows it
    holds, and it looks for traces after it has them. So every version of a row, committed or held,
    is right for some list of traces: the committed ones, or those its holder will leave. -/

namespace Llmtrace.Storage
open Schemes

/-! ### What a row owes to a list of traces -/

/-- The session row `r` stands for trace `t`. -/
structure Covers (r : Session) (t : Trace) : Prop where
  id : t.sessionId = some r.id
  first : r.firstSeen ≤ t.startedAt
  last : t.finishedAt ≤ r.lastSeen

/-- A session with requests has a row that covers them. -/
def SessionOk (ts : List Trace) (key : String) (row : Option Session) : Prop :=
  ∀ t ∈ ts, t.sessionKey = some key → ∃ r, row = some r ∧ Covers r t

/-- The row of a minute counts its requests, and is there exactly when there are some. -/
def RollupOk (ts : List Trace) (b : ℤ) : Option Rollup → Prop
  | none => inMinute b ts = []
  | some r => inMinute b ts ≠ [] ∧ ∀ c, r.counts c = aggregate (inMinute b ts) c

theorem SessionOk.mono {ts us : List Trace} {key : String} {row : Option Session}
    (h : SessionOk ts key row) (hsub : ∀ t ∈ us, t.sessionKey = some key → t ∈ ts) :
    SessionOk us key row :=
  fun t ht hk => h t (hsub t ht hk) hk

theorem RollupOk.congr {ts us : List Trace} {b : ℤ} {row : Option Rollup}
    (h : RollupOk ts b row) (heq : inMinute b us = inMinute b ts) : RollupOk us b row := by
  cases row with
  | none => exact heq.trans h
  | some r => exact ⟨heq ▸ h.1, fun c => heq ▸ h.2 c⟩

/-- The committed traces with what transaction `tx` adds to its session. -/
def Tx.linked (tx : Tx) (ts : List Trace) : List Trace :=
  match tx with
  | .writer w => if w.stage = .begun then ts else w.trace :: ts
  | _ => ts

/-- The writer has counted its trace. -/
def Writer.isCounted (w : Writer) : Bool := decide (w.stage = .counted) || decide (w.stage = .noted)

/-- The committed traces with what transaction `tx` has counted in its rollups. -/
def Tx.counted (tx : Tx) (ts : List Trace) : List Trace :=
  match tx with
  | .writer w => if w.isCounted then w.trace :: ts else ts
  | .deleter d => ts.filter fun t => decide (t ∉ d.fired)
  | _ => ts

theorem linked_mono {ts us : List Trace} {key : String} (tx : Tx)
    (hsub : ∀ t ∈ us, t.sessionKey = some key → t ∈ ts) :
    ∀ t ∈ tx.linked us, t.sessionKey = some key → t ∈ tx.linked ts := by
  intro t ht hk
  cases tx with
  | writer w =>
    simp only [Tx.linked] at ht ⊢
    split at ht
    · rename_i hb
      rw [if_pos hb]
      exact hsub t ht hk
    · rename_i hb
      rw [if_neg hb]
      rcases List.mem_cons.mp ht with rfl | ht
      · exact List.mem_cons_self
      · exact List.mem_cons_of_mem _ (hsub t ht hk)
  | deleter d => exact hsub t ht hk
  | sessionCleaner c => exact hsub t ht hk
  | rollupCleaner c => exact hsub t ht hk

theorem inMinute_filter (b : ℤ) (p : Trace → Bool) (ts : List Trace) :
    inMinute b (ts.filter p) = (inMinute b ts).filter p := by
  simp only [inMinute, List.filter_filter, Bool.and_comm]

/-- What a transaction does to a minute depends on that minute only. -/
theorem counted_congr {ts us : List Trace} {b : ℤ} (tx : Tx)
    (heq : inMinute b us = inMinute b ts) :
    inMinute b (tx.counted us) = inMinute b (tx.counted ts) := by
  cases tx with
  | writer w =>
    simp only [Tx.counted]
    split
    · simp only [inMinute, List.filter_cons] at heq ⊢
      rw [heq]
    · exact heq
  | deleter d => simp only [Tx.counted, inMinute_filter, heq]
  | sessionCleaner c => exact heq
  | rollupCleaner c => exact heq

/-! ### The invariant -/

/-- What an open transaction holds and may rely on. -/
def TxOk (s : Store) (i : ℕ) : Tx → Prop
  | .writer w =>
    (w.stage ≠ .begun → ∀ key, w.trace.sessionKey = some key → (s.sessions key).HeldBy i) ∧
    (w.isCounted = true → (s.rollups w.trace.bucket).HeldBy i)
  | .deleter d => d.gone.Nodup ∧ (∀ t ∈ d.gone, t ∈ s.traces) ∧
      ∀ t ∈ d.fired, (s.rollups t.bucket).HeldBy i
  | _ => True

/-- The invariant of all interleavings. -/
structure StoreInv (s : Store) : Prop where
  ids : (s.traces.map Trace.id).Nodup
  sessions : Guarded s.sessions (SessionOk s.traces)
    (Owned s.txs fun tx => SessionOk (tx.linked s.traces))
  rollups : Guarded s.rollups (RollupOk s.traces)
    (Owned s.txs fun tx => RollupOk (tx.counted s.traces))
  txs : ∀ i tx, s.txs.lookup i = some tx → TxOk s i tx
  fresh : ∀ i tx id, s.txs.lookup i = some tx → tx.inserts id = true → id ∉ s.traces.map Trace.id
  inserter : ∀ i j tx tx' id, s.txs.lookup i = some tx → s.txs.lookup j = some tx' →
    tx.inserts id = true → tx'.inserts id = true → i = j
  deleter : ∀ i j tx tx', s.txs.lookup i = some tx → s.txs.lookup j = some tx' →
    isDeleter tx = true → isDeleter tx' = true → i = j
  messages : ∀ m ∈ s.messages, ∃ t ∈ s.traces, t.id = m.requestId ∧ t.sessionId = some m.sessionId

/-- A transaction keeps what it relies on while no row is taken from it and no trace goes. -/
theorem TxOk.mono {s s' : Store} {i : ℕ} {tx : Tx} (h : TxOk s i tx)
    (htr : ∀ t ∈ s.traces, t ∈ s'.traces)
    (hse : ∀ key, (s.sessions key).HeldBy i → (s'.sessions key).HeldBy i)
    (hro : ∀ b, (s.rollups b).HeldBy i → (s'.rollups b).HeldBy i) : TxOk s' i tx := by
  cases tx with
  | writer w => exact ⟨fun hw key hk => hse key (h.1 hw key hk), fun hw => hro _ (h.2 hw)⟩
  | deleter d =>
    exact ⟨h.1, fun t ht => htr t (h.2.1 t ht), fun t ht => hro _ (h.2.2 t ht)⟩
  | sessionCleaner c => trivial
  | rollupCleaner c => trivial

/-- STEP RULE for a statement that commits nothing: the tables stay guarded, nobody loses a row, and
    the transaction that ran it is in order. -/
theorem StoreInv.advance {s s' : Store} {i : ℕ} {tx' : Tx} (h : StoreInv s)
    (htr : s'.traces = s.traces) (hme : s'.messages = s.messages)
    (htx : s'.txs = AList.insert i tx' s.txs)
    (hse : Guarded s'.sessions (SessionOk s.traces)
      (Owned (AList.insert i tx' s.txs) fun tx => SessionOk (tx.linked s.traces)))
    (hro : Guarded s'.rollups (RollupOk s.traces)
      (Owned (AList.insert i tx' s.txs) fun tx => RollupOk (tx.counted s.traces)))
    (hheldS : ∀ key j, (s.sessions key).HeldBy j → (s'.sessions key).HeldBy j)
    (hheldR : ∀ b j, (s.rollups b).HeldBy j → (s'.rollups b).HeldBy j)
    (hself : TxOk s' i tx')
    (hins : ∀ id, tx'.inserts id = true → id ∉ s.traces.map Trace.id ∧
      ∀ j tx, j ≠ i → s.txs.lookup j = some tx → tx.inserts id = false)
    (hdel : isDeleter tx' = true →
      ∀ j tx, j ≠ i → s.txs.lookup j = some tx → isDeleter tx = false) : StoreInv s' := by
  have hlook : ∀ j tx, s'.txs.lookup j = some tx →
      j = i ∧ tx = tx' ∨ j ≠ i ∧ s.txs.lookup j = some tx := by
    intro j tx hj
    rw [htx] at hj
    exact Table.lookup_insert_cases hj
  refine ⟨htr ▸ h.ids, ?_, ?_, ?_, ?_, ?_, ?_, ?_⟩
  · rw [htr, htx]; exact hse
  · rw [htr, htx]; exact hro
  · intro j tx hj
    rcases hlook j tx hj with ⟨rfl, rfl⟩ | ⟨-, hj⟩
    · exact hself
    · exact (h.txs j tx hj).mono (fun t ht => htr ▸ ht) (fun k => hheldS k j) (fun b => hheldR b j)
  · intro j tx id hj hid
    rw [htr]
    rcases hlook j tx hj with ⟨rfl, rfl⟩ | ⟨-, hj⟩
    · exact (hins id hid).1
    · exact h.fresh j tx id hj hid
  · intro j k tx tx₂ id hj hk hid hid₂
    rcases hlook j tx hj with ⟨rfl, rfl⟩ | ⟨hne, hj⟩ <;>
      rcases hlook k tx₂ hk with ⟨rfl, rfl⟩ | ⟨hne₂, hk⟩
    · rfl
    · rw [(hins id hid).2 k tx₂ hne₂ hk] at hid₂
      cases hid₂
    · rw [(hins id hid₂).2 j tx hne hj] at hid
      cases hid
    · exact h.inserter j k tx tx₂ id hj hk hid hid₂
  · intro j k tx tx₂ hj hk hd hd₂
    rcases hlook j tx hj with ⟨rfl, rfl⟩ | ⟨hne, hj⟩ <;>
      rcases hlook k tx₂ hk with ⟨rfl, rfl⟩ | ⟨hne₂, hk⟩
    · rfl
    · rw [hdel hd k tx₂ hne₂ hk] at hd₂
      cases hd₂
    · rw [hdel hd₂ j tx hne hj] at hd
      cases hd
    · exact h.deleter j k tx tx₂ hj hk hd hd₂
  · rw [htr, hme]
    exact h.messages

/-- A transaction that goes on inserts what it has inserted, and no other inserts it. -/
theorem StoreInv.inserts_self {s : Store} {i : ℕ} {tx : Tx} (h : StoreInv s)
    (hi : s.txs.lookup i = some tx) (id : ℕ) (hid : tx.inserts id = true) :
    id ∉ s.traces.map Trace.id ∧
      ∀ j tx', j ≠ i → s.txs.lookup j = some tx' → tx'.inserts id = false := by
  refine ⟨h.fresh i tx id hi hid, fun j tx' hj hj' => ?_⟩
  by_contra hne
  exact hj (h.inserter j i tx' tx id hj' hi (by simpa using hne) hid)

theorem StoreInv.deleter_self {s : Store} {i : ℕ} {tx : Tx} (h : StoreInv s)
    (hi : s.txs.lookup i = some tx) (hd : isDeleter tx = true) (j : ℕ) (tx' : Tx) (hj : j ≠ i)
    (hj' : s.txs.lookup j = some tx') : isDeleter tx' = false := by
  by_contra hne
  exact hj (h.deleter j i tx' tx hj' hi (by simpa using hne) hd)

/-- A transaction goes on without a change to what it adds to a session or has counted. -/
theorem StoreInv.progress {s : Store} {i : ℕ} {tx tx' : Tx} (h : StoreInv s)
    (hi : s.txs.lookup i = some tx) (hl : tx'.linked s.traces = tx.linked s.traces)
    (hc : tx'.counted s.traces = tx.counted s.traces) (hself : TxOk (s.setTx i tx') i tx')
    (hins : ∀ id, tx'.inserts id = true → id ∉ s.traces.map Trace.id ∧
      ∀ j tx, j ≠ i → s.txs.lookup j = some tx → tx.inserts id = false)
    (hdel : isDeleter tx' = true → isDeleter tx = true) : StoreInv (s.setTx i tx') := by
  refine h.advance rfl rfl rfl (h.sessions.advance ?_) (h.rollups.advance ?_) (fun _ _ hh => hh)
    (fun _ _ hh => hh) hself hins fun hd => h.deleter_self hi (hdel hd)
  · intro t k v ht hv
    rw [hi, Option.some.injEq] at ht
    rwa [hl, ht]
  · intro t k v ht hv
    rw [hi, Option.some.injEq] at ht
    rwa [hc, ht]

/-! ### Opening a transaction -/

/-- A transaction opens with nothing done. -/
theorem openTx_cases {s : Store} {a : Stmt} {tx : Tx} (h : openTx s a = some tx) :
    (∃ w, tx = .writer w ∧ w.stage = .begun) ∨
    (tx = .deleter ⟨[], [], none⟩ ∧ s.txs.entries.any (fun e => isDeleter e.2) = false) ∨
    (∃ c, tx = .sessionCleaner c) ∨ ∃ c, tx = .rollupCleaner c := by
  cases a <;> simp only [openTx, Option.some.injEq, reduceCtorEq] at h
  · simp only [Option.ite_none_right_eq_some, Option.some.injEq] at h
    exact .inl ⟨_, h.2.symm, rfl⟩
  · simp only [Option.ite_none_left_eq_some, Option.some.injEq, Bool.not_eq_true] at h
    exact .inr (.inl ⟨h.2.symm, h.1⟩)
  · exact .inr (.inr (.inl ⟨_, h.symm⟩))
  · exact .inr (.inr (.inr ⟨_, h.symm⟩))

theorem open_inv {s : Store} {i : ℕ} {a : Stmt} {tx : Tx} (h : StoreInv s)
    (hi : s.txs.lookup i = none) (ho : openTx s a = some tx) : StoreInv (s.setTx i tx) := by
  have hnone : ∀ {P : Prop} (t : Tx), s.txs.lookup i = some t → P := by
    intro P t ht
    rw [hi] at ht
    cases ht
  refine h.advance rfl rfl rfl (h.sessions.advance fun t _ _ ht _ => hnone t ht)
    (h.rollups.advance fun t _ _ ht _ => hnone t ht) (fun _ _ hh => hh) (fun _ _ hh => hh) ?_ ?_ ?_
  · rcases openTx_cases ho with ⟨w, rfl, hw⟩ | ⟨rfl, -⟩ | ⟨c, rfl⟩ | ⟨c, rfl⟩
    · exact ⟨fun hne => absurd hw hne, fun hc => by simp [Writer.isCounted, hw] at hc⟩
    · exact ⟨List.nodup_nil, by simp [Deleter.gone], by simp⟩
    · trivial
    · trivial
  · intro id hid
    rcases openTx_cases ho with ⟨w, rfl, hw⟩ | ⟨rfl, -⟩ | ⟨c, rfl⟩ | ⟨c, rfl⟩
    · simp [Tx.inserts, hw] at hid
    all_goals cases hid
  · intro hd j t _ hj
    rcases openTx_cases ho with ⟨w, rfl, hw⟩ | ⟨rfl, hfree⟩ | ⟨c, rfl⟩ | ⟨c, rfl⟩
    · cases hd
    · rw [List.any_eq_false] at hfree
      simpa using hfree _ (Table.lookup_eq_some.mp hj)
    all_goals cases hd

/-! ### The writer -/

/-- The upserted row still stands for all that the row stood for, and for the writer's trace. -/
theorem upsertSession_ok {ts : List Trace} {key : String} {row : Option Session} {w : Writer}
    {id : ℕ} (h : SessionOk ts key row) :
    SessionOk ({ w.trace with sessionId := some (upsertSession row id w).id } :: ts) key
      (some (upsertSession row id w)) := by
  intro t ht hk
  refine ⟨_, rfl, ?_⟩
  rcases List.mem_cons.mp ht with rfl | ht
  · cases row with
    | none => exact ⟨rfl, le_refl _, le_refl _⟩
    | some r => exact ⟨rfl, min_le_right _ _, le_max_right _ _⟩
  · obtain ⟨r, rfl, hc⟩ := h t ht hk
    exact ⟨hc.id, (min_le_left _ _).trans hc.first, hc.last.trans (le_max_left _ _)⟩

/-- The trace a writer adds is no matter of other sessions. -/
theorem sessionOk_linked_ne {ts : List Trace} {w : Writer} {key : String} {row : Option Session}
    (hk : w.trace.sessionKey ≠ some key) (h : SessionOk ts key row) :
    SessionOk ((Tx.writer w).linked ts) key row := by
  refine h.mono fun t ht htk => ?_
  simp only [Tx.linked] at ht
  split at ht
  · exact ht
  · rcases List.mem_cons.mp ht with rfl | ht
    · exact absurd htk hk
    · exact ht

theorem link_inv {s s' : Store} {i : ℕ} {w : Writer} {id : ℕ} (h : StoreInv s)
    (hi : s.txs.lookup i = some (.writer w)) (hw : w.stage = .begun)
    (hs : linkSession s i w id = some s') : StoreInv s' := by
  have hbegun : ∀ tx, s.txs.lookup i = some tx →
      tx.linked s.traces = s.traces ∧ tx.counted s.traces = s.traces := by
    intro tx htx
    rw [hi, Option.some.injEq] at htx
    subst htx
    simp [Tx.linked, Tx.counted, Writer.isCounted, hw]
  have hcount : ∀ w' : Writer, w'.stage = .linked →
      ∀ tx b v, s.txs.lookup i = some tx → RollupOk (tx.counted s.traces) b v →
        RollupOk ((Tx.writer w').counted s.traces) b v := by
    intro w' hw' tx b v htx hv
    rw [(hbegun tx htx).2] at hv
    simpa [Tx.counted, Writer.isCounted, hw'] using hv
  simp only [linkSession] at hs
  split at hs
  · -- no key: nothing is written
    rename_i hkey
    obtain rfl := Option.some.inj hs
    refine h.advance rfl rfl rfl (h.sessions.advance ?_) (h.rollups.advance (hcount _ rfl))
      (fun _ _ hh => hh) (fun _ _ hh => hh) ⟨?_, ?_⟩ ?_ ?_
    · intro tx k v htx hv
      rw [(hbegun tx htx).1] at hv
      exact sessionOk_linked_ne (by simp [hkey]) hv
    · intro _ key hk
      simp [hkey] at hk
    · simp [Writer.isCounted]
    · simp [Tx.inserts]
    · simp [isDeleter]
  · rename_i key hkey
    simp only [Option.ite_none_right_eq_some, Option.some.injEq] at hs
    obtain ⟨ha, rfl⟩ := hs
    have hvis : SessionOk s.traces key ((s.sessions key).visible i) := by
      have := h.sessions.visible key hi (fun v _ hv => by rwa [(hbegun _ hi).1])
      rwa [(hbegun _ hi).1] at this
    refine h.advance rfl rfl rfl (h.sessions.write ?_ ?_) (h.rollups.advance (hcount _ rfl))
      (fun k j hh => Rows.heldBy_put_of_heldBy ha hh) (fun _ _ hh => hh) ⟨?_, ?_⟩ ?_ ?_
    · simpa [Tx.linked] using upsertSession_ok hvis
    · intro tx k v hne htx hv
      rw [(hbegun tx htx).1] at hv
      refine sessionOk_linked_ne ?_ hv
      rw [hkey]
      exact fun heq => hne (Option.some.inj heq).symm
    · intro _ k hk
      simp only [hkey, Option.some.injEq] at hk
      subst hk
      simp only [Rows.put_self]
      exact Cell.heldBy_put _ _ _
    · simp [Writer.isCounted]
    · simp [Tx.inserts]
    · simp [isDeleter]

theorem insertRow_inv {s s' : Store} {i : ℕ} {w : Writer} (h : StoreInv s)
    (hi : s.txs.lookup i = some (.writer w)) (hw : w.stage = .linked)
    (hs : insertTraceRow s i w = some s') : StoreInv s' := by
  simp only [insertTraceRow, Option.ite_none_left_eq_some, Option.some.injEq, not_or,
    Bool.not_eq_true] at hs
  obtain ⟨⟨hid, hother⟩, rfl⟩ := hs
  have hok := h.txs i _ hi
  refine h.progress hi (by simp [Tx.linked, hw]) (by simp [Tx.counted, Writer.isCounted, hw])
    ⟨fun _ => hok.1 (by simp [hw]), by simp [Writer.isCounted]⟩ ?_ (by simp [isDeleter])
  intro id hins
  simp only [Tx.inserts, ne_eq, reduceCtorEq, not_false_eq_true, decide_true, Bool.and_true,
    decide_eq_true_eq] at hins
  subst hins
  rw [List.any_eq_false] at hother
  exact ⟨hid, fun j tx _ hj => by simpa using hother _ (Table.lookup_eq_some.mp hj)⟩

/-- The upserted row counts the writer's trace besides those it counted. -/
theorem updateRollup_ok {ts : List Trace} {t : Trace} {row : Option Rollup} {r : Rollup}
    (h : RollupOk ts t.bucket row) (hu : updateRollup row t = some r) :
    RollupOk (t :: ts) t.bucket (some r) := by
  refine ⟨by simp [inMinute_cons_self], fun c => ?_⟩
  rw [inMinute_cons_self, aggregate_cons]
  cases row with
  | none =>
    obtain rfl := Option.some.inj hu
    rw [show inMinute t.bucket ts = [] from h, aggregate_nil, add_zero]
  | some r₀ =>
    simp only [updateRollup, Option.ite_none_right_eq_some, Option.some.injEq] at hu
    obtain ⟨-, rfl⟩ := hu
    rw [← h.2 c]
    exact add_comm _ _

theorem count_inv {s s' : Store} {i : ℕ} {w : Writer} (h : StoreInv s)
    (hi : s.txs.lookup i = some (.writer w)) (hw : w.stage = .inserted)
    (hs : countTrace s i w = some s') : StoreInv s' := by
  simp only [countTrace, Option.ite_none_right_eq_some, Option.map_eq_some_iff] at hs
  obtain ⟨ha, r, hr, rfl⟩ := hs
  have hbefore : (Tx.writer w).counted s.traces = s.traces := by
    simp [Tx.counted, Writer.isCounted, hw]
  have hvis : RollupOk s.traces w.trace.bucket ((s.rollups w.trace.bucket).visible i) := by
    have := h.rollups.visible w.trace.bucket hi (fun v _ hv => by rwa [hbefore])
    rwa [hbefore] at this
  refine h.advance rfl rfl rfl (h.sessions.advance ?_) (h.rollups.write ?_ ?_) (fun _ _ hh => hh)
    (fun b j hh => Rows.heldBy_put_of_heldBy ha hh) ⟨?_, ?_⟩ ?_ (by simp [isDeleter])
  · intro tx k v htx hv
    rw [hi, Option.some.injEq] at htx
    subst htx
    simpa [Tx.linked, hw] using hv
  · simpa [Tx.counted, Writer.isCounted] using updateRollup_ok hvis hr
  · intro tx b v hb htx hv
    rw [hi, Option.some.injEq] at htx
    subst htx
    rw [hbefore] at hv
    exact hv.congr (by simpa [Tx.counted, Writer.isCounted] using inMinute_cons_ne (Ne.symm hb) _)
  · intro _ key hk
    exact (h.txs i _ hi).1 (by simp [hw]) key hk
  · intro _
    simp only [Rows.put_self]
    exact Cell.heldBy_put _ _ _
  · intro id hid
    refine h.inserts_self hi id ?_
    simpa [Tx.inserts, hw] using hid

theorem note_inv {s : Store} {i : ℕ} {w : Writer} (h : StoreInv s)
    (hi : s.txs.lookup i = some (.writer w)) (hw : w.stage = .counted) :
    StoreInv (s.setTx i (.writer { w with stage := .noted })) := by
  have hok := h.txs i _ hi
  refine h.progress hi (by simp [Tx.linked, hw]) (by simp [Tx.counted, Writer.isCounted, hw])
    ⟨fun _ => hok.1 (by simp [hw]), fun _ => hok.2 (by simp [Writer.isCounted, hw])⟩ ?_
    (by simp [isDeleter])
  intro id hid
  refine h.inserts_self hi id ?_
  simpa [Tx.inserts, hw] using hid

/-! ### The deletion -/

theorem deleteRows_inv {s s' : Store} {i : ℕ} {d : Deleter} {batch : List Trace} (h : StoreInv s)
    (hi : s.txs.lookup i = some (.deleter d)) (hs : deleteRows s i d batch = some s') :
    StoreInv s' := by
  simp only [deleteRows, Option.ite_none_right_eq_some, Option.some.injEq] at hs
  obtain ⟨⟨hnil, hn, hsub⟩, rfl⟩ := hs
  obtain ⟨hgn, hgs, hheld⟩ := h.txs i _ hi
  simp only [Deleter.gone, hnil, List.append_nil] at hgn hgs hsub
  refine h.progress hi rfl rfl ⟨?_, ?_, hheld⟩ (by simp [Tx.inserts]) (fun _ => rfl)
  · exact hgn.append hn fun t ht ht' => (hsub t ht').2 ht
  · intro t ht
    rcases List.mem_append.mp ht with ht | ht
    · exact hgs t ht
    · exact (hsub t ht).1

theorem startTrigger_inv {s s' : Store} {i : ℕ} {d : Deleter} (h : StoreInv s)
    (hi : s.txs.lookup i = some (.deleter d)) (hs : startTrigger s i d = some s') :
    StoreInv s' := by
  simp only [startTrigger, Option.ite_none_right_eq_some, Option.some.injEq] at hs
  obtain ⟨-, rfl⟩ := hs
  exact h.progress hi rfl rfl (h.txs i _ hi) (by simp [Tx.inserts]) (fun _ => rfl)

/-- The trigger leaves the row that counts the other traces. -/
theorem removeDeletedTrace_ok {ts us seen : List Trace} {t : Trace} {r : Rollup}
    (h : RollupOk ts t.bucket (some r))
    (hperm : (inMinute t.bucket ts).Perm (t :: inMinute t.bucket us)) :
    RollupOk us t.bucket (removeDeletedTrace seen r t) := by
  have hcounts : ∀ c, max 0 (t.subtracted (r.counts c) c) = aggregate (inMinute t.bucket us) c := by
    intro c
    have heq : t.subtracted (r.counts c) c = aggregate (inMinute t.bucket us) c := by
      rw [Trace.subtracted_eq, h.2 c, aggregate_perm hperm, aggregate_cons]
      omega
    rw [heq, max_eq_right (aggregate_nonneg _ c)]
  simp only [removeDeletedTrace, hcounts, aggregate_total_eq_zero]
  split
  · assumption
  · exact ⟨by assumption, fun c => rfl⟩

theorem perm_fired {ts : List Trace} {d : Deleter} {t : Trace} (hids : (ts.map Trace.id).Nodup)
    (ht : t ∈ ts) (hf : t ∉ d.fired) :
    (ts.filter fun u => decide (u ∉ d.fired)).Perm
      (t :: ts.filter fun u => decide (u ∉ d.fired ++ [t])) := by
  have hnodup : ts.Nodup := hids.of_map
  refine (List.perm_ext_iff_of_nodup (hnodup.filter _) ?_).mpr ?_
  · simp [hnodup.filter]
  · intro u
    simp only [List.mem_filter, List.mem_cons, decide_eq_true_eq, List.mem_append,
      List.not_mem_nil, or_false, not_or]
    by_cases hu : u = t
    · subst hu
      simp [ht, hf]
    · simp [hu]

theorem fire_inv {s s' : Store} {i : ℕ} {d : Deleter} (h : StoreInv s)
    (hi : s.txs.lookup i = some (.deleter d)) (hs : fireTrigger s i d = some s') :
    StoreInv s' := by
  obtain ⟨hgn, hgs, hheld⟩ := h.txs i _ hi
  rcases hp : d.pending with _ | ⟨t, pending⟩
  · simp [fireTrigger, hp] at hs
  rcases hsn : d.snapshot with _ | seen
  · simp [fireTrigger, hp, hsn] at hs
  simp only [Deleter.gone, hp] at hgn hgs
  have ht : t ∈ s.traces := hgs t (by simp)
  have hf : t ∉ d.fired := fun hmem => (List.nodup_append.mp hgn).2.2 t hmem t (by simp) rfl
  have hperm := inMinute_perm (perm_fired h.ids ht hf) t.bucket
  rw [inMinute_cons_self] at hperm
  -- a row the transaction has not taken still counts every trace it has deleted so far
  have hfree : ∀ v, ¬(s.rollups t.bucket).HeldBy i → RollupOk s.traces t.bucket v →
      RollupOk ((Tx.deleter d).counted s.traces) t.bucket v := by
    intro v hv hok
    refine hok.congr ?_
    rw [Tx.counted, inMinute_filter, List.filter_eq_self]
    intro u hu
    have hub := (mem_inMinute.mp hu).2
    exact decide_eq_true fun huf => hv (hub ▸ hheld u huf)
  have hvis := h.rollups.visible t.bucket hi hfree
  simp only [fireTrigger, hp, hsn] at hs
  split at hs
  · -- the row is there: it counts `t`
    rename_i hnone
    rw [hnone] at hvis
    rw [show inMinute t.bucket (s.traces.filter _) = [] from hvis] at hperm
    exact absurd hperm.nil_eq (by simp)
  · rename_i r hr
    simp only [Option.ite_none_right_eq_some, Option.some.injEq] at hs
    obtain ⟨ha, rfl⟩ := hs
    rw [hr] at hvis
    refine h.advance rfl rfl rfl (h.sessions.advance ?_) (h.rollups.write ?_ ?_)
      (fun _ _ hh => hh) (fun b j hh => Rows.heldBy_put_of_heldBy ha hh) ⟨?_, ?_, ?_⟩
      (by simp [Tx.inserts]) (fun _ => h.deleter_self hi rfl)
    · intro tx k v htx hv
      rw [hi, Option.some.injEq] at htx
      subst htx
      exact hv
    · exact removeDeletedTrace_ok hvis hperm
    · intro tx b v hb htx hv
      rw [hi, Option.some.injEq] at htx
      subst htx
      refine hv.congr ?_
      rw [Tx.counted, Tx.counted, inMinute_filter, inMinute_filter]
      refine List.filter_congr fun u hu => ?_
      have hut : u ≠ t := fun heq => hb (heq ▸ (mem_inMinute.mp hu).2).symm
      simp [hut]
    · simpa [Deleter.gone] using hgn
    · intro u hu
      exact hgs u (by simpa [Deleter.gone] using hu)
    · intro u hu
      rcases List.mem_append.mp hu with hu | hu
      · exact Rows.heldBy_put_of_heldBy ha (hheld u hu)
      · obtain rfl := List.mem_singleton.mp hu
        simp only [Rows.put_self]
        exact Cell.heldBy_put _ _ _

/-! ### The cleaners -/

/-- The transaction deletes sessions or rollups. -/
def Tx.isCleaner : Tx → Bool
  | .sessionCleaner _ => true
  | .rollupCleaner _ => true
  | _ => false

/-- A cleaner adds no trace and counts none. -/
theorem cleaner_same {tx t : Tx} {s : Store} {i : ℕ} (hi : s.txs.lookup i = some tx)
    (hc : tx.isCleaner = true) (ht : s.txs.lookup i = some t) :
    t.linked s.traces = s.traces ∧ t.counted s.traces = s.traces := by
  rw [hi, Option.some.injEq] at ht
  subst ht
  cases tx with
  | writer w => cases hc
  | deleter d => cases hc
  | sessionCleaner c => exact ⟨rfl, rfl⟩
  | rollupCleaner c => exact ⟨rfl, rfl⟩

theorem lockSession_inv {s s' : Store} {i : ℕ} {c : SessionCleaner} {key : String} (h : StoreInv s)
    (hi : s.txs.lookup i = some (.sessionCleaner c)) (hs : lockSession s i c key = some s') :
    StoreInv s' := by
  simp only [lockSession] at hs
  split at hs
  · rename_i old r _ hfree hr
    simp only [Option.ite_none_right_eq_some, Option.some.injEq] at hs
    obtain ⟨-, rfl⟩ := hs
    have ha : (s.sessions key).available i = true := by simp [Cell.available, hfree]
    refine h.advance rfl rfl rfl (h.sessions.write (hr ▸ h.sessions.committed key) ?_)
      (h.rollups.advance ?_) (fun k j hh => Rows.heldBy_put_of_heldBy ha hh) (fun _ _ hh => hh)
      trivial (by simp [Tx.inserts]) (by simp [isDeleter])
    · intro tx k v _ htx hv
      rwa [(cleaner_same hi rfl htx).1] at hv
    · intro tx b v htx hv
      rwa [(cleaner_same hi rfl htx).2] at hv
  · cases hs

/-- RECHECK: a session that no committed trace refers to by id has no committed trace by key. -/
theorem sessionOk_none {ts : List Trace} {key : String} {r : Session}
    (h : SessionOk ts key (some r)) (hu : isUnused ts r = true) : SessionOk ts key none := by
  intro t ht hk
  obtain ⟨r', hr', hc⟩ := h t ht hk
  obtain rfl := Option.some.inj hr'
  simp only [isUnused, List.all_eq_true, decide_eq_true_eq] at hu
  exact absurd hc.id (hu t ht)

theorem deleteSessions_inv {s s' : Store} {i : ℕ} {c : SessionCleaner} (h : StoreInv s)
    (hi : s.txs.lookup i = some (.sessionCleaner c)) (hs : deleteSessions s i c = some s') :
    StoreInv s' := by
  simp only [deleteSessions, Option.ite_none_right_eq_some, Option.some.injEq] at hs
  obtain ⟨-, rfl⟩ := hs
  refine h.advance rfl rfl rfl (Guarded.deleteHeld (h.sessions.advance ?_) ?_)
    (h.rollups.advance ?_) (fun k j hh => Rows.heldBy_deleteHeld.mpr hh) (fun _ _ hh => hh) trivial
    (by simp [Tx.inserts]) (by simp [isDeleter])
  · intro tx k v htx hv
    rwa [(cleaner_same hi rfl htx).1] at hv
  · intro key r hr hdoomed
    simp only [Bool.and_eq_true] at hdoomed
    obtain ⟨tx, htx, hok⟩ := h.sessions.held key i _ hr
    rw [(cleaner_same hi rfl htx).1] at hok
    exact ⟨_, AList.lookup_insert _, sessionOk_none hok hdoomed.2⟩
  · intro tx b v htx hv
    rwa [(cleaner_same hi rfl htx).2] at hv

theorem lockRollup_inv {s s' : Store} {i : ℕ} {c : RollupCleaner} {b : ℤ} (h : StoreInv s)
    (hi : s.txs.lookup i = some (.rollupCleaner c)) (hs : lockRollup s i c b = some s') :
    StoreInv s' := by
  simp only [lockRollup] at hs
  split at hs
  · rename_i r _ hfree hr
    simp only [Option.ite_none_right_eq_some, Option.some.injEq] at hs
    obtain ⟨-, rfl⟩ := hs
    have ha : (s.rollups b).available i = true := by simp [Cell.available, hfree]
    refine h.advance rfl rfl rfl (h.sessions.advance ?_)
      (h.rollups.write (hr ▸ h.rollups.committed b) ?_) (fun _ _ hh => hh)
      (fun k j hh => Rows.heldBy_put_of_heldBy ha hh) trivial (by simp [Tx.inserts])
      (by simp [isDeleter])
    · intro tx k v htx hv
      rwa [(cleaner_same hi rfl htx).1] at hv
    · intro tx b v _ htx hv
      rwa [(cleaner_same hi rfl htx).2] at hv
  · cases hs

theorem deleteRollups_inv {s s' : Store} {i : ℕ} {c : RollupCleaner} (h : StoreInv s)
    (hi : s.txs.lookup i = some (.rollupCleaner c)) (hs : deleteRollups s i c = some s') :
    StoreInv s' := by
  simp only [deleteRollups, Option.ite_none_right_eq_some, Option.some.injEq] at hs
  obtain ⟨-, rfl⟩ := hs
  refine h.advance rfl rfl rfl (h.sessions.advance ?_)
    (Guarded.deleteHeld (h.rollups.advance ?_) ?_) (fun _ _ hh => hh)
    (fun k j hh => Rows.heldBy_deleteHeld.mpr hh) trivial (by simp [Tx.inserts])
    (by simp [isDeleter])
  · intro tx k v htx hv
    rwa [(cleaner_same hi rfl htx).1] at hv
  · intro tx b v htx hv
    rwa [(cleaner_same hi rfl htx).2] at hv
  · intro b r _ hdoomed
    simp only [Bool.and_eq_true, Bool.not_eq_true', List.any_eq_false] at hdoomed
    refine ⟨_, AList.lookup_insert _, ?_⟩
    refine List.filter_eq_nil_iff.mpr fun t ht hb => hdoomed.2 t ht ?_
    rw [decide_eq_true_eq] at hb
    rw [← hb]
    exact inBucket_self t

/-! ### Commit and rollback -/

/-- STEP RULE for a commit: the transaction closes, and the traces become those it leaves. -/
theorem StoreInv.close {s s' : Store} {i : ℕ} (h : StoreInv s)
    (hse : s'.sessions = s.sessions.commit i) (hro : s'.rollups = s.rollups.commit i)
    (htx : s'.txs = s.txs.erase i) (hids : (s'.traces.map Trace.id).Nodup)
    (hgs : Guarded (s.sessions.commit i) (SessionOk s'.traces)
      (Owned (s.txs.erase i) fun tx => SessionOk (tx.linked s'.traces)))
    (hgr : Guarded (s.rollups.commit i) (RollupOk s'.traces)
      (Owned (s.txs.erase i) fun tx => RollupOk (tx.counted s'.traces)))
    (hgone : ∀ j d, j ≠ i → s.txs.lookup j = some (.deleter d) → ∀ t ∈ s.traces, t ∈ s'.traces)
    (hfresh : ∀ j tx id, j ≠ i → s.txs.lookup j = some tx → tx.inserts id = true →
      id ∉ s'.traces.map Trace.id)
    (hme : ∀ m ∈ s'.messages, ∃ t ∈ s'.traces, t.id = m.requestId ∧ t.sessionId = some m.sessionId) :
    StoreInv s' := by
  have hlook : ∀ j tx, s'.txs.lookup j = some tx → j ≠ i ∧ s.txs.lookup j = some tx := by
    intro j tx hj
    rw [htx] at hj
    exact Table.lookup_of_erase hj
  refine ⟨hids, ?_, ?_, ?_, ?_, ?_, ?_, hme⟩
  · rw [hse, htx]; exact hgs
  · rw [hro, htx]; exact hgr
  · intro j tx hj
    obtain ⟨hji, hj⟩ := hlook j tx hj
    have hok := h.txs j tx hj
    have hS : ∀ key, (s.sessions key).HeldBy j → (s'.sessions key).HeldBy j := by
      intro key hk
      rw [hse]
      exact Rows.heldBy_commit hji hk
    have hR : ∀ b, (s.rollups b).HeldBy j → (s'.rollups b).HeldBy j := by
      intro b hb
      rw [hro]
      exact Rows.heldBy_commit hji hb
    cases tx with
    | writer w => exact ⟨fun hw key hk => hS key (hok.1 hw key hk), fun hw => hR _ (hok.2 hw)⟩
    | deleter d => exact hok.mono (hgone j d hji hj) hS hR
    | sessionCleaner c => trivial
    | rollupCleaner c => trivial
  · intro j tx id hj hid
    obtain ⟨hji, hj⟩ := hlook j tx hj
    exact hfresh j tx id hji hj hid
  · intro j k tx tx₂ id hj hk
    exact h.inserter j k tx tx₂ id (hlook j tx hj).2 (hlook k tx₂ hk).2
  · intro j k tx tx₂ hj hk
    exact h.deleter j k tx tx₂ (hlook j tx hj).2 (hlook k tx₂ hk).2

theorem commitWriter_inv {s : Store} {i : ℕ} {w : Writer} (h : StoreInv s)
    (hi : s.txs.lookup i = some (.writer w)) (hw : w.stage = .noted) :
    StoreInv { close s i with
      traces := w.trace :: s.traces, messages := w.newMessages ++ s.messages } := by
  obtain ⟨hsession, hbucket⟩ := h.txs i _ hi
  have hlinked : (Tx.writer w).linked s.traces = w.trace :: s.traces := by simp [Tx.linked, hw]
  have hcounted : (Tx.writer w).counted s.traces = w.trace :: s.traces := by
    simp [Tx.counted, Writer.isCounted, hw]
  have hins : (Tx.writer w).inserts w.trace.id = true := by simp [Tx.inserts, hw]
  -- the rows that are not the writer's are about other traces
  have hkey : ∀ k, ¬(s.sessions k).HeldBy i → ∀ t ∈ w.trace :: s.traces, t.sessionKey = some k →
      t ∈ s.traces := by
    intro k hk t ht hkey
    rcases List.mem_cons.mp ht with rfl | ht
    · exact absurd (hsession (by simp [hw]) k hkey) hk
    · exact ht
  have hminute : ∀ b, ¬(s.rollups b).HeldBy i →
      inMinute b (w.trace :: s.traces) = inMinute b s.traces := by
    intro b hb
    refine inMinute_cons_ne (fun heq => hb ?_) _
    exact heq ▸ hbucket (by simp [Writer.isCounted, hw])
  refine h.close rfl rfl rfl ?_ ?_ ?_ ?_ ?_ ?_
  · exact List.nodup_cons.mpr ⟨h.fresh i _ _ hi hins, h.ids⟩
  · refine h.sessions.commitTx hi (fun k v hv => ?_) (fun k v hk hv => hv.mono (hkey k hk))
      fun tx k v hk hv => hv.mono (linked_mono tx (hkey k hk))
    rwa [hlinked] at hv
  · refine h.rollups.commitTx hi (fun b v hv => ?_) (fun b v hb hv => hv.congr (hminute b hb))
      fun tx b v hb hv => hv.congr (counted_congr tx (hminute b hb))
    rwa [hcounted] at hv
  · intro j d _ _ t ht
    exact List.mem_cons_of_mem _ ht
  · intro j tx id hj hjl hid
    simp only [List.map_cons, List.mem_cons, not_or]
    refine ⟨fun heq => hj ?_, h.fresh j tx id hjl hid⟩
    exact h.inserter j i tx _ id hjl hi hid (heq ▸ hins)
  · intro m hm
    rcases List.mem_append.mp hm with hm | hm
    · refine ⟨w.trace, List.mem_cons_self, ?_⟩
      simp only [Writer.newMessages] at hm
      split at hm
      · cases hm
      · rename_i sid hsid
        obtain ⟨-, rfl⟩ := List.mem_replicate.mp hm
        exact ⟨rfl, hsid⟩
    · obtain ⟨t, ht, hmt⟩ := h.messages m hm
      exact ⟨t, List.mem_cons_of_mem _ ht, hmt⟩

theorem commitDeleter_inv {s : Store} {i : ℕ} {d : Deleter} (h : StoreInv s)
    (hi : s.txs.lookup i = some (.deleter d)) :
    StoreInv { close s i with
      traces := s.traces.filter fun t => decide (t ∉ d.fired)
      messages := s.messages.filter fun m => decide (m.requestId ∉ d.fired.map Trace.id) } := by
  obtain ⟨-, -, hheld⟩ := h.txs i _ hi
  have hsub : ∀ t ∈ s.traces.filter fun t => decide (t ∉ d.fired), t ∈ s.traces :=
    fun t ht => (List.mem_filter.mp ht).1
  have hminute : ∀ b, ¬(s.rollups b).HeldBy i →
      inMinute b (s.traces.filter fun t => decide (t ∉ d.fired)) = inMinute b s.traces := by
    intro b hb
    rw [inMinute_filter, List.filter_eq_self]
    intro t ht
    exact decide_eq_true fun hf => hb ((mem_inMinute.mp ht).2 ▸ hheld t hf)
  refine h.close rfl rfl rfl ?_ ?_ ?_ ?_ ?_ ?_
  · exact h.ids.sublist (List.filter_sublist.map _)
  · exact h.sessions.commitTx hi (fun k v hv => hv.mono fun t ht _ => hsub t ht)
      (fun k v _ hv => hv.mono fun t ht _ => hsub t ht)
      fun tx k v _ hv => hv.mono (linked_mono tx fun t ht _ => hsub t ht)
  · exact h.rollups.commitTx hi (fun b v hv => hv)
      (fun b v hb hv => hv.congr (hminute b hb))
      fun tx b v hb hv => hv.congr (counted_congr tx (hminute b hb))
  · intro j d' hj hjl
    exact absurd (h.deleter_self hi rfl j _ hj hjl) (by simp [isDeleter])
  · intro j tx id _ hjl hid hmem
    obtain ⟨t, ht, rfl⟩ := List.mem_map.mp hmem
    exact h.fresh j tx t.id hjl hid (List.mem_map_of_mem (hsub t ht))
  · intro m hm
    simp only [List.mem_filter, decide_eq_true_eq] at hm
    obtain ⟨t, ht, hid, hsid⟩ := h.messages m hm.1
    refine ⟨t, List.mem_filter.mpr ⟨ht, decide_eq_true fun hf => hm.2 ?_⟩, hid, hsid⟩
    exact hid ▸ List.mem_map_of_mem hf

/-- A cleaner commits no change to the traces. -/
theorem commitCleaner_inv {s s' : Store} {i : ℕ} {tx : Tx} (h : StoreInv s)
    (hi : s.txs.lookup i = some tx) (hc : tx.isCleaner = true)
    (hse : s'.sessions = s.sessions.commit i) (hro : s'.rollups = s.rollups.commit i)
    (htx : s'.txs = s.txs.erase i)
    (htr : s'.traces = s.traces) (hme : ∀ m ∈ s'.messages, m ∈ s.messages) : StoreInv s' := by
  obtain ⟨hl, hc⟩ := cleaner_same hi hc hi
  refine h.close hse hro htx (htr ▸ h.ids) ?_ ?_ (fun _ _ _ _ t ht => htr ▸ ht) ?_ ?_
  · rw [htr]
    exact h.sessions.commitTx hi (fun k v hv => hl ▸ hv) (fun _ _ _ hv => hv) fun _ _ _ _ hv => hv
  · rw [htr]
    exact h.rollups.commitTx hi (fun k v hv => hc ▸ hv) (fun _ _ _ hv => hv) fun _ _ _ _ hv => hv
  · rw [htr]
    exact fun j tx id _ hj hid => h.fresh j tx id hj hid
  · rw [htr]
    exact fun m hm => h.messages m (hme m hm)

theorem commit_inv {s s' : Store} {i : ℕ} {tx : Tx} (h : StoreInv s)
    (hi : s.txs.lookup i = some tx) (hs : commitTx s i tx = some s') : StoreInv s' := by
  cases tx with
  | writer w =>
    simp only [commitTx, Option.ite_none_right_eq_some, Option.some.injEq] at hs
    obtain ⟨hw, rfl⟩ := hs
    exact commitWriter_inv h hi hw
  | deleter d =>
    simp only [commitTx, Option.ite_none_right_eq_some, Option.some.injEq] at hs
    obtain ⟨-, rfl⟩ := hs
    exact commitDeleter_inv h hi
  | sessionCleaner c =>
    simp only [commitTx] at hs
    split at hs
    · cases hs
    · obtain rfl := Option.some.inj hs
      exact commitCleaner_inv h hi rfl rfl rfl rfl rfl fun m hm => (List.mem_filter.mp hm).1
  | rollupCleaner c =>
    simp only [commitTx, Option.ite_none_right_eq_some, Option.some.injEq] at hs
    obtain ⟨-, rfl⟩ := hs
    exact commitCleaner_inv h hi rfl rfl rfl rfl rfl fun m hm => hm

theorem rollback_inv {s : Store} {i : ℕ} (h : StoreInv s) : StoreInv (rollbackTx s i) := by
  refine ⟨h.ids, h.sessions.rollbackTx i, h.rollups.rollbackTx i, ?_, ?_, ?_, ?_, h.messages⟩
  · intro j tx hj
    obtain ⟨hji, hj⟩ := Table.lookup_of_erase hj
    exact (h.txs j tx hj).mono (fun t ht => ht) (fun k hk => Rows.heldBy_rollback hji hk)
      fun b hb => Rows.heldBy_rollback hji hb
  · exact fun j tx id hj => h.fresh j tx id (Table.lookup_of_erase hj).2
  · exact fun j k tx tx' id hj hk =>
      h.inserter j k tx tx' id (Table.lookup_of_erase hj).2 (Table.lookup_of_erase hk).2
  · exact fun j k tx tx' hj hk =>
      h.deleter j k tx tx' (Table.lookup_of_erase hj).2 (Table.lookup_of_erase hk).2

/-! ### Runs -/

theorem execute_inv {s s' : Store} {i : ℕ} {tx : Tx} {stmt : Stmt} (h : StoreInv s)
    (hi : s.txs.lookup i = some tx) (hs : execute s i tx stmt = some s') : StoreInv s' := by
  cases stmt with
  | commit => exact commit_inv h hi (by cases tx <;> exact hs)
  | rollback =>
    have hs : some (rollbackTx s i) = some s' := by cases tx <;> exact hs
    exact Option.some.inj hs ▸ rollback_inv h
  | upsertSession id =>
    cases tx with
    | writer w =>
      simp only [execute, Option.ite_none_right_eq_some] at hs
      exact link_inv h hi hs.1 hs.2
    | _ => cases hs
  | insertTrace =>
    cases tx with
    | writer w =>
      simp only [execute, Option.ite_none_right_eq_some] at hs
      exact insertRow_inv h hi hs.1 hs.2
    | _ => cases hs
  | updateRollup =>
    cases tx with
    | writer w =>
      simp only [execute, Option.ite_none_right_eq_some] at hs
      exact count_inv h hi hs.1 hs.2
    | _ => cases hs
  | insertMessages =>
    cases tx with
    | writer w =>
      simp only [execute, Option.ite_none_right_eq_some, Option.some.injEq] at hs
      exact hs.2 ▸ note_inv h hi hs.1
    | _ => cases hs
  | deleteTraces batch =>
    cases tx with
    | deleter d => exact deleteRows_inv h hi hs
    | _ => cases hs
  | startTrigger =>
    cases tx with
    | deleter d => exact startTrigger_inv h hi hs
    | _ => cases hs
  | fireTrigger =>
    cases tx with
    | deleter d => exact fire_inv h hi hs
    | _ => cases hs
  | lockSession key =>
    cases tx with
    | sessionCleaner c => exact lockSession_inv h hi hs
    | _ => cases hs
  | deleteSessions =>
    cases tx with
    | sessionCleaner c => exact deleteSessions_inv h hi hs
    | _ => cases hs
  | lockRollup bucket =>
    cases tx with
    | rollupCleaner c => exact lockRollup_inv h hi hs
    | _ => cases hs
  | deleteRollups =>
    cases tx with
    | rollupCleaner c => exact deleteRollups_inv h hi hs
    | _ => cases hs
  -- a transaction is opened once
  | _ => cases tx <;> cases hs

theorem storeStep_inv {s s' : Store} {a : ℕ × Stmt} (h : StoreInv s)
    (hs : storeStep s a = some s') : StoreInv s' := by
  simp only [storeStep] at hs
  split at hs
  · rename_i hi
    simp only [Option.map_eq_some_iff] at hs
    obtain ⟨tx, ho, rfl⟩ := hs
    exact open_inv h hi ho
  · rename_i tx hi
    exact execute_inv h hi hs

theorem empty_inv : StoreInv Store.empty where
  ids := List.nodup_nil
  sessions := ⟨fun _ _ ht => by simp [Store.empty] at ht, fun _ _ _ hv => by simp [Store.empty] at hv⟩
  rollups := ⟨fun _ => rfl, fun _ _ _ hv => by simp [Store.empty] at hv⟩
  txs _ _ hi := by cases hi
  fresh _ _ _ hi := by cases hi
  inserter _ _ _ _ _ hi := by cases hi
  deleter _ _ _ _ hi := by cases hi
  messages _ hm := by cases hm

/-- CLEANUP: in every reachable state every committed trace with a session key has its session row,
    under the id the trace names and wide enough for it; every message has its trace and names that
    trace's session; and each minute's rollup row is there exactly when the minute has committed
    traces, and counts them. -/
theorem cleanup_never_orphans {s : Store} (h : Reaches storeStep anyAct Store.empty s) :
    (∀ t ∈ s.traces, ∀ key, t.sessionKey = some key →
      ∃ r, (s.sessions key).committed = some r ∧ t.sessionId = some r.id ∧
        r.firstSeen ≤ t.startedAt ∧ t.completedAt.getD t.startedAt ≤ r.lastSeen) ∧
    (∀ m ∈ s.messages, ∃ t ∈ s.traces, t.id = m.requestId ∧ t.sessionId = some m.sessionId) ∧
    (∀ b, (s.rollups b).committed = none ↔ inMinute b s.traces = []) ∧
    ∀ b r, (s.rollups b).committed = some r →
      ∀ c, r.counts c = aggregate (inMinute b s.traces) c := by
  have hinv : StoreInv s := h.inv (fun _ _ _ hm _ hs => storeStep_inv hm hs) empty_inv
  refine ⟨?_, hinv.messages, ?_, ?_⟩
  · intro t ht key hk
    obtain ⟨r, hr, hc⟩ := hinv.sessions.committed key t ht hk
    exact ⟨r, hr, hc.id, hc.first, hc.last⟩
  · intro b
    have hrow := hinv.rollups.committed b
    cases hc : (s.rollups b).committed with
    | none => rw [hc] at hrow; exact iff_of_true rfl hrow
    | some r => rw [hc] at hrow; exact iff_of_false (by simp) hrow.1
  · intro b r hr
    have hrow := hinv.rollups.committed b
    rw [hr] at hrow
    exact hrow.2

/-- Writer 1 commits and its trace is deleted again. The session cleaner takes the empty session,
    writer 5 of the same session has to wait for it, and inserts the session afresh under id 8. -/
def sampleStmts : List (ℕ × Stmt) :=
  [(1, .beginWriter (failedAt 1 10) none none 1), (1, .upsertSession 7), (1, .insertTrace),
    (1, .updateRollup), (1, .insertMessages), (1, .commit),
    (2, .beginDeleter), (2, .deleteTraces [{ failedAt 1 10 with sessionId := some 7 }]),
    (2, .startTrigger), (2, .fireTrigger), (2, .commit),
    (3, .beginSessionCleaner 1000000), (3, .lockSession "chat"),
    (5, .beginWriter (failedAt 5 50) none none 0), (3, .deleteSessions), (3, .commit),
    (5, .upsertSession 8), (5, .insertTrace), (5, .updateRollup), (5, .insertMessages), (5, .commit)]

theorem cleanup_never_orphans_sample : ∃ s, run storeStep Store.empty sampleStmts = some s ∧
    s.traces = [{ failedAt 5 50 with sessionId := some 8 }] ∧
    ∃ r, (s.sessions "chat").committed = some r ∧ r.id = 8 := by
  have hrun : (run storeStep Store.empty sampleStmts).map Store.traces =
      some [{ failedAt 5 50 with sessionId := some 8 }] := by
    decide +kernel
  obtain ⟨s, hs, htraces⟩ := Option.map_eq_some_iff.mp hrun
  obtain ⟨r, hr, hid, -⟩ := (cleanup_never_orphans (reaches_of_run hs)).1
    { failedAt 5 50 with sessionId := some 8 } (by simp [htraces]) "chat" rfl
  exact ⟨s, hs, htraces, r, hr, (Option.some.inj hid).symm⟩

/-- While the cleaner holds the session, the second writer waits. -/
example : (run storeStep Store.empty (sampleStmts.take 14 ++ [(5, .upsertSession 8)])).isNone := by
  decide +kernel

end Llmtrace.Storage
