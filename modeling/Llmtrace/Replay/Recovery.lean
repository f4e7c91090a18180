import Llmtrace.Replay.Workers

/-! The other steps of the replay keep its invariant: the receipt cleaner, the database that ends
    transactions on its own, crashes, and `Journal::open`. -/

namespace Llmtrace.Replay
open Schemes Journal

section
variable {M : Type} {lib : Lib M} {cfg : JournalConfig} {journalId : Uuid}

/-! ### The receipt cleaner -/

theorem mem_receiptPage {db : Db} {cursor id : Uuid}
    (h : id ∈ (receiptPage db journalId cursor).1) : db.receipts.lookup id = some journalId := by
  simp only [receiptPage] at h
  have hmem := List.mem_mergeSort.mp (List.mem_of_mem_take h)
  obtain ⟨r, hr, rfl⟩ := List.mem_map.mp hmem
  obtain ⟨hr, hp⟩ := List.mem_filter.mp hr
  simp only [decide_eq_true_eq] at hp
  rw [← hp.1]
  exact (List.mem_dlookup_iff db.receipts.nodupKeys).mpr hr

theorem lookup_eraseReceipts (id : Uuid) : ∀ (ids : List Uuid) (t : Table Uuid Uuid),
    (eraseReceipts t ids).lookup id = if id ∈ ids then none else t.lookup id
  | [], t => by simp [eraseReceipts]
  | x :: ids, t => by
      have ih := lookup_eraseReceipts id ids (t.erase x)
      simp only [eraseReceipts, List.foldl_cons] at ih ⊢
      rw [ih]
      by_cases hx : id = x
      · subst hx
        simp
      · simp [hx]

theorem clean_inv {s t : System} (hinv : Inv lib journalId s) (hopen : s.isOpen = true)
    {a : Task M} (ha : a = .select ∨ a = .filter ∨ ∃ ok, a = .delete ok)
    (h : taskStep lib cfg journalId s a = some t) : Inv lib journalId t := by
  have hnever : s.isOpen = false → False := fun hclosed =>
    absurd (hopen.symm.trans hclosed) (by decide)
  rcases ha with rfl | rfl | ⟨ok, rfl⟩
  · simp only [taskStep, Option.some.injEq] at h
    subst h
    refine ⟨hinv.journal, hinv.workers, hinv.db, ⟨fun id hid => ?_, by simp⟩,
      fun hc => (hnever hc).elim, hinv.entries, hinv.stored⟩
    exact hinv.db.owned id (mem_receiptPage hid)
  · simp only [taskStep] at h
    split at h
    · cases h
    rename_i id rest htodo
    cases h
    refine ⟨hinv.journal, hinv.workers, hinv.db, ⟨fun x hx => ?_, fun x hx => ?_⟩,
      fun hc => (hnever hc).elim, hinv.entries, hinv.stored⟩
    · exact hinv.cleaner.todo x (by rw [htodo]; exact List.mem_cons_of_mem _ hx)
    · simp only at hx
      split at hx
      · rename_i hcan
        rcases List.mem_cons.mp hx with rfl | hx
        · -- the id has left the catalog, so its file is gone
          have happ := hinv.cleaner.todo x (by rw [htodo]; exact List.mem_cons_self)
          simp only [Catalog.receiptCanBeRemoved, decide_eq_true_eq] at hcan
          rcases hinv.entries hopen x (.inl happ) with hin | hq | hg
          · exact absurd hin hcan.1
          · exact absurd hq hcan.2
          · exact ⟨happ, hg⟩
        · exact hinv.cleaner.removable x hx
      · exact hinv.cleaner.removable x hx
  · simp only [taskStep] at h
    split at h
    · cases h
      refine ⟨hinv.journal.ended (fun _ hb => hb) (List.Subset.refl _), ⟨hinv.workers.claims,
        hinv.workers.ok, hinv.workers.held⟩, ?_, ⟨hinv.cleaner.todo, by simp⟩,
        fun hc => (hnever hc).elim, hinv.entries, hinv.stored⟩
      refine ⟨hinv.db.once, hinv.db.receipts, hinv.db.owned, hinv.db.inserting, fun ids hids => ?_⟩
      rcases List.mem_cons.mp hids with rfl | hids
      · exact hinv.cleaner.removable
      · exact hinv.db.deleting ids hids
    · cases h

/-! ### The database on its own -/

theorem commit_inv {s : System} {id : Uuid} (hinv : Inv lib journalId s)
    (hid : id ∈ s.db.inserting) :
    Inv lib journalId { s with
      db := commitInsert s.db id journalId
      workers := s.workers.map (answer id .persisted) } := by
  have hfresh := hinv.db.inserting.2 id hid
  have hbegun : ∀ x, Begun (commitInsert s.db id journalId) x → Begun s.db x := by
    rintro x (hx | hx)
    · rcases List.mem_cons.mp hx with rfl | hx
      · exact .inr hid
      · exact .inl hx
    · exact .inr (List.mem_of_mem_erase hx)
  have happ : s.db.applied ⊆ (commitInsert s.db id journalId).applied := List.subset_cons_self _ _
  refine ⟨hinv.journal.ended hbegun happ, hinv.workers.answer hbegun happ List.mem_cons_self, ?_,
    hinv.cleaner.mono happ fun _ _ hg => hg, ?_, fun ho x hx => hinv.entries ho x (hbegun x hx),
    fun x hx => (hinv.stored x hx).imp_left fun hx => happ hx⟩
  · refine ⟨List.nodup_cons.mpr ⟨hfresh, hinv.db.once⟩, ?_, ?_, ⟨?_, ?_⟩, ?_⟩
    · intro x hx
      by_cases hxid : x = id
      · subst hxid
        exact .inl (AList.lookup_insert _)
      · simp only [commitInsert, AList.lookup_insert_ne hxid]
        exact hinv.db.receipts x (List.mem_of_ne_of_mem hxid hx)
    · intro x hx
      by_cases hxid : x = id
      · subst hxid
        exact List.mem_cons_self
      · simp only [commitInsert, AList.lookup_insert_ne hxid] at hx
        exact happ (hinv.db.owned x hx)
    · exact hinv.db.inserting.1.erase id
    · intro x hx
      obtain ⟨hne, hx⟩ := (List.Nodup.mem_erase_iff hinv.db.inserting.1).mp hx
      simp only [commitInsert, List.mem_cons, not_or]
      exact ⟨hne, hinv.db.inserting.2 x hx⟩
    · intro ids hids x hx
      exact ⟨happ (hinv.db.deleting ids hids x hx).1, (hinv.db.deleting ids hids x hx).2⟩
  · intro hclosed
    obtain ⟨hcalls, hworkers, htodo⟩ := hinv.idle hclosed
    exact ⟨hcalls, by simp [hworkers], htodo⟩

theorem rollback_inv {s : System} {id : Uuid} (hinv : Inv lib journalId s) :
    Inv lib journalId { s with
      db := { s.db with inserting := s.db.inserting.erase id }
      workers := s.workers.map (answer id .finished) } := by
  have hbegun : ∀ x, Begun { s.db with inserting := s.db.inserting.erase id } x → Begun s.db x :=
    fun x hx => hx.imp_right List.mem_of_mem_erase
  refine ⟨hinv.journal.ended hbegun (List.Subset.refl _),
    hinv.workers.answer hbegun (List.Subset.refl _) trivial, ?_,
    hinv.cleaner.mono (List.Subset.refl _) fun _ _ hg => hg, ?_,
    fun ho x hx => hinv.entries ho x (hbegun x hx), hinv.stored⟩
  · exact ⟨hinv.db.once, hinv.db.receipts, hinv.db.owned, ⟨hinv.db.inserting.1.erase id,
      fun x hx => hinv.db.inserting.2 x (List.mem_of_mem_erase hx)⟩, hinv.db.deleting⟩
  · intro hclosed
    obtain ⟨hcalls, hworkers, htodo⟩ := hinv.idle hclosed
    exact ⟨hcalls, by simp [hworkers], htodo⟩

/-- Changes of the tables that leave the inserts alone: retention, and receipt deletions. -/
theorem Inv.tables {s : System} {db : Db} (hinv : Inv lib journalId s)
    (happ : db.applied = s.db.applied) (hins : db.inserting = s.db.inserting)
    (hdb : DbInv journalId s.journal.disk db) : Inv lib journalId { s with db } := by
  have hbegun : ∀ x, Begun db x → Begun s.db x := by
    intro x hx
    simpa only [Begun, happ, hins] using hx
  have hsub : s.db.applied ⊆ db.applied := by rw [happ]; exact List.Subset.refl _
  refine ⟨hinv.journal.ended hbegun hsub, ⟨hinv.workers.claims, fun w hw => ?_,
    hinv.workers.held⟩, hdb, hinv.cleaner.mono hsub fun _ _ hg => hg, hinv.idle,
    fun ho x hx => hinv.entries ho x (hbegun x hx),
    fun x hx => (hinv.stored x hx).imp_left fun hx => hsub hx⟩
  have hok := hinv.workers.ok w hw
  obtain ⟨id, stage⟩ := w
  cases stage with
  | persisted => exact hsub hok
  | invalid => exact ⟨hok.1, fun hb => hok.2 (hbegun id hb)⟩
  | _ => exact hok

theorem deleted_inv {s : System} {i : ℕ} {ids : List Uuid} (hinv : Inv lib journalId s)
    (h : s.db.deleting[i]? = some ids) :
    Inv lib journalId { s with db := { s.db with
      receipts := eraseReceipts s.db.receipts ids, deleting := s.db.deleting.eraseIdx i } } := by
  refine hinv.tables rfl rfl ⟨hinv.db.once, fun x hx => ?_, fun x hx => ?_, hinv.db.inserting,
    fun xs hxs => hinv.db.deleting xs (List.mem_of_mem_eraseIdx hxs)⟩
  · simp only [lookup_eraseReceipts]
    by_cases hids : x ∈ ids
    · exact .inr (hinv.db.deleting ids (List.mem_of_getElem? h) x hids).2
    · simp only [hids, if_false]
      exact hinv.db.receipts x hx
  · simp only [lookup_eraseReceipts] at hx
    split at hx
    · cases hx
    · exact hinv.db.owned x hx

/-! ### Crashes and recovery -/

theorem versions_crashed (d : Disk) (pick : Uuid → ℕ) (torn : Uuid → Bytes) (id : Uuid) :
    ∀ v ∈ (crashed d pick torn).versions id,
      ∃ w ∈ d.versions id, v.trace = w.trace ∧ v.quarantine = w.quarantine := by
  intro v hv
  rcases List.mem_cons.mp hv with rfl | hv
  · refine ⟨(d.slots id :: d.past id).getD (pick id) (d.slots id), ?_, rfl, rfl⟩
    simp only [List.getD, Disk.versions]
    rcases hget : (d.slots id :: d.past id)[pick id]? with _ | w
    · exact List.mem_cons_self
    · exact List.mem_of_getElem? hget
  · exact ⟨v, hv, rfl, rfl⟩

theorem crash_inv {s : System} (hinv : Inv lib journalId s) (pick : Uuid → ℕ)
    (torn : Uuid → Bytes) :
    Inv lib journalId { s with
      journal := ⟨crashed s.journal.disk pick torn, {}, [], []⟩
      isOpen := false
      workers := []
      cleaner := {} } := by
  have hfiles : ∀ x, (crashed s.journal.disk pick torn).traceFiles x ⊆
      s.journal.disk.traceFiles x := by
    intro x f hf
    obtain ⟨v, hv, hfv⟩ := mem_traceFiles.mp hf
    obtain ⟨w, hw, htrace, -⟩ := versions_crashed _ pick torn x v hv
    exact mem_traceFiles.mpr ⟨w, hw, htrace ▸ hfv⟩
  refine ⟨hinv.journal.idle ⟨?_, ?_⟩ rfl hfiles rfl, ⟨rfl, by simp, by simp⟩,
    hinv.db.mono fun x _ hg => hg.mono (hfiles x), ⟨by simp, by simp⟩, fun _ => ⟨rfl, rfl, rfl⟩,
    by simp, fun x hx => (hinv.stored x hx).imp_right fun hk v hv => ?_⟩
  · simp [situations, running]
  · simp [situations, running]
  · obtain ⟨w, hw, htrace, hquar⟩ := versions_crashed _ pick torn x v hv
    rw [htrace, hquar]
    exact hk w hw

theorem scanMove_spec {d d' : Disk} {id : Uuid} {kind : Kind} {readable : Bool}
    {destination : Uuid} (h : scanMove d id kind readable destination = some d') :
    d'.seen = d.seen ∧ (∀ x, d'.traceFiles x ⊆ d.traceFiles x) ∧ ∀ x, d.Kept x → d'.Kept x := by
  have htouch : ∀ slot : Slot, d' = d.touch id slot →
      (slot.trace = (d.slots id).trace ∨ slot.trace = none) → slot.quarantine ≠ [] →
      d'.seen = d.seen ∧ (∀ x, d'.traceFiles x ⊆ d.traceFiles x) ∧
        ∀ x, d.Kept x → d'.Kept x := by
    rintro slot rfl htrace hquar
    refine ⟨rfl, fun x => ?_, fun x hk => ?_⟩ <;> by_cases hx : x = id
    · subst hx; exact (touch_settles htrace).files
    · exact (touch_frame hx).settles.files
    · subst hx; exact touch_kept (fun _ => .inr hquar) hk
    · exact (touch_frame hx).kept hk
  simp only [scanMove] at h
  split at h
  · obtain ⟨f, -, rfl⟩ := Option.map_eq_some_iff.mp h
    exact htouch _ rfl (.inl rfl) (by simp)
  · obtain ⟨f, -, h⟩ := Option.bind_eq_some_iff.mp h
    split at h
    · cases h
    · cases h
      exact htouch _ rfl (.inr rfl) (by simp)
  · cases h

theorem scan_inv {s : System} {id : Uuid} {kind : Kind} {readable : Bool} {destination : Uuid}
    {d : Disk} (hinv : Inv lib journalId s) (hclosed : s.isOpen = false)
    (h : scanMove s.journal.disk id kind readable destination = some d) :
    Inv lib journalId { s with journal := { s.journal with disk := d } } := by
  obtain ⟨hseen, hfiles, hkept⟩ := scanMove_spec h
  obtain ⟨hcalls, hworkers, htodo⟩ := hinv.idle hclosed
  refine ⟨hinv.journal.idle ⟨hinv.journal.queue.le_one, ?_⟩ hseen hfiles hcalls, ?_,
    hinv.db.mono fun x _ hg => hg.mono (hfiles x),
    hinv.cleaner.mono (List.Subset.refl _) fun x _ hg => hg.mono (hfiles x), hinv.idle, ?_,
    fun x hx => (hinv.stored x hx).imp_right (hkept x)⟩
  · intro x hx
    exact hinv.journal.queue.unseen x (hseen ▸ hx)
  · exact ⟨hinv.workers.claims, by simp [hworkers], by simp [hworkers]⟩
  · intro hopen
    exact absurd (hopen.symm.trans hclosed) (by decide)

/-- The scan enters every recovered record, and remembers the id of every other file. -/
theorem scan_complete {now : ℕ} {readable : Uuid → Bool} {files : List DirEntry} {c : Catalog}
    (h : Schemes.run (scanFile now readable) {} files = some c) :
    ∀ e ∈ files, e.id ∈ c.entries ∨ e.id ∈ c.quarantineIds := by
  refine run_inv (I := fun files (c : Catalog) =>
    ∀ e ∈ files, e.id ∈ c.entries ∨ e.id ∈ c.quarantineIds) h (by simp) ?_
  intro done x c t ih hstep e he
  rw [List.mem_append, List.mem_singleton] at he
  obtain ⟨-, ⟨hd, -, -, rfl⟩ | ⟨-, rfl⟩⟩ := scanFile_cases hstep
  · rcases he with he | rfl
    · exact (ih e he).imp_left fun hin => (AList.mem_insert _).mpr (.inr hin)
    · exact .inl ((AList.mem_insert _).mpr (.inl rfl))
  · rcases he with he | rfl
    · exact (ih e he).imp_right fun hq => List.mem_cons_of_mem _ hq
    · exact .inr List.mem_cons_self

theorem openSlot_spec (readable : Uuid → Bool) (destination : Kind → Uuid → Uuid) (id : Uuid)
    (slot : Slot) :
    ((openSlot readable destination id slot).trace = slot.trace ∨
      (openSlot readable destination id slot).trace = none) ∧
    (slot.trace.isSome = true ∨ slot.quarantine ≠ [] →
      (openSlot readable destination id slot).trace.isSome = true ∨
        (openSlot readable destination id slot).quarantine ≠ []) := by
  simp only [openSlot]
  split
  · exact ⟨.inl rfl, Or.imp_right fun hq => by simp [hq]⟩
  · refine ⟨.inr rfl, fun hv => .inr ?_⟩
    rcases hv with hv | hv
    · obtain ⟨f, hf⟩ := Option.isSome_iff_exists.mp hv
      simp [hf]
    · simp [hv]

theorem reopen_inv {s : System} {now : ℕ} {readable : Uuid → Bool}
    {destination : Kind → Uuid → Uuid} {j : State} (hinv : Inv lib journalId s)
    (hclosed : s.isOpen = false) (h : openJournal s.journal.disk now readable destination = some j) :
    Inv lib journalId { s with journal := j, isOpen := true } := by
  have hqueue := (open_queue h).1
  obtain ⟨-, hworkers, htodo⟩ := hinv.idle hclosed
  simp only [openJournal] at h
  split at h
  · cases h
  rename_i c hscan
  cases h
  have hslot : ∀ x, (s.journal.disk.slots x).trace = none →
      (openSlot readable destination x (s.journal.disk.slots x)).trace = none := by
    intro x hnone
    rcases (openSlot_spec readable destination x (s.journal.disk.slots x)).1 with ht | ht
    · rw [ht, hnone]
    · exact ht
  -- the syncs of `open` leave one version of every slot
  have hversions : ∀ x, ∀ v ∈ Disk.versions ⟨fun id => openSlot readable destination id
      (s.journal.disk.slots id), fun _ => [], s.journal.disk.seen⟩ x,
      v = openSlot readable destination x (s.journal.disk.slots x) := by
    intro x v hv
    exact List.mem_singleton.mp hv
  have hfiles : ∀ x, Disk.traceFiles ⟨fun id => openSlot readable destination id
      (s.journal.disk.slots id), fun _ => [], s.journal.disk.seen⟩ x ⊆
      s.journal.disk.traceFiles x := by
    intro x f hf
    obtain ⟨v, hv, hfv⟩ := mem_traceFiles.mp hf
    obtain rfl := hversions x v hv
    rcases (openSlot_spec readable destination x (s.journal.disk.slots x)).1 with ht | ht
    · exact trace_mem (ht ▸ hfv)
    · rw [ht] at hfv; cases hfv
  refine ⟨hinv.journal.idle hqueue rfl hfiles rfl, ⟨?_, by simp [hworkers], by simp [hworkers]⟩,
    hinv.db.mono fun x _ hg => hg.mono (hfiles x),
    hinv.cleaner.mono (List.Subset.refl _) fun x _ hg => hg.mono (hfiles x), by simp,
    fun _ x _ => ?_, fun x hx => (hinv.stored x hx).imp_right fun hk v hv => ?_⟩
  · simp [hworkers]
  · rcases htrace : (s.journal.disk.slots x).trace with _ | f
    · right; right
      simp [Disk.Gone, Disk.traceFiles, Disk.versions, hslot x htrace]
    · have hx : x ∈ s.journal.disk.seen := by
        by_contra hx
        have := (hinv.journal.unseen x hx).1.trace
        rw [htrace] at this
        cases this
      have hlist : (⟨x, .trace, f⟩ : DirEntry) ∈ s.journal.disk.listing := by
        refine List.mem_flatMap.mpr ⟨x, List.mem_dedup.mpr hx, ?_⟩
        simp [Slot.listing, htrace]
      rcases scan_complete hscan _ hlist with hin | hq
      · exact .inl hin
      · exact .inr (.inl hq)
  · obtain rfl := hversions x v hv
    exact (openSlot_spec readable destination x (s.journal.disk.slots x)).2
      (hk _ List.mem_cons_self)

end
end Llmtrace.Replay
