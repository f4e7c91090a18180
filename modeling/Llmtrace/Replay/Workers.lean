import Llmtrace.Replay.Records

/-! The invariant of the replay, and why the appends, the running calls and the workers keep it.

    The order of the durable effects carries it. While a `.trace` file of an applied id may still
    come back, its receipt is there (`DbInv.receipts`), because the cleaner only takes receipts of
    ids that left the catalog, and an applied id leaves the catalog after its file is durably gone
    (`Inv.entries`). A worker that found no receipt and then reads the file therefore holds an id
    that is not applied, and its insert waits for any transaction left behind on that id. -/

namespace Llmtrace.Replay
open Schemes Journal

section
variable {M : Type} (lib : Lib M)

/-- What a worker knows of its record. -/
def WorkerOk (j : State) (db : Db) (w : Worker) : Prop :=
  match w.stage with
  | .claimed | .finished => True
  | .absent => j.disk.Gone w.id ∨ ∀ call ∈ j.calls, call.id = w.id → acknowledging call.phase = false
  | .loaded | .inserting => (∀ call ∈ j.calls, call.id ≠ w.id) ∧ w.id ∈ j.catalog.entries ∧
      ∃ f ev, (j.disk.slots w.id).trace = some f ∧ read lib f.bytes w.id = .ok ev
  | .persisted => w.id ∈ db.applied
  | .invalid => Unreadable lib j.disk w.id ∧ ¬ Begun db w.id

/-- The workers hold the claims of the journal. -/
structure WorkersInv (j : State) (db : Db) (workers : List Worker) : Prop where
  claims : j.claims = workers.map Worker.id
  ok : ∀ w ∈ workers, WorkerOk lib j db w
  held : ∀ w ∈ workers, w.id ∈ j.catalog.entries ∨ Unreadable lib j.disk w.id

end

/-- Receipts and transactions, by what is left on disk. -/
structure DbInv (journalId : Uuid) (d : Disk) (db : Db) : Prop where
  once : db.applied.Nodup
  receipts : ∀ id ∈ db.applied, db.receipts.lookup id = some journalId ∨ d.Gone id
  owned : ∀ id, db.receipts.lookup id = some journalId → id ∈ db.applied
  inserting : db.inserting.Nodup ∧ ∀ id ∈ db.inserting, id ∉ db.applied
  deleting : ∀ ids ∈ db.deleting, ∀ id ∈ ids, id ∈ db.applied ∧ d.Gone id

/-- The receipts that are to be removed belong to traces that were applied and have no file left. -/
structure CleanerInv (d : Disk) (db : Db) (cleaner : Cleaner) : Prop where
  todo : ∀ id ∈ cleaner.todo, id ∈ db.applied
  removable : ∀ id ∈ cleaner.removable, id ∈ db.applied ∧ d.Gone id

/-- The invariant of all runs. -/
structure Inv {M : Type} (lib : Lib M) (journalId : Uuid) (s : System) : Prop where
  journal : JournalInv lib s.journal s.db
  workers : WorkersInv lib s.journal s.db s.workers
  db : DbInv journalId s.journal.disk s.db
  cleaner : CleanerInv s.journal.disk s.db s.cleaner
  idle : s.isOpen = false → s.journal.calls = [] ∧ s.workers = [] ∧ s.cleaner.todo = []
  entries : s.isOpen = true → ∀ id, Begun s.db id →
    id ∈ s.journal.catalog.entries ∨ id ∈ s.journal.catalog.quarantineIds ∨ s.journal.disk.Gone id
  stored : ∀ id ∈ s.stored, id ∈ s.db.applied ∨ s.journal.disk.Kept id

section
variable {M : Type} {lib : Lib M} {cfg : JournalConfig} {journalId : Uuid}

/-! ### Workers and claims -/

theorem WorkersInv.running {j : State} {db : Db} {workers : List Worker}
    (h : WorkersInv lib j db workers) (hq : QueueInv j) {w : Worker} (hw : w ∈ workers) :
    running j w.id = 0 := by
  have hcount : 1 ≤ j.claims.count w.id :=
    List.one_le_count_iff.mpr (h.claims ▸ List.mem_map_of_mem hw)
  have := hq.le_one w.id
  simp only [situations] at this
  omega

theorem WorkersInv.unique {j : State} {db : Db} {workers : List Worker}
    (h : WorkersInv lib j db workers) (hq : QueueInv j) : (workers.map Worker.id).Nodup := by
  rw [← h.claims]
  refine List.nodup_iff_count_le_one.mpr fun x => ?_
  have := hq.le_one x
  simp only [situations] at this
  omega

theorem workerAt_some {s : System} {i : ℕ} {stage : Stage} {id : Uuid}
    (h : workerAt s i stage = some id) : s.workers[i]? = some ⟨id, stage⟩ := by
  simp only [workerAt] at h
  split at h
  · rename_i w hw
    split at h
    · rename_i hstage
      cases h
      rw [hw, ← hstage]
    · cases h
  · cases h

/-- A worker moves on: the others keep their place, and it has learnt what its stage says. -/
theorem WorkersInv.set {j : State} {db : Db} {workers : List Worker} {i : ℕ} {w : Worker}
    (h : WorkersInv lib j db workers) (hw : workers[i]? = some w) (stage : Stage)
    (hok : WorkerOk lib j db ⟨w.id, stage⟩) :
    WorkersInv lib j db (workers.set i ⟨w.id, stage⟩) := by
  refine ⟨?_, fun x hx => ?_, fun x hx => ?_⟩
  · rw [pool_map_set Worker.id hw (by rfl)]
    exact h.claims
  · rcases pool_mem_set hw hx with rfl | hx
    · exact hok
    · exact h.ok x (List.mem_of_mem_eraseIdx hx)
  · rcases pool_mem_set hw hx with rfl | hx
    · exact h.held w (pool_mem hw)
    · exact h.held x (List.mem_of_mem_eraseIdx hx)

/-- A running call leaves the workers what they know. -/
theorem runCall_workers {j t : State} {db : Db} {workers : List Worker} {i : ℕ} {io : Io}
    (hj : JournalInv lib j db) (h : WorkersInv lib j db workers) (hrun : runCall j i io = some t) :
    WorkersInv lib t db workers := by
  have hset : ∀ w ∈ workers, Settles j.disk t.disk w.id := by
    intro w hw
    obtain ⟨call, d', c', next, hcall, -, hadv, rfl⟩ := runCall_cases hrun
    exact JournalInv.settles hcall hadv (h.running hj.queue hw)
  refine ⟨?_, fun w hw => ?_, fun w hw => ?_⟩
  · obtain ⟨call, d', c', next, -, -, -, rfl⟩ := runCall_cases hrun
    exact h.claims
  · have hok := h.ok w hw
    obtain ⟨id, stage⟩ := w
    cases stage with
    | claimed | finished => trivial
    | absent =>
      refine hok.imp (fun hg => hg.mono (hset _ hw).files) fun hg call hcall hid => ?_
      obtain ⟨call', hcall', hid', hack⟩ := runCall_calls hrun hcall
      rw [← hack]
      exact hg call' hcall' (hid'.trans hid)
    | loaded | inserting =>
      obtain ⟨hno, hin, f, ev, hf, hread⟩ := hok
      have hframe := runCall_frame hrun hno
      refine ⟨fun call hcall => ?_, ?_, f, ev, by simpa only [hframe.slot] using hf, hread⟩
      · obtain ⟨call', hcall', hid', -⟩ := runCall_calls hrun hcall
        rw [← hid']
        exact hno call' hcall'
      · have htrace : f ∈ t.disk.traceFiles id := trace_mem (by rw [hframe.slot]; exact hf)
        rcases runCall_leaves hj hrun hin (h.running hj.queue hw) with hin | ⟨hun, -⟩ | ⟨-, hgone⟩
        · exact hin
        · exact absurd hread (hun f htrace ev)
        · rw [hgone] at htrace; cases htrace
    | persisted => exact hok
    | invalid => exact ⟨hok.1.mono (hset _ hw).files, hok.2⟩
  · rcases h.held w hw with hin | hun
    · rcases runCall_leaves hj hrun hin (h.running hj.queue hw) with hin | ⟨hun, -⟩ | ⟨-, hgone⟩
      · exact .inl hin
      · exact .inr hun
      · exact .inr (Unreadable.of_gone hgone)
    · exact .inr (hun.mono (hset w hw).files)

/-! ### What changes when the directory or the database does -/

theorem DbInv.mono {d d' : Disk} {db : Db} (h : DbInv journalId d db)
    (hd : ∀ id ∈ db.applied, d.Gone id → d'.Gone id) : DbInv journalId d' db where
  once := h.once
  receipts id hid := (h.receipts id hid).imp_right (hd id hid)
  owned := h.owned
  inserting := h.inserting
  deleting ids hids id hid := ⟨(h.deleting ids hids id hid).1,
    hd id (h.deleting ids hids id hid).1 (h.deleting ids hids id hid).2⟩

theorem CleanerInv.mono {d d' : Disk} {db db' : Db} {cleaner : Cleaner}
    (h : CleanerInv d db cleaner) (ha : db.applied ⊆ db'.applied)
    (hd : ∀ id ∈ db.applied, d.Gone id → d'.Gone id) : CleanerInv d' db' cleaner where
  todo id hid := ha (h.todo id hid)
  removable id hid := ⟨ha (h.removable id hid).1, hd id (h.removable id hid).1
    (h.removable id hid).2⟩

/-- A transaction ends: nothing begins, and what was applied stays applied. -/
theorem JournalInv.ended {j : State} {db db' : Db} (h : JournalInv lib j db)
    (hb : ∀ id, Begun db' id → Begun db id) (ha : db.applied ⊆ db'.applied) :
    JournalInv lib j db' := by
  refine ⟨h.queue, fun id hid => ?_, h.same, fun call hcall => ?_, h.seen, h.alone,
    fun id hid => h.quiet id (hb id hid), fun id hid => h.readable id (hb id hid)⟩
  · exact ⟨(h.unseen id hid).1, fun hbegun => (h.unseen id hid).2 (hb id hbegun)⟩
  · have hok := h.calls call hcall
    obtain ⟨id, phase⟩ := call
    cases phase with
    | create | write | rename | sync | publish => exact hok
    | move | syncMoved | quarantined =>
      exact hok.imp_right fun hok => ⟨hok.1, fun hbegun => hok.2 (hb id hbegun)⟩
    | unlink => exact ha hok
    | syncUnlinked | unlinked => exact ⟨ha hok.1, hok.2⟩

/-- The end of a transaction answers its worker. -/
theorem WorkersInv.answer {j : State} {db db' : Db} {workers : List Worker} {id : Uuid}
    {stage : Stage} (h : WorkersInv lib j db workers) (hb : ∀ id, Begun db' id → Begun db id)
    (ha : db.applied ⊆ db'.applied) (hstage : WorkerOk lib j db' ⟨id, stage⟩) :
    WorkersInv lib j db' (workers.map (Replay.answer id stage)) := by
  have hid : ∀ w, (Replay.answer id stage w).id = w.id := by
    intro w
    simp only [Replay.answer]
    split <;> rfl
  refine ⟨?_, fun x hx => ?_, fun x hx => ?_⟩
  · rw [h.claims, List.map_map]
    exact List.map_congr_left fun w _ => (hid w).symm
  · obtain ⟨w, hw, rfl⟩ := List.mem_map.mp hx
    simp only [Replay.answer]
    split
    · rename_i heq
      rw [heq.1]
      exact hstage
    · have hok := h.ok w hw
      obtain ⟨x, st⟩ := w
      cases st with
      | claimed | finished => trivial
      | absent | loaded | inserting => exact hok
      | persisted => exact ha hok
      | invalid => exact ⟨hok.1, fun hbegun => hok.2 (hb x hbegun)⟩
  · obtain ⟨w, hw, rfl⟩ := List.mem_map.mp hx
    rw [hid]
    exact h.held w hw

/-! ### One step -/

theorem append_inv {s : System} {e : TraceEvent M} {now : ℕ} {j : State}
    (hinv : Inv lib journalId s) (hopen : s.isOpen = true)
    (h : Journal.step lib cfg s.journal (.append e now) = some j) :
    Inv lib journalId { s with journal := j } := by
  have hj := append_journal hinv.journal h
  obtain rfl | ⟨metadata, c, -, hnew, hres, rfl⟩ := beginAppend_cases h
  · exact hinv
  obtain ⟨-, -, -, rfl⟩ := Catalog.reserve_ok hres
  have hne : ∀ w ∈ s.workers, w.id ≠ e.id := by
    rintro w hw heq
    have hzero := (hinv.journal.queue.unseen _ hnew).1
    have hcount : 1 ≤ s.journal.claims.count w.id :=
      List.one_le_count_iff.mpr (hinv.workers.claims ▸ List.mem_map_of_mem hw)
    simp only [situations] at hzero
    rw [heq] at hcount
    omega
  refine ⟨hj, ⟨hinv.workers.claims, ?_, ?_⟩, hinv.db.mono fun _ _ hg => hg,
    hinv.cleaner.mono (List.Subset.refl _) fun _ _ hg => hg, ?_, ?_, hinv.stored⟩
  · intro w hw
    have hok := hinv.workers.ok w hw
    have hw' := hne w hw
    obtain ⟨id, stage⟩ := w
    cases stage with
    | claimed | finished => trivial
    | absent =>
      refine hok.imp_right fun hok call hcall hid => ?_
      rcases List.mem_cons.mp hcall with rfl | hcall
      · rfl
      · exact hok call hcall hid
    | loaded | inserting =>
      obtain ⟨hno, hin, hfile⟩ := hok
      refine ⟨fun call hcall => ?_, (AList.mem_insert _).mpr (.inr hin), hfile⟩
      rcases List.mem_cons.mp hcall with rfl | hcall
      · exact hw'.symm
      · exact hno call hcall
    | persisted => exact hok
    | invalid => exact hok
  · intro w hw
    exact (hinv.workers.held w hw).imp_left fun hin => (AList.mem_insert _).mpr (.inr hin)
  · exact fun hclosed => absurd (hopen.symm.trans hclosed) (by decide)
  · intro _ id hid
    exact (hinv.entries hopen id hid).imp_left fun hin => (AList.mem_insert _).mpr (.inr hin)

theorem run_call_inv {s : System} {i : ℕ} {io : Io} {j : State} (cfg : JournalConfig)
    (hinv : Inv lib journalId s) (hopen : s.isOpen = true) (h : runCall s.journal i io = some j) :
    Inv lib journalId { s with
      journal := j
      stored := match s.journal.calls[i]? with
        | some ⟨id, .publish⟩ => id :: s.stored
        | _ => s.stored } := by
  have hgone : ∀ id, Begun s.db id → s.journal.disk.Gone id → j.disk.Gone id := by
    intro id hid hg
    obtain ⟨call, d', c', next, hcall, -, hadv, rfl⟩ := runCall_cases h
    exact hg.mono (JournalInv.settles hcall hadv (hinv.journal.quiet id hid)).files
  have hgone' : ∀ id ∈ s.db.applied, s.journal.disk.Gone id → j.disk.Gone id :=
    fun id hid => hgone id (.inl hid)
  refine ⟨runCall_journal cfg hinv.journal h, runCall_workers hinv.journal hinv.workers h,
    hinv.db.mono hgone', hinv.cleaner.mono (List.Subset.refl _) hgone', ?_, ?_, ?_⟩
  · exact fun hclosed => absurd (hopen.symm.trans hclosed) (by decide)
  · intro _ id hid
    rcases hinv.entries hopen id hid with hin | hq | hg
    · rcases runCall_leaves hinv.journal h hin (hinv.journal.quiet id hid) with
        hin | ⟨-, hnot⟩ | ⟨-, hg⟩
      · exact .inl hin
      · exact absurd hid hnot
      · exact .inr (.inr hg)
    · exact .inr (.inl (runCall_quarantineIds h hq))
    · exact .inr (.inr (hgone id hid hg))
  · intro id hid
    refine runCall_kept hinv.journal h ?_
    split at hid
    · rename_i x hcall
      rcases List.mem_cons.mp hid with rfl | hid
      · -- the step by which `append` returns `Ok`
        exact .inr (hinv.journal.calls _ (pool_mem hcall))
      · exact hinv.stored id hid
    · exact hinv.stored id hid

theorem claim_inv {s t : System} {now : ℕ} {reserve : Uuid → Bool} (hinv : Inv lib journalId s)
    (hopen : s.isOpen = true)
    (h : taskStep lib cfg journalId s (.claim now reserve) = some t) : Inv lib journalId t := by
  obtain ⟨q, hc, hq⟩ := Catalog.claim_spec now reserve s.journal.catalog
  have hstep : ∀ j, Journal.step lib cfg s.journal (.claim now reserve) = some j → QueueInv j :=
    fun j hj => (step_situations hinv.journal.queue hj).1
  simp only [Journal.step] at hstep
  simp only [taskStep] at h
  rcases hcl : s.journal.catalog.claim now reserve with ⟨c, _ | id⟩ <;>
    rw [hcl] at h hc hq hstep <;> simp only [Option.some.injEq] at h hc hq hstep <;> subst h hc
  · refine ⟨hinv.journal.catalog (hstep _ rfl) rfl rfl, ⟨hinv.workers.claims, hinv.workers.ok,
      hinv.workers.held⟩, hinv.db, hinv.cleaner, hinv.idle, hinv.entries, hinv.stored⟩
  · refine ⟨hinv.journal.catalog (hstep _ rfl) rfl rfl, ⟨?_, ?_, ?_⟩, hinv.db, hinv.cleaner, ?_,
      hinv.entries, hinv.stored⟩
    · simp [hinv.workers.claims]
    · intro w hw
      rcases List.mem_cons.mp hw with rfl | hw
      · trivial
      · exact hinv.workers.ok w hw
    · intro w hw
      rcases List.mem_cons.mp hw with rfl | hw
      · exact .inl hq.1
      · exact hinv.workers.held w hw
    · exact fun hclosed => absurd (hopen.symm.trans hclosed) (by decide)

theorem drop_inv {s : System} {i now : ℕ} {j : State} (hinv : Inv lib journalId s)
    (hopen : s.isOpen = true) (h : Journal.step lib cfg s.journal (.drop i now) = some j) :
    Inv lib journalId { s with journal := j, workers := s.workers.eraseIdx i } := by
  have hqueue := (step_situations hinv.journal.queue h).1
  simp only [Journal.step] at h
  split at h
  · cases h
  rename_i id hid
  cases h
  have hmem : ∀ x, x ∈ (s.journal.catalog.retry cfg id now).entries ↔
      x ∈ s.journal.catalog.entries := fun x => Catalog.mem_retry
  refine ⟨hinv.journal.catalog hqueue rfl rfl, ⟨?_, ?_, ?_⟩, hinv.db, hinv.cleaner, ?_, ?_,
    hinv.stored⟩
  · simp only [hinv.workers.claims, List.eraseIdx_map]
  · intro w hw
    have hok := hinv.workers.ok w (List.mem_of_mem_eraseIdx hw)
    obtain ⟨x, stage⟩ := w
    cases stage with
    | claimed | finished => trivial
    | absent | persisted | invalid => exact hok
    | loaded | inserting => exact ⟨hok.1, (hmem _).mpr hok.2.1, hok.2.2⟩
  · intro w hw
    exact (hinv.workers.held w (List.mem_of_mem_eraseIdx hw)).imp_left (hmem _).mpr
  · exact fun hclosed => absurd (hopen.symm.trans hclosed) (by decide)
  · intro _ x hx
    refine (hinv.entries hopen x hx).imp (hmem x).mpr (Or.imp_left fun hq => ?_)
    simp only [Catalog.retry]
    split
    · exact hq
    · exact hq

/-- The steps by which a worker only learns something. -/
theorem Inv.learn {s : System} {i : ℕ} {id : Uuid} {old stage : Stage} (hinv : Inv lib journalId s)
    (hopen : s.isOpen = true) (hw : s.workers[i]? = some ⟨id, old⟩)
    (hok : WorkerOk lib s.journal s.db ⟨id, stage⟩) : Inv lib journalId (setStage s i id stage) :=
  ⟨hinv.journal, hinv.workers.set hw stage hok, hinv.db, hinv.cleaner,
    fun hclosed => absurd (hopen.symm.trans hclosed) (by decide), hinv.entries, hinv.stored⟩

theorem lookup_inv {s : System} {i : ℕ} {id : Uuid} {persisted : Bool}
    (hinv : Inv lib journalId s) (hopen : s.isOpen = true)
    (hw : s.workers[i]? = some ⟨id, .claimed⟩)
    (h : journalTracePersisted s.db id journalId = some persisted) :
    Inv lib journalId (setStage s i id (if persisted then .persisted else .absent)) := by
  refine hinv.learn hopen hw ?_
  simp only [journalTracePersisted] at h
  split at h
  · -- no receipt
    rename_i hnone
    cases h
    by_cases ha : id ∈ s.db.applied
    · refine .inl ((hinv.db.receipts id ha).resolve_left ?_)
      rw [hnone]
      simp
    · right
      rintro ⟨x, phase⟩ hcall rfl
      have hok := hinv.journal.calls _ hcall
      cases phase with
      | unlink => exact absurd hok ha
      | syncUnlinked | unlinked => exact absurd hok.1 ha
      | _ => rfl
  · rename_i owner howner
    split at h
    · rename_i heq
      cases h
      exact hinv.db.owned id (heq ▸ howner)
    · cases h

theorem load_inv {s : System} {i : ℕ} {id : Uuid} {stage : Stage} (hinv : Inv lib journalId s)
    (hopen : s.isOpen = true) (hw : s.workers[i]? = some ⟨id, .absent⟩)
    (h : loadStage lib s.journal.disk id = some stage) :
    Inv lib journalId (setStage s i id stage) := by
  refine hinv.learn hopen hw ?_
  have hmem : (⟨id, .absent⟩ : Worker) ∈ s.workers := pool_mem hw
  simp only [loadStage] at h
  split at h
  · cases h
  rename_i f hf
  have htrace := trace_mem hf
  split at h
  · -- the record was read
    rename_i ev hread
    cases h
    have hreadable := readable_of_same (hinv.journal.same id) htrace hread
    have hnot : ¬ Unreadable lib s.journal.disk id := fun hun => hun f htrace ev hread
    refine ⟨?_, (hinv.workers.held _ hmem).resolve_right hnot, f, ev, hf, hread⟩
    rintro ⟨x, phase⟩ hcall rfl
    have hok := hinv.journal.calls _ hcall
    have hzero := hinv.workers.running hinv.journal.queue hmem
    have happ : phase.appending = false := by
      by_contra hne
      have := running_pos hcall (by simpa using hne)
      simp only at this hzero
      omega
    have hack : acknowledging phase = false := by
      rcases hinv.workers.ok _ hmem with hgone | hno
      · rw [hgone] at htrace; cases htrace
      · exact hno _ hcall rfl
    cases phase with
    | create | write | rename | sync | publish => cases happ
    | unlink | syncUnlinked | unlinked => cases hack
    | move | syncMoved | quarantined =>
      rcases hok with rfl | hok
      · cases happ
      · exact hnot hok.1
  · cases h
  · -- the record is invalid
    rename_i err _ hread
    cases h
    have hun : ∀ ev, read lib f.bytes id ≠ .ok ev := by rw [hread]; simp
    refine ⟨unreadable_of_same (hinv.journal.same id) htrace hun, fun hbegun => ?_⟩
    obtain ⟨ev, hev⟩ := hinv.journal.readable id hbegun f htrace
    exact hun ev hev

/-- With the transaction of `id` open, nothing else has begun. -/
theorem begun_cons {db : Db} {id x : Uuid}
    (h : Begun { db with inserting := id :: db.inserting } x) : Begun db x ∨ x = id := by
  rcases h with hx | hx
  · exact .inl (.inl hx)
  · rcases List.mem_cons.mp hx with rfl | hx
    · exact .inr rfl
    · exact .inl (.inr hx)

theorem not_begun_cons {db : Db} {id x : Uuid} (hx : x ≠ id) (h : ¬ Begun db x) :
    ¬ Begun { db with inserting := id :: db.inserting } x :=
  fun hb => (begun_cons hb).elim h hx

/-- The journal allows the insert of a record that is readable and that no call touches. -/
theorem JournalInv.insert {j : State} {db : Db} {id : Uuid} {f : File} {ev : TraceEvent M}
    (h : JournalInv lib j db) (hno : ∀ call ∈ j.calls, call.id ≠ id) (hrunning : running j id = 0)
    (hf : f ∈ j.disk.traceFiles id) (hread : read lib f.bytes id = .ok ev) :
    JournalInv lib j { db with inserting := id :: db.inserting } := by
  refine ⟨h.queue, fun x hx => ?_, h.same, ?_, h.seen, h.alone, fun x hx => ?_, fun x hx => ?_⟩
  · obtain ⟨hg, hnot⟩ := h.unseen x hx
    refine ⟨hg, not_begun_cons ?_ hnot⟩
    rintro rfl
    rw [hg] at hf
    cases hf
  · intro call hcall
    have hok := h.calls call hcall
    have hne := hno call hcall
    obtain ⟨x, phase⟩ := call
    cases phase with
    | move | syncMoved | quarantined =>
      exact hok.imp_right fun hok => ⟨hok.1, not_begun_cons hne hok.2⟩
    | _ => exact hok
  · rcases begun_cons hx with hx | rfl
    · exact h.quiet x hx
    · exact hrunning
  · rcases begun_cons hx with hx | rfl
    · exact h.readable x hx
    · exact readable_of_same (h.same x) hf hread

/-- The insert of a loaded record: it finds its receipt, fails, or begins. -/
theorem insert_inv {s : System} {i : ℕ} {id : Uuid} {db : Db} {stage : Stage}
    (hinv : Inv lib journalId s) (hopen : s.isOpen = true)
    (hw : s.workers[i]? = some ⟨id, .loaded⟩)
    (h : beginInsert s.db id journalId = some (db, stage)) :
    Inv lib journalId { setStage s i id stage with db } := by
  have hmem : (⟨id, .loaded⟩ : Worker) ∈ s.workers := pool_mem hw
  have hloaded := hinv.workers.ok _ hmem
  obtain ⟨hno, hin, f, ev, hf, hread⟩ := hloaded
  have htrace := trace_mem hf
  simp only [beginInsert] at h
  split at h
  · cases h
  rename_i hfree
  split at h
  · -- ingested before
    rename_i owner howner
    cases h
    refine hinv.learn hopen hw ?_
    split
    · rename_i heq
      exact hinv.db.owned id (heq ▸ howner)
    · trivial
  rename_i hnone
  split at h
  · cases h
    exact hinv.learn hopen hw trivial
  cases h
  have hfresh : id ∉ s.db.applied := by
    intro ha
    rcases hinv.db.receipts id ha with hr | hgone
    · rw [hnone] at hr; cases hr
    · rw [hgone] at htrace; cases htrace
  have hj := hinv.journal.insert hno (hinv.workers.running hinv.journal.queue hmem) htrace hread
  have hunique := hinv.workers.unique hinv.journal.queue
  have hset := hinv.workers.set hw .inserting ⟨hno, hin, f, ev, hf, hread⟩
  refine ⟨hj, ⟨hset.claims, fun w hw' => ?_, hset.held⟩, ?_, ⟨hinv.cleaner.todo,
    hinv.cleaner.removable⟩, ?_, ?_, hinv.stored⟩
  · have hok := hset.ok w hw'
    rcases pool_mem_set hw hw' with rfl | hrest
    · exact hok
    · have hne := pool_key_ne hunique hw hrest
      obtain ⟨x, stage⟩ := w
      cases stage with
      | invalid => exact ⟨hok.1, not_begun_cons hne hok.2⟩
      | _ => exact hok
  · refine ⟨hinv.db.once, hinv.db.receipts, hinv.db.owned, ⟨?_, ?_⟩, hinv.db.deleting⟩
    · exact List.nodup_cons.mpr ⟨hfree, hinv.db.inserting.1⟩
    · intro x hx
      rcases List.mem_cons.mp hx with rfl | hx
      · exact hfresh
      · exact hinv.db.inserting.2 x hx
  · exact fun hclosed => absurd (hopen.symm.trans hclosed) (by decide)
  · intro _ x hx
    rcases begun_cons hx with hx | rfl
    · exact hinv.entries hopen x hx
    · exact .inl hin

/-- A worker hands its record to `acknowledge` or `quarantine`. -/
theorem start_inv {s : System} {i : ℕ} {id : Uuid} {stage : Stage} {phase : Phase}
    (hinv : Inv lib journalId s) (hopen : s.isOpen = true) (hw : s.workers[i]? = some ⟨id, stage⟩)
    (ha : phase.appending = false) (hok : CallOk lib s.journal.disk s.db ⟨id, phase⟩) :
    Inv lib journalId { setStage s i id .finished with
      journal := { s.journal with calls := ⟨id, phase⟩ :: s.journal.calls } } := by
  have hmem : (⟨id, stage⟩ : Worker) ∈ s.workers := pool_mem hw
  have hheld : id ∈ s.journal.claims := hinv.workers.claims ▸ List.mem_map_of_mem hmem
  have hunique := hinv.workers.unique hinv.journal.queue
  have hset := hinv.workers.set hw .finished trivial
  refine ⟨call_journal hinv.journal ha hheld hok, ⟨hset.claims, fun w hw' => ?_, hset.held⟩,
    hinv.db, hinv.cleaner, fun hclosed => absurd (hopen.symm.trans hclosed) (by decide),
    hinv.entries, hinv.stored⟩
  have hwok := hset.ok w hw'
  rcases pool_mem_set hw hw' with rfl | hrest
  · trivial
  have hne := pool_key_ne hunique hw hrest
  obtain ⟨x, st⟩ := w
  cases st with
  | absent =>
    refine hwok.imp_right fun hwok call hcall hid => ?_
    rcases List.mem_cons.mp hcall with rfl | hcall
    · exact absurd hid.symm hne
    · exact hwok call hcall hid
  | loaded | inserting =>
    refine ⟨fun call hcall => ?_, hwok.2⟩
    rcases List.mem_cons.mp hcall with rfl | hcall
    · exact hne.symm
    · exact hwok.1 call hcall
  | _ => exact hwok

end
end Llmtrace.Replay
