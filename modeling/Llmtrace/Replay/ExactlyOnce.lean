import Llmtrace.Replay.Recovery

/-! Exactly-once ingestion. Whatever interleaving of appends, workers, receipt cleaning, retention,
    failures and crashes: the insert of a trace is applied at most once, and a record whose `append`
    returned `Ok` is in the directory until its insert is applied. -/

namespace Llmtrace.Replay
open Schemes Journal

section
variable {M : Type} {lib : Lib M} {cfg : JournalConfig} {journalId : Uuid}

theorem task_inv {s t : System} {a : Task M} (hinv : Inv lib journalId s) (hopen : s.isOpen = true)
    (h : taskStep lib cfg journalId s a = some t) : Inv lib journalId t := by
  cases a with
  | append e now =>
    obtain ⟨j, hj, rfl⟩ := Option.map_eq_some_iff.mp h
    exact append_inv hinv hopen hj
  | run i io =>
    obtain ⟨j, hj, rfl⟩ := Option.map_eq_some_iff.mp h
    exact run_call_inv cfg hinv hopen hj
  | claim now reserve => exact claim_inv hinv hopen h
  | drop i now =>
    obtain ⟨j, hj, rfl⟩ := Option.map_eq_some_iff.mp h
    exact drop_inv hinv hopen hj
  | lookup i =>
    simp only [taskStep] at h
    split at h
    · cases h
    rename_i id hw
    obtain ⟨persisted, hp, rfl⟩ := Option.map_eq_some_iff.mp h
    exact lookup_inv hinv hopen (workerAt_some hw) hp
  | load i =>
    simp only [taskStep] at h
    split at h
    · cases h
    rename_i id hw
    obtain ⟨stage, hstage, rfl⟩ := Option.map_eq_some_iff.mp h
    exact load_inv hinv hopen (workerAt_some hw) hstage
  | insert i =>
    simp only [taskStep] at h
    split at h
    · cases h
    rename_i id hw
    obtain ⟨⟨db, stage⟩, hins, rfl⟩ := Option.map_eq_some_iff.mp h
    exact insert_inv hinv hopen (workerAt_some hw) hins
  | acknowledge i =>
    simp only [taskStep] at h
    split at h
    · cases h
    rename_i id hw
    cases h
    have hw := workerAt_some hw
    exact start_inv hinv hopen hw rfl (hinv.workers.ok _ (pool_mem hw))
  | quarantine i =>
    simp only [taskStep] at h
    split at h
    · cases h
    rename_i id hw
    cases h
    have hw := workerAt_some hw
    exact start_inv hinv hopen hw rfl (.inr (hinv.workers.ok _ (pool_mem hw)))
  | select => exact clean_inv hinv hopen (.inl rfl) h
  | filter => exact clean_inv hinv hopen (.inr (.inl rfl)) h
  | delete ok => exact clean_inv hinv hopen (.inr (.inr ⟨ok, rfl⟩)) h

theorem step_inv {s t : System} {a : Act M} (hinv : Inv lib journalId s)
    (h : step lib cfg journalId s a = some t) : Inv lib journalId t := by
  cases a with
  | task a =>
    simp only [step] at h
    split at h
    · rename_i hopen
      exact task_inv hinv hopen h
    · cases h
  | commit id =>
    simp only [step] at h
    split at h
    · rename_i hid
      cases h
      exact commit_inv hinv hid
    · cases h
  | rollback id =>
    simp only [step] at h
    split at h
    · cases h
      exact rollback_inv hinv
    · cases h
  | retain id =>
    simp only [step, Option.some.injEq] at h
    subst h
    exact hinv.tables rfl rfl ⟨hinv.db.once, hinv.db.receipts, hinv.db.owned, hinv.db.inserting,
      hinv.db.deleting⟩
  | deleted i =>
    simp only [step] at h
    split at h
    · cases h
    · rename_i ids hids
      cases h
      exact deleted_inv hinv hids
  | lost i =>
    simp only [step, Option.some.injEq] at h
    subst h
    exact hinv.tables rfl rfl ⟨hinv.db.once, hinv.db.receipts, hinv.db.owned, hinv.db.inserting,
      fun ids hids => hinv.db.deleting ids (List.mem_of_mem_eraseIdx hids)⟩
  | crash pick torn =>
    simp only [step, Option.some.injEq] at h
    subst h
    exact crash_inv hinv pick torn
  | scan id kind readable destination =>
    simp only [step] at h
    split at h
    · cases h
    rename_i hclosed
    obtain ⟨d, hd, rfl⟩ := Option.map_eq_some_iff.mp h
    exact scan_inv hinv (by simpa using hclosed) hd
  | reopen now readable destination =>
    simp only [step] at h
    split at h
    · cases h
    rename_i hclosed
    obtain ⟨j, hj, rfl⟩ := Option.map_eq_some_iff.mp h
    exact reopen_inv hinv (by simpa using hclosed) hj

theorem initial_inv : Inv lib journalId initial := by
  refine ⟨⟨⟨?_, ?_⟩, ?_, ?_, by simp [initial], by simp [initial], by simp [initial], ?_, ?_⟩,
    ⟨rfl, by simp [initial], by simp [initial]⟩, ⟨?_, ?_, ?_, ?_, ?_⟩, ⟨by simp [initial],
    by simp [initial]⟩, fun _ => ⟨rfl, rfl, rfl⟩, by simp [initial], by simp [initial]⟩
  all_goals simp [initial, situations, running, Disk.Gone, Disk.Same, Disk.traceFiles,
    Disk.versions, Begun]

/-- What the process does by itself never writes a trace row. -/
theorem task_rows {s t : System} {a : Task M} (h : taskStep lib cfg journalId s a = some t) :
    t.db.applied = s.db.applied ∧ t.db.traces = s.db.traces ∧ s.stored ⊆ t.stored := by
  have hrefl := List.Subset.refl s.stored
  cases a with
  | append e now | drop i now =>
    obtain ⟨j, -, rfl⟩ := Option.map_eq_some_iff.mp h
    exact ⟨rfl, rfl, hrefl⟩
  | run i io =>
    obtain ⟨j, -, rfl⟩ := Option.map_eq_some_iff.mp h
    refine ⟨rfl, rfl, ?_⟩
    simp only
    split
    · exact List.subset_cons_self _ _
    · exact hrefl
  | insert i =>
    simp only [taskStep] at h
    split at h
    · cases h
    obtain ⟨⟨db, stage⟩, hins, rfl⟩ := Option.map_eq_some_iff.mp h
    simp only [beginInsert] at hins
    (repeat' split at hins) <;> cases hins <;> exact ⟨rfl, rfl, hrefl⟩
  | lookup i | load i =>
    simp only [taskStep] at h
    split at h
    · cases h
    obtain ⟨_, -, rfl⟩ := Option.map_eq_some_iff.mp h
    exact ⟨rfl, rfl, hrefl⟩
  | claim | acknowledge | quarantine | select | filter | delete =>
    simp only [taskStep] at h
    (repeat' split at h) <;> cases h <;> exact ⟨rfl, rfl, hrefl⟩

/-- A step forgets no applied insert and no stored record, and brings no trace row back. -/
theorem step_rows {s t : System} {a : Act M} (hinv : Inv lib journalId s)
    (h : step lib cfg journalId s a = some t) :
    s.stored ⊆ t.stored ∧ s.db.applied ⊆ t.db.applied ∧
      ∀ id ∈ s.db.applied, id ∉ s.db.traces → id ∉ t.db.traces := by
  have hrefl := List.Subset.refl s.stored
  have happ := List.Subset.refl s.db.applied
  cases a with
  | task a =>
    simp only [step] at h
    split at h
    · obtain ⟨ha, ht, hs⟩ := task_rows h
      rw [ha, ht]
      exact ⟨hs, happ, fun _ _ hid => hid⟩
    · cases h
  | commit id =>
    simp only [step] at h
    split at h
    · rename_i hid
      cases h
      refine ⟨hrefl, List.subset_cons_self _ _, fun x hx hnot => ?_⟩
      -- the id that commits was not applied before
      have hne : x ≠ id := by rintro rfl; exact hinv.db.inserting.2 x hid hx
      simp [commitInsert, hne, hnot]
    · cases h
  | retain id =>
    simp only [step, Option.some.injEq] at h
    subst h
    exact ⟨hrefl, happ, fun x _ hnot hx => hnot (List.mem_of_mem_erase hx)⟩
  | lost | crash =>
    simp only [step, Option.some.injEq] at h
    subst h
    exact ⟨hrefl, happ, fun _ _ hid => hid⟩
  | rollback | deleted =>
    simp only [step] at h
    split at h <;> cases h
    exact ⟨hrefl, happ, fun _ _ hid => hid⟩
  | scan | reopen =>
    simp only [step] at h
    split at h
    · cases h
    obtain ⟨_, -, rfl⟩ := Option.map_eq_some_iff.mp h
    exact ⟨hrefl, happ, fun _ _ hid => hid⟩

end

/-- The sample event is being appended. -/
def appendingSystem : System := { initial with journal := appendingSample, isOpen := true }

/-- Its record is stored, and a worker has found no receipt for it. -/
def storedSystem : System where
  journal := {
    disk := (((appendingSample.disk.touch 0 { temporary := some ⟨[], 0⟩ }).touch 0
      { temporary := some ⟨record sampleLib sampleEvent sampleMetadata, 0⟩ }).touch 0
      { trace := some ⟨record sampleLib sampleEvent sampleMetadata, 0⟩ }).sync
    catalog := appendingSample.catalog
    claims := [0]
    calls := [] }
  isOpen := true
  workers := [⟨0, .absent⟩]
  cleaner := {}
  db := {}
  stored := [0]

/-- The record is ingested, and retention has deleted its row. -/
def ingestedSystem : System := { storedSystem with
  workers := [⟨0, .persisted⟩]
  db := { receipts := AList.insert 0 7 ∅, applied := [0] } }

theorem run_appending : Schemes.run (step sampleLib .default 7) initial
    [.reopen 0 (fun _ => true) (fun _ _ => 0), .task (.append sampleEvent 0)] =
      some appendingSystem := by
  have h1 : step sampleLib .default 7 initial (.reopen 0 (fun _ => true) (fun _ _ => 0)) =
      some { initial with journal := emptyJournal, isOpen := true } := by
    simp only [step, initial, Bool.false_eq_true, if_false, open_empty, Option.map_some]
  have h2 : step sampleLib .default 7 { initial with journal := emptyJournal, isOpen := true }
      (.task (.append sampleEvent 0)) = some appendingSystem := by
    simp only [step, if_true, taskStep, append_sample, Option.map_some]
    rfl
  simp only [Schemes.run, h1, h2, Option.bind_some]

theorem run_stored : Schemes.run (step sampleLib .default 7) appendingSystem
    [.task (.run 0 {}), .task (.run 0 {}), .task (.run 0 {}), .task (.run 0 {}), .task (.run 0 {}),
      .task (.claim 0 fun _ => true), .task (.lookup 0)] = some storedSystem := rfl

theorem load_stored : step sampleLib .default 7 storedSystem (.task (.load 0)) =
    some { storedSystem with workers := [⟨0, .loaded⟩] } := by
  obtain ⟨hvec, hmeta⟩ := appendMetadata_ok sampleEvent_accepted.1
  have hread := read_record sampleLib_roundTrip hvec hmeta sampleEvent_accepted.2
  have hload : loadStage sampleLib storedSystem.journal.disk 0 = some .loaded := by
    simp only [loadStage, show (storedSystem.journal.disk.slots 0).trace =
      some ⟨record sampleLib sampleEvent sampleMetadata, 0⟩ from rfl]
    rw [show (0 : Uuid) = sampleEvent.id from rfl, hread]
  simp only [step, taskStep, show workerAt storedSystem 0 .absent = some 0 from rfl, hload]
  rfl

end Llmtrace.Replay
