import Llmtrace.Journal.Queue

/-! The replay of the journal into the database (`trace/durable.rs`, `storage/ingest.rs`): the
    journal with its directory, any number of replay workers, the receipt cleaner and the database.

        worker:   claimed ▶ absent ▶ loaded ▶ inserting ▶ persisted ▶ finished
                     │        └───▶ invalid ────────────────────────────┘
                     └──▶ persisted

    A worker may be dropped at any point: because a call failed or reported an error, or because its
    task was cancelled. The file system calls it started run on, and so does a transaction it left
    behind, also after the process has crashed. -/

namespace Llmtrace.Replay
open Schemes Journal

/-- The tables of the ingestion. -/
structure Db where
  /-- `trace_ingest_receipts`: the journal that ingested a trace. -/
  receipts : Table Uuid Uuid := ∅
  /-- The ids of `request_traces`. -/
  traces : List Uuid := []
  /-- One element for each insert that was ever committed, with its trace row, its messages and its
      rollup increments. -/
  applied : List Uuid := []
  /-- Insert transactions that have entered their receipt and have not ended. -/
  inserting : List Uuid := []
  /-- Receipt deletions that were sent and have not ended. -/
  deleting : List (List Uuid) := []

/-- How far `process_inner` has come with its claim. -/
inductive Stage where
  | claimed | absent | loaded | inserting | persisted | invalid | finished
  deriving DecidableEq

/-- A worker of the replay, with the id that it works on. -/
structure Worker where
  id : Uuid
  stage : Stage

/-- `clean_receipts`: its cursor, and the local variables of `clean_receipt_page`. -/
structure Cleaner where
  cursor : Uuid := 0
  next : Uuid := 0
  todo : List Uuid := []
  removable : List Uuid := []

/-- The process, the disk of its journal and the database. -/
structure System where
  journal : State
  isOpen : Bool
  workers : List Worker
  cleaner : Cleaner
  db : Db
  /-- The ids for which `append` has returned `Ok`. -/
  stored : List Uuid

/-- An empty directory and an empty database. -/
def initial : System := ⟨⟨{}, {}, [], []⟩, false, [], {}, {}, []⟩

/-! ### The database -/

/-- `journal_trace_persisted`; `none` when the receipt belongs to a different journal. -/
def journalTracePersisted (db : Db) (id journalId : Uuid) : Option Bool :=
  match db.receipts.lookup id with
  | none => some false
  | some owner => if owner = journalId then some true else none

/-- The page of `clean_receipt_page`, and the next cursor. -/
def receiptPage (db : Db) (journalId cursor : Uuid) : List Uuid × Uuid :=
  let ids := (((db.receipts.entries.filter fun r => r.2 = journalId ∧ cursor < r.1).map
    Sigma.fst).mergeSort).take 4096
  (ids, if ids.length = 4096 then ids.getLastD 0 else 0)

/-- `insert_trace_internal` up to its commit: the statement on the receipt waits for another
    transaction that holds it (`none`), and then finds its row or enters it. The new stage is
    `persisted` when the trace was ingested before, `finished` when the insert fails. -/
def beginInsert (db : Db) (id journalId : Uuid) : Option (Db × Stage) :=
  if id ∈ db.inserting then none
  else
    match db.receipts.lookup id with
    | some owner => some (db, if owner = journalId then .persisted else .finished)
    | none =>
      if id ∈ db.traces then some (db, .finished)
      else some ({ db with inserting := id :: db.inserting }, .inserting)

/-- The transaction that inserts a trace with its receipt commits. -/
def commitInsert (db : Db) (id journalId : Uuid) : Db :=
  { db with
    inserting := db.inserting.erase id
    receipts := db.receipts.insert id journalId
    traces := id :: db.traces
    applied := id :: db.applied }

/-- The receipts without those of `ids`. -/
def eraseReceipts (receipts : Table Uuid Uuid) (ids : List Uuid) : Table Uuid Uuid :=
  ids.foldl (fun t id => t.erase id) receipts

/-! ### Crashes -/

/-- A `.partial` file may lose its contents. -/
def tear (bytes : Bytes) (slot : Slot) : Slot :=
  { slot with temporary := slot.temporary.map fun f => { f with bytes } }

/-- The directory after a crash: for each id, the current files or any that no sync has replaced. -/
def crashed (d : Disk) (pick : Uuid → ℕ) (torn : Uuid → Bytes) : Disk :=
  { d with
    slots := fun id => tear (torn id) ((d.slots id :: d.past id).getD (pick id) (d.slots id))
    past := fun id => d.slots id :: d.past id }

/-- One rename of a `Journal::open` that fails later on. -/
def scanMove (d : Disk) (id : Uuid) (kind : Kind) (readable : Bool) (destination : Uuid) :
    Option Disk :=
  let slot := d.slots id
  match kind with
  | .temporary => slot.temporary.map fun f => d.touch id { slot with
      temporary := none, quarantine := (destination, f) :: slot.quarantine }
  | .trace => slot.trace.bind fun f =>
      if (recoveredHeader (fun _ => readable) ⟨id, .trace, f⟩).isSome then none
      else some (d.touch id { slot with
        trace := none, quarantine := (destination, f) :: slot.quarantine })
  | .quarantine => none

/-! ### Steps -/

/-- What the process does; workers are addressed by position. -/
inductive Task (M : Type) where
  | append (e : TraceEvent M) (now : ℕ)
  | run (i : ℕ) (io : Io)
  | claim (now : ℕ) (reserve : Uuid → Bool)
  | drop (i : ℕ) (now : ℕ)
  | lookup (i : ℕ)
  | load (i : ℕ)
  | insert (i : ℕ)
  | acknowledge (i : ℕ)
  | quarantine (i : ℕ)
  | select
  | filter
  | delete (ok : Bool)

/-- What a task does, what the database does on its own, and a crash with what follows it. -/
inductive Act (M : Type) where
  | task (t : Task M)
  | commit (id : Uuid)
  | rollback (id : Uuid)
  | retain (id : Uuid)
  | deleted (i : ℕ)
  | lost (i : ℕ)
  | crash (pick : Uuid → ℕ) (torn : Uuid → Bytes)
  | scan (id : Uuid) (kind : Kind) (readable : Bool) (destination : Uuid)
  | reopen (now : ℕ) (readable : Uuid → Bool) (destination : Kind → Uuid → Uuid)

/-- The worker at position `i`, when it is at `stage`. -/
def workerAt (s : System) (i : ℕ) (stage : Stage) : Option Uuid :=
  match s.workers[i]? with
  | some w => if w.stage = stage then some w.id else none
  | none => none

/-- A worker goes on. -/
def setStage (s : System) (i : ℕ) (id : Uuid) (stage : Stage) : System :=
  { s with workers := s.workers.set i ⟨id, stage⟩ }

section
variable {M : Type} (lib : Lib M) (cfg : JournalConfig) (journalId : Uuid)

/-- `read` and the way its result is handled: `none` for an I/O error, which leaves the record for a
    retry. -/
def loadStage (d : Disk) (id : Uuid) : Option Stage :=
  match (d.slots id).trace with
  | none => none
  | some f =>
    match read lib f.bytes id with
    | .ok _ => some .loaded
    | .error .io => none
    | .error _ => some .invalid

/-- A step of a task of the process. -/
def taskStep (s : System) : Task M → Option System
  | .append e now =>
    (Journal.step lib cfg s.journal (.append e now)).map fun j => { s with journal := j }
  | .run i io =>
    (Journal.runCall s.journal i io).map fun j => { s with
      journal := j
      stored := match s.journal.calls[i]? with
        | some ⟨id, .publish⟩ => id :: s.stored
        | _ => s.stored }
  | .claim now reserve =>
    match s.journal.catalog.claim now reserve with
    | (c, none) => some { s with journal := { s.journal with catalog := c } }
    | (c, some id) => some { s with
        journal := { s.journal with catalog := c, claims := id :: s.journal.claims }
        workers := ⟨id, .claimed⟩ :: s.workers }
  | .drop i now =>
    (Journal.step lib cfg s.journal (.drop i now)).map fun j => { s with
      journal := j, workers := s.workers.eraseIdx i }
  | .lookup i =>
    match workerAt s i .claimed with
    | none => none
    | some id =>
      (journalTracePersisted s.db id journalId).map fun persisted =>
        setStage s i id (if persisted then .persisted else .absent)
  | .load i =>
    match workerAt s i .absent with
    | none => none
    | some id => (loadStage lib s.journal.disk id).map fun stage => setStage s i id stage
  | .insert i =>
    match workerAt s i .loaded with
    | none => none
    | some id => (beginInsert s.db id journalId).map fun (db, stage) =>
        { setStage s i id stage with db }
  | .acknowledge i =>
    match workerAt s i .persisted with
    | none => none
    | some id => some { setStage s i id .finished with
        journal := { s.journal with calls := ⟨id, .unlink⟩ :: s.journal.calls } }
  | .quarantine i =>
    match workerAt s i .invalid with
    | none => none
    | some id => some { setStage s i id .finished with
        journal := { s.journal with calls := ⟨id, .move false⟩ :: s.journal.calls } }
  | .select =>
    let (ids, next) := receiptPage s.db journalId s.cleaner.cursor
    some { s with cleaner := ⟨s.cleaner.cursor, next, ids, []⟩ }
  | .filter =>
    match s.cleaner.todo with
    | [] => none
    | id :: rest => some { s with cleaner := { s.cleaner with
        todo := rest
        removable := if s.journal.catalog.receiptCanBeRemoved id then id :: s.cleaner.removable
          else s.cleaner.removable } }
  | .delete ok =>
    if s.cleaner.todo = [] then some { s with
      cleaner := { s.cleaner with
        cursor := if ok then s.cleaner.next else s.cleaner.cursor, removable := [] }
      db := { s.db with deleting := s.cleaner.removable :: s.db.deleting } }
    else none

/-- An insert that commits answers its worker, if that is still there. -/
def answer (id : Uuid) (stage : Stage) (w : Worker) : Worker :=
  if w.id = id ∧ w.stage = .inserting then { w with stage } else w

/-- A step of the process, of the database or of a crash. -/
def step (s : System) : Act M → Option System
  | .task t => if s.isOpen then taskStep lib cfg journalId s t else none
  | .commit id =>
    if id ∈ s.db.inserting then some { s with
      db := commitInsert s.db id journalId
      workers := s.workers.map (answer id .persisted) }
    else none
  | .rollback id =>
    if id ∈ s.db.inserting then some { s with
      db := { s.db with inserting := s.db.inserting.erase id }
      workers := s.workers.map (answer id .finished) }
    else none
  | .retain id => some { s with db := { s.db with traces := s.db.traces.erase id } }
  | .deleted i =>
    match s.db.deleting[i]? with
    | none => none
    | some ids => some { s with db := { s.db with
        receipts := eraseReceipts s.db.receipts ids, deleting := s.db.deleting.eraseIdx i } }
  | .lost i => some { s with db := { s.db with deleting := s.db.deleting.eraseIdx i } }
  | .crash pick torn => some { s with
      journal := ⟨crashed s.journal.disk pick torn, {}, [], []⟩
      isOpen := false
      workers := []
      cleaner := {} }
  | .scan id kind readable destination =>
    if s.isOpen then none
    else (scanMove s.journal.disk id kind readable destination).map fun d =>
      { s with journal := { s.journal with disk := d } }
  | .reopen now readable destination =>
    if s.isOpen then none
    else (openJournal s.journal.disk now readable destination).map fun j =>
      { s with journal := j, isOpen := true }

end
end Llmtrace.Replay
