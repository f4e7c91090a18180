import Llmtrace.Schemes.Rows
import Llmtrace.Schemes.Table
import Llmtrace.Storage.Traces

/-! The transactions that touch sessions and rollups, statement by statement.

    Any number of trace writers (`insert_trace_internal`), the session cleaner
    (`delete_empty_sessions_before`), the rollup cleaner (`delete_rollups_before`) and, under the
    prune lock, one trace deletion at a time run interleaved under READ COMMITTED. A step is one
    statement of one transaction; a statement that has to wait for a row is not enabled. Where a
    statement waits between its start and its effect, its snapshot is part of the transaction. -/

namespace Llmtrace.Storage
open Schemes

/-- A row of `trace_sessions`, without its unique `session_key`. -/
structure Session where
  id : ℕ
  firstSeen : ℤ
  lastSeen : ℤ
  userId : Option String
  userName : Option String

/-- A row of `session_messages`: the two rows it refers to. -/
structure Message where
  requestId : ℕ
  sessionId : ℕ
  deriving DecidableEq

/-! ### Transactions -/

/-- The last statement a writer has completed. -/
inductive WriterStage where
  | begun | linked | inserted | counted | noted
  deriving DecidableEq

/-- `insert_trace_internal`. `messages` is the number of parsed messages. -/
structure Writer where
  trace : Trace
  userId : Option String
  userName : Option String
  messages : ℕ
  stage : WriterStage

/-- A deletion of traces: those whose trigger has fired, those whose trigger is still to fire, and
    what the trigger that has started sees in `request_traces`. -/
structure Deleter where
  fired : List Trace
  pending : List Trace
  snapshot : Option (List Trace)

/-- `delete_empty_sessions_before`: the snapshot of its select, the ids selected so far, and the ids
    that its second statement deleted. -/
structure SessionCleaner where
  cutoff : ℤ
  traces : List Trace
  sessions : String → Option Session
  ids : List ℕ
  deleted : Option (List ℕ)

/-- `delete_rollups_before` -/
structure RollupCleaner where
  cutoff : ℤ
  traces : List Trace
  rollups : ℤ → Option Rollup
  buckets : List ℤ
  deleted : Bool

/-- A transaction that is open. -/
inductive Tx where
  | writer (w : Writer)
  | deleter (d : Deleter)
  | sessionCleaner (c : SessionCleaner)
  | rollupCleaner (c : RollupCleaner)

/-- The committed tables, the rows that are held, and the open transactions. -/
structure Store where
  traces : List Trace
  messages : List Message
  sessions : Rows String Session
  rollups : Rows ℤ Rollup
  txs : Table ℕ Tx

/-- An empty database. -/
def Store.empty : Store := ⟨[], [], fun _ => {}, fun _ => {}, ∅⟩

/-- A transaction goes on. -/
def Store.setTx (s : Store) (i : ℕ) (tx : Tx) : Store := { s with txs := AList.insert i tx s.txs }

/-! ### The writer -/

/-- The argument `last_seen` of `upsert_session`. -/
def Trace.finishedAt (t : Trace) : ℤ := t.completedAt.getD t.startedAt

/-- The row that the upsert of `upsert_session` leaves; `id` is the new random id. -/
def upsertSession (row : Option Session) (id : ℕ) (w : Writer) : Session :=
  match row with
  | none => ⟨id, w.trace.startedAt, w.trace.finishedAt, w.userId, w.userName⟩
  | some r =>
    { id := r.id
      firstSeen := min r.firstSeen w.trace.startedAt
      lastSeen := max r.lastSeen w.trace.finishedAt
      userId := r.userId.or w.userId
      userName := r.userName.or w.userName }

/-- The session statement, left out for a trace without a key. -/
def linkSession (s : Store) (i : ℕ) (w : Writer) (id : ℕ) : Option Store :=
  match w.trace.sessionKey with
  | none => some (s.setTx i (.writer { w with stage := .linked }))
  | some key =>
    if (s.sessions key).available i then
      let r := upsertSession ((s.sessions key).visible i) id w
      let trace := { w.trace with sessionId := some r.id }
      some { s.setTx i (.writer { w with trace := trace, stage := .linked }) with
        sessions := s.sessions.put i key (some r) }
    else none

/-- The transaction has inserted a trace with this id. -/
def Tx.inserts (id : ℕ) : Tx → Bool
  | .writer w => decide (w.trace.id = id) && decide (w.stage ≠ .begun) && decide (w.stage ≠ .linked)
  | _ => false

/-- `INSERT INTO request_traces`: fails on a committed row with this id, waits for an open one. -/
def insertTraceRow (s : Store) (i : ℕ) (w : Writer) : Option Store :=
  if w.trace.id ∈ s.traces.map Trace.id ∨ s.txs.entries.any (fun e => e.2.inserts w.trace.id) then none
  else some (s.setTx i (.writer { w with stage := .inserted }))

/-- The writer counts its trace, or has to wait for the row. -/
def countTrace (s : Store) (i : ℕ) (w : Writer) : Option Store :=
  if (s.rollups w.trace.bucket).available i then
    (updateRollup ((s.rollups w.trace.bucket).visible i) w.trace).map fun r =>
      { s.setTx i (.writer { w with stage := .counted }) with
        rollups := s.rollups.put i w.trace.bucket (some r) }
  else none

/-- The rows of `session_messages` that a writer adds. -/
def Writer.newMessages (w : Writer) : List Message :=
  match w.trace.sessionId with
  | none => []
  | some sid => List.replicate w.messages ⟨w.trace.id, sid⟩

/-! ### The deletion -/

/-- All rows this transaction has deleted. -/
def Deleter.gone (d : Deleter) : List Trace := d.fired ++ d.pending

/-- The transaction deletes traces. -/
def isDeleter : Tx → Bool
  | .deleter _ => true
  | _ => false

/-- One `DELETE FROM request_traces`, any rows of the committed ones. -/
def deleteRows (s : Store) (i : ℕ) (d : Deleter) (batch : List Trace) : Option Store :=
  if d.pending = [] ∧ batch.Nodup ∧ ∀ t ∈ batch, t ∈ s.traces ∧ t ∉ d.gone then
    some (s.setTx i (.deleter { d with pending := batch }))
  else none

/-- The trigger's `UPDATE` starts: its snapshot has the deletions of its own transaction. -/
def startTrigger (s : Store) (i : ℕ) (d : Deleter) : Option Store :=
  if d.pending ≠ [] ∧ d.snapshot = none then
    let seen := s.traces.filter fun t => decide (t ∉ d.gone)
    some (s.setTx i (.deleter { d with snapshot := some seen }))
  else none

/-- The trigger's `UPDATE` reaches the row, and its `DELETE` takes it if nothing is left. -/
def fireTrigger (s : Store) (i : ℕ) (d : Deleter) : Option Store :=
  match d.pending, d.snapshot with
  | t :: pending, some seen =>
    let s' := s.setTx i (.deleter ⟨d.fired ++ [t], pending, none⟩)
    match (s.rollups t.bucket).visible i with
    | none => some s'
    | some r =>
      if (s.rollups t.bucket).available i then
        some { s' with rollups := s.rollups.put i t.bucket (removeDeletedTrace seen r t) }
      else none
  | _, _ => none

/-! ### The cleaners -/

/-- `NOT EXISTS (SELECT 1 FROM request_traces r WHERE r.session_id = s.id)` -/
def isUnused (traces : List Trace) (r : Session) : Bool :=
  traces.all fun t => decide (t.sessionId ≠ some r.id)

/-- The select meets a session of its snapshot that nobody holds: it is locked, and kept if the
    newest version still meets the condition. `ORDER BY` and `LIMIT` decide only which are met. -/
def lockSession (s : Store) (i : ℕ) (c : SessionCleaner) (key : String) : Option Store :=
  match c.sessions key, (s.sessions key).held, (s.sessions key).committed with
  | some old, none, some r =>
    if c.deleted = none ∧ old.lastSeen < c.cutoff ∧ isUnused c.traces old = true then
      let ids := if r.id = old.id ∧ r.lastSeen < c.cutoff then r.id :: c.ids else c.ids
      some { s.setTx i (.sessionCleaner { c with ids := ids }) with
        sessions := s.sessions.put i key (some r) }
    else none
  | _, _, _ => none

/-- The recheck, over what is committed when it starts. -/
def deleteSessions (s : Store) (i : ℕ) (c : SessionCleaner) : Option Store :=
  if c.deleted = none then
    let doomed := fun (_ : String) (r : Session) => c.ids.contains r.id && isUnused s.traces r
    let deleted := c.ids.filter fun id => s.traces.all fun t => decide (t.sessionId ≠ some id)
    some { s.setTx i (.sessionCleaner { c with deleted := some deleted }) with
      sessions := s.sessions.deleteHeld i doomed }
  else none

/-- The cleaner locks the row of a minute without traces. -/
def lockRollup (s : Store) (i : ℕ) (c : RollupCleaner) (bucket : ℤ) : Option Store :=
  match c.rollups bucket, (s.rollups bucket).held, (s.rollups bucket).committed with
  | some _, none, some r =>
    if c.deleted = false ∧ bucket < c.cutoff ∧ !c.traces.any (inBucket bucket) then
      some { s.setTx i (.rollupCleaner { c with buckets := bucket :: c.buckets }) with
        rollups := s.rollups.put i bucket (some r) }
    else none
  | _, _, _ => none

/-- The cleaner deletes the rows that it locked. -/
def deleteRollups (s : Store) (i : ℕ) (c : RollupCleaner) : Option Store :=
  if c.deleted = false then
    let doomed := fun (b : ℤ) (_ : Rollup) => c.buckets.contains b && !s.traces.any (inBucket b)
    some { s.setTx i (.rollupCleaner { c with deleted := true }) with
      rollups := s.rollups.deleteHeld i doomed }
  else none

/-! ### Commit and rollback -/

/-- The transaction commits. -/
def close (s : Store) (i : ℕ) : Store :=
  { s with
    sessions := s.sessions.commit i
    rollups := s.rollups.commit i
    txs := s.txs.erase i }

/-- What becomes visible besides the held rows. Messages go with their trace and their session. -/
def commitTx (s : Store) (i : ℕ) : Tx → Option Store
  | .writer w =>
    if w.stage = .noted then
      some { close s i with traces := w.trace :: s.traces, messages := w.newMessages ++ s.messages }
    else none
  | .deleter d =>
    if d.pending = [] then
      some { close s i with
        traces := s.traces.filter fun t => decide (t ∉ d.fired)
        messages := s.messages.filter fun m => decide (m.requestId ∉ d.fired.map Trace.id) }
    else none
  | .sessionCleaner c =>
    match c.deleted with
    | none => none
    | some ids => some { close s i with
        messages := s.messages.filter fun m => decide (m.sessionId ∉ ids) }
  | .rollupCleaner c => if c.deleted then some (close s i) else none

/-- The transaction is rolled back. -/
def rollbackTx (s : Store) (i : ℕ) : Store :=
  { s with
    sessions := s.sessions.rollback i
    rollups := s.rollups.rollback i
    txs := s.txs.erase i }

/-! ### Steps -/

/-- A statement of a transaction. -/
inductive Stmt where
  | beginWriter (trace : Trace) (userId userName : Option String) (messages : ℕ)
  | upsertSession (id : ℕ)
  | insertTrace
  | updateRollup
  | insertMessages
  | beginDeleter
  | deleteTraces (batch : List Trace)
  | startTrigger
  | fireTrigger
  | beginSessionCleaner (cutoff : ℤ)
  | lockSession (key : String)
  | deleteSessions
  | beginRollupCleaner (cutoff : ℤ)
  | lockRollup (bucket : ℤ)
  | deleteRollups
  | commit
  | rollback

/-- Opening a transaction. A trace comes without a session id; `try_prune_lock` lets one deletion
    in; a cleaner's first statement takes its snapshot. -/
def openTx (s : Store) : Stmt → Option Tx
  | .beginWriter trace userId userName messages =>
    if trace.sessionId = none then some (.writer ⟨trace, userId, userName, messages, .begun⟩)
    else none
  | .beginDeleter =>
    if s.txs.entries.any (fun e => isDeleter e.2) then none else some (.deleter ⟨[], [], none⟩)
  | .beginSessionCleaner cutoff =>
    some (.sessionCleaner ⟨cutoff, s.traces, fun k => (s.sessions k).committed, [], none⟩)
  | .beginRollupCleaner cutoff =>
    some (.rollupCleaner ⟨cutoff, s.traces, fun b => (s.rollups b).committed, [], false⟩)
  | _ => none

/-- A statement of an open transaction. -/
def execute (s : Store) (i : ℕ) : Tx → Stmt → Option Store
  | tx, .commit => commitTx s i tx
  | _, .rollback => some (rollbackTx s i)
  | .writer w, .upsertSession id => if w.stage = .begun then linkSession s i w id else none
  | .writer w, .insertTrace => if w.stage = .linked then insertTraceRow s i w else none
  | .writer w, .updateRollup => if w.stage = .inserted then countTrace s i w else none
  | .writer w, .insertMessages =>
    if w.stage = .counted then some (s.setTx i (.writer { w with stage := .noted })) else none
  | .deleter d, .deleteTraces batch => deleteRows s i d batch
  | .deleter d, .startTrigger => startTrigger s i d
  | .deleter d, .fireTrigger => fireTrigger s i d
  | .sessionCleaner c, .lockSession key => lockSession s i c key
  | .sessionCleaner c, .deleteSessions => deleteSessions s i c
  | .rollupCleaner c, .lockRollup bucket => lockRollup s i c bucket
  | .rollupCleaner c, .deleteRollups => deleteRollups s i c
  | _, _ => none

/-- Transaction `a.1` runs statement `a.2`. -/
def storeStep (s : Store) (a : ℕ × Stmt) : Option Store :=
  match s.txs.lookup a.1 with
  | none => (openTx s a.2).map (s.setTx a.1)
  | some tx => execute s a.1 tx a.2

end Llmtrace.Storage
