import Llmtrace.Schemes.Run
import Llmtrace.Journal.Catalog

/-! The journal as a machine: its directory, its catalog, the live claims and the calls that are
    running (`trace/journal.rs`).

    A call of `append`, `acknowledge` or `quarantine` is cut at its file system calls and at its
    critical sections; `Phase` says what the call does next and one step does it, with the outcome
    `Io` of the file system. Calls of any number of threads interleave in any order.

        append:       create ▶ write ▶ rename ▶ sync ▶ publish
                        └───────┴──────┴───────┴──▶ move (the call's own quarantine)
        quarantine:   move ▶ syncMoved ▶ quarantined
        acknowledge:  unlink ▶ syncUnlinked ▶ unlinked

    The directory is a slot of files for each trace id. A change of a slot is durable only after the
    next successful directory sync: until then the slots it replaced stay in `past`, and a crash may
    bring any of them back. -/

namespace Llmtrace.Journal
open Schemes

/-- A file with the time of its last change. -/
structure File where
  bytes : Bytes
  modified : ℕ

/-- The files of one trace id: `<id>.partial`, `<id>.trace` and `<id>.<uuid>.quarantine`. -/
structure Slot where
  temporary : Option File := none
  trace : Option File := none
  quarantine : List (Uuid × File) := []

/-- The files of each id, and the directories as a crash may leave them. -/
structure Disk where
  slots : Uuid → Slot := fun _ => {}
  past : Uuid → List Slot := fun _ => []
  /-- Every id a file was ever made for. -/
  seen : List Uuid := []

/-- Changes the files of `id`; a crash may still undo it. -/
def Disk.touch (d : Disk) (id : Uuid) (slot : Slot) : Disk :=
  { d with
    slots := Function.update d.slots id slot
    past := Function.update d.past id (d.slots id :: d.past id) }

/-- A successful `sync_directory`. -/
def Disk.sync (d : Disk) : Disk := { d with past := fun _ => [] }

/-- What a call does next. `bytes` is the record an `append` writes; `destination` and `size` are
    the local variables of `quarantine`, and `appending` says that it is an `append` that runs it. -/
inductive Phase where
  | create (bytes : Bytes)
  | write (bytes : Bytes)
  | rename
  | sync
  | publish
  | move (appending : Bool)
  | syncMoved (appending : Bool) (destination : Uuid) (size : ℕ)
  | quarantined (appending : Bool) (destination : Uuid) (size : ℕ)
  | unlink
  | syncUnlinked
  | unlinked

/-- The call is an `append`, perhaps in its own `quarantine`. -/
def Phase.appending : Phase → Bool
  | .create _ | .write _ | .rename | .sync | .publish => true
  | .move appending | .syncMoved appending _ _ | .quarantined appending _ _ => appending
  | .unlink | .syncUnlinked | .unlinked => false

/-- A running call. -/
structure Call where
  id : Uuid
  phase : Phase

/-- How the file system answers in one step: `stat` and `statSource` are the `exists()` checks,
    which report an error as absence, and `measured` is the `metadata` call. -/
structure Io where
  ok : Bool := true
  stat : Bool := true
  statSource : Bool := true
  measured : Bool := true
  written : ℕ := 0
  destination : Uuid := 0
  now : ℕ := 0

/-- The journal of a process that runs. -/
structure State where
  disk : Disk
  catalog : Catalog
  claims : List Uuid
  calls : List Call

/-- The second half of `quarantine`'s move, for a source file `f` that `rest` no longer has. -/
def moveAside (slot rest : Slot) (f : File) (io : Io) : Option (Slot × ℕ) :=
  if io.statSource then
    if io.measured ∧ io.ok then
      some ({ rest with quarantine := (io.destination, f) :: slot.quarantine }, f.bytes.length)
    else none
  else some (slot, 0)

/-- `quarantine` up to its directory sync: the slot with the record moved aside and the measured
    size, or `none` when `metadata` or `rename` fails. -/
def moved (slot : Slot) (io : Io) : Option (Slot × ℕ) :=
  match (if io.stat then slot.trace else none), slot.temporary with
  | some f, _ => moveAside slot { slot with trace := none } f io
  | none, some f => moveAside slot { slot with temporary := none } f io
  | none, none => some (slot, 0)

/-- `destination.exists()` -/
def destinationExists (slot : Slot) (destination : Uuid) (io : Io) : Bool :=
  io.stat && slot.quarantine.any fun q => q.1 == destination

/-- One step of a call: the new directory and catalog, and what the call does next (`none` when it
    has returned). -/
def advance (d : Disk) (c : Catalog) (call : Call) (io : Io) : Disk × Catalog × Option Phase :=
  let id := call.id
  let slot := d.slots id
  match call.phase with
  | .create bytes =>
    if io.ok ∧ slot.temporary.isNone then
      (d.touch id { slot with temporary := some ⟨[], io.now⟩ }, c, some (.write bytes))
    else (d, c, some (.move true))
  | .write bytes =>
    if io.ok then (d.touch id { slot with temporary := some ⟨bytes, io.now⟩ }, c, some .rename)
    -- a write that fails may leave any part of the record behind
    else (d.touch id { slot with temporary := some ⟨bytes.take io.written, io.now⟩ }, c,
      some (.move true))
  | .rename =>
    if io.stat ∧ slot.trace.isSome then (d, c, some (.move true))
    else if io.ok ∧ slot.temporary.isSome then
      (d.touch id { slot with temporary := none, trace := slot.temporary }, c, some .sync)
    else (d, c, some (.move true))
  | .sync => if io.ok then (d.sync, c, some .publish) else (d, c, some (.move true))
  | .publish => (d, c.publish id, none)
  | .move a =>
    match moved slot io with
    | none => (d, c, none)
    | some (slot', size) => (d.touch id slot', c, some (.syncMoved a io.destination size))
  | .syncMoved a destination size =>
    if io.ok then (d.sync, c, some (.quarantined a destination size)) else (d, c, none)
  | .quarantined _ destination size =>
    (d, c.quarantine id size (destinationExists slot destination io), none)
  | .unlink =>
    if io.ok then (d.touch id { slot with trace := none }, c, some .syncUnlinked)
    else (d, c, none)
  | .syncUnlinked => if io.ok then (d.sync, c, some .unlinked) else (d, c, none)
  | .unlinked => (d, c.release id, none)

/-- The destination of a `quarantine` is named by a new v4 UUID. -/
def freshDestination (d : Disk) (call : Call) (io : Io) : Bool :=
  match call.phase with
  | .move _ => (d.slots call.id).quarantine.all fun q => q.1 != io.destination
  | _ => true

/-- What the callers of the journal do, and one step of a call under way. -/
inductive Act (M : Type) where
  | append (e : TraceEvent M) (now : ℕ)
  | acknowledge (id : Uuid)
  | quarantine (id : Uuid)
  | run (i : ℕ) (io : Io)
  | claim (now : ℕ) (reserve : Uuid → Bool)
  | drop (i : ℕ) (now : ℕ)

section
variable {M : Type} (lib : Lib M) (cfg : JournalConfig)

/-- `append` up to its first critical section. Ids are new v4 UUIDs: an id that was used before is
    only seen again while its entry is in the catalog, and refused. -/
def beginAppend (s : State) (e : TraceEvent M) (now : ℕ) : Option State :=
  if e.id ∈ s.disk.seen ∧ e.id ∉ s.catalog.entries then none
  else
    match appendMetadata lib e with
    | .error _ => some s
    | .ok metadata =>
      match s.catalog.reserve cfg e.id (recordSize e metadata) (replayMemory lib e metadata) now with
      | .error _ => some s
      | .ok c => some { s with
          catalog := c
          disk := { s.disk with seen := e.id :: s.disk.seen }
          calls := ⟨e.id, .create (record lib e metadata)⟩ :: s.calls }

/-- The calls after one step of the call at position `i`. -/
def resume (calls : List Call) (i : ℕ) (call : Call) : Option Phase → List Call
  | some phase => calls.set i { call with phase }
  | none => calls.eraseIdx i

/-- One step of the call at position `i`. -/
def runCall (s : State) (i : ℕ) (io : Io) : Option State :=
  match s.calls[i]? with
  | none => none
  | some call =>
    if freshDestination s.disk call io then
      let (d, c, next) := advance s.disk s.catalog call io
      some { s with disk := d, catalog := c, calls := resume s.calls i call next }
    else none

/-- An act of a caller, or a step of a call. -/
def step (s : State) : Act M → Option State
  | .append e now => beginAppend lib cfg s e now
  | .acknowledge id => some { s with calls := ⟨id, .unlink⟩ :: s.calls }
  | .quarantine id => some { s with calls := ⟨id, .move false⟩ :: s.calls }
  | .run i io => runCall s i io
  | .claim now reserve =>
    match s.catalog.claim now reserve with
    | (c, none) => some { s with catalog := c }
    | (c, some id) => some { s with catalog := c, claims := id :: s.claims }
  | .drop i now =>
    match s.claims[i]? with
    | none => none
    | some id => some { s with
        catalog := s.catalog.retry cfg id now, claims := s.claims.eraseIdx i }

end

/-! ### What a step can do -/

/-- The step ends the call with an error. -/
def Failing (d : Disk) (call : Call) (io : Io) : Prop :=
  match call.phase with
  | .move _ => moved (d.slots call.id) io = none
  | .syncMoved _ _ _ | .unlink | .syncUnlinked => io.ok = false
  | _ => False

theorem runCall_cases {s t : State} {i : ℕ} {io : Io} (h : runCall s i io = some t) :
    ∃ call d c next, s.calls[i]? = some call ∧ freshDestination s.disk call io = true ∧
      advance s.disk s.catalog call io = (d, c, next) ∧
      t = { s with disk := d, catalog := c, calls := resume s.calls i call next } := by
  unfold runCall at h
  split at h
  · cases h
  rename_i call hcall
  split at h
  · rename_i hfresh
    cases h
    exact ⟨call, _, _, _, hcall, hfresh, rfl, rfl⟩
  · cases h

theorem advance_seen (d : Disk) (c : Catalog) (call : Call) (io : Io) :
    (advance d c call io).1.seen = d.seen := by
  obtain ⟨id, phase⟩ := call
  cases phase <;> simp only [advance] <;> (repeat' split) <;> rfl

/-- What one step of a call does to the catalog: nothing while the call goes on; at its end the
    critical section of a successful call, and nothing when the call fails. -/
theorem advance_catalog {d d' : Disk} {c c' : Catalog} {call : Call} {io : Io}
    {next : Option Phase} (h : advance d c call io = (d', c', next)) :
    (∃ phase, next = some phase ∧ phase.appending = call.phase.appending ∧ c' = c) ∨
    (next = none ∧ call.phase = .publish ∧ c' = c.publish call.id) ∨
    (next = none ∧ ∃ a destination size found, call.phase = .quarantined a destination size ∧
      c' = c.quarantine call.id size found) ∨
    (next = none ∧ call.phase = .unlinked ∧ c' = c.release call.id) ∨
    (next = none ∧ c' = c ∧ Failing d call io) := by
  obtain ⟨id, phase⟩ := call
  cases phase with
  | create bytes | write bytes | rename | sync =>
    left
    simp only [advance] at h
    split at h <;> (try split at h) <;> cases h <;> exact ⟨_, rfl, rfl, rfl⟩
  | publish =>
    simp only [advance] at h
    cases h
    exact .inr (.inl ⟨rfl, rfl, rfl⟩)
  | move a =>
    simp only [advance] at h
    split at h
    · rename_i hm
      cases h
      exact .inr (.inr (.inr (.inr ⟨rfl, rfl, hm⟩)))
    · cases h
      exact .inl ⟨_, rfl, rfl, rfl⟩
  | quarantined a destination size =>
    simp only [advance] at h
    cases h
    exact .inr (.inr (.inl ⟨rfl, a, destination, size, _, rfl, rfl⟩))
  | syncMoved a destination size | unlink | syncUnlinked =>
    simp only [advance] at h
    split at h
    · cases h
      exact .inl ⟨_, rfl, rfl, rfl⟩
    · rename_i hok
      cases h
      exact .inr (.inr (.inr (.inr ⟨rfl, rfl, by simpa [Failing] using hok⟩)))
  | unlinked =>
    simp only [advance] at h
    cases h
    exact .inr (.inr (.inr (.inl ⟨rfl, rfl, rfl⟩)))

/-! ### Opening the journal -/

/-- The kinds of files that a scan finds. -/
inductive Kind where
  | temporary | trace | quarantine
  deriving DecidableEq

/-- A file that `read_dir` finds. -/
structure DirEntry where
  id : Uuid
  kind : Kind
  file : File

/-- `MAX_SCAN_RECORDS` -/
def maxScanRecords : ℕ := 1000000

/-- The entries of a directory that belong to an id. -/
def Slot.listing (id : Uuid) (slot : Slot) : List DirEntry :=
  (slot.temporary.toList.map fun f => ⟨id, .temporary, f⟩) ++
    (slot.trace.toList.map fun f => ⟨id, .trace, f⟩) ++
    slot.quarantine.map fun q => ⟨id, .quarantine, q.2⟩

/-- The record files of the directory; each id is listed once. -/
def Disk.listing (d : Disk) : List DirEntry :=
  d.seen.dedup.flatMap fun id => (d.slots id).listing id

/-- The header of a record that is to be recovered: `readable` is false where reading it fails. -/
def recoveredHeader (readable : Uuid → Bool) (e : DirEntry) : Option Header :=
  if e.kind = .trace ∧ readable e.id = true then
    (readHeader e.file.bytes e.file.bytes.length).toOption
  else none

/-- The body of the scan in `Journal::open`. -/
def scanFile (now : ℕ) (readable : Uuid → Bool) (c : Catalog) (e : DirEntry) : Option Catalog :=
  let size := e.file.bytes.length
  if maxScanRecords ≤ c.entries.size + c.quarantined then none
  else
    match recoveredHeader readable e with
    | some h => some { c with
        entries := c.entries.insert e.id ⟨size, h.memory, e.file.modified, now, true⟩
        bytes := saturatingAdd c.bytes size }
    | none => some { c with
        quarantineIds := e.id :: c.quarantineIds
        quarantined := c.quarantined + 1
        quarantineBytes := saturatingAdd c.quarantineBytes size }

/-- Each file of the scan is recovered into the catalog or counted as quarantined. -/
theorem scanFile_cases {now : ℕ} {readable : Uuid → Bool} {c t : Catalog} {e : DirEntry}
    (h : scanFile now readable c e = some t) :
    c.entries.size + c.quarantined < maxScanRecords ∧
    ((∃ hd, recoveredHeader readable e = some hd ∧ e.kind = .trace ∧ t = { c with
        entries := c.entries.insert e.id
          ⟨e.file.bytes.length, hd.memory, e.file.modified, now, true⟩
        bytes := saturatingAdd c.bytes e.file.bytes.length }) ∨
      (recoveredHeader readable e = none ∧ t = { c with
        quarantineIds := e.id :: c.quarantineIds
        quarantined := c.quarantined + 1
        quarantineBytes := saturatingAdd c.quarantineBytes e.file.bytes.length })) := by
  simp only [scanFile] at h
  split at h
  · cases h
  rename_i hmax
  refine ⟨Nat.lt_of_not_le hmax, ?_⟩
  split at h
  · rename_i hd hheader
    cases h
    refine .inl ⟨hd, hheader, ?_, rfl⟩
    unfold recoveredHeader at hheader
    split at hheader
    · rename_i hk; exact hk.1
    · cases hheader
  · rename_i hnone
    cases h
    exact .inr ⟨hnone, rfl⟩

/-- Recovered records in the order of `(created, id)`. -/
def readyOrder (entries : Table Uuid Entry) : List Uuid :=
  ((entries.entries.map fun r => (r.2.created, r.1)).mergeSort fun a b =>
    decide (a.1 < b.1 ∨ a.1 = b.1 ∧ a.2 ≤ b.2)).map Prod.snd

/-- The slot after the scan: everything that was not recovered is renamed to quarantine. -/
def openSlot (readable : Uuid → Bool) (destination : Kind → Uuid → Uuid) (id : Uuid)
    (slot : Slot) : Slot :=
  let keep := slot.trace.any fun f => (recoveredHeader readable ⟨id, .trace, f⟩).isSome
  { temporary := none
    trace := if keep then slot.trace else none
    quarantine :=
      (slot.temporary.toList.map fun f => (destination .temporary id, f)) ++
      (if keep then [] else slot.trace.toList.map fun f => (destination .trace id, f)) ++
      slot.quarantine }

/-- `Journal::open` when it succeeds, directory syncs included. -/
def openJournal (d : Disk) (now : ℕ) (readable : Uuid → Bool)
    (destination : Kind → Uuid → Uuid) : Option State :=
  match Schemes.run (scanFile now readable) {} d.listing with
  | none => none
  | some c => some {
      disk := { slots := fun id => openSlot readable destination id (d.slots id)
                past := fun _ => [], seen := d.seen }
      catalog := { c with ready := readyOrder c.entries }
      claims := []
      calls := [] }

end Llmtrace.Journal
