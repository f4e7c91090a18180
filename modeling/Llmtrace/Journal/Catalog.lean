import Llmtrace.Schemes.Table
import Llmtrace.Journal.Record

/-! The in-memory catalog of the journal and the critical sections that `append`, `claim`, `retry`,
    `acknowledge` and `quarantine` run on it under its mutex (`trace/journal.rs`). Each section is
    one function of the catalog; the file system calls around them are in `Journal.Calls`. -/

namespace Llmtrace.Journal
open Schemes

/-- The journal settings, within the bounds that configuration validation enforces. -/
structure JournalConfig where
  maxBytes : ℕ
  maxRecords : ℕ
  retryIntervalSecs : ℕ
  maxBytes_le : maxBytes ≤ 1024 * 1024 * 1024 * 1024
  maxRecords_le : maxRecords ≤ 1000000

/-- The default of the section `trace.journal`. -/
def JournalConfig.default : JournalConfig where
  maxBytes := 1024 * 1024 * 1024
  maxRecords := 100000
  retryIntervalSecs := 2
  maxBytes_le := by decide
  maxRecords_le := by decide

/-- `Entry` -/
structure Entry where
  size : ℕ
  memory : ℕ
  created : ℕ
  due : ℕ
  recovered : Bool
  deriving DecidableEq

/-- `Catalog` -/
structure Catalog where
  entries : Table Uuid Entry := ∅
  ready : List Uuid := []
  bytes : ℕ := 0
  quarantined : ℕ := 0
  quarantineBytes : ℕ := 0
  quarantineIds : List Uuid := []

/-- Why a reservation is refused. -/
inductive Refusal where
  | duplicate | full
  deriving DecidableEq

/-- The text of the error. -/
def Refusal.message : Refusal → String
  | .duplicate => "duplicate capture journal id"
  | .full => "capture journal capacity exhausted"

namespace Catalog

/-- `append`, first section: charge the record and enter it in the catalog. -/
def reserve (cfg : JournalConfig) (c : Catalog) (id : Uuid) (size memory now : ℕ) :
    Except Refusal Catalog :=
  if id ∈ c.entries then .error .duplicate
  else if cfg.maxBytes < saturatingAdd (saturatingAdd c.bytes c.quarantineBytes) size ∨
      cfg.maxRecords ≤ saturatingAdd c.entries.size c.quarantined then .error .full
  else .ok { c with
    bytes := c.bytes + size
    entries := c.entries.insert id ⟨size, memory, now, now, false⟩ }

/-- `append`, last section: hand the synced record to the replay. -/
def publish (c : Catalog) (id : Uuid) : Catalog := { c with ready := c.ready ++ [id] }

/-- The loop of `claim`, with the number of rounds left. `reserve` says which memory reservations
    succeed. An id without an entry leaves the queue and ends the call. -/
def claimLoop (now : ℕ) (reserve : Uuid → Bool) : ℕ → Catalog → Catalog × Option Uuid
  | 0, c => (c, none)
  | n + 1, c =>
    match c.ready with
    | [] => (c, none)
    | id :: rest =>
      match c.entries.lookup id with
      | none => ({ c with ready := rest }, none)
      | some entry =>
        if entry.due ≤ now ∧ reserve id = true then ({ c with ready := rest }, some id)
        else claimLoop now reserve n { c with ready := rest ++ [id] }

/-- `Journal::claim` -/
def claim (now : ℕ) (reserve : Uuid → Bool) (c : Catalog) : Catalog × Option Uuid :=
  claimLoop now reserve c.ready.length c

/-- `retry`, run when a claim is dropped. -/
def retry (cfg : JournalConfig) (c : Catalog) (id : Uuid) (now : ℕ) : Catalog :=
  match c.entries.lookup id with
  | none => c
  | some entry => { c with
      entries := c.entries.insert id { entry with due := now + cfg.retryIntervalSecs }
      ready := c.ready ++ [id] }

/-- `catalog.entries.remove(&id)` with its `catalog.bytes -= entry.size`. -/
def release (c : Catalog) (id : Uuid) : Catalog :=
  match c.entries.lookup id with
  | none => c
  | some entry => { c with entries := c.entries.erase id, bytes := c.bytes - entry.size }

/-- `quarantine`, last section: release the entry, count the moved file if it is there. -/
def quarantine (c : Catalog) (id : Uuid) (size : ℕ) (destinationExists : Bool) : Catalog :=
  let c := c.release id
  if destinationExists then { c with
    quarantined := c.quarantined + 1
    quarantineBytes := c.quarantineBytes + size
    quarantineIds := id :: c.quarantineIds }
  else c

/-- `receipt_can_be_removed` -/
def receiptCanBeRemoved (c : Catalog) (id : Uuid) : Bool :=
  decide (id ∉ c.entries ∧ id ∉ c.quarantineIds)

/-! ### What each section does -/

theorem reserve_ok {cfg : JournalConfig} {c c' : Catalog} {id : Uuid} {size memory now : ℕ}
    (h : c.reserve cfg id size memory now = .ok c') :
    id ∉ c.entries ∧ c.bytes + c.quarantineBytes + size ≤ cfg.maxBytes ∧
      c.entries.size + c.quarantined < cfg.maxRecords ∧
      c' = { c with
        bytes := c.bytes + size
        entries := c.entries.insert id ⟨size, memory, now, now, false⟩ } := by
  unfold reserve at h
  split at h
  · cases h
  split at h
  · cases h
  rename_i hid hfull
  cases h
  have hb := cfg.maxBytes_le
  have hr := cfg.maxRecords_le
  simp only [not_or, not_lt, not_le, saturatingAdd, u64Max] at hfull
  exact ⟨hid, by omega, by omega, rfl⟩

/-- `claim` touches the queue only: it hands out one catalogued id, or drops an id without an
    entry, or keeps the queue up to order. -/
theorem claimLoop_spec (now : ℕ) (reserve : Uuid → Bool) : ∀ (n : ℕ) (c : Catalog),
    ∃ q, (claimLoop now reserve n c).1 = { c with ready := q } ∧
      match (claimLoop now reserve n c).2 with
      | some id => id ∈ c.entries ∧ c.ready.Perm (id :: q)
      | none => c.ready.Perm q ∨ ∃ id, id ∉ c.entries ∧ c.ready.Perm (id :: q)
  | 0, c => ⟨c.ready, rfl, .inl (.refl _)⟩
  | n + 1, c => by
      rw [claimLoop]
      split
      · exact ⟨c.ready, rfl, .inl (.refl _)⟩
      rename_i id rest hready
      split
      · rename_i hnone
        exact ⟨rest, rfl, .inr ⟨id, AList.lookup_eq_none.mp hnone, by rw [hready]⟩⟩
      rename_i entry hsome
      split
      · exact ⟨rest, rfl, Table.mem_of_lookup hsome, by rw [hready]⟩
      · obtain ⟨q, hc, hq⟩ := claimLoop_spec now reserve n { c with ready := rest ++ [id] }
        have hperm : c.ready.Perm (rest ++ [id]) := by
          rw [hready]; exact (List.perm_append_singleton id rest).symm
        refine ⟨q, hc, ?_⟩
        split
        · rename_i id' hid'
          rw [hid'] at hq
          exact ⟨hq.1, hperm.trans hq.2⟩
        · rename_i hnone
          rw [hnone] at hq
          rcases hq with hq | ⟨x, hx, hq⟩
          · exact .inl (hperm.trans hq)
          · exact .inr ⟨x, hx, hperm.trans hq⟩

theorem claim_spec (now : ℕ) (reserve : Uuid → Bool) (c : Catalog) :
    ∃ q, (c.claim now reserve).1 = { c with ready := q } ∧
      match (c.claim now reserve).2 with
      | some id => id ∈ c.entries ∧ c.ready.Perm (id :: q)
      | none => c.ready.Perm q ∨ ∃ id, id ∉ c.entries ∧ c.ready.Perm (id :: q) :=
  claimLoop_spec now reserve c.ready.length c

@[simp] theorem mem_release {c : Catalog} {id x : Uuid} :
    x ∈ (c.release id).entries ↔ x ≠ id ∧ x ∈ c.entries := by
  unfold release
  split
  · rename_i h
    have := AList.lookup_eq_none.mp h
    constructor
    · intro hx; exact ⟨by rintro rfl; exact this hx, hx⟩
    · exact And.right
  · simp

theorem lookup_release {c : Catalog} {id x : Uuid} (h : x ≠ id) :
    (c.release id).entries.lookup x = c.entries.lookup x := by
  unfold release
  split
  · rfl
  · exact AList.lookup_erase_ne h

@[simp] theorem release_ready (c : Catalog) (id : Uuid) : (c.release id).ready = c.ready := by
  unfold release; split <;> rfl

@[simp] theorem release_quarantineIds (c : Catalog) (id : Uuid) :
    (c.release id).quarantineIds = c.quarantineIds := by
  unfold release; split <;> rfl

@[simp] theorem quarantine_entries (c : Catalog) (id : Uuid) (n : ℕ) (b : Bool) :
    (c.quarantine id n b).entries = (c.release id).entries := by
  unfold quarantine; cases b <;> rfl

@[simp] theorem quarantine_ready (c : Catalog) (id : Uuid) (n : ℕ) (b : Bool) :
    (c.quarantine id n b).ready = c.ready := by
  unfold quarantine; cases b <;> simp

@[simp] theorem quarantine_bytes (c : Catalog) (id : Uuid) (n : ℕ) (b : Bool) :
    (c.quarantine id n b).bytes = (c.release id).bytes := by
  unfold quarantine; cases b <;> rfl

theorem mem_retry {cfg : JournalConfig} {c : Catalog} {id x : Uuid} {now : ℕ} :
    x ∈ (c.retry cfg id now).entries ↔ x ∈ c.entries := by
  unfold retry
  split
  · rfl
  · rename_i entry h
    simp only [AList.mem_insert]
    exact or_iff_right_of_imp fun hx => hx ▸ Table.mem_of_lookup h

end Catalog
end Llmtrace.Journal
