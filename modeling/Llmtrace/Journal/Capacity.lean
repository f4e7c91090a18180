import Llmtrace.Journal.Queue

/-! Capacity accounting of the journal. `append` charges a record before it writes a byte of it, and
    `quarantine` measures again whatever is left of the record on disk. `CapacityInv` ties the two
    together: no file of a catalogued id, and no size a running call carries along, is larger than
    the charge of its entry. The bounds of the configuration follow from that.

    A call for a record that has left the catalog finds nothing to do: `Idle` says why, phase by
    phase. -/

namespace Llmtrace.Journal
open Schemes

/-- How many bytes a running call may still bring to the disk or to the quarantine. -/
def Phase.charge : Phase → ℕ
  | .create bytes | .write bytes => bytes.length
  | .syncMoved _ _ size | .quarantined _ _ size => size
  | _ => 0

/-- No file that a `quarantine` could move is larger than `m`. -/
structure Slot.Fits (slot : Slot) (m : ℕ) : Prop where
  temporary : ∀ f ∈ slot.temporary, f.bytes.length ≤ m
  trace : ∀ f ∈ slot.trace, f.bytes.length ≤ m

/-- The capacity that the configuration sets. -/
def Within (cfg : JournalConfig) (c : Catalog) : Prop :=
  c.bytes + c.quarantineBytes ≤ cfg.maxBytes ∧ c.entries.size + c.quarantined ≤ cfg.maxRecords

/-- A `quarantine` finds no file to move. -/
def Slot.Bare (slot : Slot) : Prop := slot.temporary = none ∧ slot.trace = none

/-- The discipline of the callers: `acknowledge` and `quarantine` are called for records of the
    journal, one call for a record at a time. A record that is not in the catalog any more may be
    acknowledged or quarantined again, but for one that an `exists()` with an error has dropped from
    the catalog while its file stayed. -/
def OneCall {M : Type} (s : State) : Act M → Prop
  | .acknowledge id => id ∈ s.disk.seen ∧ id ∉ s.calls.map Call.id
  | .quarantine id => id ∈ s.disk.seen ∧ id ∉ s.calls.map Call.id ∧
      (id ∈ s.catalog.entries ∨ (s.disk.slots id).Bare)
  | _ => True

/-- A directory that only the journal has written: nothing is there for an id it never used, and no
    record is larger than the largest `max_bytes`. -/
structure Disk.Written (d : Disk) : Prop where
  unseen : ∀ id ∉ d.seen, d.slots id = {}
  small : ∀ id, ∀ e ∈ (d.slots id).listing id, e.file.bytes.length ≤ 2 ^ 40

/-- The call has nothing to move: it acknowledges, or no file is there for its `quarantine`. -/
def Idle (slot : Slot) : Phase → Prop
  | .unlink | .syncUnlinked | .unlinked => True
  | .move _ => slot.Bare
  | .syncMoved _ destination size | .quarantined _ destination size =>
      size = 0 ∧ ∀ q ∈ slot.quarantine, q.1 ≠ destination
  | _ => False

/-- The charge of `id` in the catalog. -/
def Catalog.charge (c : Catalog) (id : Uuid) : ℕ := ((c.entries.lookup id).map Entry.size).getD 0

/-- What the catalog counts is what its entries need, and no file is larger than its entry says. -/
structure CapacityInv (s : State) : Prop where
  sum : s.catalog.bytes = s.catalog.entries.total Entry.size
  files : ∀ id e, s.catalog.entries.lookup id = some e → (s.disk.slots id).Fits e.size
  known : ∀ call ∈ s.calls, call.id ∈ s.disk.seen
  charged : ∀ call ∈ s.calls, ∀ e, s.catalog.entries.lookup call.id = some e →
    call.phase.charge ≤ e.size
  idle : ∀ call ∈ s.calls, call.id ∉ s.catalog.entries → Idle (s.disk.slots call.id) call.phase
  unique : (s.calls.map Call.id).Nodup
  unseen : ∀ id ∉ s.disk.seen, id ∉ s.catalog.entries ∧ s.disk.slots id = {}

/-! ### One step of a call -/

theorem moved_fits {slot slot' : Slot} {io : Io} {m n : ℕ} (h : moved slot io = some (slot', n))
    (hfit : slot.Fits m) : slot'.Fits m ∧ n ≤ m := by
  have haside : ∀ rest f, rest.Fits m → f.bytes.length ≤ m →
      moveAside slot rest f io = some (slot', n) → slot'.Fits m ∧ n ≤ m := by
    intro rest f hrest hf h
    unfold moveAside at h
    split at h
    · split at h
      · cases h; exact ⟨⟨hrest.temporary, hrest.trace⟩, hf⟩
      · cases h
    · cases h; exact ⟨hfit, Nat.zero_le m⟩
  unfold moved at h
  split at h
  · rename_i f hf
    refine haside { slot with trace := none } f ⟨hfit.temporary, by simp⟩ (hfit.trace f ?_) h
    split at hf
    · exact hf
    · cases hf
  · rename_i f _ hf
    exact haside { slot with temporary := none } f ⟨by simp, hfit.trace⟩ (hfit.temporary f hf) h
  · cases h; exact ⟨hfit, Nat.zero_le m⟩

/-- A step of a call touches the files of its own id only, and writes or moves no more than the
    charge allows. -/
theorem advance_fits {d d' : Disk} {c c' : Catalog} {call : Call} {io : Io} {next : Option Phase}
    {m : ℕ} (h : advance d c call io = (d', c', next)) (hfit : (d.slots call.id).Fits m)
    (hcharge : call.phase.charge ≤ m) :
    (∀ x, x ≠ call.id → d'.slots x = d.slots x) ∧ (d'.slots call.id).Fits m ∧
      ∀ p ∈ next, p.charge ≤ m := by
  have hkeep : ∀ x, x ≠ call.id → d.slots x = d.slots x := fun _ _ => rfl
  have htouch : ∀ slot x, x ≠ call.id → (d.touch call.id slot).slots x = d.slots x :=
    fun slot x hx => Function.update_of_ne hx _ _
  have hslot : ∀ slot, (d.touch call.id slot).slots call.id = slot :=
    fun slot => Function.update_self _ _ _
  obtain ⟨id, phase⟩ := call
  cases phase with
  | create bytes =>
    simp only [advance] at h
    split at h <;> cases h
    · refine ⟨htouch _, ?_, by simpa [Phase.charge] using hcharge⟩
      rw [hslot]
      exact ⟨by simp, hfit.trace⟩
    · exact ⟨hkeep, hfit, by simp [Phase.charge]⟩
  | write bytes =>
    simp only [Phase.charge] at hcharge
    simp only [advance] at h
    split at h <;> cases h <;> refine ⟨htouch _, ?_, by simp [Phase.charge]⟩ <;> rw [hslot]
    · exact ⟨by simpa using hcharge, hfit.trace⟩
    · refine ⟨?_, hfit.trace⟩
      simp only [Option.mem_def, Option.some.injEq, forall_eq', List.length_take]
      omega
  | rename =>
    simp only [advance] at h
    split at h
    · cases h; exact ⟨hkeep, hfit, by simp [Phase.charge]⟩
    split at h <;> cases h
    · refine ⟨htouch _, ?_, by simp [Phase.charge]⟩
      rw [hslot]
      exact ⟨by simp, hfit.temporary⟩
    · exact ⟨hkeep, hfit, by simp [Phase.charge]⟩
  | sync | syncUnlinked =>
    simp only [advance] at h
    split at h <;> cases h <;> exact ⟨hkeep, hfit, by simp [Phase.charge]⟩
  | publish | quarantined | unlinked =>
    simp only [advance] at h
    cases h
    exact ⟨hkeep, hfit, by simp⟩
  | move a =>
    simp only [advance] at h
    split at h
    · cases h; exact ⟨hkeep, hfit, by simp⟩
    rename_i slot n hm
    cases h
    obtain ⟨hfit', hn⟩ := moved_fits hm hfit
    refine ⟨htouch _, ?_, by simpa [Phase.charge] using hn⟩
    rw [hslot]
    exact hfit'
  | syncMoved a destination n =>
    simp only [advance] at h
    split at h <;> cases h
    · exact ⟨hkeep, hfit, by simpa [Phase.charge] using hcharge⟩
    · exact ⟨hkeep, hfit, by simp⟩
  | unlink =>
    simp only [advance] at h
    split at h <;> cases h
    · refine ⟨htouch _, ?_, by simp [Phase.charge]⟩
      rw [hslot]
      exact ⟨hfit.temporary, by simp⟩
    · exact ⟨hkeep, hfit, by simp⟩

/-- An idle call leaves the catalog alone and stays idle. -/
theorem advance_idle {d d' : Disk} {c c' : Catalog} {call : Call} {io : Io} {next : Option Phase}
    (h : advance d c call io = (d', c', next)) (hfresh : freshDestination d call io = true)
    (hidle : Idle (d.slots call.id) call.phase) (hno : call.id ∉ c.entries) :
    c' = c ∧ (∀ x, x ≠ call.id → d'.slots x = d.slots x) ∧
      ∀ p ∈ next, Idle (d'.slots call.id) p := by
  have hrelease : c.release call.id = c := by
    rw [Catalog.release, AList.lookup_eq_none.mpr hno]
  obtain ⟨id, phase⟩ := call
  cases phase with
  | create | write | rename | sync | publish => exact hidle.elim
  | move a =>
    obtain ⟨htemp, htrace⟩ : (d.slots id).temporary = none ∧ (d.slots id).trace = none := hidle
    have hm : moved (d.slots id) io = some (d.slots id, 0) := by
      simp only [moved, htemp, htrace, ite_self]
    simp only [advance, hm] at h
    cases h
    refine ⟨rfl, fun x hx => Function.update_of_ne hx _ _, ?_⟩
    simp only [Option.mem_def, Option.some.injEq, forall_eq', Disk.touch, Function.update_self]
    refine ⟨rfl, fun q hq => ?_⟩
    simp only [freshDestination, List.all_eq_true] at hfresh
    simpa using hfresh q hq
  | syncMoved a destination n =>
    simp only [advance] at h
    split at h <;> cases h
    · exact ⟨rfl, fun _ _ => rfl, by simpa [Disk.sync, Idle] using hidle⟩
    · exact ⟨rfl, fun _ _ => rfl, by simp⟩
  | quarantined a destination n =>
    have hgone : destinationExists (d.slots id) destination io = false := by
      simp only [destinationExists, Bool.and_eq_false_imp, List.any_eq_false, beq_iff_eq]
      exact fun _ q hq => hidle.2 q hq
    simp only [advance, hgone] at h
    cases h
    refine ⟨?_, fun _ _ => rfl, by simp⟩
    simp only [Catalog.quarantine, hrelease, Bool.false_eq_true, if_false]
  | unlink =>
    simp only [advance] at h
    split at h <;> cases h
    · exact ⟨rfl, fun x hx => Function.update_of_ne hx _ _, by simp [Idle]⟩
    · exact ⟨rfl, fun _ _ => rfl, by simp⟩
  | syncUnlinked =>
    simp only [advance] at h
    split at h <;> cases h <;> exact ⟨rfl, fun _ _ => rfl, by simp [Idle]⟩
  | unlinked =>
    simp only [advance] at h
    cases h
    exact ⟨hrelease, fun _ _ => rfl, by simp⟩

theorem release_sum {c : Catalog} (h : c.bytes = c.entries.total Entry.size) (id : Uuid) :
    (c.release id).bytes = (c.release id).entries.total Entry.size := by
  unfold Catalog.release
  split
  · exact h
  · rename_i e he
    have := Table.total_erase Entry.size he
    simp only
    omega

/-- The last section of a `quarantine` releases the charge and takes at most as much. -/
theorem quarantine_moves {c : Catalog} {id : Uuid} {e : Entry} {n : ℕ} (found : Bool)
    (hsum : c.bytes = c.entries.total Entry.size) (he : c.entries.lookup id = some e)
    (hn : n ≤ e.size) :
    (c.quarantine id n found).bytes + e.size = c.bytes ∧
      (c.quarantine id n found).quarantineBytes ≤ c.quarantineBytes + e.size ∧
      (c.quarantine id n found).entries.size + 1 = c.entries.size ∧
      (c.quarantine id n found).quarantined ≤ c.quarantined + 1 := by
  have hle := Table.le_total Entry.size he
  have hsize := Table.size_erase he
  simp only [Catalog.quarantine_bytes, Catalog.quarantine_entries]
  unfold Catalog.quarantine
  cases found <;> simp only [Catalog.release, he, if_true, Bool.false_eq_true, if_false] <;> omega

/-! ### One step of the journal -/

theorem map_id_resume {calls : List Call} {i : ℕ} {call : Call} (h : calls[i]? = some call) :
    ∀ next, ((resume calls i call next).map Call.id).Sublist (calls.map Call.id)
  | none => (List.eraseIdx_sublist calls i).map Call.id
  | some phase => by
      rw [resume, pool_map_set Call.id h (by rfl)]

/-- What a step of a call for a catalogued record does to the catalog: others keep their entries,
    and the record keeps its own until the call returns. -/
theorem advance_entries {d d' : Disk} {c c' : Catalog} {call : Call} {io : Io} {next : Option Phase}
    {e : Entry} (h : advance d c call io = (d', c', next))
    (hsum : c.bytes = c.entries.total Entry.size) (he : c.entries.lookup call.id = some e)
    (hcharge : call.phase.charge ≤ e.size) :
    c'.bytes = c'.entries.total Entry.size ∧
      (∀ id, id ≠ call.id → c'.entries.lookup id = c.entries.lookup id) ∧
      (c'.entries.lookup call.id = some e ∨ c'.entries.lookup call.id = none ∧ next = none) ∧
      ∀ cfg, Within cfg c → Within cfg c' := by
  have hgone : (c.release call.id).entries.lookup call.id = none :=
    AList.lookup_eq_none.mpr fun hin => (Catalog.mem_release.mp hin).1 rfl
  obtain ⟨phase, rfl, -, rfl⟩ | ⟨rfl, hp, rfl⟩ | ⟨rfl, a, dst, n, b, hp, rfl⟩ | ⟨rfl, hp, rfl⟩ |
    ⟨rfl, rfl, -⟩ := advance_catalog h
  · exact ⟨hsum, fun _ _ => rfl, .inl he, fun _ hw => hw⟩
  · exact ⟨hsum, fun _ _ => rfl, .inl he, fun _ hw => hw⟩
  · -- quarantined
    simp only [hp, Phase.charge] at hcharge
    obtain ⟨h1, h2, h3, h4⟩ := quarantine_moves b hsum he hcharge
    refine ⟨?_, fun id hid => ?_, .inr ⟨?_, rfl⟩, fun cfg hw => ?_⟩
    · simpa using release_sum hsum call.id
    · simpa using Catalog.lookup_release hid
    · simpa using hgone
    · obtain ⟨hb, hr⟩ := hw
      exact ⟨by omega, by omega⟩
  · -- acknowledged
    have hle := Table.le_total Entry.size he
    have hsize := Table.size_erase he
    refine ⟨release_sum hsum call.id, fun id hid => Catalog.lookup_release hid, .inr ⟨hgone, rfl⟩,
      fun cfg hw => ?_⟩
    obtain ⟨hb, hr⟩ := hw
    simp only [Within, Catalog.release, he]
    omega
  · exact ⟨hsum, fun _ _ => rfl, .inl he, fun _ hw => hw⟩

/-- A step of a call that leaves the others alone keeps the accounting if it does so for the call's
    own record. -/
theorem CapacityInv.resume {s : State} {i : ℕ} {call : Call} {d : Disk} {c : Catalog}
    {next : Option Phase} (hinv : CapacityInv s) (hcall : s.calls[i]? = some call)
    (hseen : d.seen = s.disk.seen) (hslots : ∀ x, x ≠ call.id → d.slots x = s.disk.slots x)
    (hsum : c.bytes = c.entries.total Entry.size)
    (hother : ∀ x, x ≠ call.id → c.entries.lookup x = s.catalog.entries.lookup x)
    (hown : ∀ e, c.entries.lookup call.id = some e →
      (d.slots call.id).Fits e.size ∧ ∀ p ∈ next, p.charge ≤ e.size)
    (hidle : call.id ∉ c.entries → ∀ p ∈ next, Idle (d.slots call.id) p) :
    CapacityInv { s with disk := d, catalog := c, calls := resume s.calls i call next } := by
  have hmem : ∀ x, x ≠ call.id → (x ∈ c.entries ↔ x ∈ s.catalog.entries) := fun x hx => by
    rw [← AList.lookup_isSome, hother x hx, AList.lookup_isSome]
  have hne : ∀ x ∉ d.seen, x ≠ call.id := by
    rintro x hx rfl
    exact hx (hseen ▸ hinv.known call (pool_mem hcall))
  refine ⟨hsum, ?_, ?_, ?_, ?_, hinv.unique.sublist (map_id_resume hcall next), ?_⟩
  · intro id e he
    by_cases hid : id = call.id
    · subst hid; exact (hown e he).1
    · simp only [hslots id hid]
      exact hinv.files id e (hother id hid ▸ he)
  · intro x hx
    simp only [hseen]
    rcases mem_resume hcall hx with hx | ⟨p, hp, rfl⟩
    · exact hinv.known x (List.mem_of_mem_eraseIdx hx)
    · exact hinv.known call (pool_mem hcall)
  · intro x hx e he
    rcases mem_resume hcall hx with hx | ⟨p, hp, rfl⟩
    · have hid := pool_key_ne hinv.unique hcall hx
      exact hinv.charged x (List.mem_of_mem_eraseIdx hx) e (hother _ hid ▸ he)
    · exact (hown e he).2 p hp
  · intro x hx hno
    rcases mem_resume hcall hx with hx | ⟨p, hp, rfl⟩
    · have hid := pool_key_ne hinv.unique hcall hx
      simp only [hslots _ hid]
      exact hinv.idle x (List.mem_of_mem_eraseIdx hx) (mt (hmem _ hid).mpr hno)
    · exact hidle hno p hp
  · intro x hx
    obtain ⟨hno, hempty⟩ := hinv.unseen x (hseen ▸ hx)
    simp only [hslots x (hne x hx)]
    exact ⟨mt (hmem x (hne x hx)).mp hno, hempty⟩

theorem runCall_capacity {s t : State} {i : ℕ} {io : Io} (hinv : CapacityInv s)
    (h : runCall s i io = some t) :
    CapacityInv t ∧ ∀ cfg, Within cfg s.catalog → Within cfg t.catalog := by
  obtain ⟨call, d, c, next, hcall, hfresh, hadv, rfl⟩ := runCall_cases h
  have hseen : d.seen = s.disk.seen := by
    have := advance_seen s.disk s.catalog call io
    rwa [hadv] at this
  cases he : s.catalog.entries.lookup call.id with
  | none =>
    -- the record has left the catalog
    have hno := AList.lookup_eq_none.mp he
    obtain ⟨rfl, hslots, hnext⟩ := advance_idle hadv hfresh (hinv.idle call (pool_mem hcall) hno) hno
    refine ⟨hinv.resume hcall hseen hslots hinv.sum (fun _ _ => rfl) ?_ fun _ => hnext,
      fun _ hw => hw⟩
    intro e he'
    rw [he] at he'
    cases he'
  | some e =>
    have hcharge := hinv.charged call (pool_mem hcall) e he
    obtain ⟨hslots, hfit, hnext⟩ := advance_fits hadv (hinv.files _ _ he) hcharge
    obtain ⟨hsum, hother, hown, hwithin⟩ := advance_entries hadv hinv.sum he hcharge
    refine ⟨hinv.resume hcall hseen hslots hsum hother ?_ ?_, hwithin⟩
    · intro e' he'
      rcases hown with hown | ⟨hown, -⟩ <;> rw [hown] at he' <;> cases he'
      exact ⟨hfit, hnext⟩
    · intro hno p hp
      rcases hown with hown | ⟨-, rfl⟩
      · exact absurd (Table.mem_of_lookup hown) hno
      · cases hp

section
variable {M : Type} {lib : Lib M} {cfg : JournalConfig}

theorem append_capacity {s t : State} {e : TraceEvent M} {now : ℕ} (hinv : CapacityInv s)
    (h : beginAppend lib cfg s e now = some t) :
    CapacityInv t ∧ (Within cfg s.catalog → Within cfg t.catalog) := by
  obtain rfl | ⟨metadata, c, -, hnew, hres, rfl⟩ := beginAppend_cases h
  · exact ⟨hinv, id⟩
  obtain ⟨hid, hbytes, hrecords, rfl⟩ := Catalog.reserve_ok hres
  have hcall : ∀ call ∈ s.calls, call.id ≠ e.id :=
    fun call hc heq => hnew (heq ▸ hinv.known call hc)
  refine ⟨⟨?_, ?_, ?_, ?_, ?_, ?_, ?_⟩, fun _ => ⟨?_, ?_⟩⟩
  · simp only [Table.total_insert, Table.total_erase_of_notMem _ hid, hinv.sum]
    omega
  · intro x e' he'
    by_cases hx : x = e.id
    · subst hx
      have hempty := (hinv.unseen _ hnew).2
      simp only [hempty]
      exact ⟨by simp, by simp⟩
    · rw [AList.lookup_insert_ne hx] at he'
      exact hinv.files x e' he'
  · intro call hc
    rcases List.mem_cons.mp hc with rfl | hc
    · exact List.mem_cons_self
    · exact List.mem_cons_of_mem _ (hinv.known call hc)
  · intro call hc e' hl
    rcases List.mem_cons.mp hc with rfl | hc
    · rw [AList.lookup_insert] at hl
      cases hl
      simp [Phase.charge, record_length]
    · rw [AList.lookup_insert_ne (hcall call hc)] at hl
      exact hinv.charged call hc e' hl
  · intro call hc hno
    rcases List.mem_cons.mp hc with rfl | hc
    · exact absurd ((AList.mem_insert _).mpr (.inl rfl)) hno
    · exact hinv.idle call hc fun hin => hno ((AList.mem_insert _).mpr (.inr hin))
  · refine List.nodup_cons.mpr ⟨?_, hinv.unique⟩
    simp only [List.mem_map, not_exists, not_and]
    exact hcall
  · intro x hx
    simp only [List.mem_cons, not_or] at hx
    obtain ⟨hno, hempty⟩ := hinv.unseen x hx.2
    exact ⟨by simp [AList.mem_insert, hx.1, hno], hempty⟩
  · simp only; omega
  · simp only [Table.size_insert hid]; omega

/-- A call that starts with nothing charged to it. -/
theorem CapacityInv.start {s : State} {id : Uuid} {phase : Phase} (hinv : CapacityInv s)
    (hid : id ∈ s.disk.seen) (hnew : id ∉ s.calls.map Call.id) (hzero : phase.charge = 0)
    (hidle : id ∉ s.catalog.entries → Idle (s.disk.slots id) phase) :
    CapacityInv { s with calls := ⟨id, phase⟩ :: s.calls } := by
  refine ⟨hinv.sum, hinv.files, ?_, ?_, ?_, List.nodup_cons.mpr ⟨hnew, hinv.unique⟩, hinv.unseen⟩
  · exact List.forall_mem_cons.mpr ⟨hid, hinv.known⟩
  · exact List.forall_mem_cons.mpr ⟨fun e _ => hzero.trans_le (Nat.zero_le _), hinv.charged⟩
  · exact List.forall_mem_cons.mpr ⟨hidle, hinv.idle⟩

/-- Every step of the journal, taken with the callers' discipline, keeps the accounting and the
    capacity. -/
theorem step_capacity {s t : State} {a : Act M} (hinv : CapacityInv s) (hg : OneCall s a)
    (h : step lib cfg s a = some t) :
    CapacityInv t ∧ (Within cfg s.catalog → Within cfg t.catalog) := by
  cases a with
  | append e now => exact append_capacity hinv h
  | acknowledge id =>
    simp only [step, Option.some.injEq] at h
    subst h
    exact ⟨hinv.start hg.1 hg.2 rfl fun _ => trivial, fun hw => hw⟩
  | quarantine id =>
    simp only [step, Option.some.injEq] at h
    subst h
    obtain ⟨hid, hnew, hfree⟩ := hg
    exact ⟨hinv.start hid hnew rfl hfree.resolve_left, fun hw => hw⟩
  | run i io =>
    obtain ⟨hinv', hw⟩ := runCall_capacity hinv h
    exact ⟨hinv', hw cfg⟩
  | claim now reserve =>
    obtain ⟨q, hc, -⟩ := Catalog.claim_spec now reserve s.catalog
    simp only [step] at h
    rcases hcl : s.catalog.claim now reserve with ⟨c, _ | id⟩ <;> rw [hcl] at h hc <;>
      simp only [Option.some.injEq] at h hc <;> subst h hc <;>
      exact ⟨⟨hinv.sum, hinv.files, hinv.known, hinv.charged, hinv.idle, hinv.unique, hinv.unseen⟩,
        fun hw => hw⟩
  | drop i now =>
    simp only [step] at h
    split at h
    · cases h
    rename_i id hid
    cases h
    unfold Catalog.retry
    split
    · exact ⟨⟨hinv.sum, hinv.files, hinv.known, hinv.charged, hinv.idle, hinv.unique, hinv.unseen⟩,
        fun hw => hw⟩
    · -- the entry is put back with a new due time
      rename_i e he
      have hlookup : ∀ x e', (AList.insert id { e with due := now + cfg.retryIntervalSecs }
          s.catalog.entries).lookup x = some e' →
          ∃ e₀, s.catalog.entries.lookup x = some e₀ ∧ e₀.size = e'.size := by
        intro x e' hx
        rcases Table.lookup_insert_cases hx with ⟨rfl, rfl⟩ | ⟨-, hx⟩
        · exact ⟨e, he, rfl⟩
        · exact ⟨e', hx, rfl⟩
      refine ⟨⟨?_, ?_, hinv.known, ?_, ?_, hinv.unique, ?_⟩, fun hw => ⟨hw.1, ?_⟩⟩
      · rw [hinv.sum]
        exact (Table.total_replace Entry.size he rfl).symm
      · intro x e' hx
        obtain ⟨e₀, he₀, hsize⟩ := hlookup x e' hx
        exact hsize ▸ hinv.files x e₀ he₀
      · intro call hc e' he'
        obtain ⟨e₀, he₀, hsize⟩ := hlookup _ e' he'
        exact hsize ▸ hinv.charged call hc e₀ he₀
      · intro call hc hno
        exact hinv.idle call hc fun hin => hno ((AList.mem_insert _).mpr (.inr hin))
      · intro x hx
        obtain ⟨hno, hempty⟩ := hinv.unseen x hx
        refine ⟨fun hin => ?_, hempty⟩
        obtain ⟨e', he'⟩ := Table.lookup_of_mem hin
        obtain ⟨e₀, he₀, -⟩ := hlookup x e' he'
        exact hno (Table.mem_of_lookup he₀)
      · have := Table.size_replace { e with due := now + cfg.retryIntervalSecs } he
        simp only [this]
        exact hw.2

end

/-! ### Opening the journal -/

/-- The ids of the `.trace` files. -/
def traceIds (files : List DirEntry) : List Uuid :=
  (files.filter fun e => e.kind = .trace).map DirEntry.id

theorem traceIds_slot (id : Uuid) (slot : Slot) :
    traceIds (slot.listing id) = slot.trace.toList.map fun _ => id := by
  obtain ⟨temporary, trace, quarantine⟩ := slot
  have hq : (quarantine.map fun q => (⟨id, .quarantine, q.2⟩ : DirEntry)).filter
      (fun e => e.kind = .trace) = [] := by
    rw [List.filter_eq_nil_iff]
    intro e he
    obtain ⟨q, -, rfl⟩ := List.mem_map.mp he
    simp
  cases temporary <;> cases trace <;> simp [traceIds, Slot.listing, hq]

theorem traceIds_listing (d : Disk) : (traceIds d.listing).Nodup := by
  have hflat : traceIds d.listing = d.seen.dedup.flatMap fun id =>
      (d.slots id).trace.toList.map fun _ => id := by
    simp only [traceIds, Disk.listing, List.filter_flatMap, List.map_flatMap]
    exact List.flatMap_congr fun id _ => traceIds_slot id (d.slots id)
  rw [hflat, List.nodup_flatMap]
  refine ⟨fun id _ => ?_, (List.nodup_dedup d.seen).imp ?_⟩
  · cases (d.slots id).trace <;> simp
  · intro a b hne x ha hb
    simp only [List.mem_map] at ha hb
    obtain ⟨-, -, rfl⟩ := ha
    obtain ⟨-, -, rfl⟩ := hb
    exact hne rfl

theorem trace_of_listing {slot : Slot} {id : Uuid} {e : DirEntry} (h : e ∈ slot.listing id)
    (hk : e.kind = .trace) : slot.trace = some e.file := by
  simp only [Slot.listing, List.mem_append, List.mem_map, Option.mem_toList] at h
  obtain (⟨_, -, rfl⟩ | ⟨f, hf, rfl⟩) | ⟨_, -, rfl⟩ := h
  · cases hk
  · exact hf
  · cases hk

/-- The scan charges every recovered record with the length of its file; the sums stay far below
    the saturation of a 64-bit word. -/
theorem scan_capacity {now : ℕ} {readable : Uuid → Bool} {files : List DirEntry} {c : Catalog}
    (h : Schemes.run (scanFile now readable) {} files = some c) (hids : (traceIds files).Nodup)
    (hsmall : ∀ e ∈ files, e.file.bytes.length ≤ 2 ^ 40) :
    c.bytes = c.entries.total Entry.size ∧
      ∀ id entry, c.entries.lookup id = some entry →
        ∃ e ∈ files, e.kind = .trace ∧ e.id = id ∧ e.file.bytes.length = entry.size := by
  have key : (traceIds files).Nodup → (∀ e ∈ files, e.file.bytes.length ≤ 2 ^ 40) →
      c.bytes = c.entries.total Entry.size ∧ c.bytes ≤ 2 ^ 40 * c.entries.size ∧
      ∀ id entry, c.entries.lookup id = some entry →
        ∃ e ∈ files, e.kind = .trace ∧ e.id = id ∧ e.file.bytes.length = entry.size := by
    refine run_inv (I := fun files (c : Catalog) => (traceIds files).Nodup →
      (∀ e ∈ files, e.file.bytes.length ≤ 2 ^ 40) →
      c.bytes = c.entries.total Entry.size ∧ c.bytes ≤ 2 ^ 40 * c.entries.size ∧
      ∀ id entry, c.entries.lookup id = some entry →
        ∃ e ∈ files, e.kind = .trace ∧ e.id = id ∧ e.file.bytes.length = entry.size) h ?_ ?_
    · intro _ _
      refine ⟨rfl, Nat.zero_le _, ?_⟩
      simp
    intro done e c t ih hstep hids hsmall
    have hsplit : traceIds (done ++ [e]) = traceIds done ++ traceIds [e] := by
      simp [traceIds, List.filter_append]
    rw [hsplit] at hids
    obtain ⟨hsum, hle, hfiles⟩ := ih hids.of_append_left fun x hx => hsmall x (by simp [hx])
    have hold : ∀ id entry, c.entries.lookup id = some entry →
        ∃ x ∈ done ++ [e], x.kind = .trace ∧ x.id = id ∧ x.file.bytes.length = entry.size :=
      fun id entry hl => by
        obtain ⟨x, hx, hk⟩ := hfiles id entry hl
        exact ⟨x, by simp [hx], hk⟩
    obtain ⟨hmax, ⟨hd, -, hkind, rfl⟩ | ⟨-, rfl⟩⟩ := scanFile_cases hstep
    · -- recovered
      have hnew : e.id ∉ c.entries := fun hin => by
        obtain ⟨entry, hl⟩ := Table.lookup_of_mem hin
        obtain ⟨x, hx, hxk, hxid, -⟩ := hfiles _ _ hl
        refine (List.disjoint_of_nodup_append hids) (a := e.id) ?_ ?_
        · exact List.mem_map.mpr ⟨x, List.mem_filter.mpr ⟨hx, by simpa using hxk⟩, hxid⟩
        · simp [traceIds, hkind]
      have hlen := hsmall e (by simp)
      have hsat : saturatingAdd c.bytes e.file.bytes.length = c.bytes + e.file.bytes.length := by
        simp only [saturatingAdd, u64Max, maxScanRecords] at hmax ⊢
        omega
      refine ⟨?_, ?_, ?_⟩
      · simp only [hsat, Table.total_insert, Table.total_erase_of_notMem _ hnew]
        omega
      · simp only [hsat, Table.size_insert hnew]
        omega
      · intro id entry hl
        rcases Table.lookup_insert_cases hl with ⟨rfl, rfl⟩ | ⟨-, hl⟩
        · exact ⟨e, by simp, hkind, rfl, rfl⟩
        · exact hold id entry hl
    · exact ⟨hsum, hle, hold⟩
  obtain ⟨hsum, -, hfiles⟩ := key hids hsmall
  exact ⟨hsum, hfiles⟩

theorem open_capacity {d : Disk} {now : ℕ} {readable : Uuid → Bool}
    {destination : Kind → Uuid → Uuid} {s : State} (hd : d.Written)
    (h : openJournal d now readable destination = some s) : CapacityInv s := by
  have hqueue := (open_queue h).1
  unfold openJournal at h
  split at h
  · cases h
  rename_i c hscan
  cases h
  obtain ⟨hsum, hfiles⟩ := scan_capacity hscan (traceIds_listing d)
    fun e he => hd.small e.id e (mem_listing he).2
  refine ⟨hsum, ?_, by simp, by simp, by simp, by simp, ?_⟩
  · intro id entry hl
    obtain ⟨e, he, hk, rfl, hlen⟩ := hfiles id entry hl
    have htrace := trace_of_listing (mem_listing he).2 hk
    refine ⟨by simp [openSlot], fun f hf => ?_⟩
    simp only [openSlot, htrace] at hf
    split at hf
    · cases hf; exact hlen.le
    · cases hf
  · intro id hid
    refine ⟨(hqueue.unseen id hid).2, ?_⟩
    simp only [hd.unseen id hid]
    rfl

/-! ### Whole runs -/

/-- CORRECT: from `Journal::open` of a directory that only the journal wrote, through any
    interleaving of calls: the charged bytes are the sum over the entries and cover each entry; a
    refused `append` changes nothing; a `quarantine` takes over at most what it releases; and a
    journal that opens within its capacity stays within it. -/
theorem capacity_accounted {M : Type} (lib : Lib M) (cfg : JournalConfig) (d : Disk) (now : ℕ)
    (readable : Uuid → Bool) (destination : Kind → Uuid → Uuid) (s₀ s : State) (hd : d.Written)
    (hopen : openJournal d now readable destination = some s₀)
    (hrun : Reaches (step lib cfg) OneCall s₀ s) :
    s.catalog.bytes = s.catalog.entries.total Entry.size ∧
    (∀ id e, s.catalog.entries.lookup id = some e → e.size ≤ s.catalog.bytes) ∧
    (∀ (e : TraceEvent M) now metadata t, appendMetadata lib e = .ok metadata →
      s.catalog.reserve cfg e.id (recordSize e metadata) (replayMemory lib e metadata) now
        = .error .full →
      step lib cfg s (.append e now) = some t → t = s) ∧
    (∀ i io t call a dst n, s.calls[i]? = some call → call.phase = .quarantined a dst n →
      step lib cfg s (.run i io) = some t →
      t.catalog.bytes + s.catalog.charge call.id = s.catalog.bytes ∧
        t.catalog.quarantineBytes ≤ s.catalog.quarantineBytes + s.catalog.charge call.id) ∧
    (Within cfg s₀.catalog → Within cfg s.catalog) := by
  have hinv : CapacityInv s ∧ (Within cfg s₀.catalog → Within cfg s.catalog) := by
    refine hrun.inv (I := fun s => CapacityInv s ∧ (Within cfg s₀.catalog → Within cfg s.catalog))
      ?_ ⟨open_capacity hd hopen, id⟩
    intro s a t ⟨hinv, hw⟩ hg hst
    obtain ⟨hinv', hw'⟩ := step_capacity hinv hg hst
    exact ⟨hinv', hw' ∘ hw⟩
  obtain ⟨hinv, hwithin⟩ := hinv
  refine ⟨hinv.sum, ?_, ?_, ?_, hwithin⟩
  · intro id e he
    rw [hinv.sum]
    exact Table.le_total Entry.size he
  · intro e now metadata t hmeta hfull ht
    simp only [step, beginAppend, hmeta, hfull] at ht
    split at ht
    · cases ht
    · cases ht; rfl
  · intro i io t call a dst n hcall hphase ht
    obtain ⟨call', _, c, next, hcall', hfresh, hadv, rfl⟩ := runCall_cases ht
    obtain rfl : call = call' := by rw [hcall] at hcall'; exact Option.some.inj hcall'
    cases he : s.catalog.entries.lookup call.id with
    | none =>
      have hno := AList.lookup_eq_none.mp he
      obtain ⟨rfl, -⟩ := advance_idle hadv hfresh (hinv.idle call (pool_mem hcall) hno) hno
      simp [Catalog.charge, he]
    | some e =>
      have hcharge := hinv.charged call (pool_mem hcall) e he
      obtain ⟨id, phase⟩ := call
      subst hphase
      simp only [advance, Prod.mk.injEq] at hadv
      obtain ⟨-, rfl, -⟩ := hadv
      have := quarantine_moves (destinationExists (s.disk.slots id) dst io) hinv.sum he hcharge
      simp only [Catalog.charge, he, Option.map_some, Option.getD_some]
      exact ⟨this.1, this.2.1⟩

theorem capacity_accounted_sample : ({} : Disk).Written ∧ Within .default emptyJournal.catalog ∧
    Within .default appendingSample.catalog := by
  have hd : ({} : Disk).Written := ⟨fun _ _ => rfl, fun _ => by simp [Slot.listing]⟩
  have h0 : Within .default emptyJournal.catalog := by
    simp [Within, emptyJournal, Table.size]
  have hg : OneCall emptyJournal (.append sampleEvent 0) := trivial
  have := capacity_accounted sampleLib .default {} 0 (fun _ => true) (fun _ _ => 0) _ _ hd open_empty
    (.tail (.refl _) hg append_sample)
  exact ⟨hd, h0, this.2.2.2.2 h0⟩

end Llmtrace.Journal
