import Llmtrace.Journal.Files
import Llmtrace.Replay.System

/-! What the directory and the running calls say about the ids that the database has ingested.

    `JournalInv` is about one journal and one database: an id whose insert has begun is never being
    appended and its record is readable; a call that acknowledges is for an applied id; a call that
    quarantines a claimed record is for an unreadable one, whose insert has not begun. -/

namespace Llmtrace.Replay
open Schemes Journal

/-- The insert of `id` is on the way or committed. -/
def Begun (db : Db) (id : Uuid) : Prop := id ∈ db.applied ∨ id ∈ db.inserting

/-- The phases of an acknowledgement. -/
def acknowledging : Phase → Bool
  | .unlink | .syncUnlinked | .unlinked => true
  | _ => false

section
variable {M : Type} (lib : Lib M)

/-- Every trace file that a crash may leave is a record of the id. -/
def Readable (d : Disk) (id : Uuid) : Prop :=
  ∀ f ∈ d.traceFiles id, ∃ ev, read lib f.bytes id = .ok ev

/-- No trace file that a crash may leave is a record of the id. -/
def Unreadable (d : Disk) (id : Uuid) : Prop :=
  ∀ f ∈ d.traceFiles id, ∀ ev, read lib f.bytes id ≠ .ok ev

/-- What is known of the record of a call, by what the call does next. -/
def CallOk (d : Disk) (db : Db) (call : Call) : Prop :=
  match call.phase with
  | .create _ | .write _ | .rename => d.Gone call.id
  | .sync => (d.slots call.id).trace.isSome = true
  | .publish => d.Kept call.id
  | .move a | .syncMoved a _ _ | .quarantined a _ _ =>
    a = true ∨ Unreadable lib d call.id ∧ ¬ Begun db call.id
  | .unlink => call.id ∈ db.applied
  | .syncUnlinked => call.id ∈ db.applied ∧ (d.slots call.id).trace = none
  | .unlinked => call.id ∈ db.applied ∧ d.Gone call.id

/-- What holds of the journal beside the database. -/
structure JournalInv (j : State) (db : Db) : Prop where
  queue : QueueInv j
  unseen : ∀ id ∉ j.disk.seen, j.disk.Gone id ∧ ¬ Begun db id
  same : ∀ id, j.disk.Same id
  calls : ∀ call ∈ j.calls, CallOk lib j.disk db call
  seen : ∀ call ∈ j.calls, call.id ∈ j.disk.seen
  alone : ∀ call ∈ j.calls, call.phase.appending = false → running j call.id = 0
  quiet : ∀ id, Begun db id → running j id = 0
  readable : ∀ id, Begun db id → Readable lib j.disk id

end

section
variable {M : Type} {lib : Lib M} {d d' : Disk} {db : Db}

theorem Readable.mono {id : Uuid} (h : Readable lib d id)
    (hs : d'.traceFiles id ⊆ d.traceFiles id) : Readable lib d' id := fun f hf => h f (hs hf)

theorem Unreadable.mono {id : Uuid} (h : Unreadable lib d id)
    (hs : d'.traceFiles id ⊆ d.traceFiles id) : Unreadable lib d' id := fun f hf => h f (hs hf)

theorem Unreadable.of_gone {id : Uuid} (h : d.Gone id) : Unreadable lib d id := by
  intro f hf
  rw [h] at hf
  cases hf

/-- Of two files of one id, both are readable or none is. -/
theorem readable_of_same {id : Uuid} {f : File} {ev : TraceEvent M} (hsame : d.Same id)
    (hf : f ∈ d.traceFiles id) (hread : read lib f.bytes id = .ok ev) : Readable lib d id :=
  fun g hg => ⟨ev, by rw [hsame g hg f hf]; exact hread⟩

theorem unreadable_of_same {id : Uuid} {f : File} (hsame : d.Same id) (hf : f ∈ d.traceFiles id)
    (hread : ∀ ev, read lib f.bytes id ≠ .ok ev) : Unreadable lib d id :=
  fun g hg ev => by rw [hsame g hg f hf]; exact hread ev

/-- What is known of a call on one id survives the calls on others. -/
theorem CallOk.frame {call : Call} (h : CallOk lib d db call) (hf : Frame d d' call.id) :
    CallOk lib d' db call := by
  obtain ⟨id, phase⟩ := call
  cases phase with
  | create | write | rename => exact h.mono hf.settles.files
  | sync =>
    simp only [CallOk] at h ⊢
    rwa [hf.slot]
  | publish => exact hf.kept h
  | move | syncMoved | quarantined => exact h.imp_right fun h => ⟨h.1.mono hf.settles.files, h.2⟩
  | unlink => exact h
  | syncUnlinked => exact ⟨h.1, hf.settles.slot h.2⟩
  | unlinked => exact ⟨h.1, h.2.mono hf.settles.files⟩

/-- A call on a claimed record survives the other calls on it. -/
theorem CallOk.settles {call : Call} (h : CallOk lib d db call)
    (ha : call.phase.appending = false) (hs : Settles d d' call.id) : CallOk lib d' db call := by
  obtain ⟨id, phase⟩ := call
  cases phase with
  | create | write | rename | sync | publish => cases ha
  | move | syncMoved | quarantined => exact h.imp_right fun h => ⟨h.1.mono hs.files, h.2⟩
  | unlink => exact h
  | syncUnlinked => exact ⟨h.1, hs.slot h.2⟩
  | unlinked => exact ⟨h.1, h.2.mono hs.files⟩

/-- Each step of a call establishes what its next step relies on. -/
theorem advance_callOk {c c' : Catalog} {call : Call} {io : Io} {phase : Phase}
    (h : advance d c call io = (d', c', some phase)) (hok : CallOk lib d db call) :
    CallOk lib d' db ⟨call.id, phase⟩ := by
  have hset : call.phase ≠ .rename → Settles d d' call.id := advance_settles h
  obtain ⟨id, p⟩ := call
  cases p with
  | create bytes | write bytes =>
    have hset := hset (by simp)
    simp only [advance] at h
    split at h <;> cases h <;> first | exact hok.mono hset.files | exact .inl rfl
  | rename =>
    simp only [advance] at h
    split at h
    · cases h; exact .inl rfl
    split at h
    · rename_i htemp
      cases h
      simpa [CallOk] using htemp.2
    · cases h; exact .inl rfl
  | sync =>
    simp only [advance] at h
    split at h <;> cases h
    · intro slot hslot
      rcases List.mem_cons.mp hslot with rfl | hslot
      · exact .inl hok
      · cases hslot
    · exact .inl rfl
  | move a =>
    have hset := hset (by simp)
    simp only [advance] at h
    split at h <;> cases h
    exact hok.imp_right fun hok => ⟨hok.1.mono hset.files, hok.2⟩
  | syncMoved a destination n =>
    have hset := hset (by simp)
    simp only [advance] at h
    split at h <;> cases h
    exact hok.imp_right fun hok => ⟨hok.1.mono hset.files, hok.2⟩
  | unlink =>
    simp only [advance] at h
    split at h <;> cases h
    exact ⟨hok, by simp⟩
  | syncUnlinked =>
    simp only [advance] at h
    split at h <;> cases h
    refine ⟨hok.1, ?_⟩
    -- nothing is left to bring back once the removal is synced
    simp [Disk.Gone, Disk.traceFiles, Disk.versions, Disk.sync, hok.2]
  | publish | quarantined | unlinked =>
    simp only [advance] at h
    cases h

/-! ### One step of a call -/

theorem running_pos {j : State} {call : Call} (h : call ∈ j.calls)
    (ha : call.phase.appending = true) : 0 < running j call.id :=
  List.countP_pos_iff.mpr ⟨call, h, by simp [ha]⟩

/-- Two calls on one id are both calls on a claimed record. -/
theorem JournalInv.shared {j : State} (hinv : JournalInv lib j db) {i : ℕ} {call x : Call}
    (hcall : j.calls[i]? = some call) (hx : x ∈ j.calls.eraseIdx i) (hid : x.id = call.id) :
    call.phase.appending = false ∧ x.phase.appending = false := by
  have hxm : x ∈ j.calls := List.mem_of_mem_eraseIdx hx
  have hle : running j call.id ≤ 1 := by
    have := hinv.queue.le_one call.id
    simp only [situations] at this
    omega
  rcases hc : call.phase.appending with _ | _ <;> rcases hxa : x.phase.appending with _ | _
  · exact ⟨rfl, rfl⟩
  · have h0 := hinv.alone call (pool_mem hcall) hc
    have h1 := running_pos hxm hxa
    rw [hid] at h1
    omega
  · have h0 := hinv.alone x hxm hxa
    have h1 := running_pos (pool_mem hcall) hc
    rw [hid] at h0
    omega
  · have h1 : 0 < (j.calls.eraseIdx i).countP fun c => c.phase.appending && c.id == call.id :=
      List.countP_pos_iff.mpr ⟨x, hx, by simp [hxa, hid]⟩
    have h2 := pool_countP hcall fun c => c.phase.appending && c.id == call.id
    rw [if_pos (by simp [hc])] at h2
    simp only [running] at hle
    omega

theorem running_advance {j : State} {i : ℕ} {call : Call} {d' : Disk} {c' : Catalog} {io : Io}
    {next : Option Phase} (hcall : j.calls[i]? = some call)
    (hadv : advance j.disk j.catalog call io = (d', c', next)) (x : Uuid) :
    running { j with disk := d', catalog := c', calls := resume j.calls i call next } x ≤
      running j x := by
  rcases next with _ | phase
  · have := running_return hcall x
    simp only [running]
    omega
  · obtain ⟨p, hp, happ, -⟩ | ⟨h, -⟩ | ⟨h, -⟩ | ⟨h, -⟩ | ⟨h, -⟩ := advance_catalog hadv
    · cases hp
      exact (running_resume hcall happ x).le
    all_goals cases h

/-- No `.trace` file of an id that is not being appended is ever made. -/
theorem JournalInv.settles {j : State} {i : ℕ} {call : Call} {d' : Disk} {c' : Catalog}
    {io : Io} {next : Option Phase} (hcall : j.calls[i]? = some call)
    (hadv : advance j.disk j.catalog call io = (d', c', next)) {x : Uuid} (hx : running j x = 0) :
    Settles j.disk d' x := by
  by_cases hid : x = call.id
  · subst hid
    refine advance_settles hadv fun hp => ?_
    have := running_pos (pool_mem hcall) (by rw [hp]; rfl)
    omega
  · exact (advance_frame hadv hid).settles

theorem runCall_journal {j t : State} {i : ℕ} {io : Io} (cfg : JournalConfig)
    (hinv : JournalInv lib j db) (h : runCall j i io = some t) : JournalInv lib t db := by
  have hstep : Journal.step lib cfg j (.run i io) = some t := h
  obtain ⟨call, d', c', next, hcall, -, hadv, rfl⟩ := runCall_cases h
  have hle := running_advance hcall hadv
  have hseen : d'.seen = j.disk.seen := by
    have := advance_seen j.disk j.catalog call io
    rwa [hadv] at this
  refine ⟨(step_situations hinv.queue hstep).1, ?_, ?_, ?_, ?_, ?_, ?_, ?_⟩
  · intro x hx
    have hx' : x ∉ j.disk.seen := hseen ▸ hx
    obtain ⟨hgone, hnot⟩ := hinv.unseen x hx'
    have h0 : running j x = 0 := by
      have := (hinv.queue.unseen x hx').1
      simp only [situations] at this
      omega
    exact ⟨hgone.mono (JournalInv.settles hcall hadv h0).files, hnot⟩
  · intro x
    by_cases hid : x = call.id
    · subst hid
      by_cases hp : call.phase = .rename
      · -- the one rename that makes the file: there was none before
        have hgone : j.disk.Gone call.id := by
          have := hinv.calls call (pool_mem hcall)
          simpa only [CallOk, hp] using this
        have hone : ∀ f ∈ d'.traceFiles call.id, (j.disk.slots call.id).temporary = some f := by
          intro f hf
          rcases rename_files hadv hp hf with hf | hf
          · rw [hgone] at hf; cases hf
          · exact hf
        intro f hf g hg
        have := (hone f hf).symm.trans (hone g hg)
        rw [Option.some.inj this]
      · exact (hinv.same _).mono (advance_settles hadv hp).files
    · exact (hinv.same x).mono (advance_frame hadv hid).settles.files
  · intro x hx
    rcases mem_resume hcall hx with hx | ⟨p, rfl, rfl⟩
    · have hok := hinv.calls x (List.mem_of_mem_eraseIdx hx)
      by_cases hid : x.id = call.id
      · obtain ⟨hca, hxa⟩ := hinv.shared hcall hx hid
        refine hok.settles hxa (JournalInv.settles hcall hadv ?_)
        exact hinv.alone x (List.mem_of_mem_eraseIdx hx) hxa
      · exact hok.frame (advance_frame hadv hid)
    · exact advance_callOk hadv (hinv.calls call (pool_mem hcall))
  · intro x hx
    rw [hseen]
    rcases mem_resume hcall hx with hx | ⟨p, rfl, rfl⟩
    · exact hinv.seen x (List.mem_of_mem_eraseIdx hx)
    · exact hinv.seen call (pool_mem hcall)
  · intro x hx ha
    refine Nat.le_zero.mp ((hle x.id).trans ?_)
    rcases mem_resume hcall hx with hx | ⟨p, rfl, rfl⟩
    · exact (hinv.alone x (List.mem_of_mem_eraseIdx hx) ha).le
    · obtain ⟨p', hp', happ, -⟩ | ⟨h, -⟩ | ⟨h, -⟩ | ⟨h, -⟩ | ⟨h, -⟩ := advance_catalog hadv
      · cases hp'
        exact (hinv.alone call (pool_mem hcall) (happ ▸ ha)).le
      all_goals cases h
  · intro x hx
    exact Nat.le_zero.mp ((hle x).trans (hinv.quiet x hx).le)
  · intro x hx
    exact (hinv.readable x hx).mono (JournalInv.settles hcall hadv (hinv.quiet x hx)).files

/-- A claimed or ingested record leaves the catalog only when it cannot be read, or when its
    `.trace` file is gone for good. -/
theorem runCall_leaves {j t : State} {i : ℕ} {io : Io} (hinv : JournalInv lib j db)
    (h : runCall j i io = some t) {x : Uuid} (hx : x ∈ j.catalog.entries) (hr : running j x = 0) :
    x ∈ t.catalog.entries ∨ Unreadable lib t.disk x ∧ ¬ Begun db x ∨
      x ∈ db.applied ∧ t.disk.Gone x := by
  obtain ⟨call, d', c', next, hcall, -, hadv, rfl⟩ := runCall_cases h
  have hok := hinv.calls call (pool_mem hcall)
  have hset := JournalInv.settles hcall hadv hr
  obtain ⟨phase, rfl, -, rfl⟩ | ⟨rfl, -, rfl⟩ | ⟨rfl, a, dst, n, b, hp, rfl⟩ | ⟨rfl, hp, rfl⟩ |
    ⟨rfl, rfl, -⟩ := advance_catalog hadv
  · exact .inl hx
  · exact .inl hx
  · -- quarantined
    by_cases hid : x = call.id
    · subst hid
      simp only [CallOk, hp] at hok
      rcases hok with rfl | hok
      · have := running_pos (pool_mem hcall) (by rw [hp]; rfl)
        omega
      · exact .inr (.inl ⟨hok.1.mono hset.files, hok.2⟩)
    · left
      simp [hid, hx]
  · -- acknowledged
    by_cases hid : x = call.id
    · subst hid
      simp only [CallOk, hp] at hok
      exact .inr (.inr ⟨hok.1, hok.2.mono hset.files⟩)
    · left
      simp [hid, hx]
  · exact .inl hx

theorem runCall_quarantineIds {j t : State} {i : ℕ} {io : Io} (h : runCall j i io = some t) :
    j.catalog.quarantineIds ⊆ t.catalog.quarantineIds := by
  obtain ⟨call, d', c', next, hcall, -, hadv, rfl⟩ := runCall_cases h
  obtain ⟨phase, -, -, rfl⟩ | ⟨-, -, rfl⟩ | ⟨-, a, dst, n, b, -, rfl⟩ | ⟨-, -, rfl⟩ | ⟨-, rfl, -⟩ :=
    advance_catalog hadv
  · exact List.Subset.refl _
  · exact List.Subset.refl _
  · simp only [Catalog.quarantine]
    cases b <;> simp
  · simp
  · exact List.Subset.refl _

/-- A stored record is lost to the directory only after its insert was applied. -/
theorem runCall_kept {j t : State} {i : ℕ} {io : Io} (hinv : JournalInv lib j db)
    (h : runCall j i io = some t) {x : Uuid} (hx : x ∈ db.applied ∨ j.disk.Kept x) :
    x ∈ db.applied ∨ t.disk.Kept x := by
  obtain ⟨call, d', c', next, hcall, -, hadv, rfl⟩ := runCall_cases h
  rcases hx with hx | hx
  · exact .inl hx
  by_cases hid : x = call.id
  · subst hid
    by_cases hp : call.phase = .unlink
    · left
      have := hinv.calls call (pool_mem hcall)
      simpa only [CallOk, hp] using this
    · exact .inr (advance_kept hadv hp hx)
  · exact .inr ((advance_frame hadv hid).kept hx)

/-- A record with no call on it is left alone. -/
theorem runCall_frame {j t : State} {i : ℕ} {io : Io} (h : runCall j i io = some t) {x : Uuid}
    (hx : ∀ call ∈ j.calls, call.id ≠ x) : Frame j.disk t.disk x := by
  obtain ⟨call, d', c', next, hcall, -, hadv, rfl⟩ := runCall_cases h
  exact advance_frame hadv (hx call (pool_mem hcall)).symm

/-- The calls after a step are calls from before it, each still of its kind. -/
theorem runCall_calls {j t : State} {i : ℕ} {io : Io} (h : runCall j i io = some t) {x : Call}
    (hx : x ∈ t.calls) :
    ∃ call ∈ j.calls, call.id = x.id ∧ acknowledging call.phase = acknowledging x.phase := by
  obtain ⟨call, d', c', next, hcall, -, hadv, rfl⟩ := runCall_cases h
  rcases mem_resume hcall hx with hx | ⟨p, rfl, rfl⟩
  · exact ⟨x, List.mem_of_mem_eraseIdx hx, rfl, rfl⟩
  · refine ⟨call, pool_mem hcall, rfl, ?_⟩
    obtain ⟨id, phase⟩ := call
    cases phase <;> simp only [advance] at hadv <;> (repeat' split at hadv) <;> cases hadv <;> rfl

/-! ### The other steps of the journal -/

theorem append_journal {cfg : JournalConfig} {j t : State} {e : TraceEvent M} {now : ℕ}
    (hinv : JournalInv lib j db) (h : beginAppend lib cfg j e now = some t) :
    JournalInv lib t db := by
  have hstep : Journal.step lib cfg j (.append e now) = some t := h
  obtain rfl | ⟨metadata, c, -, hnew, hres, rfl⟩ := beginAppend_cases h
  · exact hinv
  obtain ⟨hgone, hbegun⟩ := hinv.unseen _ hnew
  have hrun : ∀ x, x ≠ e.id → running { j with
      catalog := c
      disk := { j.disk with seen := e.id :: j.disk.seen }
      calls := ⟨e.id, .create (record lib e metadata)⟩ :: j.calls } x = running j x := by
    intro x hx
    simp [running, Ne.symm hx]
  refine ⟨(step_situations hinv.queue hstep).1, ?_, hinv.same, ?_, ?_, ?_, ?_, hinv.readable⟩
  · intro x hx
    exact hinv.unseen x fun hs => hx (List.mem_cons_of_mem _ hs)
  · intro call hcall
    rcases List.mem_cons.mp hcall with rfl | hcall
    · exact hgone
    · exact hinv.calls call hcall
  · intro call hcall
    rcases List.mem_cons.mp hcall with rfl | hcall
    · exact List.mem_cons_self
    · exact List.mem_cons_of_mem _ (hinv.seen call hcall)
  · intro call hcall ha
    rcases List.mem_cons.mp hcall with rfl | hcall
    · cases ha
    · rw [hrun _ fun heq => hnew (heq ▸ hinv.seen call hcall)]
      exact hinv.alone call hcall ha
  · intro x hx
    rw [hrun x (by rintro rfl; exact hbegun hx)]
    exact hinv.quiet x hx

/-- A worker starts a call on the record it holds. -/
theorem call_journal {j : State} (hinv : JournalInv lib j db) {call : Call}
    (ha : call.phase.appending = false) (hheld : call.id ∈ j.claims)
    (hok : CallOk lib j.disk db call) :
    JournalInv lib { j with calls := call :: j.calls } db := by
  have hrun : ∀ x, running { j with calls := call :: j.calls } x = running j x := by
    intro x
    simp [running, ha]
  have hcount : 1 ≤ j.claims.count call.id := List.one_le_count_iff.mpr hheld
  have hone := hinv.queue.le_one call.id
  simp only [situations] at hone
  have hsit : ∀ x, situations { j with calls := call :: j.calls } x = situations j x := by
    intro x
    simp only [situations, hrun]
  refine ⟨⟨fun x => ?_, fun x hx => ?_⟩, hinv.unseen, hinv.same, ?_, ?_, ?_, ?_, hinv.readable⟩
  · rw [hsit]; exact hinv.queue.le_one x
  · rw [hsit]; exact hinv.queue.unseen x hx
  · intro x hx
    rcases List.mem_cons.mp hx with rfl | hx
    · exact hok
    · exact hinv.calls x hx
  · intro x hx
    rcases List.mem_cons.mp hx with rfl | hx
    · by_contra hseen
      have := (hinv.queue.unseen _ hseen).1
      simp only [situations] at this
      omega
    · exact hinv.seen x hx
  · intro x hx hxa
    rw [hrun]
    rcases List.mem_cons.mp hx with rfl | hx
    · omega
    · exact hinv.alone x hx hxa
  · intro x hx
    rw [hrun]
    exact hinv.quiet x hx

/-- The queue and the claims do not matter to the files. -/
theorem JournalInv.catalog {j t : State} (hinv : JournalInv lib j db) (hq : QueueInv t)
    (hdisk : t.disk = j.disk) (hcalls : t.calls = j.calls) : JournalInv lib t db := by
  have hrun : ∀ x, running t x = running j x := fun x => by simp only [running, hcalls]
  refine ⟨hq, ?_, ?_, ?_, ?_, ?_, ?_, ?_⟩
  · rw [hdisk]; exact hinv.unseen
  · rw [hdisk]; exact hinv.same
  · rw [hdisk, hcalls]; exact hinv.calls
  · rw [hdisk, hcalls]; exact hinv.seen
  · rw [hcalls]; intro x hx ha; rw [hrun]; exact hinv.alone x hx ha
  · intro x hx; rw [hrun]; exact hinv.quiet x hx
  · rw [hdisk]; exact hinv.readable

/-- A journal without running calls depends on the directory only. -/
theorem JournalInv.idle {j t : State} (hinv : JournalInv lib j db) (hq : QueueInv t)
    (hseen : t.disk.seen = j.disk.seen)
    (hfiles : ∀ x, t.disk.traceFiles x ⊆ j.disk.traceFiles x) (hcalls : t.calls = []) :
    JournalInv lib t db := by
  have hrun : ∀ x, running t x = 0 := fun x => by simp [running, hcalls]
  refine ⟨hq, ?_, fun x => (hinv.same x).mono (hfiles x), ?_, ?_, ?_, fun x _ => hrun x, ?_⟩
  · intro x hx
    rw [hseen] at hx
    exact ⟨(hinv.unseen x hx).1.mono (hfiles x), (hinv.unseen x hx).2⟩
  · simp [hcalls]
  · simp [hcalls]
  · simp [hcalls]
  · exact fun x hx => (hinv.readable x hx).mono (hfiles x)

end
end Llmtrace.Replay
