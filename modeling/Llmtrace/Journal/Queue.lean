import Llmtrace.Schemes.Pool
import Llmtrace.Journal.Calls

/-! Where the records of the catalog are: an entry is being appended, waits in the queue once, or is
    held by one claim. The three counts add up to `situations`; it never exceeds one, and it is one
    for every catalogued id as long as no failing `append` also fails to quarantine what it left. -/

namespace Llmtrace.Journal
open Schemes

/-- The number of running `append` calls for `id`. -/
def running (s : State) (id : Uuid) : ℕ := s.calls.countP fun c => c.phase.appending && c.id == id

/-- In how many ways the journal still knows what to do with `id`: running appends, places in the
    queue, live claims. -/
def situations (s : State) (id : Uuid) : ℕ :=
  running s id + s.catalog.ready.count id + s.claims.count id

/-- Every entry is in exactly one situation. -/
def Tracked (s : State) : Prop := ∀ id ∈ s.catalog.entries, situations s id = 1

/-- The step is not a failure of a file system call inside the `quarantine` by which an `append`
    handles its own failure. -/
def AppendQuarantines {M : Type} (s : State) : Act M → Prop
  | .run i io => ∀ call, s.calls[i]? = some call → call.phase.appending = true →
      ¬ Failing s.disk call io
  | _ => True

/-- Holds in every state, whatever fails. -/
structure QueueInv (s : State) : Prop where
  le_one : ∀ id, situations s id ≤ 1
  unseen : ∀ id, id ∉ s.disk.seen → situations s id = 0 ∧ id ∉ s.catalog.entries

/-! ### One step of a call -/

theorem mem_resume {calls : List Call} {i : ℕ} {call x : Call} (h : calls[i]? = some call) :
    ∀ {next}, x ∈ resume calls i call next →
      x ∈ calls.eraseIdx i ∨ ∃ p ∈ next, x = ⟨call.id, p⟩
  | none, hx => .inl hx
  | some p, hx => (pool_mem_set h hx).symm.imp id fun hx => ⟨p, rfl, hx⟩

theorem running_resume {calls : List Call} {i : ℕ} {call : Call} (h : calls[i]? = some call)
    {phase : Phase} (hp : phase.appending = call.phase.appending) (id : Uuid) :
    (resume calls i call (some phase)).countP (fun c => c.phase.appending && c.id == id) =
      calls.countP fun c => c.phase.appending && c.id == id := by
  rw [resume, pool_countP_set h, pool_countP h, hp]

theorem running_return {calls : List Call} {i : ℕ} {call : Call} (h : calls[i]? = some call)
    (id : Uuid) :
    calls.countP (fun c => c.phase.appending && c.id == id) =
      (resume calls i call none).countP (fun c => c.phase.appending && c.id == id) +
        if call.phase.appending && call.id == id then 1 else 0 := by
  rw [resume, pool_countP h]

/-- A step of a call: every id keeps its situations, but for the call's own id when the call
    returns without having published it. -/
theorem runCall_situations {s t : State} {i : ℕ} {io : Io} (h : runCall s i io = some t) :
    ∃ call, s.calls[i]? = some call ∧ t.disk.seen = s.disk.seen ∧
      (∀ id, situations t id ≤ situations s id) ∧
      (∀ id ∈ t.catalog.entries, id ∈ s.catalog.entries) ∧
      ∀ id ∈ t.catalog.entries, situations t id = situations s id ∨
        (call.phase.appending = true ∧ Failing s.disk call io) := by
  obtain ⟨call, d, c, next, hcall, -, hadv, ht⟩ := runCall_cases h
  have hseen : t.disk.seen = s.disk.seen := by
    have := advance_seen s.disk s.catalog call io
    rw [hadv] at this
    rw [ht]; exact this
  refine ⟨call, hcall, hseen, ?_⟩
  obtain ⟨phase, rfl, hp, rfl⟩ | ⟨rfl, hp, rfl⟩ | ⟨rfl, a, dst, n, b, hp, rfl⟩ | ⟨rfl, hp, rfl⟩ |
    ⟨rfl, rfl, hfail⟩ := advance_catalog hadv
  · -- the call goes on
    have hsame : ∀ id, situations t id = situations s id := fun id => by
      rw [ht]
      simp only [situations, running, running_resume hcall hp]
    exact ⟨fun id => (hsame id).le, fun id hid => by rwa [ht] at hid, fun id _ => .inl (hsame id)⟩
  · -- published: one append less, one place in the queue more
    have hsame : ∀ id, situations t id = situations s id := fun id => by
      rw [ht]
      simp only [situations, running, Catalog.publish, List.count_append, List.count_singleton]
      rw [running_return hcall id, hp]
      simp only [Phase.appending, Bool.true_and]
      omega
    exact ⟨fun id => (hsame id).le, fun id hid => by rwa [ht] at hid, fun id _ => .inl (hsame id)⟩
  · -- quarantined: the entry is gone
    rw [ht]
    simp only [Catalog.quarantine_entries, Catalog.mem_release, situations, running,
      Catalog.quarantine_ready]
    refine ⟨fun id => ?_, fun id hid => hid.2, fun id hid => .inl ?_⟩
    · rw [running_return hcall id]; omega
    · rw [running_return hcall id, if_neg (by simp [Ne.symm hid.1])]; omega
  · -- acknowledged: the entry is gone
    have hsame : ∀ id, situations t id = situations s id := fun id => by
      rw [ht]
      simp only [situations, running, Catalog.release_ready]
      rw [running_return hcall id, hp]
      simp [Phase.appending]
    refine ⟨fun id => (hsame id).le, fun id hid => ?_, fun id _ => .inl (hsame id)⟩
    rw [ht] at hid
    exact (Catalog.mem_release.mp hid).2
  · -- the call failed
    rw [ht]
    simp only [situations, running]
    refine ⟨fun id => ?_, fun id hid => hid, fun id _ => ?_⟩
    · rw [running_return hcall id]; omega
    · by_cases ha : call.phase.appending = true
      · exact .inr ⟨ha, hfail⟩
      · left
        rw [running_return hcall id]
        simp [ha]

/-! ### One step of the journal -/

section
variable {M : Type} {lib : Lib M} {cfg : JournalConfig}

/-- A refused `append` changes nothing; an accepted one enters a new id, and its call runs. -/
theorem beginAppend_cases {s t : State} {e : TraceEvent M} {now : ℕ}
    (h : beginAppend lib cfg s e now = some t) :
    t = s ∨ ∃ metadata c, appendMetadata lib e = .ok metadata ∧ e.id ∉ s.disk.seen ∧
      s.catalog.reserve cfg e.id (recordSize e metadata) (replayMemory lib e metadata) now = .ok c ∧
      t = { s with
        catalog := c
        disk := { s.disk with seen := e.id :: s.disk.seen }
        calls := ⟨e.id, .create (record lib e metadata)⟩ :: s.calls } := by
  unfold beginAppend at h
  split at h
  · cases h
  rename_i hfresh
  split at h
  · cases h; exact .inl rfl
  rename_i metadata hmeta
  split at h
  · cases h; exact .inl rfl
  rename_i c hres
  cases h
  refine .inr ⟨metadata, c, hmeta, ?_, hres, rfl⟩
  exact fun hs => hfresh ⟨hs, (Catalog.reserve_ok hres).1⟩

theorem situations_append (s : State) (d : Disk) (c : Catalog) (id : Uuid) (bytes : Bytes)
    (hc : c.ready = s.catalog.ready) (x : Uuid) :
    situations ⟨d, c, s.claims, ⟨id, .create bytes⟩ :: s.calls⟩ x =
      situations s x + if id = x then 1 else 0 := by
  simp only [situations, running, List.countP_cons, Phase.appending, Bool.true_and, beq_iff_eq, hc]
  omega

theorem count_eraseIdx {l : List Uuid} {i : ℕ} {id : Uuid} (h : l[i]? = some id) (x : Uuid) :
    l.count x = (l.eraseIdx i).count x + if id = x then 1 else 0 := by
  rw [(pool_perm h).count_eq, List.count_cons]
  simp only [beq_iff_eq]

/-- Dropping a claim requeues its record; when the record has left the catalog nothing is queued. -/
theorem situations_drop (cfg : JournalConfig) {s : State} {i : ℕ} {id : Uuid} (now : ℕ)
    (h : s.claims[i]? = some id) (x : Uuid) :
    situations ⟨s.disk, s.catalog.retry cfg id now, s.claims.eraseIdx i, s.calls⟩ x =
      if id ∉ s.catalog.entries ∧ id = x then situations s x - 1 else situations s x := by
  have hcount := count_eraseIdx h x
  simp only [situations, running]
  unfold Catalog.retry
  split
  · rename_i hnone
    simp only [AList.lookup_eq_none.mp hnone, not_false_eq_true, true_and]
    split <;> simp_all
  · rename_i entry hsome
    simp only [Table.mem_of_lookup hsome, not_true_eq_false, false_and, if_false,
      List.count_append, List.count_singleton, beq_iff_eq]
    omega

/-- A step that leaves every id in as many situations as before. -/
theorem QueueInv.of_same {s t : State} (hinv : QueueInv s) (hseen : t.disk.seen = s.disk.seen)
    (hent : t.catalog.entries = s.catalog.entries) (hsit : ∀ x, situations t x = situations s x) :
    QueueInv t ∧ (Tracked s → Tracked t) := by
  refine ⟨⟨fun x => ?_, fun x hx => ?_⟩, fun htr x hx => ?_⟩
  · rw [hsit]
    exact hinv.le_one x
  · rw [hseen] at hx
    rw [hsit, hent]
    exact hinv.unseen x hx
  · rw [hent] at hx
    rw [hsit]
    exact htr x hx

theorem append_queue {s t : State} {e : TraceEvent M} {now : ℕ} (hinv : QueueInv s)
    (h : beginAppend lib cfg s e now = some t) : QueueInv t ∧ (Tracked s → Tracked t) := by
  obtain rfl | ⟨metadata, c, -, hnew, hres, rfl⟩ := beginAppend_cases h
  · exact ⟨hinv, fun htr => htr⟩
  obtain ⟨-, -, -, rfl⟩ := Catalog.reserve_ok hres
  have hsit := situations_append s { s.disk with seen := e.id :: s.disk.seen }
    { s.catalog with
      bytes := s.catalog.bytes + recordSize e metadata
      entries := s.catalog.entries.insert e.id
        ⟨recordSize e metadata, replayMemory lib e metadata, now, now, false⟩ }
    e.id (record lib e metadata) rfl
  obtain ⟨hzero, hmem⟩ := hinv.unseen e.id hnew
  refine ⟨⟨fun x => ?_, fun x hx => ?_⟩, fun htr x hx => ?_⟩
  · rw [hsit]
    split
    · rename_i he; subst he; omega
    · exact hinv.le_one x
  · simp only [List.mem_cons, not_or] at hx
    obtain ⟨hz, hm⟩ := hinv.unseen x hx.2
    rw [hsit, if_neg (Ne.symm hx.1)]
    exact ⟨by omega, by simp [AList.mem_insert, hx.1, hm]⟩
  · rw [hsit]
    rcases (AList.mem_insert _).mp hx with rfl | hx
    · simp [hzero]
    · rw [if_neg (by rintro rfl; exact hmem hx)]
      exact htr x hx

/-- A call of a claim's holder starts. -/
theorem startCall_queue {s : State} {call : Call} (hinv : QueueInv s)
    (hcall : call.phase.appending = false) :
    QueueInv { s with calls := call :: s.calls } ∧
      (Tracked s → Tracked { s with calls := call :: s.calls }) :=
  hinv.of_same rfl rfl fun x => by simp [situations, running, hcall]

theorem run_queue {s t : State} {i : ℕ} {io : Io} (hinv : QueueInv s)
    (h : runCall s i io = some t) :
    QueueInv t ∧ ((∀ call, s.calls[i]? = some call → call.phase.appending = true →
      ¬Failing s.disk call io) → Tracked s → Tracked t) := by
  obtain ⟨call, hcall, hseen, hle, hsub, hmem⟩ := runCall_situations h
  refine ⟨⟨fun x => (hle x).trans (hinv.le_one x), fun x hx => ?_⟩, fun hok htr x hx => ?_⟩
  · rw [hseen] at hx
    obtain ⟨hz, hm⟩ := hinv.unseen x hx
    exact ⟨by have := hle x; omega, fun hx' => hm (hsub x hx')⟩
  · rcases hmem x hx with hs | ⟨ha, hf⟩
    · rw [hs]; exact htr x (hsub x hx)
    · exact absurd hf (hok call hcall ha)

/-- Nothing is claimed; at most an id without an entry leaves the queue. -/
theorem unclaimed_queue {s : State} {q : List Uuid} (hinv : QueueInv s)
    (hq : s.catalog.ready.Perm q ∨ ∃ y, y ∉ s.catalog.entries ∧ s.catalog.ready.Perm (y :: q)) :
    QueueInv { s with catalog := { s.catalog with ready := q } } ∧
      (Tracked s → Tracked { s with catalog := { s.catalog with ready := q } }) := by
  have hle : ∀ x, q.count x ≤ s.catalog.ready.count x := by
    intro x
    rcases hq with hq | ⟨y, -, hq⟩ <;> rw [hq.count_eq]
    rw [List.count_cons]; omega
  refine ⟨⟨fun x => ?_, fun x hx => ?_⟩, fun htr x hx => ?_⟩
  · have := hinv.le_one x
    have := hle x
    simp only [situations, running] at *
    omega
  · obtain ⟨hz, hm⟩ := hinv.unseen x hx
    have := hle x
    simp only [situations, running] at *
    exact ⟨by omega, hm⟩
  · have hxs := htr x hx
    have : s.catalog.ready.count x = q.count x := by
      rcases hq with hq | ⟨y, hy, hq⟩ <;> rw [hq.count_eq]
      rw [List.count_cons_of_ne]
      rintro rfl
      exact hy hx
    simp only [situations, running] at *
    omega

/-- The claimed id moves from the queue to the claims. -/
theorem claimed_queue {s : State} {q : List Uuid} {id : Uuid} (hinv : QueueInv s)
    (hq : s.catalog.ready.Perm (id :: q)) :
    QueueInv { s with catalog := { s.catalog with ready := q }, claims := id :: s.claims } ∧
      (Tracked s →
        Tracked { s with catalog := { s.catalog with ready := q }, claims := id :: s.claims }) := by
  refine hinv.of_same rfl rfl fun x => ?_
  simp only [situations, running, hq.count_eq, List.count_cons]
  omega

theorem drop_queue {s : State} {i now : ℕ} {id : Uuid} (hinv : QueueInv s)
    (hid : s.claims[i]? = some id) :
    QueueInv { s with catalog := s.catalog.retry cfg id now, claims := s.claims.eraseIdx i } ∧
      (Tracked s → Tracked
        { s with catalog := s.catalog.retry cfg id now, claims := s.claims.eraseIdx i }) := by
  have hsit := situations_drop cfg now hid
  refine ⟨⟨fun x => ?_, fun x hx => ?_⟩, fun htr x hx => ?_⟩
  · have := hinv.le_one x
    rw [hsit]; split <;> omega
  · obtain ⟨hz, hm⟩ := hinv.unseen x hx
    rw [hsit]
    refine ⟨by split <;> omega, ?_⟩
    rwa [Catalog.mem_retry]
  · rw [Catalog.mem_retry] at hx
    rw [hsit, if_neg]
    · exact htr x hx
    · rintro ⟨hno, rfl⟩
      exact hno hx

/-- What a step does to the situations of an id. -/
theorem step_situations {s t : State} {a : Act M} (hinv : QueueInv s)
    (h : step lib cfg s a = some t) :
    QueueInv t ∧ (AppendQuarantines s a → Tracked s → Tracked t) := by
  cases a with
  | append e now => exact (append_queue hinv h).imp_right fun htr _ => htr
  | acknowledge id | quarantine id =>
    obtain rfl := Option.some.inj h
    exact (startCall_queue hinv rfl).imp_right fun htr _ => htr
  | run i io => exact run_queue hinv h
  | claim now reserve =>
    obtain ⟨q, hc, hq⟩ := Catalog.claim_spec now reserve s.catalog
    simp only [step] at h
    rcases hcl : s.catalog.claim now reserve with ⟨c, _ | id⟩ <;> rw [hcl] at h hc hq <;>
      simp only [Option.some.injEq] at h hc hq <;> subst h hc
    · exact (unclaimed_queue hinv hq).imp_right fun htr _ => htr
    · exact (claimed_queue hinv hq.2).imp_right fun htr _ => htr
  | drop i now =>
    simp only [step] at h
    split at h
    · cases h
    · rename_i id hid
      obtain rfl := Option.some.inj h
      exact (drop_queue hinv hid).imp_right fun htr _ => htr

end

/-! ### Whole runs -/

theorem readyOrder_count (entries : Table Uuid Entry) (id : Uuid) :
    (readyOrder entries).count id = if id ∈ entries then 1 else 0 := by
  have hperm : (readyOrder entries).Perm entries.keys := by
    have := (List.mergeSort_perm (entries.entries.map fun r => (r.2.created, r.1)) fun a b =>
      decide (a.1 < b.1 ∨ a.1 = b.1 ∧ a.2 ≤ b.2)).map Prod.snd
    rw [List.map_map] at this
    exact this
  rw [hperm.count_eq]
  split
  · exact List.count_eq_one_of_mem entries.keys_nodup (AList.mem_keys.mp ‹_›)
  · exact List.count_eq_zero_of_not_mem (mt AList.mem_keys.mpr ‹_›)

/-- The scan enters only ids that have a file. -/
theorem scan_entries {now : ℕ} {readable : Uuid → Bool} {files : List DirEntry} {c : Catalog}
    (h : Schemes.run (scanFile now readable) {} files = some c) :
    ∀ id ∈ c.entries, ∃ e ∈ files, e.id = id := by
  refine run_inv (I := fun done (c : Catalog) => ∀ id ∈ c.entries, ∃ e ∈ done, e.id = id) h
    (by simp) ?_
  intro done e c t ih hstep id hid
  have hold : id ∈ c.entries → ∃ x ∈ done ++ [e], x.id = id := fun hc => by
    obtain ⟨x, hx, rfl⟩ := ih id hc
    exact ⟨x, by simp [hx], rfl⟩
  obtain ⟨-, ⟨hd, -, -, rfl⟩ | ⟨-, rfl⟩⟩ := scanFile_cases hstep
  · rcases (AList.mem_insert _).mp hid with rfl | hid
    · exact ⟨e, by simp, rfl⟩
    · exact hold hid
  · exact hold hid

/-- A listed file belongs to the slot of its id. -/
theorem mem_listing {d : Disk} {e : DirEntry} (h : e ∈ d.listing) :
    e.id ∈ d.seen ∧ e ∈ (d.slots e.id).listing e.id := by
  simp only [Disk.listing, List.mem_flatMap, List.mem_dedup] at h
  obtain ⟨id, hid, he⟩ := h
  have : e.id = id := by
    simp only [Slot.listing, List.mem_append, List.mem_map] at he
    obtain (⟨_, -, rfl⟩ | ⟨_, -, rfl⟩) | ⟨_, -, rfl⟩ := he <;> rfl
  rw [this]
  exact ⟨hid, he⟩

/-- After `Journal::open` every recovered record waits in the queue once. -/
theorem open_queue {d : Disk} {now : ℕ} {readable : Uuid → Bool}
    {destination : Kind → Uuid → Uuid} {s : State}
    (h : openJournal d now readable destination = some s) : QueueInv s ∧ Tracked s := by
  unfold openJournal at h
  split at h
  · cases h
  rename_i c hscan
  cases h
  have hsit : ∀ slots id, situations ⟨⟨slots, fun _ => [], d.seen⟩,
      { c with ready := readyOrder c.entries }, [], []⟩ id = if id ∈ c.entries then 1 else 0 := by
    intro slots id
    simp [situations, running, readyOrder_count]
  refine ⟨⟨fun id => ?_, fun id hid => ?_⟩, fun id hid => ?_⟩
  · rw [hsit]; split <;> omega
  · have hno : id ∉ c.entries := fun hin => by
      obtain ⟨e, he, rfl⟩ := scan_entries hscan id hin
      exact hid (show e.id ∈ d.seen from (mem_listing he).1)
    rw [hsit, if_neg hno]
    exact ⟨rfl, hno⟩
  · rw [hsit, if_pos hid]

/-- CORRECT: from `Journal::open` of any directory, through any interleaving of calls in which no
    failing `append` also fails in its own `quarantine`, every entry of the catalog is in exactly
    one situation: being appended, once in the queue, or held by one claim. -/
theorem entries_tracked {M : Type} (lib : Lib M) (cfg : JournalConfig) (d : Disk) (now : ℕ)
    (readable : Uuid → Bool) (destination : Kind → Uuid → Uuid) (s₀ s : State)
    (hopen : openJournal d now readable destination = some s₀)
    (hrun : Reaches (step lib cfg) AppendQuarantines s₀ s) : Tracked s := by
  have hinv : QueueInv s ∧ Tracked s := by
    refine hrun.inv (I := fun s => QueueInv s ∧ Tracked s) ?_ (open_queue hopen)
    intro s a t ⟨hq, htr⟩ hg hst
    have := step_situations hq hst
    exact ⟨this.1, this.2 hg htr⟩
  exact hinv.2

/-- The journal of an empty directory. -/
def emptyJournal : State := ⟨⟨fun _ => {}, fun _ => [], []⟩, {}, [], []⟩

theorem open_empty : openJournal {} 0 (fun _ => true) (fun _ _ => 0) = some emptyJournal := by
  simp [openJournal, Disk.listing, Schemes.run, readyOrder, openSlot, emptyJournal]

theorem recordSize_sample : recordSize sampleEvent sampleMetadata = 780 := by
  simp [recordSize, sampleEvent, sampleMetadata_length, headerBytes]

/-- The journal while the sample event is appended. -/
def appendingSample : State where
  disk := ⟨fun _ => {}, fun _ => [], [0]⟩
  catalog := { bytes := 780, entries := AList.insert 0 ⟨780, replayMemory sampleLib sampleEvent
    sampleMetadata, 0, 0, false⟩ ∅ }
  claims := []
  calls := [⟨0, .create (record sampleLib sampleEvent sampleMetadata)⟩]

theorem append_sample : step sampleLib .default emptyJournal (.append sampleEvent 0) =
    some appendingSample := by
  simp only [step, beginAppend, sampleEvent_accepted.1, recordSize_sample]
  rfl

theorem entries_tracked_sample : AppendQuarantines emptyJournal (.append sampleEvent 0) ∧
    Tracked appendingSample := by
  have hg : AppendQuarantines emptyJournal (.append sampleEvent 0) := trivial
  exact ⟨hg, entries_tracked sampleLib .default {} 0 (fun _ => true) (fun _ _ => 0) _ _ open_empty
    (.tail (.refl _) hg append_sample)⟩

/-- An `append` that cannot create its file, and then cannot sync the directory in its own
    `quarantine`, leaves an entry that is in no situation at all. -/
theorem failed_quarantine_strands :
    ∃ s, Reaches (step sampleLib .default) anyAct emptyJournal s ∧
      openJournal {} 0 (fun _ => true) (fun _ _ => 0) = some emptyJournal ∧ ¬ Tracked s := by
  have hrun : Schemes.run (step sampleLib .default) appendingSample
      [.run 0 { ok := false }, .run 0 {}, .run 0 { ok := false }] =
      some { appendingSample with
        disk := appendingSample.disk.touch 0 {}, calls := [] } := rfl
  refine ⟨_, (Reaches.tail (.refl _) trivial append_sample).trans (reaches_of_run hrun), open_empty,
    fun htr => ?_⟩
  have := htr 0 ((AList.mem_insert _).mpr (.inl rfl))
  simp [situations, running, appendingSample] at this

end Llmtrace.Journal
