import Llmtrace.Journal.Queue

/-! The `.trace` files of an id, in the directory as it is and in every version of it that a crash
    may bring back. All that ever happens to them is that they disappear, but for the one rename by
    which `append` makes the file. -/

namespace Llmtrace.Journal
open Schemes

/-- The files of `id` now, and as a crash may find them. -/
def Disk.versions (d : Disk) (id : Uuid) : List Slot := d.slots id :: d.past id

/-- The trace files of an id that a crash may leave. -/
def Disk.traceFiles (d : Disk) (id : Uuid) : List File := (d.versions id).filterMap Slot.trace

/-- No crash brings a `.trace` file of `id` back. -/
def Disk.Gone (d : Disk) (id : Uuid) : Prop := d.traceFiles id = []

/-- Every version has the record, as a `.trace` file or in quarantine. -/
def Disk.Kept (d : Disk) (id : Uuid) : Prop :=
  ∀ slot ∈ d.versions id, slot.trace.isSome = true ∨ slot.quarantine ≠ []

/-- The `.trace` files of `id` all have the same contents. -/
def Disk.Same (d : Disk) (id : Uuid) : Prop :=
  ∀ f ∈ d.traceFiles id, ∀ g ∈ d.traceFiles id, f.bytes = g.bytes

/-- The files of `id` are left alone; at most they are synced. -/
structure Frame (d d' : Disk) (id : Uuid) : Prop where
  slot : d'.slots id = d.slots id
  past : d'.past id ⊆ d.past id

/-- No `.trace` file of `id` is new. -/
structure Settles (d d' : Disk) (id : Uuid) : Prop where
  files : d'.traceFiles id ⊆ d.traceFiles id
  slot : (d.slots id).trace = none → (d'.slots id).trace = none

theorem mem_traceFiles {d : Disk} {id : Uuid} {f : File} :
    f ∈ d.traceFiles id ↔ ∃ slot ∈ d.versions id, slot.trace = some f := List.mem_filterMap

theorem trace_mem {d : Disk} {id : Uuid} {f : File} (h : (d.slots id).trace = some f) :
    f ∈ d.traceFiles id := mem_traceFiles.mpr ⟨_, List.mem_cons_self, h⟩

theorem Disk.Gone.trace {d : Disk} {id : Uuid} (h : d.Gone id) : (d.slots id).trace = none := by
  rcases htrace : (d.slots id).trace with _ | f
  · rfl
  · have := trace_mem htrace
    rw [h] at this
    cases this

theorem Frame.refl (d : Disk) (id : Uuid) : Frame d d id := ⟨rfl, List.Subset.refl _⟩

theorem Frame.versions {d d' : Disk} {id : Uuid} (h : Frame d d' id) :
    d'.versions id ⊆ d.versions id := by
  simp only [Disk.versions, h.slot]
  exact List.cons_subset_cons _ h.past

theorem Frame.settles {d d' : Disk} {id : Uuid} (h : Frame d d' id) : Settles d d' id := by
  refine ⟨fun f hf => ?_, fun hnone => by rw [h.slot]; exact hnone⟩
  obtain ⟨slot, hslot, hf⟩ := mem_traceFiles.mp hf
  exact mem_traceFiles.mpr ⟨slot, h.versions hslot, hf⟩

theorem Frame.kept {d d' : Disk} {id : Uuid} (h : Frame d d' id) (hk : d.Kept id) : d'.Kept id :=
  fun slot hslot => hk slot (h.versions hslot)

theorem Disk.Gone.mono {d d' : Disk} {id : Uuid} (h : d.Gone id)
    (hs : d'.traceFiles id ⊆ d.traceFiles id) : d'.Gone id :=
  List.eq_nil_of_subset_nil (h ▸ hs)

theorem Disk.Same.mono {d d' : Disk} {id : Uuid} (h : d.Same id)
    (hs : d'.traceFiles id ⊆ d.traceFiles id) : d'.Same id :=
  fun f hf g hg => h f (hs hf) g (hs hg)

/-! ### Changes of one slot -/

theorem touch_frame {d : Disk} {id x : Uuid} {slot : Slot} (h : x ≠ id) :
    Frame d (d.touch id slot) x :=
  ⟨Function.update_of_ne h _ _, by
    simp only [Disk.touch, Function.update_of_ne h]; exact List.Subset.refl _⟩

theorem sync_frame (d : Disk) (x : Uuid) : Frame d d.sync x := ⟨rfl, List.nil_subset _⟩

@[simp] theorem touch_slots (d : Disk) (id : Uuid) (slot : Slot) :
    (d.touch id slot).slots id = slot := Function.update_self _ _ _

@[simp] theorem touch_versions (d : Disk) (id : Uuid) (slot : Slot) :
    (d.touch id slot).versions id = slot :: d.versions id := by
  simp [Disk.versions, Disk.touch]

theorem touch_settles {d : Disk} {id : Uuid} {slot : Slot}
    (h : slot.trace = (d.slots id).trace ∨ slot.trace = none) : Settles d (d.touch id slot) id := by
  refine ⟨fun f hf => ?_, fun hnone => ?_⟩
  · obtain ⟨v, hv, hfv⟩ := mem_traceFiles.mp hf
    rw [touch_versions] at hv
    rcases List.mem_cons.mp hv with rfl | hv
    · rcases h with h | h
      · exact trace_mem (h ▸ hfv)
      · rw [h] at hfv; cases hfv
    · exact mem_traceFiles.mpr ⟨v, hv, hfv⟩
  · rw [touch_slots]
    rcases h with h | h
    · rw [h, hnone]
    · exact h

theorem touch_kept {d : Disk} {id : Uuid} {slot : Slot}
    (h : (d.slots id).trace.isSome = true ∨ (d.slots id).quarantine ≠ [] →
      slot.trace.isSome = true ∨ slot.quarantine ≠ []) (hk : d.Kept id) :
    (d.touch id slot).Kept id := by
  intro v hv
  rw [touch_versions] at hv
  rcases List.mem_cons.mp hv with rfl | hv
  · exact h (hk _ List.mem_cons_self)
  · exact hk v hv

/-- `quarantine` takes the `.trace` file away or leaves it; what it takes away it keeps aside. -/
theorem moved_trace {slot slot' : Slot} {io : Io} {n : ℕ} (h : moved slot io = some (slot', n)) :
    (slot'.trace = slot.trace ∨ slot'.trace = none) ∧
      (slot.trace.isSome = true ∨ slot.quarantine ≠ [] →
        slot'.trace.isSome = true ∨ slot'.quarantine ≠ []) := by
  have haside : ∀ rest f, (rest.trace = slot.trace ∨ rest.trace = none) →
      moveAside slot rest f io = some (slot', n) →
      (slot'.trace = slot.trace ∨ slot'.trace = none) ∧
        (slot.trace.isSome = true ∨ slot.quarantine ≠ [] →
          slot'.trace.isSome = true ∨ slot'.quarantine ≠ []) := by
    intro rest f hrest h
    simp only [moveAside] at h
    split at h
    · split at h <;> cases h
      exact ⟨hrest, fun _ => .inr (by simp)⟩
    · cases h; exact ⟨.inl rfl, id⟩
  simp only [moved] at h
  split at h
  · exact haside { slot with trace := none } _ (.inr rfl) h
  · exact haside { slot with temporary := none } _ (.inl rfl) h
  · cases h; exact ⟨.inl rfl, id⟩

/-! ### One step of a call -/

section
variable {d d' : Disk} {c c' : Catalog} {call : Call} {io : Io} {next : Option Phase}

/-- A step of a call touches the files of its own id only. -/
theorem advance_frame (h : advance d c call io = (d', c', next)) {x : Uuid} (hx : x ≠ call.id) :
    Frame d d' x := by
  obtain ⟨id, phase⟩ := call
  cases phase <;> simp only [advance] at h <;> (repeat' split at h) <;> cases h <;>
    first | exact Frame.refl d x | exact touch_frame hx | exact sync_frame d x

/-- Only the rename of `append` makes a `.trace` file. -/
theorem advance_settles (h : advance d c call io = (d', c', next)) (hp : call.phase ≠ .rename) :
    Settles d d' call.id := by
  obtain ⟨id, phase⟩ := call
  cases phase with
  | rename => exact absurd rfl hp
  | move a =>
    simp only [advance] at h
    split at h
    · cases h; exact (Frame.refl d id).settles
    · rename_i hm
      cases h; exact touch_settles (moved_trace hm).1
  | create bytes | write bytes =>
    simp only [advance] at h
    split at h <;> cases h <;> first | exact (Frame.refl d id).settles | exact touch_settles (.inl rfl)
  | unlink =>
    simp only [advance] at h
    split at h <;> cases h
    · exact touch_settles (.inr rfl)
    · exact (Frame.refl d id).settles
  | sync | syncMoved | syncUnlinked =>
    simp only [advance] at h
    split at h <;> cases h
    · exact (sync_frame d id).settles
    · exact (Frame.refl d id).settles
  | publish | quarantined | unlinked =>
    simp only [advance] at h
    cases h
    exact (Frame.refl d id).settles

/-- The rename makes the `.trace` file from the `.partial` one. -/
theorem rename_files (h : advance d c call io = (d', c', next)) (hp : call.phase = .rename) {f : File}
    (hf : f ∈ d'.traceFiles call.id) :
    f ∈ d.traceFiles call.id ∨ (d.slots call.id).temporary = some f := by
  obtain ⟨id, phase⟩ := call
  cases hp
  simp only [advance] at h
  split at h
  · cases h; exact .inl hf
  split at h
  · cases h
    obtain ⟨v, hv, hfv⟩ := mem_traceFiles.mp hf
    rw [touch_versions] at hv
    rcases List.mem_cons.mp hv with rfl | hv
    · exact .inr hfv
    · exact .inl (mem_traceFiles.mpr ⟨v, hv, hfv⟩)
  · cases h; exact .inl hf

/-- Only `acknowledge` removes a record for good. -/
theorem advance_kept (h : advance d c call io = (d', c', next)) (hp : call.phase ≠ .unlink)
    (hk : d.Kept call.id) : d'.Kept call.id := by
  obtain ⟨id, phase⟩ := call
  cases phase with
  | unlink => exact absurd rfl hp
  | move a =>
    simp only [advance] at h
    split at h
    · cases h; exact hk
    · rename_i hm
      cases h; exact touch_kept (moved_trace hm).2 hk
  | create bytes | write bytes =>
    simp only [advance] at h
    split at h <;> cases h <;> first | exact hk | exact touch_kept (fun hv => hv) hk
  | rename =>
    simp only [advance] at h
    split at h
    · cases h; exact hk
    split at h
    · rename_i hok
      cases h; exact touch_kept (fun _ => .inl hok.2) hk
    · cases h; exact hk
  | sync | syncMoved | syncUnlinked =>
    simp only [advance] at h
    split at h <;> cases h
    · exact (sync_frame d id).kept hk
    · exact hk
  | publish | quarantined | unlinked =>
    simp only [advance] at h
    cases h
    exact hk

end
end Llmtrace.Journal
