import Llmtrace.Schemes.Run

/-! The memory budget of the trace pipeline (`trace/memory.rs`, `TraceRecorder::record` in `trace.rs`,
    `Journal::claim`). Every event that waits or is worked on holds a reservation of its size; an event
    that does not fit is dropped.

    `used` is one atomic word. `reserve` is a loop of loads and exchanges, and a reservation that goes
    out of scope subtracts its bytes. Any number of threads record and claim; their loads, exchanges and
    subtractions interleave in any order. A reservation is owned: it is with the thread that made it, in
    an event that the queue gave back, in the queue, with the dispatcher, with a worker or in a claim, and
    it is dropped once, from there. How many workers run at a time does not matter here. -/

namespace Llmtrace.Trace
open Schemes

/-! ### The budget -/

/-- The values of a `usize`. -/
def usizeValues : ℕ := 2 ^ 64

/-- What the pipeline reads of the section `trace`. -/
structure PipelineConfig where
  traceQueueMaxBytes : ℕ
  traceQueueCapacity : ℕ
  journalEnabled : Bool
  usize : traceQueueMaxBytes < usizeValues

/-- `MemoryBudget::new` -/
def PipelineConfig.limit (cfg : PipelineConfig) : ℕ := max cfg.traceQueueMaxBytes 1

/-- What `fetch_update` is to store. -/
def reserved (limit used bytes : ℕ) : Option ℕ :=
  (if used + bytes < usizeValues then some (used + bytes) else none).filter fun next => next ≤ limit

/-- Who asks for memory. -/
inductive Purpose where
  | record
  | claim

/-- A call of `reserve` between a load and its exchange. -/
structure Attempt (limit : ℕ) where
  purpose : Purpose
  bytes : ℕ
  loaded : ℕ
  next : ℕ
  admitted : reserved limit loaded bytes = some next

/-! ### The pipeline -/

/-- The reservations by where they are. `refused` are those that a failed `try_send` has given back,
    `failed` lists the sizes for which `reserve` has returned nothing. -/
structure Pipeline (limit : ℕ) where
  used : ℕ := 0
  attempts : List (Attempt limit) := []
  recording : List ℕ := []
  refused : List ℕ := []
  queue : List ℕ := []
  receiving : Bool := true
  dispatching : Option ℕ := none
  workers : List ℕ := []
  claims : List ℕ := []
  failed : List ℕ := []

namespace Pipeline
variable {limit : ℕ}

/-- The bytes of all reservations there are. -/
def live (s : Pipeline limit) : List ℕ :=
  s.recording ++ (s.refused ++ (s.queue ++ (s.dispatching.toList ++ (s.workers ++ s.claims))))

/-- `Drop for Reservation`: `fetch_sub` wraps around. -/
def drop (s : Pipeline limit) (bytes : ℕ) : Pipeline limit :=
  { s with used := (s.used + (usizeValues - bytes)) % usizeValues }

/-- A load of `used`, and what `fetch_update` makes of it: the next exchange, or the end of the call. -/
def load (s : Pipeline limit) (purpose : Purpose) (bytes : ℕ) : Pipeline limit :=
  match h : reserved limit s.used bytes with
  | some next => { s with attempts := s.attempts ++ [⟨purpose, bytes, s.used, next, h⟩] }
  | none => { s with failed := s.failed ++ [bytes] }

/-- The reservation of an attempt that has succeeded. -/
def grant (s : Pipeline limit) (a : Attempt limit) : Pipeline limit :=
  match a.purpose with
  | .record => { s with used := a.next, recording := s.recording ++ [a.bytes] }
  | .claim => { s with used := a.next, claims := s.claims ++ [a.bytes] }

end Pipeline

/-- A step of a thread that concerns the budget. -/
inductive MemoryAct where
  /-- `record` or `claim` calls `reserve`. -/
  | reserve (purpose : Purpose) (bytes : ℕ)
  /-- `compare_exchange_weak`, which may fail without a reason. -/
  | exchange (index : ℕ) (spurious : Bool)
  /-- `try_send` puts the event of `record` into the queue, or gives it back when the queue is full or
      closed. -/
  | send (index : ℕ)
  /-- The event that was given back goes with the error. -/
  | refuse (index : ℕ)
  | receive
  /-- The dispatcher gives the event to a worker. -/
  | spawn
  /-- The event was written to the journal, or could not be. -/
  | journaled
  /-- A worker is done, has failed or was aborted. -/
  | finish (index : ℕ)
  /-- The worker of a claim is done, has failed or was aborted. -/
  | release (index : ℕ)
  /-- The dispatcher is aborted. -/
  | close
  /-- An event that was left in the queue goes with the receiver. -/
  | discard
  /-- What the dispatcher was about to give away goes with it. -/
  | abandon

open Pipeline in
/-- What a step does to the word and to the reservations. -/
def memoryStep (cfg : PipelineConfig) (s : Pipeline cfg.limit) : MemoryAct → Option (Pipeline cfg.limit)
  | .reserve purpose bytes => if bytes < usizeValues then some (s.load purpose bytes) else none
  | .exchange index spurious =>
    s.attempts[index]?.map fun a =>
      let s := { s with attempts := s.attempts.eraseIdx index }
      if s.used = a.loaded ∧ spurious = false then s.grant a else s.load a.purpose a.bytes
  | .send index =>
    s.recording[index]?.map fun bytes =>
      let s := { s with recording := s.recording.eraseIdx index }
      if s.receiving ∧ s.queue.length < cfg.traceQueueCapacity then { s with queue := s.queue ++ [bytes] }
      else { s with refused := s.refused ++ [bytes] }
  | .refuse index =>
    s.refused[index]?.map fun bytes => { s with refused := s.refused.eraseIdx index }.drop bytes
  | .receive =>
    match s.queue with
    | bytes :: queue =>
      if s.receiving ∧ s.dispatching = none then some { s with queue, dispatching := some bytes } else none
    | [] => none
  | .spawn =>
    if cfg.journalEnabled then none
    else s.dispatching.map fun bytes => { s with dispatching := none, workers := s.workers ++ [bytes] }
  | .journaled =>
    if cfg.journalEnabled then s.dispatching.map fun bytes => { s with dispatching := none }.drop bytes
    else none
  | .finish index =>
    s.workers[index]?.map fun bytes => { s with workers := s.workers.eraseIdx index }.drop bytes
  | .release index =>
    s.claims[index]?.map fun bytes => { s with claims := s.claims.eraseIdx index }.drop bytes
  | .close => some { s with receiving := false }
  | .discard =>
    match s.queue with
    | bytes :: queue => if s.receiving then none else some ({ s with queue }.drop bytes)
    | [] => none
  | .abandon =>
    if s.receiving then none else s.dispatching.map fun bytes => { s with dispatching := none }.drop bytes

/-! ### What a step does to the reservations -/

variable {cfg : PipelineConfig} {s t : Pipeline cfg.limit}

/-- Reservations change places, one is made, one is dropped, or a call of `reserve` fails. -/
inductive Effect (s t : Pipeline cfg.limit) : Prop
  | move : t.used = s.used → t.live.sum = s.live.sum → t.failed = s.failed → Effect s t
  | grant (bytes : ℕ) : s.used + bytes ≤ cfg.limit → t.used = s.used + bytes →
      t.live.sum = s.live.sum + bytes → t.failed = s.failed → Effect s t
  | drop (bytes : ℕ) : t.used = (s.used + (usizeValues - bytes)) % usizeValues →
      s.live.sum = bytes + t.live.sum → t.failed = s.failed → Effect s t
  | fail (bytes : ℕ) : cfg.limit < s.used + bytes → t.used = s.used → t.live.sum = s.live.sum →
      t.failed = s.failed ++ [bytes] → Effect s t

theorem limit_lt (cfg : PipelineConfig) : cfg.limit < usizeValues :=
  Nat.max_lt.mpr ⟨cfg.usize, by decide⟩

theorem reserved_eq_some {limit used bytes next : ℕ} (h : reserved limit used bytes = some next) :
    next = used + bytes ∧ next ≤ limit := by
  unfold reserved at h
  rw [Option.filter_eq_some_iff, decide_eq_true_eq] at h
  obtain ⟨hadd, hle⟩ := h
  split at hadd
  · cases hadd
    exact ⟨rfl, hle⟩
  · cases hadd

theorem reserved_eq_none {limit used bytes : ℕ} (hlimit : limit < usizeValues)
    (h : reserved limit used bytes = none) : limit < used + bytes := by
  unfold reserved at h
  split at h
  · rw [Option.filter_some] at h
    split at h
    · cases h
    · rename_i hle
      simpa using hle
  · omega

theorem sum_eraseIdx {l : List ℕ} {i x : ℕ} (h : l[i]? = some x) : l.sum = x + (l.eraseIdx i).sum := by
  obtain ⟨hi, rfl⟩ := List.getElem?_eq_some_iff.mp h
  rw [← (List.getElem_cons_eraseIdx_perm hi).sum_eq, List.sum_cons]

theorem live_sum (s : Pipeline cfg.limit) : s.live.sum =
    s.recording.sum + (s.refused.sum + (s.queue.sum +
      (s.dispatching.toList.sum + (s.workers.sum + s.claims.sum)))) := by
  simp only [Pipeline.live, List.sum_append]

theorem load_effect (s : Pipeline cfg.limit) (purpose : Purpose) (bytes : ℕ) :
    Effect s (s.load purpose bytes) := by
  unfold Pipeline.load
  split
  · exact .move rfl rfl rfl
  · rename_i hnone
    exact .fail bytes (reserved_eq_none (limit_lt cfg) hnone) rfl rfl rfl

/-- What goes away gives its reservation back. -/
theorem drop_effect {t : Pipeline cfg.limit} (bytes : ℕ) (hused : t.used = s.used)
    (hlive : s.live.sum = bytes + t.live.sum) (hfailed : t.failed = s.failed) :
    Effect s (t.drop bytes) :=
  .drop bytes (by rw [Pipeline.drop, hused]) hlive hfailed

/-- The same, when it was one of several. -/
theorem taken_effect {t : Pipeline cfg.limit} {l : List ℕ} {index bytes : ℕ}
    (hget : l[index]? = some bytes) (hused : t.used = s.used)
    (hlive : s.live.sum + (l.eraseIdx index).sum = t.live.sum + l.sum) (hfailed : t.failed = s.failed) :
    Effect s (t.drop bytes) := by
  have hsum := sum_eraseIdx hget
  exact drop_effect bytes hused (by omega) hfailed

/-- The exchange found the word as it was loaded. -/
theorem grant_effect {a : Attempt cfg.limit} (hload : s.used = a.loaded) : Effect s (s.grant a) := by
  obtain ⟨hnext, hmost⟩ := reserved_eq_some a.admitted
  rw [← hload] at hnext
  unfold Pipeline.grant
  split
  · refine .grant a.bytes (by omega) hnext ?_ rfl
    simp only [live_sum, List.sum_append, List.sum_singleton]
    omega
  · refine .grant a.bytes (by omega) hnext ?_ rfl
    simp only [live_sum, List.sum_append, List.sum_singleton]
    omega

/-- What comes of an exchange: the reservation, or another load. -/
theorem exchange_effect {index : ℕ} {spurious : Bool}
    (hstep : memoryStep cfg s (.exchange index spurious) = some t) : Effect s t := by
  obtain ⟨a, -, rfl⟩ := Option.map_eq_some_iff.mp hstep
  have hwithout : ∀ {t : Pipeline cfg.limit},
      Effect { s with attempts := s.attempts.eraseIdx index } t → Effect s t := by
    rintro t (⟨hused, hlive, hfailed⟩ | ⟨bytes, hfits, hused, hlive, hfailed⟩ |
      ⟨bytes, hused, hlive, hfailed⟩ | ⟨bytes, hfull, hused, hlive, hfailed⟩)
    · exact .move hused hlive hfailed
    · exact .grant bytes hfits hused hlive hfailed
    · exact .drop bytes hused hlive hfailed
    · exact .fail bytes hfull hused hlive hfailed
  dsimp only
  split
  · rename_i hload
    exact hwithout (grant_effect hload.1)
  · exact hwithout (load_effect _ a.purpose a.bytes)

/-- The reservation of an event goes to the queue, or back with the event. -/
theorem send_effect {index : ℕ} (hstep : memoryStep cfg s (.send index) = some t) : Effect s t := by
  obtain ⟨bytes, hget, rfl⟩ := Option.map_eq_some_iff.mp hstep
  have hsum := sum_eraseIdx hget
  dsimp only
  split
  · refine .move rfl ?_ rfl
    simp only [live_sum, List.sum_append, List.sum_singleton]
    omega
  · refine .move rfl ?_ rfl
    simp only [live_sum, List.sum_append, List.sum_singleton]
    omega

theorem receive_effect (hstep : memoryStep cfg s .receive = some t) : Effect s t := by
  simp only [memoryStep] at hstep
  split at hstep
  · rename_i bytes queue hqueue
    simp only [Option.ite_none_right_eq_some, Option.some.injEq] at hstep
    obtain ⟨⟨-, hnone⟩, rfl⟩ := hstep
    refine .move rfl ?_ rfl
    simp only [live_sum, hqueue, hnone, List.sum_cons, Option.toList_some, Option.toList_none,
      List.sum_nil]
    omega
  · cases hstep

theorem spawn_effect (hstep : memoryStep cfg s .spawn = some t) : Effect s t := by
  simp only [memoryStep, Option.ite_none_left_eq_some, Option.map_eq_some_iff] at hstep
  obtain ⟨-, bytes, hsome, rfl⟩ := hstep
  refine .move rfl ?_ rfl
  simp only [live_sum, hsome, List.sum_append, List.sum_cons, Option.toList_some, Option.toList_none,
    List.sum_nil]
  omega

/-- The dispatcher's event goes without a worker: to the journal, or with an aborted dispatcher. -/
theorem dispatched_effect {bytes : ℕ} (hsome : s.dispatching = some bytes) :
    Effect s ({ s with dispatching := none }.drop bytes) := by
  refine drop_effect bytes rfl ?_ rfl
  simp only [live_sum, hsome, List.sum_cons, Option.toList_some, Option.toList_none, List.sum_nil]
  omega

theorem discard_effect (hstep : memoryStep cfg s .discard = some t) : Effect s t := by
  simp only [memoryStep] at hstep
  split at hstep
  · rename_i bytes queue hqueue
    simp only [Option.ite_none_left_eq_some, Option.some.injEq] at hstep
    obtain ⟨-, rfl⟩ := hstep
    refine drop_effect bytes rfl ?_ rfl
    simp only [live_sum, hqueue, List.sum_cons]
    omega
  · cases hstep

theorem step_effect {a : MemoryAct} (hstep : memoryStep cfg s a = some t) : Effect s t := by
  cases a with
  | reserve purpose bytes =>
    simp only [memoryStep, Option.ite_none_right_eq_some, Option.some.injEq] at hstep
    obtain ⟨-, rfl⟩ := hstep
    exact load_effect s purpose bytes
  | exchange index spurious => exact exchange_effect hstep
  | send index => exact send_effect hstep
  | refuse index =>
    obtain ⟨bytes, hget, rfl⟩ := Option.map_eq_some_iff.mp hstep
    refine taken_effect hget rfl ?_ rfl
    simp only [live_sum]
    omega
  | receive => exact receive_effect hstep
  | spawn => exact spawn_effect hstep
  | journaled =>
    simp only [memoryStep, Option.ite_none_right_eq_some, Option.map_eq_some_iff] at hstep
    obtain ⟨-, bytes, hsome, rfl⟩ := hstep
    exact dispatched_effect hsome
  | finish index =>
    obtain ⟨bytes, hget, rfl⟩ := Option.map_eq_some_iff.mp hstep
    refine taken_effect hget rfl ?_ rfl
    simp only [live_sum]
    omega
  | release index =>
    obtain ⟨bytes, hget, rfl⟩ := Option.map_eq_some_iff.mp hstep
    refine taken_effect hget rfl ?_ rfl
    simp only [live_sum]
    omega
  | close =>
    simp only [memoryStep, Option.some.injEq] at hstep
    subst hstep
    exact .move rfl rfl rfl
  | discard => exact discard_effect hstep
  | abandon =>
    simp only [memoryStep, Option.ite_none_left_eq_some, Option.map_eq_some_iff] at hstep
    obtain ⟨-, bytes, hsome, rfl⟩ := hstep
    exact dispatched_effect hsome

/-! ### Runs -/

/-- The word is the sum of the reservations, and within the limit. -/
structure Balanced (s : Pipeline cfg.limit) : Prop where
  used_eq : s.used = s.live.sum
  most : s.used ≤ cfg.limit

theorem Balanced.step (h : Balanced s) {a : MemoryAct} (hstep : memoryStep cfg s a = some t) :
    Balanced t := by
  have hsum := h.used_eq
  have hmost := h.most
  have hlimit := limit_lt cfg
  rcases step_effect hstep with ⟨hused, hlive, -⟩ | ⟨bytes, hfits, hused, hlive, -⟩ |
    ⟨bytes, hused, hlive, -⟩ | ⟨bytes, -, hused, hlive, -⟩
  · exact ⟨by omega, by omega⟩
  · exact ⟨by omega, by omega⟩
  · -- what is dropped is part of the sum, so the subtraction does not wrap
    rw [show s.used + (usizeValues - bytes) = t.live.sum + usizeValues by omega, Nat.add_mod_right,
      Nat.mod_eq_of_lt (by omega)] at hused
    exact ⟨hused, by omega⟩
  · exact ⟨by omega, by omega⟩

/-- A call of `reserve` fails only when its bytes do not fit beside what is reserved then. -/
theorem Balanced.failed (h : Balanced s) {a : MemoryAct} (hstep : memoryStep cfg s a = some t) {bytes : ℕ}
    (hfailed : t.failed = s.failed ++ [bytes]) : cfg.limit < s.live.sum + bytes := by
  have hsum := h.used_eq
  have hgrown : t.failed ≠ s.failed := by
    rw [hfailed]
    simp
  rcases step_effect hstep with ⟨-, -, hsame⟩ | ⟨-, -, -, -, hsame⟩ | ⟨-, -, -, hsame⟩ |
    ⟨refused, hfull, -, -, hsame⟩
  · exact absurd hsame hgrown
  · exact absurd hsame hgrown
  · exact absurd hsame hgrown
  · rw [hfailed] at hsame
    cases List.append_cancel_left hsame
    omega

/-- In every state of every run the word is what the reservations add up to; it stays within the limit,
    no drop takes more than there is, and no call fails for which there is room. -/
theorem memory_budget_exact (cfg : PipelineConfig) {s : Pipeline cfg.limit}
    (hrun : Reaches (memoryStep cfg) anyAct {} s) :
    s.used = s.live.sum ∧ s.used ≤ cfg.limit ∧ cfg.limit < usizeValues ∧
      (∀ bytes ∈ s.live, bytes ≤ s.used) ∧ (s.live = [] → s.used = 0) ∧
      ∀ a t, memoryStep cfg s a = some t → ∀ bytes, t.failed = s.failed ++ [bytes] →
        cfg.limit < s.live.sum + bytes := by
  have h : Balanced s := hrun.inv (fun _ _ _ hs _ hstep => hs.step hstep) ⟨rfl, Nat.zero_le _⟩
  refine ⟨h.used_eq, h.most, limit_lt cfg, ?_, ?_, fun a t hstep bytes => h.failed hstep⟩
  · intro bytes hbytes
    rw [h.used_eq]
    exact List.le_sum_of_mem hbytes
  · intro hnone
    rw [h.used_eq, hnone]
    rfl

/-- A budget of ten bytes. -/
def tenBytes : PipelineConfig := ⟨10, 1, true, by decide⟩

/-- Two threads load the empty budget; one gets its six bytes, and the other has to load again. -/
def contended : List MemoryAct :=
  [.reserve .record 6, .reserve .claim 6, .exchange 0 false, .exchange 0 false, .send 0]

theorem memory_budget_exact_contended : ∃ s : Pipeline tenBytes.limit,
    Reaches (memoryStep tenBytes) anyAct {} s ∧ s.failed = [6] ∧ s.used = s.live.sum ∧ s.used ≤ 10 := by
  obtain ⟨s, hs, hfailed⟩ : ∃ s, run (memoryStep tenBytes) {} contended = some s ∧ s.failed = [6] :=
    ⟨_, rfl, rfl⟩
  have hrun := reaches_of_run hs
  have h := memory_budget_exact tenBytes hrun
  exact ⟨s, hrun, hfailed, h.1, h.2.1⟩

end Llmtrace.Trace
