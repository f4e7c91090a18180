import Llmtrace.Schemes.Run
import Llmtrace.Schemes.Pool
import Llmtrace.Trace.Memory

/-! The way of an event through the trace pipeline and the counters of `metrics.rs` that follow it
    (`TraceRecorder::record`, `run_dispatcher`, `process_trace`, `TracePipeline` in `trace.rs`, `run` in
    `trace/durable.rs`).

        record ▶ try_send ▶ queue ▶ dispatcher ─▶ append to the journal ▶ counted
              └──────── dropped ▶ counted      └▶ worker ▶ built ▶ persisted, counted

    A counter is raised after the event has moved, so other threads run in between. The answer of the
    memory budget is given to `record`; how it comes about is in `Memory`. -/

namespace Llmtrace.Trace
open Schemes

/-- The counters of `RuntimeMetricsInner` that count events. -/
inductive Metric where
  | tracesEnqueued | tracesDroppedMemory | tracesDroppedFull | tracesDroppedClosed
  | journalWritten | journalDroppedFull | journalWriteFailed
  | traceBuildFailures | tracePersistFailures | tracesPersisted
  deriving DecidableEq

/-- The counters that `record` raises. -/
def Metric.ofRecord : Metric → Bool
  | .tracesEnqueued | .tracesDroppedMemory | .tracesDroppedFull | .tracesDroppedClosed => true
  | _ => false

/-- The outcomes of `Journal::append`. -/
def Metric.ofAppend : Metric → Bool
  | .journalWritten | .journalDroppedFull | .journalWriteFailed => true
  | _ => false

/-- The outcomes of `process_trace`. -/
def Metric.ofProcess : Metric → Bool
  | .traceBuildFailures | .tracePersistFailures | .tracesPersisted => true
  | _ => false

/-- The section `trace`, with the number of workers. -/
structure FlowConfig extends PipelineConfig where
  traceWorkerCount : ℕ

/-- `TraceRecorder::spawn` -/
def FlowConfig.queueCapacity (cfg : FlowConfig) : ℕ := max cfg.traceQueueCapacity 1

/-- At least one worker runs. -/
def FlowConfig.workerCount (cfg : FlowConfig) : ℕ := max cfg.traceWorkerCount 1

/-- `accepted`, `calls`, `settled` and `abandoned` are history: the events that were put into the queue,
    the outcomes of `record`, the events with their outcomes, and the events that went with an aborted
    dispatcher. -/
structure Flow (ε : Type) where
  counters : Metric → ℕ := fun _ => 0
  /-- Calls of `record` that hold a reservation. -/
  holding : List ε := []
  /-- Calls of `record` that have still to count their outcome. -/
  uncounted : List Metric := []
  queue : List ε := []
  /-- `false` when all recorders were dropped. -/
  senders : Bool := true
  /-- `false` when the dispatcher was aborted or has ended. -/
  receiving : Bool := true
  dispatching : Option ε := none
  /-- The event that was appended to the journal, or was not, and is still to be counted. -/
  appended : Option (ε × Metric) := none
  workers : List ε := []
  /-- Workers that are done and were not joined. -/
  unjoined : ℕ := 0
  accepted : List ε := []
  calls : List Metric := []
  /-- An outcome of `none` is that of a worker that panicked. -/
  settled : List (ε × Option Metric) := []
  abandoned : List ε := []

/-- What a thread of the pipeline does between two of its waits. -/
inductive FlowAct (ε : Type) where
  | record (event : ε) (reserved : Bool)
  | trySend (index : ℕ)
  | count (index : ℕ)
  /-- The last recorder is dropped. -/
  | dropSenders
  | receive
  /-- `Journal::append` returns. -/
  | append (outcome : Metric)
  | countAppend
  | spawn
  /-- A worker counts its outcome, or panics. -/
  | process (index : ℕ) (outcome : Option Metric)
  | join
  /-- `receiver.recv()` returns nothing and no worker is left. -/
  | finish
  | abort

variable {ε : Type}

/-- A counter goes up by one. -/
def bump (counters : Metric → ℕ) (m : Metric) : Metric → ℕ :=
  Function.update counters m (counters m + 1)

namespace Flow

/-- The outcome of a call of `record` is known. -/
def called (s : Flow ε) (m : Metric) : Flow ε :=
  { s with uncounted := s.uncounted ++ [m], calls := s.calls ++ [m] }

end Flow

/-- A step of one thread. -/
def flowStep (cfg : FlowConfig) (s : Flow ε) : FlowAct ε → Option (Flow ε)
  | .record event reserved =>
    if s.senders then
      some (if reserved then { s with holding := s.holding ++ [event] } else s.called .tracesDroppedMemory)
    else none
  | .trySend index =>
    s.holding[index]?.map fun event =>
      let s := { s with holding := s.holding.eraseIdx index }
      if s.receiving = false then s.called .tracesDroppedClosed
      else if s.queue.length < cfg.queueCapacity then
        ({ s with queue := s.queue ++ [event], accepted := s.accepted ++ [event] }).called .tracesEnqueued
      else s.called .tracesDroppedFull
  | .count index =>
    s.uncounted[index]?.map fun m =>
      { s with uncounted := s.uncounted.eraseIdx index, counters := bump s.counters m }
  | .dropSenders => if s.holding = [] ∧ s.uncounted = [] then some { s with senders := false } else none
  | .receive =>
    match s.queue with
    | event :: queue =>
      if s.receiving ∧ s.dispatching.isNone ∧ s.appended.isNone then
        some { s with queue, dispatching := some event }
      else none
    | [] => none
  | .append outcome =>
    if cfg.journalEnabled ∧ outcome.ofAppend then
      s.dispatching.map fun event => { s with dispatching := none, appended := some (event, outcome) }
    else none
  | .countAppend =>
    s.appended.map fun e => { s with
      appended := none, settled := s.settled ++ [(e.1, some e.2)], counters := bump s.counters e.2 }
  | .spawn =>
    -- the dispatcher waits while `workers.len()` has reached the count
    if cfg.journalEnabled = false ∧ s.workers.length + s.unjoined < cfg.workerCount then
      s.dispatching.map fun event => { s with dispatching := none, workers := s.workers ++ [event] }
    else none
  | .process index outcome =>
    if outcome.all Metric.ofProcess then
      s.workers[index]?.map fun event => { s with
        workers := s.workers.eraseIdx index
        unjoined := s.unjoined + 1
        settled := s.settled ++ [(event, outcome)]
        counters := outcome.elim s.counters (bump s.counters) }
    else none
  | .join =>
    if s.receiving ∧ 0 < s.unjoined then some { s with unjoined := s.unjoined - 1 } else none
  | .finish =>
    if s.receiving ∧ s.senders = false ∧ s.queue = [] ∧ s.dispatching.isNone ∧ s.appended.isNone ∧
        s.workers = [] then
      some { s with receiving := false, unjoined := 0 }
    else none
  | .abort =>
    if s.receiving then
      some { s with
        receiving := false, dispatching := none, appended := none, workers := [], queue := []
        abandoned := (s.appended.map Prod.fst).toList ++ s.dispatching.toList ++ s.queue ++ s.workers }
    else none

/-- A journal, a queue of one and a budget that never runs out. -/
def sampleFlow : FlowConfig := {
  traceQueueMaxBytes := 1
  traceQueueCapacity := 1
  journalEnabled := true
  traceWorkerCount := 1
  usize := by decide }

/-- Two events, of which the second finds the queue full, and the shutdown after them. -/
def sampleFlowActs : List (FlowAct ℕ) :=
  [.record 1 true, .record 2 true, .trySend 0, .trySend 0, .count 1, .receive, .append .journalWritten,
    .countAppend, .count 0, .dropSenders, .finish]

/-! ### Where the events are -/

namespace Flow

/-- The events between the queue and their outcome. -/
def inHand (s : Flow ε) : List ε := (s.appended.map Prod.fst).toList ++ s.dispatching.toList

end Flow

/-- Every event that was accepted is in one place; a journal keeps the order as well. -/
structure PlacesInv (cfg : FlowConfig) (s : Flow ε) : Prop where
  places : (s.accepted : Multiset ε) =
    s.settled.map Prod.fst + s.inHand + s.queue + s.workers + s.abandoned
  ordered : cfg.journalEnabled = true →
    s.accepted = s.settled.map Prod.fst ++ s.inHand ++ s.queue ++ s.abandoned
  journaled : cfg.journalEnabled = true → s.workers = []
  outcome : ∀ e ∈ s.appended, cfg.journalEnabled = true ∧ e.2.ofAppend = true
  outcomes : ∀ e ∈ s.settled, if cfg.journalEnabled then ∃ m, e.2 = some m ∧ m.ofAppend = true
    else e.2.all Metric.ofProcess = true
  single : s.appended.isSome = true → s.dispatching = none
  stopped : s.receiving = false → s.queue = [] ∧ s.inHand = [] ∧ s.workers = []
  running : s.receiving = true → s.abandoned = []

section
variable {cfg : FlowConfig} {s s' : Flow ε} {a : FlowAct ε}

theorem pool_coe {l : List ε} {i : ℕ} {e : ε} (h : l[i]? = some e) :
    (l : Multiset ε) = ([e] : List ε) + (l.eraseIdx i : List ε) :=
  Multiset.coe_eq_coe.mpr (pool_perm h)

theorem PlacesInv.trySend {index : ℕ} (hinv : PlacesInv cfg s)
    (h : flowStep cfg s (.trySend index) = some s') : PlacesInv cfg s' := by
  simp only [flowStep] at h
  obtain ⟨event, hevent, rfl⟩ := Option.map_eq_some_iff.mp h
  split_ifs with hclosed hroom
  · exact { hinv with }
  · have hopen : s.receiving = true := by simpa using hclosed
    have hnone := hinv.running hopen
    refine ⟨?_, fun hj => ?_, hinv.3, hinv.4, hinv.5, hinv.6, fun hoff => ?_, hinv.8⟩
    · have := hinv.places
      simp only [Flow.called, Flow.inHand, ← Multiset.coe_add] at this ⊢
      rw [this]
      abel
    · have := hinv.ordered hj
      rw [hnone, List.append_nil] at this
      simp only [Flow.called, Flow.inHand, hnone, List.append_nil] at this ⊢
      rw [this, List.append_assoc]
    · exact absurd (hopen.symm.trans hoff) (by simp)
  · exact { hinv with }

theorem PlacesInv.receive (hinv : PlacesInv cfg s)
    (h : flowStep cfg s .receive = some s') : PlacesInv cfg s' := by
  simp only [flowStep] at h
  split at h
  · rename_i event queue hqueue
    split_ifs at h with hfree
    cases h
    obtain ⟨hopen, hd, ha⟩ := hfree
    rw [Option.isNone_iff_eq_none] at hd ha
    refine ⟨?_, fun hj => ?_, hinv.3, hinv.4, hinv.5, by simp [ha], by simp [hopen], hinv.8⟩
    · have := hinv.places
      rw [hqueue, ← List.singleton_append] at this
      simp only [Flow.inHand, hd, ha, Option.map_none, Option.toList_none, Option.toList_some,
        List.nil_append, ← Multiset.coe_add, Multiset.coe_nil] at this ⊢
      rw [this]
      abel
    · have := hinv.ordered hj
      simp only [Flow.inHand, hd, ha, hqueue, Option.map_none, Option.toList_none,
        Option.toList_some, List.nil_append, List.append_nil] at this ⊢
      rw [this]
      simp
  · cases h

theorem PlacesInv.append {outcome : Metric} (hinv : PlacesInv cfg s)
    (h : flowStep cfg s (.append outcome) = some s') : PlacesInv cfg s' := by
  simp only [flowStep] at h
  split_ifs at h with hj
  obtain ⟨event, hd, rfl⟩ := Option.map_eq_some_iff.mp h
  have ha : s.appended = none := by
    by_contra hne
    have := hinv.single (Option.isSome_iff_ne_none.mpr hne)
    rw [hd] at this
    cases this
  refine ⟨?_, fun hj => ?_, hinv.journaled, by simp [hj], hinv.outcomes, fun _ => rfl, fun hoff => ?_,
    hinv.running⟩
  · have := hinv.places
    simpa [Flow.inHand, hd, ha] using this
  · have := hinv.ordered hj
    simpa [Flow.inHand, hd, ha] using this
  · have := (hinv.stopped hoff).2.1
    simp [Flow.inHand, hd] at this

theorem PlacesInv.countAppend (hinv : PlacesInv cfg s)
    (h : flowStep cfg s .countAppend = some s') : PlacesInv cfg s' := by
  simp only [flowStep] at h
  obtain ⟨⟨event, outcome⟩, ha, rfl⟩ := Option.map_eq_some_iff.mp h
  have hd := hinv.single (by rw [ha]; rfl)
  obtain ⟨hj, hof⟩ := hinv.outcome _ ha
  refine ⟨?_, fun hj => ?_, hinv.journaled, by simp, fun e he => ?_, by simp, fun hoff => ?_,
    hinv.running⟩
  · have := hinv.places
    simpa [Flow.inHand, hd, ha, ← Multiset.coe_add, add_assoc] using this
  · have := hinv.ordered hj
    simpa [Flow.inHand, hd, ha] using this
  · rw [if_pos hj]
    rcases List.mem_append.mp he with hold | hnew
    · have := hinv.outcomes e hold
      rwa [if_pos hj] at this
    · rw [List.mem_singleton.mp hnew]
      exact ⟨outcome, rfl, hof⟩
  · have := (hinv.stopped hoff).2.1
    simp [Flow.inHand, ha] at this

theorem PlacesInv.spawn (hinv : PlacesInv cfg s)
    (h : flowStep cfg s .spawn = some s') : PlacesInv cfg s' := by
  simp only [flowStep] at h
  split_ifs at h with hj
  obtain ⟨event, hd, rfl⟩ := Option.map_eq_some_iff.mp h
  have hoff : cfg.journalEnabled ≠ true := by simp [hj.1]
  refine ⟨?_, fun hj => absurd hj hoff, fun hj => absurd hj hoff, hinv.outcome, hinv.outcomes,
    fun _ => rfl, fun hstop => ?_, hinv.running⟩
  · have := hinv.places
    simp only [Flow.inHand, hd, Option.toList_some, Option.toList_none, ← Multiset.coe_add,
      Multiset.coe_nil] at this ⊢
    rw [this]
    abel
  · have := (hinv.stopped hstop).2.1
    simp [Flow.inHand, hd] at this

theorem PlacesInv.process {index : ℕ} {outcome : Option Metric} (hinv : PlacesInv cfg s)
    (h : flowStep cfg s (.process index outcome) = some s') : PlacesInv cfg s' := by
  simp only [flowStep] at h
  split_ifs at h with hof
  obtain ⟨event, hevent, rfl⟩ := Option.map_eq_some_iff.mp h
  have hoff : cfg.journalEnabled ≠ true := by
    intro hj
    rw [hinv.journaled hj] at hevent
    cases hevent
  refine ⟨?_, fun hj => absurd hj hoff, fun hj => absurd hj hoff, hinv.outcome, fun e he => ?_,
    hinv.single, fun hstop => ?_, hinv.running⟩
  · have := hinv.places
    rw [pool_coe hevent] at this
    simp only [Flow.inHand, List.map_append, List.map_cons, List.map_nil, ← Multiset.coe_add] at this ⊢
    rw [this]
    abel
  · rw [if_neg hoff]
    rcases List.mem_append.mp he with hold | hnew
    · have := hinv.outcomes e hold
      rwa [if_neg hoff] at this
    · rw [List.mem_singleton.mp hnew]
      exact hof
  · rw [(hinv.stopped hstop).2.2] at hevent
    cases hevent

theorem PlacesInv.finish (hinv : PlacesInv cfg s)
    (h : flowStep cfg s .finish = some s') : PlacesInv cfg s' := by
  simp only [flowStep] at h
  split_ifs at h with hidle
  cases h
  obtain ⟨hopen, -, hq, hd, ha, hw⟩ := hidle
  refine { hinv with stopped := fun _ => ⟨hq, ?_, hw⟩, running := nofun }
  simp only [Option.isNone_iff_eq_none] at hd ha
  simp [Flow.inHand, hd, ha]

theorem PlacesInv.abort (hinv : PlacesInv cfg s)
    (h : flowStep cfg s .abort = some s') : PlacesInv cfg s' := by
  simp only [flowStep] at h
  split_ifs at h with hopen
  cases h
  have hnone := hinv.running hopen
  refine ⟨?_, fun hj => ?_, fun _ => rfl, by simp, hinv.outcomes, by simp, fun _ => ⟨rfl, rfl, rfl⟩,
    by simp⟩
  · have := hinv.places
    simp only [Flow.inHand, hnone, Option.map_none, Option.toList_none, ← Multiset.coe_add,
      Multiset.coe_nil] at this ⊢
    rw [this]
    abel
  · have := hinv.ordered hj
    simp only [Flow.inHand, hnone, hinv.journaled hj, List.append_nil] at this ⊢
    rw [this]
    simp

theorem placesInv_step (hinv : PlacesInv cfg s) (h : flowStep cfg s a = some s') : PlacesInv cfg s' := by
  cases a with
  | record event reserved =>
    simp only [flowStep] at h
    split_ifs at h <;> cases h <;> exact { hinv with }
  | trySend index => exact hinv.trySend h
  | count index =>
    simp only [flowStep] at h
    obtain ⟨m, -, rfl⟩ := Option.map_eq_some_iff.mp h
    exact { hinv with }
  | dropSenders =>
    simp only [flowStep] at h
    split_ifs at h
    cases h
    exact { hinv with }
  | receive => exact hinv.receive h
  | append outcome => exact hinv.append h
  | countAppend => exact hinv.countAppend h
  | spawn => exact hinv.spawn h
  | process index outcome => exact hinv.process h
  | join =>
    simp only [flowStep] at h
    split_ifs at h
    cases h
    exact { hinv with }
  | finish => exact hinv.finish h
  | abort => exact hinv.abort h

/-! ### What the counters say -/

/-- The counters of `record` follow the calls, those behind the queue follow the outcomes. -/
structure CountsInv (cfg : FlowConfig) (s : Flow ε) : Prop where
  calls : ∀ m, m.ofRecord = true → s.counters m + s.uncounted.count m = s.calls.count m
  uncounted : ∀ m ∈ s.uncounted, m.ofRecord = true
  kinds : ∀ m ∈ s.calls, m.ofRecord = true
  enqueued : s.calls.count .tracesEnqueued = s.accepted.length
  outcomes : ∀ m, m.ofRecord = false → s.counters m = s.settled.countP fun e => decide (e.2 = some m)
  senders : s.senders = false → s.holding = [] ∧ s.uncounted = []
  capacity : s.queue.length ≤ cfg.queueCapacity
  busy : s.workers.length + s.unjoined ≤ cfg.workerCount

theorem bump_apply (counters : Metric → ℕ) (m k : Metric) :
    bump counters m k = counters k + if m = k then 1 else 0 := by
  by_cases hk : m = k
  · subst hk
    simp [bump]
  · simp [bump, hk, Ne.symm hk]

theorem not_ofRecord_of_ofAppend {m : Metric} (h : m.ofAppend = true) : m.ofRecord = false := by
  cases m <;> first | rfl | cases h

theorem not_ofRecord_of_ofProcess {m : Metric} (h : m.ofProcess = true) : m.ofRecord = false := by
  cases m <;> first | rfl | cases h

/-- A call of `record` that was not accepted. -/
theorem CountsInv.decided (hinv : CountsInv cfg s) (hsenders : s.senders = true) {m : Metric}
    (hm : m.ofRecord = true) (hne : m ≠ .tracesEnqueued) : CountsInv cfg (s.called m) where
  calls k hk := by
    have := hinv.calls k hk
    simp only [Flow.called, List.count_append]
    omega
  uncounted k hk := by
    rcases List.mem_append.mp hk with hold | hnew
    · exact hinv.uncounted k hold
    · rwa [List.mem_singleton.mp hnew]
  kinds k hk := by
    rcases List.mem_append.mp hk with hold | hnew
    · exact hinv.kinds k hold
    · rwa [List.mem_singleton.mp hnew]
  enqueued := by
    have := hinv.enqueued
    simpa [Flow.called, List.count_append, List.count_singleton, hne] using this
  outcomes := hinv.outcomes
  senders hoff := absurd (hsenders.symm.trans hoff) (by simp)
  capacity := hinv.capacity
  busy := hinv.busy

/-- A call of `record` whose event was accepted. -/
theorem CountsInv.taken (hinv : CountsInv cfg s) (hsenders : s.senders = true) (event : ε)
    (hroom : s.queue.length + 1 ≤ cfg.queueCapacity) :
    CountsInv cfg (({ s with queue := s.queue ++ [event], accepted := s.accepted ++ [event] }).called
      .tracesEnqueued) where
  calls k hk := by
    have := hinv.calls k hk
    simp only [Flow.called, List.count_append]
    omega
  uncounted k hk := by
    rcases List.mem_append.mp hk with hold | hnew
    · exact hinv.uncounted k hold
    · rw [List.mem_singleton.mp hnew]
      rfl
  kinds k hk := by
    rcases List.mem_append.mp hk with hold | hnew
    · exact hinv.kinds k hold
    · rw [List.mem_singleton.mp hnew]
      rfl
  enqueued := by
    have := hinv.enqueued
    simpa [Flow.called, List.count_append] using this
  outcomes := hinv.outcomes
  senders hoff := absurd (hsenders.symm.trans hoff) (by simp)
  capacity := by simpa [Flow.called] using hroom
  busy := hinv.busy

/-- An event gets its outcome. -/
theorem CountsInv.settle (hinv : CountsInv cfg s) (event : ε) (outcome : Option Metric)
    (hkind : ∀ m ∈ outcome, m.ofRecord = false) :
    CountsInv cfg { s with
      settled := s.settled ++ [(event, outcome)]
      counters := outcome.elim s.counters (bump s.counters) } := by
  refine { hinv with
    calls := fun k hk => ?_
    outcomes := fun k hk => ?_ }
  · rw [← hinv.calls k hk]
    cases outcome with
    | none => rfl
    | some m =>
      have hne : m ≠ k := by
        rintro rfl
        rw [hkind m rfl] at hk
        cases hk
      simp only [Option.elim_some, bump_apply, if_neg hne, Nat.add_zero]
  · have := hinv.outcomes k hk
    cases outcome with
    | none => simpa [List.countP_append] using this
    | some m => simp [bump_apply, List.countP_append, List.countP_cons, this]

theorem CountsInv.record {event : ε} {reserved : Bool} (hinv : CountsInv cfg s)
    (h : flowStep cfg s (.record event reserved) = some s') : CountsInv cfg s' := by
  simp only [flowStep] at h
  split_ifs at h with hsenders
  · cases h
    exact { hinv with senders := fun hoff => absurd (hsenders.symm.trans hoff) (by simp) }
  · cases h
    exact hinv.decided hsenders rfl (by decide)

theorem CountsInv.trySend {index : ℕ} (hinv : CountsInv cfg s)
    (h : flowStep cfg s (.trySend index) = some s') : CountsInv cfg s' := by
  simp only [flowStep] at h
  obtain ⟨event, hevent, rfl⟩ := Option.map_eq_some_iff.mp h
  have hsenders : s.senders = true := by
    by_contra hoff
    rw [(hinv.senders (by simpa using hoff)).1] at hevent
    cases hevent
  have hrest : CountsInv cfg { s with holding := s.holding.eraseIdx index } :=
    { hinv with senders := fun hoff => absurd (hsenders.symm.trans hoff) (by simp) }
  split_ifs with hclosed hroom
  · exact hrest.decided hsenders rfl (by decide)
  · exact hrest.taken hsenders event (by dsimp only; omega)
  · exact hrest.decided hsenders rfl (by decide)

theorem CountsInv.count {index : ℕ} (hinv : CountsInv cfg s)
    (h : flowStep cfg s (.count index) = some s') : CountsInv cfg s' := by
  simp only [flowStep] at h
  obtain ⟨m, hm, rfl⟩ := Option.map_eq_some_iff.mp h
  have hkind := hinv.uncounted m (pool_mem hm)
  refine { hinv with
    calls := fun k hk => ?_
    uncounted := fun k hk => ?_
    outcomes := fun k hk => ?_
    senders := fun hoff => ?_ }
  · have := hinv.calls k hk
    have hcount := pool_countP hm (· == k)
    simp only [List.count, bump_apply, beq_iff_eq] at this hcount ⊢
    omega
  · exact hinv.uncounted k (List.mem_of_mem_eraseIdx hk)
  · have hne : m ≠ k := by
      rintro rfl
      rw [hkind] at hk
      cases hk
    simp only [bump_apply, if_neg hne, Nat.add_zero, hinv.outcomes k hk]
  · rw [(hinv.senders hoff).2] at hm
    cases hm

theorem CountsInv.receive (hinv : CountsInv cfg s)
    (h : flowStep cfg s .receive = some s') : CountsInv cfg s' := by
  simp only [flowStep] at h
  split at h
  · rename_i event queue hqueue
    split_ifs at h
    cases h
    have := hinv.capacity
    rw [hqueue, List.length_cons] at this
    exact { hinv with capacity := by dsimp only; omega }
  · cases h

theorem CountsInv.countAppend (hplaces : PlacesInv cfg s) (hinv : CountsInv cfg s)
    (h : flowStep cfg s .countAppend = some s') : CountsInv cfg s' := by
  simp only [flowStep] at h
  obtain ⟨⟨event, m⟩, ha, rfl⟩ := Option.map_eq_some_iff.mp h
  have hkind := not_ofRecord_of_ofAppend (hplaces.outcome _ ha).2
  exact { hinv.settle event (some m) (by simpa using hkind) with }

theorem CountsInv.spawn (hinv : CountsInv cfg s)
    (h : flowStep cfg s .spawn = some s') : CountsInv cfg s' := by
  simp only [flowStep] at h
  split_ifs at h with hroom
  obtain ⟨event, -, rfl⟩ := Option.map_eq_some_iff.mp h
  exact { hinv with busy := by simp only [List.length_append, List.length_singleton]; omega }

theorem CountsInv.process {index : ℕ} {outcome : Option Metric} (hinv : CountsInv cfg s)
    (h : flowStep cfg s (.process index outcome) = some s') : CountsInv cfg s' := by
  simp only [flowStep] at h
  split_ifs at h with hof
  obtain ⟨event, hevent, rfl⟩ := Option.map_eq_some_iff.mp h
  have hkind : ∀ m ∈ outcome, m.ofRecord = false := fun m hm =>
    not_ofRecord_of_ofProcess (Option.all_eq_true _ _ |>.mp hof m hm)
  have hlen := congrArg Multiset.card (pool_coe hevent)
  have := hinv.busy
  simp only [Multiset.coe_card, Multiset.card_add, List.length_singleton] at hlen
  exact { hinv.settle event _ hkind with busy := by dsimp only; omega }

theorem CountsInv.finish (hinv : CountsInv cfg s)
    (h : flowStep cfg s .finish = some s') : CountsInv cfg s' := by
  simp only [flowStep] at h
  split_ifs at h with hidle
  cases h
  exact { hinv with busy := by rw [hidle.2.2.2.2.2]; exact Nat.zero_le _ }

theorem CountsInv.abort (hinv : CountsInv cfg s)
    (h : flowStep cfg s .abort = some s') : CountsInv cfg s' := by
  simp only [flowStep] at h
  split_ifs at h
  cases h
  have := hinv.busy
  exact { hinv with capacity := Nat.zero_le _, busy := by simp only [List.length_nil]; omega }

theorem countsInv_step (hplaces : PlacesInv cfg s) (hinv : CountsInv cfg s)
    (h : flowStep cfg s a = some s') : CountsInv cfg s' := by
  cases a with
  | record event reserved => exact hinv.record h
  | trySend index => exact hinv.trySend h
  | count index => exact hinv.count h
  | dropSenders =>
    simp only [flowStep] at h
    split_ifs at h with hidle
    cases h
    exact { hinv with senders := fun _ => hidle }
  | receive => exact hinv.receive h
  | append outcome =>
    simp only [flowStep] at h
    split_ifs at h
    obtain ⟨event, -, rfl⟩ := Option.map_eq_some_iff.mp h
    exact { hinv with }
  | countAppend => exact hinv.countAppend hplaces h
  | spawn => exact hinv.spawn h
  | process index outcome => exact hinv.process h
  | join =>
    simp only [flowStep] at h
    split_ifs at h with hdone
    cases h
    have := hinv.busy
    exact { hinv with busy := by dsimp only; omega }
  | finish => exact hinv.finish h
  | abort => exact hinv.abort h

theorem reaches_flowInv {G : Flow ε → FlowAct ε → Prop} (hrun : Reaches (flowStep cfg) G {} s) :
    PlacesInv cfg s ∧ CountsInv cfg s := by
  refine hrun.inv (I := fun s => PlacesInv cfg s ∧ CountsInv cfg s) ?_ ⟨?_, ?_⟩
  · rintro s a t ⟨hplaces, hcounts⟩ - hst
    exact ⟨placesInv_step hplaces hst, countsInv_step hplaces hcounts hst⟩
  · exact ⟨rfl, fun _ => rfl, fun _ => rfl, nofun, nofun, nofun, nofun, fun _ => rfl⟩
  · exact ⟨fun _ _ => rfl, nofun, nofun, rfl, fun _ _ => rfl, nofun, Nat.zero_le _, Nat.zero_le _⟩

/-! ### The sums -/

/-- A list is as long as its members of each kind are many. -/
theorem length_eq_sum_kinds {α κ : Type} [DecidableEq κ] (kind : α → κ) (kinds : Finset κ) {l : List α}
    (h : ∀ x ∈ l, kind x ∈ kinds) : l.length = ∑ k ∈ kinds, l.countP fun x => decide (kind x = k) := by
  have := Multiset.sum_count_eq_card (s := kinds) (m := (l.map kind : Multiset κ)) (by simpa using h)
  simpa [List.count, List.countP_map, Function.comp_def, beq_eq_decide] using this.symm

theorem length_calls {calls : List Metric} (h : ∀ m ∈ calls, m.ofRecord = true) :
    calls.length = calls.count .tracesEnqueued + (calls.count .tracesDroppedMemory +
      calls.count .tracesDroppedFull + calls.count .tracesDroppedClosed) := by
  have := length_eq_sum_kinds id {.tracesEnqueued, .tracesDroppedMemory, .tracesDroppedFull,
    .tracesDroppedClosed} (l := calls) fun m hm => by
      have := h m hm
      cases m <;> simp_all [Metric.ofRecord]
  simpa [List.count, add_assoc, beq_eq_decide] using this

theorem length_journaled {settled : List (ε × Option Metric)}
    (h : ∀ e ∈ settled, ∃ m, e.2 = some m ∧ m.ofAppend = true) :
    settled.length = settled.countP (fun e => decide (e.2 = some .journalWritten)) +
      settled.countP (fun e => decide (e.2 = some .journalDroppedFull)) +
      settled.countP (fun e => decide (e.2 = some .journalWriteFailed)) := by
  have := length_eq_sum_kinds Prod.snd {some .journalWritten, some .journalDroppedFull,
    some .journalWriteFailed} (l := settled) fun e he => by
      obtain ⟨m, hm, hof⟩ := h e he
      cases m <;> simp_all [Metric.ofAppend]
  simpa [add_assoc] using this

theorem length_processed {settled : List (ε × Option Metric)}
    (h : ∀ e ∈ settled, e.2.all Metric.ofProcess = true) :
    settled.length = settled.countP (fun e => decide (e.2 = some .tracesPersisted)) +
      settled.countP (fun e => decide (e.2 = some .tracePersistFailures)) +
      settled.countP (fun e => decide (e.2 = some .traceBuildFailures)) +
      settled.countP (fun e => decide (e.2 = none)) := by
  have := length_eq_sum_kinds Prod.snd {some .tracesPersisted, some .tracePersistFailures,
    some .traceBuildFailures, none} (l := settled) fun e he => by
      have hof := h e he
      rcases hm : e.2 with _ | m
      · simp
      · rw [hm] at hof
        cases m <;> simp_all [Metric.ofProcess]
  simpa [add_assoc] using this

/-- The events that have their outcome, as the counters have them; a panic is not counted. -/
def Flow.decided (cfg : FlowConfig) (s : Flow ε) : ℕ :=
  if cfg.journalEnabled then
    s.counters .journalWritten + s.counters .journalDroppedFull + s.counters .journalWriteFailed
  else s.counters .tracesPersisted + s.counters .tracePersistFailures + s.counters .traceBuildFailures +
    s.settled.countP fun e => decide (e.2 = none)

/-- The calls of `record` that were turned away. -/
def Flow.dropped (s : Flow ε) : ℕ :=
  s.counters .tracesDroppedMemory + s.counters .tracesDroppedFull + s.counters .tracesDroppedClosed

theorem length_settled (hplaces : PlacesInv cfg s) (hcounts : CountsInv cfg s) :
    s.settled.length = s.decided cfg := by
  simp only [Flow.decided]
  have hout := hplaces.outcomes
  split_ifs with hj
  · simp only [if_pos hj] at hout
    rw [length_journaled hout, hcounts.outcomes _ rfl, hcounts.outcomes _ rfl, hcounts.outcomes _ rfl]
  · simp only [if_neg hj] at hout
    rw [length_processed hout, hcounts.outcomes _ rfl, hcounts.outcomes _ rfl, hcounts.outcomes _ rfl]

theorem length_places (hplaces : PlacesInv cfg s) : s.accepted.length =
    s.settled.length + s.inHand.length + s.queue.length + s.workers.length + s.abandoned.length := by
  have := congrArg Multiset.card hplaces.places
  simpa [Multiset.card_add, add_assoc] using this

theorem calls_sum (hcounts : CountsInv cfg s) :
    s.calls.length = s.counters .tracesEnqueued + s.dropped + s.uncounted.length := by
  have henq := hcounts.calls .tracesEnqueued rfl
  have hmem := hcounts.calls .tracesDroppedMemory rfl
  have hfull := hcounts.calls .tracesDroppedFull rfl
  have hclosed := hcounts.calls .tracesDroppedClosed rfl
  rw [length_calls hcounts.kinds, length_calls hcounts.uncounted, Flow.dropped]
  omega

theorem enqueued_sum (hplaces : PlacesInv cfg s) (hcounts : CountsInv cfg s) :
    s.counters .tracesEnqueued + s.uncounted.count .tracesEnqueued = s.decided cfg + s.inHand.length +
      s.queue.length + s.workers.length + s.abandoned.length := by
  rw [hcounts.calls _ rfl, hcounts.enqueued, length_places hplaces, length_settled hplaces hcounts]

theorem accepted_perm (hplaces : PlacesInv cfg s) :
    s.accepted.Perm (s.settled.map Prod.fst ++ s.inHand ++ s.queue ++ s.workers ++ s.abandoned) := by
  have := hplaces.places
  simpa only [Multiset.coe_add, Multiset.coe_eq_coe] using this

/-- CORRECT: at every moment of every run, each event that was accepted is in exactly one place, in
    journal mode also in the order of acceptance; the counters account for every call of `record` and
    for every accepted event, short of those that have moved and are still to be counted; and neither
    the queue nor the workers exceed their bounds. -/
theorem every_event_accounted (cfg : FlowConfig) (s : Flow ε)
    (hrun : Reaches (flowStep cfg) anyAct {} s) :
    s.accepted.Perm (s.settled.map Prod.fst ++ s.inHand ++ s.queue ++ s.workers ++ s.abandoned) ∧
    (cfg.journalEnabled = true →
      s.accepted = s.settled.map Prod.fst ++ s.inHand ++ s.queue ++ s.abandoned) ∧
    s.calls.length = s.counters .tracesEnqueued + s.dropped + s.uncounted.length ∧
    s.counters .tracesEnqueued + s.uncounted.count .tracesEnqueued = s.decided cfg + s.inHand.length +
      s.queue.length + s.workers.length + s.abandoned.length ∧
    s.queue.length ≤ cfg.queueCapacity ∧ s.workers.length ≤ cfg.workerCount := by
  obtain ⟨hplaces, hcounts⟩ := reaches_flowInv hrun
  exact ⟨accepted_perm hplaces, hplaces.ordered, calls_sum hcounts, enqueued_sum hplaces hcounts,
    hcounts.capacity, le_trans (Nat.le_add_right _ _) hcounts.busy⟩

theorem every_event_accounted_sample : ∃ s : Flow ℕ, s.accepted = [1] ∧
    s.accepted = s.settled.map Prod.fst ++ s.inHand ++ s.queue ++ s.abandoned := by
  have hrun : (run (flowStep sampleFlow) {} (sampleFlowActs.take 6)).map
      (fun s => s.accepted) = some [1] := by decide +kernel
  obtain ⟨s, hs, haccepted⟩ := Option.map_eq_some_iff.mp hrun
  exact ⟨s, haccepted, (every_event_accounted sampleFlow s (reaches_of_run hs)).2.1 rfl⟩

/-! ### Shutdown -/

/-- The dispatcher is not aborted. -/
def notAborted : Flow ε → FlowAct ε → Prop := fun _ a => a ≠ .abort

/-- Without an abort nothing is abandoned, and the dispatcher ends after the last recorder. -/
def Orderly (s : Flow ε) : Prop := s.abandoned = [] ∧ (s.receiving = false → s.senders = false)

theorem orderly_step (hord : Orderly s) (hgo : notAborted s a) (h : flowStep cfg s a = some s') :
    Orderly s' := by
  cases a with
  | abort => exact absurd rfl hgo
  | record event reserved =>
    simp only [flowStep] at h
    split_ifs at h <;> cases h <;> exact hord
  | trySend index =>
    simp only [flowStep] at h
    obtain ⟨event, -, rfl⟩ := Option.map_eq_some_iff.mp h
    split_ifs <;> exact hord
  | dropSenders =>
    simp only [flowStep] at h
    split_ifs at h
    cases h
    exact ⟨hord.1, fun _ => rfl⟩
  | receive =>
    simp only [flowStep] at h
    split at h
    · split_ifs at h
      cases h
      exact hord
    · cases h
  | finish =>
    simp only [flowStep] at h
    split_ifs at h with hidle
    cases h
    exact ⟨hord.1, fun _ => hidle.2.1⟩
  | join =>
    simp only [flowStep] at h
    split_ifs at h
    cases h
    exact hord
  | append outcome | spawn =>
    simp only [flowStep] at h
    split_ifs at h
    obtain ⟨event, -, rfl⟩ := Option.map_eq_some_iff.mp h
    exact hord
  | process index outcome =>
    simp only [flowStep] at h
    split_ifs at h
    obtain ⟨event, -, rfl⟩ := Option.map_eq_some_iff.mp h
    exact hord
  | count index | countAppend =>
    simp only [flowStep] at h
    obtain ⟨_, -, rfl⟩ := Option.map_eq_some_iff.mp h
    exact hord

/-- CORRECT: a pipeline that has come to its end without being aborted has decided on every event it
    accepted, once each, and its counters add up to the calls of `record`. -/
theorem drained_pipeline_decides_all (cfg : FlowConfig) (s : Flow ε)
    (hrun : Reaches (flowStep cfg) notAborted {} s) (hend : s.receiving = false) :
    s.accepted.Perm (s.settled.map Prod.fst) ∧
    (cfg.journalEnabled = true → s.accepted = s.settled.map Prod.fst) ∧
    s.counters .tracesEnqueued = s.decided cfg ∧ s.calls.length = s.decided cfg + s.dropped := by
  have hord : Orderly s :=
    hrun.inv (I := Orderly) (fun s a t hord hgo hst => orderly_step hord hgo hst) ⟨rfl, nofun⟩
  obtain ⟨hplaces, hcounts⟩ := reaches_flowInv hrun
  have hperm := accepted_perm hplaces
  have horder := hplaces.ordered
  have hcalls := calls_sum hcounts
  have henq := enqueued_sum hplaces hcounts
  obtain ⟨hqueue, hhand, hworkers⟩ := hplaces.stopped hend
  have huncounted := (hcounts.senders (hord.2 hend)).2
  simp only [hord.1, hqueue, hhand, hworkers, huncounted, List.append_nil, List.length_nil,
    List.count_nil, Nat.add_zero] at hperm horder hcalls henq
  exact ⟨hperm, horder, henq, by omega⟩

theorem drained_pipeline_decides_all_sample : ∃ s : Flow ℕ, s.accepted = [1] ∧
    s.accepted.Perm (s.settled.map Prod.fst) ∧ s.calls.length = s.decided sampleFlow + s.dropped := by
  have hrun : (run (flowStep sampleFlow) {} sampleFlowActs).map
      (fun s => (s.accepted, s.receiving)) = some ([1], false) := by decide +kernel
  obtain ⟨s, hs, hend⟩ := Option.map_eq_some_iff.mp hrun
  rw [Prod.mk.injEq] at hend
  have hreach : Reaches (flowStep sampleFlow) notAborted {} s :=
    reaches_of_run_guarded (by simp [sampleFlowActs, notAborted]) hs
  obtain ⟨hperm, -, -, hcalls⟩ := drained_pipeline_decides_all sampleFlow s hreach hend.2
  exact ⟨s, hend.1, hperm, hcalls⟩

/-! ### The report -/

theorem counters_step (h : flowStep cfg s a = some s') :
    s'.counters = s.counters ∨ ∃ m, s'.counters = bump s.counters m := by
  cases a with
  | record event reserved =>
    simp only [flowStep] at h
    split_ifs at h <;> cases h <;> exact .inl rfl
  | trySend index =>
    simp only [flowStep] at h
    obtain ⟨event, -, rfl⟩ := Option.map_eq_some_iff.mp h
    split_ifs <;> exact .inl rfl
  | count index =>
    simp only [flowStep] at h
    obtain ⟨m, -, rfl⟩ := Option.map_eq_some_iff.mp h
    exact .inr ⟨m, rfl⟩
  | countAppend =>
    simp only [flowStep] at h
    obtain ⟨e, -, rfl⟩ := Option.map_eq_some_iff.mp h
    exact .inr ⟨e.2, rfl⟩
  | process index outcome =>
    simp only [flowStep] at h
    split_ifs at h
    obtain ⟨event, -, rfl⟩ := Option.map_eq_some_iff.mp h
    cases outcome with
    | none => exact .inl rfl
    | some m => exact .inr ⟨m, rfl⟩
  | append outcome | spawn =>
    simp only [flowStep] at h
    split_ifs at h
    obtain ⟨event, -, rfl⟩ := Option.map_eq_some_iff.mp h
    exact .inl rfl
  | receive =>
    simp only [flowStep] at h
    split at h
    · split_ifs at h
      cases h
      exact .inl rfl
    · cases h
  | dropSenders | join | finish | abort =>
    simp only [flowStep] at h
    split_ifs at h
    cases h
    exact .inl rfl

/-- Counters only grow. -/
theorem counters_mono {G : Flow ε → FlowAct ε → Prop} (hrun : Reaches (flowStep cfg) G s s') (m : Metric) :
    s.counters m ≤ s'.counters m := by
  refine hrun.inv (I := fun t => s.counters m ≤ t.counters m) ?_ le_rfl
  rintro t a u hle - hst
  rcases counters_step hst with h | ⟨k, h⟩
  · rwa [h]
  · rw [h, bump_apply]
    omega

/-- `not_yet_durable` in `snapshot`, from the four loads in their order. -/
def notYetDurable (enqueued written droppedFull writeFailed : ℕ) : ℕ :=
  enqueued - written - droppedFull - writeFailed

end
end Llmtrace.Trace
