import Llmtrace.Schemes.Run

/-! The asynchronous resource of the pages (`resource.svelte.ts`): a loader's result, shown with its
    error and a loading flag.

    Script code runs to completion, so a step is one call of `load` up to its `await`, one `reset`,
    one `dispose`, or the rest of a `load` once the promise of its loader settles. The pending loads
    settle in any order and with any outcome, whether or not their signal was aborted. What a page
    shows is stated over the history of calls, with the loads counted in the order they started. -/

namespace Llmtrace.Ui
open Schemes

variable {T : Type}

/-- The value of a `catch (err)`, as far as the handler looks at it. -/
inductive Thrown where
  | domException (name message : List Char)
  | error (message : List Char)
  | other

/-- What is thrown is an `AbortError`. -/
def Thrown.isAbortError : Thrown → Bool
  | .domException name _ => name == "AbortError".toList
  | _ => false

/-- `err instanceof Error ? err.message : 'Failed to load data'`; a `DOMException` is an `Error`. -/
def Thrown.text : Thrown → List Char
  | .domException _ message => message
  | .error message => message
  | .other => "Failed to load data".toList

/-- How the promise of a loader settles; `none` is `undefined`. -/
inductive Outcome (T : Type) where
  | resolved (result : Option T)
  | rejected (err : Thrown)

/-- `aborted` holds the signal of every `AbortController` made so far, `controller` the index of
    `#controller`, and `pending` the loads that wait for their loader. -/
structure Resource (T : Type) where
  loading : Bool := true
  error : Option (List Char) := none
  data : Option T := none
  aborted : List Bool := []
  controller : Option ℕ := none
  pending : List ℕ := []

namespace Resource

/-- `this.#controller?.abort()` -/
def abortCurrent (r : Resource T) : Resource T :=
  match r.controller with
  | none => r
  | some c => { r with aborted := r.aborted.set c true }

/-- `dispose` -/
def dispose (r : Resource T) : Resource T := r.abortCurrent

/-- `reset` -/
def reset (r : Resource T) : Resource T :=
  { r.dispose with data := none, error := none, loading := true }

/-- `load` up to its `await`. -/
def load (r : Resource T) : Resource T :=
  let r := r.abortCurrent
  let c := r.aborted.length
  { r with
    aborted := r.aborted ++ [false], controller := some c, loading := true, error := none,
    pending := r.pending ++ [c] }

/-- `controller.signal.aborted` -/
def signalAborted (r : Resource T) (c : ℕ) : Bool := r.aborted.getD c false

/-- The `try` and `catch` blocks after the `await`, with the value `load` returns. -/
def afterAwait (r : Resource T) (c : ℕ) : Outcome T → Resource T × Option T
  | .resolved result =>
    if r.signalAborted c then (r, none) else ({ r with data := result }, result)
  | .rejected err =>
    if r.signalAborted c then (r, none)
    else if err.isAbortError then (r, none)
    else ({ r with error := some err.text }, none)

/-- The block `finally` of `load`. -/
def finallyBlock (r : Resource T) (c : ℕ) : Resource T :=
  if !r.signalAborted c then { r with loading := false } else r

/-- The rest of the `load` that owns controller `c`, and what its promise resolves to. -/
def settle (r : Resource T) (c : ℕ) (outcome : Outcome T) : Resource T × Option T :=
  let (after, returned) := afterAwait { r with pending := r.pending.erase c } c outcome
  (after.finallyBlock c, returned)

end Resource

/-- What the page calls, and the end of a request. -/
inductive Event (T : Type) where
  | load
  | reset
  | dispose
  | settle (c : ℕ) (outcome : Outcome T)

/-- What an event does. -/
def step (r : Resource T) : Event T → Option (Resource T)
  | .load => some r.load
  | .reset => some r.reset
  | .dispose => some r.dispose
  | .settle c outcome => if c ∈ r.pending then some (r.settle c outcome).1 else none

/-! ### Histories -/

/-- The event is a call of `load`. -/
def Event.isLoad : Event T → Bool
  | .load => true
  | _ => false

/-- The calls that take the resource away from the load before them. -/
def Event.interrupts : Event T → Bool
  | .settle _ _ => false
  | _ => true

/-- How many loads a history starts; the next one gets this number. -/
def loads (as : List (Event T)) : ℕ := as.countP Event.isLoad

/-- Load `c` of the history was followed by another load, a reset or a disposal. -/
def Superseded (as : List (Event T)) (c : ℕ) : Prop :=
  ∃ before e later, as = before ++ e :: later ∧ c < loads before ∧ e.interrupts = true

/-- What the completion of the load in charge leaves behind: `loading` is over, and the result or the
    message is shown; an abort shows neither. -/
def Shows (s t : Resource T) : Outcome T → Prop
  | .resolved result => t.loading = false ∧ t.data = result ∧ t.error = none
  | .rejected err =>
    t.loading = false ∧ t.data = s.data ∧
      t.error = if err.isAbortError then s.error else some err.text

@[simp] theorem loads_append_singleton (as : List (Event T)) (e : Event T) :
    loads (as ++ [e]) = loads as + if e.isLoad then 1 else 0 := by
  simp [loads, List.countP_append, List.countP_cons]

theorem superseded_concat (as : List (Event T)) (e : Event T) (c : ℕ) :
    Superseded (as ++ [e]) c ↔ Superseded as c ∨ (c < loads as ∧ e.interrupts = true) := by
  constructor
  · rintro ⟨before, e', later, h, hc, he⟩
    rcases List.eq_nil_or_concat later with rfl | ⟨later, x, rfl⟩
    · obtain ⟨rfl, hcons⟩ := List.append_inj' h (by simp)
      obtain ⟨rfl, -⟩ := List.cons.inj hcons
      exact .inr ⟨hc, he⟩
    · rw [List.concat_eq_append, ← List.cons_append, ← List.append_assoc] at h
      obtain ⟨rfl, -⟩ := List.append_inj' h rfl
      exact .inl ⟨before, e', later, rfl, hc, he⟩
  · rintro (⟨before, e', later, rfl, hc, he⟩ | ⟨hc, he⟩)
    · exact ⟨before, e', later ++ [e], by simp, hc, he⟩
    · exact ⟨as, e, [], rfl, hc, he⟩

/-- Every load but the last one was superseded by the one after it. -/
theorem superseded_of_lt {as : List (Event T)} {c : ℕ} (h : c + 1 < loads as) : Superseded as c := by
  induction as using List.reverseRecOn with
  | nil => simp [loads] at h
  | append_singleton as e ih =>
    rw [superseded_concat]
    rw [loads_append_singleton] at h
    cases e with
    | load => exact .inr ⟨by simp [Event.isLoad] at h; omega, rfl⟩
    | _ => exact .inl (ih (by simpa [Event.isLoad] using h))

/-! ### What a step does -/

namespace Resource

@[simp] theorem abortCurrent_shown (r : Resource T) :
    r.abortCurrent.data = r.data ∧ r.abortCurrent.error = r.error ∧
      r.abortCurrent.loading = r.loading ∧ r.abortCurrent.pending = r.pending ∧
      r.abortCurrent.controller = r.controller := by
  unfold abortCurrent
  cases hc : r.controller <;> simp [hc]

@[simp] theorem abortCurrent_aborted_length (r : Resource T) :
    r.abortCurrent.aborted.length = r.aborted.length := by
  unfold abortCurrent
  cases r.controller <;> simp

theorem settle_pending (r : Resource T) (c : ℕ) (outcome : Outcome T) :
    (r.settle c outcome).1.pending = r.pending.erase c := by
  cases outcome <;> simp only [settle, afterAwait, finallyBlock] <;> split_ifs <;> rfl

theorem settle_aborted (r : Resource T) (c : ℕ) (outcome : Outcome T) :
    (r.settle c outcome).1.aborted = r.aborted ∧
      (r.settle c outcome).1.controller = r.controller := by
  cases outcome <;> simp only [settle, afterAwait, finallyBlock] <;> split_ifs <;> exact ⟨rfl, rfl⟩

/-- Each of the three guards stops a load whose signal is aborted. -/
theorem settle_of_aborted {r : Resource T} {c : ℕ} (h : r.signalAborted c = true)
    (outcome : Outcome T) :
    (r.settle c outcome).1 = { r with pending := r.pending.erase c } := by
  cases outcome <;> simp_all [settle, afterAwait, finallyBlock, signalAborted]

theorem shows_settle {r : Resource T} {c : ℕ} (h : r.signalAborted c = false)
    (herror : r.error = none) (outcome : Outcome T) : Shows r (r.settle c outcome).1 outcome := by
  have h' (s : Resource T) (hs : s.aborted = r.aborted) : s.signalAborted c = false := by
    rwa [signalAborted, hs]
  cases outcome with
  | resolved result => simp [Shows, settle, afterAwait, finallyBlock, h', herror]
  | rejected err =>
    by_cases habort : err.isAbortError = true <;>
      simp [Shows, settle, afterAwait, finallyBlock, h', habort]

end Resource

/-- INVARIANT of the histories: the signals say which loads are superseded, and the load in charge
    finds `error` and `loading` as it left them. -/
structure Tracks (as : List (Event T)) (r : Resource T) : Prop where
  length : r.aborted.length = loads as
  controller : r.controller = if loads as = 0 then none else some (loads as - 1)
  signal : ∀ c < loads as, r.signalAborted c = true ↔ Superseded as c
  pending : ∀ c, c ∈ r.pending ↔ c < loads as ∧ ∀ outcome, Event.settle c outcome ∉ as
  nodup : r.pending.Nodup
  charge : ∀ c ∈ r.pending, ¬ Superseded as c → r.error = none ∧ r.loading = true
  settled : ∀ c outcome, Event.settle c outcome ∈ as → c < loads as

theorem tracks_nil : Tracks [] ({} : Resource T) where
  length := rfl
  controller := rfl
  signal := by simp [loads]
  pending := by simp [loads]
  nodup := List.nodup_nil
  charge := by simp
  settled := by simp

/-- Aborting the current controller supersedes every load there was. -/
theorem Tracks.signalAborted_abortCurrent {as : List (Event T)} {r : Resource T} (h : Tracks as r)
    {c : ℕ} (hc : c < loads as) : r.abortCurrent.signalAborted c = true := by
  have hpos : loads as ≠ 0 := by omega
  have hlen : c < r.aborted.length := h.length ▸ hc
  have hcontroller := h.controller
  rw [if_neg hpos] at hcontroller
  simp only [Resource.abortCurrent, hcontroller, Resource.signalAborted]
  by_cases hlast : c = loads as - 1
  · subst hlast
    simp [hlen]
  · rw [List.getD_eq_getElem?_getD, List.getElem?_set_ne (Ne.symm hlast),
      ← List.getD_eq_getElem?_getD]
    exact (h.signal c hc).mpr (superseded_of_lt (by omega))

/-- A reset and a disposal leave a history with no load in charge. -/
theorem Tracks.interrupted {as : List (Event T)} {r s : Resource T} (h : Tracks as r) {e : Event T}
    (he : e.interrupts = true) (hload : e.isLoad = false)
    (haborted : s.aborted = r.abortCurrent.aborted) (hpending : s.pending = r.pending)
    (hcontroller : s.controller = r.controller) : Tracks (as ++ [e]) s := by
  have hloads : loads (as ++ [e]) = loads as := by simp [hload]
  have hsettle (c : ℕ) (outcome : Outcome T) : Event.settle c outcome ≠ e := by
    rintro rfl
    simp [Event.interrupts] at he
  have hover (c : ℕ) (hc : c < loads as) : Superseded (as ++ [e]) c :=
    (superseded_concat as e c).mpr (.inr ⟨hc, he⟩)
  constructor
  case length => rw [haborted, Resource.abortCurrent_aborted_length, h.length, hloads]
  case controller => rw [hcontroller, h.controller, hloads]
  case signal =>
    intro c hc
    rw [hloads] at hc
    simp only [Resource.signalAborted, haborted]
    exact ⟨fun _ => hover c hc, fun _ => h.signalAborted_abortCurrent hc⟩
  case pending =>
    intro c
    rw [hpending, h.pending c, hloads]
    simp [hsettle]
  case nodup => rw [hpending]; exact h.nodup
  case charge =>
    intro c hc hcharge
    rw [hpending] at hc
    exact absurd (hover c ((h.pending c).mp hc).1) hcharge
  case settled =>
    intro c outcome hmem
    rw [hloads]
    exact h.settled c outcome (by simpa [hsettle] using hmem)

theorem Tracks.load {as : List (Event T)} {r : Resource T} (h : Tracks as r) :
    Tracks (as ++ [.load]) r.load := by
  have hloads : loads (as ++ [(Event.load : Event T)]) = loads as + 1 := by simp [Event.isLoad]
  have hlen : r.abortCurrent.aborted.length = loads as := by
    rw [Resource.abortCurrent_aborted_length, h.length]
  have hpending := (Resource.abortCurrent_shown r).2.2.2.1
  constructor
  case length => simp [Resource.load, h.length, Event.isLoad]
  case controller => simp [Resource.load, hlen, hloads]
  case signal =>
    intro c hc
    rw [superseded_concat, Resource.signalAborted, Resource.load]
    by_cases hlt : c < loads as
    · have hold := h.signalAborted_abortCurrent hlt
      rw [List.getD_append _ _ _ _ (hlen ▸ hlt)]
      exact ⟨fun _ => .inr ⟨hlt, rfl⟩, fun _ => hold⟩
    · have heq : c = loads as := by omega
      subst heq
      rw [List.getD_append_right _ _ _ _ hlen.le, hlen]
      simp only [Nat.sub_self, List.getD_cons_zero, Bool.false_eq_true, lt_irrefl, false_and, or_false,
        false_iff]
      rintro ⟨before, e, later, rfl, hc', -⟩
      rw [loads, loads, List.countP_append] at hc'
      omega
  case pending =>
    intro c
    simp only [Resource.load, hpending, List.mem_append, List.mem_singleton, hlen, hloads, h.pending c,
      reduceCtorEq, or_false]
    constructor
    · rintro (⟨hc, hnot⟩ | rfl)
      · exact ⟨by omega, hnot⟩
      · exact ⟨by omega, fun outcome hmem => absurd (h.settled _ _ hmem) (lt_irrefl _)⟩
    · rintro ⟨hc, hnot⟩
      by_cases hlt : c < loads as
      · exact .inl ⟨hlt, hnot⟩
      · exact .inr (by omega)
  case nodup =>
    simp only [Resource.load, hpending, hlen]
    refine List.nodup_append.mpr ⟨h.nodup, List.nodup_singleton _, ?_⟩
    rintro c hc d hd rfl
    rw [List.mem_singleton] at hd
    have := ((h.pending c).mp hc).1
    omega
  case charge => exact fun _ _ _ => ⟨rfl, rfl⟩
  case settled =>
    intro c outcome hmem
    have := h.settled c outcome (by simpa using hmem)
    omega

theorem Tracks.settle {as : List (Event T)} {r : Resource T} (h : Tracks as r) {c : ℕ}
    (hc : c ∈ r.pending) (outcome : Outcome T) :
    Tracks (as ++ [.settle c outcome]) (r.settle c outcome).1 := by
  have hloads : loads (as ++ [Event.settle c outcome]) = loads as := by simp [Event.isLoad]
  obtain ⟨haborted, hcontroller⟩ := r.settle_aborted c outcome
  have hpending := r.settle_pending c outcome
  have hsup (d : ℕ) : Superseded (as ++ [Event.settle c outcome]) d ↔ Superseded as d := by
    rw [superseded_concat]
    simp [Event.interrupts]
  have hlt := ((h.pending c).mp hc).1
  constructor
  case length => rw [haborted, h.length, hloads]
  case controller => rw [hcontroller, h.controller, hloads]
  case signal =>
    intro d hd
    rw [hsup, Resource.signalAborted, haborted]
    exact h.signal d (hloads ▸ hd)
  case pending =>
    intro d
    rw [hpending, h.nodup.mem_erase_iff, h.pending d, hloads]
    simp only [List.mem_append, List.mem_singleton, not_or, Event.settle.injEq, not_and]
    constructor
    · rintro ⟨hne, hd, hnot⟩
      exact ⟨hd, fun o => ⟨hnot o, fun heq => absurd heq hne⟩⟩
    · rintro ⟨hd, hnot⟩
      exact ⟨fun heq => (hnot outcome).2 heq rfl, hd, fun o => (hnot o).1⟩
  case nodup => rw [hpending]; exact h.nodup.erase c
  case charge =>
    -- no other load is in charge: the completed one was the last, or it was superseded itself
    intro d hd hcharge
    rw [hpending, h.nodup.mem_erase_iff] at hd
    rw [hsup] at hcharge
    have hdlt := ((h.pending d).mp hd.2).1
    have hlast : loads as ≤ d + 1 := by
      by_contra hcon
      exact hcharge (superseded_of_lt (by omega))
    have hover : r.signalAborted c = true := (h.signal c hlt).mpr (superseded_of_lt (by omega))
    rw [Resource.settle_of_aborted hover]
    exact h.charge d hd.2 hcharge
  case settled =>
    intro d o hmem
    rcases List.mem_append.mp hmem with hmem | hmem
    · rw [hloads]
      exact h.settled d o hmem
    · simp only [List.mem_singleton, Event.settle.injEq] at hmem
      rw [hmem.1, hloads]
      exact hlt

theorem Tracks.step {as : List (Event T)} {r s : Resource T} {e : Event T} (h : Tracks as r)
    (hstep : step r e = some s) : Tracks (as ++ [e]) s := by
  cases e with
  | load =>
    obtain rfl : r.load = s := by simpa [Ui.step] using hstep
    exact h.load
  | reset =>
    obtain rfl : r.reset = s := by simpa [Ui.step] using hstep
    exact h.interrupted rfl rfl rfl (by simp [Resource.reset, Resource.dispose])
      (by simp [Resource.reset, Resource.dispose])
  | dispose =>
    obtain rfl : r.dispose = s := by simpa [Ui.step] using hstep
    exact h.interrupted rfl rfl rfl (by simp [Resource.dispose]) (by simp [Resource.dispose])
  | settle c outcome =>
    simp only [Ui.step] at hstep
    split_ifs at hstep with hc
    obtain rfl : (r.settle c outcome).1 = s := by simpa using hstep
    exact h.settle hc outcome

/-- A completion of a superseded load changes nothing that is shown. -/
theorem Tracks.settle_superseded {as : List (Event T)} {r : Resource T} (h : Tracks as r) {c : ℕ}
    (hc : c ∈ r.pending) (hover : Superseded as c) (outcome : Outcome T) :
    (r.settle c outcome).1 = { r with pending := r.pending.erase c } :=
  Resource.settle_of_aborted ((h.signal c ((h.pending c).mp hc).1).mpr hover) outcome

theorem Tracks.settle_charge {as : List (Event T)} {r : Resource T} (h : Tracks as r) {c : ℕ}
    (hc : c ∈ r.pending) (hcharge : ¬ Superseded as c) (outcome : Outcome T) :
    Shows r (r.settle c outcome).1 outcome := by
  have hsignal : r.signalAborted c = false := by
    rw [← Bool.not_eq_true, h.signal c ((h.pending c).mp hc).1]
    exact hcharge
  exact Resource.shows_settle hsignal (h.charge c hc hcharge).1 outcome

/-! ### Resets -/

/-- After its last reset the history completes no load that was started after it. -/
def Emptied (as : List (Event T)) : Prop :=
  ∃ before later, as = before ++ .reset :: later ∧
    ∀ c outcome, Event.settle c outcome ∈ later → c < loads before

theorem emptied_concat {as : List (Event T)} {e : Event T} (h : Emptied (as ++ [e])) :
    e = .reset ∨ (Emptied as ∧ ∀ c outcome, e = .settle c outcome → Superseded as c) := by
  obtain ⟨before, later, heq, hnone⟩ := h
  rcases List.eq_nil_or_concat later with rfl | ⟨later, x, rfl⟩
  · obtain ⟨-, hcons⟩ := List.append_inj' heq (by simp)
    exact .inl (List.cons.inj hcons).1
  · rw [List.concat_eq_append, ← List.cons_append, ← List.append_assoc] at heq
    obtain ⟨rfl, hcons⟩ := List.append_inj' heq rfl
    obtain ⟨rfl, -⟩ := List.cons.inj hcons
    refine .inr ⟨⟨before, later, rfl, fun c o hmem => hnone c o (by simp [hmem])⟩, ?_⟩
    rintro c o rfl
    exact ⟨before, .reset, later, rfl, hnone c o (by simp), rfl⟩

theorem data_step {as : List (Event T)} {r s : Resource T} {e : Event T} (h : Tracks as r)
    (hempty : Emptied as → r.data = none) (hstep : step r e = some s)
    (hlater : Emptied (as ++ [e])) : s.data = none := by
  rcases emptied_concat hlater with rfl | ⟨hbefore, hover⟩
  · obtain rfl : r.reset = s := by simpa [step] using hstep
    rfl
  have hdata := hempty hbefore
  cases e with
  | load =>
    obtain rfl : r.load = s := by simpa [step] using hstep
    simpa [Resource.load] using hdata
  | reset =>
    obtain rfl : r.reset = s := by simpa [step] using hstep
    rfl
  | dispose =>
    obtain rfl : r.dispose = s := by simpa [step] using hstep
    simpa [Resource.dispose] using hdata
  | settle c outcome =>
    simp only [step] at hstep
    split_ifs at hstep with hc
    obtain rfl : (r.settle c outcome).1 = s := by simpa using hstep
    rw [h.settle_superseded hc (hover c outcome rfl)]
    exact hdata

/-- RUN: the invariant holds after every history, and a reset empties `data` until a later load
    completes. -/
theorem run_tracks {as : List (Event T)} {r : Resource T} (h : run step {} as = some r) :
    Tracks as r ∧ (Emptied as → r.data = none) := by
  refine run_inv (I := fun as r => Tracks as r ∧ (Emptied as → r.data = none)) h
    ⟨tracks_nil, fun _ => rfl⟩ ?_
  rintro done e s t ⟨htracks, hempty⟩ hstep
  exact ⟨htracks.step hstep, data_step htracks hempty hstep⟩

/-- STALE RESULTS ARE NEVER SHOWN: after any history the loads that have not completed are pending; the
    completion of a superseded one leaves `data`, `error` and `loading` as they are, that of the load
    in charge shows its outcome; and after a reset `data` is `undefined` until a load that was started
    after it completes. -/
theorem resource_never_stale (as : List (Event T)) (r : Resource T) (h : run step {} as = some r) :
    (∀ c, c ∈ r.pending ↔ c < loads as ∧ ∀ outcome, Event.settle c outcome ∉ as) ∧
    (∀ c outcome s, step r (.settle c outcome) = some s →
      (Superseded as c → s.data = r.data ∧ s.error = r.error ∧ s.loading = r.loading) ∧
      (¬ Superseded as c → Shows r s outcome)) ∧
    (∀ before later, as = before ++ .reset :: later →
      (∀ c outcome, Event.settle c outcome ∈ later → c < loads before) → r.data = none) := by
  obtain ⟨htracks, hempty⟩ := run_tracks h
  refine ⟨htracks.pending, ?_, fun before later heq hnone => hempty ⟨before, later, heq, hnone⟩⟩
  intro c outcome s hstep
  simp only [step] at hstep
  split_ifs at hstep with hc
  obtain rfl : (r.settle c outcome).1 = s := by simpa using hstep
  refine ⟨fun hover => ?_, fun hcharge => htracks.settle_charge hc hcharge outcome⟩
  rw [htracks.settle_superseded hc hover]
  exact ⟨rfl, rfl, rfl⟩

/-- A session is left while it loads, and the next one is shown. -/
def switched : List (Event ℕ) := [.load, .reset, .load, .settle 1 (.resolved (some 7))]

/-- The late response of the session that was left does not replace the one shown. -/
theorem resource_never_stale_switched : ∃ r, run step {} switched = some r ∧ r.data = some 7 ∧
    ∀ s, step r (.settle 0 (.resolved (some 5))) = some s → s.data = some 7 := by
  have hover : Superseded switched 0 := ⟨[.load], .reset, _, rfl, by decide, rfl⟩
  refine ⟨_, rfl, rfl, fun s hs => ?_⟩
  exact (((resource_never_stale switched _ rfl).2.1 0 _ s hs).1 hover).1

end Llmtrace.Ui
