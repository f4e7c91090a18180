import Mathlib

/-! Runs of a partial transition function.

    `step s a = none` says that action `a` is not enabled in `s`. `Reaches step G s t` is a run from
    `s` to `t` each of whose actions meets the guard `G` in the state it is taken in; `run` executes
    a fixed list of actions, and an executed list is a run. `Drains` repeats a round until one of them
    does nothing. -/

namespace Llmtrace.Schemes

variable {σ α : Type*}

/-- A run of `step` in which every action meets `G` in the state before it. -/
inductive Reaches (step : σ → α → Option σ) (G : σ → α → Prop) : σ → σ → Prop
  | refl (s : σ) : Reaches step G s s
  | tail {s t u : σ} {a : α} : Reaches step G s t → G t a → step t a = some u → Reaches step G s u

/-- The guard that admits every action. -/
def anyAct : σ → α → Prop := fun _ _ => True

variable {step : σ → α → Option σ} {G : σ → α → Prop}

/-- INVARIANT RULE: what one guarded step preserves, a whole run preserves. -/
theorem Reaches.inv {I : σ → Prop} (hstep : ∀ s a t, I s → G s a → step s a = some t → I t)
    {s t : σ} (h : Reaches step G s t) (h0 : I s) : I t := by
  induction h with
  | refl => exact h0
  | tail _ hg hst ih => exact hstep _ _ _ ih hg hst

theorem Reaches.trans {s t u : σ} (h : Reaches step G s t) (h' : Reaches step G t u) :
    Reaches step G s u := by
  induction h' with
  | refl => exact h
  | tail _ hg hst ih => exact ih.tail hg hst

/-- Executes the actions in order; `none` as soon as one of them is not enabled. -/
def run (step : σ → α → Option σ) : σ → List α → Option σ
  | s, [] => some s
  | s, a :: as => (step s a).bind fun t => run step t as

theorem run_append (as bs : List α) (s : σ) :
    run step s (as ++ bs) = (run step s as).bind fun t => run step t bs := by
  induction as generalizing s with
  | nil => rfl
  | cons a as ih =>
    rw [List.cons_append, run, run, Option.bind_assoc]
    exact congrArg _ (funext ih)

/-- An executed list of actions that meet the guard in every state is a run. -/
theorem reaches_of_run_guarded : ∀ {as : List α} {s t : σ}, (∀ a ∈ as, ∀ s, G s a) →
    run step s as = some t → Reaches step G s t
  | [], s, t, _, h => by
      simp only [run, Option.some.injEq] at h
      exact h ▸ .refl s
  | a :: as, s, t, hG, h => by
      simp only [run, Option.bind_eq_some_iff] at h
      obtain ⟨u, hu, hrest⟩ := h
      have htail := reaches_of_run_guarded (fun x hx => hG x (List.mem_cons_of_mem _ hx)) hrest
      exact (Reaches.tail (.refl s) (hG a List.mem_cons_self s) hu).trans htail

theorem reaches_of_run {as : List α} {s t : σ} (h : run step s as = some t) :
    Reaches step anyAct s t :=
  reaches_of_run_guarded (fun _ _ _ => trivial) h

/-- A list executed with a check of the guard before every action is a run under the guard. -/
theorem reaches_of_run_if [∀ s a, Decidable (G s a)] : ∀ {as : List α} {s t : σ},
    run (fun s a => if G s a then step s a else none) s as = some t → Reaches step G s t
  | [], s, t, h => by
      simp only [run, Option.some.injEq] at h
      exact h ▸ .refl s
  | a :: as, s, t, h => by
      simp only [run, Option.bind_eq_some_iff, Option.ite_none_right_eq_some] at h
      obtain ⟨u, ⟨hG, hu⟩, hrest⟩ := h
      exact (Reaches.tail (.refl s) hG hu).trans (reaches_of_run_if hrest)

theorem run_inv_from {I : List α → σ → Prop}
    (hstep : ∀ done a s t, I done s → step s a = some t → I (done ++ [a]) t) :
    ∀ {as done : List α} {s t : σ}, I done s → run step s as = some t → I (done ++ as) t
  | [], done, s, t, h0, h => by
      simp only [run, Option.some.injEq] at h
      simpa using h ▸ h0
  | a :: as, done, s, t, h0, h => by
      simp only [run, Option.bind_eq_some_iff] at h
      obtain ⟨u, hu, hrest⟩ := h
      have := run_inv_from hstep (hstep done a s u h0 hu) hrest
      simpa using this

/-- The invariant rule for an executed list: `I done s` may speak of the actions already executed. -/
theorem run_inv {I : List α → σ → Prop} {as : List α} {s t : σ} (h : run step s as = some t)
    (h0 : I [] s) (hstep : ∀ done a s t, I done s → step s a = some t → I (done ++ [a]) t) :
    I as t := by
  simpa using run_inv_from hstep h0 h

/-! ### Rounds until nothing is left -/

/-- Rounds with a count of what each of them did, up to the first that did nothing. -/
inductive Drains (round : σ → ℕ → σ → Prop) : σ → σ → Prop
  | done {s t : σ} : round s 0 t → Drains round s t
  | again {s t u : σ} {n : ℕ} : round s n t → 0 < n → Drains round t u → Drains round s u

section
variable {round : σ → ℕ → σ → Prop} {I : σ → Prop}

/-- ROUND RULE: what a round preserves and what it relates, all the rounds do, and the last of them
    found nothing to do. -/
theorem Drains.rule {R : σ → σ → Prop} (hround : ∀ s n t, I s → round s n t → I t ∧ R s t)
    (htrans : ∀ s t u, R s t → R t u → R s u) {s u : σ} (h : Drains round s u) (hs : I s) :
    R s u ∧ ∃ t, I t ∧ round t 0 u := by
  induction h with
  | done hlast => exact ⟨(hround _ _ _ hs hlast).2, _, hs, hlast⟩
  | again hfirst _ _ ih =>
    obtain ⟨ht, hR⟩ := hround _ _ _ hs hfirst
    obtain ⟨hrest, hlast⟩ := ih ht
    exact ⟨htrans _ _ _ hR hrest, hlast⟩

variable {size : σ → ℕ}

/-- Where each round takes what it counts from a size, the rounds come to an end. -/
theorem exists_drains (hround : ∀ s n t, I s → round s n t → I t ∧ size t + n ≤ size s)
    (htotal : ∀ s, I s → ∃ n t, round s n t) {s : σ} (hs : I s) : ∃ u, Drains round s u := by
  induction hk : size s using Nat.strong_induction_on generalizing s with
  | _ k ih =>
    obtain ⟨n, t, hst⟩ := htotal s hs
    obtain ⟨ht, hsize⟩ := hround s n t hs hst
    rcases Nat.eq_zero_or_pos n with rfl | hn
    · exact ⟨t, .done hst⟩
    · obtain ⟨u, hu⟩ := ih (size t) (by omega) ht rfl
      exact ⟨u, .again hst hn hu⟩

/-- There is no endless sequence of rounds that all do something. -/
theorem no_endless_rounds (hround : ∀ s n t, I s → round s n t → I t ∧ size t + n ≤ size s)
    {f : ℕ → σ} (h0 : I (f 0)) : ¬ ∀ i, ∃ n, 0 < n ∧ round (f i) n (f (i + 1)) := by
  intro hall
  have hstep : ∀ i, I (f i) ∧ size (f i) + i ≤ size (f 0) := by
    intro i
    induction i with
    | zero => exact ⟨h0, le_refl _⟩
    | succ i ih =>
      obtain ⟨n, hn, hst⟩ := hall i
      obtain ⟨hI, hsize⟩ := hround _ _ _ ih.1 hst
      exact ⟨hI, by omega⟩
  have := (hstep (size (f 0) + 1)).2
  omega

end

/-! ### Computations that may fail -/

theorem bind_eq_ok {ε α β : Type} {x : Except ε α} {f : α → Except ε β} {b : β} :
    x >>= f = .ok b ↔ ∃ a, x = .ok a ∧ f a = .ok b := by
  cases x with
  | error e => simp [bind, Except.bind]
  | ok a => simp [bind, Except.bind]

/-- A failure of a sequence is a failure of its first part, or of the second after the first. -/
theorem bind_eq_error {ε α β : Type} {x : Except ε α} {f : α → Except ε β} {e : ε} :
    x >>= f = .error e ↔ x = .error e ∨ ∃ a, x = .ok a ∧ f a = .error e := by
  cases x with
  | error e => simp [bind, Except.bind]
  | ok a => simp [bind, Except.bind]

end Llmtrace.Schemes
