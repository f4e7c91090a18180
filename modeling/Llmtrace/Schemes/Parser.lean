import Mathlib.Data.List.Basic
import Mathlib.Order.Nat
import Mathlib.Tactic.Common

/-! Parsers that read a list of tokens from the front. What a parser does is said in two ways:
    `Ensures` of every run that succeeds, and `Yields` of the run on tokens that look as given, where
    `view` keeps what the parser looks at. A loop has a number of rounds as its fuel. -/

namespace Llmtrace.Schemes

/-- Reads from a list of tokens, or fails. -/
abbrev Parser (τ ε α : Type) := StateT (List τ) (Except ε) α

namespace Parser
variable {τ ε α β γ : Type}

theorem bind_apply (p : Parser τ ε α) (f : α → Parser τ ε β) (ts : List τ) :
    (p >>= f) ts = (p ts).bind fun r => f r.1 r.2 := rfl

theorem bind_ok {p : Parser τ ε α} {f : α → Parser τ ε β} {ts rest : List τ} {b : β}
    (h : (p >>= f) ts = .ok (b, rest)) : ∃ a mid, p ts = .ok (a, mid) ∧ f a mid = .ok (b, rest) := by
  rw [bind_apply] at h
  cases hp : p ts with
  | error e => rw [hp] at h; cases h
  | ok r => rw [hp] at h; exact ⟨r.1, r.2, rfl, h⟩

/-! ### Results -/

/-- Whatever the parser returns has a property. -/
def Ensures (p : Parser τ ε α) (Q : α → Prop) : Prop := ∀ ts a rest, p ts = .ok (a, rest) → Q a

theorem Ensures.bind {p : Parser τ ε α} {f : α → Parser τ ε β} {Q : α → Prop} {R : β → Prop}
    (hp : Ensures p Q) (hf : ∀ a, Q a → Ensures (f a) R) : Ensures (p >>= f) R := by
  intro ts b rest h
  obtain ⟨a, mid, ha, hb⟩ := bind_ok h
  exact hf a (hp ts a mid ha) mid b rest hb

theorem Ensures.pure {a : α} {Q : α → Prop} (h : Q a) : Ensures (pure a : Parser τ ε α) Q := by
  intro ts b rest hb
  cases hb
  exact h

theorem Ensures.any (p : Parser τ ε α) : Ensures p fun _ => True := fun _ _ _ _ => trivial

/-! ### Runs on given tokens -/

/-- On tokens of this look the parser succeeds, and leaves the rest. -/
def Yields (view : τ → γ) (p : Parser τ ε α) (given : List γ) (Q : α → Prop) (left : List γ) : Prop :=
  ∀ ts, ts.map view = given → ∃ a rest, p ts = .ok (a, rest) ∧ Q a ∧ rest.map view = left

section
variable {view : τ → γ} {given mid left : List γ}

theorem Yields.bind {p : Parser τ ε α} {f : α → Parser τ ε β} {Q : α → Prop} {R : β → Prop}
    (hp : Yields view p given Q mid) (hf : ∀ a, Q a → Yields view (f a) mid R left) :
    Yields view (p >>= f) given R left := by
  intro ts hts
  obtain ⟨a, ts₁, h₁, ha, hview₁⟩ := hp ts hts
  obtain ⟨b, ts₂, h₂, hb, hview₂⟩ := hf a ha ts₁ hview₁
  refine ⟨b, ts₂, ?_, hb, hview₂⟩
  rw [bind_apply, h₁]
  exact h₂

/-- The rule for a result that is known. -/
theorem Yields.bind_eq {p : Parser τ ε α} {f : α → Parser τ ε β} {a : α} {R : β → Prop}
    (hp : Yields view p given (· = a) mid) (hf : Yields view (f a) mid R left) :
    Yields view (p >>= f) given R left :=
  hp.bind fun _ ha => ha ▸ hf

theorem Yields.pure {a : α} {Q : α → Prop} (h : Q a) :
    Yields view (pure a : Parser τ ε α) given Q given := fun ts hts => ⟨a, ts, rfl, h, hts⟩

end

/-! ### `do { … } while ( … )` -/

/-- The loop with at most `n` rounds after the first. -/
def doWhile (body : Parser τ ε α) (more : Parser τ ε Bool) : ℕ → Parser τ ε (List α)
  | 0 => do
    let a ← body
    return [a]
  | n + 1 => do
    let a ← body
    let again ← more
    if again then do
      let as ← doWhile body more n
      return a :: as
    else return [a]

/-- A round for every token is enough. -/
def repeatWhile (body : Parser τ ε α) (more : Parser τ ε Bool) : Parser τ ε (List α) :=
  fun ts => doWhile body more ts.length ts

variable {body : Parser τ ε α} {more : Parser τ ε Bool}

theorem ensures_doWhile {Q : α → Prop} (hbody : Ensures body Q) :
    ∀ n, Ensures (doWhile body more n) fun as => as ≠ [] ∧ ∀ a ∈ as, Q a := by
  intro n
  induction n with
  | zero =>
    refine hbody.bind fun a ha => Ensures.pure ⟨by simp, ?_⟩
    simpa using ha
  | succ n ih =>
    refine hbody.bind fun a ha => (Ensures.any more).bind fun again _ => ?_
    split
    · refine ih.bind fun as has => Ensures.pure ⟨by simp, ?_⟩
      simpa using ⟨ha, has.2⟩
    · refine Ensures.pure ⟨by simp, ?_⟩
      simpa using ha

theorem ensures_repeatWhile {Q : α → Prop} (hbody : Ensures body Q) :
    Ensures (repeatWhile body more) fun as => as ≠ [] ∧ ∀ a ∈ as, Q a :=
  fun ts => ensures_doWhile hbody ts.length ts

/-- The tokens of a list whose items are separated. -/
def separated (item : α → List γ) (separator : List γ) : List α → List γ
  | [] => []
  | [a] => item a
  | a :: as => item a ++ separator ++ separated item separator as

/-- The loop reads a separated list back, whatever follows it. -/
theorem yields_doWhile {ι : Type} {R : ι → α → Prop} {view : τ → γ} {item : ι → List γ}
    {separator left : List γ}
    (hmore : ∀ rest, Yields view more (separator ++ rest) (· = true) rest)
    (hstop : Yields view more left (· = false) left) : ∀ {xs : List ι} {n : ℕ}, xs ≠ [] → xs.length ≤ n →
    (∀ x ∈ xs, ∀ rest, Yields view body (item x ++ rest) (R x) rest) →
    Yields view (doWhile body more n) (separated item separator xs ++ left) (List.Forall₂ R xs) left := by
  intro xs
  induction xs with
  | nil => exact fun h => absurd rfl h
  | cons x xs ih =>
    intro n _ hn hbody
    obtain ⟨n, rfl⟩ : ∃ m, n = m + 1 := ⟨n - 1, by rw [List.length_cons] at hn; omega⟩
    rw [doWhile]
    cases xs with
    | nil =>
      refine (hbody x List.mem_cons_self left).bind fun a ha => hstop.bind_eq ?_
      exact Yields.pure (.cons ha .nil)
    | cons y xs =>
      rw [separated, List.append_assoc, List.append_assoc]
      · refine (hbody x List.mem_cons_self _).bind fun a ha => (hmore _).bind_eq ?_
        refine (ih (List.cons_ne_nil _ _) (by simpa using hn) ?_).bind fun as has =>
          Yields.pure (.cons ha has)
        exact fun z hz => hbody z (List.mem_cons_of_mem _ hz)
      · exact List.cons_ne_nil _ _

theorem length_separated_le {item : α → List γ} (separator : List γ) (hitem : ∀ a, item a ≠ []) :
    ∀ as : List α, as.length ≤ (separated item separator as).length
  | [] => le_rfl
  | [a] => List.length_pos_iff.mpr (hitem a)
  | a :: b :: as => by
    have ih := length_separated_le separator hitem (b :: as)
    have ha := List.length_pos_iff.mpr (hitem a)
    rw [separated]
    · simp only [List.length_append, List.length_cons] at ih ⊢
      omega
    · exact List.cons_ne_nil _ _

theorem yields_repeatWhile {ι : Type} {R : ι → α → Prop} {view : τ → γ} {item : ι → List γ}
    {separator left : List γ} (hitem : ∀ x, item x ≠ [])
    (hmore : ∀ rest, Yields view more (separator ++ rest) (· = true) rest)
    (hstop : Yields view more left (· = false) left) {xs : List ι} (hxs : xs ≠ [])
    (hbody : ∀ x ∈ xs, ∀ rest, Yields view body (item x ++ rest) (R x) rest) :
    Yields view (repeatWhile body more) (separated item separator xs ++ left) (List.Forall₂ R xs) left := by
  intro ts hts
  have hlen : xs.length ≤ ts.length := by
    have := congrArg List.length hts
    rw [List.length_map, List.length_append] at this
    exact (length_separated_le separator hitem xs).trans (by omega)
  exact yields_doWhile hmore hstop hxs hlen hbody ts hts

end Parser
end Llmtrace.Schemes
