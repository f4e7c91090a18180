import Llmtrace.Schemes.JsValue

/-! `TextDecoder` for UTF-8 with `fatal`, fed chunk by chunk (Encoding Standard, 8.1.1). The decoder
    keeps the character it is in: the bits read so far, how many bytes it needs still, and between
    which bounds the next one has to be. A byte order mark at the start of the text is left out. -/

namespace Llmtrace.Schemes

/-- The state of a streaming decoder. -/
structure TextDecoder where
  codePoint : ℕ := 0
  needed : ℕ := 0
  lower : ℕ := 0x80
  upper : ℕ := 0xBF
  bomSeen : Bool := false

namespace TextDecoder

/-- The decoder between two characters. -/
def idle (bomSeen : Bool) : TextDecoder := { bomSeen }

/-- The code units of a code point. -/
def units (codePoint : ℕ) : JsText :=
  if codePoint < 0x10000 then [codePoint]
  else [0xD800 + (codePoint - 0x10000) / 0x400, 0xDC00 + (codePoint - 0x10000) % 0x400]

/-- A whole code point; the first may be a byte order mark. -/
def emit (d : TextDecoder) (codePoint : ℕ) : TextDecoder × JsText :=
  (idle true, if !d.bomSeen && codePoint = 0xFEFF then [] else units codePoint)

/-- The first byte of a character. -/
def start (d : TextDecoder) (b : ℕ) : Option (TextDecoder × JsText) :=
  if b ≤ 0x7F then some (d.emit b)
  else if 0xC2 ≤ b ∧ b ≤ 0xDF then some ({ d with needed := 1, codePoint := b % 32 }, [])
  else if 0xE0 ≤ b ∧ b ≤ 0xEF then
    some ({ d with
      needed := 2
      codePoint := b % 16
      lower := if b = 0xE0 then 0xA0 else d.lower
      upper := if b = 0xED then 0x9F else d.upper }, [])
  else if 0xF0 ≤ b ∧ b ≤ 0xF4 then
    some ({ d with
      needed := 3
      codePoint := b % 8
      lower := if b = 0xF0 then 0x90 else d.lower
      upper := if b = 0xF4 then 0x8F else d.upper }, [])
  else none

/-- A further byte of a character. -/
def proceed (d : TextDecoder) (b : ℕ) : Option (TextDecoder × JsText) :=
  if d.lower ≤ b ∧ b ≤ d.upper then
    let codePoint := 64 * d.codePoint + b % 64
    if d.needed = 1 then some (d.emit codePoint)
    else some ({ d with codePoint, needed := d.needed - 1, lower := 0x80, upper := 0xBF }, [])
  else none

/-- A byte is read. -/
def step (d : TextDecoder) (b : UInt8) : Option (TextDecoder × JsText) :=
  if d.needed = 0 then d.start b.toNat else d.proceed b.toNat

/-- `decode(bytes, { stream: true })`; nothing where it throws. -/
def decode : TextDecoder → Bytes → Option (TextDecoder × JsText)
  | d, [] => some (d, [])
  | d, b :: bytes => (d.step b).bind fun r => (decode r.1 bytes).map fun s => (s.1, r.2 ++ s.2)

theorem decode_append (bytes more : Bytes) (d : TextDecoder) : d.decode (bytes ++ more) =
    (d.decode bytes).bind fun r => (r.1.decode more).map fun s => (s.1, r.2 ++ s.2) := by
  induction bytes generalizing d with
  | nil => simp [decode]
  | cons b bytes ih =>
    rw [List.cons_append, decode, decode]
    cases d.step b with
    | none => rfl
    | some r =>
      rw [Option.bind_some, Option.bind_some, ih]
      cases r.1.decode bytes with
      | none => rfl
      | some s =>
        simp only [Option.bind_some, Option.map_some, Option.map_map, Function.comp_def,
          List.append_assoc]

/-- Chunk by chunk the decoder gives the text of all the bytes. -/
theorem decode_of_append {d d' d'' : TextDecoder} {bytes more : Bytes} {text text' : JsText}
    (h : d.decode bytes = some (d', text)) (h' : d'.decode more = some (d'', text')) :
    d.decode (bytes ++ more) = some (d'', text ++ text') := by
  rw [decode_append, h, Option.bind_some, h', Option.map_some]

/-! ### Characters -/

theorem emit_char (m : Bool) (c : Char) (hc : m = true ∨ c.toNat ≠ 0xFEFF) :
    (idle m).emit c.toNat = (idle true, utf16 c) := by
  have hbom : (!m && decide (c.toNat = 0xFEFF)) = false := by
    rcases hc with rfl | hc
    · rfl
    · rw [decide_eq_false hc, Bool.and_false]
  exact Prod.ext rfl (if_neg (by rw [idle, hbom]; decide))

theorem toNat_ofNat {n : ℕ} (h : n < 256) : (UInt8.ofNat n).toNat = n := by
  rw [UInt8.toNat_ofNat']
  exact Nat.mod_eq_of_lt h

theorem step_idle (m : Bool) (b : UInt8) : (idle m).step b = (idle m).start b.toNat := rfl

theorem step_ascii (m : Bool) {n : ℕ} (h : n ≤ 0x7F) :
    (idle m).step (UInt8.ofNat n) = some ((idle m).emit n) := by
  rw [step_idle, toNat_ofNat (by omega), start, if_pos h]

theorem step_two (m : Bool) {n : ℕ} (h : 0x7F < n) (h' : n ≤ 0x7FF) :
    (idle m).step (UInt8.ofNat (n / 64 % 0x20 + 0xC0)) =
      some ({ codePoint := n / 64, needed := 1, bomSeen := m }, []) := by
  rw [step_idle, toNat_ofNat (by omega), start, if_neg (by omega), if_pos (by omega)]
  have hbits : (n / 64 % 0x20 + 0xC0) % 32 = n / 64 := by omega
  rw [hbits]
  rfl

theorem step_three (m : Bool) {n : ℕ} (h : 0x7FF < n) (h' : n ≤ 0xFFFF) :
    (idle m).step (UInt8.ofNat (n / 4096 % 0x10 + 0xE0)) =
      some ({ codePoint := n / 4096, needed := 2, lower := if n / 4096 = 0 then 0xA0 else 0x80,
              upper := if n / 4096 = 13 then 0x9F else 0xBF, bomSeen := m }, []) := by
  rw [step_idle, toNat_ofNat (by omega), start, if_neg (by omega), if_neg (by omega),
    if_pos (by omega)]
  have hbits : (n / 4096 % 0x10 + 0xE0) % 16 = n / 4096 := by omega
  have hfirst : n / 4096 % 0x10 + 0xE0 = 0xE0 ↔ n / 4096 = 0 := by omega
  have hsurrogate : n / 4096 % 0x10 + 0xE0 = 0xED ↔ n / 4096 = 13 := by omega
  simp only [hbits, hfirst, hsurrogate, idle]

theorem step_four (m : Bool) {n : ℕ} (h : 0xFFFF < n) (h' : n < 0x110000) :
    (idle m).step (UInt8.ofNat (n / 262144 % 0x08 + 0xF0)) =
      some ({ codePoint := n / 262144, needed := 3, lower := if n / 262144 = 0 then 0x90 else 0x80,
              upper := if n / 262144 = 4 then 0x8F else 0xBF, bomSeen := m }, []) := by
  rw [step_idle, toNat_ofNat (by omega), start, if_neg (by omega), if_neg (by omega),
    if_neg (by omega), if_pos (by omega)]
  have hbits : (n / 262144 % 0x08 + 0xF0) % 8 = n / 262144 := by omega
  have hfirst : n / 262144 % 0x08 + 0xF0 = 0xF0 ↔ n / 262144 = 0 := by omega
  have hlast : n / 262144 % 0x08 + 0xF0 = 0xF4 ↔ n / 262144 = 4 := by omega
  simp only [hbits, hfirst, hlast, idle]

/-- The last byte of a character. -/
theorem step_last {m : Bool} {lower upper n : ℕ} (hlower : lower ≤ n % 64 + 0x80)
    (hupper : n % 64 + 0x80 ≤ upper) :
    ({ codePoint := n / 64, needed := 1, lower, upper, bomSeen := m } : TextDecoder).step
      (UInt8.ofNat (n % 0x40 + 0x80)) = some ((idle m).emit n) := by
  rw [step, if_neg (Nat.succ_ne_zero _), toNat_ofNat (by omega), proceed, if_pos ⟨hlower, hupper⟩]
  have hbits : 64 * (n / 64) + (n % 0x40 + 0x80) % 64 = n := by omega
  simp only [hbits, if_true]
  rfl

/-- A byte of a character that is not its first or its last. -/
theorem step_inner {m : Bool} {lower upper n k : ℕ} (hlower : lower ≤ n % 64 + 0x80)
    (hupper : n % 64 + 0x80 ≤ upper) :
    ({ codePoint := n / 64, needed := k + 2, lower, upper, bomSeen := m } : TextDecoder).step
      (UInt8.ofNat (n % 0x40 + 0x80)) =
      some ({ codePoint := n, needed := k + 1, bomSeen := m }, []) := by
  rw [step, if_neg (Nat.succ_ne_zero _), toNat_ofNat (by omega), proceed, if_pos ⟨hlower, hupper⟩]
  have hbits : 64 * (n / 64) + (n % 0x40 + 0x80) % 64 = n := by omega
  simp only [hbits]
  rw [if_neg (by omega)]
  rfl

/-- The bytes lead from `d` to the result, and no proper part of them ends between two characters. -/
structure Completes (d : TextDecoder) (bytes : Bytes) (result : TextDecoder × JsText) : Prop where
  whole : d.decode bytes = some result
  part {front back : Bytes} : front ++ back = bytes → back ≠ [] →
    ∃ d', d.decode front = some (d', []) ∧ (front = [] ∨ d'.needed ≠ 0)

theorem Completes.last {d : TextDecoder} {b : UInt8} {result : TextDecoder × JsText}
    (h : d.step b = some result) : Completes d [b] result where
  whole := by simp [decode, h]
  part {front back} hcut hback := by
    cases front with
    | nil => exact ⟨d, rfl, .inl rfl⟩
    | cons c front =>
      have hnil : front ++ back = [] := (List.cons.inj hcut).2
      exact absurd (List.append_eq_nil_iff.mp hnil).2 hback

theorem Completes.cons {d d' : TextDecoder} {b : UInt8} {bytes : Bytes} {result : TextDecoder × JsText}
    (h : d.step b = some (d', [])) (hneeded : d'.needed ≠ 0) (hrest : Completes d' bytes result) :
    Completes d (b :: bytes) result where
  whole := by simp [decode, h, hrest.whole]
  part {front back} hcut hback := by
    cases front with
    | nil => exact ⟨d, rfl, .inl rfl⟩
    | cons c front =>
      obtain ⟨rfl, hrest'⟩ := List.cons.inj hcut
      obtain ⟨d'', hfront, hend⟩ := hrest.part hrest' hback
      refine ⟨d'', by simp [decode, h, hfront], .inr ?_⟩
      rcases hend with rfl | hend
      · cases hfront
        exact hneeded
      · exact hend

/-- The bytes of a character are complete only all together. -/
theorem completes_char (m : Bool) (c : Char) :
    Completes (idle m) (String.utf8EncodeChar c) ((idle m).emit c.toNat) := by
  have hvalid := char_toNat_lt c
  have hval : c.val.toNat = c.toNat := rfl
  rw [String.utf8EncodeChar]
  simp only [hval]
  generalize c.toNat = n at hvalid ⊢
  split_ifs with h₁ h₂ h₃
  · exact .last (step_ascii m h₁)
  · exact .cons (step_two m (by omega) h₂) one_ne_zero (.last (step_last (by omega) (by omega)))
  · have hlower : (if n / 4096 = 0 then 0xA0 else 0x80) ≤ n / 64 % 64 + 0x80 := by
      split_ifs <;> omega
    have hupper : n / 64 % 64 + 0x80 ≤ if n / 4096 = 13 then 0x9F else 0xBF := by
      split_ifs <;> omega
    have hbits : n / 4096 = n / 64 / 64 := by omega
    refine .cons (step_three m (by omega) h₃) two_ne_zero ?_
    rw [hbits] at hlower hupper ⊢
    exact .cons (step_inner hlower hupper) one_ne_zero (.last (step_last (by omega) (by omega)))
  · have hlower : (if n / 262144 = 0 then 0x90 else 0x80) ≤ n / 4096 % 64 + 0x80 := by
      split_ifs <;> omega
    have hupper : n / 4096 % 64 + 0x80 ≤ if n / 262144 = 4 then 0x8F else 0xBF := by
      split_ifs <;> omega
    have hbits : n / 262144 = n / 4096 / 64 := by omega
    have hbits' : n / 4096 = n / 64 / 64 := by omega
    refine .cons (step_four m (by omega) (by omega)) three_ne_zero ?_
    rw [hbits] at hlower hupper ⊢
    refine .cons (step_inner hlower hupper) two_ne_zero ?_
    rw [hbits']
    exact .cons (step_inner (by omega) (by omega)) one_ne_zero (.last (step_last (by omega) (by omega)))

/-! ### Texts -/

/-- The decoder is behind the first character, or this is not a byte order mark. -/
def Started (m : Bool) (s : List Char) : Prop := m = true ∨ ∀ c ∈ s.head?, c.toNat ≠ 0xFEFF

theorem completes_first {m : Bool} {c : Char} {s : List Char} (h : Started m (c :: s)) :
    Completes (idle m) (String.utf8EncodeChar c) (idle true, utf16 c) := by
  have hchar := completes_char m c
  rwa [emit_char m c (h.imp_right fun hc => hc c rfl)] at hchar

theorem decode_utf8 {m : Bool} {c : Char} {s : List Char} (h : Started m (c :: s)) :
    (idle m).decode (utf8 (c :: s)) = some (idle true, jsChars (c :: s)) := by
  induction s generalizing m c with
  | nil =>
    have hone : utf8 [c] = String.utf8EncodeChar c := List.append_nil _
    rw [hone, (completes_first h).whole, jsChars_cons]
    simp [jsChars]
  | cons d s ih => exact decode_of_append (completes_first h).whole (ih (.inl rfl))

/-- Bytes at the front of a text either are a text or end inside a character. -/
theorem decode_front {m : Bool} {s : List Char} (hm : Started m s) {front back : Bytes}
    (h : front ++ back = utf8 s) : ∃ d t, (idle m).decode front = some (d, jsChars t) ∧
      (d.needed = 0 → front = utf8 t ∧ ∃ rest, s = t ++ rest) := by
  induction s generalizing m front with
  | nil =>
    obtain ⟨rfl, -⟩ := List.append_eq_nil_iff.mp h
    exact ⟨idle m, [], rfl, fun _ => ⟨rfl, [], rfl⟩⟩
  | cons c s ih =>
    have hchar := completes_first hm
    have hsplit : front ++ back = String.utf8EncodeChar c ++ utf8 s := h
    rcases List.append_eq_append_iff.mp hsplit with ⟨mid, hmid, -⟩ | ⟨mid, rfl, hmid⟩
    · by_cases hnil : mid = []
      · -- the cut is right behind the character
        subst hnil
        rw [List.append_nil] at hmid
        refine ⟨idle true, [c], ?_, fun _ => ⟨?_, s, rfl⟩⟩
        · rw [← hmid, hchar.whole, jsChars_cons]
          simp [jsChars]
        · simp [utf8, hmid]
      · obtain ⟨d, hfront, hend⟩ := hchar.part hmid.symm hnil
        refine ⟨d, [], hfront, fun hneeded => ?_⟩
        rcases hend with rfl | hend
        · exact ⟨rfl, c :: s, rfl⟩
        · exact absurd hneeded hend
    · obtain ⟨d, t, hdecode, hend⟩ := ih (.inl rfl) hmid.symm
      refine ⟨d, c :: t, decode_of_append hchar.whole hdecode, fun hneeded => ?_⟩
      obtain ⟨rfl, rest, rfl⟩ := hend hneeded
      exact ⟨rfl, rest, rfl⟩

end TextDecoder
end Llmtrace.Schemes
