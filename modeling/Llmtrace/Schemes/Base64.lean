import Llmtrace.Schemes.Word

/-! Base64 with the standard alphabet and padding (RFC 4648): three bytes are four digits of six bits,
    and a shorter end is filled up with `=`. The URL-safe form has other last two digits and no `=`. -/

namespace Llmtrace.Schemes
namespace Base64

/-- The 64 characters of the standard alphabet. -/
def alphabet : List Char :=
  "ABCDEFGHIJKLMNOPQRSTUVWXYZabcdefghijklmnopqrstuvwxyz0123456789+/".toList

/-- The character of a digit. -/
def digit (n : ℕ) : Char := alphabet.getD n '='

/-- The value of a digit. -/
def value (c : Char) : Option ℕ := if c ∈ alphabet then some (alphabet.idxOf c) else none

/-- Three bytes give four characters; the last group is padded. -/
def encode : Bytes → List Char
  | [] => []
  | [a] => [digit (a.toNat / 4), digit (a.toNat % 4 * 16), '=', '=']
  | [a, b] =>
    [digit (a.toNat / 4), digit (a.toNat % 4 * 16 + b.toNat / 16), digit (b.toNat % 16 * 4), '=']
  | a :: b :: c :: rest =>
    digit (a.toNat / 4) :: digit (a.toNat % 4 * 16 + b.toNat / 16) ::
      digit (b.toNat % 16 * 4 + c.toNat / 64) :: digit (c.toNat % 64) :: encode rest

/-- The bytes of a text; the bits behind the last byte must be zero. -/
def decode : List Char → Option Bytes
  | [] => some []
  | [w, x, '=', '='] => do
    let w ← value w
    let x ← value x
    if x % 16 = 0 then some [UInt8.ofNat (w * 4 + x / 16)] else none
  | [w, x, y, '='] => do
    let w ← value w
    let x ← value x
    let y ← value y
    if y % 4 = 0 then some [UInt8.ofNat (w * 4 + x / 16), UInt8.ofNat (x % 16 * 16 + y / 4)] else none
  | w :: x :: y :: z :: rest => do
    let w ← value w
    let x ← value x
    let y ← value y
    let z ← value z
    let bytes ← decode rest
    return UInt8.ofNat (w * 4 + x / 16) :: UInt8.ofNat (x % 16 * 16 + y / 4) ::
      UInt8.ofNat (y % 4 * 64 + z) :: bytes
  | _ => none

/-- The character in the alphabet for URLs. -/
def urlSafe (c : Char) : Char := if c = '+' then '-' else if c = '/' then '_' else c

/-- The standard digit behind a URL-safe one. -/
def standard (c : Char) : Char := if c = '-' then '+' else if c = '_' then '/' else c

/-- The sixty-four digits, one by one. -/
theorem digit_spec : ∀ n < 64, value (digit n) = some n ∧ digit n ≠ '=' ∧
    standard (urlSafe (digit n)) = digit n ∧ ((urlSafe (digit n)).isAlphanum = true ∨
      urlSafe (digit n) = '-' ∨ urlSafe (digit n) = '_') := by
  decide +kernel

theorem value_digit {n : ℕ} (h : n < 64) : value (digit n) = some n := (digit_spec n h).1

theorem digit_ne_pad {n : ℕ} (h : n < 64) : digit n ≠ '=' := (digit_spec n h).2.1

theorem ofNat_eq {n : ℕ} {b : UInt8} (h : n = b.toNat) : UInt8.ofNat n = b := by
  rw [h, UInt8.ofNat_toNat]

theorem decode_encode : ∀ bs : Bytes, decode (encode bs) = some bs
  | [] => rfl
  | [a] => by
    have ha := a.toNat_lt
    rw [encode, decode, value_digit (by omega), value_digit (by omega)]
    simp only [bind, Option.bind]
    rw [if_pos (by omega), ofNat_eq (show _ = a.toNat by omega)]
  | [a, b] => by
    have ha := a.toNat_lt
    have hb := b.toNat_lt
    rw [encode, decode, value_digit (by omega), value_digit (by omega), value_digit (by omega)]
    · simp only [bind, Option.bind]
      rw [if_pos (by omega), ofNat_eq (show _ = a.toNat by omega), ofNat_eq (show _ = b.toNat by omega)]
    · exact fun h => digit_ne_pad (by omega) h
  | a :: b :: c :: rest => by
    have ha := a.toNat_lt
    have hb := b.toNat_lt
    have hc := c.toNat_lt
    have hpad := digit_ne_pad (show c.toNat % 64 < 64 by omega)
    rw [encode, decode, value_digit (by omega), value_digit (by omega), value_digit (by omega),
      value_digit (by omega), decode_encode rest]
    · simp only [bind, Option.bind, pure]
      rw [ofNat_eq (show _ = a.toNat by omega), ofNat_eq (show _ = b.toNat by omega),
        ofNat_eq (show _ = c.toNat by omega)]
    · exact fun _ h => absurd h hpad
    · exact fun h => absurd h hpad

/-! ### The URL-safe alphabet without padding -/

/-- The digits of a text, without its padding. -/
def digits (bs : Bytes) : List Char := (encode bs).filter fun c => decide (c ≠ '=')

/-- RFC 4648, section 5: other signs for the last two digits, and no padding. -/
def encodeUrlSafe (bs : Bytes) : List Char := (digits bs).map urlSafe

/-- A sign that stands for six bits. -/
def IsDigit (c : Char) : Prop := ∃ n < 64, c = digit n

theorem standard_urlSafe {c : Char} (h : IsDigit c) : standard (urlSafe c) = c := by
  obtain ⟨n, hn, rfl⟩ := h
  exact (digit_spec n hn).2.2.1

theorem digits_cons {a b c : UInt8} (rest : Bytes) : digits (a :: b :: c :: rest) =
    digit (a.toNat / 4) :: digit (a.toNat % 4 * 16 + b.toNat / 16) ::
      digit (b.toNat % 16 * 4 + c.toNat / 64) :: digit (c.toNat % 64) :: digits rest := by
  have ha := a.toNat_lt
  have hb := b.toNat_lt
  have hc := c.toNat_lt
  have hd : ∀ {n : ℕ} {s : List Char}, n < 64 →
      (digit n :: s).filter (fun c => decide (c ≠ '=')) = digit n :: s.filter fun c => decide (c ≠ '=') :=
    fun h => List.filter_cons_of_pos (by simpa using digit_ne_pad h)
  rw [digits, encode, hd (by omega), hd (by omega), hd (by omega), hd (by omega), digits]

/-- The digits, their number, and the padding that was dropped. -/
theorem digits_spec : ∀ bs : Bytes, (digits bs).length = (8 * bs.length + 5) / 6 ∧
    (∀ c ∈ digits bs, IsDigit c) ∧
    encode bs = digits bs ++ List.replicate ((3 - bs.length % 3) % 3) '='
  | [] => by simp [digits, encode]
  | [a] => by
    have ha := a.toNat_lt
    have h1 := digit_ne_pad (show a.toNat / 4 < 64 by omega)
    have h2 := digit_ne_pad (show a.toNat % 4 * 16 < 64 by omega)
    have h : digits [a] = [digit (a.toNat / 4), digit (a.toNat % 4 * 16)] := by
      simp [digits, encode, h1, h2]
    rw [h]
    refine ⟨by simp, fun c hc => ?_, rfl⟩
    simp only [List.mem_cons, List.not_mem_nil, or_false] at hc
    rcases hc with rfl | rfl
    · exact ⟨_, by omega, rfl⟩
    · exact ⟨_, by omega, rfl⟩
  | [a, b] => by
    have ha := a.toNat_lt
    have hb := b.toNat_lt
    have h1 := digit_ne_pad (show a.toNat / 4 < 64 by omega)
    have h2 := digit_ne_pad (show a.toNat % 4 * 16 + b.toNat / 16 < 64 by omega)
    have h3 := digit_ne_pad (show b.toNat % 16 * 4 < 64 by omega)
    have h : digits [a, b] = [digit (a.toNat / 4), digit (a.toNat % 4 * 16 + b.toNat / 16),
        digit (b.toNat % 16 * 4)] := by
      simp [digits, encode, h1, h2, h3]
    rw [h]
    refine ⟨by simp, fun c hc => ?_, rfl⟩
    simp only [List.mem_cons, List.not_mem_nil, or_false] at hc
    rcases hc with rfl | rfl | rfl
    · exact ⟨_, by omega, rfl⟩
    · exact ⟨_, by omega, rfl⟩
    · exact ⟨_, by omega, rfl⟩
  | a :: b :: c :: rest => by
    obtain ⟨hlen, hmem, hpad⟩ := digits_spec rest
    have ha := a.toNat_lt
    have hb := b.toNat_lt
    have hc := c.toNat_lt
    rw [digits_cons]
    refine ⟨?_, fun d hd => ?_, ?_⟩
    · simp only [List.length_cons, hlen]
      omega
    · simp only [List.mem_cons] at hd
      rcases hd with rfl | rfl | rfl | rfl | hd
      · exact ⟨_, by omega, rfl⟩
      · exact ⟨_, by omega, rfl⟩
      · exact ⟨_, by omega, rfl⟩
      · exact ⟨_, by omega, rfl⟩
      · exact hmem d hd
    · have hmod : (rest.length + 1 + 1 + 1) % 3 = rest.length % 3 := by omega
      simp only [List.length_cons, hmod, encode, List.cons_append, hpad]

theorem encodeUrlSafe_length (bs : Bytes) : (encodeUrlSafe bs).length = (8 * bs.length + 5) / 6 := by
  rw [encodeUrlSafe, List.length_map, (digits_spec bs).1]

theorem encodeUrlSafe_injective : Function.Injective encodeUrlSafe := by
  intro bs bs' h
  have hlen : bs.length = bs'.length := by
    have := congrArg List.length h
    rw [encodeUrlSafe_length, encodeUrlSafe_length] at this
    omega
  have hback : ∀ cs : Bytes, (encodeUrlSafe cs).map standard = digits cs := by
    intro cs
    rw [encodeUrlSafe, List.map_map]
    exact (List.map_congr_left fun c hc => standard_urlSafe ((digits_spec cs).2.1 c hc)).trans
      (List.map_id _)
  have hdigits : digits bs = digits bs' := by rw [← hback, h, hback]
  have henc : encode bs = encode bs' := by
    rw [(digits_spec bs).2.2, (digits_spec bs').2.2, hdigits, hlen]
  have := decode_encode bs
  rw [henc, decode_encode, Option.some.injEq] at this
  exact this.symm

/-- The signs of a URL-safe text. -/
theorem mem_encodeUrlSafe {bs : Bytes} {c : Char} (h : c ∈ encodeUrlSafe bs) :
    c.isAlphanum = true ∨ c = '-' ∨ c = '_' := by
  obtain ⟨d, hd, rfl⟩ := List.mem_map.mp h
  obtain ⟨n, hn, rfl⟩ := (digits_spec bs).2.1 d hd
  exact (digit_spec n hn).2.2.2

end Base64
end Llmtrace.Schemes
