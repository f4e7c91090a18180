import Llmtrace.Schemes.Word

/-! Linear memory: a byte string that is read and written by offset and length, where every access out of
    range fails. -/

namespace Llmtrace.Schemes

/-- `bytes` put over what stands at `offset`; the memory does not grow. -/
def overwrite (memory : Bytes) (offset : ℕ) (bytes : Bytes) : Option Bytes :=
  if offset + bytes.length ≤ memory.length then
    some (memory.take offset ++ bytes ++ memory.drop (offset + bytes.length))
  else none

variable {memory memory' bytes : Bytes} {offset : ℕ}

theorem overwrite_eq_some : overwrite memory offset bytes = some memory' ↔
    offset + bytes.length ≤ memory.length ∧
      memory' = memory.take offset ++ bytes ++ memory.drop (offset + bytes.length) := by
  rw [overwrite]
  split
  · rename_i hfits
    simp only [Option.some.injEq, hfits, true_and]
    exact eq_comm
  · rename_i hfits
    simp [hfits]

theorem overwrite_length (h : overwrite memory offset bytes = some memory') :
    memory'.length = memory.length := by
  obtain ⟨hfits, rfl⟩ := overwrite_eq_some.mp h
  simp only [List.length_append, List.length_take, List.length_drop]
  omega

/-- FRAME: a byte outside of what was written stays. -/
theorem overwrite_frame (h : overwrite memory offset bytes = some memory') {i : ℕ}
    (hi : i < offset ∨ offset + bytes.length ≤ i) : memory'[i]? = memory[i]? := by
  obtain ⟨hfits, rfl⟩ := overwrite_eq_some.mp h
  have htake : (memory.take offset).length = offset := List.length_take_of_le (by omega)
  rcases hi with hi | hi
  · rw [List.append_assoc, List.getElem?_append_left (by omega), List.getElem?_take_of_lt hi]
  · rw [List.getElem?_append_right (by rw [List.length_append]; omega), List.length_append, htake,
      List.getElem?_drop, Nat.add_sub_cancel' hi]

end Llmtrace.Schemes
