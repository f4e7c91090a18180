import Llmtrace.Storage.Bodies

/-! Reading bodies back from whatever is stored (`decode_bodies` in `bodies.rs`): segments may be missing,
    come in any order, fail to decode or decode to anything. A body with a record is returned only if
    it is the recorded one; a body without a record comes from the columns of the trace. -/

namespace Llmtrace.Storage
open Schemes

/-! ### What the segments yield for a record -/

section
variable (lib : ArchiveLib) (decode : BodySegment → Except ReadError Bytes)

/-- The body that a segment holds for a record. -/
def bodyIn (r : BodyRecord) (s : BodySegment) : Option Bytes :=
  if r.segmentId = s.id then
    (decode s).toOption.bind fun bytes => (readRecord lib bytes r).toOption
  else none

/-- What the loop finds for a record, in its order. -/
def found (r : BodyRecord) (segments : List BodySegment) : List Bytes :=
  segments.filterMap (bodyIn lib decode r)

/-- A body that is found replaces what was there. -/
def settle (body : CapturedBody) : Option Bytes → CapturedBody
  | none => body
  | some bytes => .available bytes body.truncated

theorem settle_settle (body : CapturedBody) (first last : Option Bytes) :
    settle (settle body first) last = settle body (last.or first) := by
  cases last with
  | some bytes => cases first <;> rfl
  | none => rw [Option.none_or]; rfl

variable {lib decode} {records : List BodyRecord} {r : BodyRecord} {d : Direction}

/-- One segment, in the direction of a record. -/
theorem takeSegment_at (hr : (records.filter fun r => r.direction = d) = [r])
    (bodies : Direction → CapturedBody) (s : BodySegment) :
    takeSegment lib records decode bodies s d = settle (bodies d) (bodyIn lib decode r s) := by
  rw [bodyIn]
  split
  · rename_i hid
    cases hbytes : decode s with
    | error e =>
      rw [takeSegment, hbytes]
      rfl
    | ok bytes =>
      rw [takeSegment_hit hr bodies hid hbytes, takeBody]
      cases hread : readRecord lib bytes r with
      | error e => simp [Except.toOption, hread, settle]
      | ok body => simp [Except.toOption, hread, settle]
  · rename_i hid
    exact takeSegment_miss hr bodies hid

/-- All segments: the last body that is found stays. -/
theorem takeSegments_at (hr : (records.filter fun r => r.direction = d) = [r])
    (segments : List BodySegment) (bodies : Direction → CapturedBody) :
    segments.foldl (takeSegment lib records decode) bodies d =
      settle (bodies d) (found lib decode r segments).getLast? := by
  induction segments generalizing bodies with
  | nil => rfl
  | cons s segments ih =>
    rw [List.foldl_cons, ih, takeSegment_at hr, settle_settle, found, found, List.filterMap_cons]
    cases bodyIn lib decode r s with
    | none => rw [Option.or_none]
    | some body =>
      rw [List.getLast?_cons]
      cases (List.filterMap (bodyIn lib decode r) segments).getLast? <;> rfl

/-- What is found has the recorded length and hash. -/
theorem bodyIn_recorded {s : BodySegment} {body : Bytes} (h : bodyIn lib decode r s = some body) :
    (body.length : ℤ) = r.uncompressedLen ∧ lib.sha256Hex body = r.bodySha256 := by
  rw [bodyIn] at h
  split at h
  · obtain ⟨bytes, -, hbody⟩ := Option.bind_eq_some_iff.mp h
    unfold readRecord at hbody
    split at hbody
    · cases hbody
    · split at hbody
      · cases hbody
      · rename_i hlen
        split at hbody
        · cases hbody
        · rename_i hsha
          cases hbody
          exact ⟨not_not.mp hlen, not_not.mp hsha⟩
  · cases h

theorem mem_found {segments : List BodySegment} {body : Bytes} (h : body ∈ found lib decode r segments) :
    ∃ s ∈ segments, bodyIn lib decode r s = some body := List.mem_filterMap.mp h

end

/-! ### Records, one for each direction -/

section
variable {lib : ArchiveLib} {records : List BodyRecord}

/-- At most one record for each direction. -/
def OnePerDirection (records : List BodyRecord) : Prop := (records.map BodyRecord.direction).Nodup

theorem OnePerDirection.filter_eq (hone : OnePerDirection records) {r : BodyRecord} (hr : r ∈ records) :
    (records.filter fun x => x.direction = r.direction) = [r] := by
  induction records with
  | nil => cases hr
  | cons x records ih =>
    rw [OnePerDirection, List.map_cons, List.nodup_cons] at hone
    rcases List.mem_cons.mp hr with rfl | hr
    · rw [List.filter_cons, if_pos (decide_eq_true rfl), List.filter_eq_nil_iff.mpr]
      intro y hy heq
      exact hone.1 (List.mem_map.mpr ⟨y, hy, by simpa using heq⟩)
    · have hne : x.direction ≠ r.direction := fun heq => hone.1 (List.mem_map.mpr ⟨r, hr, heq.symm⟩)
      rw [List.filter_cons, if_neg (by simpa using hne), ih hone.2 hr]

theorem any_incomplete {r : BodyRecord} {d : Direction}
    (hr : (records.filter fun x => x.direction = d) = [r]) :
    (records.any fun x => x.direction = d && !x.complete) = !r.complete := by
  rw [← List.any_filter, hr, List.any_cons, List.any_nil, Bool.or_false]

variable {segments : List BodySegment} {inline : Direction → Bytes} {observed : Direction → ℤ}
  {truncated : Direction → Bool} {decode : BodySegment → Except ReadError Bytes}

/-- A direction with a record: what was found, or unreadable. -/
theorem decodeBodies_record (hone : OnePerDirection records) {r : BodyRecord} (hr : r ∈ records) :
    decodeBodies lib records segments inline observed truncated decode r.direction =
      settle (.unavailable .unreadable (truncated r.direction || !r.complete))
        (found lib decode r segments).getLast? := by
  have hfilter := hone.filter_eq hr
  unfold decodeBodies
  simp only
  rw [if_pos (List.any_eq_true.mpr ⟨r, hr, by simp⟩), takeSegments_at hfilter, any_incomplete hfilter]

theorem decodeBodies_inline {d : Direction} (h : ∀ r ∈ records, r.direction ≠ d) :
    decodeBodies lib records segments inline observed truncated decode d =
      inlineBody lib (inline d) (observed d) (truncated d) := by
  unfold decodeBodies
  rw [if_neg]
  rw [List.any_eq_true]
  rintro ⟨r, hr, hd⟩
  exact h r hr (by simpa using hd)

end

/-! ### What is returned -/

/-- A body with a record: the recorded bytes or none, and marked as cut when the record says so. -/
def ReadFor (lib : ArchiveLib) (r : BodyRecord) (truncated : Bool) (body : CapturedBody) : Prop :=
  body.truncated = (truncated || !r.complete) ∧
    ((∃ bytes, body.status = .available ∧ body.bytes = some bytes ∧
        (bytes.length : ℤ) = r.uncompressedLen ∧ lib.sha256Hex bytes = r.bodySha256) ∨
      body.status = .unreadable ∧ body.bytes = none)

/-- A body without a record, from what is stored beside the trace. -/
inductive ReadInline (lib : ArchiveLib) (compressed : Bytes) (observed : ℤ) (truncated : Bool) :
    CapturedBody → Prop
  | empty : compressed = [] → observed = 0 →
      ReadInline lib compressed observed truncated (.available [] truncated)
  | missing : compressed = [] → observed ≠ 0 →
      ReadInline lib compressed observed truncated (.unavailable .missing truncated)
  | stored {bytes : Bytes} : compressed ≠ [] → lib.decodeAll compressed = some bytes →
      (bytes.length : ℤ) ≤ observed →
      ReadInline lib compressed observed truncated (.available bytes truncated)
  | unreadable : compressed ≠ [] →
      ReadInline lib compressed observed truncated (.unavailable .unreadable truncated)

theorem archiveDecodeLimit_bound {size : ℤ} {limit : ℕ} (h : archiveDecodeLimit size = .ok limit) :
    (limit : ℤ) = size := by
  unfold archiveDecodeLimit at h
  split at h
  · cases h
  · rename_i hnonneg
    split at h
    · cases h
    · split at h
      · cases h
      · cases h
        exact Int.toNat_of_nonneg (not_lt.mp hnonneg)

theorem decompressWithLimit_ok {lib : ArchiveLib} {data bytes : Bytes} {limit : ℕ} (hdata : data ≠ [])
    (h : decompressWithLimit lib data limit = .ok bytes) :
    lib.decodeAll data = some bytes ∧ bytes.length ≤ limit := by
  unfold decompressWithLimit at h
  rw [if_neg hdata] at h
  split at h
  · cases h
  · split at h
    · cases h
    · rename_i output houtput
      split at h
      · cases h
      · rename_i hlimit
        cases h
        exact ⟨houtput, not_lt.mp hlimit⟩

theorem readInline (lib : ArchiveLib) (compressed : Bytes) (observed : ℤ) (truncated : Bool) :
    ReadInline lib compressed observed truncated (inlineBody lib compressed observed truncated) := by
  unfold inlineBody
  by_cases hdata : compressed = []
  · rw [if_pos hdata]
    split
    · exact .empty hdata ‹_›
    · exact .missing hdata ‹_›
  · rw [if_neg hdata]
    split
    · exact .unreadable hdata
    · rename_i bytes hbytes
      cases hlimit : archiveDecodeLimit observed with
      | error e =>
        rw [hlimit] at hbytes
        cases hbytes
      | ok limit =>
        rw [hlimit] at hbytes
        obtain ⟨hdecode, hle⟩ := decompressWithLimit_ok hdata hbytes
        have hobserved := archiveDecodeLimit_bound hlimit
        exact .stored hdata hdecode (by omega)

section
variable {lib : ArchiveLib} {records : List BodyRecord} {segments : List BodySegment}
  {inline : Direction → Bytes} {observed : Direction → ℤ} {truncated : Direction → Bool}
  {decode : BodySegment → Except ReadError Bytes}

theorem readFor_record (hone : OnePerDirection records) {r : BodyRecord} (hr : r ∈ records) :
    ReadFor lib r (truncated r.direction)
      (decodeBodies lib records segments inline observed truncated decode r.direction) := by
  rw [decodeBodies_record hone hr]
  cases hlast : (found lib decode r segments).getLast? with
  | none => exact ⟨rfl, .inr ⟨rfl, rfl⟩⟩
  | some body =>
    obtain ⟨s, -, hs⟩ := mem_found (List.mem_of_getLast? hlast)
    exact ⟨rfl, .inl ⟨body, rfl, rfl, bodyIn_recorded hs⟩⟩

/-- A body is available when some segment of the record holds it. -/
theorem available_iff (hone : OnePerDirection records) {r : BodyRecord} (hr : r ∈ records) :
    (decodeBodies lib records segments inline observed truncated decode r.direction).status = .available ↔
      ∃ s ∈ segments, (bodyIn lib decode r s).isSome = true := by
  rw [decodeBodies_record hone hr]
  constructor
  · intro h
    cases hlast : (found lib decode r segments).getLast? with
    | none =>
      rw [hlast] at h
      cases h
    | some body =>
      obtain ⟨s, hs, hbody⟩ := mem_found (List.mem_of_getLast? hlast)
      exact ⟨s, hs, by rw [hbody]; rfl⟩
  · rintro ⟨s, hs, hsome⟩
    obtain ⟨body, hbody⟩ := Option.isSome_iff_exists.mp hsome
    have hmem : body ∈ found lib decode r segments := List.mem_filterMap.mpr ⟨s, hs, hbody⟩
    obtain ⟨last, hlast⟩ := Option.isSome_iff_exists.mp
      (List.getLast?_isSome.mpr (List.ne_nil_of_mem hmem))
    rw [hlast]
    rfl

/-! ### Order -/

/-- The bodies that the segments hold for the records. -/
def heldBodies (lib : ArchiveLib) (decode : BodySegment → Except ReadError Bytes)
    (records : List BodyRecord) (segments : List BodySegment) : Set Bytes :=
  {body | ∃ r ∈ records, body ∈ found lib decode r segments}

/-- Different segments have different ids, or what they hold can be told apart by its hash. -/
def Distinguished (lib : ArchiveLib) (decode : BodySegment → Except ReadError Bytes)
    (records : List BodyRecord) (segments : List BodySegment) : Prop :=
  (segments.map BodySegment.id).Nodup ∨ Set.InjOn lib.sha256Hex (heldBodies lib decode records segments)

/-- Of segments with different ids at most one is the record's. -/
theorem found_length_le {r : BodyRecord} (h : (segments.map BodySegment.id).Nodup) :
    (found lib decode r segments).length ≤ 1 := by
  induction segments with
  | nil => exact Nat.zero_le _
  | cons s segments ih =>
    rw [List.map_cons, List.nodup_cons] at h
    rw [found, List.filterMap_cons]
    cases hbody : bodyIn lib decode r s with
    | none => exact ih h.2
    | some body =>
      have hid : r.segmentId = s.id := by
        by_contra hne
        rw [bodyIn, if_neg hne] at hbody
        cases hbody
      have hrest : List.filterMap (bodyIn lib decode r) segments = [] := by
        refine List.filterMap_eq_nil_iff.mpr fun t ht => ?_
        rw [bodyIn, if_neg]
        intro hother
        exact h.1 (List.mem_map.mpr ⟨t, ht, hother.symm.trans hid⟩)
      rw [hrest]
      rfl

/-- All that is found for a record is the same body. -/
theorem found_eq {r : BodyRecord} (hr : r ∈ records) (h : Distinguished lib decode records segments) :
    ∀ b ∈ found lib decode r segments, ∀ b' ∈ found lib decode r segments, b = b' := by
  intro b hb b' hb'
  rcases h with hids | hsha
  · obtain ⟨x, hx⟩ | hnil := (Nat.le_one_iff_eq_zero_or_eq_one.mp (found_length_le hids)).symm.imp
      List.length_eq_one_iff.mp List.length_eq_zero_iff.mp
    · rw [hx, List.mem_singleton] at hb hb'
      rw [hb, hb']
    · rw [hnil] at hb
      cases hb
  · obtain ⟨s, -, hs⟩ := mem_found hb
    obtain ⟨s', -, hs'⟩ := mem_found hb'
    exact hsha ⟨r, hr, hb⟩ ⟨r, hr, hb'⟩ ((bodyIn_recorded hs).2.trans (bodyIn_recorded hs').2.symm)

theorem getLast?_perm {α : Type} {xs ys : List α} (h : xs.Perm ys) (hsame : ∀ x ∈ ys, ∀ y ∈ ys, x = y) :
    xs.getLast? = ys.getLast? := by
  cases hx : xs.getLast? with
  | none =>
    rw [List.getLast?_eq_none_iff] at hx
    rw [hx] at h
    rw [h.nil_eq.symm, List.getLast?_nil]
  | some x =>
    have hmem := h.mem_iff.mp (List.mem_of_getLast? hx)
    obtain ⟨y, hy⟩ := Option.isSome_iff_exists.mp (List.getLast?_isSome.mpr (List.ne_nil_of_mem hmem))
    rw [hy, hsame x hmem y (List.mem_of_getLast? hy)]

theorem decodeBodies_perm (hone : OnePerDirection records) {records' : List BodyRecord}
    {segments' : List BodySegment} (hrecords : records'.Perm records) (hsegments : segments'.Perm segments)
    (h : Distinguished lib decode records segments) :
    decodeBodies lib records' segments' inline observed truncated decode =
      decodeBodies lib records segments inline observed truncated decode := by
  have hone' : OnePerDirection records' := (hrecords.map _).nodup_iff.mpr hone
  funext d
  by_cases hd : ∃ r ∈ records, r.direction = d
  · obtain ⟨r, hr, rfl⟩ := hd
    have hfound : (found lib decode r segments').Perm (found lib decode r segments) := hsegments.filterMap _
    rw [decodeBodies_record hone' (hrecords.mem_iff.mpr hr), decodeBodies_record hone hr,
      getLast?_perm hfound (found_eq hr h)]
  · rw [decodeBodies_inline, decodeBodies_inline]
    · exact fun r hr heq => hd ⟨r, hr, heq⟩
    · exact fun r hr heq => hd ⟨r, hrecords.mem_iff.mp hr, heq⟩

end

/-- A request `hi` and a response `yo` in one segment. -/
def pairedRecords : List BodyRecord :=
  [⟨.request, 7, 0, 2, "8f434346648f6b96df89dda901c5176b10a6d83961dd3c1ac88b59b2dc327aa4", true⟩,
    ⟨.response, 7, 18, 2, "e9058ab198f6908f702111b0c0fb5b36f99d00554521886c40e2891b349dc7a1", false⟩]

end Llmtrace.Storage
