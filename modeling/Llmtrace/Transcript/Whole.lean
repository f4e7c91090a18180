import Llmtrace.Transcript.Records

/-! A whole transcript: the header of the session, its requests in order, and an end record that
    confirms their number. The reader accepts nothing else, and with requests it can parse it accepts
    every one. -/

namespace Llmtrace.Transcript
open Schemes

section
variable {N : JsNumbers} {τ δ : Type} [DecidableEq N.Num] (lib : StreamLib N τ δ) (id : JsText)

/-- No request comes again, and none comes before the one in front of it. -/
structure InSequence (requests : List (JsValue N.Num)) : Prop where
  distinct : requests.Pairwise fun a b => same (keyOf b).id (keyOf a).id = false
  chain : requests.IsChain fun a b => comesTooLate lib (some (keyOf a)) (keyOf b) = .ok false

/-- The time of a request in milliseconds. -/
def timeOf (record : JsValue N.Num) : Option ℤ := lib.dateParse (keyOf record).startedAt

/-- The records of a whole export. -/
structure IsTranscript (header : JsValue N.Num) (requests : List (JsValue N.Num)) (footer : JsValue N.Num) :
    Prop where
  header : IsHeader id header requests.length
  valid : ∀ r ∈ requests, IsRequest lib id r
  distinct : requests.Pairwise fun a b => same (keyOf b).id (keyOf a).id = false
  times : requests.Pairwise fun a b => ∀ t ∈ timeOf lib a, ∀ t' ∈ timeOf lib b, t ≤ t'
  ties : requests.IsChain fun a b => same (keyOf b).startedAt (keyOf a).startedAt = true →
    atMost lib (keyOf b).id (keyOf a).id = .ok false
  footer : IsEnd id footer requests.length

variable {lib id}

/-! ### What the reader accepted -/

/-- The session after the header and some requests. -/
structure Started (lib : StreamLib N τ δ) (id : JsText) (s : Session N.Num δ) (n : ℕ)
    (requests : List (JsValue N.Num)) : Prop where
  expected : s.expected = some n
  count : s.count = requests.length
  seen : s.seen = requests.map fun r => (keyOf r).id
  previous : s.previous = requests.getLast?.map keyOf
  valid : ∀ r ∈ requests, IsRequest lib id r
  sequence : InSequence lib requests

theorem seen_any {requests : List (JsValue N.Num)} {x : Option (JsValue N.Num)} :
    (requests.map fun r => (keyOf r).id).any (same x) = false ↔ ∀ r ∈ requests, same x (keyOf r).id = false := by
  rw [List.any_map, List.any_eq_false]
  exact forall₂_congr fun r _ => by rw [Bool.not_eq_true]; rfl

/-- What a request has to be to come next. -/
theorem inSequence_append {requests : List (JsValue N.Num)} {r : JsValue N.Num} :
    InSequence lib (requests ++ [r]) ↔ InSequence lib requests ∧
      (∀ a ∈ requests, same (keyOf r).id (keyOf a).id = false) ∧
      comesTooLate lib (requests.getLast?.map keyOf) (keyOf r) = .ok false := by
  constructor
  · rintro ⟨hdistinct, hchain⟩
    rw [List.pairwise_append] at hdistinct
    rw [List.isChain_append] at hchain
    refine ⟨⟨hdistinct.1, hchain.1⟩, fun a ha => hdistinct.2.2 a ha r (List.mem_singleton_self r), ?_⟩
    cases hlast : requests.getLast? with
    | none => rfl
    | some a => exact hchain.2.2 a hlast r rfl
  · rintro ⟨⟨hdistinct, hchain⟩, hnew, hlate⟩
    constructor
    · rw [List.pairwise_append]
      refine ⟨hdistinct, List.pairwise_singleton _ _, fun a ha b hb => ?_⟩
      cases List.mem_singleton.mp hb
      exact hnew a ha
    · rw [List.isChain_append]
      refine ⟨hchain, List.isChain_singleton _, fun a ha b hb => ?_⟩
      cases hb
      rw [Option.mem_def.mp ha] at hlate
      exact hlate

theorem Started.next {s : Session N.Num δ} {n : ℕ} {requests : List (JsValue N.Num)} {r : JsValue N.Num}
    (h : Started lib id s n requests) (hvalid : IsRequest lib id r)
    (hsequence : InSequence lib (requests ++ [r])) (history : TranscriptHistory δ)
    (published : List (TranscriptEvent N.Num δ)) :
    Started lib id { s with
      history
      count := s.count + 1
      seen := s.seen ++ [(keyOf r).id]
      previous := some (keyOf r)
      published } n (requests ++ [r]) where
  expected := h.expected
  count := by rw [List.length_append, h.count]; rfl
  seen := by rw [List.map_append, h.seen]; rfl
  previous := by rw [List.getLast?_concat]; rfl
  valid := List.forall_mem_append.mpr ⟨h.valid, List.forall_mem_singleton.mpr hvalid⟩
  sequence := hsequence

/-- Which records were read so far. -/
inductive Told (lib : StreamLib N τ δ) (id : JsText) : List (JsValue N.Num) → Session N.Num δ → Prop where
  | nothing : Told lib id [] {}
  | running {header : JsValue N.Num} {requests : List (JsValue N.Num)} {n : ℕ} {s : Session N.Num δ} :
    IsHeader id header n → Started lib id s n requests → s.footer = none →
    Told lib id (header :: requests) s
  | ended {header footer : JsValue N.Num} {requests : List (JsValue N.Num)} {s : Session N.Num δ} :
    IsHeader id header requests.length → Started lib id s requests.length requests →
    IsEnd id footer requests.length → s.footer = some footer →
    Told lib id (header :: (requests ++ [footer])) s

theorem Told.step {records : List (JsValue N.Num)} {s s' : Session N.Num δ} {raw : JsValue N.Num}
    (h : Told lib id records s) (hstep : Advances lib id s raw s') : Told lib id (records ++ [raw]) s' := by
  cases h with
  | nothing =>
    cases hstep with
    | header _ _ hheader =>
      exact .running hheader ⟨rfl, rfl, rfl, rfl, List.forall_mem_nil _, .nil, .nil⟩ rfl
    | request _ hexpected => cases hexpected
    | finish _ hexpected => cases hexpected
  | @running header requests n s hheader hstarted hnone =>
    cases hstep with
    | header _ hexpected =>
      rw [hstarted.expected] at hexpected
      cases hexpected
    | request _ hexpected hvalid hseen hlate _ _ _ =>
      rw [hstarted.seen, seen_any] at hseen
      rw [hstarted.previous] at hlate
      have hsequence := inSequence_append.mpr ⟨hstarted.sequence, hseen, hlate⟩
      exact .running hheader (hstarted.next hvalid hsequence _ _) hnone
    | @finish m _ hexpected hend hcount =>
      rw [hstarted.expected] at hexpected
      cases hexpected
      rw [hstarted.count] at hcount hend
      subst hcount
      exact .ended hheader ⟨hstarted.expected, hstarted.count, hstarted.seen, hstarted.previous,
        hstarted.valid, hstarted.sequence⟩ hend rfl
  | ended _ _ _ hfooter =>
    cases hstep with
    | header hnone =>
      rw [hfooter] at hnone
      cases hnone
    | request hnone =>
      rw [hfooter] at hnone
      cases hnone
    | finish hnone =>
      rw [hfooter] at hnone
      cases hnone

theorem Told.run {records more : List (JsValue N.Num)} {s s' : Session N.Num δ}
    (h : Told lib id records s) (hconsume : consume lib id s more = .ok s') :
    Told lib id (records ++ more) s' := by
  induction more generalizing records s with
  | nil =>
    cases hconsume
    rw [List.append_nil]
    exact h
  | cons raw more ih =>
    rw [consume, List.foldlM_cons] at hconsume
    obtain ⟨s₁, hnext, hrest⟩ := bind_eq_ok.mp hconsume
    have := ih (h.step ((next_ok_iff lib id).mp hnext)) hrest
    rwa [List.append_assoc] at this

theorem comesTooLate_iff {p key : RequestKey N.Num} : comesTooLate lib (some p) key = .ok false ↔
    earlier lib key.startedAt p.startedAt = false ∧
      (same key.startedAt p.startedAt = true → atMost lib key.id p.id = .ok false) := by
  simp only [comesTooLate]
  cases earlier lib key.startedAt p.startedAt with
  | true => simp
  | false =>
    cases same key.startedAt p.startedAt with
    | true => simp
    | false => simp

omit [DecidableEq N.Num] in
theorem earlier_eq_false {a b : Option (JsValue N.Num)} :
    earlier lib a b = false ↔ ∀ t ∈ lib.dateParse a, ∀ t' ∈ lib.dateParse b, t' ≤ t := by
  rw [earlier]
  cases lib.dateParse a with
  | none => simp
  | some t =>
    cases lib.dateParse b with
    | none => simp
    | some t' => simp

/-- Times do not go back, also over several requests: each of them has one. -/
theorem InSequence.times {requests : List (JsValue N.Num)} (h : InSequence lib requests)
    (hvalid : ∀ r ∈ requests, IsRequest lib id r) :
    requests.Pairwise fun a b => ∀ t ∈ timeOf lib a, ∀ t' ∈ timeOf lib b, t ≤ t' := by
  have hchain : requests.IsChain fun a b => (timeOf lib a).getD 0 ≤ (timeOf lib b).getD 0 := by
    refine h.chain.imp_of_mem_imp fun a b ha hb hlate => ?_
    have hle := earlier_eq_false.mp (comesTooLate_iff.mp hlate).1
    obtain ⟨t, ht⟩ := Option.isSome_iff_exists.mp (hvalid a ha).time
    obtain ⟨t', ht'⟩ := Option.isSome_iff_exists.mp (hvalid b hb).time
    rw [timeOf, timeOf, ht, ht']
    exact hle t' ht' t ht
  have htrans : IsTrans (JsValue N.Num) fun a b => (timeOf lib a).getD 0 ≤ (timeOf lib b).getD 0 :=
    ⟨fun a b c => le_trans⟩
  refine hchain.pairwise.imp fun {a b} hle t ht t' ht' => ?_
  rwa [Option.mem_def.mp ht, Option.mem_def.mp ht'] at hle

/-- The records of a reading that ended well are a whole transcript. -/
theorem isTranscript_of_consume {records : List (JsValue N.Num)} {s : Session N.Num δ}
    {footer : JsValue N.Num} (hconsume : consume lib id {} records = .ok s)
    (hfooter : s.footer = some footer) :
    ∃ header requests, records = header :: (requests ++ [footer]) ∧
      IsTranscript lib id header requests footer := by
  have htold := Told.nothing.run hconsume
  rw [List.nil_append] at htold
  cases htold with
  | nothing => cases hfooter
  | running _ _ hnone =>
    rw [hfooter] at hnone
    cases hnone
  | @ended header footer' requests _ hheader hstarted hend hfooter' =>
    rw [hfooter] at hfooter'
    cases hfooter'
    exact ⟨header, requests, rfl, hheader, hstarted.valid, hstarted.sequence.distinct,
      hstarted.sequence.times hstarted.valid,
      hstarted.sequence.chain.imp fun a b hlate => (comesTooLate_iff.mp hlate).2, hend⟩

/-! ### What the reader accepts -/

/-- A request that the browser can show: `parseRequest` returns, and its id and time are texts. -/
structure Shown (lib : StreamLib N τ δ) (record : JsValue N.Num) (key : JsText) : Prop where
  parsed : ∃ parsed, lib.parseRequest record = some parsed
  id : (keyOf record).id = some (.str key)
  time : ∃ time, (keyOf record).startedAt = some (.str time)

omit [DecidableEq N.Num] in
theorem Shown.add {record : JsValue N.Num} {key : JsText} (h : Shown lib record key)
    (history : TranscriptHistory δ) : ∃ parsed history' added, lib.parseRequest record = some parsed ∧
      addRequest lib history record (keyOf record) parsed = .ok (history', added) ∧ added.block.id = key := by
  obtain ⟨parsed, hparsed⟩ := h.parsed
  obtain ⟨time, htime⟩ := h.time
  have hadd : addRequest lib history record (keyOf record) parsed =
      .ok (history.add lib.canonical lib.describeTools ⟨key, time⟩ parsed) := by
    rw [addRequest, h.id, htime]
  exact ⟨parsed, _, _, hparsed, hadd, rfl⟩

theorem consume_requests {rest done : List (JsValue N.Num)} {keys : List JsText} {s : Session N.Num δ} {n : ℕ}
    (hstarted : Started lib id s n done) (hnone : s.footer = none)
    (hvalid : ∀ r ∈ rest, IsRequest lib id r) (hsequence : InSequence lib (done ++ rest))
    (hlength : (done ++ rest).length ≤ n) (hshown : List.Forall₂ (Shown lib) rest keys) :
    ∃ s' : Session N.Num δ, ∃ addeds : List (Added δ), consume lib id s rest = .ok s' ∧
      Started lib id s' n (done ++ rest) ∧ s'.footer = none ∧
      s'.published = s.published ++ addeds.map .request ∧ addeds.map (fun a => a.block.id) = keys := by
  induction rest generalizing done keys s with
  | nil =>
    cases hshown
    exact ⟨s, [], rfl, by rwa [List.append_nil], hnone, by simp, rfl⟩
  | cons r rest ih =>
    cases hshown with
    | @cons _ key _ keys hr hshown =>
      have happend : done ++ r :: rest = (done ++ [r]) ++ rest := by simp
      rw [happend] at hsequence hlength
      have hfirst : InSequence lib (done ++ [r]) := ⟨(List.pairwise_append.mp hsequence.distinct).1,
        (List.isChain_append.mp hsequence.chain).1⟩
      obtain ⟨-, hnew, hlate⟩ := inSequence_append.mp hfirst
      obtain ⟨parsed, history, added, hparsed, hadd, hid⟩ := hr.add s.history
      have hcount : s.count < n := by
        rw [hstarted.count]
        simp only [List.length_append, List.length_singleton] at hlength
        omega
      have hr' := hvalid r List.mem_cons_self
      have hadvance := Advances.request hnone hstarted.expected hr'
        (by rw [hstarted.seen, seen_any]; exact hnew) (by rw [hstarted.previous]; exact hlate)
        hcount hparsed hadd
      obtain ⟨s', addeds, hconsume, hstarted', hnone', hpublished, hids⟩ := ih
        (hstarted.next hr' hfirst history (s.published ++ [.request added])) hnone
        (fun x hx => hvalid x (List.mem_cons_of_mem _ hx)) hsequence hlength hshown
      refine ⟨s', added :: addeds, ?_, ?_, hnone', ?_, ?_⟩
      · rw [consume, List.foldlM_cons, (next_ok_iff lib id).mpr hadvance]
        exact hconsume
      · rw [happend]
        exact hstarted'
      · rw [hpublished]
        simp
      · rw [List.map_cons, hids, hid]

/-- Every transcript whose requests can be shown is read to its end. -/
theorem consume_transcript {header footer : JsValue N.Num} {requests : List (JsValue N.Num)}
    {keys : List JsText} (hheader : IsHeader id header requests.length)
    (hvalid : ∀ r ∈ requests, IsRequest lib id r) (hsequence : InSequence lib requests)
    (hend : IsEnd id footer requests.length) (hshown : List.Forall₂ (Shown lib) requests keys) :
    ∃ s : Session N.Num δ, ∃ addeds : List (Added δ),
      consume lib id {} (header :: (requests ++ [footer])) = .ok s ∧ s.footer = some footer ∧
      s.published = .header header :: addeds.map .request ∧ addeds.map (fun a => a.block.id) = keys := by
  have hfirst : Advances lib id ({} : Session N.Num δ) header
      { expected := some requests.length, published := [.header header] } := .header rfl rfl hheader
  have hstarted : Started lib id ({ expected := some requests.length, published := [.header header] } :
      Session N.Num δ) requests.length [] := ⟨rfl, rfl, rfl, rfl, List.forall_mem_nil _, .nil, .nil⟩
  obtain ⟨s, addeds, hconsume, hstarted', hnone, hpublished, hids⟩ :=
    consume_requests hstarted rfl hvalid hsequence le_rfl hshown
  rw [List.nil_append] at hstarted'
  have hlast : Advances lib id s footer { s with footer := some footer } :=
    .finish hnone hstarted'.expected (by rw [hstarted'.count]; exact hend) hstarted'.count
  refine ⟨{ s with footer := some footer }, addeds, ?_, rfl, ?_, hids⟩
  · rw [consume, List.foldlM_cons, (next_ok_iff lib id).mpr hfirst]
    change consume lib id _ (requests ++ [footer]) = _
    rw [consume_append, hconsume]
    change consume lib id s [footer] = _
    rw [consume, List.foldlM_cons, (next_ok_iff lib id).mpr hlast]
    rfl
  · rw [hpublished]
    rfl

end
end Llmtrace.Transcript
