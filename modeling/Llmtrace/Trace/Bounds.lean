import Llmtrace.Trace.Session

/-! What a trace keeps of its messages and tags (`bound_session_messages` and `bound_trace_tags` in
    `trace.rs`). Texts lose their NUL characters and are cut at a limit of bytes; of too many messages
    the middle is left out, and of too many tags the last ones. Each of these is marked: on the message,
    and by a tag of the trace. -/

namespace Llmtrace.Trace
open Schemes
open Parsers (ParsedMessage)

/-! ### Texts -/

/-- The text without its NUL characters. -/
def stripped (value : String) : List Char := value.toList.filter fun c => c ≠ nul

theorem nul_notMem_stripped (value : String) : nul ∉ stripped value := by
  simp [stripped]

theorem stripNulBytesOwned_text (value : String) :
    (stripNulBytesOwned value).1.toList = stripped value := by
  rw [stripNulBytesOwned]
  split_ifs with h
  · rw [String.toList_ofList]
    rfl
  · rw [stripped, List.filter_eq_self.mpr]
    intro c hc
    rw [decide_eq_true_eq]
    rintro rfl
    exact h hc

theorem stripNulBytesOwned_flag (value : String) :
    (stripNulBytesOwned value).2 = true ↔ nul ∈ value.toList := by
  rw [stripNulBytesOwned]
  split_ifs with h <;> simp [h]

theorem truncateUtf8Owned_text (value : String) (maxBytes : ℕ) :
    (truncateUtf8Owned value maxBytes).1.toList = truncateUtf8 value.toList maxBytes := by
  rw [truncateUtf8Owned]
  split_ifs with h
  · rw [truncateUtf8_of_le h]
  · rw [String.toList_ofList]

theorem truncateUtf8Owned_flag (value : String) (maxBytes : ℕ) :
    (truncateUtf8Owned value maxBytes).2 = true ↔ maxBytes < utf8Len value.toList := by
  rw [truncateUtf8Owned]
  split_ifs with h
  · simp [h]
  · simp only [true_iff]
    omega

/-- A text as it is stored. -/
def boundText (value : String) (maxBytes : ℕ) : String × Bool :=
  truncateUtf8Owned (stripNulBytesOwned value).1 maxBytes

theorem boundText_text (value : String) (maxBytes : ℕ) :
    (boundText value maxBytes).1.toList = truncateUtf8 (stripped value) maxBytes := by
  rw [boundText, truncateUtf8Owned_text, stripNulBytesOwned_text]

theorem boundText_longest (value : String) (maxBytes : ℕ) :
    IsLongestPrefix (stripped value) maxBytes (boundText value maxBytes).1.toList := by
  rw [boundText_text]
  exact truncateUtf8_longest _ _

/-- Without either mark the text is the one that was given. -/
theorem boundText_kept (value : String) (maxBytes : ℕ) :
    (stripNulBytesOwned value).2 = false ∧ (boundText value maxBytes).2 = false ↔
      (boundText value maxBytes).1 = value := by
  have htext := boundText_text value maxBytes
  rw [← Bool.not_eq_true, ← Bool.not_eq_true, stripNulBytesOwned_flag]
  by_cases hnul : nul ∈ value.toList
  · refine ⟨fun h => absurd hnul h.1, fun heq => ?_⟩
    rw [heq] at htext
    have hstart : value.toList <+: stripped value := htext ▸ truncateUtf8_isPrefix _ _
    exact absurd (hstart.subset hnul) (nul_notMem_stripped value)
  · have hself : stripped value = value.toList := by
      rw [← stripNulBytesOwned_text, stripNulBytesOwned, if_neg hnul]
    have hflag : (boundText value maxBytes).2 = true ↔ maxBytes < utf8Len value.toList := by
      rw [boundText, truncateUtf8Owned_flag, stripNulBytesOwned_text, hself]
    rw [hself] at htext
    rw [hflag, not_lt, ← String.toList_inj, htext, truncateUtf8_eq_self]
    exact and_iff_right hnul

/-! ### Messages -/

/-- The messages that are kept: all, or the first and the last half of the limit. -/
def keptMessages (messages : List ParsedMessage) : List ParsedMessage :=
  if messages.length ≤ maxSessionMessagesPerTrace then messages
  else messages.take (maxSessionMessagesPerTrace / 2) ++
    messages.drop (messages.length - maxSessionMessagesPerTrace / 2)

/-- A message as it is stored. -/
structure Bounded (m b : ParsedMessage) : Prop where
  role : IsLongestPrefix (stripped m.role) maxSessionMessageRoleBytes b.role.toList
  content : IsLongestPrefix (stripped m.content) maxSessionMessageContentBytes b.content.toList
  marked : b.contentTruncated = true ↔ b.content ≠ m.content ∨ m.contentTruncated = true

theorem boundMessage_eq (m : ParsedMessage) : boundMessage m =
    (⟨m.contentTruncated || (stripNulBytesOwned m.content).2 ||
        (boundText m.content maxSessionMessageContentBytes).2,
      (boundText m.role maxSessionMessageRoleBytes).1,
      (boundText m.content maxSessionMessageContentBytes).1⟩,
    (stripNulBytesOwned m.role).2 || (stripNulBytesOwned m.content).2 ||
      (boundText m.role maxSessionMessageRoleBytes).2 ||
      (boundText m.content maxSessionMessageContentBytes).2 || m.contentTruncated) := by
  simp only [boundMessage, boundText]

theorem bounded_boundMessage (m : ParsedMessage) : Bounded m (boundMessage m).1 := by
  have hkept := boundText_kept m.content maxSessionMessageContentBytes
  rw [boundMessage_eq]
  constructor
  · exact boundText_longest m.role maxSessionMessageRoleBytes
  · exact boundText_longest m.content maxSessionMessageContentBytes
  · simp only
    rw [ne_eq, ← hkept, Bool.or_assoc, Bool.or_eq_true, Bool.or_eq_true, not_and_or, Bool.not_eq_false,
      Bool.not_eq_false, or_comm]

/-- A message counts as changed unless it comes out as it went in, and without a mark. -/
theorem boundMessage_unchanged (m : ParsedMessage) :
    (boundMessage m).2 = false ↔ (boundMessage m).1 = m ∧ m.contentTruncated = false := by
  have hrole := boundText_kept m.role maxSessionMessageRoleBytes
  have hcontent := boundText_kept m.content maxSessionMessageContentBytes
  rw [boundMessage_eq]
  obtain ⟨marked, role, content⟩ := m
  simp only [ParsedMessage.mk.injEq, Bool.or_eq_false_iff] at hrole hcontent ⊢
  rw [← hrole, ← hcontent]
  constructor
  · rintro ⟨⟨⟨⟨hr, hc⟩, hr'⟩, hc'⟩, rfl⟩
    exact ⟨⟨by simp [hc, hc'], ⟨hr, hr'⟩, hc, hc'⟩, rfl⟩
  · rintro ⟨⟨-, ⟨hr, hr'⟩, hc, hc'⟩, rfl⟩
    exact ⟨⟨⟨⟨hr, hc⟩, hr'⟩, hc'⟩, rfl⟩

theorem boundSessionMessages_eq (messages : List ParsedMessage) : boundSessionMessages messages =
    ((keptMessages messages).map fun m => (boundMessage m).1,
      decide (maxSessionMessagesPerTrace < messages.length) ||
        (keptMessages messages).any fun m => (boundMessage m).2) := by
  have hkept : ((if decide (maxSessionMessagesPerTrace < messages.length) = true then
      messages.take (maxSessionMessagesPerTrace / 2) ++ messages.drop (messages.length -
        (maxSessionMessagesPerTrace - maxSessionMessagesPerTrace / 2)) else messages).take
      maxSessionMessagesPerTrace) = keptMessages messages := by
    rw [keptMessages]
    by_cases h : messages.length ≤ maxSessionMessagesPerTrace
    · rw [if_pos h, if_neg (by simpa using h), List.take_of_length_le h]
    · rw [if_neg h, if_pos (by simpa using h)]
      refine List.take_of_length_le ?_
      rw [List.length_append, List.length_take, List.length_drop]
      simp only [maxSessionMessagesPerTrace] at h ⊢
      omega
  simp only [boundSessionMessages, hkept, List.map_map, List.any_map, Function.comp_def]

/-- Messages are kept in order, all or the two ends; each is cut as little as its limits allow and is
    marked when its content was changed; and without the mark of the trace nothing was. -/
theorem messages_bounded (messages : List ParsedMessage) :
    List.Forall₂ Bounded (keptMessages messages) (boundSessionMessages messages).1 ∧
    ((boundSessionMessages messages).2 = false ↔
      (boundSessionMessages messages).1 = messages ∧ ∀ m ∈ messages, m.contentTruncated = false) := by
  rw [boundSessionMessages_eq]
  constructor
  · rw [List.forall₂_map_right_iff, List.forall₂_same]
    exact fun m _ => bounded_boundMessage m
  · simp only [Bool.or_eq_false_iff, decide_eq_false_iff_not, not_lt, List.any_eq_false,
      Bool.not_eq_true, boundMessage_unchanged]
    constructor
    · rintro ⟨hlen, hsame⟩
      rw [keptMessages, if_pos hlen] at hsame ⊢
      refine ⟨?_, fun m hm => (hsame m hm).2⟩
      rw [List.map_congr_left fun m hm => (hsame m hm).1, List.map_id']
    · rintro ⟨hsame, hunmarked⟩
      have hlen : messages.length ≤ maxSessionMessagesPerTrace := by
        have hcount := congrArg List.length hsame
        rw [List.length_map, keptMessages] at hcount
        split_ifs at hcount with h
        · exact h
        · rw [List.length_append, List.length_take, List.length_drop] at hcount
          simp only [maxSessionMessagesPerTrace] at h hcount ⊢
          omega
      rw [keptMessages, if_pos hlen] at hsame ⊢
      have hsame' : messages.map (fun m => (boundMessage m).1) = messages.map id := by
        rw [hsame, List.map_id]
      exact ⟨hlen, fun m hm => ⟨List.map_inj_left.mp hsame' m hm, hunmarked m hm⟩⟩

/-! ### Tags -/

/-- `kept` is what the bounds leave of a tag. -/
def IsCutOf (tag : String) (kept : String) : Prop :=
  tag ≠ "" ∧ IsLongestPrefix (stripped tag) maxTraceTagBytes kept.toList

theorem isEmpty_iff_toList {s : String} : s.isEmpty = true ↔ s.toList = [] := by
  rw [String.isEmpty_iff, String.toList_eq_nil_iff]

/-- A tag is left out only when nothing of it is left, and otherwise keeps at least a character. -/
theorem normalTag_some {tag kept : String} (h : (normalTag tag).1 = some kept) :
    IsCutOf tag kept ∧ kept ≠ "" := by
  rw [normalTag] at h
  split_ifs at h with hempty
  simp only at h
  split_ifs at h with hstripped
  simp only [Option.some.injEq] at h
  subst h
  refine ⟨⟨?_, boundText_longest tag maxTraceTagBytes⟩, ?_⟩
  · rintro rfl
    exact hempty rfl
  · intro hnil
    have htext := boundText_text tag maxTraceTagBytes
    rw [boundText, hnil] at htext
    have hhead := truncateUtf8_eq_nil.mp htext.symm
    rw [isEmpty_iff_toList, stripNulBytesOwned_text] at hstripped
    obtain ⟨c, cs, hcs⟩ := List.exists_cons_of_ne_nil hstripped
    have hsize := hhead c (by rw [hcs]; rfl)
    have hfour : c.utf8Size ≤ 4 := c.utf8Size_le_four
    rw [maxTraceTagBytes] at hsize
    omega

/-- A tag without a mark is kept as it is, unless it is empty. -/
theorem normalTag_kept {tag : String} (h : (normalTag tag).2 = false) :
    (normalTag tag).1 = if tag = "" then none else some tag := by
  by_cases hempty : tag = ""
  · subst hempty
    rfl
  · rw [if_neg hempty]
    have hne : ¬tag.isEmpty = true := fun h => hempty (String.isEmpty_iff.mp h)
    have hkept := boundText_kept tag maxTraceTagBytes
    rw [normalTag, if_neg hne] at h ⊢
    simp only at h ⊢
    split_ifs at h ⊢ with hstripped
    · have hnul : nul ∉ tag.toList := by
        rw [← stripNulBytesOwned_flag, h]
        decide
      rw [stripNulBytesOwned, if_neg hnul] at hstripped
      exact absurd hstripped hne
    · rw [Bool.or_eq_false_iff] at h
      exact congrArg some (hkept.mp h)

/-- One tag more. -/
theorem normalizeTags_snoc (tag : String) : ∀ (tags normalized : List String),
    normalizeTags (tags ++ [tag]) normalized = match (normalTag tag).1 with
      | none => normalizeTags tags normalized
      | some kept => if kept ∈ normalizeTags tags normalized then normalizeTags tags normalized
          else normalizeTags tags normalized ++ [kept]
  | [], normalized => by
      simp only [List.nil_append, normalizeTags]
      cases (normalTag tag).1 with
      | none => rfl
      | some kept => rfl
  | t :: tags, normalized => by
      rw [List.cons_append, normalizeTags, normalizeTags]
      cases (normalTag t).1 with
      | none => exact normalizeTags_snoc tag tags normalized
      | some kept => exact normalizeTags_snoc tag tags _

theorem normalizeTags_nodup (tags : List String) : (normalizeTags tags []).Nodup := by
  induction tags using List.reverseRecOn with
  | nil => exact List.nodup_nil
  | append_singleton tags tag ih =>
    rw [normalizeTags_snoc]
    cases (normalTag tag).1 with
    | none => exact ih
    | some kept =>
      simp only
      split_ifs with h
      · exact ih
      · exact List.nodup_append.mpr ⟨ih, List.nodup_singleton _, by
          rintro a ha b hb rfl
          rw [List.mem_singleton.mp hb] at ha
          exact h ha⟩

/-- Tags that are all kept as they are come in the order of their first occurrence. -/
theorem normalizeTags_order : ∀ {tags : List String}, (∀ tag ∈ tags, (normalTag tag).2 = false) →
    (normalizeTags tags []).Pairwise fun a b => tags.idxOf a < tags.idxOf b := by
  intro tags
  induction tags using List.reverseRecOn with
  | nil => exact fun _ => List.Pairwise.nil
  | append_singleton tags tag ih =>
    intro h
    rw [List.forall_mem_append, List.forall_mem_singleton] at h
    have hmem : ∀ a ∈ normalizeTags tags [], a ∈ tags := by
      intro a ha
      obtain ⟨t, ht, hkept⟩ := (mem_normalizeTags.mp ha).resolve_left List.not_mem_nil
      rw [normalTag_kept (h.1 t ht)] at hkept
      split_ifs at hkept
      cases hkept
      exact ht
    have hold : (normalizeTags tags []).Pairwise fun a b =>
        (tags ++ [tag]).idxOf a < (tags ++ [tag]).idxOf b := by
      refine (ih h.1).imp_of_mem fun ha hb hlt => ?_
      rwa [List.idxOf_append_of_mem (hmem _ ha), List.idxOf_append_of_mem (hmem _ hb)]
    rw [normalizeTags_snoc, normalTag_kept h.2]
    split_ifs with hempty
    · exact hold
    · simp only
      split_ifs with hin
      · exact hold
      · refine List.pairwise_append.mpr ⟨hold, List.pairwise_singleton _ _, ?_⟩
        intro a ha b hb
        rw [List.mem_singleton.mp hb]
        have hnew : tag ∉ tags := fun ht => hin (mem_normalizeTags.mpr
          (.inr ⟨tag, ht, by rw [normalTag_kept h.2, if_neg hempty]⟩))
        rw [List.idxOf_append_of_mem (hmem a ha), List.idxOf_append_of_notMem hnew]
        have := List.idxOf_lt_length_of_mem (hmem a ha)
        omega

section
variable (tags : List String) (messagesTruncated identityTruncated : Bool)

/-- The marks that a list of tags gets. -/
def required : List String :=
  requiredTags (normalizeTags tags []) (tags.any fun tag => (normalTag tag).2) messagesTruncated
    identityTruncated

/-- The tags besides the required markers. -/
def others : List String :=
  ((normalizeTags tags []).filter fun tag => tag ∉ required tags messagesTruncated identityTruncated).take
    (maxTraceTags - (required tags messagesTruncated identityTruncated).length)

theorem required_facts : (required tags messagesTruncated identityTruncated).Nodup ∧
    (required tags messagesTruncated identityTruncated).length ≤ 2 ∧
    ∀ tag ∈ required tags messagesTruncated identityTruncated,
      tag = sessionMessagesTruncatedTag ∨ tag = traceEnrichmentTruncatedTag := by
  simp only [required, requiredTags]
  split_ifs <;> decide

theorem others_facts : ∀ tag ∈ others tags messagesTruncated identityTruncated,
    tag ∈ normalizeTags tags [] ∧ tag ∉ required tags messagesTruncated identityTruncated := by
  intro tag htag
  simpa using List.mem_filter.mp (List.mem_of_mem_take htag)

/-- No marker is among the other tags, so all of them are put behind them. -/
theorem boundTraceTags_eq : boundTraceTags tags messagesTruncated identityTruncated =
    others tags messagesTruncated identityTruncated ++
      required tags messagesTruncated identityTruncated := by
  have hfree : ((required tags messagesTruncated identityTruncated).filter fun tag =>
      tag ∉ others tags messagesTruncated identityTruncated) =
        required tags messagesTruncated identityTruncated := by
    rw [List.filter_eq_self]
    intro tag htag
    rw [decide_eq_true_eq]
    exact fun hin => (others_facts tags messagesTruncated identityTruncated tag hin).2 htag
  exact congrArg (others tags messagesTruncated identityTruncated ++ ·) hfree

theorem boundTraceTags_nodup : (boundTraceTags tags messagesTruncated identityTruncated).Nodup := by
  rw [boundTraceTags_eq]
  refine List.nodup_append.mpr ⟨?_, (required_facts tags messagesTruncated identityTruncated).1, ?_⟩
  · exact ((normalizeTags_nodup tags).filter _).sublist (List.take_sublist _ _)
  · rintro a ha b hb rfl
    exact (others_facts tags messagesTruncated identityTruncated a ha).2 hb

theorem boundTraceTags_length :
    (boundTraceTags tags messagesTruncated identityTruncated).length ≤ maxTraceTags := by
  have htwo := (required_facts tags messagesTruncated identityTruncated).2.1
  have hothers : (others tags messagesTruncated identityTruncated).length ≤
      maxTraceTags - (required tags messagesTruncated identityTruncated).length := List.length_take_le _ _
  rw [boundTraceTags_eq, List.length_append]
  simp only [maxTraceTags] at hothers ⊢
  omega

/-- Every tag of the result is a marker or what is kept of an input tag. -/
theorem mem_boundTraceTags {tag : String}
    (h : tag ∈ boundTraceTags tags messagesTruncated identityTruncated) :
    tag = sessionMessagesTruncatedTag ∨ tag = traceEnrichmentTruncatedTag ∨
      ∃ t ∈ tags, (normalTag t).1 = some tag := by
  rw [boundTraceTags_eq, List.mem_append] at h
  rcases h with h | h
  · have hnormal := (others_facts tags messagesTruncated identityTruncated tag h).1
    exact .inr (.inr ((mem_normalizeTags.mp hnormal).resolve_left List.not_mem_nil))
  · rcases (required_facts tags messagesTruncated identityTruncated).2.2 tag h with h | h
    · exact .inl h
    · exact .inr (.inl h)

/-- Without the marker for lost tags, nothing was lost: the markers are at most the one for messages,
    and all the tags fit. -/
theorem others_of_unmarked
    (h : traceEnrichmentTruncatedTag ∉ boundTraceTags tags messagesTruncated identityTruncated) :
    (∀ tag ∈ tags, (normalTag tag).2 = false) ∧
    (∀ tag ∈ required tags messagesTruncated identityTruncated, tag = sessionMessagesTruncatedTag) ∧
    others tags messagesTruncated identityTruncated = (normalizeTags tags []).filter fun tag =>
      tag ∉ required tags messagesTruncated identityTruncated := by
  have hout : traceEnrichmentTruncatedTag ∉ required tags messagesTruncated identityTruncated := by
    intro hin
    rw [boundTraceTags_eq] at h
    exact h (List.mem_append_right _ hin)
  have honly : ∀ tag ∈ required tags messagesTruncated identityTruncated,
      tag = sessionMessagesTruncatedTag := by
    intro tag htag
    refine ((required_facts tags messagesTruncated identityTruncated).2.2 tag htag).resolve_right ?_
    rintro rfl
    exact hout htag
  have hcond : (identityTruncated || (tags.any fun tag => (normalTag tag).2) ||
      decide (maxTraceTags - (if messagesTruncated then [sessionMessagesTruncatedTag] else []).length <
        (normalizeTags tags []).length)) = false := by
    rw [← Bool.not_eq_true]
    intro htrue
    refine hout ?_
    rw [required, requiredTags, if_pos htrue]
    exact List.mem_append_right _ (List.mem_singleton_self _)
  have hrequired : required tags messagesTruncated identityTruncated =
      if messagesTruncated then [sessionMessagesTruncatedTag] else [] := by
    rw [required, requiredTags, if_neg (by rw [hcond]; decide)]
  rw [Bool.or_eq_false_iff, Bool.or_eq_false_iff, List.any_eq_false, decide_eq_false_iff_not,
    not_lt, ← hrequired] at hcond
  refine ⟨fun tag htag => by simpa using hcond.1.2 tag htag, honly, List.take_of_length_le ?_⟩
  exact (List.length_filter_le _ _).trans hcond.2

end

/-- Tags are bounded, distinct and clean; the markers are there when they are due; and where the
    marker for lost tags is not, every tag is there as it was given, in the order in which they first
    came. -/
theorem tags_bounded (tags : List String) (messagesTruncated identityTruncated : Bool) :
    (boundTraceTags tags messagesTruncated identityTruncated).length ≤ maxTraceTags ∧
    (boundTraceTags tags messagesTruncated identityTruncated).Nodup ∧
    (∀ tag ∈ boundTraceTags tags messagesTruncated identityTruncated,
      tag ≠ "" ∧ nul ∉ tag.toList ∧ utf8Len tag.toList ≤ maxTraceTagBytes ∧
        (tag = sessionMessagesTruncatedTag ∨ tag = traceEnrichmentTruncatedTag ∨
          ∃ t ∈ tags, IsCutOf t tag)) ∧
    (messagesTruncated = true →
      sessionMessagesTruncatedTag ∈ boundTraceTags tags messagesTruncated identityTruncated) ∧
    (identityTruncated = true →
      traceEnrichmentTruncatedTag ∈ boundTraceTags tags messagesTruncated identityTruncated) ∧
    (traceEnrichmentTruncatedTag ∉ boundTraceTags tags messagesTruncated identityTruncated →
      (∀ tag ∈ tags, tag ≠ "" → tag ∈ boundTraceTags tags messagesTruncated identityTruncated) ∧
      ((boundTraceTags tags messagesTruncated identityTruncated).filter fun tag =>
        tag ≠ sessionMessagesTruncatedTag).Pairwise fun a b => tags.idxOf a < tags.idxOf b) := by
  refine ⟨boundTraceTags_length _ _ _, boundTraceTags_nodup _ _ _, ?_, ?_, ?_, ?_⟩
  · intro tag htag
    rcases mem_boundTraceTags _ _ _ htag with rfl | rfl | ⟨t, ht, hkept⟩
    · exact ⟨by decide, by decide, by decide, .inl rfl⟩
    · exact ⟨by decide, by decide, by decide, .inr (.inl rfl)⟩
    · obtain ⟨hcut, hne⟩ := normalTag_some hkept
      refine ⟨hne, fun hnul => ?_, hcut.2.fits, .inr (.inr ⟨t, ht, hcut⟩)⟩
      exact nul_notMem_stripped t (hcut.2.isPrefix.subset hnul)
  · rintro rfl
    rw [boundTraceTags_eq, List.mem_append]
    right
    simp only [required, requiredTags]
    split_ifs <;> simp
  · rintro rfl
    rw [boundTraceTags_eq, List.mem_append]
    right
    simp [required, requiredTags]
  · intro hunmarked
    obtain ⟨hclean, honly, hothers⟩ := others_of_unmarked _ _ _ hunmarked
    constructor
    · intro tag htag hne
      have hnormal : tag ∈ normalizeTags tags [] := mem_normalizeTags.mpr
        (.inr ⟨tag, htag, by rw [normalTag_kept (hclean tag htag), if_neg hne]⟩)
      rw [boundTraceTags_eq, List.mem_append, hothers, List.mem_filter, decide_eq_true_eq]
      by_cases hin : tag ∈ required tags messagesTruncated identityTruncated
      · exact .inr hin
      · exact .inl ⟨hnormal, hin⟩
    · have hnone : ((required tags messagesTruncated identityTruncated).filter fun tag =>
          tag ≠ sessionMessagesTruncatedTag) = [] := by
        rw [List.filter_eq_nil_iff]
        intro tag htag
        simpa using honly tag htag
      rw [boundTraceTags_eq, List.filter_append, hnone, List.append_nil, hothers]
      exact ((normalizeTags_order hclean).filter _).filter _

end Llmtrace.Trace
