import Llmtrace.Schemes.JsText
import Llmtrace.Schemes.Trie

/-! The transcript of a session (`ui/src/lib/transcript/dedupe.ts`): each request repeats the
    conversation so far, and `TranscriptHistory.add` shows only what is new. The messages seen before
    are kept in a prefix trie over their identities, so that a request is folded only along a path
    that was seen as a whole.

    A message object is compared by reference where it is the key of a map; `ref` is that reference, so
    that equal messages are the same object. What `canonical` and `describeTools` make of a list of tools
    is a parameter. -/

namespace Llmtrace.Transcript
open Schemes

/-- `ParsedMessage` -/
structure ParsedMessage where
  ref : ℕ
  role : JsText
  label : Option JsText
  content : JsText
  identity : JsText
  deriving DecidableEq

/-- The field `context` of a parsed request. -/
inductive Context where
  | snapshot | providerManaged
  deriving DecidableEq

/-- `ParsedRequest` -/
structure ParsedRequest (τ : Type) where
  tools : Option (List τ)
  input : List ParsedMessage
  output : List ParsedMessage
  context : Context
  inputComplete : Bool
  outputComplete : Bool
  notices : List JsText
  outputBranches : List (List ParsedMessage)

/-- What `add` reads of an `ExportRequest`. -/
structure RequestRecord where
  id : JsText
  startedAt : JsText

/-- `TranscriptMessage` -/
structure TranscriptMessage where
  id : JsText
  role : JsText
  label : Option JsText
  content : JsText
  deriving DecidableEq

/-- `ContextNode` -/
structure ContextNode where
  id : ℕ
  parent : ℕ
  messageId : JsText
  deriving DecidableEq

/-- `ToolSet` -/
structure ToolSet (δ : Type) where
  id : ℕ
  tools : List δ

/-- `TranscriptBlock` -/
structure TranscriptBlock where
  id : JsText
  createdAt : JsText
  toolSetId : Option ℕ
  toolsChanged : Bool
  messages : List TranscriptMessage
  reusedCount : ℕ
  reusedNode : ℕ
  notices : List JsText

/-- What one call returns. -/
structure Added (δ : Type) where
  block : TranscriptBlock
  nodes : List ContextNode
  toolSet : Option (ToolSet δ)

/-- The key of a node is the identity of its message, under which its parent's `children` holds it;
    its value is `messageId`. -/
abbrev Nodes := List (Trie.Node JsText JsText)

/-- `TranscriptHistory` -/
structure TranscriptHistory (δ : Type) where
  nodes : Nodes := []
  nextNode : ℕ := 1
  toolSets : List (JsText × ToolSet δ) := []
  previousToolSet : Option ℕ := none

/-! ### One call -/

/-- What the closures of `add` change: the trie, and the nodes and messages to return. -/
structure Pass where
  nodes : Nodes
  nextNode : ℕ
  published : List ContextNode := []
  messages : List TranscriptMessage := []

/-- The id of the message at a place of its block. -/
def messageId (record : RequestRecord) (ordinal : ℕ) : JsText := record.id ++ 58 :: decimal ordinal

/-- What is shown for a message. -/
def shownAs (record : RequestRecord) (ordinal : ℕ) (m : ParsedMessage) : TranscriptMessage :=
  ⟨messageId record ordinal, m.role, m.label, m.content⟩

/-- `ordinal` counts the messages that were emitted. -/
def Pass.emit (record : RequestRecord) (p : Pass) (m : ParsedMessage) : Pass × JsText :=
  let shown := shownAs record p.messages.length m
  ({ p with messages := p.messages ++ [shown] }, shown.id)

/-- `edge`: the child for the message, which is published when it is new. -/
def Pass.edge (p : Pass) (parent : ℕ) (m : ParsedMessage) (messageId : JsText) : Pass × ℕ :=
  match Trie.child p.nodes parent m.identity with
  | some node => (p, node.id)
  | none =>
    ({ p with
        nodes := p.nodes ++ [⟨p.nextNode, parent, m.identity, messageId⟩]
        nextNode := p.nextNode + 1
        published := p.published ++ [⟨p.nextNode, parent, messageId⟩] }, p.nextNode)

/-- Where the loop over the input is. -/
structure Cursor where
  current : ℕ := 0
  reusedCount : ℕ := 0
  reusedNode : ℕ := 0
  matching : Bool

/-- The body of the loop over the input. -/
def inputStep (record : RequestRecord) (remember : Bool) (s : Pass × Cursor) (m : ParsedMessage) :
    Pass × Cursor :=
  match if s.2.matching then Trie.child s.1.nodes s.2.current m.identity else none with
  | some known =>
    (s.1, { s.2 with current := known.id, reusedCount := s.2.reusedCount + 1, reusedNode := known.id })
  | none =>
    let emitted := s.1.emit record m
    if remember then
      let edge := emitted.1.edge s.2.current m emitted.2
      (edge.1, { s.2 with matching := false, current := edge.2 })
    else (emitted.1, { s.2 with matching := false })

/-- The body of the loop over the output; the last entry set for an object comes first. -/
def outputStep (record : RequestRecord) (s : Pass × List (ParsedMessage × JsText)) (m : ParsedMessage) :
    Pass × List (ParsedMessage × JsText) :=
  let emitted := s.1.emit record m
  (emitted.1, (m, emitted.2) :: s.2)

/-- `outputIds.get(message)!`, with the empty text for `undefined`. -/
def outputId (outputIds : List (ParsedMessage × JsText)) (m : ParsedMessage) : JsText :=
  (outputIds.lookup m).getD []

/-- The body of the loop along a branch. -/
def branchStep (outputIds : List (ParsedMessage × JsText)) (s : Pass × ℕ) (m : ParsedMessage) : Pass × ℕ :=
  s.1.edge s.2 m (outputId outputIds m)

/-- A branch, from the end of the input. -/
def learnBranch (outputIds : List (ParsedMessage × JsText)) (current : ℕ) (p : Pass)
    (branch : List ParsedMessage) : Pass :=
  (branch.foldl (branchStep outputIds) (p, current)).1

/-- `remember` -/
def ParsedRequest.remember {τ : Type} (parsed : ParsedRequest τ) : Bool :=
  parsed.inputComplete && parsed.context = .snapshot

/-- The part of `add` that is about messages. -/
def fold {τ : Type} (nodes : Nodes) (nextNode : ℕ) (record : RequestRecord) (parsed : ParsedRequest τ) :
    Pass × Cursor :=
  let scanned := parsed.input.foldl (inputStep record parsed.remember)
    ({ nodes, nextNode }, { matching := parsed.remember })
  let output := parsed.output.foldl (outputStep record) (scanned.1, [])
  if parsed.remember && parsed.outputComplete then
    (parsed.outputBranches.foldl (learnBranch output.2 scanned.2.current) output.1, scanned.2)
  else (output.1, scanned.2)

section
variable {τ δ : Type} (canonical : List τ → JsText) (describeTools : List τ → List δ)

/-- What `add` finds out about the tools: the sets known afterwards, the request's set, the same when
    it is new, and whether it changed. -/
structure Noted (δ : Type) where
  toolSets : List (JsText × ToolSet δ)
  toolSetId : Option ℕ := none
  toolSet : Option (ToolSet δ) := none
  toolsChanged : Bool := false

/-- The part of `add` that is about tools. -/
def noteTools (h : TranscriptHistory δ) (tools : Option (List τ)) : Noted δ :=
  match tools with
  | none => { toolSets := h.toolSets }
  | some tools =>
    let key := canonical tools
    let changed (known : ToolSet δ) := decide (some known.id ≠ h.previousToolSet) &&
      (decide (0 < known.tools.length) || h.previousToolSet.isSome)
    match h.toolSets.lookup key with
    | some known =>
      { toolSets := h.toolSets, toolSetId := some known.id, toolsChanged := changed known }
    | none =>
      let known : ToolSet δ := ⟨h.toolSets.length + 1, describeTools tools⟩
      { toolSets := h.toolSets ++ [(key, known)]
        toolSetId := some known.id
        toolSet := some known
        toolsChanged := changed known }

/-- `TranscriptHistory.add` -/
def TranscriptHistory.add (h : TranscriptHistory δ) (record : RequestRecord) (parsed : ParsedRequest τ) :
    TranscriptHistory δ × Added δ :=
  let noted := noteTools canonical describeTools h parsed.tools
  let folded := fold h.nodes h.nextNode record parsed
  ({ nodes := folded.1.nodes
     nextNode := folded.1.nextNode
     toolSets := noted.toolSets
     previousToolSet := noted.toolSetId },
    { block :=
        { id := record.id
          createdAt := record.startedAt
          toolSetId := noted.toolSetId
          toolsChanged := noted.toolsChanged
          messages := folded.1.messages
          reusedCount := folded.2.reusedCount
          reusedNode := folded.2.reusedNode
          notices := parsed.notices }
      nodes := folded.1.published
      toolSet := noted.toolSet })

/-- The arguments of a call of `add`. -/
structure Call (τ : Type) where
  record : RequestRecord
  parsed : ParsedRequest τ

/-- A run: the state after the calls and what each of them returned. -/
def history : List (Call τ) → TranscriptHistory δ × List (Added δ) :=
  List.foldl (fun s c =>
    let next := s.1.add canonical describeTools c.record c.parsed
    (next.1, s.2 ++ [next.2])) ({}, [])

end

/-! ### What a pass keeps -/

/-- A node as it is published. -/
def contextNode (n : Trie.Node JsText JsText) : ContextNode := ⟨n.id, n.parent, n.value⟩

/-- The messages of a block, numbered from 0. -/
def shown (record : RequestRecord) (ms : List ParsedMessage) : List TranscriptMessage :=
  ms.zipIdx.map fun x => shownAs record x.2 x.1

@[simp] theorem shown_length (record : RequestRecord) (ms : List ParsedMessage) :
    (shown record ms).length = ms.length := by
  simp [shown]

theorem shown_snoc (record : RequestRecord) (ms : List ParsedMessage) (m : ParsedMessage) :
    shown record (ms ++ [m]) = shown record ms ++ [shownAs record ms.length m] := by
  simp [shown, List.zipIdx_append]

/-- An emitted message: what was parsed, and what is shown for it. -/
abbrev Emission := ParsedMessage × TranscriptMessage

/-- The messages with what is shown for them. -/
def emissions (record : RequestRecord) (ms : List ParsedMessage) : List Emission := ms.zip (shown record ms)

theorem emissions_snoc (record : RequestRecord) (ms : List ParsedMessage) (m : ParsedMessage) :
    emissions record (ms ++ [m]) = emissions record ms ++ [(m, shownAs record ms.length m)] := by
  rw [emissions, shown_snoc, List.zip_append (shown_length record ms).symm]
  rfl

/-- The node stands for the identity of the message, and names what is shown for it. -/
structure Names (e : Emission) (n : Trie.Node JsText JsText) : Prop where
  identity : e.1.identity = n.key
  id : e.2.id = n.value

/-- After a call has emitted `ms`: the trie only grew, is well formed, and every node in it names the
    message that was emitted for its identity, before the call or in it. -/
structure Grown (before : Nodes) (emitted : List Emission) (record : RequestRecord)
    (ms : List ParsedMessage) (p : Pass) : Prop where
  wf : Trie.Wf p.nodes
  next : p.nextNode = p.nodes.length + 1
  extends_ : ∃ new, p.nodes = before ++ new ∧ p.published = new.map contextNode
  messages : p.messages = shown record ms
  named : ∀ n ∈ p.nodes, ∃ e ∈ emitted ++ emissions record ms, Names e n

section
variable {before : Nodes} {emitted : List Emission} {record : RequestRecord} {ms : List ParsedMessage}
  {p : Pass}

theorem Grown.start {nextNode : ℕ} (hwf : Trie.Wf before) (hnext : nextNode = before.length + 1)
    (hnamed : ∀ n ∈ before, ∃ e ∈ emitted, Names e n) :
    Grown before emitted record [] { nodes := before, nextNode } where
  wf := hwf
  next := hnext
  extends_ := ⟨[], (List.append_nil _).symm, rfl⟩
  messages := rfl
  named n hn := by
    obtain ⟨e, he, hnames⟩ := hnamed n hn
    exact ⟨e, List.mem_append_left _ he, hnames⟩

theorem Grown.emit (h : Grown before emitted record ms p) (m : ParsedMessage) :
    Grown before emitted record (ms ++ [m]) (p.emit record m).1 where
  wf := h.wf
  next := h.next
  extends_ := h.extends_
  messages := by rw [shown_snoc, Pass.emit, h.messages, shown_length]
  named n hn := by
    obtain ⟨e, he, hnames⟩ := h.named n hn
    refine ⟨e, ?_, hnames⟩
    rw [emissions_snoc, ← List.append_assoc]
    exact List.mem_append_left _ he

/-- What `emit` returns names the message. -/
theorem Grown.emit_id (h : Grown before emitted record ms p) (m : ParsedMessage) :
    ∃ shown, (m, shown) ∈ emissions record (ms ++ [m]) ∧ shown.id = (p.emit record m).2 := by
  refine ⟨shownAs record ms.length m, ?_, ?_⟩
  · rw [emissions_snoc]
    exact List.mem_append_right _ (List.mem_singleton_self _)
  · rw [Pass.emit, h.messages, shown_length]

/-- An edge is in the trie afterwards, and leads to a node of it. -/
theorem Grown.edge (h : Grown before emitted record ms p) {parent : ℕ} (hp : parent ≤ p.nodes.length)
    (m : ParsedMessage) {id : JsText} (hid : ∃ shown, (m, shown) ∈ emissions record ms ∧ shown.id = id) :
    Grown before emitted record ms (p.edge parent m id).1 ∧
      (p.edge parent m id).2 ≤ (p.edge parent m id).1.nodes.length ∧
      p.nodes.length ≤ (p.edge parent m id).1.nodes.length := by
  obtain ⟨hwf, hle, -⟩ := h.wf.edge hp m.identity id
  obtain ⟨new, hnodes, hpublished⟩ := h.extends_
  unfold Pass.edge
  unfold Trie.edge at hwf hle
  split
  · rename_i node hnode
    rw [hnode] at hle
    exact ⟨h, hle, le_rfl⟩
  · rename_i hnone
    rw [hnone] at hwf hle
    rw [← h.next] at hwf hle
    refine ⟨⟨hwf, ?_, ⟨new ++ [⟨p.nextNode, parent, m.identity, id⟩], ?_, ?_⟩, h.messages, ?_⟩, hle, ?_⟩
    · simp [h.next]
    · simp [hnodes]
    · simp [hpublished, contextNode]
    · rw [List.forall_mem_append, List.forall_mem_singleton]
      obtain ⟨shown, hshown, heq⟩ := hid
      exact ⟨h.named, (m, shown), List.mem_append_right _ hshown, rfl, heq⟩
    · simp

/-! ### The loop over the input -/

/-- The identities of messages. -/
def identities (ms : List ParsedMessage) : List JsText := ms.map ParsedMessage.identity

@[simp] theorem identities_length (ms : List ParsedMessage) : (identities ms).length = ms.length :=
  List.length_map ..

/-- What holds after the messages in `done`: the cursor says how far the trie from before the call was
    followed, and every message behind that point was emitted. -/
structure Scanned (before : Nodes) (emitted : List Emission) (record : RequestRecord) (remember : Bool)
    (done : List ParsedMessage) (s : Pass × Cursor) : Prop where
  grown : Grown before emitted record (done.drop s.2.reusedCount) s.1
  current_le : s.2.current ≤ s.1.nodes.length
  count_le : s.2.reusedCount ≤ done.length
  path : Trie.walk before 0 ((identities done).take s.2.reusedCount) = some s.2.reusedNode
  follows : s.2.matching = true →
    s.1.nodes = before ∧ s.2.reusedCount = done.length ∧ s.2.current = s.2.reusedNode
  stuck : s.2.matching = false → remember = true → ∃ key,
    (identities done)[s.2.reusedCount]? = some key ∧ Trie.child before s.2.reusedNode key = none
  idle : remember = false → s.1.nodes = before ∧ s.2.reusedCount = 0 ∧ s.2.matching = false

theorem Scanned.start {remember : Bool} (h : Grown before emitted record [] p) (hp : p.nodes = before) :
    Scanned before emitted record remember [] (p, { matching := remember }) where
  grown := h
  current_le := Nat.zero_le _
  count_le := le_rfl
  path := rfl
  follows _ := ⟨hp, rfl, rfl⟩
  stuck hf ht := absurd ht (ne_true_of_eq_false hf)
  idle hf := ⟨hp, rfl, hf⟩

theorem take_snoc_of_le {α : Type} {xs : List α} {x : α} {k : ℕ} (h : k ≤ xs.length) :
    (xs ++ [x]).take k = xs.take k := List.take_append_of_le_length h

theorem Scanned.known {remember : Bool} {done : List ParsedMessage} {s : Pass × Cursor}
    {m : ParsedMessage} {node : Trie.Node JsText JsText}
    (h : Scanned before emitted record remember done s) (hmatching : s.2.matching = true)
    (hnode : Trie.child s.1.nodes s.2.current m.identity = some node) :
    Scanned before emitted record remember (done ++ [m])
      (s.1, { s.2 with
        current := node.id, reusedCount := s.2.reusedCount + 1, reusedNode := node.id }) := by
  obtain ⟨hnodes, hcount, hcurrent⟩ := h.follows hmatching
  have hpath := h.path
  rw [hcount, ← identities_length, List.take_length, ← hcurrent] at hpath
  rw [hnodes] at hnode
  have hgrown := h.grown
  rw [show done.drop s.2.reusedCount = [] from List.drop_of_length_le hcount.ge] at hgrown
  refine ⟨?_, ?_, ?_, ?_, ?_, ?_, ?_⟩
  · rwa [show (done ++ [m]).drop (s.2.reusedCount + 1) = [] from
      List.drop_of_length_le (by simp [hcount])]
  · exact (h.grown.wf.mem_id (by rw [hnodes]; exact (Trie.child_some hnode).1)).2
  · simp [hcount]
  · have hall : (identities (done ++ [m])).take (s.2.reusedCount + 1) =
        identities done ++ [m.identity] := by
      rw [List.take_of_length_le (by simp [hcount])]
      simp [identities]
    simp only
    rw [hall, Trie.walk_snoc, hpath, Option.bind_some, hnode]
    rfl
  · exact fun _ => ⟨hnodes, by simp [hcount], rfl⟩
  · intro hf
    rw [hmatching] at hf
    cases hf
  · intro hf
    rw [(h.idle hf).2.2] at hmatching
    cases hmatching

/-- The message that ends the match, and every message after it, is emitted. -/
theorem Scanned.fresh {remember : Bool} {done : List ParsedMessage} {s : Pass × Cursor}
    {m : ParsedMessage} {p : Pass} {current : ℕ}
    (h : Scanned before emitted record remember done s)
    (hnone : s.2.matching = true → Trie.child s.1.nodes s.2.current m.identity = none)
    (hgrown : Grown before emitted record (done.drop s.2.reusedCount ++ [m]) p)
    (hcurrent : current ≤ p.nodes.length)
    (hidle : remember = false → p.nodes = s.1.nodes) :
    Scanned before emitted record remember (done ++ [m])
      (p, { s.2 with matching := false, current := current }) := by
  have hdrop : (done ++ [m]).drop s.2.reusedCount = done.drop s.2.reusedCount ++ [m] :=
    List.drop_append_of_le_length h.count_le
  rw [← hdrop] at hgrown
  refine ⟨hgrown, hcurrent, ?_, ?_, ?_, ?_, ?_⟩
  · rw [List.length_append]
    exact h.count_le.trans (Nat.le_add_right _ _)
  · have hids : identities (done ++ [m]) = identities done ++ [m.identity] := List.map_append ..
    simp only
    rw [hids, take_snoc_of_le (by rw [identities_length]; exact h.count_le)]
    exact h.path
  · intro hf
    cases hf
  · intro _ hremember
    have hids : identities (done ++ [m]) = identities done ++ [m.identity] := List.map_append ..
    rw [hids]
    cases hm : s.2.matching with
    | false =>
      obtain ⟨key, hkey, hchild⟩ := h.stuck hm hremember
      refine ⟨key, ?_, hchild⟩
      rw [List.getElem?_append_left (List.getElem?_eq_some_iff.mp hkey).1]
      exact hkey
    | true =>
      obtain ⟨hnodes, hcount, hcur⟩ := h.follows hm
      have hchild := hnone hm
      rw [hnodes, hcur] at hchild
      refine ⟨m.identity, ?_, hchild⟩
      simp only
      rw [hcount, ← identities_length, List.getElem?_concat_length]
  · intro hf
    obtain ⟨hnodes, hcount, -⟩ := h.idle hf
    exact ⟨(hidle hf).trans hnodes, hcount, rfl⟩

theorem Scanned.step {remember : Bool} {done : List ParsedMessage} {s : Pass × Cursor}
    (h : Scanned before emitted record remember done s) (m : ParsedMessage) :
    Scanned before emitted record remember (done ++ [m]) (inputStep record remember s m) := by
  unfold inputStep
  split
  · rename_i node hnode
    split at hnode
    · rename_i hmatching
      exact h.known hmatching hnode
    · cases hnode
  · rename_i hnone
    have hnone' : s.2.matching = true → Trie.child s.1.nodes s.2.current m.identity = none := by
      intro hm
      rwa [if_pos hm] at hnone
    have hgrown := h.grown.emit m
    split
    · rename_i hremember
      obtain ⟨hedge, hle, -⟩ := hgrown.edge h.current_le m (h.grown.emit_id m)
      refine h.fresh hnone' hedge hle ?_
      intro hf
      rw [hremember] at hf
      cases hf
    · exact h.fresh hnone' hgrown h.current_le fun _ => rfl

theorem Scanned.run {remember : Bool} : ∀ {ms done : List ParsedMessage} {s : Pass × Cursor},
    Scanned before emitted record remember done s →
    Scanned before emitted record remember (done ++ ms) (ms.foldl (inputStep record remember) s)
  | [], done, s, h => by rwa [List.append_nil]
  | m :: ms, done, s, h => by
    rw [List.foldl_cons, List.append_cons]
    exact (h.step m).run

/-! ### Outputs and branches -/

/-- What holds while the outputs are emitted: the trie stays as it is, and each output has an id. -/
structure Emitting (before : Nodes) (emitted : List Emission) (record : RequestRecord) (nodes : Nodes)
    (inputs outputs : List ParsedMessage) (s : Pass × List (ParsedMessage × JsText)) : Prop where
  grown : Grown before emitted record (inputs ++ outputs) s.1
  nodes_eq : s.1.nodes = nodes
  ids : ∀ m ∈ outputs, ∃ shown, (m, shown) ∈ emissions record (inputs ++ outputs) ∧
    s.2.lookup m = some shown.id

variable {nodes : Nodes} {inputs : List ParsedMessage}

theorem Emitting.step {outputs : List ParsedMessage} {s : Pass × List (ParsedMessage × JsText)}
    (h : Emitting before emitted record nodes inputs outputs s) (m : ParsedMessage) :
    Emitting before emitted record nodes inputs (outputs ++ [m]) (outputStep record s m) := by
  have hgrown := h.grown.emit m
  obtain ⟨shown, hshown, hid⟩ := h.grown.emit_id m
  rw [List.append_assoc] at hgrown hshown
  refine ⟨hgrown, h.nodes_eq, fun x hx => ?_⟩
  by_cases hm : x = m
  · subst hm
    refine ⟨shown, hshown, ?_⟩
    rw [outputStep, List.lookup_cons_self, hid]
  · have hx' : x ∈ outputs := by
      rcases List.mem_append.mp hx with hx | hx
      · exact hx
      · exact absurd (List.mem_singleton.mp hx) hm
    obtain ⟨old, hold, hlookup⟩ := h.ids x hx'
    refine ⟨old, ?_, ?_⟩
    · rw [← List.append_assoc, emissions_snoc]
      exact List.mem_append_left _ hold
    · rw [outputStep, List.lookup_cons, beq_eq_false_iff_ne.mpr hm]
      exact hlookup

theorem Emitting.run : ∀ {ms outputs : List ParsedMessage} {s : Pass × List (ParsedMessage × JsText)},
    Emitting before emitted record nodes inputs outputs s →
    Emitting before emitted record nodes inputs (outputs ++ ms) (ms.foldl (outputStep record) s)
  | [], outputs, s, h => by rwa [List.append_nil]
  | m :: ms, outputs, s, h => by
    rw [List.foldl_cons, List.append_cons]
    exact (h.step m).run

/-- What holds while branches are learnt: no message is emitted, and no node is lost. -/
structure Learning (before : Nodes) (emitted : List Emission) (record : RequestRecord)
    (ms : List ParsedMessage) (size : ℕ) (p : Pass) : Prop where
  grown : Grown before emitted record ms p
  size_le : size ≤ p.nodes.length

variable {size current : ℕ} {outputIds : List (ParsedMessage × JsText)}

theorem Learning.along {branch : List ParsedMessage}
    (hids : ∀ m ∈ branch, ∃ shown, (m, shown) ∈ emissions record ms ∧ shown.id = outputId outputIds m) :
    ∀ {p : Pass} {tip : ℕ}, Learning before emitted record ms size p → tip ≤ p.nodes.length →
      Learning before emitted record ms size (branch.foldl (branchStep outputIds) (p, tip)).1 := by
  induction branch with
  | nil => exact fun h _ => h
  | cons m branch ih =>
    intro p tip h htip
    rw [List.forall_mem_cons] at hids
    obtain ⟨hgrown, hle, hsize⟩ := h.grown.edge htip m hids.1
    rw [List.foldl_cons]
    exact ih hids.2 ⟨hgrown, h.size_le.trans hsize⟩ hle

theorem Learning.branches (hcurrent : current ≤ size) : ∀ {branches : List (List ParsedMessage)} {p : Pass},
    (∀ branch ∈ branches, ∀ m ∈ branch,
      ∃ shown, (m, shown) ∈ emissions record ms ∧ shown.id = outputId outputIds m) →
    Learning before emitted record ms size p →
    Learning before emitted record ms size (branches.foldl (learnBranch outputIds current) p)
  | [], _, _, h => h
  | branch :: branches, p, hids, h => by
    rw [List.forall_mem_cons] at hids
    rw [List.foldl_cons]
    exact Learning.branches hcurrent hids.2 (Learning.along hids.1 h (hcurrent.trans h.size_le))

/-! ### The spec of a call -/

/-- What a call does to the trie that it finds. -/
structure Folded {τ : Type} (before : Nodes) (emitted : List Emission) (record : RequestRecord)
    (parsed : ParsedRequest τ) (r : Pass × Cursor) : Prop where
  grown : Grown before emitted record (parsed.input.drop r.2.reusedCount ++ parsed.output) r.1
  longest : parsed.remember = true → Trie.IsLongest before (identities parsed.input) r.2.reusedCount
  idle : parsed.remember = false → r.2.reusedCount = 0 ∧ r.1.nodes = before
  path : Trie.walk before 0 ((identities parsed.input).take r.2.reusedCount) = some r.2.reusedNode

/-- The end of the input loop: the count is the longest one. -/
theorem Scanned.longest {input : List ParsedMessage} {s : Pass × Cursor}
    (h : Scanned before emitted record true input s) :
    Trie.IsLongest before (identities input) s.2.reusedCount := by
  cases hm : s.2.matching with
  | false =>
    obtain ⟨key, hkey, hchild⟩ := h.stuck hm rfl
    exact Trie.isLongest_of_stuck h.path hkey hchild
  | true =>
    obtain ⟨-, hcount, -⟩ := h.follows hm
    have hpath := h.path
    rw [hcount, ← identities_length, List.take_length] at hpath
    have := Trie.isLongest_of_walk hpath
    rwa [identities_length, ← hcount] at this

theorem fold_spec {τ : Type} {nextNode : ℕ} {parsed : ParsedRequest τ} (hwf : Trie.Wf before)
    (hnext : nextNode = before.length + 1) (hnamed : ∀ n ∈ before, ∃ e ∈ emitted, Names e n)
    (hbranches : ∀ branch ∈ parsed.outputBranches, ∀ m ∈ branch, m ∈ parsed.output) :
    Folded before emitted record parsed (fold before nextNode record parsed) := by
  have hstart : Scanned before emitted record parsed.remember []
      ({ nodes := before, nextNode }, { matching := parsed.remember }) :=
    .start (.start hwf hnext hnamed) rfl
  have hscan := @Scanned.run _ _ _ _ parsed.input _ _ hstart
  rw [List.nil_append] at hscan
  set scanned := parsed.input.foldl (inputStep record parsed.remember)
    ({ nodes := before, nextNode }, { matching := parsed.remember })
  have hemit : Emitting before emitted record scanned.1.nodes
      (parsed.input.drop scanned.2.reusedCount) parsed.output
      (parsed.output.foldl (outputStep record) (scanned.1, [])) := by
    have hempty : Emitting before emitted record scanned.1.nodes
        (parsed.input.drop scanned.2.reusedCount) [] (scanned.1, []) :=
      ⟨by rw [List.append_nil]; exact hscan.grown, rfl, by simp⟩
    exact hempty.run
  set output := parsed.output.foldl (outputStep record) (scanned.1, [])
  have hids : ∀ branch ∈ parsed.outputBranches, ∀ m ∈ branch, ∃ shown, (m, shown) ∈ emissions record
      (parsed.input.drop scanned.2.reusedCount ++ parsed.output) ∧ shown.id = outputId output.2 m := by
    intro branch hbranch m hm
    obtain ⟨shown, hshown, hid⟩ := hemit.ids m (hbranches branch hbranch m hm)
    refine ⟨shown, hshown, ?_⟩
    rw [outputId, hid, Option.getD_some]
  have hcurrent : scanned.2.current ≤ output.1.nodes.length := by
    rw [hemit.nodes_eq]
    exact hscan.current_le
  have hlearn : Learning before emitted record (parsed.input.drop scanned.2.reusedCount ++ parsed.output)
      output.1.nodes.length
      (parsed.outputBranches.foldl (learnBranch output.2 scanned.2.current) output.1) :=
    Learning.branches hcurrent hids ⟨hemit.grown, le_rfl⟩
  have hlongest : parsed.remember = true →
      Trie.IsLongest before (identities parsed.input) scanned.2.reusedCount := by
    intro hremember
    rw [hremember] at hscan
    exact hscan.longest
  unfold fold
  simp only
  split
  · rename_i hcomplete
    rw [Bool.and_eq_true] at hcomplete
    refine ⟨hlearn.grown, hlongest, ?_, hscan.path⟩
    intro hf
    rw [hcomplete.1] at hf
    cases hf
  · refine ⟨hemit.grown, hlongest, ?_, hscan.path⟩
    intro hf
    obtain ⟨hnodes, hcount, -⟩ := hscan.idle hf
    exact ⟨hcount, hemit.nodes_eq.trans hnodes⟩

end

/-! ### Runs -/

theorem messageId_inj {r r' : RequestRecord} {i j : ℕ} (h : messageId r i = messageId r' j) :
    r.id = r'.id ∧ i = j := by
  have hcolon : ∀ n, 58 ∉ decimal n := fun n hn => by
    have := (digit_of_mem_decimal hn).2
    omega
  obtain ⟨hid, hdecimal⟩ := append_cons_inj (hcolon i) (hcolon j) h
  exact ⟨hid, decimal_injective hdecimal⟩

theorem shown_ids (record : RequestRecord) (ms : List ParsedMessage) :
    (shown record ms).map TranscriptMessage.id = (List.range ms.length).map (messageId record) := by
  rw [shown, List.map_map, List.range_eq_range', ← List.zipIdx_map_snd 0 ms, List.map_map]
  rfl

section
variable {τ δ : Type} {canonical : List τ → JsText} {describeTools : List τ → List δ}

/-- The messages of the blocks so far. -/
def emittedMessages (results : List (Added δ)) : List TranscriptMessage :=
  results.flatMap fun r => r.block.messages

/-- The messages that a call emits: what it does not reuse of its input, and its output. -/
def Call.emitted (c : Call τ) (added : Added δ) : List ParsedMessage :=
  c.parsed.input.drop added.block.reusedCount ++ c.parsed.output

/-- The emitted messages of all calls, each with what its block shows for it. -/
def allEmissions (calls : List (Call τ)) (results : List (Added δ)) : List Emission :=
  (calls.zip results).flatMap fun x => (x.1.emitted x.2).zip x.2.block.messages

/-- In every state: the trie is a tree, it is what was published, and each of its nodes names one
    message of the blocks so far, which was emitted for a message of the node's identity. -/
structure Published (calls : List (Call τ)) (h : TranscriptHistory δ) (results : List (Added δ)) :
    Prop where
  wf : Trie.Wf h.nodes
  nodes_eq : results.flatMap Added.nodes = h.nodes.map contextNode
  named : ∀ n ∈ h.nodes, ∃ e ∈ allEmissions calls results, Names e n ∧
    ∀ m ∈ emittedMessages results, m.id = n.value → m = e.2

/-- Of every call: how much of the input was folded, along which nodes, and what the block shows. -/
structure Lossless (before after : Nodes) (c : Call τ) (added : Added δ) : Prop where
  longest : c.parsed.remember = true →
    Trie.IsLongest before (identities c.parsed.input) added.block.reusedCount
  incomplete : c.parsed.remember = false →
    added.block.reusedCount = 0 ∧ added.nodes = [] ∧ after = before
  spells : ∀ fuel ≥ added.block.reusedNode, Trie.spell after fuel added.block.reusedNode =
    (identities c.parsed.input).take added.block.reusedCount
  messages : added.block.messages =
    shown c.record (c.emitted added)

/-- The invariant of a run. -/
structure Sound (calls : List (Call τ)) (s : TranscriptHistory δ × List (Added δ)) : Prop where
  wf : Trie.Wf s.1.nodes
  next : s.1.nextNode = s.1.nodes.length + 1
  nodes_eq : s.2.flatMap Added.nodes = s.1.nodes.map contextNode
  length_eq : calls.length = s.2.length
  named : ∀ n ∈ s.1.nodes, ∃ e ∈ allEmissions calls s.2, Names e n
  origin : ∀ id ∈ (emittedMessages s.2).map TranscriptMessage.id,
    ∃ c ∈ calls, ∃ i, id = messageId c.record i
  distinct : ((emittedMessages s.2).map TranscriptMessage.id).Nodup

theorem emittedMessages_snoc (results : List (Added δ)) (added : Added δ) :
    emittedMessages (results ++ [added]) = emittedMessages results ++ added.block.messages := by
  simp [emittedMessages]

theorem allEmissions_snoc {calls : List (Call τ)} {results : List (Added δ)}
    (h : calls.length = results.length) (c : Call τ) (added : Added δ) :
    allEmissions (calls ++ [c]) (results ++ [added]) =
      allEmissions calls results ++ (c.emitted added).zip added.block.messages := by
  simp [allEmissions, List.zip_append h]

theorem shown_of_mem_allEmissions {calls : List (Call τ)} {results : List (Added δ)} {e : Emission}
    (h : e ∈ allEmissions calls results) : e.2 ∈ emittedMessages results := by
  obtain ⟨⟨c, added⟩, hx, he⟩ := List.mem_flatMap.mp h
  exact List.mem_flatMap.mpr ⟨added, (List.of_mem_zip hx).2, (List.of_mem_zip he).2⟩

theorem history_snoc (pre : List (Call τ)) (c : Call τ) :
    history canonical describeTools (pre ++ [c]) =
      (((history canonical describeTools pre).1.add canonical describeTools c.record c.parsed).1,
        (history canonical describeTools pre).2 ++
          [((history canonical describeTools pre).1.add canonical describeTools c.record c.parsed).2]) := by
  rw [history, List.foldl_append]
  rfl

theorem sound_start : Sound ([] : List (Call τ)) (({}, []) : TranscriptHistory δ × List (Added δ)) :=
  ⟨Trie.wf_nil, rfl, rfl, rfl, by simp, by simp [emittedMessages], by simp [emittedMessages]⟩

theorem Sound.published {calls : List (Call τ)} {s : TranscriptHistory δ × List (Added δ)}
    (h : Sound calls s) : Published calls s.1 s.2 := by
  refine ⟨h.wf, h.nodes_eq, ?_⟩
  intro n hn
  obtain ⟨e, he, hnames⟩ := h.named n hn
  refine ⟨e, he, hnames, fun m hm hid => ?_⟩
  exact List.inj_on_of_nodup_map h.distinct hm (shown_of_mem_allEmissions he)
    (hid.trans hnames.id.symm)

/-- One call: what it does, and that the invariant is kept. -/
theorem Sound.step {calls : List (Call τ)} {s : TranscriptHistory δ × List (Added δ)} {c : Call τ}
    (h : Sound calls s) (hfresh : ∀ c' ∈ calls, c'.record.id ≠ c.record.id)
    (hbranches : ∀ branch ∈ c.parsed.outputBranches, ∀ m ∈ branch, m ∈ c.parsed.output) :
    Lossless s.1.nodes (s.1.add canonical describeTools c.record c.parsed).1.nodes c
        (s.1.add canonical describeTools c.record c.parsed).2 ∧
      Sound (calls ++ [c]) ((s.1.add canonical describeTools c.record c.parsed).1,
        s.2 ++ [(s.1.add canonical describeTools c.record c.parsed).2]) := by
  have hf : Folded s.1.nodes (allEmissions calls s.2) c.record c.parsed
      (fold s.1.nodes s.1.nextNode c.record c.parsed) := fold_spec h.wf h.next h.named hbranches
  obtain ⟨new, hnodes, hpublished⟩ := hf.grown.extends_
  obtain ⟨count, hids⟩ : ∃ n,
      (fold s.1.nodes s.1.nextNode c.record c.parsed).1.messages.map TranscriptMessage.id =
        (List.range n).map (messageId c.record) := by
    rw [hf.grown.messages]
    exact ⟨_, shown_ids _ _⟩
  constructor
  · refine ⟨hf.longest, ?_, ?_, hf.grown.messages⟩
    · intro hidle
      obtain ⟨hcount, hsame⟩ := hf.idle hidle
      refine ⟨hcount, ?_, hsame⟩
      have hnil : new = [] := List.append_right_eq_self.mp (hnodes.symm.trans hsame)
      rw [hnil] at hpublished
      exact hpublished
    · intro fuel hfuel
      refine hf.grown.wf.spell_walk ?_ hfuel
      rw [hnodes]
      exact Trie.walk_append hf.path
  · refine ⟨hf.grown.wf, hf.grown.next, ?_, by simp [h.length_eq], ?_, ?_, ?_⟩
    · rw [List.flatMap_append, h.nodes_eq]
      simp only [TranscriptHistory.add, List.flatMap_cons, List.flatMap_nil, List.append_nil]
      rw [hpublished, hnodes, List.map_append]
    · intro n hn
      obtain ⟨e, he, hnames⟩ := hf.grown.named n hn
      refine ⟨e, ?_, hnames⟩
      rw [allEmissions_snoc h.length_eq]
      simp only [TranscriptHistory.add, Call.emitted]
      rwa [hf.grown.messages]
    · intro id hid
      rw [emittedMessages_snoc, List.map_append, List.mem_append] at hid
      rcases hid with hid | hid
      · obtain ⟨c', hc', i, hi⟩ := h.origin id hid
        exact ⟨c', List.mem_append_left _ hc', i, hi⟩
      · obtain ⟨i, -, hi⟩ := List.mem_map.mp (hids ▸ hid)
        exact ⟨c, List.mem_append_right _ (List.mem_singleton_self c), i, hi.symm⟩
    · rw [emittedMessages_snoc, List.map_append, List.nodup_append]
      refine ⟨h.distinct, ?_, ?_⟩
      · refine (congrArg List.Nodup hids).mpr (List.Nodup.map ?_ List.nodup_range)
        exact fun i j hij => (messageId_inj hij).2
      · intro id hid id' hid' heq
        obtain ⟨c', hc', i, rfl⟩ := h.origin id hid
        obtain ⟨j, -, hj⟩ := List.mem_map.mp (hids ▸ hid')
        exact hfresh c' hc' (messageId_inj (heq.trans hj.symm)).1

theorem Sound.run (calls : List (Call τ)) (hids : (calls.map fun c => c.record.id).Nodup)
    (hbranches : ∀ c ∈ calls, ∀ branch ∈ c.parsed.outputBranches, ∀ m ∈ branch, m ∈ c.parsed.output) :
    Sound calls (history canonical describeTools calls) := by
  induction calls using List.reverseRecOn with
  | nil => exact sound_start
  | append_singleton calls c ih =>
    rw [List.map_append, List.nodup_append] at hids
    rw [List.forall_mem_append, List.forall_mem_singleton] at hbranches
    rw [history_snoc]
    refine ((ih hids.1 hbranches.1).step ?_ hbranches.2).2
    intro c' hc'
    exact hids.2.2 _ (List.mem_map_of_mem hc') _ (by simp)

/-- LOSSLESS: after any calls with records of different ids, the nodes form a tree whose nodes each
    name the one message that was emitted for its identity; and each call folds the longest known
    part of its input, or nothing when the request is incomplete or leaves its history to the
    provider, and shows the rest. -/
theorem folding_lossless (canonical : List τ → JsText) (describeTools : List τ → List δ)
    (calls : List (Call τ)) (hids : (calls.map fun c => c.record.id).Nodup)
    (hbranches : ∀ c ∈ calls, ∀ branch ∈ c.parsed.outputBranches, ∀ m ∈ branch, m ∈ c.parsed.output) :
    (∀ pre post, calls = pre ++ post → Published pre (history canonical describeTools pre).1
      (history canonical describeTools pre).2) ∧
    ∀ pre c post, calls = pre ++ c :: post →
      Lossless (history canonical describeTools pre).1.nodes
        (history canonical describeTools (pre ++ [c])).1.nodes c
        ((history canonical describeTools pre).1.add canonical describeTools c.record c.parsed).2 := by
  have hstart : ∀ pre post, calls = pre ++ post → Sound pre (history canonical describeTools pre) := by
    rintro pre post rfl
    rw [List.map_append, List.nodup_append] at hids
    exact .run pre hids.1 (List.forall_mem_append.mp hbranches).1
  refine ⟨fun pre post h => (hstart pre post h).published, ?_⟩
  rintro pre c post rfl
  rw [history_snoc]
  refine ((hstart pre (c :: post) rfl).step ?_ (hbranches c (by simp))).1
  intro c' hc'
  rw [List.map_append, List.nodup_append] at hids
  exact hids.2.2 _ (List.mem_map_of_mem hc') _ (by simp)

end

/-! ### A question, its answer, and the next question -/

/-- A message of one text. -/
def say (ref : ℕ) (role text : String) : ParsedMessage where
  ref := ref
  role := js role
  label := none
  content := js text
  identity := js ("\x7b\"content\":[\x7b\"text\":\"" ++ text ++ "\",\"type\":\"text\"\x7d],\"role\":\"" ++
    role ++ "\"\x7d")

/-- A request with its answer. -/
def turn (id : String) (input : List ParsedMessage) (answer : ParsedMessage) : Call Unit where
  record := ⟨js id, js "2026-01-01T00:00:00Z"⟩
  parsed :=
    { tools := none, input, output := [answer], context := .snapshot, inputComplete := true
      outputComplete := true, notices := [], outputBranches := [[answer]] }

/-- A conversation of two turns. -/
def twoTurns : List (Call Unit) := [
  turn "a" [say 1 "user" "hello"] (say 2 "assistant" "hi"),
  turn "b" [say 3 "user" "hello", say 4 "assistant" "hi", say 5 "user" "bye"] (say 6 "assistant" "hi")]

theorem folding_lossless_twoTurns :
    ((history (fun _ : List Unit => []) (fun _ => ([] : List Unit)) twoTurns).2.map fun r =>
      r.block.reusedCount) = [0, 2] ∧
    Published twoTurns (history (fun _ : List Unit => []) (fun _ => ([] : List Unit)) twoTurns).1
      (history (fun _ : List Unit => []) (fun _ => ([] : List Unit)) twoTurns).2 := by
  refine ⟨by decide +kernel, (folding_lossless _ _ twoTurns (by decide +kernel) ?_).1 twoTurns [] rfl⟩
  simp [twoTurns, turn]

end Llmtrace.Transcript
