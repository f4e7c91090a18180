import Mathlib.Data.List.Basic
import Mathlib.Data.List.Nodup
import Mathlib.Data.List.Range
import Mathlib.Tactic.Common

/-! A prefix trie kept as the list of its nodes in the order of their creation. Node 0 is the root and
    is not in the list; every other node has the number of its place, the number of its parent, and
    the key on the edge from there. -/

namespace Llmtrace.Schemes
namespace Trie

/-- A node with the edge that leads to it. -/
structure Node (κ β : Type) where
  id : ℕ
  parent : ℕ
  key : κ
  value : β
  deriving DecidableEq

section
variable {κ β : Type} {ns ms : List (Node κ β)}

/-- The nodes are numbered from 1 without gaps, a parent is the root or an earlier node, and two
    nodes under one parent have different keys. -/
structure Wf (ns : List (Node κ β)) : Prop where
  ids : ns.map Node.id = List.range' 1 ns.length
  parents : ∀ n ∈ ns, n.parent < n.id
  siblings : ns.Pairwise fun n m => n.parent = m.parent → n.key ≠ m.key

/-- The keys from the root to a node, found by following the parents. -/
def spell (ns : List (Node κ β)) : ℕ → ℕ → List κ
  | 0, _ => []
  | fuel + 1, id =>
    match ns.find? fun n => n.id = id with
    | none => []
    | some n => spell ns fuel n.parent ++ [n.key]

theorem wf_nil : Wf ([] : List (Node κ β)) := ⟨rfl, by simp, .nil⟩

theorem Wf.mem_id (h : Wf ns) {n : Node κ β} (hn : n ∈ ns) : 1 ≤ n.id ∧ n.id ≤ ns.length := by
  have hid : n.id ∈ List.range' 1 ns.length := h.ids ▸ List.mem_map_of_mem hn
  rw [List.mem_range'_1] at hid
  omega

theorem Wf.find_id (h : Wf ns) {n : Node κ β} (hn : n ∈ ns) :
    (ns.find? fun m => m.id = n.id) = some n := by
  have hu : (ns.map Node.id).Nodup := h.ids ▸ List.nodup_range'
  cases hm : ns.find? fun m => m.id = n.id with
  | none => exact absurd (List.find?_eq_none.mp hm n hn) (by simp)
  | some m =>
    have hid : m.id = n.id := by simpa using List.find?_some hm
    rw [List.inj_on_of_nodup_map hu (List.mem_of_find?_eq_some hm) hn hid]

variable [DecidableEq κ]

/-- The node under `parent` at `key`. -/
def child (ns : List (Node κ β)) (parent : ℕ) (key : κ) : Option (Node κ β) :=
  ns.find? fun n => n.parent = parent ∧ n.key = key

/-- From a node along a path. -/
def walk (ns : List (Node κ β)) : ℕ → List κ → Option ℕ
  | id, [] => some id
  | id, k :: ks => (child ns id k).bind fun n => walk ns n.id ks

/-- The node under `parent` at `key`, which is added when it is not there. -/
def edge (ns : List (Node κ β)) (parent : ℕ) (key : κ) (value : β) : List (Node κ β) × ℕ :=
  match child ns parent key with
  | some n => (ns, n.id)
  | none => (ns ++ [⟨ns.length + 1, parent, key, value⟩], ns.length + 1)

theorem child_some {parent : ℕ} {key : κ} {n : Node κ β} (h : child ns parent key = some n) :
    n ∈ ns ∧ n.parent = parent ∧ n.key = key :=
  ⟨List.mem_of_find?_eq_some h, by simpa using List.find?_some h⟩

theorem child_none {parent : ℕ} {key : κ} (h : child ns parent key = none) :
    ∀ n ∈ ns, n.parent = parent → n.key ≠ key := by
  intro n hn hp hk
  exact absurd (List.find?_eq_none.mp h n hn) (by simp [hp, hk])

theorem child_append {parent : ℕ} {key : κ} {n : Node κ β} (h : child ns parent key = some n) :
    child (ns ++ ms) parent key = some n := by
  rw [child, List.find?_append]
  exact Option.or_eq_some_iff.mpr (.inl h)

theorem walk_append {ks : List κ} : ∀ {id id' : ℕ}, walk ns id ks = some id' →
    walk (ns ++ ms) id ks = some id' := by
  induction ks with
  | nil => exact fun h => h
  | cons k ks ih =>
    intro id id' h
    obtain ⟨n, hn, h⟩ := Option.bind_eq_some_iff.mp h
    rw [walk, child_append hn]
    exact ih h

/-- A path and one more key. -/
theorem walk_snoc {k : κ} : ∀ {ks : List κ} {id : ℕ}, walk ns id (ks ++ [k]) =
    (walk ns id ks).bind fun p => (child ns p k).map Node.id
  | [], id => by
    rw [List.nil_append, walk, walk, Option.bind_some, Option.map_eq_bind]
    rfl
  | k' :: ks, id => by
    rw [List.cons_append, walk, walk, Option.bind_assoc]
    congr 1
    funext n
    exact walk_snoc

theorem walk_prefix {id : ℕ} {ks ls : List κ} (h : (walk ns id (ks ++ ls)).isSome) :
    (walk ns id ks).isSome := by
  induction ls using List.reverseRecOn with
  | nil => rwa [List.append_nil] at h
  | append_singleton ls k ih =>
    rw [← List.append_assoc, walk_snoc] at h
    refine ih ?_
    cases hw : walk ns id (ks ++ ls) with
    | none => rw [hw] at h; exact h
    | some p => rfl

/-- `k` is the length of the longest initial part of the keys that is a path. -/
def IsLongest (ns : List (Node κ β)) (ks : List κ) (k : ℕ) : Prop :=
  k ≤ ks.length ∧ (walk ns 0 (ks.take k)).isSome ∧
    ∀ j ≤ ks.length, (walk ns 0 (ks.take j)).isSome → j ≤ k

/-- Where a walk gets stuck, no longer part is a path. -/
theorem isLongest_of_stuck {ks : List κ} {key : κ} {k p : ℕ} (hw : walk ns 0 (ks.take k) = some p)
    (hk : ks[k]? = some key) (hnone : child ns p key = none) : IsLongest ns ks k := by
  obtain ⟨hlt, hkey⟩ := List.getElem?_eq_some_iff.mp hk
  refine ⟨hlt.le, by rw [hw]; rfl, ?_⟩
  intro j _ hj
  by_contra hgt
  have hstuck : walk ns 0 (ks.take (k + 1)) = none := by
    rw [List.take_add_one, hk, Option.toList_some, walk_snoc, hw, Option.bind_some, hnone]
    rfl
  have hcut : ks.take j = ks.take (k + 1) ++ (ks.take j).drop (k + 1) := by
    conv_lhs => rw [← List.take_append_drop (k + 1) (ks.take j)]
    rw [List.take_take, min_eq_left (by omega)]
  rw [hcut] at hj
  have := walk_prefix hj
  rw [hstuck] at this
  cases this

theorem isLongest_of_walk {ks : List κ} {p : ℕ} (hw : walk ns 0 ks = some p) :
    IsLongest ns ks ks.length :=
  ⟨le_rfl, by rw [List.take_length, hw]; rfl, fun _ hj _ => hj⟩

/-- The parents of a node spell the path that leads to it. -/
theorem Wf.spell_walk (h : Wf ns) {ks : List κ} : ∀ {id fuel : ℕ}, walk ns 0 ks = some id →
    id ≤ fuel → spell ns fuel id = ks := by
  induction ks using List.reverseRecOn with
  | nil =>
    intro id fuel hw _
    cases hw
    cases fuel with
    | zero => rfl
    | succ fuel =>
      have hnone : (ns.find? fun n => n.id = 0) = none := by
        refine List.find?_eq_none.mpr fun n hn => ?_
        have := (h.mem_id hn).1
        simp only [decide_eq_true_eq]
        omega
      rw [spell, hnone]
  | append_singleton ks k ih =>
    intro id fuel hw hfuel
    rw [walk_snoc] at hw
    obtain ⟨p, hp, hw⟩ := Option.bind_eq_some_iff.mp hw
    obtain ⟨n, hn, rfl⟩ := Option.map_eq_some_iff.mp hw
    obtain ⟨hmem, rfl, rfl⟩ := child_some hn
    have hlt := h.parents n hmem
    obtain ⟨fuel, rfl⟩ : ∃ f, fuel = f + 1 := ⟨fuel - 1, by omega⟩
    rw [spell, h.find_id hmem]
    simp only
    rw [ih hp (by omega)]

/-- The spec of `edge`: at most one node is added, at the end. -/
theorem Wf.edge (h : Wf ns) {parent : ℕ} (hp : parent ≤ ns.length) (key : κ) (value : β) :
    Wf (edge ns parent key value).1 ∧ (edge ns parent key value).2 ≤ (edge ns parent key value).1.length ∧
      ∃ new, (edge ns parent key value).1 = ns ++ new ∧ ∀ n ∈ new, n.value = value := by
  unfold Trie.edge
  split
  · rename_i n hn
    exact ⟨h, (h.mem_id (child_some hn).1).2, [], (List.append_nil ns).symm, by simp⟩
  · rename_i hnone
    refine ⟨⟨?_, ?_, ?_⟩, by simp, _, rfl, by simp⟩
    · rw [List.map_append, h.ids, List.length_append, List.length_singleton, List.range'_concat,
        Nat.one_mul, Nat.add_comm 1]
      rfl
    · rw [List.forall_mem_append, List.forall_mem_singleton]
      exact ⟨h.parents, Nat.lt_succ_of_le hp⟩
    · rw [List.pairwise_append]
      refine ⟨h.siblings, List.pairwise_singleton _ _, ?_⟩
      intro n hn m hm
      rw [List.mem_singleton.mp hm]
      exact child_none hnone n hn

end
end Trie
end Llmtrace.Schemes
