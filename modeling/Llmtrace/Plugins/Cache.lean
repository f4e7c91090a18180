import Llmtrace.Schemes.Word
import Llmtrace.Schemes.Table
import Llmtrace.Schemes.Recency

/-! The cache that the host offers to its plugins (`plugins/cache.rs`): a map from hashed keys to
    values, and a queue of the same keys with the least recently used one in front. Both are kept in
    step by hand; `Represents` says that together they are the list of `Schemes.Recency`, and every
    call keeps it.

    Calls are serialised by the mutex, and the time of a call is an argument. -/

namespace Llmtrace.Plugins
open Schemes

/-- Times are in nanoseconds. -/
def secs (n : ℕ) : ℕ := n * 10 ^ 9

/-- `MAX_KEY_BYTES` -/
def maxKeyBytes : ℕ := 256

/-- `MAX_VALUE_BYTES` -/
def maxValueBytes : ℕ := 16 * 1024

/-- `MAX_ENTRY_TTL_SECS` -/
def maxEntryTtlSecs : ℕ := 3600

/-- `CachedValue` -/
structure CachedValue where
  value : Bytes
  expiresAt : ℕ

/-- `CacheState`: the entries by the digests of their keys, and the order of their use. -/
structure CacheState where
  entries : Table String CachedValue := ∅
  order : List String := []

/-- What `PluginCache::new` is given. -/
structure CacheConfig where
  capacity : ℕ
  /-- In seconds. -/
  defaultTtl : ℕ

/-- `state.order.remove(position)`, for the position of `digest`. -/
def dropFirst (digest : String) (order : List String) : List String := order.erase digest

/-- The loop of `put` that makes room for one entry. -/
def evict (capacity : ℕ) : Table String CachedValue → List String → CacheState
  | entries, [] => ⟨entries, []⟩
  | entries, evicted :: order =>
    if capacity ≤ entries.size then evict capacity (entries.erase evicted) order
    else ⟨entries, evicted :: order⟩

section
variable (sha256Hex : Bytes → String) (cfg : CacheConfig)

/-- `PluginCache::get` -/
def CacheState.get (s : CacheState) (key : Bytes) (now : ℕ) : CacheState × Option Bytes :=
  if cfg.capacity = 0 then (s, none)
  else
    let digest := sha256Hex key
    match s.entries.lookup digest with
    | none => (s, none)
    | some entry =>
      if now < entry.expiresAt then
        ({ s with order := if digest ∈ s.order then dropFirst digest s.order ++ [digest] else s.order },
          some entry.value)
      else (⟨s.entries.erase digest, s.order.filter fun candidate => candidate ≠ digest⟩, none)

/-- The bounds that `put` enforces. -/
def accepts (key value : Bytes) (ttlSecs : ℕ) : Bool :=
  !(decide (cfg.capacity = 0) || decide (maxKeyBytes < key.length) ||
    decide (maxValueBytes < value.length) || decide (maxEntryTtlSecs < ttlSecs))

/-- When an entry that is stored at `now` expires. -/
def expiryOf (ttlSecs now : ℕ) : ℕ :=
  now + if ttlSecs = 0 then secs cfg.defaultTtl else secs ttlSecs

/-- `PluginCache::put` -/
def CacheState.put (s : CacheState) (key value : Bytes) (ttlSecs now : ℕ) : CacheState × Bool :=
  if accepts cfg key value ttlSecs then
    let digest := sha256Hex key
    let s := if digest ∈ s.entries then s else evict cfg.capacity s.entries s.order
    let order := if digest ∈ s.entries then dropFirst digest s.order else s.order
    (⟨s.entries.insert digest ⟨value, expiryOf cfg ttlSecs now⟩, order ++ [digest]⟩, true)
  else (s, false)

/-! ### Calls -/

/-- A call of a plugin. -/
inductive CacheCall where
  | get (key : Bytes) (now : ℕ)
  | put (key value : Bytes) (ttlSecs now : ℕ)

/-- The key of a call. -/
def CacheCall.key : CacheCall → Bytes
  | .get key _ | .put key _ _ _ => key

/-- What a call returns. -/
inductive CacheAnswer where
  | found (value : Option Bytes)
  | stored (accepted : Bool)
  deriving DecidableEq

/-- A call on the cache. -/
def CacheState.call (s : CacheState) : CacheCall → CacheState × CacheAnswer
  | .get key now => ((s.get sha256Hex cfg key now).1, .found (s.get sha256Hex cfg key now).2)
  | .put key value ttlSecs now => ((s.put sha256Hex cfg key value ttlSecs now).1,
      .stored (s.put sha256Hex cfg key value ttlSecs now).2)

/-- The calls in order: the last state and the answers. -/
def CacheState.calls : CacheState → List CacheCall → CacheState × List CacheAnswer
  | s, [] => (s, [])
  | s, c :: cs =>
    let (s, answer) := s.call sha256Hex cfg c
    let (s, answers) := CacheState.calls s cs
    (s, answer :: answers)

/-! ### The specification -/

/-- What the cache is for: an LRU list of raw keys. -/
abbrev LruList := List (Cached Bytes Bytes)

/-- What may be stored: a key of at most 256 bytes and a value of at most 16 KiB, for at most an hour. -/
def Storable (key value : Bytes) (ttlSecs : ℕ) : Prop :=
  key.length ≤ 256 ∧ value.length ≤ 16384 ∧ ttlSecs ≤ 3600

instance (key value : Bytes) (ttlSecs : ℕ) : Decidable (Storable key value ttlSecs) :=
  inferInstanceAs (Decidable (_ ∧ _))

/-- The seconds for which an entry is kept: those asked for, or the default where none are. -/
def lifetime (ttlSecs : ℕ) : ℕ := if ttlSecs = 0 then cfg.defaultTtl else ttlSecs

/-- A call of the specification. Nothing is stored in a cache without capacity. -/
def lruCall (l : LruList) : CacheCall → LruList × CacheAnswer
  | .get key now => ((Cached.lookup key now l).1, .found (Cached.lookup key now l).2)
  | .put key value ttlSecs now =>
    if 0 < cfg.capacity ∧ Storable key value ttlSecs then
      (Cached.store cfg.capacity ⟨key, value, now + lifetime cfg ttlSecs * 1000000000⟩ l, .stored true)
    else (l, .stored false)

/-- The answers that a list of calls is to have. -/
def lruCalls : LruList → List CacheCall → LruList × List CacheAnswer
  | l, [] => (l, [])
  | l, c :: cs =>
    let (l, answer) := lruCall cfg l c
    let (l, answers) := lruCalls l cs
    (l, answer :: answers)

/-- The value and the expiry of the latest accepted `put` of a key. -/
def latestPut (key : Bytes) : List CacheCall → Option (Bytes × ℕ)
  | [] => none
  | c :: cs =>
    match latestPut key cs with
    | some stored => some stored
    | none =>
      match c with
      | .get _ _ => none
      | .put key' value ttlSecs now =>
        if key' = key ∧ 0 < cfg.capacity ∧ Storable key' value ttlSecs then
          some (value, now + lifetime cfg ttlSecs * 1000000000)
        else none

end

/-! ### The map and the queue are the list -/

/-- The state is the list `l`, its keys hashed. -/
structure Represents (sha256Hex : Bytes → String) (capacity : ℕ) (K : Set Bytes) (s : CacheState)
    (l : LruList) : Prop where
  fit : Cached.Fit capacity l
  keys : ∀ it ∈ l, it.key ∈ K
  order : s.order = l.map fun it => sha256Hex it.key
  entries : ∀ it ∈ l, s.entries.lookup (sha256Hex it.key) = some ⟨it.value, it.expiry⟩
  cover : ∀ digest ∈ s.entries, digest ∈ s.order

section
variable {sha256Hex : Bytes → String} {cfg : CacheConfig} {K : Set Bytes} {s : CacheState}
  {l : LruList}

/-- The bounds of the code are those of the specification. -/
theorem accepts_iff {key value : Bytes} {ttlSecs : ℕ} :
    accepts cfg key value ttlSecs = true ↔ 0 < cfg.capacity ∧ Storable key value ttlSecs := by
  simp only [accepts, Storable, Bool.not_eq_true', Bool.or_eq_false_iff, decide_eq_false_iff_not,
    not_lt, and_assoc]
  exact and_congr_left' Nat.pos_iff_ne_zero.symm

theorem expiryOf_eq (ttlSecs now : ℕ) :
    expiryOf cfg ttlSecs now = now + lifetime cfg ttlSecs * 1000000000 := by
  rw [expiryOf, lifetime]
  split <;> rfl

theorem represents_empty (capacity : ℕ) : Represents sha256Hex capacity K {} [] :=
  ⟨⟨List.nodup_nil, Nat.zero_le _⟩, by simp, rfl, by simp, by simp⟩

theorem Represents.order_nodup (hinj : Set.InjOn sha256Hex K)
    (h : Represents sha256Hex cfg.capacity K s l) : s.order.Nodup := by
  rw [h.order]
  refine List.Nodup.map_on ?_ (List.Nodup.of_map _ h.fit.nodup)
  intro x hx y hy heq
  exact List.inj_on_of_nodup_map h.fit.nodup hx hy (hinj (h.keys x hx) (h.keys y hy) heq)

theorem Represents.mem_iff (h : Represents sha256Hex cfg.capacity K s l) (digest : String) :
    digest ∈ s.entries ↔ digest ∈ s.order := by
  refine ⟨h.cover digest, fun hd => ?_⟩
  rw [h.order] at hd
  obtain ⟨it, hit, rfl⟩ := List.mem_map.mp hd
  exact Table.mem_of_lookup (h.entries it hit)

theorem Represents.size (hinj : Set.InjOn sha256Hex K)
    (h : Represents sha256Hex cfg.capacity K s l) : s.entries.size = l.length := by
  have hperm : s.entries.keys.Perm s.order :=
    (List.perm_ext_iff_of_nodup s.entries.keys_nodup (h.order_nodup hinj)).mpr fun d => h.mem_iff d
  have := hperm.length_eq
  rw [h.order, List.length_map] at this
  rw [← this, Table.size, AList.keys, List.keys, List.length_map]

/-- The entry of a key and its item are found together. -/
theorem Represents.lookup (hinj : Set.InjOn sha256Hex K)
    (h : Represents sha256Hex cfg.capacity K s l) {key : Bytes} (hk : key ∈ K) :
    s.entries.lookup (sha256Hex key) =
      (Cached.find key l).map fun it => ⟨it.value, it.expiry⟩ := by
  cases hf : Cached.find key l with
  | none =>
    rw [Option.map_none, AList.lookup_eq_none, h.mem_iff, h.order]
    rintro hd
    obtain ⟨it, hit, heq⟩ := List.mem_map.mp hd
    refine Cached.find_eq_none.mp hf ?_
    rw [← hinj (h.keys it hit) hk heq]
    exact List.mem_map_of_mem hit
  | some it =>
    obtain ⟨hit, rfl⟩ := Cached.mem_of_find hf
    rw [Option.map_some, h.entries it hit]

/-- The queue without a key is the queue of the list without it. -/
theorem Represents.order_without (hinj : Set.InjOn sha256Hex K)
    (h : Represents sha256Hex cfg.capacity K s l) {key : Bytes} (hk : key ∈ K) :
    (s.order.filter fun d => d ≠ sha256Hex key) =
      (Cached.without key l).map fun it => sha256Hex it.key := by
  rw [h.order, List.filter_map, Cached.without]
  refine congrArg _ (List.filter_congr fun it hit => ?_)
  have hiff : sha256Hex it.key = sha256Hex key ↔ it.key = key :=
    ⟨fun heq => hinj (h.keys it hit) hk heq, congrArg _⟩
  simp [hiff]

theorem Represents.dropFirst (hinj : Set.InjOn sha256Hex K)
    (h : Represents sha256Hex cfg.capacity K s l) {key : Bytes} (hk : key ∈ K) :
    dropFirst (sha256Hex key) s.order = (Cached.without key l).map fun it => sha256Hex it.key := by
  rw [← h.order_without hinj hk, Plugins.dropFirst, (h.order_nodup hinj).erase_eq_filter]
  refine List.filter_congr fun d _ => ?_
  by_cases hd : d = sha256Hex key <;> simp [hd]

/-- A digest that is still in the map without a key is still in its queue. -/
theorem Represents.cover_without (hinj : Set.InjOn sha256Hex K)
    (h : Represents sha256Hex cfg.capacity K s l) {key : Bytes} (hk : key ∈ K) {d : String}
    (hd : d ∈ s.entries) (hne : d ≠ sha256Hex key) :
    d ∈ (Cached.without key l).map fun it => sha256Hex it.key := by
  rw [← h.order_without hinj hk]
  exact List.mem_filter.mpr ⟨h.cover d hd, by simpa using hne⟩

/-- An entry is dropped from the map, the queue and the list. -/
theorem Represents.remove (hinj : Set.InjOn sha256Hex K)
    (h : Represents sha256Hex cfg.capacity K s l) {key : Bytes} (hk : key ∈ K) :
    Represents sha256Hex cfg.capacity K
      ⟨s.entries.erase (sha256Hex key), s.order.filter fun d => d ≠ sha256Hex key⟩
      (Cached.without key l) := by
  refine ⟨h.fit.without, fun x hx => h.keys x (Cached.mem_without.mp hx).1,
    h.order_without hinj hk, ?_, ?_⟩
  · rintro x hx
    obtain ⟨hxl, hne⟩ := Cached.mem_without.mp hx
    rw [AList.lookup_erase_ne fun heq => hne (hinj (h.keys x hxl) hk heq)]
    exact h.entries x hxl
  · rintro d hd
    rw [AList.mem_erase] at hd
    simp only [h.order_without hinj hk]
    exact h.cover_without hinj hk hd.2 hd.1

/-- An entry goes to the end of the queue and of the list. -/
theorem Represents.touch (hinj : Set.InjOn sha256Hex K)
    (h : Represents sha256Hex cfg.capacity K s l) {it : Cached Bytes Bytes} (hit : it ∈ l)
    (hfit : Cached.Fit cfg.capacity (Cached.without it.key l ++ [it])) :
    Represents sha256Hex cfg.capacity K
      { s with order := Plugins.dropFirst (sha256Hex it.key) s.order ++ [sha256Hex it.key] }
      (Cached.without it.key l ++ [it]) := by
  have hk := h.keys it hit
  have hmem : ∀ x ∈ Cached.without it.key l ++ [it], x ∈ l := by
    rintro x hx
    rcases List.mem_append.mp hx with hx | hx
    · exact (Cached.mem_without.mp hx).1
    · rwa [List.mem_singleton.mp hx]
  refine ⟨hfit, fun x hx => h.keys x (hmem x hx), ?_, fun x hx => h.entries x (hmem x hx), ?_⟩
  · simp only [h.dropFirst hinj hk, List.map_append, List.map_singleton]
  · rintro d hd
    simp only [h.dropFirst hinj hk]
    by_cases hne : d = sha256Hex it.key
    · exact List.mem_append_right _ (List.mem_singleton.mpr hne)
    · exact List.mem_append_left _ (h.cover_without hinj hk hd hne)

theorem get_represents (hinj : Set.InjOn sha256Hex K) (h : Represents sha256Hex cfg.capacity K s l)
    {key : Bytes} (hk : key ∈ K) (now : ℕ) :
    (s.get sha256Hex cfg key now).2 = (Cached.lookup key now l).2 ∧
      Represents sha256Hex cfg.capacity K (s.get sha256Hex cfg key now).1
        (Cached.lookup key now l).1 := by
  have hfit : Cached.Fit cfg.capacity (Cached.lookup key now l).1 := h.fit.lookup
  have hfind := h.lookup hinj hk
  rw [CacheState.get]
  split
  · -- a cache without capacity is empty
    rename_i hzero
    have hnil : l = [] := List.eq_nil_of_length_eq_zero (by have := h.fit.bound; omega)
    subst hnil
    exact ⟨rfl, h⟩
  rw [Cached.lookup] at hfit ⊢
  cases hf : Cached.find key l with
  | none =>
    rw [hf] at hfind
    simp only [hfind, Option.map_none]
    exact ⟨trivial, h⟩
  | some it =>
    obtain ⟨hit, rfl⟩ := Cached.mem_of_find hf
    rw [hf] at hfind hfit
    have hin : sha256Hex it.key ∈ s.order := (h.mem_iff _).mp (Table.mem_of_lookup (h.entries it hit))
    simp only [hfind, Option.map_some, if_pos hin]
    split
    · rename_i hlt
      simp only [if_pos hlt] at hfit
      exact ⟨rfl, h.touch hinj hit hfit⟩
    · exact ⟨rfl, h.remove hinj hk⟩

/-- The new entry at the end of a list that its key does not occur in. -/
theorem represents_push (hinj : Set.InjOn sha256Hex K) {entries : Table String CachedValue}
    {order : List String} {l : LruList} {it : Cached Bytes Bytes} {capacity : ℕ}
    (hfit : Cached.Fit capacity (l ++ [it])) (hkeys : ∀ x ∈ l, x.key ∈ K) (hk : it.key ∈ K)
    (horder : order = l.map fun it => sha256Hex it.key)
    (hentries : ∀ x ∈ l, entries.lookup (sha256Hex x.key) = some ⟨x.value, x.expiry⟩)
    (hcover : ∀ d ∈ entries, d ≠ sha256Hex it.key → d ∈ order) :
    Represents sha256Hex capacity K
      ⟨entries.insert (sha256Hex it.key) ⟨it.value, it.expiry⟩, order ++ [sha256Hex it.key]⟩
      (l ++ [it]) := by
  have hnodup := hfit.nodup
  rw [List.map_append, List.map_singleton, ← List.concat_eq_append, List.nodup_concat] at hnodup
  refine ⟨hfit, ?_, ?_, ?_, ?_⟩
  · rintro x hx
    rcases List.mem_append.mp hx with hx | hx
    · exact hkeys x hx
    · rw [List.mem_singleton.mp hx]; exact hk
  · rw [horder, List.map_append, List.map_singleton]
  · rintro x hx
    rcases List.mem_append.mp hx with hx | hx
    · have hne : sha256Hex x.key ≠ sha256Hex it.key := fun heq => by
        have := hinj (hkeys x hx) hk heq
        exact hnodup.1 (this ▸ List.mem_map_of_mem hx)
      rw [AList.lookup_insert_ne hne]
      exact hentries x hx
    · rw [List.mem_singleton.mp hx, AList.lookup_insert]
  · rintro d hd
    by_cases hne : d = sha256Hex it.key
    · exact List.mem_append_right _ (List.mem_singleton.mpr hne)
    · refine List.mem_append_left _ (hcover d ?_ hne)
      exact ((AList.mem_insert _).mp hd).resolve_left hne

/-- One round makes room: a full cache loses the front of its queue. -/
theorem evict_full {entries : Table String CachedValue} {front : String} {order : List String}
    {capacity : ℕ} (hfront : front ∈ entries) (hsize : entries.size = capacity) :
    evict capacity entries (front :: order) = ⟨entries.erase front, order⟩ := by
  obtain ⟨b, hb⟩ := Table.lookup_of_mem hfront
  have hsmall := Table.size_erase hb
  rw [evict, if_pos hsize.ge]
  cases order with
  | nil => rfl
  | cons d order => rw [evict, if_neg (by omega)]

theorem evict_room {entries : Table String CachedValue} {order : List String} {capacity : ℕ}
    (hsize : entries.size < capacity) : evict capacity entries order = ⟨entries, order⟩ := by
  cases order with
  | nil => rfl
  | cons d order => rw [evict, if_neg (by omega)]

theorem put_represents (hinj : Set.InjOn sha256Hex K) (h : Represents sha256Hex cfg.capacity K s l)
    {key : Bytes} (hk : key ∈ K) (value : Bytes) (ttlSecs now : ℕ)
    (hacc : accepts cfg key value ttlSecs = true) :
    (s.put sha256Hex cfg key value ttlSecs now).2 = true ∧
      Represents sha256Hex cfg.capacity K (s.put sha256Hex cfg key value ttlSecs now).1
        (Cached.store cfg.capacity ⟨key, value, expiryOf cfg ttlSecs now⟩ l) := by
  have hpos : 0 < cfg.capacity := by
    simp only [accepts, Bool.not_eq_true', Bool.or_eq_false_iff, decide_eq_false_iff_not] at hacc
    omega
  have hfit : Cached.Fit cfg.capacity
      (Cached.store cfg.capacity ⟨key, value, expiryOf cfg ttlSecs now⟩ l) := h.fit.store hpos
  have hfind := h.lookup hinj hk
  have hsize := h.size hinj
  rw [CacheState.put, if_pos hacc]
  refine ⟨rfl, ?_⟩
  rw [Cached.store] at hfit ⊢
  cases hf : Cached.find key l with
  | some it =>
    obtain ⟨hit, rfl⟩ := Cached.mem_of_find hf
    rw [hf] at hfind hfit
    have hin : sha256Hex it.key ∈ s.entries := Table.mem_of_lookup hfind
    simp only [if_pos hin, Option.isSome_some, if_true] at hfit ⊢
    refine represents_push hinj hfit (fun x hx => h.keys x (Cached.mem_without.mp hx).1) hk
      (h.dropFirst hinj hk) (fun x hx => h.entries x (Cached.mem_without.mp hx).1) ?_
    rintro d hd hne
    rw [h.dropFirst hinj hk]
    exact h.cover_without hinj hk hd hne
  | none =>
    rw [hf] at hfind hfit
    have hnot : sha256Hex key ∉ s.entries := AList.lookup_eq_none.mp (by rw [hfind]; rfl)
    simp only [if_neg hnot, Option.isSome_none, Bool.false_eq_true, if_false] at hfit ⊢
    by_cases hfull : cfg.capacity ≤ l.length
    · simp only [if_pos hfull] at hfit ⊢
      obtain ⟨first, rest, rfl⟩ : ∃ first rest, l = first :: rest := by
        cases l with
        | nil => simp only [List.length_nil] at hfull; omega
        | cons first rest => exact ⟨first, rest, rfl⟩
      have hfirst := h.entries first List.mem_cons_self
      have hcap : s.entries.size = cfg.capacity := by have := h.fit.bound; omega
      have horder : s.order = sha256Hex first.key :: rest.map fun it => sha256Hex it.key := h.order
      have hrest := h.remove hinj (h.keys first List.mem_cons_self)
      rw [Cached.without_cons_self h.fit.nodup] at hrest
      rw [horder, evict_full (Table.mem_of_lookup hfirst) hcap, if_neg (by
        simp only [AList.mem_erase, not_and]; exact fun _ => hnot)]
      refine represents_push hinj hfit hrest.keys hk rfl hrest.entries fun d hd _ => ?_
      exact hrest.order ▸ hrest.cover d hd
    · simp only [if_neg hfull] at hfit ⊢
      rw [evict_room (by omega), if_neg hnot]
      exact represents_push hinj hfit h.keys hk h.order h.entries fun d hd _ => h.cover d hd

theorem call_represents (hinj : Set.InjOn sha256Hex K)
    (h : Represents sha256Hex cfg.capacity K s l) {c : CacheCall} (hc : c.key ∈ K) :
    (s.call sha256Hex cfg c).2 = (lruCall cfg l c).2 ∧
      Represents sha256Hex cfg.capacity K (s.call sha256Hex cfg c).1 (lruCall cfg l c).1 := by
  cases c with
  | get key now =>
    obtain ⟨hanswer, hrep⟩ := get_represents hinj h hc now
    exact ⟨congrArg CacheAnswer.found hanswer, hrep⟩
  | put key value ttlSecs now =>
    rw [CacheState.call, lruCall]
    split
    · rename_i hacc
      obtain ⟨hanswer, hrep⟩ := put_represents hinj h hc value ttlSecs now (accepts_iff.mpr hacc)
      rw [expiryOf_eq] at hrep
      exact ⟨congrArg CacheAnswer.stored hanswer, hrep⟩
    · rename_i hacc
      rw [CacheState.put, if_neg fun hyes => hacc (accepts_iff.mp hyes)]
      exact ⟨rfl, h⟩

/-- Whole runs: the same answers, and the state is still the list. -/
theorem calls_represents (cfg : CacheConfig) (hinj : Set.InjOn sha256Hex K) :
    ∀ (cs : List CacheCall) {s : CacheState} {l : LruList},
      Represents sha256Hex cfg.capacity K s l → (∀ c ∈ cs, c.key ∈ K) →
      (s.calls sha256Hex cfg cs).2 = (lruCalls cfg l cs).2 ∧
        Represents sha256Hex cfg.capacity K (s.calls sha256Hex cfg cs).1 (lruCalls cfg l cs).1
  | [], _, _, h, _ => ⟨rfl, h⟩
  | c :: cs, s, l, h, hcs => by
      obtain ⟨hanswer, hstep⟩ := call_represents hinj h (hcs c List.mem_cons_self)
      obtain ⟨hanswers, hrun⟩ :=
        calls_represents cfg hinj cs hstep fun d hd => hcs d (List.mem_cons_of_mem _ hd)
      exact ⟨congrArg₂ List.cons hanswer hanswers, hrun⟩

/-! ### The latest put -/

theorem lruCalls_concat (c : CacheCall) : ∀ (cs : List CacheCall) (l : LruList),
    (lruCalls cfg l (cs ++ [c])).1 = (lruCall cfg (lruCalls cfg l cs).1 c).1
  | [], _ => rfl
  | _ :: cs, _ => lruCalls_concat c cs _

theorem latestPut_concat_get (key key' : Bytes) (now : ℕ) : ∀ cs : List CacheCall,
    latestPut cfg key (cs ++ [.get key' now]) = latestPut cfg key cs
  | [] => rfl
  | c :: cs => by
      simp only [List.cons_append, latestPut, latestPut_concat_get key key' now cs]

theorem latestPut_concat_put (key key' value : Bytes) (ttlSecs now : ℕ) : ∀ cs : List CacheCall,
    latestPut cfg key (cs ++ [.put key' value ttlSecs now]) =
      if key' = key ∧ 0 < cfg.capacity ∧ Storable key' value ttlSecs then
        some (value, now + lifetime cfg ttlSecs * 1000000000)
      else latestPut cfg key cs
  | [] => rfl
  | c :: cs => by
      simp only [List.cons_append, latestPut, latestPut_concat_put key key' value ttlSecs now cs]
      by_cases h : key' = key ∧ 0 < cfg.capacity ∧ Storable key' value ttlSecs
      · simp only [if_pos h]
      · simp only [if_neg h]

/-- What the list holds for a key is what the latest accepted `put` of it stored. -/
theorem lruCalls_latest (cs : List CacheCall) :
    ∀ it ∈ (lruCalls cfg [] cs).1, latestPut cfg it.key cs = some (it.value, it.expiry) := by
  induction cs using List.reverseRecOn with
  | nil =>
    rintro it hit
    exact absurd hit List.not_mem_nil
  | append_singleton cs c ih =>
    rintro it hit
    rw [lruCalls_concat] at hit
    cases c with
    | get key now =>
      rw [latestPut_concat_get]
      exact ih it (Cached.mem_lookup hit)
    | put key value ttlSecs now =>
      rw [lruCall] at hit
      rw [latestPut_concat_put]
      split at hit
      · rename_i hacc
        rcases Cached.mem_store hit with rfl | ⟨hold, hne⟩
        · rw [if_pos ⟨rfl, hacc⟩]
        · rw [if_neg fun hkey => hne hkey.1.symm]
          exact ih it hold
      · rename_i hacc
        rw [if_neg fun hkey => hacc hkey.2]
        exact ih it hit

/-- A lookup answers with the latest accepted `put`, while the list still has the key and the entry
    has not expired. -/
theorem lookup_latest {cs : List CacheCall} (hl : l = (lruCalls cfg [] cs).1) (key : Bytes) (now : ℕ) :
    (Cached.lookup key now l).2 =
      if key ∈ l.map Cached.key then
        (latestPut cfg key cs).bind fun stored => if now < stored.2 then some stored.1 else none
      else none := by
  rw [Cached.lookup]
  cases hf : Cached.find key l with
  | none => rw [if_neg (Cached.find_eq_none.mp hf)]
  | some it =>
    obtain ⟨hit, rfl⟩ := Cached.mem_of_find hf
    rw [if_pos (List.mem_map_of_mem hit), lruCalls_latest cs it (hl ▸ hit)]
    simp only [Option.bind_some]
    split <;> rfl

/-- The plugin cache is an LRU cache with an expiry time for each entry: it answers as the list does,
    and its map and its queue are the list. -/
theorem plugin_cache_is_lru (cfg : CacheConfig) (hinj : Set.InjOn sha256Hex K)
    (cs : List CacheCall) (hcs : ∀ c ∈ cs, c.key ∈ K) :
    let run := CacheState.calls sha256Hex cfg {} cs
    let spec := lruCalls cfg [] cs
    run.2 = spec.2 ∧ Represents sha256Hex cfg.capacity K run.1 spec.1 ∧
      run.1.order.Nodup ∧ (∀ digest, digest ∈ run.1.entries ↔ digest ∈ run.1.order) ∧
      run.1.entries.size ≤ cfg.capacity ∧
      ∀ key ∈ K, ∀ now, (run.1.get sha256Hex cfg key now).2 =
        if key ∈ spec.1.map Cached.key then
          (latestPut cfg key cs).bind fun stored => if now < stored.2 then some stored.1 else none
        else none := by
  intro run spec
  obtain ⟨hanswers, hrep⟩ :=
    calls_represents cfg hinj cs (represents_empty cfg.capacity) hcs
  refine ⟨hanswers, hrep, hrep.order_nodup hinj, hrep.mem_iff, ?_, ?_⟩
  · rw [hrep.size hinj]
    exact hrep.fit.bound
  · rintro key hkey now
    rw [(get_represents hinj hrep hkey now).1]
    exact lookup_latest rfl key now

/-- A cache of one entry, with the keys `"a"` and `"b"`: the second `put` evicts the first key. -/
theorem plugin_cache_is_lru_eviction :
    let cfg : CacheConfig := ⟨1, 60⟩
    let hash : Bytes → String := fun key => if key = [97] then "a" else "b"
    let cs : List CacheCall := [.put [97] [1] 0 0, .put [98] [2] 0 0, .get [97] 1, .get [98] 1]
    (CacheState.calls hash cfg {} cs).2 = [.stored true, .stored true, .found none, .found (some [2])]
      ∧ (CacheState.calls hash cfg {} cs).1.entries.size ≤ 1 := by
  intro cfg hash cs
  have hinj : Set.InjOn hash {[97], [98]} := by
    rintro x (rfl | rfl) y (rfl | rfl) <;> simp [hash]
  obtain ⟨hanswers, -, -, -, hsize, -⟩ :=
    plugin_cache_is_lru cfg hinj cs (by simp [cs, CacheCall.key])
  exact ⟨hanswers.trans (by decide), hsize⟩

end
end Llmtrace.Plugins
