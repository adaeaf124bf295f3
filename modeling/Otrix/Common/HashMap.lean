import Otrix.Common.Rings
import Mathlib.Data.List.Perm.Subperm

/-!
# The hash maps of `common/hash_map.hpp`

`hash_map` chains intrusive nodes in the buckets of a table, and `pooled_hash_map` takes its
nodes from a pool of entries. The links and keys of the nodes are a memory of their own, since
two maps can be given nodes of the same objects.

A node is moved between the pool and the buckets by deleting it from one ring and pushing it to
another. `Caches` is the map from keys to values that such a table stands for, and `find`,
`insert` and `remove` act on that map.
-/

namespace Otrix

open Linked Function

/-- The memory of the `hash_map_node`s by address. `list_node` is the first member, so that a node
and its `list_node` have one address. -/
structure HashMapNodes (K : Type) where
  links : Links
  key : Nat → K

/-- `hash_map`. -/
structure HashMap (K : Type) where
  tableSize : Nat
  hashFunc : K → Nat
  table : Nat → Nat

namespace HashMap

variable {K : Type}

/-- The constructor. -/
def initial (tableSize : Nat) (hashFunc : K → Nat) : HashMap K :=
  ⟨tableSize, hashFunc, fun _ => 0⟩

/-- The bucket of a key. -/
def index (m : HashMap K) (k : K) : Nat :=
  m.hashFunc k % m.tableSize

/-- `insert`. -/
def insert (m : HashMap K) (nodes : HashMapNodes K) (node : Nat) : HashMapNodes K × HashMap K :=
  let idx := m.index (nodes.key node)
  let (links, head) := intrusiveListPushBack nodes.links (m.table idx) node
  ({ nodes with links := links }, { m with table := Function.update m.table idx head })

theorem insert_key (m : HashMap K) (links : Links) (key : Nat → K) (node : Nat) (k : K) :
    m.insert ⟨links, update key node k⟩ node =
      (⟨(intrusiveListPushBack links (m.table (m.index k)) node).1, update key node k⟩,
        { m with table := update m.table (m.index k) node }) := by
  simp only [insert, update_self, intrusive_list_push_back_snd]

/-- `remove`. -/
def remove (m : HashMap K) (nodes : HashMapNodes K) (node : Nat) : HashMapNodes K × HashMap K :=
  let idx := m.index (nodes.key node)
  let (links, head) := intrusiveListDelete nodes.links (m.table idx) node
  ({ nodes with links := links }, { m with table := Function.update m.table idx head })

variable [DecidableEq K]

/-- The loop of `find` over the bucket that starts at `first`. `none` means that the loop is still
going after `fuel` nodes. -/
def findScan (nodes : HashMapNodes K) (first : Nat) (k : K) : Nat → Nat → Option Nat
  | 0, _ => none
  | fuel + 1, head =>
    if nodes.key head = k then some head
    else if next nodes.links head = first then some 0
    else findScan nodes first k fuel (next nodes.links head)

/-- `find`: the node with the key, or null. -/
def find (m : HashMap K) (nodes : HashMapNodes K) (fuel : Nat) (k : K) : Option Nat :=
  let first := m.table (m.index k)
  if first = 0 then some 0 else findScan nodes first k fuel first

variable {m : HashMap K} {nodes : HashMapNodes K} {k : K}

/-- The loop returns the first node with the key that is still ahead of it. -/
theorem find_scan_eq {first : Nat} (back : List Nat) {front : List Nat} {head fuel : Nat}
    (hring : Ring nodes.links (front ++ head :: back))
    (hfirst : (front ++ head :: back).head? = some first) (hfuel : back.length < fuel) :
    findScan nodes first k fuel head =
      some (((head :: back).find? fun node => decide (nodes.key node = k)).getD 0) := by
  induction back generalizing front head fuel with
  | nil =>
    obtain ⟨fuel, rfl⟩ : ∃ n, fuel = n + 1 := ⟨fuel - 1, by omega⟩
    by_cases hkey : nodes.key head = k
    · simp [findScan, hkey]
    · -- the scan has come round
      have hround : next nodes.links head = first := by
        rw [hring.next_eq]
        cases front with
        | nil => simpa using hfirst
        | cons other front => simpa using hfirst
      simp [findScan, hkey, hround]
  | cons second back ih =>
    obtain ⟨fuel, rfl⟩ : ∃ n, fuel = n + 1 := ⟨fuel - 1, by omega⟩
    by_cases hkey : nodes.key head = k
    · simp [findScan, hkey]
    · have hnext : next nodes.links head = second := by
        rw [hring.next_eq]
        rfl
      have hne : second ≠ first := by
        have hnodup := hring.nodup
        rintro rfl
        cases front with
        | nil =>
          have heq : head = second := by simpa using hfirst
          simp [heq] at hnodup
        | cons other front =>
          have heq : other = second := by simpa using hfirst
          simp [heq] at hnodup
      have hsplit : front ++ head :: second :: back = (front ++ [head]) ++ second :: back := by
        simp
      rw [hsplit] at hring hfirst
      have hrest := ih hring hfirst (by simpa using Nat.lt_of_succ_lt_succ hfuel)
      simp only [findScan, if_neg hkey, hnext, if_neg hne, hrest]
      simp [List.find?_cons, hkey]

/-- `find` returns the first node of the bucket with the key. -/
theorem find_eq {list : List Nat} {fuel : Nat}
    (hqueue : Queue nodes.links (m.table (m.index k)) list) (hfuel : list.length ≤ fuel) :
    m.find nodes fuel k = some ((list.find? fun node => decide (nodes.key node = k)).getD 0) := by
  by_cases hnull : m.table (m.index k) = 0
  · simp only [find, if_pos hnull]
    rw [hqueue.head_eq_null_iff.mp hnull]
    rfl
  · simp only [find, if_neg hnull]
    obtain ⟨rest, rfl⟩ := hqueue.exists_cons hnull
    have hring : Ring nodes.links ([] ++ m.table (m.index k) :: rest) := hqueue.ring
    exact find_scan_eq rest hring rfl hfuel

/-- `find` tells whether the bucket has a node with the key. -/
theorem find_cases {list : List Nat} {fuel : Nat}
    (hqueue : Queue nodes.links (m.table (m.index k)) list) (hfuel : list.length ≤ fuel) :
    (m.find nodes fuel k = some 0 ∧ ∀ node ∈ list, nodes.key node ≠ k) ∨
      ∃ node ∈ list, node ≠ 0 ∧ nodes.key node = k ∧ m.find nodes fuel k = some node := by
  rw [find_eq hqueue hfuel]
  cases hfound : list.find? fun node => decide (nodes.key node = k) with
  | none =>
    refine Or.inl ⟨rfl, fun node hnode hkey => ?_⟩
    exact List.find?_eq_none.mp hfound node hnode (decide_eq_true hkey)
  | some node =>
    have hnode := List.mem_of_find?_eq_some hfound
    have hkey : nodes.key node = k := by simpa using List.find?_some hfound
    exact Or.inr ⟨node, hnode, hqueue.ring.nonnull node hnode, hkey, rfl⟩

end HashMap

/-! ## What is in the buckets -/

/-- Every node is in the bucket of its key, and no two nodes have one key. -/
structure Bucketed {K : Type} (index : K → Nat) (key : Nat → K) (lists : Nat → List Nat) : Prop where
  place : ∀ i, ∀ node ∈ lists i, index (key node) = i
  unique : ∀ i, ∀ node ∈ lists i, ∀ other ∈ lists i, key node = key other → node = other

/-- The nodes in the buckets stand for this map from keys to values. -/
def Maps {K V : Type} (index : K → Nat) (key : Nat → K) (value : Nat → V)
    (lists : Nat → List Nat) (cached : K → Option V) : Prop :=
  ∀ k v, cached k = some v ↔ ∃ node ∈ lists (index k), key node = k ∧ value node = v

variable {lists : Nat → List Nat}

theorem mem_pushed_iff {κ : Type} [DecidableEq κ] {lists : κ → List Nat} {i j : κ}
    {node other : Nat} : other ∈ update lists i (node :: lists i) j ↔
      other = node ∧ j = i ∨ other ∈ lists j := by
  by_cases heq : j = i
  · simp [heq]
  · simp [heq]

/-- The nodes in the buckets after a node was pushed to one of them. -/
theorem exists_mem_pushed_iff {i node other : Nat} :
    (∃ j, other ∈ update lists i (node :: lists i) j) ↔
      other = node ∨ ∃ j, other ∈ lists j := by
  simp only [mem_pushed_iff]
  constructor
  · rintro ⟨j, ⟨rfl, _⟩ | hold⟩
    · exact Or.inl rfl
    · exact Or.inr ⟨j, hold⟩
  · rintro (rfl | ⟨j, hold⟩)
    · exact ⟨i, Or.inl ⟨rfl, rfl⟩⟩
    · exact ⟨j, Or.inr hold⟩

theorem mem_of_mem_erased {i j node other : Nat}
    (h : other ∈ update lists i ((lists i).erase node) j) : other ∈ lists j := by
  by_cases heq : j = i
  · rw [heq, update_self] at h
    rw [heq]
    exact List.mem_of_mem_erase h
  · rwa [update_of_ne heq] at h

section

variable {K V : Type} {index : K → Nat} {key : Nat → K} {value : Nat → V} {lists : Nat → List Nat}
  {cached : K → Option V} {k : K} {v : V} {i node : Nat}

namespace Bucketed

theorem nil (index : K → Nat) (key : Nat → K) : Bucketed index key fun _ => [] :=
  ⟨fun _ _ hnode => absurd hnode List.not_mem_nil, fun _ _ hnode => absurd hnode List.not_mem_nil⟩

theorem congr {key' : Nat → K} (h : Bucketed index key lists)
    (hkey : ∀ i, ∀ node ∈ lists i, key' node = key node) : Bucketed index key' lists := by
  refine ⟨fun i node hnode => ?_, fun i node hnode other hother hsame => ?_⟩
  · rw [hkey i node hnode]
    exact h.place i node hnode
  · rw [hkey i node hnode, hkey i other hother] at hsame
    exact h.unique i node hnode other hother hsame

/-- A node enters the bucket of its key, which is a new one. -/
theorem push (h : Bucketed index key lists) (hnew : ∀ i, ∀ other ∈ lists i, key other ≠ key node) :
    Bucketed index key
      (update lists (index (key node)) (node :: lists (index (key node)))) := by
  refine ⟨fun i other hother => ?_, fun i first hfirst second hsecond hsame => ?_⟩
  · rcases mem_pushed_iff.mp hother with ⟨rfl, rfl⟩ | hold
    · rfl
    · exact h.place i other hold
  · rcases mem_pushed_iff.mp hfirst with ⟨rfl, _⟩ | hfirst'
    · rcases mem_pushed_iff.mp hsecond with ⟨rfl, _⟩ | hsecond'
      · rfl
      · exact absurd hsame.symm (hnew i second hsecond')
    · rcases mem_pushed_iff.mp hsecond with ⟨rfl, _⟩ | hsecond'
      · exact absurd hsame (hnew i first hfirst')
      · exact h.unique i first hfirst' second hsecond' hsame

/-- A node is given a new key and enters its bucket. -/
theorem push_key (h : Bucketed index key lists) (hfresh : ∀ i, ∀ other ∈ lists i, other ≠ node)
    (hnew : ∀ other ∈ lists (index k), key other ≠ k) :
    Bucketed index (update key node k)
      (update lists (index k) (node :: lists (index k))) := by
  have hkey : ∀ i, ∀ other ∈ lists i, update key node k other = key other :=
    fun i other hother => update_of_ne (hfresh i other hother) _ _
  have hself : update key node k node = k := update_self ..
  have hkeys : ∀ i, ∀ other ∈ lists i,
      update key node k other ≠ update key node k node := by
    intro i other hother hsame
    rw [hkey i other hother, hself] at hsame
    have hplace := h.place i other hother
    rw [hsame] at hplace
    exact hnew other (hplace ▸ hother) hsame
  have hpushed := (h.congr hkey).push hkeys
  rwa [hself] at hpushed

theorem erase (h : Bucketed index key lists) (i node : Nat) :
    Bucketed index key (update lists i ((lists i).erase node)) :=
  ⟨fun j other hother => h.place j other (mem_of_mem_erased hother),
    fun j first hfirst second hsecond => h.unique j first (mem_of_mem_erased hfirst) second
      (mem_of_mem_erased hsecond)⟩

end Bucketed

theorem Maps.key_ne (h : Maps index key value lists cached) (hbuckets : Bucketed index key lists)
    (hnew : cached k = none) : ∀ i, ∀ node ∈ lists i, key node ≠ k := by
  rintro i node hnode rfl
  rw [← hbuckets.place i node hnode] at hnode
  have hcontra := (h (key node) (value node)).mpr ⟨node, hnode, rfl, rfl⟩
  rw [hnew] at hcontra
  cases hcontra

theorem Maps.congr {key' : Nat → K} {value' : Nat → V} (h : Maps index key value lists cached)
    (hkey : ∀ i, ∀ node ∈ lists i, key' node = key node)
    (hvalue : ∀ i, ∀ node ∈ lists i, value' node = value node) :
    Maps index key' value' lists cached := by
  intro k v
  rw [h k v]
  refine exists_congr fun node => and_congr_right fun hnode => ?_
  rw [hkey _ node hnode, hvalue _ node hnode]

/-- Pushing a node with a new key adds its value to the map. -/
theorem Maps.push [DecidableEq K] (h : Maps index key value lists cached)
    (hnew : ∀ i, ∀ other ∈ lists i, key other ≠ key node) :
    Maps index key value
      (update lists (index (key node)) (node :: lists (index (key node))))
      (update cached (key node) (some (value node))) := by
  intro k v
  simp only [mem_pushed_iff]
  by_cases heq : k = key node
  · subst heq
    rw [update_self]
    constructor
    · intro hv
      exact ⟨node, Or.inl ⟨rfl, rfl⟩, rfl, Option.some.inj hv⟩
    · rintro ⟨other, ⟨rfl, _⟩ | hold, hk, hv⟩
      · rw [hv]
      · exact absurd hk (hnew _ other hold)
  · rw [update_of_ne heq, h k v]
    constructor
    · rintro ⟨other, hold, hrest⟩
      exact ⟨other, Or.inr hold, hrest⟩
    · rintro ⟨other, ⟨rfl, _⟩ | hold, hk, hv⟩
      · exact absurd hk.symm heq
      · exact ⟨other, hold, hk, hv⟩

theorem Maps.erase [DecidableEq K] (h : Maps index key value lists cached)
    (hbuckets : Bucketed index key lists) (hnode : node ∈ lists (index (key node)))
    (hnodup : (lists (index (key node))).Nodup) :
    Maps index key value
      (update lists (index (key node)) ((lists (index (key node))).erase node))
      (update cached (key node) none) := by
  intro k v
  by_cases heq : k = key node
  · subst heq
    rw [update_self, update_self]
    constructor
    · intro hv
      cases hv
    · rintro ⟨other, hother, hk, _⟩
      obtain ⟨hne, hold⟩ := hnodup.mem_erase_iff.mp hother
      exact absurd (hbuckets.unique _ other hold node hnode hk) hne
  · rw [update_of_ne heq, h k v]
    by_cases hplace : index k = index (key node)
    · rw [hplace, update_self]
      constructor
      · rintro ⟨other, hother, hk, hv⟩
        have hne : other ≠ node := fun hsame => heq (hk.symm.trans (congrArg key hsame))
        exact ⟨other, hnodup.mem_erase_iff.mpr ⟨hne, hother⟩, hk, hv⟩
      · rintro ⟨other, hother, hrest⟩
        exact ⟨other, List.mem_of_mem_erase hother, hrest⟩
    · rw [update_of_ne hplace]

end

/-! ## The map with a pool of entries -/

/-- `pooled_hash_map`. The entry with number `i` has its node at address `i + 1`. -/
structure PooledHashMap (K V : Type) where
  map : HashMap K
  nodes : HashMapNodes K
  value : Nat → V
  poolSize : Nat
  poolHead : Nat

namespace PooledHashMap

variable {K V : Type}

/-- The pool after the constructor has linked its first `count` entries. -/
def linkPool (links : Links) (count : Nat) : Links × Nat :=
  (List.range count).foldl
    (fun pool i => intrusiveListPushBack (intrusiveListInit pool.1 (i + 1)) pool.2 (i + 1)) (links, 0)

/-- The constructor, on memory that holds anything. -/
def initial (poolSize tableSize : Nat) (hashFunc : K → Nat) (nodes : HashMapNodes K)
    (value : Nat → V) : PooledHashMap K V where
  map := HashMap.initial tableSize hashFunc
  nodes := { nodes with links := (linkPool nodes.links poolSize).1 }
  value := value
  poolSize := poolSize
  poolHead := (linkPool nodes.links poolSize).2

/-- `find`. A bucket has no more nodes than the pool, so the loop needs no more turns. -/
def find [DecidableEq K] (m : PooledHashMap K V) (k : K) : Option Nat :=
  m.map.find m.nodes m.poolSize k

/-- `insert`: the entry, or `none` for the null pointer when the pool is used up. -/
def insert (m : PooledHashMap K V) (k : K) (value : V) : Option (Nat × PooledHashMap K V) :=
  if m.poolHead = 0 then none
  else
    let newItem := m.poolHead
    let (links, poolHead) := intrusiveListDelete m.nodes.links m.poolHead newItem
    let (nodes, map) := m.map.insert ⟨links, Function.update m.nodes.key newItem k⟩ newItem
    some (newItem, { m with
      map := map
      nodes := nodes
      value := Function.update m.value newItem value
      poolHead := poolHead })

/-- `remove`: a node of the pool goes back to it. -/
def remove (m : PooledHashMap K V) (node : Nat) : PooledHashMap K V :=
  let (nodes, map) := m.map.remove m.nodes node
  if 0 < node ∧ node ≤ m.poolSize then
    let (links, poolHead) := intrusiveListPushBack nodes.links m.poolHead node
    { m with map := map, nodes := { nodes with links := links }, poolHead := poolHead }
  else { m with map := map, nodes := nodes }

/-- A value for the pool and one for every bucket. -/
def places {α : Type} (pool : α) (buckets : Nat → α) : Option Nat → α
  | none => pool
  | some i => buckets i

theorem update_places_none {α : Type} (pool pool' : α) (buckets : Nat → α) :
    update (places pool buckets) none pool' = places pool' buckets := by
  funext place
  cases place with
  | none => rfl
  | some i => rfl

theorem update_places_some {α : Type} (pool : α) (buckets : Nat → α) (i : Nat) (bucket : α) :
    update (places pool buckets) (some i) bucket =
      places pool (update buckets i bucket) := by
  funext place
  cases place with
  | none => rfl
  | some j =>
    by_cases heq : j = i
    · rw [heq, update_self]
      exact (update_self i bucket buckets).symm
    · have hne : some j ≠ some i := fun h => heq (Option.some.inj h)
      rw [update_of_ne hne]
      exact (update_of_ne heq bucket buckets).symm

/-- The pool and the buckets are rings of nodes of the pool, and the nodes are in the right
buckets. -/
structure Sound (m : PooledHashMap K V) (pool : List Nat) (lists : Nat → List Nat) : Prop where
  rings : Rings m.nodes.links (places m.poolHead m.map.table) (places pool lists)
  buckets : Bucketed m.map.index m.nodes.key lists
  within : ∀ place, ∀ node ∈ places pool lists place, 0 < node ∧ node ≤ m.poolSize

/-- The table stands for this map from keys to values. -/
def Caches (m : PooledHashMap K V) (cached : K → Option V) : Prop :=
  ∃ pool lists, m.Sound pool lists ∧ Maps m.map.index m.nodes.key m.value lists cached

/-- The constructor links the entries of the pool, the last one first. -/
theorem link_pool_queue (links : Links) (count : Nat) :
    Queue (linkPool links count).1 (linkPool links count).2 (List.range' 1 count).reverse := by
  induction count with
  | zero => exact Queue.nil
  | succ count ih =>
    have hnew : ∀ node ∈ (List.range' 1 count).reverse, Apart Links (1 + count) node := by
      intro node hnode heq
      rw [List.mem_reverse, List.mem_range'_1] at hnode
      omega
    have hstorable : Storable Links (1 + count) := trivial
    have hpushed := intrusive_list_init_push_back_queue ih hstorable (by simp) hnew
    rw [List.range'_concat, List.reverse_append, Nat.one_mul]
    simpa [linkPool, List.range_succ, Nat.add_comm] using hpushed

theorem sound_initial (poolSize tableSize : Nat) (hashFunc : K → Nat) (nodes : HashMapNodes K)
    (value : Nat → V) :
    (initial poolSize tableSize hashFunc nodes value).Sound (List.range' 1 poolSize).reverse
      fun _ => [] := by
  refine ⟨⟨?_, ?_⟩, Bucketed.nil _ _, ?_⟩
  · intro place
    cases place with
    | none => exact link_pool_queue nodes.links poolSize
    | some i => exact Queue.nil
  · intro place other hne x hx y hy
    cases place with
    | none =>
      cases other with
      | none => exact absurd rfl hne
      | some i => cases hy
    | some i => cases hx
  · intro place node hnode
    cases place with
    | none =>
      have hmem : node ∈ (List.range' 1 poolSize).reverse := hnode
      rw [List.mem_reverse, List.mem_range'_1] at hmem
      exact ⟨hmem.1, by show node ≤ poolSize; omega⟩
    | some i => cases hnode

theorem caches_initial (poolSize tableSize : Nat) (hashFunc : K → Nat) (nodes : HashMapNodes K)
    (value : Nat → V) :
    (initial poolSize tableSize hashFunc nodes value).Caches fun _ => none :=
  ⟨_, _, sound_initial poolSize tableSize hashFunc nodes value, fun k v => by simp⟩

section

variable {m : PooledHashMap K V} {pool : List Nat} {lists : Nat → List Nat}
  {cached : K → Option V} {k : K} {node : Nat}

theorem Sound.length_le (h : m.Sound pool lists) (i : Nat) : (lists i).length ≤ m.poolSize := by
  have hsubset : lists i ⊆ List.range' 1 m.poolSize := by
    intro node hnode
    have := h.within (some i) node hnode
    simp only [List.mem_range'_1]
    omega
  have hnodup : (lists i).Nodup := (h.rings.queue (some i)).ring.nodup
  have hle := (List.subperm_of_subset hnodup hsubset).length_le
  simpa using hle

theorem Sound.ne_of_mem_pool (h : m.Sound pool lists) (hnode : node ∈ pool) {i other : Nat}
    (hother : other ∈ lists i) : other ≠ node :=
  (h.rings.apart none (some i) (Ne.symm (Option.some_ne_none i)) node hnode other hother).symm

variable [DecidableEq K]

theorem Sound.find_cases (h : m.Sound pool lists) (k : K) :
    (m.find k = some 0 ∧ ∀ node ∈ lists (m.map.index k), m.nodes.key node ≠ k) ∨
      ∃ node ∈ lists (m.map.index k), node ≠ 0 ∧ m.nodes.key node = k ∧ m.find k = some node :=
  HashMap.find_cases (h.rings.queue (some (m.map.index k))) (h.length_le _)

theorem Caches.find_cases (h : m.Caches cached) (k : K) :
    (m.find k = some 0 ∧ cached k = none) ∨
      ∃ node, node ≠ 0 ∧ m.find k = some node ∧ cached k = some (m.value node) := by
  obtain ⟨pool, lists, hsound, hmaps⟩ := h
  rcases hsound.find_cases k with ⟨hfind, hnone⟩ | ⟨node, hnode, hne, hkey, hfind⟩
  · refine Or.inl ⟨hfind, ?_⟩
    cases hlookup : cached k with
    | none => rfl
    | some v =>
      obtain ⟨node, hnode, hkey, _⟩ := (hmaps k v).mp hlookup
      exact absurd hkey (hnone node hnode)
  · exact Or.inr ⟨node, hne, hfind, (hmaps k _).mpr ⟨node, hnode, hkey, rfl⟩⟩

omit [DecidableEq K] in
/-- Moving the first node of the pool to a bucket keeps the rings. -/
theorem Sound.insert_rings {rest : List Nat} (h : m.Sound (m.poolHead :: rest) lists) (i : Nat) :
    Rings (intrusiveListPushBack (intrusiveListDelete m.nodes.links m.poolHead m.poolHead).1
        (m.map.table i) m.poolHead).1
      (places (intrusiveListDelete m.nodes.links m.poolHead m.poolHead).2
        (update m.map.table i m.poolHead))
      (places rest (update lists i (m.poolHead :: lists i))) := by
  have hring := (h.rings.queue none).ring
  have hmem : m.poolHead ∈ places (m.poolHead :: rest) lists none := List.mem_cons_self
  have hdeleted := h.rings.delete hmem
  simp only [places, List.erase_cons_head, update_places_none] at hdeleted
  have hfresh : ∀ place, ∀ node ∈ places rest lists place, Apart Links m.poolHead node := by
    intro place node hnode
    cases place with
    | none => exact fun heq => (List.nodup_cons.mp hring.nodup).1 (heq ▸ hnode)
    | some j => exact (h.ne_of_mem_pool List.mem_cons_self hnode).symm
  have hpushed := hdeleted.push_back (some i) m.poolHead trivial
    (hring.nonnull _ List.mem_cons_self) hfresh
  simpa only [places, intrusive_list_push_back_snd, update_places_some] using hpushed

omit [DecidableEq K] in
/-- `insert` moves the first node of the pool to the bucket of a new key. -/
theorem Sound.insert (h : m.Sound pool lists) (hnull : m.poolHead ≠ 0)
    (hnew : ∀ other ∈ lists (m.map.index k), m.nodes.key other ≠ k) (value : V) :
    ∃ rest after, pool = m.poolHead :: rest ∧ m.insert k value = some (m.poolHead, after) ∧
      after.Sound rest
        (update lists (m.map.index k) (m.poolHead :: lists (m.map.index k))) ∧
      after.map.index = m.map.index ∧ after.poolSize = m.poolSize ∧
      after.nodes.key = update m.nodes.key m.poolHead k ∧
      after.value = update m.value m.poolHead value := by
  obtain ⟨rest, rfl⟩ := (h.rings.queue none).exists_cons hnull
  have hinsert : m.insert k value = some (m.poolHead, { m with
      map := { m.map with
        table := update m.map.table (m.map.index k) m.poolHead }
      nodes := ⟨(intrusiveListPushBack (intrusiveListDelete m.nodes.links m.poolHead m.poolHead).1
        (m.map.table (m.map.index k)) m.poolHead).1, update m.nodes.key m.poolHead k⟩
      value := update m.value m.poolHead value
      poolHead := (intrusiveListDelete m.nodes.links m.poolHead m.poolHead).2 }) := by
    simp only [PooledHashMap.insert, if_neg hnull, HashMap.insert_key]
  have hbuckets := h.buckets.push_key
    (fun i other hother => h.ne_of_mem_pool List.mem_cons_self hother) hnew
  refine ⟨rest, _, rfl, hinsert, ⟨h.insert_rings (m.map.index k), hbuckets, ?_⟩, rfl, rfl, rfl, rfl⟩
  intro place node hnode
  cases place with
  | none => exact h.within none node (List.mem_cons_of_mem _ hnode)
  | some i =>
    rcases mem_pushed_iff.mp hnode with ⟨rfl, _⟩ | hold
    · exact h.within none _ List.mem_cons_self
    · exact h.within (some i) node hold

/-- An insertion adds the key, or fails with an empty pool. -/
theorem Caches.insert (h : m.Caches cached) (hnew : cached k = none) (value : V) :
    m.insert k value = none ∨ ∃ node after, m.insert k value = some (node, after) ∧
      after.Caches (update cached k (some value)) := by
  obtain ⟨pool, lists, hsound, hmaps⟩ := h
  by_cases hnull : m.poolHead = 0
  · exact Or.inl (if_pos hnull)
  · right
    obtain ⟨rest, after, rfl, hinsert, hafter, hindex, _, hkeys, hvalues⟩ :=
      hsound.insert hnull (hmaps.key_ne hsound.buckets hnew (m.map.index k)) value
    have hkey : ∀ i, ∀ other ∈ lists i,
        update m.nodes.key m.poolHead k other = m.nodes.key other := fun i other hother =>
      update_of_ne (hsound.ne_of_mem_pool List.mem_cons_self hother) _ _
    have hvalue : ∀ i, ∀ other ∈ lists i,
        update m.value m.poolHead value other = m.value other := fun i other hother =>
      update_of_ne (hsound.ne_of_mem_pool List.mem_cons_self hother) _ _
    have hself : update m.nodes.key m.poolHead k m.poolHead = k := update_self ..
    have hdiffer : ∀ i, ∀ other ∈ lists i, update m.nodes.key m.poolHead k other ≠
        update m.nodes.key m.poolHead k m.poolHead := by
      intro i other hother
      rw [hkey i other hother, hself]
      exact hmaps.key_ne hsound.buckets hnew i other hother
    have hmapped := (hmaps.congr hkey hvalue).push hdiffer
    rw [hself, update_self] at hmapped
    refine ⟨_, after, hinsert, rest, _, hafter, ?_⟩
    rw [hindex, hkeys, hvalues]
    exact hmapped

omit [DecidableEq K] in
/-- Moving a node from a bucket to the pool keeps the rings. -/
theorem Sound.remove_rings (h : m.Sound pool lists) {i : Nat} (hnode : node ∈ lists i) :
    Rings (intrusiveListPushBack (intrusiveListDelete m.nodes.links (m.map.table i) node).1
        m.poolHead node).1
      (places node (update m.map.table i
        (intrusiveListDelete m.nodes.links (m.map.table i) node).2))
      (places (node :: pool) (update lists i ((lists i).erase node))) := by
  have hring := (h.rings.queue (some i)).ring
  have hmem : node ∈ places pool lists (some i) := hnode
  have hdeleted := h.rings.delete hmem
  simp only [places, update_places_some] at hdeleted
  have hfresh : ∀ place, ∀ other ∈ places pool (update lists i ((lists i).erase node)) place,
      Apart Links node other := by
    intro place other hother
    cases place with
    | none => exact h.ne_of_mem_pool hother hnode
    | some j =>
      replace hother : other ∈ update lists i ((lists i).erase node) j := hother
      by_cases heq : j = i
      · rw [heq, update_self] at hother
        exact (hring.nodup.mem_erase_iff.mp hother).1.symm
      · rw [update_of_ne heq] at hother
        have hne : some i ≠ some j := fun hsome => heq (Option.some.inj hsome).symm
        exact h.rings.apart (some i) (some j) hne node hnode other hother
  have hpushed := hdeleted.push_back none node trivial (hring.nonnull node hnode) hfresh
  simpa only [places, intrusive_list_push_back_snd, update_places_none] using hpushed

omit [DecidableEq K] in
/-- `remove` moves a node from the bucket of its key to the pool. -/
theorem Sound.remove (h : m.Sound pool lists)
    (hnode : node ∈ lists (m.map.index (m.nodes.key node))) :
    (m.remove node).Sound (node :: pool) (update lists (m.map.index (m.nodes.key node))
        ((lists (m.map.index (m.nodes.key node))).erase node)) ∧
      (m.remove node).map.index = m.map.index ∧ (m.remove node).poolSize = m.poolSize ∧
      (m.remove node).nodes.key = m.nodes.key ∧ (m.remove node).value = m.value := by
  have hwithin : 0 < node ∧ node ≤ m.poolSize := h.within (some _) node hnode
  have hremove : m.remove node = { m with
      map := { m.map with
        table := update m.map.table (m.map.index (m.nodes.key node))
          (intrusiveListDelete m.nodes.links (m.map.table (m.map.index (m.nodes.key node)))
            node).2 }
      nodes := { m.nodes with
        links := (intrusiveListPushBack (intrusiveListDelete m.nodes.links
          (m.map.table (m.map.index (m.nodes.key node))) node).1 m.poolHead node).1 }
      poolHead := node } := by
    simp only [PooledHashMap.remove, HashMap.remove, if_pos hwithin, intrusive_list_push_back_snd]
  rw [hremove]
  refine ⟨⟨h.remove_rings hnode, h.buckets.erase _ node, ?_⟩, rfl, rfl, rfl, rfl⟩
  intro place other hother
  cases place with
  | none =>
    rcases List.mem_cons.mp hother with rfl | hother
    · exact hwithin
    · exact h.within none other hother
  | some j => exact h.within (some j) other (mem_of_mem_erased hother)

/-- `remove` of a node that was found takes its key out of the map. -/
theorem Caches.remove (h : m.Caches cached) (hfind : m.find k = some node) (hne : node ≠ 0) :
    (m.remove node).Caches (update cached k none) := by
  obtain ⟨pool, lists, hsound, hmaps⟩ := h
  obtain ⟨hnode, rfl⟩ : node ∈ lists (m.map.index k) ∧ m.nodes.key node = k := by
    rcases hsound.find_cases k with ⟨hnone, _⟩ | ⟨found, hmem, _, hkey, hfound⟩
    · exact absurd (Option.some.inj (hfind.symm.trans hnone)) hne
    · obtain rfl : node = found := Option.some.inj (hfind.symm.trans hfound)
      exact ⟨hmem, hkey⟩
  have hnodup : (lists (m.map.index (m.nodes.key node))).Nodup :=
    (hsound.rings.queue (some _)).ring.nodup
  obtain ⟨hafter, hindex, _, hkeys, hvalues⟩ := hsound.remove hnode
  refine ⟨node :: pool, _, hafter, ?_⟩
  rw [hindex, hkeys, hvalues]
  exact hmaps.erase hsound.buckets hnode hnodup

end

end PooledHashMap

end Otrix
