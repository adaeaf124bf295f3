import Otrix.Common.HashMap
import Otrix.Foundation.BoundedMap
import Otrix.Foundation.Run

/-!
# `pooled_hash_map` is a bounded finite map

The calls of `pooled_hash_map` are run side by side with a `BoundedMap` that is told the results.
The handles are the entries of the pool, and the capacity is the size of the pool. A run goes on
only while the bounded map allows the results, so a run that goes through to its end is a run in
which every result was the right one.

Every entry of the pool is in the ring of free entries or in the ring of one bucket. The entries
in the buckets are the handles in use, which is why the pool is empty exactly when the map is
full.
-/

namespace Otrix

open Linked Machine

variable {K V : Type} [DecidableEq K]

namespace PooledHashMap

/-- `remove(const K &)`. -/
def removeKey (m : PooledHashMap K V) (k : K) : Option (PooledHashMap K V) := do
  let node ← m.find k
  if node ≠ 0 then some (m.remove node) else some m

/-- A call with its result. -/
def call (m : PooledHashMap K V) : MapCall K Nat V → Option (MapResult Nat × PooledHashMap K V)
  | .insert k value =>
    match m.insert k value with
    | none => some (.null, m)
    | some (node, after) => some (.entry node, after)
  | .remove k => do
    let after ← m.removeKey k
    some (.done, after)
  | .removeHandle node => some (.done, m.remove node)
  | .find k => do
    let node ← m.find k
    some (if node = 0 then .null else .entry node, m)

end PooledHashMap

/-- A map in use, and the bounded map that was told the results of the calls. -/
structure MapSession (K V : Type) where
  map : PooledHashMap K V
  spec : BoundedMap K Nat V

namespace MapSession

/-- One call. It is not enabled if it does not return, or if its result is not allowed. -/
def step (session : MapSession K V) (call : MapCall K Nat V) : Option (MapSession K V) := do
  let (result, map) ← session.map.call call
  let spec ← session.spec.respond call result
  some ⟨map, spec⟩

/-- Keys are inserted while they are absent, and nodes are removed while they are present. -/
def Allowed (session : MapSession K V) : MapCall K Nat V → Prop
  | .insert k _ => k ∉ session.spec.keys
  | .removeHandle node => node ∈ session.spec.handles
  | _ => True

instance (session : MapSession K V) : ∀ call, Decidable (session.Allowed call)
  | .insert k _ => inferInstanceAs (Decidable (k ∉ session.spec.keys))
  | .removeHandle node => inferInstanceAs (Decidable (node ∈ session.spec.handles))
  | .remove _ => isTrue trivial
  | .find _ => isTrue trivial

/-- A new map, on memory that holds anything. -/
def initial (poolSize tableSize : Nat) (hashFunc : K → Nat) (nodes : HashMapNodes K)
    (value : Nat → V) : MapSession K V :=
  ⟨PooledHashMap.initial poolSize tableSize hashFunc nodes value, BoundedMap.empty poolSize⟩

/-- The map is the bounded map, and its entries are where they belong. -/
structure Refined (poolSize tableSize : Nat) (session : MapSession K V) : Prop where
  /-- `find` returns the entry that was inserted for a key, or null. -/
  find : ∀ k, session.map.find k = some ((session.spec.find k).elim 0 MapEntry.handle)
  /-- The entries hold what was inserted. -/
  content : ∀ entry ∈ session.spec.entries, session.map.nodes.key entry.handle = entry.key ∧
    session.map.value entry.handle = entry.value
  /-- `insert` fails exactly when the map is full. -/
  full : ∀ k value, session.map.insert k value = none ↔ session.spec.entries.length = poolSize
  /-- Removing an absent key changes nothing. -/
  absent : ∀ k, k ∉ session.spec.keys → session.map.removeKey k = some session.map
  /-- Every entry of the pool is in one ring, that of the free entries or the one of its key. -/
  rings : ∃ pool lists, Rings session.map.nodes.links
      (PooledHashMap.places session.map.poolHead session.map.map.table)
      (PooledHashMap.places pool lists) ∧
    (∀ node, 0 < node ∧ node ≤ poolSize ↔ node ∈ pool ∨ ∃ i, node ∈ lists i) ∧
    (∀ node, node ∈ session.spec.handles ↔ ∃ i, node ∈ lists i) ∧
    ∀ i, ∀ node ∈ lists i, session.map.map.index (session.map.nodes.key node) = i ∧ i < tableSize

/-- The invariant, for these free entries and buckets. -/
structure Represents (session : MapSession K V) (pool : List Nat) (lists : Nat → List Nat) : Prop where
  sound : session.map.Sound pool lists
  capacity : session.spec.capacity = session.map.poolSize
  split : (pool ++ session.spec.handles).Perm (List.range' 1 session.map.poolSize)
  buckets : ∀ node, node ∈ session.spec.handles ↔ ∃ i, node ∈ lists i
  content : ∀ entry ∈ session.spec.entries, session.map.nodes.key entry.handle = entry.key ∧
    session.map.value entry.handle = entry.value

section

variable {session : MapSession K V} {pool : List Nat} {lists : Nat → List Nat} {k : K}
  {entry : MapEntry K Nat V}

variable (h : session.Represents pool lists)
include h

omit [DecidableEq K] in
theorem Represents.mem_bucket (hentry : entry ∈ session.spec.entries) :
    entry.handle ∈ lists (session.map.map.index entry.key) := by
  obtain ⟨i, hi⟩ := (h.buckets entry.handle).mp (List.mem_map_of_mem hentry)
  have hplace := h.sound.buckets.place i entry.handle hi
  rw [(h.content entry hentry).1] at hplace
  exact hplace ▸ hi

theorem Represents.find_cases (k : K) :
    (session.map.find k = some 0 ∧ k ∉ session.spec.keys) ∨
      ∃ entry ∈ session.spec.entries, entry.key = k ∧ entry.handle ≠ 0 ∧
        session.map.find k = some entry.handle := by
  rcases h.sound.find_cases k with ⟨hfind, hnone⟩ | ⟨node, hnode, hne, hkey, hfind⟩
  · refine Or.inl ⟨hfind, fun hmem => ?_⟩
    obtain ⟨entry, hentry, rfl⟩ := List.mem_map.mp hmem
    exact hnone entry.handle (h.mem_bucket hentry) (h.content entry hentry).1
  · obtain ⟨entry, hentry, rfl⟩ := List.mem_map.mp ((h.buckets node).mpr ⟨_, hnode⟩)
    exact Or.inr ⟨entry, hentry, (h.content entry hentry).1.symm.trans hkey, hne, hfind⟩

omit [DecidableEq K] in
theorem Represents.pool_eq_nil_iff :
    pool = [] ↔ session.spec.entries.length = session.spec.capacity := by
  have hlength := h.split.length_eq
  rw [List.length_append, List.length_range', ← h.capacity, BoundedMap.handles, List.length_map]
    at hlength
  rw [← List.length_eq_zero_iff]
  omega

theorem Represents.refined {tableSize : Nat} (hindex : ∀ k, session.map.map.index k < tableSize) :
    session.Refined session.map.poolSize tableSize := by
  refine ⟨fun k => ?_, h.content, fun k value => ?_, fun k hk => ?_, pool, lists, h.sound.rings,
    fun node => ?_, h.buckets, fun i node hnode => ?_⟩
  · rcases h.find_cases k with ⟨hfind, hk⟩ | ⟨entry, hentry, rfl, _, hfind⟩
    · rw [hfind, BoundedMap.find_of_not_mem hk]
      rfl
    · rw [hfind, BoundedMap.find_of_mem hentry]
      rfl
  · have hhead := (h.sound.rings.queue none).head_eq_null_iff
    rw [← h.capacity, ← h.pool_eq_nil_iff]
    unfold PooledHashMap.insert
    constructor
    · intro hnone
      split at hnone
      · exact hhead.mp ‹_›
      · cases hnone
    · intro hnil
      exact if_pos (hhead.mpr hnil)
  · rcases h.find_cases k with ⟨hfind, _⟩ | ⟨entry, hentry, rfl, _⟩
    · simp [PooledHashMap.removeKey, hfind]
    · exact absurd (List.mem_map_of_mem hentry) hk
  · rw [← h.buckets node, ← List.mem_append, h.split.mem_iff, List.mem_range'_1]
    omega
  · have hplace := h.sound.buckets.place i node hnode
    exact ⟨hplace, hplace ▸ hindex _⟩

/-- An insertion takes a node of the pool, or is refused when the pool is empty. -/
theorem Represents.insert (hk : k ∉ session.spec.keys) (value : V) :
    ∃ next, session.step (.insert k value) = some next ∧ next.map.map.index = session.map.map.index ∧
      next.map.poolSize = session.map.poolSize ∧ ∃ pool lists, next.Represents pool lists := by
  have hhead := (h.sound.rings.queue none).head_eq_null_iff
  by_cases hnull : session.map.poolHead = 0
  · have hfull := h.pool_eq_nil_iff.mp (hhead.mp hnull)
    refine ⟨session, ?_, rfl, rfl, pool, lists, h⟩
    simp [step, PooledHashMap.call, PooledHashMap.insert, hnull, BoundedMap.respond, hfull]
  · have hbucket : ∀ other ∈ lists (session.map.map.index k), session.map.nodes.key other ≠ k := by
      intro other hother hkey
      obtain ⟨entry, hentry, rfl⟩ := List.mem_map.mp ((h.buckets other).mpr ⟨_, hother⟩)
      rw [(h.content entry hentry).1] at hkey
      exact hk (hkey ▸ List.mem_map_of_mem hentry)
    obtain ⟨rest, after, rfl, hinsert, hafter, hindex, hsize, hkeys, hvalues⟩ :=
      h.sound.insert hnull hbucket value
    -- the entry is none of those in use, and there is room
    have hnodup := h.split.nodup_iff.mpr List.nodup_range'
    have hfresh : session.map.poolHead ∉ session.spec.handles := fun hmem =>
      List.disjoint_of_nodup_append hnodup List.mem_cons_self hmem
    have hroom : session.spec.entries.length < session.spec.capacity := by
      have hne := mt h.pool_eq_nil_iff.mpr (List.cons_ne_nil _ _)
      have hle := session.spec.length_le
      omega
    obtain ⟨spec, hspec, hcapacity, hentries⟩ : ∃ spec,
        session.spec.insert ⟨k, session.map.poolHead, value⟩ = some spec ∧
          spec.capacity = session.spec.capacity ∧
          spec.entries = ⟨k, session.map.poolHead, value⟩ :: session.spec.entries :=
      ⟨_, dif_pos ⟨hroom, hk, hfresh⟩, rfl, rfl⟩
    have hhandles : spec.handles = session.map.poolHead :: session.spec.handles := by
      simp [BoundedMap.handles, hentries]
    refine ⟨⟨after, spec⟩, ?_, hindex, hsize, rest, _, hafter, ?_, ?_, fun node => ?_, fun entry hentry => ?_⟩
    · simp [step, PooledHashMap.call, hinsert, BoundedMap.respond, hspec]
    · rw [hcapacity, h.capacity, hsize]
    · rw [hhandles, hsize]
      exact List.perm_middle.trans h.split
    · rw [hhandles, List.mem_cons, h.buckets node, exists_mem_pushed_iff]
    · rw [hentries] at hentry
      rw [hkeys, hvalues]
      rcases List.mem_cons.mp hentry with rfl | hentry
      · exact ⟨Function.update_self .., Function.update_self ..⟩
      · have hne : entry.handle ≠ session.map.poolHead := fun heq =>
          hfresh (heq ▸ List.mem_map_of_mem hentry)
        rw [Function.update_of_ne hne, Function.update_of_ne hne]
        exact h.content entry hentry

omit [DecidableEq K] in
/-- A removed node goes back to the pool. -/
theorem Represents.remove (hentry : entry ∈ session.spec.entries) :
    (session.map.remove entry.handle).map.index = session.map.map.index ∧
      (session.map.remove entry.handle).poolSize = session.map.poolSize ∧ ∃ pool lists,
      Represents ⟨session.map.remove entry.handle, session.spec.eraseHandle entry.handle⟩
        pool lists := by
  have hkey := (h.content entry hentry).1
  have hmem : entry.handle ∈ session.spec.handles := List.mem_map_of_mem hentry
  have hnode : entry.handle ∈ lists (session.map.map.index (session.map.nodes.key entry.handle)) := by
    rw [hkey]
    exact h.mem_bucket hentry
  obtain ⟨hafter, hindex, hsize, hkeys, hvalues⟩ := h.sound.remove hnode
  have hhandles := session.spec.handles_erase_handle entry.handle
  refine ⟨hindex, hsize, entry.handle :: pool, _, hafter, ?_, ?_, fun node => ?_, fun other hother => ?_⟩
  · rw [hsize]
    exact h.capacity
  · have hback : (entry.handle :: pool ++ session.spec.handles.erase entry.handle).Perm
        (pool ++ session.spec.handles) :=
      List.perm_middle.symm.trans ((List.perm_cons_erase hmem).symm.append_left pool)
    rw [hhandles, hsize]
    exact hback.trans h.split
  · have hnodup : session.spec.handles.Nodup := session.spec.handles_nodup
    rw [hhandles, hnodup.mem_erase_iff, h.buckets node]
    have hunique : ∀ i, entry.handle ∈ lists i →
        i = session.map.map.index (session.map.nodes.key entry.handle) :=
      fun i hi => (h.sound.buckets.place i _ hi).symm
    have hlist := (h.sound.rings.queue (some
      (session.map.map.index (session.map.nodes.key entry.handle)))).ring.nodup
    constructor
    · rintro ⟨hne, i, hi⟩
      refine ⟨i, ?_⟩
      by_cases heq : i = session.map.map.index (session.map.nodes.key entry.handle)
      · rw [heq, Function.update_self]
        exact (List.mem_erase_of_ne hne).mpr (heq ▸ hi)
      · rwa [Function.update_of_ne heq]
    · rintro ⟨i, hi⟩
      refine ⟨?_, i, mem_of_mem_erased hi⟩
      rintro rfl
      rw [hunique i (mem_of_mem_erased hi), Function.update_self] at hi
      exact (hlist.mem_erase_iff.mp hi).1 rfl
  · rw [hkeys, hvalues]
    exact h.content other (List.mem_of_mem_filter hother)

/-- The entry of a key is removed, if there is one. -/
theorem Represents.remove_key (k : K) :
    ∃ next, session.step (.remove k) = some next ∧ next.map.map.index = session.map.map.index ∧
      next.map.poolSize = session.map.poolSize ∧ ∃ pool lists, next.Represents pool lists := by
  rcases h.find_cases k with ⟨hfind, hk⟩ | ⟨entry, hentry, rfl, hne, hfind⟩
  · refine ⟨session, ?_, rfl, rfl, pool, lists, h⟩
    simp [step, PooledHashMap.call, PooledHashMap.removeKey, hfind, BoundedMap.respond,
      BoundedMap.erase_key_of_not_mem hk]
  · obtain ⟨hindex, hsize, hnext⟩ := h.remove hentry
    refine ⟨_, ?_, hindex, hsize, hnext⟩
    simp [step, PooledHashMap.call, PooledHashMap.removeKey, hfind, hne, BoundedMap.respond,
      BoundedMap.erase_key_eq hentry]

theorem Represents.step_find (k : K) :
    session.step (.find k) = some session := by
  rcases h.find_cases k with ⟨hfind, hk⟩ | ⟨entry, hentry, rfl, hne, hfind⟩
  · simp [step, PooledHashMap.call, hfind, BoundedMap.respond, hk]
  · simp [step, PooledHashMap.call, hfind, hne, BoundedMap.respond, BoundedMap.find_of_mem hentry]

/-- Every allowed call returns, with a result that the bounded map allows. -/
theorem Represents.step {call : MapCall K Nat V} (hallowed : session.Allowed call) :
    ∃ next, session.step call = some next ∧ next.map.map.index = session.map.map.index ∧
      next.map.poolSize = session.map.poolSize ∧ ∃ pool lists, next.Represents pool lists := by
  cases call with
  | insert k value => exact h.insert hallowed value
  | remove k => exact h.remove_key k
  | removeHandle node =>
    obtain ⟨entry, hentry, rfl⟩ := List.mem_map.mp hallowed
    obtain ⟨hindex, hsize, hnext⟩ := h.remove hentry
    exact ⟨_, rfl, hindex, hsize, hnext⟩
  | find k => exact ⟨session, h.step_find k, rfl, rfl, pool, lists, h⟩

end

omit [DecidableEq K] in
theorem represents_initial (poolSize tableSize : Nat) (hashFunc : K → Nat) (nodes : HashMapNodes K)
    (value : Nat → V) :
    (initial poolSize tableSize hashFunc nodes value).Represents (List.range' 1 poolSize).reverse
      fun _ => [] := by
  refine ⟨PooledHashMap.sound_initial poolSize tableSize hashFunc nodes value, rfl, ?_, ?_, ?_⟩
  · simp [initial, BoundedMap.empty, BoundedMap.handles, PooledHashMap.initial]
  · simp [initial, BoundedMap.empty, BoundedMap.handles]
  · simp [initial, BoundedMap.empty]

/-- Whatever the sizes and the hash function are, `pooled_hash_map` is a bounded finite map: all
calls return, with results such a map allows, and the entries stay where they belong. -/
theorem pooled_hash_map_refines_bounded_map (poolSize tableSize : Nat) (htable : 0 < tableSize)
    (hashFunc : K → Nat) (nodes : HashMapNodes K) (value : Nat → V) (calls : List (MapCall K Nat V))
    (hcalls : Meets step Allowed (initial poolSize tableSize hashFunc nodes value) calls) :
    ∃ final, run step (initial poolSize tableSize hashFunc nodes value) calls = some final ∧
      final.Refined poolSize tableSize := by
  obtain ⟨final, hrun, hindex, hsize, pool, lists, hfinal⟩ := run_eq_some_of_meets
    (fun session : MapSession K V => session.map.map.index = (HashMap.initial tableSize hashFunc).index ∧
      session.map.poolSize = poolSize ∧ ∃ pool lists, session.Represents pool lists)
    (fun session call hinvariant hallowed => by
      obtain ⟨hindex, hsize, pool, lists, hrepresents⟩ := hinvariant
      obtain ⟨next, hstep, hnext, hnextSize, hnextRepresents⟩ := hrepresents.step hallowed
      exact ⟨next, hstep, hnext.trans hindex, hnextSize.trans hsize, hnextRepresents⟩)
    ⟨rfl, rfl, _, _, represents_initial poolSize tableSize hashFunc nodes value⟩ hcalls
  refine ⟨final, hrun, hsize ▸ hfinal.refined fun k => ?_⟩
  rw [hindex]
  exact Nat.mod_lt _ htable

/-- Two entries, one bucket: the third key finds no room, until the second one is removed. -/
theorem pooled_hash_map_refines_bounded_map_two :
    ∃ final, run step (initial 2 1 (fun k : Nat => k) ⟨⟨fun _ => 0, fun _ => 0⟩, fun _ => 0⟩
        (fun _ : Nat => 0))
        [.insert 7 70, .insert 8 80, .insert 9 90, .remove 8, .insert 9 91, .removeHandle 2,
          .find 7] = some final ∧ final.Refined 2 1 :=
  pooled_hash_map_refines_bounded_map 2 1 (by decide) _ _ _ _ (by decide +kernel)

end MapSession

end Otrix
