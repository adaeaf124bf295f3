import Mathlib.Data.List.Nodup
import Mathlib.Data.List.Perm.Basic

/-!
# Finite maps with a bounded number of entries

`BoundedMap` is a finite map of which the caller holds handles: every entry has a key, a handle
and a value, no two entries have one key or one handle, and there are at most `capacity` of them.

`respond` says which results of a call such a map allows, and what it is afterwards. The map does
not choose the handle of a new entry. It only insists that the handle is none of those in use, so
that an implementation is compared with it result by result.
-/

/-- An entry of a map. -/
structure MapEntry (κ η ν : Type*) where
  key : κ
  handle : η
  value : ν

/-- A finite map with handles and room for `capacity` entries. -/
@[ext]
structure BoundedMap (κ η ν : Type*) where
  capacity : Nat
  entries : List (MapEntry κ η ν)
  keys_nodup : (entries.map MapEntry.key).Nodup
  handles_nodup : (entries.map MapEntry.handle).Nodup
  length_le : entries.length ≤ capacity

/-- The calls of a map. -/
inductive MapCall (κ η ν : Type*) where
  | insert (key : κ) (value : ν)
  | remove (key : κ)
  | removeHandle (handle : η)
  | find (key : κ)

/-- What a call returns: the handle of an entry, a null handle, or nothing. -/
inductive MapResult (η : Type*) where
  | entry (handle : η)
  | null
  | done

namespace BoundedMap

variable {κ η ν : Type*}

/-- The keys in use. -/
def keys (m : BoundedMap κ η ν) : List κ :=
  m.entries.map MapEntry.key

/-- The handles in use. -/
def handles (m : BoundedMap κ η ν) : List η :=
  m.entries.map MapEntry.handle

/-- The map without entries. -/
def empty (capacity : Nat) : BoundedMap κ η ν :=
  ⟨capacity, [], List.nodup_nil, List.nodup_nil, Nat.zero_le _⟩

/-- Keep some of the entries. -/
def filter (m : BoundedMap κ η ν) (p : MapEntry κ η ν → Bool) : BoundedMap κ η ν where
  capacity := m.capacity
  entries := m.entries.filter p
  keys_nodup := m.keys_nodup.sublist (List.filter_sublist.map _)
  handles_nodup := m.handles_nodup.sublist (List.filter_sublist.map _)
  length_le := Nat.le_trans (List.length_filter_le _ _) m.length_le

variable [DecidableEq κ] [DecidableEq η]

/-- The entry of a key. -/
def find (m : BoundedMap κ η ν) (k : κ) : Option (MapEntry κ η ν) :=
  m.entries.find? fun entry => entry.key = k

/-- Add an entry, if there is room and neither its key nor its handle are in use. -/
def insert (m : BoundedMap κ η ν) (entry : MapEntry κ η ν) : Option (BoundedMap κ η ν) :=
  if h : m.entries.length < m.capacity ∧ entry.key ∉ m.keys ∧ entry.handle ∉ m.handles then
    some ⟨m.capacity, entry :: m.entries, List.nodup_cons.mpr ⟨h.2.1, m.keys_nodup⟩,
      List.nodup_cons.mpr ⟨h.2.2, m.handles_nodup⟩, h.1⟩
  else none

/-- Take the entry of a key out. -/
def eraseKey (m : BoundedMap κ η ν) (k : κ) : BoundedMap κ η ν :=
  m.filter fun entry => entry.key ≠ k

/-- Take the entry with a handle out. -/
def eraseHandle (m : BoundedMap κ η ν) (h : η) : BoundedMap κ η ν :=
  m.filter fun entry => entry.handle ≠ h

/-- The map after a call with this result, or `none` if the call must not have it. -/
def respond (m : BoundedMap κ η ν) : MapCall κ η ν → MapResult η → Option (BoundedMap κ η ν)
  | .insert k v, .entry h => m.insert ⟨k, h, v⟩
  | .insert _ _, .null => if m.entries.length = m.capacity then some m else none
  | .remove k, .done => some (m.eraseKey k)
  | .removeHandle h, .done => some (m.eraseHandle h)
  | .find k, .entry h => if (m.find k).map MapEntry.handle = some h then some m else none
  | .find k, .null => if k ∉ m.keys then some m else none
  | _, _ => none

variable {m : BoundedMap κ η ν} {entry : MapEntry κ η ν} {k : κ}

omit [DecidableEq η] in
theorem find_of_mem (h : entry ∈ m.entries) : m.find entry.key = some entry := by
  obtain ⟨found, hfound⟩ : ∃ found, m.find entry.key = some found :=
    Option.isSome_iff_exists.mp (List.find?_isSome.mpr ⟨entry, h, decide_eq_true rfl⟩)
  have hmem := List.mem_of_find?_eq_some hfound
  have hkey : found.key = entry.key := by simpa using List.find?_some hfound
  rw [hfound, List.inj_on_of_nodup_map m.keys_nodup hmem h hkey]

omit [DecidableEq η] in
theorem find_of_not_mem (h : k ∉ m.keys) : m.find k = none := by
  refine List.find?_eq_none.mpr fun entry hentry hkey => h ?_
  rw [← of_decide_eq_true hkey]
  exact List.mem_map_of_mem hentry

omit [DecidableEq κ] in
theorem handles_erase_handle (m : BoundedMap κ η ν) (h : η) :
    (m.eraseHandle h).handles = m.handles.erase h := by
  have hnodup : m.handles.Nodup := m.handles_nodup
  rw [hnodup.erase_eq_filter]
  show (m.entries.filter _).map _ = (m.entries.map _).filter _
  rw [List.filter_map]
  refine congrArg (List.map _) (List.filter_congr fun entry _ => ?_)
  by_cases heq : entry.handle = h <;> simp [heq]

theorem erase_key_eq (h : entry ∈ m.entries) : m.eraseKey entry.key = m.eraseHandle entry.handle := by
  refine BoundedMap.ext rfl (List.filter_congr fun other hother => ?_)
  have hiff : other.key = entry.key ↔ other.handle = entry.handle := by
    refine ⟨fun hkey => ?_, fun hhandle => ?_⟩
    · rw [List.inj_on_of_nodup_map m.keys_nodup hother h hkey]
    · rw [List.inj_on_of_nodup_map m.handles_nodup hother h hhandle]
  simp only [ne_eq, hiff]

omit [DecidableEq η] in
theorem erase_key_of_not_mem (h : k ∉ m.keys) : m.eraseKey k = m := by
  refine BoundedMap.ext rfl (List.filter_eq_self.mpr fun entry hentry => ?_)
  refine decide_eq_true fun hkey => h ?_
  rw [← hkey]
  exact List.mem_map_of_mem hentry

end BoundedMap
