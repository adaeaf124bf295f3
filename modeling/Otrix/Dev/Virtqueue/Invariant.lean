import Otrix.Dev.Virtqueue.Model
import Otrix.Foundation.RingBuffer
import Mathlib.Data.List.Perm.Basic
import Mathlib.Data.List.Nodup

/-!
# The invariant of the virtqueue

A submission is named by its position in the history, and `ids` maps positions
to descriptors. The submissions that are not freed yet are the outstanding ones.
`Coherent` has three parts: the descriptor table is split between the outstanding
submissions and the free chain (`Descriptors`), the available ring holds the
descriptors that the device has not read (`Available`), and the used ring holds
the completions that the driver has not freed (`Used`). For each part there is
one lemma for each change that the driver or the device makes to it.
-/

namespace Otrix.Dev

open RingBuffer Function

/-- The descriptors that hang together by their `next` fields from `head` on. The chain ends with
the value that `-1` has as a `uint16_t`. -/
def FreeChain (table : Nat → VirtioDescriptor) : Int → List Nat → Prop
  | head, [] => head = 65535
  | head, id :: rest => head = id ∧ FreeChain table (table id).next rest

/-- The descriptor has the address, the length and the flags of the buffer. -/
def VirtioDescriptor.Describes (desc : VirtioDescriptor) (buffer : Buffer) : Prop :=
  desc.addr = buffer.addr ∧ desc.len = buffer.size ∧ desc.flags = buffer.flags

/-- The positions of the submissions that are not freed: completed but not yet freed, read by the
device but not completed, and not yet read. -/
def System.outstanding (sys : System) : List Nat :=
  (sys.completed.drop sys.freed).map Prod.fst ++ sys.pending ++
    List.range' sys.reads.length (sys.submitted.length - sys.reads.length)

/-- The descriptor table belongs to the outstanding submissions and the free chain. -/
structure Descriptors (vq : Virtq) (submitted : List Buffer) (outstanding : List Nat)
    (ids : Nat → Nat) (chain : List Nat) : Prop where
  size_dvd : vq.size ∣ 2 ^ 16
  size_le : vq.size ≤ 2 ^ 15
  linked : FreeChain vq.descTable vq.freeList chain
  free : vq.numFreeDescriptors = chain.length
  /-- Every descriptor belongs to one outstanding submission or is in the chain. -/
  split : (outstanding.map ids ++ chain).Perm (List.range vq.size)
  submitted_of_mem : ∀ position ∈ outstanding, position < submitted.length
  /-- The descriptor of an outstanding submission holds it. -/
  holds : ∀ position ∈ outstanding, ∀ buffer, submitted[position]? = some buffer →
    (vq.descTable (ids position)).Describes buffer ∧ vq.descCtx (ids position) = buffer.ctx

/-- The device reads the submissions in order. -/
structure Available (vq : Virtq) (submitted : List Buffer) (reads : List (Nat × VirtioDescriptor))
    (nextAvail : Nat) (ids : Nat → Nat) : Prop where
  reads_le : reads.length ≤ submitted.length
  read : ∀ position id desc, reads[position]? = some (id, desc) →
    id = ids position ∧ ∃ buffer, submitted[position]? = some buffer ∧ desc.Describes buffer
  ring : Window vq.availRing vq.size ((List.range submitted.length).map ids) reads.length
  ring_idx : vq.availRingIdx = submitted.length % 2 ^ 16
  next_avail : nextAvail = reads.length % 2 ^ 16

/-- The completions of a device that has read `count` descriptors. -/
structure Used (vq : Virtq) (count : Nat) (pending : List Nat) (completed : List (Nat × Nat))
    (freed : Nat) (ids : Nat → Nat) : Prop where
  /-- Every read descriptor is pending or was completed once. -/
  positions : (completed.map Prod.fst ++ pending).Perm (List.range count)
  freed_le : freed ≤ completed.length
  ring : Window vq.usedRing vq.size
    (completed.map fun done => ⟨ids done.1, done.2⟩) freed
  ring_idx : vq.usedRingIdx = completed.length % 2 ^ 16
  used_idx : vq.usedIdx = freed % 2 ^ 16

/-- How many completions the handler was called for: the freed ones, and one more while it runs. -/
def System.handled (sys : System) : Nat :=
  if sys.handling.isSome then sys.freed + 1 else sys.freed

/-- The call that reports a buffer. -/
def Virtq.callFor (vq : Virtq) (buffer : Buffer) : IrqCall :=
  ⟨vq.irqHandlerCtx, buffer.ctx, buffer.addr, buffer.size⟩

/-- The calls that the handler owes for some completions: none without a handler, else one for each
completion, with the buffer of that position. -/
def System.owedCalls (sys : System) (done : List (Nat × Nat)) : List (Option IrqCall) :=
  if sys.vq.irqHandler = 0 then []
  else done.map fun entry => sys.submitted[entry.1]?.map sys.vq.callFor

/-- What the rings and the histories say about the submissions, apart from the descriptor table. -/
structure Transit (ids : Nat → Nat) (sys : System) : Prop where
  available : Available sys.vq sys.submitted sys.reads sys.nextAvail ids
  used : Used sys.vq sys.reads.length sys.pending sys.completed sys.freed ids
  handling : ∀ id, sys.handling = some id →
    ∃ done, sys.completed[sys.freed]? = some done ∧ id = ids done.1
  calls : sys.calls.map some = sys.owedCalls (sys.completed.take sys.handled)

/-- The invariant of the queue and its device. -/
structure Coherent (ids : Nat → Nat) (chain : List Nat) (sys : System) : Prop
    extends Transit ids sys where
  descriptors : Descriptors sys.vq sys.submitted sys.outstanding ids chain

/-! ## The free chain -/

variable {vq : Virtq} {submitted : List Buffer} {outstanding chain : List Nat} {ids : Nat → Nat}
  {reads : List (Nat × VirtioDescriptor)} {pending : List Nat} {completed : List (Nat × Nat)}
  {count freed nextAvail : Nat} {sys : System} {buffer : Buffer}

/-- A chain depends only on the `next` fields of its descriptors. -/
theorem FreeChain.congr {table table' : Nat → VirtioDescriptor} {head : Int}
    (h : FreeChain table head chain)
    (hnext : ∀ id ∈ chain, (table' id).next = (table id).next) : FreeChain table' head chain := by
  induction chain generalizing head with
  | nil => exact h
  | cons id rest ih =>
    obtain ⟨hhead, hrest⟩ := h
    refine ⟨hhead, ?_⟩
    rw [hnext id (by simp)]
    exact ih hrest fun other hother => hnext other (by simp [hother])

/-- The head of a chain survives the conversion to `uint16_t` and back. -/
theorem FreeChain.u16_head {table : Nat → VirtioDescriptor} {head : Int}
    (h : FreeChain table head chain) (hlt : ∀ id ∈ chain, id < 2 ^ 16) :
    (u16 head : Int) = head := by
  cases chain with
  | nil =>
    have hhead : head = 65535 := h
    rw [hhead]
    rfl
  | cons id rest =>
    have hid := hlt id (by simp)
    rw [h.1, u16_natCast]
    omega

theorem FreeChain.push {table : Nat → VirtioDescriptor} {head : Int} {id : Nat}
    (h : FreeChain table head chain) (hlt : ∀ id ∈ chain, id < 2 ^ 16) (hid : id ∉ chain) :
    FreeChain (update table id { table id with next := u16 head }) id (id :: chain) := by
  refine ⟨rfl, ?_⟩
  rw [update_self, h.u16_head hlt]
  refine h.congr fun other hother => ?_
  rw [update_of_ne (ne_of_mem_of_not_mem hother hid)]

/-- Returning a descriptor to the chain changes only its `next` field. -/
theorem handle_vq_irq_free_describes {descId other : Nat} :
    ((handleVqIrqFree vq descId).descTable other).Describes buffer ↔
      (vq.descTable other).Describes buffer := by
  show (update vq.descTable descId _ other).Describes buffer ↔ _
  by_cases heq : other = descId
  · rw [heq, update_self]
    exact Iff.rfl
  · rw [update_of_ne heq]

/-- The descriptors from `first` on, in the order in which `virtq_create` chains them. -/
theorem free_chain_range' (table : Nat → VirtioDescriptor) {size first : Nat} (hlt : first < size)
    (hnext : ∀ i, i + 1 < size → (table i).next = i + 1)
    (hlast : (table (size - 1)).next = 65535) :
    FreeChain table first (List.range' first (size - first)) := by
  obtain ⟨count, hcount⟩ : ∃ count, size - first = count + 1 := ⟨size - first - 1, by omega⟩
  rw [hcount]
  induction count generalizing first with
  | zero =>
    have hfirst : first = size - 1 := by omega
    refine ⟨rfl, ?_⟩
    show ((table first).next : Int) = 65535
    rw [hfirst, hlast]
    rfl
  | succ count ih =>
    refine ⟨rfl, ?_⟩
    rw [hnext first (by omega)]
    exact ih (by omega) (by omega)

/-- The loop of `virtq_create`: after `count` turns the first `count` descriptors are chained. -/
theorem chain_descriptors_loop (count i : Nat) :
    ((List.range count).foldl
      (fun table i => update table i { table i with next := i + 1 })
      (fun _ => (⟨0, 0, 0, 0⟩ : VirtioDescriptor)) i).next = if i < count then i + 1 else 0 := by
  induction count with
  | zero => rfl
  | succ count ih =>
    rw [List.range_succ, List.foldl_append]
    by_cases hi : i = count
    · subst hi
      simp
    · simp only [List.foldl_cons, List.foldl_nil, update_of_ne hi, ih]
      simp only [show (i < count + 1) = (i < count) by simp; omega]

theorem virtq_create_chain {size : Nat} (hsize : 0 < size) :
    FreeChain (chainDescriptors size) 0 (List.range size) := by
  have hnext : ∀ i, i + 1 < size → (chainDescriptors size i).next = i + 1 := by
    intro i hi
    rw [chainDescriptors, update_of_ne (by omega), chain_descriptors_loop,
      if_pos (by omega)]
  have hlast : (chainDescriptors size (size - 1)).next = 65535 := by
    rw [chainDescriptors, update_self]
    rfl
  have hchain := free_chain_range' (chainDescriptors size) hsize hnext hlast
  rwa [Nat.sub_zero, ← List.range_eq_range'] at hchain

/-! ## The descriptor table -/

section

variable (h : Descriptors vq submitted outstanding ids chain)
include h

theorem Descriptors.lt_size {id : Nat} (hid : id ∈ outstanding.map ids ++ chain) : id < vq.size :=
  List.mem_range.mp (h.split.mem_iff.mp hid)

theorem Descriptors.nodup :
    (outstanding.map ids ++ chain).Nodup :=
  h.split.nodup_iff.mpr List.nodup_range

theorem Descriptors.length_add :
    outstanding.length + chain.length = vq.size := by
  have hlength := h.split.length_eq
  rwa [List.length_append, List.length_map, List.length_range] at hlength

/-- The order of the outstanding submissions does not matter. -/
theorem Descriptors.perm {other : List Nat}
    (hperm : other.Perm outstanding) : Descriptors vq submitted other ids chain where
  size_dvd := h.size_dvd
  size_le := h.size_le
  linked := h.linked
  free := h.free
  split := ((hperm.map ids).append_right chain).trans h.split
  submitted_of_mem position hmem := h.submitted_of_mem position (hperm.mem_iff.mp hmem)
  holds position hmem := h.holds position (hperm.mem_iff.mp hmem)

/-- The descriptor table does not depend on the rings. -/
theorem Descriptors.congr {vq' : Virtq}
    (hsize : vq'.size = vq.size) (htable : vq'.descTable = vq.descTable)
    (hlist : vq'.freeList = vq.freeList) (hfree : vq'.numFreeDescriptors = vq.numFreeDescriptors)
    (hctx : vq'.descCtx = vq.descCtx) : Descriptors vq' submitted outstanding ids chain where
  size_dvd := hsize ▸ h.size_dvd
  size_le := hsize ▸ h.size_le
  linked := by rw [htable, hlist]; exact h.linked
  free := by rw [hfree]; exact h.free
  split := by rw [hsize]; exact h.split
  submitted_of_mem := h.submitted_of_mem
  holds := by rw [htable, hctx]; exact h.holds

/-- What `virtq_send_buffer` does, in terms of the chain: the test for `-1` never succeeds, and the
count of free descriptors decides. -/
theorem virtq_send_buffer_eq (buffer : Buffer) :
    virtqSendBuffer vq buffer =
      if buffer.addr = 0 ∨ buffer.size = 0 then (.inval, vq)
      else match chain with
        | [] => (.nomem, vq)
        | id :: _ => (.ok, takeDescriptor vq id buffer) := by
  unfold virtqSendBuffer
  cases chain with
  | nil =>
    have hfree : vq.numFreeDescriptors = 0 := h.free
    simp only [hfree, or_true, if_true]
  | cons id rest =>
    have hfree := h.free
    have hhead : vq.freeList = id := h.linked.1
    have hbusy : ¬ (vq.freeList = -1 ∨ vq.numFreeDescriptors = 0) := by
      rw [hhead, hfree, List.length_cons]
      omega
    rw [if_neg hbusy, hhead]
    rfl

end

/-- The head of the free chain becomes the descriptor of a new submission. -/
theorem Descriptors.take {id : Nat} {rest : List Nat}
    (h : Descriptors vq submitted outstanding ids (id :: rest)) (buffer : Buffer) :
    Descriptors (takeDescriptor vq id buffer) (submitted ++ [buffer])
      (outstanding ++ [submitted.length]) (update ids submitted.length id) rest := by
  have hnodup := h.nodup
  have hids : ∀ position ∈ outstanding,
      update ids submitted.length id position = ids position := by
    intro position hmem
    exact update_of_ne (Nat.ne_of_lt (h.submitted_of_mem position hmem)) _ _
  have hne : ∀ position ∈ outstanding, ids position ≠ id := by
    intro position hmem heq
    exact List.disjoint_of_nodup_append hnodup (List.mem_map_of_mem hmem) (by simp [heq])
  refine ⟨h.size_dvd, h.size_le, ?_, ?_, ?_, ?_, ?_⟩
  · -- the rest of the chain does not contain the descriptor that is written
    have hrest : id ∉ rest := (List.nodup_cons.mp (List.nodup_append.mp hnodup).2.1).1
    refine h.linked.2.congr fun other hother => ?_
    show (update vq.descTable id _ other).next = _
    rw [update_of_ne (ne_of_mem_of_not_mem hother hrest)]
  · show vq.numFreeDescriptors - 1 = _
    rw [h.free, List.length_cons]
    omega
  · have hmap : (outstanding ++ [submitted.length]).map
        (update ids submitted.length id) = outstanding.map ids ++ [id] := by
      rw [List.map_append, List.map_congr_left hids]
      simp
    rw [hmap, List.append_assoc]
    exact h.split
  · intro position hmem
    rw [List.length_append, List.length_singleton]
    rcases List.mem_append.mp hmem with hold | hnew
    · exact Nat.lt_succ_of_lt (h.submitted_of_mem position hold)
    · rw [List.mem_singleton.mp hnew]
      exact Nat.lt_succ_self _
  · intro position hmem other hother
    show (update vq.descTable id _ _).Describes other ∧
      update vq.descCtx id _ _ = other.ctx
    rcases List.mem_append.mp hmem with hold | hnew
    · rw [hids position hold, update_of_ne (hne position hold),
        update_of_ne (hne position hold)]
      rw [List.getElem?_append_left (h.submitted_of_mem position hold)] at hother
      exact h.holds position hold other hother
    · obtain rfl := List.mem_singleton.mp hnew
      rw [List.getElem?_append_right (Nat.le_refl _), Nat.sub_self] at hother
      obtain rfl := Option.some.inj hother
      rw [update_self, update_self, update_self]
      exact ⟨⟨rfl, rfl, rfl⟩, rfl⟩

theorem Descriptors.release {position : Nat} {rest : List Nat}
    (h : Descriptors vq submitted (position :: rest) ids chain) :
    Descriptors (handleVqIrqFree vq (ids position)) submitted rest ids (ids position :: chain) := by
  have hchain : ids position ∉ chain := by
    intro hmem
    exact List.disjoint_of_nodup_append h.nodup (by simp) hmem
  have hlt : ∀ id ∈ chain, id < 2 ^ 16 := fun id hid => by
    have := h.lt_size (List.mem_append_right _ hid)
    have := h.size_le
    omega
  refine ⟨h.size_dvd, h.size_le, h.linked.push hlt hchain, ?_, ?_, ?_, ?_⟩
  · show vq.numFreeDescriptors + 1 = _
    rw [h.free, List.length_cons]
    omega
  · exact List.perm_middle.trans h.split
  · intro other hmem
    exact h.submitted_of_mem other (List.mem_cons_of_mem _ hmem)
  · intro other hmem buffer hbuffer
    obtain ⟨hdesc, hctx⟩ := h.holds other (List.mem_cons_of_mem _ hmem) buffer hbuffer
    exact ⟨handle_vq_irq_free_describes.mpr hdesc, hctx⟩

/-! ## The available ring -/

section

variable (h : Available vq submitted reads nextAvail ids)
include h

theorem Available.congr {vq' : Virtq}
    (hsize : vq'.size = vq.size) (hring : vq'.availRing = vq.availRing)
    (hidx : vq'.availRingIdx = vq.availRingIdx) : Available vq' submitted reads nextAvail ids where
  reads_le := h.reads_le
  read := h.read
  ring := by rw [hsize, hring]; exact h.ring
  ring_idx := by rw [hidx]; exact h.ring_idx
  next_avail := h.next_avail

/-- A submission goes to the next slot of the available ring. -/
theorem Available.push {id : Nat}
    (hdvd : vq.size ∣ 2 ^ 16) (hroom : submitted.length < reads.length + vq.size)
    (hid : id < 2 ^ 16) (buffer : Buffer) :
    Available (takeDescriptor vq id buffer) (submitted ++ [buffer]) reads nextAvail
      (update ids submitted.length id) := by
  refine ⟨?_, ?_, ?_, ?_, h.next_avail⟩
  · rw [List.length_append]
    exact Nat.le_add_right_of_le h.reads_le
  · intro position other desc hread
    obtain ⟨heq, found, hfound, hdesc⟩ := h.read position other desc hread
    have hlt : position < submitted.length := (List.getElem?_eq_some_iff.mp hfound).1
    rw [update_of_ne (Nat.ne_of_lt hlt), List.getElem?_append_left hlt]
    exact ⟨heq, found, hfound, hdesc⟩
  · show Window (update vq.availRing (vq.availRingIdx % vq.size) (u16 id)) vq.size _ _
    have hlog : (List.range (submitted ++ [buffer]).length).map
        (update ids submitted.length id) =
        (List.range submitted.length).map ids ++ [id] := by
      rw [List.length_append, List.length_singleton, List.range_succ, List.map_append]
      congr 1
      · refine List.map_congr_left fun position hmem => ?_
        exact update_of_ne (Nat.ne_of_lt (List.mem_range.mp hmem)) _ _
      · simp
    have hpush := h.ring.push (by simpa using hroom) id
    rw [List.length_map, List.length_range] at hpush
    rw [hlog, h.ring_idx, counter_mod hdvd, u16_natCast, Nat.mod_eq_of_lt hid]
    exact hpush
  · show u16 (vq.availRingIdx + 1 : Nat) = _
    rw [u16_natCast, h.ring_idx, counter_succ, List.length_append, List.length_singleton]

theorem Available.next_entry (hdvd : vq.size ∣ 2 ^ 16) (hlt : reads.length < submitted.length) :
    vq.availRing (nextAvail % vq.size) = ids reads.length := by
  rw [h.next_avail, counter_mod hdvd]
  exact h.ring reads.length _ (Nat.le_refl _) (by simp [hlt])

/-- The device has read everything exactly when its counter is that of the ring. -/
theorem Available.next_avail_eq_iff (hroom : submitted.length < reads.length + 2 ^ 16) :
    nextAvail = vq.availRingIdx ↔ reads.length = submitted.length := by
  rw [h.next_avail, h.ring_idx]
  exact counter_eq_iff h.reads_le hroom

theorem Available.consume
    (hbuffer : submitted[reads.length]? = some buffer) {desc : VirtioDescriptor}
    (hdesc : desc.Describes buffer) :
    Available vq submitted (reads ++ [(ids reads.length, desc)])
      (u16 (nextAvail + 1 : Nat)) ids := by
  refine ⟨?_, ?_, ?_, h.ring_idx, ?_⟩
  · rw [List.length_append, List.length_singleton]
    exact (List.getElem?_eq_some_iff.mp hbuffer).1
  · intro position id other hread
    by_cases hlast : position < reads.length
    · rw [List.getElem?_append_left hlast] at hread
      exact h.read position id other hread
    · have hlength := (List.getElem?_eq_some_iff.mp hread).1
      rw [List.length_append, List.length_singleton] at hlength
      obtain rfl : position = reads.length := by omega
      rw [List.getElem?_append_right (Nat.le_refl _), Nat.sub_self] at hread
      obtain ⟨rfl, rfl⟩ := Prod.mk.inj (Option.some.inj hread)
      exact ⟨rfl, buffer, hbuffer, hdesc⟩
  · rw [List.length_append, List.length_singleton]
    exact h.ring.advance
  · rw [u16_natCast, h.next_avail, counter_succ, List.length_append, List.length_singleton]

end

/-! ## The used ring -/

variable (h : Used vq count pending completed freed ids)
include h

/-- The completions do not depend on the descriptor table, nor on the descriptors of later
submissions. -/
theorem Used.congr {vq' : Virtq} {ids' : Nat → Nat}
    (hsize : vq'.size = vq.size) (hring : vq'.usedRing = vq.usedRing)
    (hidx : vq'.usedRingIdx = vq.usedRingIdx) (hused : vq'.usedIdx = vq.usedIdx)
    (hids : ∀ position < count, ids' position = ids position) :
    Used vq' count pending completed freed ids' where
  positions := h.positions
  freed_le := h.freed_le
  ring := by
    have hlog : completed.map (fun done => (⟨ids' done.1, done.2⟩ : VirtioUsedElem)) =
        completed.map fun done => ⟨ids done.1, done.2⟩ := by
      refine List.map_congr_left fun done hdone => ?_
      have hmem := h.positions.mem_iff.mp (List.mem_append_left _ (List.mem_map_of_mem hdone))
      rw [hids done.1 (List.mem_range.mp hmem)]
    rw [hsize, hring, hlog]
    exact h.ring
  ring_idx := by rw [hidx]; exact h.ring_idx
  used_idx := by rw [hused]; exact h.used_idx

theorem Used.consume :
    Used vq (count + 1) (pending ++ [count]) completed freed ids where
  positions := by
    rw [← List.append_assoc, List.range_succ]
    exact h.positions.append_right [count]
  freed_le := h.freed_le
  ring := h.ring
  ring_idx := h.ring_idx
  used_idx := h.used_idx

/-- A completion goes to the next slot of the used ring. -/
theorem Used.complete {position : Nat}
    (hdvd : vq.size ∣ 2 ^ 16) (hroom : completed.length < freed + vq.size)
    (hmem : position ∈ pending) (len : Nat) :
    Used { vq with
        usedRing := update vq.usedRing (vq.usedRingIdx % vq.size) ⟨ids position, len⟩
        usedRingIdx := u16 (vq.usedRingIdx + 1 : Nat) }
      count (pending.erase position) (completed ++ [(position, len)]) freed ids where
  positions := by
    have hperm : (completed.map Prod.fst ++ position :: pending.erase position).Perm
        (completed.map Prod.fst ++ pending) :=
      (List.perm_cons_erase hmem).symm.append_left _
    rw [List.map_append, List.append_assoc]
    exact hperm.trans h.positions
  freed_le := by
    rw [List.length_append]
    exact Nat.le_add_right_of_le h.freed_le
  ring := by
    have hpush := h.ring.push (by simpa using hroom) ⟨ids position, len⟩
    rw [List.length_map] at hpush
    show Window (update vq.usedRing (vq.usedRingIdx % vq.size) _) vq.size _ _
    rw [h.ring_idx, counter_mod hdvd, List.map_append]
    exact hpush
  ring_idx := by
    show u16 (vq.usedRingIdx + 1 : Nat) = _
    rw [u16_natCast, h.ring_idx, counter_succ, List.length_append, List.length_singleton]
  used_idx := h.used_idx

/-- The driver frees the descriptor of the next completion. -/
theorem Used.free (hlt : freed < completed.length) (id : Nat) :
    Used (handleVqIrqFree vq id) count pending completed (freed + 1) ids where
  positions := h.positions
  freed_le := hlt
  ring := h.ring.advance
  ring_idx := h.ring_idx
  used_idx := by
    show u16 (vq.usedIdx + 1 : Nat) = _
    rw [u16_natCast, h.used_idx, counter_succ]

theorem Used.next_entry {done : Nat × Nat}
    (hdvd : vq.size ∣ 2 ^ 16) (hdone : completed[freed]? = some done) :
    vq.usedRing vq.usedIndex = ⟨ids done.1, done.2⟩ := by
  rw [Virtq.usedIndex, h.used_idx, counter_mod hdvd]
  exact h.ring freed _ (Nat.le_refl _) (by rw [List.getElem?_map, hdone]; rfl)

theorem Used.used_idx_eq_iff (hroom : completed.length < freed + 2 ^ 16) :
    vq.usedIdx = vq.usedRingIdx ↔ freed = completed.length := by
  rw [h.used_idx, h.ring_idx]
  exact counter_eq_iff h.freed_le hroom

end Otrix.Dev
