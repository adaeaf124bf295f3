import Otrix.Kernel.Kmem.Free
import Otrix.Foundation.Run

/-!
# The heap invariant over whole runs

Every state that a freshly initialised heap reaches through allocations,
releases of live pointers and client writes is represented by a coalesced list
of free blocks and a list of live blocks. `HeapInvariant` reads this off the
memory: the ring of free blocks in address order, and the live blocks as their
headers record them.
-/

namespace Otrix.Kmem

open Blocks Bytes Linked Machine

variable {session next : Session} {free live : List Block} {block : Block}

/-- The heap of the session holds these free and live blocks, and the clients own the payloads of
the live ones. -/
structure Represents (session : Session) (free live : List Block) : Prop where
  holds : Holds session.heap.memory session.heap.freeList free live
  fits : Fits session.heap.start (session.heap.start + session.heap.size) free live
  coalesced : Coalesced free
  pointers : session.live = live.map fun block => block.addr + usedBlockBytes
  bounded : session.heap.start + session.heap.size < 2 ^ 64

variable {heapStart heapSize : Nat}

theorem holds_initial (memory : Mem) (hsize : heapSize < 2 ^ 64)
    (hstart : heapStart + 8 < 2 ^ 64) :
    Holds (kmemInit memory heapStart heapSize).memory (listNode heapStart)
      [⟨heapStart, heapSize⟩] [] := by
  let block : Block := ⟨heapStart, heapSize⟩
  obtain ⟨hheader, hself⟩ :=
    freed_header_spec memory (show block.size < 2 ^ 64 from hsize) (show block.addr + 8 < 2 ^ 64 from hstart)
  refine ⟨Queue.cons hself, ?_, by simp⟩
  intro other hother
  obtain rfl := List.mem_singleton.mp hother
  exact hheader

theorem represents_initial (memory : Mem)
    (hsize : kmemMinFreeBlockSize ≤ heapSize) (hend : heapStart + heapSize < 2 ^ 64) :
    Represents (Session.initial memory heapStart heapSize) [⟨heapStart, heapSize⟩] [] := by
  have hlarge : 64 ≤ heapSize := by rwa [kmemMinFreeBlockSize_eq] at hsize
  refine ⟨holds_initial memory (by omega) (by omega), ?_, by simp [Coalesced], rfl, hend⟩
  refine ⟨by simp, ?_, ?_, by simp, by simp, by simp, by simp⟩
  · intro other hother
    obtain rfl := List.mem_singleton.mp hother
    exact ⟨Nat.le_refl _, Nat.le_refl _⟩
  · intro other hother
    obtain rfl := List.mem_singleton.mp hother
    exact hsize

/-- What an event does to the blocks of a heap. -/
inductive BlockStep (free live : List Block) : Event → List Block → List Block → Prop where
  | failed {request : Nat}
      (hnone : takeFirstFit kmemMinFreeBlockSize (needOf request) free = none) :
      BlockStep free live (.alloc request) free live
  | taken {request : Nat} {taken : Block} {rest : List Block}
      (htake : takeFirstFit kmemMinFreeBlockSize (needOf request) free = some (taken, rest)) :
      BlockStep free live (.alloc request) rest (taken :: live)
  | released {block : Block} {before behind : List Block}
      (hlive : live = before ++ block :: behind) :
      BlockStep free live (.free (block.addr + usedBlockBytes)) (release block free)
        (before ++ behind)
  | written {address : Nat} {value : UInt8} : BlockStep free live (.write address value) free live

/-- An allocation comes to an end and refines first fit on the free blocks: it returns null when no
block is large enough, and otherwise the payload of the bytes that first fit takes. -/
theorem Represents.alloc_refines (h : Represents session free live) (request : Nat) :
    (takeFirstFit kmemMinFreeBlockSize (needOf request) free = none ∧
      kmemAlloc session.heap request = some (session.heap, 0)) ∨
    ∃ taken rest after,
      takeFirstFit kmemMinFreeBlockSize (needOf request) free = some (taken, rest) ∧
      kmemAlloc session.heap request = some (after, taken.addr + usedBlockBytes) ∧
      after.start = session.heap.start ∧ after.size = session.heap.size ∧
      Represents ⟨after, (taken.addr + usedBlockBytes) :: session.live⟩ rest (taken :: live) := by
  rcases first_fit_cases (needOf request) free with hsmall | ⟨front, block, back, rfl, hfront, hfit⟩
  · exact Or.inl ⟨takeFirstFit_eq_none.mpr hsmall, kmem_alloc_none h.holds h.fits.length_le hsmall⟩
  · obtain ⟨after, halloc, hstart, hsize, hholds⟩ :=
      kmem_alloc_some h.holds h.fits h.bounded hfront hfit
    have hleast := kmemMinFreeBlockSize_eq.trans_le (le_needOf request)
    refine Or.inr ⟨⟨block.addr, needOf request⟩, _, after, takeFirstFit_append hfront hfit, halloc,
      hstart, hsize, hholds, ?_, h.coalesced.take hfit, ?_, ?_⟩
    · show Fits after.start (after.start + after.size) _ _
      rw [hstart, hsize]
      exact h.fits.take hleast hfit
    · rw [h.pointers, List.map_cons]
    · show after.start + after.size < 2 ^ 64
      rw [hstart, hsize]
      exact h.bounded

/-- An allocation comes to an end and does to the blocks what it should. -/
theorem Represents.alloc_step (h : Represents session free live) (request : Nat) :
    ∃ after ptr free' live', kmemAlloc session.heap request = some (after, ptr) ∧
      BlockStep free live (.alloc request) free' live' ∧
      after.start = session.heap.start ∧ after.size = session.heap.size ∧
      Represents ⟨after, if ptr = 0 then session.live else ptr :: session.live⟩ free' live' := by
  rcases h.alloc_refines request with
    ⟨hnone, halloc⟩ | ⟨taken, rest, after, htake, halloc, hstart, hsize, hafter⟩
  · exact ⟨session.heap, 0, free, live, halloc, .failed hnone, rfl, rfl, by simpa using h⟩
  · have hptr : taken.addr + usedBlockBytes ≠ 0 := by simp [usedBlockBytes]
    refine ⟨after, _, rest, taken :: live, halloc, .taken htake, hstart, hsize, ?_⟩
    rwa [if_neg hptr]

/-- Freeing the pointer of a live block comes to an end and releases the block. -/
theorem Represents.free_refines {before behind : List Block}
    (h : Represents session free (before ++ block :: behind)) :
    ∃ after, kmemFree session.heap (block.addr + usedBlockBytes) = some after ∧
      after.start = session.heap.start ∧ after.size = session.heap.size ∧
      Represents ⟨after, session.live.erase (block.addr + usedBlockBytes)⟩ (release block free)
        (before ++ behind) := by
  have hblock : block ∈ before ++ block :: behind := by simp
  obtain ⟨head, memory, hfree, hholds⟩ := kmem_free_spec h.holds h.fits h.coalesced h.bounded
  obtain ⟨hfits, hcoalesced⟩ :=
    h.fits.release (by rw [kmemMinFreeBlockSize_eq]; decide) h.coalesced
  refine ⟨_, hfree, rfl, rfl, hholds, hfits, hcoalesced, ?_, h.bounded⟩
  -- the pointers are distinct, so exactly this one is erased
  have hfresh : block.addr + usedBlockBytes ∉
      before.map fun block => block.addr + usedBlockBytes := by
    intro hmem
    obtain ⟨other, hother, heq⟩ := List.mem_map.mp hmem
    have hdisjoint := (List.pairwise_append.mp h.fits.live_disjoint).2.2 other hother block (by simp)
    have hlarge := h.fits.live_size (List.mem_append_left _ hother)
    have hsize := h.fits.live_size hblock
    simp only [Block.Disjoint, Block.fin] at hdisjoint
    omega
  simp only [h.pointers, List.map_append, List.map_cons]
  rw [List.erase_append_right _ hfresh, List.erase_cons_head]

/-- Freeing a live pointer comes to an end and does to the blocks what it should. -/
theorem Represents.free_step {ptr : Nat} (h : Represents session free live)
    (hptr : ptr ∈ session.live) :
    ∃ after free' live', kmemFree session.heap ptr = some after ∧
      BlockStep free live (.free ptr) free' live' ∧
      after.start = session.heap.start ∧ after.size = session.heap.size ∧
      Represents ⟨after, session.live.erase ptr⟩ free' live' := by
  rw [h.pointers, List.mem_map] at hptr
  obtain ⟨block, hblock, rfl⟩ := hptr
  obtain ⟨before, behind, rfl⟩ := List.append_of_mem hblock
  obtain ⟨after, hfree, hstart, hsize, hafter⟩ := h.free_refines
  exact ⟨after, _, _, hfree, .released rfl, hstart, hsize, hafter⟩

/-- A client that writes inside a payload cannot reach a header. -/
theorem Represents.write_step {address : Nat} (h : Represents session free live)
    (hpayload : InPayload session address) (value : UInt8) :
    Represents { session with heap :=
      { session.heap with memory := session.heap.memory.setByte address value } } free live := by
  obtain ⟨ptr, hptr, hlow, hhigh⟩ := hpayload
  rw [h.pointers, List.mem_map] at hptr
  obtain ⟨block, hblock, rfl⟩ := hptr
  have hused := (h.holds.live_header block hblock).2
  rw [Nat.add_sub_cancel, hused] at hhigh
  simp only [usedBlockBytes] at hlow
  refine ⟨h.holds.congr ?_ ?_, h.fits, h.coalesced, h.pointers, h.bounded⟩
  · intro other hother a hfrom hto
    apply Mem.setByte_byte_ne
    have hdisjoint := h.fits.live_free block hblock other hother
    have := h.fits.free_size hother
    simp only [Block.Disjoint, Block.fin] at hdisjoint
    omega
  · intro other hother a hfrom hto
    apply Mem.setByte_byte_ne
    by_cases heq : block = other
    · subst heq
      omega
    · have : Std.Symm Block.Disjoint := ⟨fun _ _ => Block.Disjoint.symm⟩
      have hdisjoint := h.fits.live_disjoint.forall hblock hother heq
      have := h.fits.live_size hother
      simp only [Block.Disjoint, Block.fin] at hdisjoint
      omega

/-- Every event does to the blocks what it should, and keeps the representation. -/
theorem Represents.step {event : Event} (h : Represents session free live)
    (hstep : session.step event = some next) :
    ∃ free' live', BlockStep free live event free' live' ∧
      next.heap.start = session.heap.start ∧ next.heap.size = session.heap.size ∧
      Represents next free' live' := by
  cases event with
  | alloc request =>
    obtain ⟨after, ptr, free', live', halloc, hblocks, hstart, hsize, hnext⟩ :=
      h.alloc_step request
    simp only [Session.step, halloc, Option.map_some, Option.ite_none_right_eq_some,
      Option.some.injEq] at hstep
    obtain ⟨_, rfl⟩ := hstep
    exact ⟨free', live', hblocks, hstart, hsize, hnext⟩
  | free ptr =>
    simp only [Session.step, Option.ite_none_right_eq_some] at hstep
    obtain ⟨hptr, hstep⟩ := hstep
    obtain ⟨after, free', live', hfree, hblocks, hstart, hsize, hnext⟩ := h.free_step hptr
    rw [hfree, Option.map_some, Option.some.injEq] at hstep
    subst hstep
    exact ⟨free', live', hblocks, hstart, hsize, hnext⟩
  | write address value =>
    simp only [Session.step, Option.ite_none_right_eq_some, Option.some.injEq] at hstep
    obtain ⟨hpayload, rfl⟩ := hstep
    exact ⟨free, live, .written, rfl, rfl, h.write_step hpayload value⟩

/-- Every state that an initialised heap reaches is represented by blocks. -/
theorem represents_of_reachable {memory : Mem}
    (hsize : kmemMinFreeBlockSize ≤ heapSize) (hend : heapStart + heapSize < 2 ^ 64)
    (hreach : Reachable Session.step (Session.initial memory heapStart heapSize) session) :
    ∃ free live, Represents session free live := by
  refine hreach.invariant (fun session => ∃ free live, Represents session free live)
    ⟨_, _, represents_initial memory hsize hend⟩ ?_
  rintro state event next ⟨free, live, h⟩ hstep
  obtain ⟨free', live', _, _, _, hnext⟩ := h.step hstep
  exact ⟨free', live', hnext⟩

/-! ## The invariant as the memory shows it -/

/-- The block of a live pointer: the address of its header and the size that the header records. -/
def liveBlock (memory : Mem) (ptr : Nat) : Block :=
  ⟨ptr - usedBlockBytes, usedSize memory (ptr - usedBlockBytes)⟩

/-- The representation invariant of a heap with these free and live blocks. -/
structure HeapInvariant (heap : Heap) (free live : List Block) : Prop where
  /-- The free list is null or a circular doubly linked list. -/
  list : Queue heap.memory heap.freeList (nodesOf free)
  /-- The links of its nodes are mutually inverse. -/
  inverse : ∀ block ∈ free,
    prev heap.memory (LinkStore.next heap.memory (listNode block.addr)) = listNode block.addr ∧
    LinkStore.next heap.memory (prev heap.memory (listNode block.addr)) = listNode block.addr
  /-- The free blocks are the ones that the headers describe. -/
  sizes : ∀ block ∈ free, freeSize heap.memory block.addr = block.size
  /-- The head is the lowest free block. -/
  lowest : ∀ block ∈ free, heap.freeList ≤ listNode block.addr
  /-- The forward traversal goes up in address. -/
  increasing : free.Pairwise fun first second => first.addr < second.addr
  /-- Free blocks lie inside the heap. -/
  inside : ∀ block ∈ free, heap.start ≤ block.addr ∧ block.fin ≤ heap.start + heap.size
  /-- Free blocks are not too small. -/
  large : ∀ block ∈ free, kmemMinFreeBlockSize ≤ block.size
  /-- No two free blocks overlap or touch. -/
  coalesced : free.Pairwise fun first second => first.fin < second.addr
  /-- Live blocks are pairwise disjoint. -/
  live_disjoint : live.Pairwise Block.Disjoint
  /-- Live blocks are disjoint from free blocks. -/
  live_free : ∀ block ∈ live, ∀ other ∈ free, block.Disjoint other

theorem Represents.live_eq (h : Represents session free live) :
    session.live.map (liveBlock session.heap.memory) = live := by
  rw [h.pointers, List.map_map]
  refine (List.map_congr_left ?_).trans (List.map_id live)
  intro block hblock
  have hused := (h.holds.live_header block hblock).2
  simp only [Function.comp_apply, liveBlock, Nat.add_sub_cancel, hused, id]

theorem Represents.invariant (h : Represents session free live) :
    HeapInvariant session.heap free (session.live.map (liveBlock session.heap.memory)) := by
  rw [h.live_eq]
  have hincreasing : free.Pairwise fun first second => first.addr < second.addr := by
    refine h.coalesced.imp ?_
    intro first second horder
    simp only [Block.fin] at horder
    omega
  refine ⟨h.holds.list, ?_, fun block hblock => (h.holds.free_header block hblock).2, ?_,
    hincreasing, h.fits.free_inside, h.fits.free_large, h.coalesced, h.fits.live_disjoint,
    h.fits.live_free⟩
  · intro block hblock
    have hnode : listNode block.addr ∈ nodesOf free := mem_nodesOf.mpr ⟨block, hblock, rfl⟩
    exact ⟨(h.holds.list.ring.prev_next hnode).2, (h.holds.list.ring.next_prev hnode).2⟩
  · intro block hblock
    rw [h.holds.list.head_eq]
    cases free with
    | nil => simp at hblock
    | cons first rest =>
      show listNode first.addr ≤ listNode block.addr
      rcases List.mem_cons.mp hblock with rfl | hblock
      · exact Nat.le_refl _
      · have := (List.pairwise_cons.mp hincreasing).1 block hblock
        simp only [listNode]
        omega

/-- In every state that an initialised heap reaches, the free list and the live blocks satisfy the
representation invariant, and every allocation and every release of a live pointer returns. The
heap is an object of the 64-bit address space, so that the address behind it does not wrap. -/
theorem kmem_heap_invariant (memory : Mem) (heapStart heapSize : Nat)
    (hsize : kmemMinFreeBlockSize ≤ heapSize) (hend : heapStart + heapSize < 2 ^ 64)
    {session : Session}
    (hreach : Reachable Session.step (Session.initial memory heapStart heapSize) session) :
    (∃ free, HeapInvariant session.heap free
      (session.live.map (liveBlock session.heap.memory))) ∧
    (∀ request, (kmemAlloc session.heap request).isSome) ∧
    ∀ ptr ∈ session.live, (kmemFree session.heap ptr).isSome := by
  obtain ⟨free, live, h⟩ := represents_of_reachable hsize hend hreach
  refine ⟨⟨free, h.invariant⟩, ?_, ?_⟩
  · intro request
    obtain ⟨after, ptr, _, _, halloc, _⟩ := h.alloc_step request
    rw [halloc]
    rfl
  · intro ptr hptr
    obtain ⟨after, _, _, hfree, _⟩ := h.free_step hptr
    rw [hfree]
    rfl

/-- The invariant after two allocations and a release in a heap of 512 bytes. -/
theorem kmem_heap_invariant_allocated : ∃ session,
    run Session.step (Session.initial ⟨fun _ => 0⟩ 4096 512)
      [.alloc 8, .alloc 100, .free 4112] = some session ∧
    ∃ free, HeapInvariant session.heap free
      (session.live.map (liveBlock session.heap.memory)) := by
  refine exists_of_isSome (by decide +kernel) ?_
  intro session hrun
  exact (kmem_heap_invariant ⟨fun _ => 0⟩ 4096 512 (by decide) (by decide) ⟨_, hrun⟩).1

end Otrix.Kmem
