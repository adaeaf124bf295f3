import Otrix.Kernel.Kmem.Accounting

/-!
# What an allocation returns

`kmem_alloc` takes the lowest free block that is large enough for the request and a
header, or fails and changes nothing (`kmem_alloc_first_fit`). The sum of the request
and the header is a 64-bit one. For the sixteen largest requests it wraps to a small
number, and the allocation succeeds with a block that is too small
(`kmem_alloc_range_iff`).
-/

namespace Otrix.Kmem

open Blocks Bytes Linked Machine

variable {session : Session} {free live : List Block} {request : Nat}

theorem needOf_eq (hwrap : request + usedBlockBytes < 2 ^ 64) :
    needOf request = max (request + usedBlockBytes) kmemMinFreeBlockSize := by
  rw [needOf, u64, Nat.mod_eq_of_lt hwrap, kmemAllocationSize]

/-- An allocation in a heap that is too small for a block. -/
theorem kmem_alloc_of_small (memory : Mem) {heapStart heapSize : Nat}
    (hsize : freeBlockBytes ≤ heapSize) (hend : heapStart + heapSize < 2 ^ 64)
    (hsmall : heapSize < kmemMinFreeBlockSize) (request : Nat) :
    heapSize < needOf request ∧ kmemAlloc (kmemInit memory heapStart heapSize) request =
      some (kmemInit memory heapStart heapSize, 0) := by
  unfold freeBlockBytes at hsize
  rw [kmemMinFreeBlockSize_eq] at hsmall
  have hneed : heapSize < needOf request := Nat.lt_of_lt_of_le hsmall (le_needOf request)
  have hholds := holds_initial memory (by omega : heapSize < 2 ^ 64)
    (by omega : heapStart + 8 < 2 ^ 64)
  refine ⟨hneed, kmem_alloc_none hholds (show 1 ≤ heapSize by omega) ?_⟩
  intro block hmem
  obtain rfl := List.mem_singleton.mp hmem
  exact hneed

/-! ## First fit -/

/-- In every state that an initialised heap reaches, an allocation comes to an end. It returns null
exactly when every free block is smaller than what is needed, and then nothing has changed. Otherwise
it takes the lowest of the blocks that are large enough. The first header of the heap fits into it. -/
theorem kmem_alloc_first_fit (memory : Mem) (heapStart heapSize : Nat)
    (hsize : freeBlockBytes ≤ heapSize) (hend : heapStart + heapSize < 2 ^ 64)
    {session : Session}
    (hreach : Reachable Session.step (Session.initial memory heapStart heapSize) session)
    {request need : Nat} (hneed : need = max (request + usedBlockBytes) kmemMinFreeBlockSize)
    (hwrap : request + usedBlockBytes < 2 ^ 64) :
    ∃ free after ptr, freeBlocks session.heap = some free ∧
      kmemAlloc session.heap request = some (after, ptr) ∧
      (ptr = 0 ↔ ∀ block ∈ free, block.size < need) ∧
      (ptr = 0 → after = session.heap) ∧
      (ptr ≠ 0 → ∃ front block back, free = front ++ block :: back ∧ need ≤ block.size ∧
        (∀ other ∈ free, need ≤ other.size → block.addr ≤ other.addr) ∧
        ptr = block.addr + usedBlockBytes ∧
        blockMagic after.memory block.addr = kmemBlockMagic ∧
        usedSize after.memory block.addr = need ∧
        after.start = session.heap.start ∧ after.size = session.heap.size ∧
        freeBlocks after =
          some (front ++ (remainder kmemMinFreeBlockSize need block ++ back))) := by
  rw [← needOf_eq hwrap] at hneed
  subst hneed
  rcases reachable_cases hsize hend hreach with ⟨free, live, h⟩ | ⟨rfl, hsmall⟩
  · rcases h.alloc_refines request with
      ⟨hnone, halloc⟩ | ⟨taken, rest, after, htake, halloc, hstart, hsame, hafter⟩
    · refine ⟨free, session.heap, 0, h.free_blocks, halloc, ?_, fun _ => rfl, fun h => absurd rfl h⟩
      exact iff_of_true rfl (takeFirstFit_eq_none.mp hnone)
    · obtain ⟨front, block, back, rfl, hfront, hfit, rfl, rfl⟩ := takeFirstFit_eq_some htake
      have hptr : block.addr + usedBlockBytes ≠ 0 := by simp [usedBlockBytes]
      obtain ⟨hmagic, hused⟩ := hafter.holds.live_header ⟨block.addr, needOf request⟩ (by simp)
      refine ⟨_, after, _, h.free_blocks, halloc, ?_, fun hzero => absurd hzero hptr, fun _ =>
        ⟨front, block, back, rfl, hfit, ?_, rfl, hmagic, hused, hstart, hsame, hafter.free_blocks⟩⟩
      · refine iff_of_false hptr fun hsmall => ?_
        have := hsmall block (by simp)
        omega
      · -- the blocks in front are too small, and those behind are higher
        intro other hother hlarge
        have hordered := h.invariant.increasing
        simp only [List.mem_append, List.mem_cons] at hother
        rcases hother with hother | rfl | hother
        · have := hfront other hother
          omega
        · exact Nat.le_refl _
        · have hbehind := (List.pairwise_append.mp hordered).2.1
          exact Nat.le_of_lt ((List.pairwise_cons.mp hbehind).1 other hother)
  · obtain ⟨hneed, halloc⟩ := kmem_alloc_of_small memory hsize hend hsmall request
    refine ⟨_, _, 0, initial_free_blocks memory hsize hend, halloc, ?_, fun _ => rfl,
      fun h => absurd rfl h⟩
    simpa using hneed

/-- A request for 100 bytes in a heap of 512 bytes with two free blocks passes over the first one, which
has 64 bytes. -/
theorem kmem_alloc_first_fit_second : ∃ session free after ptr,
    run Session.step (Session.initial ⟨fun _ => 0⟩ 4096 512)
      [.alloc 8, .alloc 8, .free 4112] = some session ∧
    freeBlocks session.heap = some free ∧ kmemAlloc session.heap 100 = some (after, ptr) ∧
    (ptr = 0 ↔ ∀ block ∈ free, block.size < 116) := by
  obtain ⟨session, hrun⟩ : ∃ session, run Session.step
      (Session.initial ⟨fun _ => 0⟩ 4096 512) [.alloc 8, .alloc 8, .free 4112] = some session :=
    Option.isSome_iff_exists.mp (by decide +kernel)
  obtain ⟨free, after, ptr, hfree, halloc, hnull, _⟩ := kmem_alloc_first_fit ⟨fun _ => 0⟩ 4096 512
    (by decide) (by decide) ⟨_, hrun⟩ (by decide : 116 = max (100 + usedBlockBytes) _) (by decide)
  exact ⟨session, free, after, ptr, hrun, hfree, halloc, hnull⟩

/-! ## The range that is returned -/

/-- The payload of a live pointer. -/
def livePayload (memory : Mem) (ptr : Nat) : Block :=
  ⟨ptr, usedSize memory (ptr - usedBlockBytes) - usedBlockBytes⟩

/-- The range lies inside the heap, and is disjoint from every free block and from the payloads of these
pointers. -/
def OwnRange (heap : Heap) (others : List Nat) (range : Block) : Prop :=
  heap.start ≤ range.addr ∧ range.fin ≤ heap.start + heap.size ∧
    (∃ free, freeBlocks heap = some free ∧ ∀ block ∈ free, range.Disjoint block) ∧
    ∀ ptr ∈ others, range.Disjoint (livePayload heap.memory ptr)

theorem Represents.live_payload (h : Represents session free live) {block : Block}
    (hblock : block ∈ live) :
    livePayload session.heap.memory (block.addr + usedBlockBytes) =
      ⟨block.addr + usedBlockBytes, block.size - usedBlockBytes⟩ := by
  rw [livePayload, Nat.add_sub_cancel, (h.holds.live_header block hblock).2]

/-- What is granted to a request that does not wrap lies inside the heap. -/
theorem Represents.alloc_inside (h : Represents session free live) {request : Nat}
    (hwrap : request + usedBlockBytes < 2 ^ 64) {after : Heap} {ptr : Nat}
    (halloc : kmemAlloc session.heap request = some (after, ptr)) (hptr : ptr ≠ 0) :
    ptr + request ≤ session.heap.start + session.heap.size := by
  rcases h.alloc_refines request with
    ⟨_, hfailed⟩ | ⟨taken, rest, result, htake, hdone, hstart, hsame, hafter⟩
  · cases halloc.symm.trans hfailed
    exact absurd rfl hptr
  · cases halloc.symm.trans hdone
    obtain ⟨front, block, back, rfl, _, hfit, rfl, rfl⟩ := takeFirstFit_eq_some htake
    have hhigh : block.addr + needOf request ≤ session.heap.start + session.heap.size := by
      rw [← hstart, ← hsame]
      exact (hafter.fits.live_inside ⟨block.addr, needOf request⟩ (by simp)).2
    have hlarge : request + usedBlockBytes ≤ needOf request := by
      rw [needOf_eq hwrap]
      exact Nat.le_max_left _ _
    show block.addr + usedBlockBytes + request ≤ _
    omega

/-- In every state that an initialised heap reaches, what an allocation returns is as large as the
request exactly when the request and the header of a block together do not wrap. -/
theorem kmem_alloc_range_iff (memory : Mem) (heapStart heapSize : Nat)
    (hsize : freeBlockBytes ≤ heapSize) (hend : heapStart + heapSize < 2 ^ 64)
    {session : Session}
    (hreach : Reachable Session.step (Session.initial memory heapStart heapSize) session)
    {request : Nat} (hrequest : request < 2 ^ 64) {after : Heap} {ptr : Nat}
    (halloc : kmemAlloc session.heap request = some (after, ptr)) (hptr : ptr ≠ 0) :
    OwnRange after session.live ⟨ptr, request⟩ ↔ request + usedBlockBytes < 2 ^ 64 := by
  rcases reachable_cases hsize hend hreach with ⟨free, live, h⟩ | ⟨rfl, hsmall⟩
  · rcases h.alloc_refines request with
      ⟨_, hfailed⟩ | ⟨taken, rest, result, htake, hdone, hstart, hsame, hafter⟩
    · cases halloc.symm.trans hfailed
      exact absurd rfl hptr
    · cases halloc.symm.trans hdone
      obtain ⟨front, block, back, rfl, _, hfit, rfl, rfl⟩ := takeFirstFit_eq_some htake
      have hbound := hafter.bounded
      constructor
      · rintro ⟨_, hinside, _⟩
        simp only [Block.fin, usedBlockBytes] at hinside hbound ⊢
        omega
      · intro hwrap
        have hlarge : request + usedBlockBytes ≤ needOf request := by
          rw [needOf_eq hwrap]
          exact Nat.le_max_left _ _
        obtain ⟨hlow, hhigh⟩ := hafter.fits.live_inside ⟨block.addr, needOf request⟩ (by simp)
        simp only [Block.fin] at hlow hhigh
        refine ⟨Nat.le_trans hlow (Nat.le_add_right _ _), ?_, ⟨_, hafter.free_blocks, ?_⟩, ?_⟩
        · show block.addr + usedBlockBytes + request ≤ after.start + after.size
          omega
        · intro other hother
          have hdisjoint := hafter.fits.live_free ⟨block.addr, needOf request⟩ (by simp) other hother
          simp only [Block.Disjoint, Block.fin] at hdisjoint ⊢
          omega
        · intro other hother
          rw [h.pointers] at hother
          obtain ⟨owner, howner, rfl⟩ := List.mem_map.mp hother
          have hdisjoint := (List.pairwise_cons.mp hafter.fits.live_disjoint).1 owner howner
          have hpayload : livePayload after.memory (owner.addr + usedBlockBytes) =
              ⟨owner.addr + usedBlockBytes, owner.size - usedBlockBytes⟩ :=
            hafter.live_payload (List.mem_cons_of_mem _ howner)
          have hheader := hafter.fits.live_size (List.mem_cons_of_mem _ howner)
          rw [hpayload]
          simp only [Block.Disjoint, Block.fin, usedBlockBytes] at hdisjoint hlarge ⊢
          omega
  · obtain ⟨_, hfailed⟩ := kmem_alloc_of_small memory hsize hend hsmall request
    cases halloc.symm.trans hfailed
    exact absurd rfl hptr

/-- The range of a request for 100 bytes. -/
theorem kmem_alloc_range_hundred : ∃ after,
    kmemAlloc (Session.initial ⟨fun _ => 0⟩ 4096 1024).heap 100 = some (after, 4112) ∧
    OwnRange after [] ⟨4112, 100⟩ := by
  have hresult : (kmemAlloc (Session.initial ⟨fun _ => 0⟩ 4096 1024).heap 100).map Prod.snd =
      some 4112 := by
    decide +kernel
  obtain ⟨⟨after, ptr⟩, halloc, rfl⟩ := Option.map_eq_some_iff.mp hresult
  exact ⟨after, halloc, (kmem_alloc_range_iff ⟨fun _ => 0⟩ 4096 1024 (by decide) (by decide)
    ⟨[], rfl⟩ (by decide) halloc (by decide)).mpr (by decide)⟩

/-- The largest `size_t` is granted in a heap of 1024 bytes. The block has 64 bytes, and the next
request is granted the bytes behind them, which the first range reaches into. -/
theorem largest_request_overlaps : ∃ session,
    run Session.step (Session.initial ⟨fun _ => 0⟩ 4096 1024)
      [.alloc (2 ^ 64 - 1), .alloc 8] = some session ∧
    session.live = [4176, 4112] ∧
    ¬ (⟨4112, 2 ^ 64 - 1⟩ : Block).fin ≤ 4096 + 1024 ∧
    ¬ (⟨4112, 2 ^ 64 - 1⟩ : Block).Disjoint (livePayload session.heap.memory 4176) := by
  refine exists_of_any (fun session => session.live = [4176, 4112] ∧
      livePayload session.heap.memory 4176 = ⟨4176, 48⟩) (by decide +kernel) ?_
  rintro session hrun ⟨hlive, hpayload⟩
  refine ⟨hlive, by decide, ?_⟩
  rw [hpayload]
  simp [Block.Disjoint, Block.fin]

end Otrix.Kmem
