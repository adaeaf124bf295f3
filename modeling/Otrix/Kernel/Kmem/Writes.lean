import Otrix.Kernel.Kmem.Accounting
import Otrix.Foundation.WriteLog

/-!
# The bytes that the allocator writes

`kmemAlloc` and `kmemFree` on a memory that records every store. Without the record they
do what they do on a plain memory. Every store lies in
the header of a block: one of the free list, the remainder of the block that is taken,
or the block that is freed. All of these are inside the heap and apart from the other
live blocks (`kmem_writes_confined`).
-/

namespace Otrix.Kmem

open Linked Bytes Blocks

variable {base : Mem}

/-- The heap without the record of its stores. -/
def HeapOf.plain (heap : HeapOf (WriteLog base)) : Heap :=
  { heap with memory := heap.memory.memory }

/-- A heap from which on the stores are recorded. -/
def HeapOf.logged (heap : Heap) : HeapOf (WriteLog heap.memory) :=
  { heap with memory := ⟨[]⟩ }

namespace Logged

/-! ## Without the record -/

section

variable (log : WriteLog base) (heap : HeapOf (WriteLog base))

theorem next_memory (node : Nat) : next log node = next log.memory node := rfl

theorem prev_memory (node : Nat) : prev log node = prev log.memory node := rfl

theorem memory_setNext (node value : Nat) :
    (setNext log node value).memory = setNext log.memory node value := rfl

theorem memory_setPrev (node value : Nat) :
    (setPrev log node value).memory = setPrev log.memory node value := rfl

theorem memory_unlink (node : Nat) :
    (intrusiveListUnlinkNode log node).memory = intrusiveListUnlinkNode log.memory node :=
  apply_ite WriteLog.memory _ _ _

theorem memory_insert (before node : Nat) :
    (intrusiveListInsert log before node).memory = intrusiveListInsert log.memory before node := by
  simp only [intrusiveListInsert, memory_setNext, memory_setPrev]
  rw [apply_ite (@WriteLog.memory base)]
  rfl

theorem memory_delete (head node : Nat) :
    ((intrusiveListDelete log head node).1.memory, (intrusiveListDelete log head node).2) =
      intrusiveListDelete log.memory head node := by
  unfold intrusiveListDelete
  by_cases hhead : node = head
  · by_cases hself : node = next log.memory node
    · rw [if_pos hhead, if_pos hhead, if_pos hself, next_memory, if_pos hself]
      rfl
    · rw [if_pos hhead, if_pos hhead, if_neg hself, next_memory, if_neg hself, memory_unlink]
  · rw [if_neg hhead, if_neg hhead, memory_unlink]

theorem free_size_memory (block : Nat) : freeSize log block = freeSize log.memory block := rfl

theorem carve_heap (pFree size : Nat) :
    (carve heap pFree size).plain = carve heap.plain pFree size := by
  have hdelete := memory_delete heap.memory heap.freeList pFree
  unfold carve HeapOf.plain
  by_cases hdrop : freeSize heap.memory (kmemFreeBlockPtr pFree) - size < kmemMinFreeBlockSize
  · have hplain := hdrop
    rw [free_size_memory] at hplain
    simp only [if_pos hdrop, if_pos hplain, ite_self, ← hdelete]
  · have hplain := hdrop
    rw [free_size_memory] at hplain
    simp only [if_neg hdrop, if_neg hplain]
    by_cases hhead : pFree = heap.freeList
    · simp only [if_pos hhead]
      rw [apply_ite (@WriteLog.memory base), memory_insert, memory_unlink]
      rfl
    · simp only [if_neg hhead]
      rw [memory_insert, memory_unlink]
      rfl

theorem find_fit_memory (head size fuel pFree : Nat) :
    findFit log head size fuel pFree = findFit log.memory head size fuel pFree := by
  induction fuel generalizing pFree with
  | zero => rfl
  | succ fuel ih => simp only [findFit, free_size_memory, next_memory, ih]

theorem find_before_memory (head ptr fuel pHead pPrev : Nat) :
    findBefore log head ptr fuel pHead pPrev = findBefore log.memory head ptr fuel pHead pPrev := by
  induction fuel generalizing pHead pPrev with
  | zero => rfl
  | succ fuel ih => simp only [findBefore, next_memory, ih]

theorem kmem_alloc_heap (size : Nat) :
    (kmemAlloc heap size).map (fun result => (result.1.plain, result.2)) =
      kmemAlloc heap.plain size := by
  unfold kmemAlloc
  by_cases hnull : heap.freeList = 0
  · rw [if_pos hnull, if_pos (show heap.plain.freeList = 0 from hnull)]
    rfl
  · rw [if_neg hnull, if_neg (show heap.plain.freeList ≠ 0 from hnull), find_fit_memory]
    show _ = (findFit heap.memory.memory heap.freeList _ heap.size heap.freeList).bind _
    cases findFit heap.memory.memory heap.freeList (kmemAllocationSize (u64 (size + usedBlockBytes)))
      heap.size heap.freeList with
    | none => rfl
    | some pFree =>
      simp only [Option.bind_eq_bind, Option.bind_some, ← carve_heap]
      exact apply_ite (Option.map _) _ _ _

theorem insert_free_heap (ptr block : Nat) :
    (insertFree heap ptr block).map HeapOf.plain = insertFree heap.plain ptr block := by
  unfold insertFree
  by_cases hnull : heap.freeList = 0
  · rw [if_neg (not_not.mpr hnull), if_neg (not_not.mpr (show heap.plain.freeList = 0 from hnull))]
    rfl
  · rw [if_pos hnull, if_pos (show heap.plain.freeList ≠ 0 from hnull), find_before_memory]
    show _ = (findBefore heap.memory.memory heap.freeList ptr heap.size heap.freeList 0).bind _
    cases findBefore heap.memory.memory heap.freeList ptr heap.size heap.freeList 0 with
    | none => rfl
    | some pPrev =>
      simp only [Option.bind_eq_bind, Option.bind_some]
      rw [apply_ite (Option.map _), Option.map_some, Option.map_some]
      simp only [HeapOf.plain, memory_insert]
      rfl

theorem merge_previous_memory (block blockSize : Nat) :
    ((mergePrevious log block blockSize).1.memory, (mergePrevious log block blockSize).2) =
      mergePrevious log.memory block blockSize := by
  unfold mergePrevious
  refine (apply_ite (fun result : WriteLog base × Nat => (result.1.memory, result.2)) _ _ _).trans ?_
  dsimp only
  rw [memory_unlink]
  rfl

theorem merge_next_memory (block : Nat) :
    (mergeNext log block).memory = mergeNext log.memory block := by
  unfold mergeNext
  refine (apply_ite WriteLog.memory _ _ _).trans ?_
  rw [memory_unlink]
  rfl

/-- The log does not change what `kmem_free` does. -/
theorem kmem_free_heap (ptr : Nat) :
    (kmemFree heap ptr).map HeapOf.plain = kmemFree heap.plain ptr := by
  unfold kmemFree
  by_cases hnull : ptr = 0
  · rw [if_pos hnull, if_pos hnull]
    rfl
  · rw [if_neg hnull, if_neg hnull]
    generalize sub64 ptr usedBlockBytes = block
    dsimp only
    by_cases hrange : block < heap.start ∨ block > u64 (heap.start + heap.size)
    · rw [if_pos hrange]
      exact (if_pos hrange).symm
    · rw [if_neg hrange]
      refine Eq.trans ?_ (if_neg hrange).symm
      by_cases hmagic : blockMagic heap.memory block ≠ kmemBlockMagic
      · rw [if_pos hmagic]
        exact (if_pos hmagic).symm
      · rw [if_neg hmagic]
        refine Eq.trans ?_ (if_neg hmagic).symm
        let log := setFreeSize (intrusiveListInit heap.memory (listNode block)) block
          (usedSize heap.memory block)
        let written : HeapOf (WriteLog base) :=
          { heap with memory := setBlockMagic log block kmemBlockMagic }
        have hinsert := insert_free_heap written ptr block
        show Option.map _ ((insertFree written ptr block).bind _) =
          (insertFree written.plain ptr block).bind _
        rw [← hinsert]
        cases insertFree written ptr block with
        | none => rfl
        | some linked =>
          have hmerge := merge_previous_memory linked.memory block (usedSize heap.plain.memory block)
          show some (HeapOf.plain ⟨linked.start, linked.size, linked.freeList, mergeNext _ _⟩) =
            some ⟨linked.start, linked.size, linked.freeList,
              mergeNext (mergePrevious linked.memory.memory _ _).1
                (mergePrevious linked.memory.memory _ _).2⟩
          rw [← hmerge, HeapOf.plain, merge_next_memory]
          rfl

end

/-! ## Headers -/

variable {heap : HeapOf (WriteLog base)} {log : WriteLog base} {head low high size : Nat}
  {free live front back owners : List Block} {block fresh : Block}

/-- The address lies in the header of one of the blocks. -/
def Headers (owners : List Block) (address : Nat) : Prop :=
  ∃ owner ∈ owners, owner.addr ≤ address ∧ address < owner.addr + freeBlockBytes

variable {nodes : List Nat}

theorem ring_of_memory (h : Ring log.memory nodes) : Ring log nodes :=
  ⟨h.chain, h.apart, h.storable, h.nonnull⟩

theorem within_field (howner : block ∈ owners) {address value : Nat} (hlow : block.addr ≤ address)
    (hhigh : address + 8 ≤ block.addr + freeBlockBytes) :
    (log.store address value 8).Within (Headers owners) = log.Within (Headers owners) :=
  WriteLog.within_store fun a hfrom hto => ⟨block, howner, by omega, by omega⟩

/-- The fields of either kind of header lie in the room of a free one. -/
theorem within_block_magic (howner : block ∈ owners) (value : Nat) :
    (setBlockMagic log block.addr value).Within (Headers owners) = log.Within (Headers owners) :=
  within_field howner (Nat.le_refl _) (by simp only [freeBlockBytes]; omega)

theorem within_free_size (howner : block ∈ owners) (value : Nat) :
    (setFreeSize log block.addr value).Within (Headers owners) = log.Within (Headers owners) :=
  within_field howner (Nat.le_add_right _ _) (by simp only [freeBlockBytes]; omega)

theorem within_used_size (howner : block ∈ owners) (value : Nat) :
    (setUsedSize log block.addr value).Within (Headers owners) = log.Within (Headers owners) :=
  within_field howner (Nat.le_add_right _ _) (by simp only [freeBlockBytes]; omega)

theorem unseen_within (howner : block ∈ owners) :
    Unseen (WriteLog.Within (Headers owners) : WriteLog base → Prop) (listNode block.addr) :=
  fun _ _ => ⟨within_field howner (by simp only [listNode]; omega)
      (by simp only [listNode, freeBlockBytes]; omega),
    within_field howner (by simp only [listNode]; omega)
      (by simp only [listNode, freeBlockBytes]; omega)⟩

theorem unseen_nodes (hstart : ∀ other ∈ free, ∃ owner ∈ owners, owner.addr = other.addr) :
    ∀ node ∈ nodesOf free,
      Unseen (WriteLog.Within (Headers owners) : WriteLog base → Prop) node := by
  intro node hnode
  obtain ⟨other, hother, rfl⟩ := mem_nodesOf.mp hnode
  obtain ⟨owner, howner, haddr⟩ := hstart other hother
  rw [← haddr]
  exact unseen_within howner

theorem within_unlink (h : Holds log.memory head free live)
    (hstart : ∀ other ∈ free, ∃ owner ∈ owners, owner.addr = other.addr) {node : Nat}
    (hnode : node ∈ nodesOf free) :
    (intrusiveListUnlinkNode log node).Within (Headers owners) = log.Within (Headers owners) :=
  intrusive_list_unlink_node_unseen (WriteLog.Within (Headers owners)) (ring_of_memory h.list.ring)
    hnode (unseen_nodes hstart)

theorem within_delete (h : Holds log.memory head free live) (hsub : free ⊆ owners)
    (hblock : block ∈ free) :
    (intrusiveListDelete log head (listNode block.addr)).1.Within (Headers owners) =
      log.Within (Headers owners) :=
  intrusive_list_delete_unseen (WriteLog.Within (Headers owners))
    (⟨ring_of_memory h.list.ring, h.list.head_eq⟩ : Queue log head (nodesOf free))
    (mem_nodesOf.mpr ⟨block, hblock, rfl⟩)
    (unseen_nodes fun other hother => ⟨other, hsub hother, rfl⟩)

/-- Putting a new block in the place of a free block. -/
theorem within_replace (h : Holds log.memory head (front ++ block :: back) live)
    (hfits : Fits low high (front ++ block :: back) live) (hne : back ++ front ≠ [])
    (hsub : front ++ block :: back ⊆ owners) (hfresh : fresh ∈ owners) :
    (intrusiveListInsert (intrusiveListUnlinkNode log (listNode block.addr))
        (prev log (listNode block.addr)) (listNode fresh.addr)).Within (Headers owners) =
      log.Within (Headers owners) := by
  have hring := (h.unlink hfits hne).1
  rw [← memory_unlink] at hring
  have hprev : prev log (listNode block.addr) ∈ nodesOf (back ++ front) :=
    h.ring_at.prev_mem_rest (by simpa [nodesOf] using hne)
  have hrest : ∀ other ∈ back ++ front, ∃ owner ∈ owners, owner.addr = other.addr := by
    intro other hother
    refine ⟨other, hsub ?_, rfl⟩
    simp only [List.mem_append, List.mem_cons] at hother ⊢
    tauto
  rw [intrusive_list_insert_unseen (WriteLog.Within (Headers owners)) (ring_of_memory hring) hprev
    (unseen_nodes hrest) (unseen_within hfresh)]
  exact within_unlink h (fun other hother => ⟨other, hsub hother, rfl⟩) (by simp)

theorem within_header (howner : block ∈ owners) (value : Nat) :
    (freedHeader log block.addr value).Within (Headers owners) = log.Within (Headers owners) := by
  rw [freedHeader, within_block_magic howner, within_free_size howner]
  exact intrusive_list_init_unseen (WriteLog.Within (Headers owners)) (unseen_within howner)

/-- The header of the remainder, in the order of the other branch of `carve`. -/
theorem within_header_order (howner : block ∈ owners) (value : Nat) :
    (intrusiveListInit (setBlockMagic (setFreeSize log block.addr value) block.addr kmemBlockMagic)
        (listNode block.addr)).Within (Headers owners) = log.Within (Headers owners) := by
  rw [intrusive_list_init_unseen (WriteLog.Within (Headers owners)) (unseen_within howner),
    within_block_magic howner, within_free_size howner]

section

variable (h : Holds heap.memory.memory heap.freeList (front ++ block :: back) live)
  (hfits : Fits low high (front ++ block :: back) live) (hsub : front ++ block :: back ⊆ owners)
  (howner : fresh ∈ owners) (haddr : u64 (block.addr + size) = fresh.addr)
  (hsize : block.size - size = fresh.size) (hkept : ¬ fresh.size < kmemMinFreeBlockSize)
  (hwritten : Holds (freedHeader heap.memory.memory fresh.addr fresh.size) heap.freeList
    (front ++ block :: back) live)
include h hfits hsub howner haddr hsize hkept hwritten

/-- Carving the first block of the free list, with a remainder. -/
theorem within_carve_first (hhead : listNode block.addr = heap.freeList) :
    (carve heap (listNode block.addr) size).memory.Within (Headers owners) =
      heap.memory.Within (Headers owners) := by
  have hheader : freeSize heap.memory block.addr = block.size :=
    (h.free_header block (by simp)).2
  let log := intrusiveListInit (setBlockMagic (setFreeSize heap.memory fresh.addr fresh.size)
    fresh.addr kmemBlockMagic) (listNode fresh.addr)
  have hlog : log.Within (Headers owners) = heap.memory.Within (Headers owners) :=
    within_header_order howner fresh.size
  have hholds : Holds log.memory heap.freeList (front ++ block :: back) live := by
    rw [← header_order] at hwritten
    exact hwritten
  have hresult : (carve heap (listNode block.addr) size).memory =
      if prev log (listNode block.addr) ≠ listNode block.addr then
        intrusiveListInsert (intrusiveListUnlinkNode log (listNode block.addr))
          (prev log (listNode block.addr)) (listNode fresh.addr)
      else log := by
    simp only [carve, block_of_list_node, hheader, if_pos hhead, haddr, hsize, if_neg hkept, log]
  rw [hresult, ← hlog]
  split
  · next hlinked =>
    refine within_replace hholds hfits (fun hnil => ?_) hsub howner
    obtain ⟨rfl, rfl⟩ := List.append_eq_nil_iff.mp hnil
    exact hlinked hholds.ring_at.link_self.2
  · rfl

/-- Carving a later block of the free list, with a remainder. -/
theorem within_carve_later (hhead : listNode block.addr ≠ heap.freeList)
    (hapart : block.addr + 32 ≤ fresh.addr) :
    (carve heap (listNode block.addr) size).memory.Within (Headers owners) =
      heap.memory.Within (Headers owners) := by
  have hheader : freeSize heap.memory block.addr = block.size :=
    (h.free_header block (by simp)).2
  have hfront : back ++ front ≠ [] := fun hnil =>
    hhead (h.head_iff.mpr (List.append_eq_nil_iff.mp hnil).2)
  have hread : freeSize (intrusiveListInit heap.memory (listNode fresh.addr)) block.addr =
      block.size := by
    rw [← hheader]
    show (Mem.store (Mem.store heap.memory.memory _ _ 8) _ _ 8).load (block.addr + 24) 8 = _
    simp only [listNode]
    rw [Mem.load_store_other (by omega), Mem.load_store_other (by omega)]
    rfl
  let log := freedHeader heap.memory fresh.addr fresh.size
  have hbefore : prev log (listNode block.addr) = prev heap.memory (listNode block.addr) :=
    freed_header_prev heap.memory.memory fresh.size (by omega)
  have hresult : (carve heap (listNode block.addr) size).memory =
      intrusiveListInsert (intrusiveListUnlinkNode log (listNode block.addr))
        (prev log (listNode block.addr)) (listNode fresh.addr) := by
    rw [hbefore]
    simp only [carve, block_of_list_node, hheader, if_neg hhead, haddr, hread, hsize, if_neg hkept,
      log, freedHeader]
  have hholds : Holds log.memory heap.freeList (front ++ block :: back) live := hwritten
  rw [hresult, within_replace hholds hfits hfront hsub howner]
  exact within_header howner fresh.size

end

/-- Carving writes headers of free blocks and of the remainder. -/
theorem within_carve (h : Holds heap.memory.memory heap.freeList (front ++ block :: back) live)
    (hfits : Fits low high (front ++ block :: back) live) (hhigh : high < 2 ^ 64)
    (hneed : 64 ≤ size) (hfit : size ≤ block.size) (hsub : front ++ block :: back ⊆ owners)
    (hfresh : remainder kmemMinFreeBlockSize size block ⊆ owners) :
    (carve heap (listNode block.addr) size).memory.Within (Headers owners) =
      heap.memory.Within (Headers owners) := by
  by_cases hdrop : block.size - size < kmemMinFreeBlockSize
  · have hheader : freeSize heap.memory block.addr = block.size :=
      (h.free_header block (by simp)).2
    simp only [carve, block_of_list_node, hheader, if_pos hdrop, ite_self]
    exact within_delete h hsub (by simp)
  · have hkept : kmemMinFreeBlockSize ≤ block.size - size := Nat.le_of_not_lt hdrop
    have hroom : 64 ≤ block.size - size := by rwa [kmemMinFreeBlockSize_eq] at hkept
    have hinside := hfits.free_inside block (by simp)
    simp only [Block.fin] at hinside
    have hwrap : u64 (block.addr + size) = block.addr + size := Nat.mod_eq_of_lt (by omega)
    obtain ⟨hfree, hlive⟩ := hfits.remainder_apart hneed hroom
    let fresh : Block := ⟨block.addr + size, block.size - size⟩
    have howner : fresh ∈ owners := hfresh (mem_remainder.mpr ⟨rfl, hkept⟩)
    have hwritten := h.write_header hfree hlive fresh.size
    by_cases hhead : listNode block.addr = heap.freeList
    · exact within_carve_first h hfits hsub howner hwrap rfl hdrop hwritten hhead
    · have hapart : block.addr + 32 ≤ fresh.addr := by
        show block.addr + 32 ≤ block.addr + size
        omega
      exact within_carve_later h hfits hsub howner hwrap rfl hdrop hwritten hhead hapart

/-! ## Allocation -/

variable {memory : Mem}

/-- The scan of an allocation ends at a node of the free list. -/
theorem find_fit_mem {fuel pFree found : Nat}
    (h : Queue memory head nodes) (hpFree : pFree ∈ nodes)
    (hfound : findFit memory head size fuel pFree = some found) : found ∈ nodes := by
  induction fuel generalizing pFree with
  | zero => simp [findFit] at hfound
  | succ fuel ih =>
    have hnext := (h.ring.prev_next hpFree).1
    simp only [findFit] at hfound
    split at hfound
    · cases hfound
      exact hpFree
    · split at hfound
      · exact ih hnext hfound
      · cases hfound
        exact hnext

variable {after : HeapOf (WriteLog base)}

/-- An allocation writes headers of free blocks and of the remainder. -/
theorem within_kmem_alloc {request ptr : Nat}
    (h : Holds heap.memory.memory heap.freeList free live) (hfits : Fits low high free live)
    (hhigh : high < 2 ^ 64) (hsub : free ⊆ owners)
    (hfresh : ∀ block ∈ free, remainder kmemMinFreeBlockSize (needOf request) block ⊆ owners)
    (hresult : kmemAlloc heap request = some (after, ptr))
    (hlog : heap.memory.Within (Headers owners)) : after.memory.Within (Headers owners) := by
  unfold kmemAlloc at hresult
  split at hresult
  · cases hresult
    exact hlog
  · next hnull =>
    obtain ⟨pFree, hfound, hresult⟩ := Option.bind_eq_some_iff.mp hresult
    split at hresult
    · cases hresult
      exact hlog
    · next hlarge =>
      have hhead : heap.freeList ∈ nodesOf free := h.list.head_mem hnull
      rw [find_fit_memory] at hfound
      obtain ⟨block, hblock, rfl⟩ := mem_nodesOf.mp (find_fit_mem h.list hhead hfound)
      obtain ⟨front, back, rfl⟩ := List.append_of_mem hblock
      have hfit : needOf request ≤ block.size := by
        rw [block_of_list_node, free_size_memory, (h.free_header block hblock).2] at hlarge
        exact Nat.le_of_not_lt hlarge
      have hcarve := within_carve h hfits hhigh (le_needOf request) hfit hsub
        (hfresh block hblock)
      cases hresult
      have howner := hsub hblock
      show (setUsedSize (setBlockMagic (carve heap (listNode block.addr) (needOf request)).memory
        _ kmemBlockMagic) _ _).Within (Headers owners)
      rw [block_of_list_node, within_used_size howner, within_block_magic howner, hcarve]
      exact hlog

/-! ## Release -/

/-- The scan of a release ends at a node of the free list, if it has passed one. -/
theorem find_before_mem {fuel ptr pHead pPrev found : Nat}
    (h : Queue memory head nodes) (hpHead : pHead ∈ nodes)
    (hfound : findBefore memory head ptr fuel pHead pPrev = some found) :
    found = pPrev ∨ found ∈ nodes := by
  induction fuel generalizing pHead pPrev with
  | zero => simp [findBefore] at hfound
  | succ fuel ih =>
    have hnext := (h.ring.prev_next hpHead).1
    simp only [findBefore] at hfound
    split at hfound
    · cases hfound
      exact Or.inl rfl
    · split at hfound
      · rcases ih hnext hfound with rfl | hmem
        · exact Or.inr hpHead
        · exact Or.inr hmem
      · cases hfound
        exact Or.inr hpHead

/-- Linking the freed block writes its header and headers of free blocks. -/
theorem within_insert_free {ptr : Nat}
    (h : Holds heap.memory.memory heap.freeList free live) (hsub : free ⊆ owners)
    (howner : block ∈ owners) (hresult : insertFree heap ptr block.addr = some after)
    (hlog : heap.memory.Within (Headers owners)) : after.memory.Within (Headers owners) := by
  have hnodes : ∀ node ∈ nodesOf free,
      Unseen (WriteLog.Within (Headers owners) : WriteLog base → Prop) node :=
    unseen_nodes fun other hother => ⟨other, hsub hother, rfl⟩
  have hnode : Unseen (WriteLog.Within (Headers owners) : WriteLog base → Prop)
    (listNode block.addr) := unseen_within howner
  unfold insertFree at hresult
  split at hresult
  · next hnull =>
    have hhead : heap.freeList ∈ nodesOf free := h.list.head_mem hnull
    obtain ⟨pPrev, hfound, hresult⟩ := Option.bind_eq_some_iff.mp hresult
    split at hresult
    · cases hresult
      have hlast : prev heap.memory heap.freeList ∈ nodesOf free := (h.list.ring.next_prev hhead).1
      rw [(hnodes _ hhead _ _).2, (hnode _ _).1, (hnode _ _).2, (hnodes _ hlast _ _).1]
      exact hlog
    · next hne =>
      cases hresult
      rw [find_before_memory] at hfound
      have hmem := (find_before_mem h.list hhead hfound).resolve_left hne
      rw [intrusive_list_insert_unseen (WriteLog.Within (Headers owners))
        (ring_of_memory h.list.ring) hmem hnodes hnode]
      exact hlog
  · cases hresult
    exact hlog

/-- A merge writes the size of a free block and unlinks another one. -/
theorem within_merge (h : Holds log.memory head free live) (hfits : Fits low high free live)
    (hstart : ∀ other ∈ free, ∃ owner ∈ owners, owner.addr = other.addr) (hblock : block ∈ free)
    {node : Nat} (hnode : node ∈ nodesOf free) (value : Nat) :
    (intrusiveListUnlinkNode (setFreeSize log block.addr (u64 value)) node).Within (Headers owners) =
      log.Within (Headers owners) := by
  obtain ⟨front, back, rfl⟩ := List.append_of_mem hblock
  obtain ⟨owner, howner, haddr⟩ := hstart block hblock
  have hresized : Holds (setFreeSize log block.addr (u64 value)).memory head
      (front ++ ⟨block.addr, u64 value⟩ :: back) live :=
    h.resize hfits (Nat.mod_lt _ (by decide))
  rw [within_unlink hresized ?_ (by simpa using hnode), ← haddr]
  · exact within_free_size howner _
  · intro other hother
    simp only [List.mem_append, List.mem_cons] at hother
    rcases hother with hother | rfl | hother
    · exact hstart other (by simp [hother])
    · exact ⟨owner, howner, haddr⟩
    · exact hstart other (by simp [hother])

/-- Merging into the predecessor writes headers of free blocks. -/
theorem within_merge_previous (h : Holds log.memory head free live)
    (hfits : Fits low high free live) (hsub : free ⊆ owners) (hblock : block ∈ free)
    (blockSize : Nat) :
    (mergePrevious log block.addr blockSize).1.Within (Headers owners) =
      log.Within (Headers owners) := by
  obtain ⟨other, hother, hprev⟩ := (h.neighbours hblock).1
  have hptr : kmemFreeBlockPtr (prev log (listNode block.addr)) = other.addr := by
    rw [prev_memory, hprev, block_of_list_node]
  unfold mergePrevious
  simp only [hptr]
  split
  · exact within_merge h hfits (fun owner howner => ⟨owner, hsub howner, rfl⟩) hother
      (mem_nodesOf.mpr ⟨block, hblock, rfl⟩) _
  · rfl

theorem within_merge_next (h : Holds log.memory head free live) (hfits : Fits low high free live)
    (hstart : ∀ other ∈ free, ∃ owner ∈ owners, owner.addr = other.addr) (hblock : block ∈ free) :
    (mergeNext log block.addr).Within (Headers owners) = log.Within (Headers owners) := by
  obtain ⟨other, hother, hnext⟩ := (h.neighbours hblock).2
  have hptr : kmemFreeBlockPtr (next log (listNode block.addr)) = other.addr := by
    rw [next_memory, hnext, block_of_list_node]
  unfold mergeNext
  simp only [hptr]
  split
  · exact within_merge h hfits hstart hblock (mem_nodesOf.mpr ⟨other, hother, rfl⟩) _
  · rfl

theorem merge_previous_holds (h : Holds memory head (front ++ block :: back) live)
    (hfits : Fits low high (front ++ block :: back) live) (hhigh : high < 2 ^ 64) :
    ∃ rest merged, (mergePrevious memory block.addr block.size).2 = merged.addr ∧
      Holds (mergePrevious memory block.addr block.size).1 head (rest ++ merged :: back) live ∧
      Fits low high (rest ++ merged :: back) live ∧
      ∀ other ∈ rest ++ merged :: back, ∃ owner ∈ front ++ block :: back, owner.addr = other.addr := by
  rcases List.eq_nil_or_concat' front with rfl | ⟨rest, before, rfl⟩
  · rw [merge_previous_first h hfits hhigh]
    exact ⟨[], block, rfl, h, hfits, fun other hother => ⟨other, hother, rfl⟩⟩
  · simp only [List.append_assoc, List.singleton_append] at h hfits ⊢
    have hbefore : before ∈ rest ++ before :: block :: back := by simp
    obtain ⟨hbound, hsum⟩ := hfits.no_wrap hhigh hbefore (by simp : block ∈ _)
    rw [merge_previous_eq h.prev_node (h.free_header before hbefore).2 hbound hsum]
    split
    · next htouch =>
      refine ⟨rest, ⟨before.addr, before.size + block.size⟩, rfl, h.join hfits (hsum htouch),
        hfits.join (by rw [kmemMinFreeBlockSize_eq]; decide) htouch, fun other hother => ?_⟩
      simp only [List.mem_append, List.mem_cons] at hother
      rcases hother with hother | rfl | hother
      · exact ⟨other, by simp [hother], rfl⟩
      · exact ⟨before, hbefore, rfl⟩
      · exact ⟨other, by simp [hother], rfl⟩
    · refine ⟨rest ++ [before], block, rfl, by simpa using h, by simpa using hfits, ?_⟩
      intro other hother
      exact ⟨other, by simpa using hother, rfl⟩

/-- A release writes the header of the freed block and headers of free blocks. -/
theorem within_kmem_free {before behind : List Block}
    (h : Holds heap.memory.memory heap.freeList free (before ++ block :: behind))
    (hfits : Fits heap.start (heap.start + heap.size) free (before ++ block :: behind))
    (hhigh : heap.start + heap.size < 2 ^ 64) (hsub : free ⊆ owners) (howner : block ∈ owners)
    (hresult : kmemFree heap (block.addr + usedBlockBytes) = some after)
    (hlog : heap.memory.Within (Headers owners)) : after.memory.Within (Headers owners) := by
  have hinside := hfits.live_inside block (by simp)
  have hsize := hfits.live_size (by simp : block ∈ before ++ block :: behind)
  simp only [Block.fin] at hinside
  have hptr : sub64 (block.addr + usedBlockBytes) usedBlockBytes = block.addr := by
    rw [sub64_of_le (Nat.le_add_left _ _) (by simp only [usedBlockBytes]; omega),
      Nat.add_sub_cancel]
  have hused : usedSize heap.memory block.addr = block.size := (h.live_header block (by simp)).2
  obtain ⟨front, back, rfl, hplaced, hwritten, hheader, hself⟩ := h.freed_header hfits hhigh
  have hall : front ++ block :: back ⊆ owners := by
    intro other hother
    simp only [List.mem_append, List.mem_cons] at hother
    rcases hother with hother | rfl | hother
    · exact hsub (List.mem_append_left _ hother)
    · exact howner
    · exact hsub (List.mem_append_right _ hother)
  unfold kmemFree at hresult
  simp only [hptr, hused] at hresult
  split at hresult
  · cases hresult
    exact hlog
  split at hresult
  · cases hresult
    exact hlog
  split at hresult
  · cases hresult
    exact hlog
  obtain ⟨linked, hinsert, hresult⟩ := Option.bind_eq_some_iff.mp hresult
  cases hresult
  -- the freed block is linked, and the two merges see a free list
  let log := freedHeader heap.memory block.addr block.size
  let written : HeapOf (WriteLog base) := { heap with memory := log }
  obtain ⟨first, memory, hspec, hlinked⟩ : ∃ first memory,
      insertFree written.plain (block.addr + usedBlockBytes) block.addr =
        some { written.plain with freeList := first, memory := memory } ∧
      Holds memory first (front ++ block :: back) (before ++ behind) :=
    insert_free_spec hwritten hheader hself hplaced hhigh
  have hheap := insert_free_heap written (block.addr + usedBlockBytes) block.addr
  rw [show insertFree written _ _ = some linked from hinsert, hspec] at hheap
  obtain rfl : linked.memory.memory = memory := congrArg HeapOf.memory (Option.some.inj hheap)
  obtain ⟨rest, merged, hmerged, hholds, hfitsMerged, hstart⟩ :=
    merge_previous_holds hlinked hplaced hhigh
  rw [← merge_previous_memory] at hmerged hholds
  have howners : ∀ other ∈ rest ++ merged :: back, ∃ owner ∈ owners, owner.addr = other.addr := by
    intro other hother
    obtain ⟨owner, hmem, haddr⟩ := hstart other hother
    exact ⟨owner, hall hmem, haddr⟩
  show (mergeNext (mergePrevious linked.memory block.addr block.size).1
    (mergePrevious linked.memory block.addr block.size).2).Within (Headers owners)
  rw [show (mergePrevious linked.memory block.addr block.size).2 = merged.addr from hmerged,
    within_merge_next hholds hfitsMerged howners (by simp),
    within_merge_previous hlinked hplaced hall (by simp)]
  have hlogged : Holds written.memory.memory written.freeList (front ++ back) (before ++ behind) :=
    hwritten
  refine within_insert_free hlogged hsub howner hinsert ?_
  show log.Within (Headers owners)
  rw [within_header howner]
  exact hlog

end Logged

/-! ## The heap and its clients -/

variable {session : Session} {low high : Nat} {free live owners : List Block}

theorem Fits.header_fits (hfits : Fits low high free live) {block : Block} (hblock : block ∈ free) :
    block.addr + freeBlockBytes ≤ block.fin := by
  have hsize := hfits.free_size hblock
  simp only [Block.fin, freeBlockBytes]
  omega

/-- A header inside a free block is inside the heap and in no live block. -/
theorem Fits.header_outside (hfits : Fits low high free live)
    (howners : ∀ owner ∈ owners, ∃ block ∈ free, block.addr ≤ owner.addr ∧
      owner.addr + freeBlockBytes ≤ block.fin) {address : Nat}
    (haddress : Logged.Headers owners address) :
    (low ≤ address ∧ address < high) ∧ ∀ other ∈ live, ¬ other.Contains address := by
  obtain ⟨owner, howner, hfrom, hto⟩ := haddress
  obtain ⟨block, hblock, hstart, hend⟩ := howners owner howner
  have hinside := hfits.free_inside block hblock
  refine ⟨by omega, fun other hother hcontains => ?_⟩
  have hdisjoint := hfits.live_free other hother block hblock
  simp only [Block.Disjoint, Block.Contains, Block.fin] at *
  omega

/-- What the record of an operation says: every byte that was written is inside the heap and outside
the blocks of these pointers, and the bytes of these blocks are as they were. -/
def Confined (heap : Heap) (others : List Nat) (after : HeapOf (WriteLog heap.memory)) : Prop :=
  (∀ write ∈ after.memory.writes, ∀ address, write.Covers address →
    (heap.start ≤ address ∧ address < heap.start + heap.size) ∧
      ∀ ptr ∈ others, ¬ (liveBlock heap.memory ptr).Contains address) ∧
  ∀ ptr ∈ others, ∀ address, (liveBlock heap.memory ptr).Contains address →
    after.plain.memory.byte address = heap.memory.byte address

/-- An operation whose stores lie in headers of free blocks is confined. -/
theorem Confined.of_within {heap : Heap} {others : List Nat} {after : HeapOf (WriteLog heap.memory)}
    (hwithin : after.memory.Within (Logged.Headers owners))
    (houtside : ∀ address, Logged.Headers owners address →
      (heap.start ≤ address ∧ address < heap.start + heap.size) ∧
        ∀ ptr ∈ others, ¬ (liveBlock heap.memory ptr).Contains address) :
    Confined heap others after := by
  refine ⟨fun write hwrite address hcovers => houtside address (hwithin write hwrite address hcovers),
    fun ptr hptr address hcontains => hwithin.byte_eq fun hheader => ?_⟩
  exact (houtside address hheader).2 ptr hptr hcontains

/-- `kmem_alloc` writes to no byte of a live block. -/
theorem Represents.alloc_confined (h : Represents session free live) (request : Nat) :
    ∃ after ptr, kmemAlloc session.heap.logged request = some (after, ptr) ∧
      kmemAlloc session.heap request = some (after.plain, ptr) ∧
      Confined session.heap session.live after := by
  obtain ⟨_, _, _, _, halloc, _⟩ := h.alloc_step request
  have herased := Logged.kmem_alloc_heap session.heap.logged request
  rw [show session.heap.logged.plain = session.heap from rfl, halloc] at herased
  obtain ⟨⟨after, ptr⟩, hlogged, hresult⟩ := Option.map_eq_some_iff.mp herased
  refine ⟨after, ptr, hlogged, by rw [halloc, hresult], ?_⟩
  let owners := free ++ free.flatMap (remainder kmemMinFreeBlockSize (needOf request))
  have hsub : free ⊆ owners := List.subset_append_left _ _
  have hfresh : ∀ block ∈ free,
      remainder kmemMinFreeBlockSize (needOf request) block ⊆ owners := by
    intro block hblock other hother
    exact List.mem_append_right _ (List.mem_flatMap.mpr ⟨block, hblock, hother⟩)
  have hholds : Holds session.heap.logged.memory.memory session.heap.logged.freeList free live := h.holds
  have hwithin := Logged.within_kmem_alloc hholds h.fits h.bounded hsub hfresh hlogged
    WriteLog.within_nil
  -- a remainder lies inside the block that it is the rest of
  have howners : ∀ owner ∈ owners, ∃ block ∈ free, block.addr ≤ owner.addr ∧
      owner.addr + freeBlockBytes ≤ block.fin := by
    intro owner howner
    rcases List.mem_append.mp howner with hfree | hrest
    · exact ⟨owner, hfree, Nat.le_refl _, h.fits.header_fits hfree⟩
    · obtain ⟨block, hblock, hmem⟩ := List.mem_flatMap.mp hrest
      obtain ⟨rfl, hkept⟩ := mem_remainder.mp hmem
      rw [kmemMinFreeBlockSize_eq] at hkept
      refine ⟨block, hblock, Nat.le_add_right _ _, ?_⟩
      simp only [Block.fin, freeBlockBytes]
      omega
  refine Confined.of_within hwithin fun address haddress => ?_
  obtain ⟨hinside, houtside⟩ := h.fits.header_outside howners haddress
  refine ⟨hinside, fun ptr hptr => houtside _ ?_⟩
  rw [← h.live_eq]
  exact List.mem_map_of_mem hptr

/-- `kmem_free` writes to no byte of the other live blocks. -/
theorem Represents.free_confined (h : Represents session free live) {ptr : Nat}
    (hptr : ptr ∈ session.live) :
    ∃ after, kmemFree session.heap.logged ptr = some after ∧
      kmemFree session.heap ptr = some after.plain ∧
      Confined session.heap (session.live.erase ptr) after := by
  obtain ⟨_, _, _, hfree, _⟩ := h.free_step hptr
  have herased := Logged.kmem_free_heap session.heap.logged ptr
  rw [show session.heap.logged.plain = session.heap from rfl, hfree] at herased
  obtain ⟨after, hlogged, hresult⟩ := Option.map_eq_some_iff.mp herased
  refine ⟨after, hlogged, by rw [hfree, hresult], ?_⟩
  obtain ⟨block, hblock, rfl⟩ := List.mem_map.mp (h.pointers ▸ hptr)
  obtain ⟨before, behind, rfl⟩ := List.append_of_mem hblock
  obtain ⟨_, _, _, _, hafter⟩ := h.free_refines
  have hpointers : session.live.erase (block.addr + usedBlockBytes) =
      (before ++ behind).map fun block => block.addr + usedBlockBytes := hafter.pointers
  obtain ⟨front, back, rfl, hplaced, _⟩ := h.holds.freed_header h.fits h.bounded
  have hsub : front ++ back ⊆ front ++ block :: back := fun _ hother => mem_middle.mpr (.inr hother)
  have hholds : Holds session.heap.logged.memory.memory session.heap.logged.freeList (front ++ back)
      (before ++ block :: behind) := h.holds
  have hwithin := Logged.within_kmem_free hholds h.fits h.bounded hsub (by simp) hlogged
    WriteLog.within_nil
  have howners : ∀ owner ∈ front ++ block :: back, ∃ other ∈ front ++ block :: back,
      other.addr ≤ owner.addr ∧ owner.addr + freeBlockBytes ≤ other.fin :=
    fun owner howner => ⟨owner, howner, Nat.le_refl _, hplaced.header_fits howner⟩
  refine Confined.of_within hwithin fun address haddress => ?_
  obtain ⟨hinside, houtside⟩ := hplaced.header_outside howners haddress
  refine ⟨hinside, fun ptr hmem => ?_⟩
  rw [hpointers] at hmem
  obtain ⟨other, hother, rfl⟩ := List.mem_map.mp hmem
  have hlive : liveBlock session.heap.memory (other.addr + usedBlockBytes) = other := by
    have hkept : other ∈ before ++ block :: behind := by
      simp only [List.mem_append, List.mem_cons] at hother ⊢
      tauto
    rw [liveBlock, Nat.add_sub_cancel, (h.holds.live_header other hkept).2]
  rw [hlive]
  exact houtside other hother

/-- In every state that an initialised heap reaches, an allocation and the release of a live pointer
come to an end, and every byte that they write lies inside the heap and outside the other live blocks.
So the bytes of these are as they were, headers and payloads. -/
theorem kmem_writes_confined (memory : Mem) (heapStart heapSize : Nat)
    (hsize : kmemMinFreeBlockSize ≤ heapSize) (hend : heapStart + heapSize < 2 ^ 64)
    {session : Session}
    (hreach : Machine.Reachable Session.step (Session.initial memory heapStart heapSize) session) :
    (∀ request, ∃ after ptr, kmemAlloc session.heap.logged request = some (after, ptr) ∧
      kmemAlloc session.heap request = some (after.plain, ptr) ∧
      Confined session.heap session.live after) ∧
    ∀ ptr ∈ session.live, ∃ after, kmemFree session.heap.logged ptr = some after ∧
      kmemFree session.heap ptr = some after.plain ∧
      Confined session.heap (session.live.erase ptr) after := by
  obtain ⟨free, live, h⟩ := represents_of_reachable hsize hend hreach
  exact ⟨h.alloc_confined, fun ptr hptr => h.free_confined hptr⟩

/-- The release of the second of three blocks in a heap of 512 bytes leaves the third one alone. -/
theorem kmem_writes_confined_three_blocks : ∃ session after,
    Machine.run Session.step (Session.initial ⟨fun _ => 0⟩ 4096 512)
      [.alloc 8, .alloc 100, .alloc 8, .free 4112] = some session ∧
    session.live = [4292, 4176] ∧ kmemFree session.heap.logged 4176 = some after ∧
    Confined session.heap (session.live.erase 4176) after := by
  have hlive : (Machine.run Session.step (Session.initial ⟨fun _ => 0⟩ 4096 512)
      [.alloc 8, .alloc 100, .alloc 8, .free 4112]).map Session.live = some [4292, 4176] := by
    decide +kernel
  obtain ⟨session, hrun, hlive⟩ := Option.map_eq_some_iff.mp hlive
  obtain ⟨after, hfree, _, hconfined⟩ := (kmem_writes_confined ⟨fun _ => 0⟩ 4096 512 (by decide)
    (by decide) ⟨_, hrun⟩).2 4176 (by rw [hlive]; decide)
  exact ⟨session, after, hrun, hlive, hfree, hconfined⟩

end Otrix.Kmem
