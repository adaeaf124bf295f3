import Otrix.Kernel.Kmem.Alloc

/-!
# Release refines insertion with joins

`kmem_free_spec`: on a memory that represents the free and live blocks, freeing
a live pointer comes to an end and leaves a memory that represents the free
blocks of `release`. The scan finds the last free block in front of the freed
one, the freed block is linked behind it, and the two joins look at the ring
neighbours of the freed block. A neighbour across the wrap-around never touches
it, because the free list is in address order.
-/

namespace Otrix.Kmem

open Linked Bytes Blocks

variable {memory : Mem} {head low high ptr : Nat} {free live front back : List Block}
  {block second : Block}

/-! ## The scan for the predecessor -/

theorem find_before_stop {fuel pHead pPrev : Nat} (hbehind : ptr < kmemFreeBlockPtr pHead) :
    findBefore memory head ptr (fuel + 1) pHead pPrev = some pPrev := by
  simp [findBefore, hbehind]

/-- A free block in front of the freed one moves the scan on, or ends it at the head. -/
theorem find_before_next {fuel pHead pPrev : Nat} (hfront : kmemFreeBlockPtr pHead ≤ ptr) :
    findBefore memory head ptr (fuel + 1) pHead pPrev =
      if next memory pHead = head then some pHead
      else findBefore memory head ptr fuel (next memory pHead) pHead := by
  simp only [findBefore, Nat.not_lt.mpr hfront, if_false, ite_not]

/-- The scan passes the blocks in front of the freed one. It reads their forward links only. -/
theorem find_before_pass {updated : Mem} (fuel pPrev : Nat) {skipped : List Block}
    (h : Holds memory head (skipped ++ (front ++ back)) live) (hne : back ≠ [])
    (hkeep : ∀ other ∈ front, next updated (listNode other.addr) = next memory (listNode other.addr))
    (hfront : ∀ other ∈ front, other.addr ≤ ptr) :
    findBefore updated head ptr (fuel + front.length) ((nodesOf (front ++ back)).headD head) pPrev =
      findBefore updated head ptr fuel ((nodesOf back).headD head) ((nodesOf front).getLastD pPrev) := by
  induction front generalizing pPrev skipped with
  | nil => rfl
  | cons first front ih =>
    have hmoved : Holds memory head ((skipped ++ [first]) ++ (front ++ back)) live := by
      simpa using h
    have hnext : next updated (listNode first.addr) = (nodesOf (front ++ back)).headD head :=
      (hkeep first (by simp)).trans h.next_node
    have hmore : (nodesOf (front ++ back)).headD head ≠ head :=
      h.next_node ▸ h.next_eq_head_iff.not.mpr (by simp [hne])
    show findBefore updated head ptr (fuel + front.length + 1) (listNode first.addr) pPrev = _
    rw [find_before_next (by simpa [kmemFreeBlockPtr, listNode] using hfront first (by simp)), hnext,
      if_neg hmore, ih _ hmoved (fun other ho => hkeep other (by simp [ho]))
        fun other ho => hfront other (by simp [ho]), nodesOf_cons, List.getLastD_cons]

/-- The scan ends at the last block in front of the freed one. -/
theorem find_before_spec {updated : Mem} {fuel : Nat}
    (h : Holds memory head (front ++ back) live) (hne : front ++ back ≠ [])
    (hkeep : ∀ other ∈ front, next updated (listNode other.addr) = next memory (listNode other.addr))
    (hfront : ∀ other ∈ front, other.addr ≤ ptr) (hback : ∀ other ∈ back, ptr < other.addr)
    (hfuel : (front ++ back).length ≤ fuel) :
    findBefore updated head ptr fuel head 0 = some ((nodesOf front).getLastD 0) := by
  have hall : Holds memory head ([] ++ (front ++ back)) live := h
  have hlength : front.length + back.length ≤ fuel := List.length_append ▸ hfuel
  cases back with
  | cons first rest =>
    obtain ⟨k, rfl⟩ : ∃ k, fuel = k + 1 + front.length :=
      ⟨fuel - 1 - front.length, by simp at hlength; omega⟩
    have hpass := find_before_pass (k + 1) 0 hall (List.cons_ne_nil _ _) hkeep hfront
    rw [h.first_node] at hpass
    rw [hpass]
    exact find_before_stop (by simpa [kmemFreeBlockPtr, listNode] using hback first (by simp))
  | nil =>
    obtain ⟨before, last, rfl⟩ := (List.eq_nil_or_concat' front).resolve_left (by simpa using hne)
    obtain ⟨k, rfl⟩ : ∃ k, fuel = k + 1 + before.length :=
      ⟨fuel - 1 - before.length, by simp at hlength; omega⟩
    have hsplit : Holds memory head (before ++ [last]) live := by simpa using h
    have hall : Holds memory head ([] ++ (before ++ [last])) live := hsplit
    have hpass := find_before_pass (k + 1) 0 hall (List.cons_ne_nil _ _)
      (fun other ho => hkeep other (by simp [ho])) fun other ho => hfront other (by simp [ho])
    rw [hsplit.first_node] at hpass
    rw [hpass]
    show findBefore updated head ptr (k + 1) (listNode last.addr) _ = _
    rw [find_before_next (by simpa [kmemFreeBlockPtr, listNode] using hfront last (by simp)),
      if_pos ((hkeep last (by simp)).trans (hsplit.next_eq_head_iff.mpr rfl))]
    simp

/-! ## Linking the freed block -/

/-- Linking a block in front of the free list makes it the head. -/
theorem Holds.push (h : Holds memory head back live) (hheader : FreeHeader memory block)
    (hfits : Fits low high (block :: back) live) (hhigh : high < 2 ^ 64) :
    Holds (intrusiveListPushBack memory head (listNode block.addr)).1 (listNode block.addr)
      (block :: back) live := by
  have hempty : Fits low high ([] ++ block :: back) live := hfits
  obtain ⟨hstorable, hnull, hapart⟩ := hempty.fresh_node hhigh
  have hqueue := intrusive_list_push_back_queue h.list hstorable hnull hapart
  have hhead : (intrusiveListPushBack memory head (listNode block.addr)).2 =
      listNode block.addr := by
    unfold intrusiveListPushBack
    split <;> rfl
  rw [hhead] at hqueue
  refine Holds.of_frame hfits hqueue ?_ h.live_header (fun other ho => ⟨other, ho, rfl⟩) ?_
  · intro other hother
    rcases List.mem_cons.mp hother with rfl | hother
    · exact hheader
    · exact h.free_header other hother
  · intro observe hunseen
    refine intrusive_list_push_back_unseen observe h.list ?_ (hunseen block (by simp))
    intro node hnode
    obtain ⟨owner, howner, rfl⟩ := mem_nodesOf.mp hnode
    exact hunseen owner (List.mem_cons_of_mem _ howner)

/-- A free block with its header in place is linked behind its neighbour. -/
theorem Holds.insert (h : Holds memory head (front ++ second :: back) live)
    (hheader : FreeHeader memory block)
    (hfits : Fits low high (front ++ second :: block :: back) live) (hhigh : high < 2 ^ 64) :
    Holds (intrusiveListInsert memory (listNode second.addr) (listNode block.addr)) head
      (front ++ second :: block :: back) live := by
  have hsplit : Fits low high ((front ++ [second]) ++ block :: back) live := by simpa using hfits
  obtain ⟨hstorable, hnull, hapart⟩ := hsplit.fresh_node hhigh
  have hring := h.ring_at
  rw [nodesOf_append] at hring
  have hinserted := intrusive_list_insert_ring hring hstorable hnull (fun node hnode =>
    hapart node (by
      simp only [nodesOf_append, nodesOf_cons, nodesOf_nil, List.mem_append, List.mem_cons] at *
      tauto))
  refine Holds.of_frame hfits ⟨?_, ?_⟩ ?_ h.live_header (fun other ho => ⟨other, ho, rfl⟩) ?_
  · have hmoved : Ring (intrusiveListInsert memory (listNode second.addr) (listNode block.addr))
        (nodesOf (second :: block :: back) ++ nodesOf front) := hinserted
    rw [nodesOf_append]
    exact hmoved.rotate
  · have hhead := h.list.head_eq
    cases front <;> simpa using hhead
  · intro other hother
    by_cases heq : other = block
    · rw [heq]
      exact hheader
    · refine h.free_header other ?_
      simp only [List.mem_append, List.mem_cons] at hother ⊢
      tauto
  · intro observe hunseen
    refine intrusive_list_insert_unseen observe h.list.ring (by simp) ?_ (hunseen block (by simp))
    intro node hnode
    obtain ⟨owner, howner, rfl⟩ := mem_nodesOf.mp hnode
    refine hunseen owner ?_
    simp only [List.mem_append, List.mem_cons] at howner ⊢
    tauto

/-- In front of the whole list, `kmem_free` writes the links that a push writes. -/
theorem insert_front_eq (h : Queue memory head (nodesOf back)) (hhead : head ≠ 0) (node : Nat) :
    setPrev (setNext (setPrev (setNext memory (prev memory head) node) node
      (prev (setNext memory (prev memory head) node) head)) node head) head node =
      (intrusiveListPushBack memory head node).1 := by
  have hmem : head ∈ nodesOf back := h.head_mem hhead
  have hlast := h.ring.next_prev hmem
  rw [prev_setNext (h.ring.eq_or_apart hlast.1 hmem)]
  simp only [intrusiveListPushBack, intrusiveListGetTail, if_neg (show head ≠ null Mem from hhead)]

/-- A block is linked behind the last free block in front of it. -/
theorem insert_free_behind {heap : Heap} {address : Nat}
    (h : Holds memory heap.freeList (front ++ second :: back) live)
    (hkeep : ∀ other ∈ front ++ [second],
      next heap.memory (listNode other.addr) = next memory (listNode other.addr))
    (hlength : (front ++ second :: back).length ≤ heap.size)
    (hfront : ∀ other ∈ front ++ [second], other.addr ≤ ptr)
    (hback : ∀ other ∈ back, ptr < other.addr) :
    insertFree heap ptr address = some { heap with
      memory := intrusiveListInsert heap.memory (listNode second.addr) (listNode address) } := by
  have hsplit : Holds memory heap.freeList ((front ++ [second]) ++ back) live := by simpa using h
  have hfound := find_before_spec hsplit (by simp) hkeep hfront hback (by simpa using hlength)
  rw [show (nodesOf (front ++ [second])).getLastD 0 = listNode second.addr by simp] at hfound
  have hpos : listNode second.addr ≠ 0 := Nat.succ_ne_zero _
  simp only [insertFree, if_pos h.head_ne_null, hfound, Option.bind_eq_bind, Option.bind_some,
    if_neg hpos]

/-- The freed block is linked at its place in the address order. -/
theorem insert_free_spec {heap : Heap}
    (h : Holds heap.memory heap.freeList (front ++ back) live)
    (hheader : FreeHeader heap.memory block) (hself : Ring heap.memory [listNode block.addr])
    (hfits : Fits heap.start (heap.start + heap.size) (front ++ block :: back) live)
    (hhigh : heap.start + heap.size < 2 ^ 64) :
    ∃ head memory,
      insertFree heap (block.addr + usedBlockBytes) block.addr =
        some { heap with freeList := head, memory := memory } ∧
      Holds memory head (front ++ block :: back) live := by
  have hsize : 64 ≤ block.size := hfits.free_size (by simp)
  obtain ⟨_, horder, hcross⟩ := List.pairwise_append.mp hfits.free_order
  have hfront : ∀ other ∈ front, other.addr ≤ block.addr + usedBlockBytes := by
    intro other hother
    have := hcross other hother block (by simp)
    simp only [Block.fin] at this
    omega
  have hback : ∀ other ∈ back, block.addr + usedBlockBytes < other.addr := by
    intro other hother
    have := (List.pairwise_cons.mp horder).1 other hother
    simp only [Block.fin] at this
    show block.addr + 16 < other.addr
    omega
  by_cases hnull : heap.freeList = 0
  · -- no free block: the freed block is the whole list
    have hnil := h.list.head_eq_null_iff.mp hnull
    obtain ⟨rfl, rfl⟩ : front = [] ∧ back = [] := by simpa [nodesOf] using hnil
    refine ⟨listNode block.addr, heap.memory, by simp [insertFree, hnull], Queue.cons hself, ?_,
      h.live_header⟩
    simpa using hheader
  · have hne : front ++ back ≠ [] := fun hnil =>
      hnull (h.list.head_eq_null_iff.mpr (by rw [hnil]; rfl))
    have hlength : (front ++ back).length ≤ heap.size := by
      have := hfits.length_le
      simp only [List.length_append, List.length_cons] at this ⊢
      omega
    rcases List.eq_nil_or_concat' front with rfl | ⟨rest, before, rfl⟩
    · have hfound := find_before_spec h hne (fun _ _ => rfl) hfront hback hlength
      refine ⟨listNode block.addr, _, ?_, h.push hheader hfits hhigh⟩
      simp only [insertFree, if_pos hnull, hfound, nodesOf_nil, List.getLastD_nil,
        Option.bind_eq_bind, Option.bind_some, if_true, insert_front_eq h.list hnull]
    · have hsplit : Holds heap.memory heap.freeList (rest ++ before :: back) live := by
        simpa using h
      have hplace : Fits heap.start (heap.start + heap.size)
          (rest ++ before :: block :: back) live := by simpa using hfits
      exact ⟨heap.freeList, _, insert_free_behind hsplit (fun _ _ => rfl) (by simpa using hlength)
        hfront hback, by simpa using hsplit.insert hheader hplace hhigh⟩

/-! ## Joining with the neighbours -/

theorem Holds.prev_node (h : Holds memory head (front ++ second :: block :: back) live) :
    prev memory (listNode block.addr) = listNode second.addr := by
  have hold := h.list.ring
  rw [nodesOf_append] at hold
  exact hold.rotate.link_head.2

theorem Holds.neighbours (h : Holds memory head free live) (hmem : block ∈ free) :
    (∃ other ∈ free, prev memory (listNode block.addr) = listNode other.addr) ∧
    ∃ other ∈ free, next memory (listNode block.addr) = listNode other.addr := by
  have hnode : listNode block.addr ∈ nodesOf free := mem_nodesOf.mpr ⟨block, hmem, rfl⟩
  exact ⟨mem_nodesOf.mp (h.list.ring.next_prev hnode).1,
    mem_nodesOf.mp (h.list.ring.prev_next hnode).1⟩

theorem merge_previous_eq (hprev : prev memory (listNode block.addr) = listNode second.addr)
    (hsize : freeSize memory second.addr = second.size) (hbound : second.fin < 2 ^ 64)
    (hsum : second.fin = block.addr → second.size + block.size < 2 ^ 64) :
    mergePrevious memory block.addr block.size =
      if second.fin = block.addr then
        (intrusiveListUnlinkNode (setFreeSize memory second.addr (second.size + block.size))
          (listNode block.addr), second.addr)
      else (memory, block.addr) := by
  have hfin : u64 (second.addr + second.size) = second.fin := Nat.mod_eq_of_lt hbound
  simp only [mergePrevious, hprev, block_of_list_node, hsize, hfin]
  split
  · next htouch => rw [u64, Nat.mod_eq_of_lt (hsum htouch)]
  · rfl

theorem merge_next_eq (hnext : next memory (listNode block.addr) = listNode second.addr)
    (hblock : freeSize memory block.addr = block.size)
    (hsize : freeSize memory second.addr = second.size) (hbound : block.fin < 2 ^ 64)
    (hsum : block.fin = second.addr → block.size + second.size < 2 ^ 64) :
    mergeNext memory block.addr =
      if block.fin = second.addr then
        intrusiveListUnlinkNode (setFreeSize memory block.addr (block.size + second.size))
          (listNode second.addr)
      else memory := by
  have hfin : u64 (block.addr + block.size) = block.fin := Nat.mod_eq_of_lt hbound
  simp only [mergeNext, hnext, block_of_list_node, hblock, hsize, hfin]
  split
  · next htouch => rw [u64, Nat.mod_eq_of_lt (hsum htouch)]
  · rfl

/-- Assigning the size of a free block changes nothing else. -/
theorem Holds.resize (h : Holds memory head (front ++ block :: back) live)
    (hfits : Fits low high (front ++ block :: back) live) {size : Nat} (hsize : size < 2 ^ 64) :
    Holds (setFreeSize memory block.addr size) head (front ++ ⟨block.addr, size⟩ :: back) live := by
  have hmem : block ∈ front ++ block :: back := by simp
  have hblock := hfits.free_size hmem
  have hkeep : ∀ other ∈ front ++ back, other ∈ front ++ block :: back :=
    fun _ hother => mem_middle.mpr (.inr hother)
  have hfree : ∀ other ∈ front ++ back,
      block.addr + 32 ≤ other.addr ∨ other.addr + 32 ≤ block.addr := by
    intro other hother
    have hlarge := hfits.free_size (hkeep other hother)
    have hdisjoint := hfits.free_others other hother
    simp only [Block.Disjoint, Block.fin] at hdisjoint
    omega
  have hcases : ∀ {kept : Block} {other : Block}, other ∈ front ++ kept :: back →
      other = kept ∨ other ∈ front ++ back := by
    exact mem_middle.mp
  have hnodes : nodesOf (front ++ ⟨block.addr, size⟩ :: back) = nodesOf (front ++ block :: back) := by
    simp
  refine ⟨?_, ?_, ?_⟩
  · rw [hnodes]
    refine h.list.congr ?_ ?_
    all_goals
      intro node hnode
      obtain ⟨other, hother, rfl⟩ := mem_nodesOf.mp hnode
      apply Mem.load_store_other
      rcases hcases hother with rfl | hother
      · simp only [listNode]
        omega
      · have := hfree other hother
        simp only [listNode]
        omega
  · intro other hother
    rcases hcases hother with rfl | hother
    · refine ⟨?_, ?_⟩
      · rw [← (h.free_header block hmem).1]
        exact Mem.load_store_other (Or.inl (Nat.add_le_add_left (by decide) _))
      · show (memory.store (block.addr + 24) size 8).load (block.addr + 24) 8 = size
        rw [Mem.load_store_same, Nat.mod_eq_of_lt (by omega)]
    · have := hfree other hother
      obtain ⟨hmagic, hheader⟩ := h.free_header other (hkeep other hother)
      refine ⟨?_, ?_⟩
      · rw [← hmagic]
        exact Mem.load_store_other (by omega)
      · rw [← hheader]
        exact Mem.load_store_other (by omega)
  · intro other hother
    have hdisjoint := hfits.live_free other hother block hmem
    have hlarge := hfits.live_size hother
    simp only [Block.Disjoint, Block.fin] at hdisjoint
    obtain ⟨hmagic, hused⟩ := h.live_header other hother
    refine ⟨?_, ?_⟩
    · rw [← hmagic]
      exact Mem.load_store_other (by omega)
    · rw [← hused]
      exact Mem.load_store_other (by omega)

/-- Two neighbours become one block: the first takes the size of both, the second leaves the
list. -/
theorem Holds.join (h : Holds memory head (front ++ block :: second :: back) live)
    (hfits : Fits low high (front ++ block :: second :: back) live)
    (hsum : block.size + second.size < 2 ^ 64) :
    Holds (intrusiveListUnlinkNode (setFreeSize memory block.addr (block.size + second.size))
      (listNode second.addr)) head
      (front ++ ⟨block.addr, block.size + second.size⟩ :: back) live := by
  have hsized := h.resize hfits hsum
  generalize setFreeSize memory block.addr (block.size + second.size) = sized at hsized ⊢
  have hring : Ring sized (listNode second.addr ::
      (nodesOf back ++ (nodesOf front ++ [listNode block.addr]))) := by
    have hold := hsized.list.ring
    simp only [nodesOf_append, nodesOf_cons] at hold
    have hsplit : Ring sized ((nodesOf front ++ [listNode block.addr]) ++
        (listNode second.addr :: nodesOf back)) := by simpa using hold
    exact hsplit.rotate
  refine Holds.of_frame hfits ⟨?_, ?_⟩ ?_ hsized.live_header ?_ ?_
  · have hunlinked := intrusive_list_unlink_node_ring hring (by simp)
    simpa using hunlinked.rotate
  · have hhead := hsized.list.head_eq
    cases front <;> simpa using hhead
  · intro other hother
    refine hsized.free_header other ?_
    simp only [List.mem_append, List.mem_cons] at hother ⊢
    tauto
  · intro other hother
    simp only [List.mem_append, List.mem_cons] at hother
    rcases hother with hother | rfl | hother
    · exact ⟨other, by simp [hother], rfl⟩
    · exact ⟨block, by simp, rfl⟩
    · exact ⟨other, by simp [hother], rfl⟩
  · intro observe hunseen
    refine intrusive_list_unlink_node_unseen observe hring (by simp) ?_
    intro node hnode
    obtain ⟨owner, howner, rfl⟩ : ∃ owner ∈ front ++ block :: second :: back,
        node = listNode owner.addr := by
      refine mem_nodesOf.mp ?_
      simp only [nodesOf_append, nodesOf_cons, List.mem_append, List.mem_cons] at hnode ⊢
      tauto
    exact hunseen owner howner

theorem Fits.no_wrap (h : Fits low high free live) (hhigh : high < 2 ^ 64) (hblock : block ∈ free)
    (hsecond : second ∈ free) : block.fin < 2 ^ 64 ∧
      (block.fin = second.addr → block.size + second.size < 2 ^ 64) := by
  have hfirst := h.free_inside block hblock
  have hthen := h.free_inside second hsecond
  simp only [Block.fin] at *
  omega

/-- `mergeNext` joins the block with the free block behind it, if they touch. -/
theorem merge_next_spec (h : Holds memory head (front ++ block :: back) live)
    (hfits : Fits low high (front ++ block :: back) live) (hhigh : high < 2 ^ 64) :
    Holds (mergeNext memory block.addr) head (front ++ joinNext block back) live := by
  have hmem : block ∈ front ++ block :: back := by simp
  have hheader := (h.free_header block hmem).2
  cases back with
  | nil =>
    obtain ⟨other, hother, hnext⟩ := (h.neighbours hmem).2
    -- across the wrap-around the successor starts no later than the block
    have hbefore : other.addr < block.fin := by
      have hsize := hfits.free_size hmem
      simp only [List.mem_append, List.mem_singleton] at hother
      rcases hother with hother | rfl
      · have := (List.pairwise_append.mp hfits.free_order).2.2 other hother block (by simp)
        simp only [Block.fin] at this ⊢
        omega
      · simp only [Block.fin]
        omega
    obtain ⟨hbound, hsum⟩ := hfits.no_wrap hhigh hmem hother
    rw [merge_next_eq hnext hheader (h.free_header other hother).2 hbound hsum,
      if_neg (by omega)]
    exact h
  | cons second rest =>
    have hsecond : second ∈ front ++ block :: second :: rest := by simp
    have hnext : next memory (listNode block.addr) = listNode second.addr := h.next_node
    obtain ⟨hbound, hsum⟩ := hfits.no_wrap hhigh hmem hsecond
    rw [merge_next_eq hnext hheader (h.free_header second hsecond).2 hbound hsum]
    by_cases htouch : block.fin = second.addr
    · simp only [joinNext, htouch, if_true]
      exact h.join hfits (hsum htouch)
    · simp only [joinNext, htouch, if_false]
      exact h

/-- A block that is first in the free list is not merged into its predecessor, which is the last
block of the list. -/
theorem merge_previous_first (h : Holds memory head (block :: back) live)
    (hfits : Fits low high (block :: back) live) (hhigh : high < 2 ^ 64) :
    mergePrevious memory block.addr block.size = (memory, block.addr) := by
  have hmem : block ∈ block :: back := by simp
  obtain ⟨other, hother, hprev⟩ := (h.neighbours hmem).1
  have hbehind : block.addr < other.fin := by
    have hsize := hfits.free_size hother
    rcases List.mem_cons.mp hother with rfl | hother
    · simp only [Block.fin]
      omega
    · have := (List.pairwise_cons.mp hfits.free_order).1 other hother
      simp only [Block.fin] at this ⊢
      omega
  obtain ⟨hbound, hsum⟩ := hfits.no_wrap hhigh hother hmem
  rw [merge_previous_eq hprev (h.free_header other hother).2 hbound hsum, if_neg (by omega)]

/-- The two merges of `kmem_free` turn the linked block into the released one. -/
theorem merges_spec (h : Holds memory head (front ++ block :: back) live)
    (hfits : Fits low high (front ++ block :: back) live) (hcoalesced : Coalesced (front ++ back))
    (hhigh : high < 2 ^ 64) :
    Holds (mergeNext (mergePrevious memory block.addr block.size).1
      (mergePrevious memory block.addr block.size).2) head (release block (front ++ back)) live := by
  have hsize : 64 ≤ block.size := hfits.free_size (by simp)
  obtain ⟨_, hblock, hcross⟩ := List.pairwise_append.mp hfits.free_order
  have hback : ∀ other ∈ back, block.addr < other.addr := by
    intro other hother
    have := (List.pairwise_cons.mp hblock).1 other hother
    simp only [Block.fin] at this
    omega
  rcases List.eq_nil_or_concat' front with rfl | ⟨rest, before, rfl⟩
  · rw [merge_previous_first h hfits hhigh, List.nil_append, release_of_first hback]
    have hall : Holds memory head ([] ++ block :: back) live := h
    exact merge_next_spec hall hfits hhigh
  · simp only [List.append_assoc, List.singleton_append] at h hfits hcoalesced
    have hfront : ∀ other ∈ rest ++ [before], other.addr < block.addr := by
      intro other hother
      have hlarge : 64 ≤ other.size := hfits.free_size (by
        simp only [List.mem_append, List.mem_cons] at hother ⊢
        tauto)
      have := hcross other hother block (by simp)
      simp only [Block.fin] at this
      omega
    have horder : ∀ other ∈ rest, other.fin < before.addr := fun other hother =>
      (List.pairwise_append.mp hcoalesced).2.2 other hother before (by simp)
    have hbefore : before ∈ rest ++ before :: block :: back := by simp
    obtain ⟨hbound, hsum⟩ := hfits.no_wrap hhigh hbefore (by simp : block ∈ _)
    rw [List.append_assoc, List.singleton_append, release_append hfront horder hback,
      merge_previous_eq h.prev_node (h.free_header before hbefore).2 hbound hsum]
    split
    · next htouch =>
      exact merge_next_spec (h.join hfits (hsum htouch))
        (hfits.join (by rw [kmemMinFreeBlockSize_eq]; decide) htouch) hhigh
    · have hmoved : Holds memory head ((rest ++ [before]) ++ block :: back) live := by
        simpa using h
      have hplace : Fits low high ((rest ++ [before]) ++ block :: back) live := by
        simpa using hfits
      simpa using merge_next_spec hmoved hplace hhigh

/-! ## The whole release -/

/-- The free header of a freed block goes where its used header was, and the block has a place in the
free list. -/
theorem Holds.freed_header {before after : List Block}
    (h : Holds memory head free (before ++ block :: after))
    (hfits : Fits low high free (before ++ block :: after)) (hhigh : high < 2 ^ 64) :
    let written := freedHeader memory block.addr block.size
    ∃ front back, free = front ++ back ∧ Fits low high (front ++ block :: back) (before ++ after) ∧
      Holds written head (front ++ back) (before ++ after) ∧ FreeHeader written block ∧
      Ring written [listNode block.addr] := by
  have hmem : block ∈ before ++ block :: after := by simp
  have hsize := hfits.live_size hmem
  have hinside := hfits.live_inside block hmem
  have hkeep : ∀ other ∈ before ++ after, other ∈ before ++ block :: after :=
    fun _ hother => mem_middle.mpr (.inr hother)
  obtain ⟨front, back, rfl, hfront, hback⟩ :=
    exists_split hfits.free_order (fun other ho => hfits.live_free block hmem other ho)
  have hdropped : Holds memory head (front ++ back) (before ++ after) :=
    ⟨h.list, h.free_header, fun other ho => h.live_header other (hkeep other ho)⟩
  simp only [Block.fin] at hinside
  have hfree : ∀ other ∈ front ++ back,
      block.addr + 32 ≤ other.addr ∨ other.addr + 32 ≤ block.addr := by
    intro other hother
    have hdisjoint := hfits.live_free block hmem other hother
    have := hfits.free_size hother
    simp only [Block.Disjoint, Block.fin] at hdisjoint
    omega
  have hlive : ∀ other ∈ before ++ after,
      block.addr + 32 ≤ other.addr ∨ other.addr + 16 ≤ block.addr := by
    intro other hother
    have hmiddle := (List.pairwise_middle Block.Disjoint.symm).mp hfits.live_disjoint
    have hdisjoint := (List.pairwise_cons.mp hmiddle).1 other hother
    have := hfits.live_size (hkeep other hother)
    simp only [Block.Disjoint, Block.fin] at hdisjoint
    omega
  exact ⟨front, back, rfl, hfits.insert hfront hback,
    hdropped.write_header hfree hlive block.size, freed_header_spec memory (by omega) (by omega)⟩

/-- What `kmem_free` does with a pointer whose header would lie in the heap. -/
theorem kmem_free_eq {heap : Heap} {address : Nat} (hlow : heap.start ≤ address)
    (hbelow : address + usedBlockBytes ≤ heap.start + heap.size)
    (hhigh : heap.start + heap.size < 2 ^ 64) :
    kmemFree heap (address + usedBlockBytes) =
      if blockMagic heap.memory address ≠ kmemBlockMagic then some heap
      else
        let size := usedSize heap.memory address
        (insertFree { heap with memory := freedHeader heap.memory address size }
          (address + usedBlockBytes) address).map fun linked =>
            let merged := mergePrevious linked.memory address size
            { linked with memory := mergeNext merged.1 merged.2 } := by
  simp only [usedBlockBytes] at hbelow
  have hptr : sub64 (address + usedBlockBytes) usedBlockBytes = address := by
    rw [sub64_of_le (Nat.le_add_left _ _) (by simp only [usedBlockBytes]; omega),
      Nat.add_sub_cancel]
  have hrange : ¬ (address < heap.start ∨ address > u64 (heap.start + heap.size)) := by
    rw [u64, Nat.mod_eq_of_lt hhigh]
    omega
  unfold kmemFree
  rw [if_neg (by simp [usedBlockBytes])]
  simp only [hptr, if_neg hrange, Option.map_eq_bind]
  rfl

/-- Freeing a live pointer comes to an end, and releases its block. -/
theorem kmem_free_spec {heap : Heap} {before after : List Block}
    (h : Holds heap.memory heap.freeList free (before ++ block :: after))
    (hfits : Fits heap.start (heap.start + heap.size) free (before ++ block :: after))
    (hcoalesced : Coalesced free) (hhigh : heap.start + heap.size < 2 ^ 64) :
    ∃ head memory,
      kmemFree heap (block.addr + usedBlockBytes) =
        some { heap with freeList := head, memory := memory } ∧
      Holds memory head (release block free) (before ++ after) := by
  have hmem : block ∈ before ++ block :: after := by simp
  have hsize := hfits.live_size hmem
  have hinside := hfits.live_inside block hmem
  simp only [Block.fin] at hinside
  obtain ⟨hmagic, hused⟩ := h.live_header block hmem
  obtain ⟨front, back, rfl, hplaced, hwritten, hheader, hself⟩ := h.freed_header hfits hhigh
  generalize hmemory : freedHeader heap.memory block.addr block.size = written at hwritten hheader hself
  let header : Heap := { heap with memory := written }
  have hheap : Holds header.memory header.freeList (front ++ back) (before ++ after) := hwritten
  obtain ⟨head, memory, hinsert, hlinked⟩ := insert_free_spec hheap hheader hself hplaced hhigh
  refine ⟨head, _, ?_, merges_spec hlinked hplaced hcoalesced hhigh⟩
  have hbelow : block.addr + usedBlockBytes ≤ heap.start + heap.size := by
    simp only [usedBlockBytes]
    omega
  rw [kmem_free_eq hinside.1 hbelow hhigh, if_neg (not_not.mpr hmagic)]
  simp only [hused, hmemory]
  show (insertFree header (block.addr + usedBlockBytes) block.addr).map _ = _
  rw [hinsert]
  rfl

end Otrix.Kmem
