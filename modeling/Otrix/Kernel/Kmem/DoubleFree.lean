import Otrix.Kernel.Kmem.Accounting

/-!
# Freeing a pointer twice

`kmem_free` recognises a block by its magic word. A free block has the same magic word as
a used one, so a pointer that is freed again right away is taken for a live one, and the
links of the free block are taken for its size (`Ignored` fails). The same happens when
the bytes of the header are still there inside a larger free block, or in bytes that the
heap has lost: they are linked into the free list, or merged with the free block in front.
The release is ignored when the magic word is gone, and in two cases more (`Rejected`).
-/

namespace Otrix.Kmem

open Blocks Bytes Linked Machine

variable {memory : Mem} {head ptr : Nat} {session : Session}
  {free live front back : List Block} {block : Block}

/-- Freeing the pointer comes to an end and leaves the heap descriptor, the headers of the free list and
the live blocks as they are. -/
def Ignored (session : Session) (free : List Block) (ptr : Nat) : Prop :=
  ∃ after, kmemFree session.heap ptr = some after ∧ after.start = session.heap.start ∧
    after.size = session.heap.size ∧ after.freeList = session.heap.freeList ∧
    (∀ block ∈ free, ∀ address, block.addr ≤ address → address < block.addr + freeBlockBytes →
      after.memory.byte address = session.heap.memory.byte address) ∧
    ∀ other ∈ session.live, ∀ address, (liveBlock session.heap.memory other).Contains address →
      after.memory.byte address = session.heap.memory.byte address

theorem Ignored.of_eq (h : kmemFree session.heap ptr = some session.heap) :
    Ignored session free ptr :=
  ⟨session.heap, h, rfl, rfl, rfl, fun _ _ _ _ _ => rfl, fun _ _ _ _ => rfl⟩

/-- The links and the size of a free block are as they were. -/
theorem Ignored.header {after : Heap} (h : Ignored session free ptr)
    (hfree : kmemFree session.heap ptr = some after) (hblock : block ∈ free) :
    next after.memory (listNode block.addr) = next session.heap.memory (listNode block.addr) ∧
      freeSize after.memory block.addr = freeSize session.heap.memory block.addr := by
  obtain ⟨_, hresult, _, _, _, hheaders, _⟩ := h
  cases hfree.symm.trans hresult
  refine ⟨Mem.load_congr fun a hlow hhigh => ?_, Mem.load_congr fun a hlow hhigh => ?_⟩
  · simp only [listNode] at hlow hhigh
    exact hheaders block hblock a (by omega) (by simp only [freeBlockBytes]; omega)
  · exact hheaders block hblock a (by omega) (by simp only [freeBlockBytes]; omega)

/-! ## The header of a block that is free already -/

/-- The scan does not get past a node that is linked to itself. -/
theorem find_before_loop {node : Nat} (hself : next memory node = node) (hne : node ≠ head)
    (hle : kmemFreeBlockPtr node ≤ ptr) (fuel pPrev : Nat) :
    findBefore memory head ptr fuel node pPrev = none := by
  induction fuel generalizing pPrev with
  | zero => rfl
  | succ fuel ih => rw [find_before_next hle, hself, if_neg hne, ih]

/-- The scan reaches a block behind the head, which is linked to itself. -/
theorem find_before_lost {updated : Mem} {fuel : Nat}
    (h : Holds memory head (front ++ block :: back) live) (hne : front ≠ [])
    (hkeep : ∀ other ∈ front,
      next updated (listNode other.addr) = next memory (listNode other.addr))
    (hself : next updated (listNode block.addr) = listNode block.addr)
    (hfront : ∀ other ∈ front, other.addr ≤ ptr) (hblock : block.addr ≤ ptr)
    (hfuel : (front ++ block :: back).length ≤ fuel) : findBefore updated head ptr fuel head 0 = none := by
  obtain ⟨k, rfl⟩ : ∃ k, fuel = k + front.length :=
    ⟨fuel - front.length, by simp at hfuel; omega⟩
  have hall : Holds memory head ([] ++ (front ++ block :: back)) live := h
  have hpass := find_before_pass k 0 hall (List.cons_ne_nil _ _) hkeep hfront
  rw [h.first_node] at hpass
  rw [hpass]
  exact find_before_loop hself (h.head_iff.not.mpr hne)
    (by simpa [kmemFreeBlockPtr, listNode] using hblock) k _

/-- Writing the header that is there changes nothing. -/
theorem freed_header_self (hheader : FreeHeader memory block)
    (hself : Ring memory [listNode block.addr]) :
    freedHeader memory block.addr block.size = memory := by
  obtain ⟨hnext, hprev⟩ := hself.link_self
  show Mem.store (Mem.store (Mem.store (Mem.store memory (listNode block.addr + 8)
    (listNode block.addr) 8) (listNode block.addr) (listNode block.addr) 8) (block.addr + 24)
    block.size 8) block.addr kmemBlockMagic 8 = memory
  rw [Mem.store_of_load hprev, Mem.store_of_load hnext, Mem.store_of_load hheader.2,
    Mem.store_of_load hheader.1]

/-- A node that is linked to itself is inserted behind itself: nothing changes. -/
theorem insert_self_eq {node : Nat} (hnext : next memory node = node)
    (hprev : prev memory node = node) :
    intrusiveListInsert memory node node = memory := by
  have hsetNext : setNext memory node node = memory := Mem.store_of_load hnext
  have hsetPrev : setPrev memory node node = memory := Mem.store_of_load hprev
  simp only [intrusiveListInsert, hnext, hsetNext, hsetPrev, ite_self]

/-- A block that is linked to itself is not merged with itself. -/
theorem merge_self_eq {address size : Nat}
    (hnext : next memory (listNode address) = listNode address)
    (hprev : prev memory (listNode address) = listNode address)
    (hsize : freeSize memory address = size) (hpositive : 0 < size) (hbound : size < 2 ^ 64) :
    mergePrevious memory address size = (memory, address) ∧ mergeNext memory address = memory := by
  have hapart : ¬ u64 (address + size) = address := by
    unfold u64
    omega
  simp only [mergePrevious, mergeNext, hnext, hprev, block_of_list_node, hsize, if_neg hapart,
    and_self]

theorem Holds.node_storable (h : Holds memory head free live) (hblock : block ∈ free) :
    listNode block.addr < 2 ^ 64 :=
  h.list.ring.storable _ (mem_nodesOf.mpr ⟨block, hblock, rfl⟩)

/-- A free block is freed again: its forward link is read as the size of a used block. -/
theorem Represents.freed_again (h : Represents session free live) (hblock : block ∈ free) :
    ∃ size written, next session.heap.memory (listNode block.addr) = size ∧
      freedHeader session.heap.memory block.addr size = written ∧ 0 < size ∧ size < 2 ^ 64 ∧
      freeSize written block.addr = size ∧ Link written (listNode block.addr) (listNode block.addr) ∧
      kmemFree session.heap (block.addr + usedBlockBytes) =
        (insertFree { session.heap with memory := written } (block.addr + usedBlockBytes)
          block.addr).map fun linked =>
            let merged := mergePrevious linked.memory block.addr size
            { linked with memory := mergeNext merged.1 merged.2 } := by
  obtain ⟨other, hother, hnext⟩ := (h.holds.neighbours hblock).2
  have hbound := h.holds.node_storable hother
  have hinside := h.fits.free_inside block hblock
  have hlarge := h.fits.free_size hblock
  simp only [Block.fin] at hinside
  let freed : Block := ⟨block.addr, listNode other.addr⟩
  have haddr : block.addr + 8 < 2 ^ 64 := h.holds.node_storable hblock
  obtain ⟨hheader, hself⟩ := freed_header_spec session.heap.memory
    (show freed.size < 2 ^ 64 from hbound) (show freed.addr + 8 < 2 ^ 64 from haddr)
  refine ⟨_, _, hnext, rfl, Nat.succ_pos _, hbound, hheader.2, hself.link_self, ?_⟩
  rw [kmem_free_eq hinside.1 (by simp only [usedBlockBytes]; omega) h.bounded,
    if_neg (not_not.mpr (h.holds.free_header block hblock).1)]
  simp only [show usedSize session.heap.memory block.addr = listNode other.addr from hnext]

/-- The head of the free list is freed again: it becomes the whole list, and the link to its successor
becomes its size. -/
theorem Represents.free_head (h : Represents session (block :: back) live) :
    kmemFree session.heap (block.addr + usedBlockBytes) = some { session.heap with
      memory := freedHeader session.heap.memory block.addr
        (next session.heap.memory (listNode block.addr)) } := by
  obtain ⟨size, written, hnext, hwritten, hpositive, hbound, hsize, hlink, hfree⟩ :=
    h.freed_again List.mem_cons_self
  have hhead : session.heap.freeList = listNode block.addr := h.holds.list.head_eq
  have hnull : session.heap.freeList ≠ 0 := by simp [hhead, listNode]
  -- the scan comes back to the head at once
  have hfound : findBefore written session.heap.freeList (block.addr + usedBlockBytes)
      session.heap.size session.heap.freeList 0 = some (listNode block.addr) := by
    have hlength := h.fits.length_le
    obtain ⟨fuel, hfuel⟩ : ∃ k, session.heap.size = k + 1 :=
      Nat.exists_eq_succ_of_ne_zero (by rintro hnone; simp [hnone] at hlength)
    have hle : kmemFreeBlockPtr (listNode block.addr) ≤ block.addr + usedBlockBytes := by
      rw [block_of_list_node]
      exact Nat.le_add_right _ _
    rw [hfuel, hhead, find_before_next hle, if_pos hlink.1]
  have hinsert : insertFree { session.heap with memory := written } (block.addr + usedBlockBytes)
      block.addr = some { session.heap with memory := written } := by
    simp only [insertFree, if_pos hnull, hfound, Option.bind_eq_bind, Option.bind_some,
      insert_self_eq hlink.1 hlink.2]
    exact if_neg (by simp [listNode])
  obtain ⟨hprevious, hfollowing⟩ := merge_self_eq hlink.1 hlink.2 hsize hpositive hbound
  rw [hfree, hinsert, hnext, hwritten]
  simp only [Option.map_some, hprevious, hfollowing]

/-- A block behind the head is freed again: the scan does not come to an end. -/
theorem Represents.free_later (h : Represents session (front ++ block :: back) live)
    (hfront : front ≠ []) : kmemFree session.heap (block.addr + usedBlockBytes) = none := by
  obtain ⟨size, written, _, hwritten, _, _, _, hlink, hfree⟩ :=
    h.freed_again (show block ∈ front ++ block :: back by simp)
  have horder : ∀ other ∈ front, other.addr + 64 ≤ block.addr := by
    intro other hother
    have hfin := (List.pairwise_append.mp h.fits.free_order).2.2 other hother block (by simp)
    have hlarge := h.fits.free_size (List.mem_append_left _ hother)
    simp only [Block.fin] at hfin
    omega
  have hkeep : ∀ other ∈ front, next written (listNode other.addr) =
      next session.heap.memory (listNode other.addr) := by
    intro other hother
    have hle := horder other hother
    rw [← hwritten]
    refine Mem.load_congr fun a hlow hhigh => freed_header_byte _ _ _ (Or.inl ?_)
    simp only [listNode] at hhigh
    omega
  have hlost := find_before_lost h.holds hfront hkeep hlink.1
    (fun other hother => by have := horder other hother; omega) (Nat.le_add_right block.addr usedBlockBytes)
    h.fits.length_le
  rw [hfree]
  simp only [insertFree, if_pos h.holds.head_ne_null, hlost, Option.bind_eq_bind, Option.bind_none,
    Option.map_none]

/-- A free block that is freed again: that is ignored only if the block is the whole free list and its
size is the address of its own list node. -/
theorem Represents.ignored_free_iff (h : Represents session free live) (hblock : block ∈ free) :
    Ignored session free (block.addr + usedBlockBytes) ↔ free = [⟨block.addr, block.addr + 8⟩] := by
  obtain ⟨front, back, rfl⟩ := List.append_of_mem hblock
  cases front with
  | cons first front =>
    have hnone := h.free_later (List.cons_ne_nil first front)
    refine iff_of_false ?_ (by simp)
    rintro ⟨after, hfree, _⟩
    rw [hnone] at hfree
    cases hfree
  | nil =>
    have hresult := h.free_head
    have hheader := h.holds.free_header block hblock
    have hring : Ring session.heap.memory (listNode block.addr :: nodesOf back) := h.holds.list.ring
    constructor
    · intro hignored
      obtain ⟨hnext, hsize⟩ := hignored.header hresult hblock
      obtain ⟨size, written, rfl, rfl, _, _, hwritten, hself, _⟩ := h.freed_again hblock
      rw [hself.1] at hnext
      obtain rfl : back = [] := by simpa [nodesOf] using hring.rest_eq_nil hnext.symm
      have hsame : block.addr + 8 = block.size := by
        rw [← hheader.2, ← hsize, hwritten, ← hnext]
        rfl
      rw [hsame]
      rfl
    · intro hwhole
      obtain ⟨hsame, rfl⟩ : block = ⟨block.addr, block.addr + 8⟩ ∧ back = [] := by
        simpa using hwhole
      have hsize : next session.heap.memory (listNode block.addr) = block.size :=
        hring.link_self.1.trans (congrArg Block.size hsame).symm
      rw [hsize, freed_header_self hheader hring] at hresult
      exact Ignored.of_eq hresult

/-! ## A header inside the header of a free block -/

section

variable {address : Nat} (h : blockMagic memory address = kmemBlockMagic)
include h

/-- No byte of the magic word is zero. -/
theorem magic_byte_ne_zero {i : Nat} (hi : i < 8) : memory.byte (address + i) ≠ 0 := by
  have hbytes : ∀ i : Fin 8, UInt8.ofNat (kmemBlockMagic / 256 ^ (i : Nat)) ≠ 0 := by decide
  rw [Mem.byte_of_load _ _ hi, show memory.load address 8 = _ from h]
  exact hbytes ⟨i, hi⟩

/-- The magic word is not found behind the first byte of a free header: its bytes differ from each
other, and the last bytes of addresses and sizes are zero. -/
theorem no_magic_inside {offset : Nat}
    (hwords : ∀ i, 0 < i → i < 4 → memory.load (address + 8 * i) 8 < 2 ^ 56) (hpos : 0 < offset)
    (hlt : offset < 32) : blockMagic memory (address + offset) ≠ kmemBlockMagic := by
  intro hinside
  by_cases hmagic : offset < 8
  · have hbytes : ∀ i : Fin 8, 0 < (i : Nat) →
        UInt8.ofNat (kmemBlockMagic / 256 ^ (i : Nat)) ≠ UInt8.ofNat (kmemBlockMagic / 256 ^ 0) := by
      decide
    have hfirst := Mem.byte_of_load memory (address + offset) (show 0 < 8 by decide)
    rw [Nat.add_zero, Mem.byte_of_load _ _ hmagic, show memory.load address 8 = _ from h,
      show memory.load (address + offset) 8 = _ from hinside] at hfirst
    exact hbytes ⟨offset, hmagic⟩ hpos hfirst
  · have hlast := Mem.byte_of_load memory (address + 8 * (offset / 8)) (show 7 < 8 by decide)
    rw [Nat.div_eq_of_lt (show _ < 256 ^ 7 from hwords (offset / 8) (by omega) (by omega)),
      show address + 8 * (offset / 8) + 7 = address + offset + (8 * (offset / 8) + 7 - offset) by
        omega] at hlast
    exact magic_byte_ne_zero hinside (by omega) hlast

end

section

variable (h : Represents session free live) (hend : session.heap.start + session.heap.size < 2 ^ 56)
  (hblock : block ∈ free)
include h hend hblock

theorem Represents.node_lt : listNode block.addr < 2 ^ 56 := by
  have hinside := h.fits.free_inside block hblock
  have hsize := h.fits.free_size hblock
  simp only [Block.fin, listNode] at hinside ⊢
  omega

/-- The header of a free block in a heap below `2 ^ 56` has no other magic word in it. -/
theorem Represents.no_magic_in_header {address : Nat} (hlow : block.addr < address)
    (hhigh : address < block.addr + 32) :
    blockMagic session.heap.memory address ≠ kmemBlockMagic := by
  obtain ⟨hmagic, hsize⟩ := h.holds.free_header block hblock
  obtain ⟨⟨before, hbefore, hprev⟩, after, hafter, hnext⟩ := h.holds.neighbours hblock
  obtain ⟨offset, rfl⟩ := Nat.exists_eq_add_of_lt hlow
  refine no_magic_inside hmagic (fun i hpos hlt => ?_) (Nat.succ_pos offset) (by omega)
  obtain rfl | rfl | rfl : i = 1 ∨ i = 2 ∨ i = 3 := by omega
  · exact lt_of_eq_of_lt hnext (h.node_lt hend hafter)
  · exact lt_of_eq_of_lt hprev (h.node_lt hend hbefore)
  · have hinside := h.fits.free_inside block hblock
    rw [show session.heap.memory.load (block.addr + 8 * 3) 8 = block.size from hsize]
    simp only [Block.fin] at hinside
    omega

end

/-! ## A header behind those of the free blocks in front -/

section

variable {node before after : Nat} (hnext : next memory before = after) (hafter : after ≠ 0)
  (hbefore : before + 24 ≤ node) (hbehind : node + 16 ≤ after ∨ after + 16 ≤ node)
  (hdiff : before = after ∨ before + 24 ≤ after ∨ after + 16 ≤ before)
include hnext hafter

/-- Linking a node between two others writes the links of the three. -/
theorem insert_eq : intrusiveListInsert memory before node =
    setNext (setPrev (setPrev (setNext memory node after) after node) node before) before node := by
  have hstored : next (setNext memory node after) node = after :=
    next_setNext_self (hnext ▸ memory.load_lt _ 8)
  simp only [intrusiveListInsert, hnext, hstored, ne_eq, show ¬ after = null Mem from hafter,
    not_false_eq_true, if_true]

/-- A word apart from the links of the three. -/
theorem inserted_word {word : Nat} (hword : word + 8 ≤ node ∨ node + 16 ≤ word)
    (hfirst : word + 8 ≤ before ∨ before + 8 ≤ word) (hlast : word ≤ after ∨ after + 16 ≤ word) :
    (intrusiveListInsert memory before node).load word 8 = memory.load word 8 := by
  rw [insert_eq hnext hafter]
  refine (Mem.load_store_other hfirst).trans ?_
  refine (Mem.load_store_other (by omega)).trans ?_
  refine (Mem.load_store_other (by omega)).trans ?_
  exact Mem.load_store_other (by omega)

variable (hnode : node < 2 ^ 64)
include hbefore hbehind hdiff hnode

theorem insert_links : Link (intrusiveListInsert memory before node) before node ∧
    Link (intrusiveListInsert memory before node) node after := by
  have hfirst : before + 16 ≤ node ∨ node + 16 ≤ before := .inl (by omega)
  rw [insert_eq hnext hafter]
  refine ⟨⟨next_setNext_self hnode, ?_⟩, ?_, ?_⟩
  · rw [prev_setNext (.inr hfirst), prev_setPrev_self (show before < 2 ^ 64 by omega)]
  · rw [next_setNext_apart hfirst, next_setPrev_self, next_setPrev_apart hbehind.symm,
      next_setNext_self (hnext ▸ memory.load_lt _ 8)]
  · rw [prev_setNext (hdiff.imp_right (Or.imp_left (by omega))), prev_setPrev_apart hbehind,
      prev_setPrev_self hnode]

/-- A node that is linked behind a free block and unlinked again keeps the links that it got. Nothing
else changes but the size of the block, which is stored in between. -/
theorem unlink_insert_eq {target : Nat} (htarget : listNode target = before)
    (hprev : prev memory after = before) (value : Nat) :
    intrusiveListUnlinkNode (setFreeSize (intrusiveListInsert memory before node) target value) node =
      setFreeSize (setPrev (setNext memory node after) node before) target value := by
  obtain ⟨⟨_, hback⟩, hforward, _⟩ := insert_links hnext hafter hbefore hbehind hdiff hnode
  have hsize : target + 24 = before + 16 := htarget ▸ rfl
  have hprev' : prev (setFreeSize (intrusiveListInsert memory before node) target value) node =
      before := (Mem.load_store_other (.inr (by omega))).trans hback
  have hnext' : next (setFreeSize (intrusiveListInsert memory before node) target value) node =
      after := (Mem.load_store_other (.inr (by omega))).trans hforward
  rw [intrusive_list_unlink_node_stores (show node ≠ 0 by omega) (Mem.load_lt _ _ 8)
    (hprev'.symm ▸ .inr (.inl (by omega))), hprev', hnext', insert_eq hnext hafter]
  -- the links of the neighbours are stored as they were
  have hfirst : (Mem.store (Mem.store memory node after 8) (node + 8) before 8).load before 8 =
      after := by
    rw [Mem.load_store_other (.inl (by omega)),
      Mem.load_store_other (.inl (by omega))]
    exact hnext
  have hlast : (Mem.store (Mem.store memory node after 8) (node + 8) before 8).load (after + 8) 8 =
      before := by
    rw [Mem.load_store_other (by omega), Mem.load_store_other (by omega)]
    exact hprev
  show Mem.store (Mem.store (Mem.store (Mem.store (Mem.store (Mem.store (Mem.store memory node after 8)
    (after + 8) node 8) (node + 8) before 8) before node 8) (target + 24) value 8) before after 8)
    (after + 8) before 8 = _
  rw [Mem.store_comm _ (target + 24) value 8 before _ _ (.inr (by omega)),
    Mem.store_comm _ (target + 24) value 8 (after + 8) _ _ (by omega), Mem.store_store,
    Mem.store_comm _ (after + 8) node 8 _ _ _ (by omega),
    Mem.store_comm _ (after + 8) node 8 _ _ _ (by omega), Mem.store_store, Mem.store_of_load hfirst,
    Mem.store_of_load hlast]
  rfl

end

/-- The headers of two free blocks are far from each other. -/
theorem Represents.free_far (h : Represents session free live) (hblock : block ∈ free) {other : Block}
    (hother : other ∈ free) :
    other = block ∨ block.addr + 64 ≤ other.addr ∨ other.addr + 64 ≤ block.addr := by
  have hlarge := h.fits.free_size hblock
  have hlarge' := h.fits.free_size hother
  refine (h.fits.free_cases hother hblock).imp_right fun hdisjoint => ?_
  simp only [Block.Disjoint, Block.fin] at hdisjoint
  omega

/-- A free block is unlinked whose forward link may be overwritten. If the link is then as it was at
first, the other store has not hit a word of another free header either. -/
theorem Represents.unlinked_word (h : Represents session free live) {other : Block}
    (hblock : block ∈ free) (hother : other ∈ free) {resized : Mem} {before word : Nat}
    (hword : word = block.addr + 8 ∨ word = block.addr + 24)
    (hprev : prev resized (listNode other.addr) = before)
    (hbefore : before = listNode other.addr ∨ before + 16 ≤ listNode other.addr ∨
      listNode other.addr + 16 ≤ before)
    (hfirst : word + 8 ≤ before ∨ before + 8 ≤ word)
    (hself : other = block → word ≤ next resized (listNode other.addr) ∨
      next resized (listNode other.addr) + 16 ≤ word)
    (hsame : next (intrusiveListUnlinkNode resized (listNode other.addr)) (listNode other.addr) =
      next session.heap.memory (listNode other.addr)) :
    (intrusiveListUnlinkNode resized (listNode other.addr)).load word 8 = resized.load word 8 := by
  rw [intrusive_list_unlink_node_stores (Nat.succ_ne_zero _) (Mem.load_lt _ _ 8) (hprev.symm ▸ hbefore),
    hprev] at hsame ⊢
  have hlink : next (setNext resized before (next resized (listNode other.addr)))
      (listNode other.addr) = next resized (listNode other.addr) := by
    rcases hbefore with rfl | hapart
    · exact next_setNext_self (Mem.load_lt _ _ 8)
    · exact next_setNext_apart hapart
  generalize next resized (listNode other.addr) = after at *
  have hkept : word ≤ after ∨ after + 16 ≤ word := by
    by_contra hhit
    have hfar := (h.free_far hblock hother).resolve_left fun heq => hhit (hself heq)
    have hkept : next (setPrev (setNext resized before after) after before) (listNode other.addr) =
        after :=
      (Mem.load_store_other (by simp only [listNode]; omega)).trans hlink
    obtain ⟨third, hthird, hnext⟩ := (h.holds.neighbours hother).2
    have heq : after = third.addr + 8 := hkept.symm.trans (hsame.trans hnext)
    rcases h.free_far hblock hthird with rfl | hfar' <;> omega
  exact (Mem.load_store_other (by omega)).trans
    (Mem.load_store_other hfirst)

variable {address : Nat}

/-- The header that `kmem_free` has written for a block of no bytes, with other links. -/
theorem linked_header_spec (memory : Mem) {following previous : Nat} (haddr : address + 8 < 2 ^ 64)
    (hfollowing : following < 2 ^ 64) (hprevious : previous < 2 ^ 64) :
    let linked := setPrev (setNext (freedHeader memory address 0) (listNode address) following)
      (listNode address) previous
    (∀ a, a < address ∨ address + 32 ≤ a → linked.byte a = memory.byte a) ∧
      blockMagic linked address = kmemBlockMagic ∧ next linked (listNode address) = following ∧
      prev linked (listNode address) = previous ∧ freeSize linked address = 0 := by
  let header : Block := ⟨address, 0⟩
  obtain ⟨⟨hmagic, hsize⟩, _⟩ :=
    freed_header_spec memory (show header.size < 2 ^ 64 from Nat.two_pow_pos 64) haddr
  refine ⟨fun a ha => ?_, ?_, ?_, prev_setPrev_self hprevious, ?_⟩
  · rw [← freed_header_byte memory address 0 ha]
    show (Mem.store (Mem.store _ (address + 8) _ 8) (address + 8 + 8) _ 8).byte a = _
    rw [Mem.store_byte_outside (by omega), Mem.store_byte_outside (by omega)]
  · exact (Mem.load_store_other (by simp only [listNode]; omega)).trans
      ((Mem.load_store_other (by simp only [listNode]; omega)).trans hmagic)
  · rw [next_setPrev (.inl rfl), next_setNext_self hfollowing]
  · exact (Mem.load_store_other (by simp only [listNode]; omega)).trans
      ((Mem.load_store_other (by simp only [listNode]; omega)).trans hsize)

/-- The heap when `kmem_free` has written a free header in the place of a used one. -/
def writtenHeap (heap : Heap) (address : Nat) : Heap :=
  { heap with memory := freedHeader heap.memory address (usedSize heap.memory address) }

/-- A word outside of the header that is written. -/
theorem written_word {heap : Heap} {word : Nat} (hword : word + 8 ≤ address ∨ address + 32 ≤ word) :
    (writtenHeap heap address).memory.load word 8 = heap.memory.load word 8 :=
  Mem.load_congr fun a _ _ => freed_header_byte _ _ _ (by omega)

/-- A word outside of the header that is written and of a size that is stored. -/
theorem relinked_word {heap : Heap} {following previous target value word : Nat}
    (hword : word + 8 ≤ address ∨ address + 32 ≤ word)
    (hsize : word + 8 ≤ target + 24 ∨ target + 32 ≤ word) :
    (setFreeSize (setPrev (setNext (writtenHeap heap address).memory (listNode address) following)
      (listNode address) previous) target value).load word 8 = heap.memory.load word 8 := by
  refine (Mem.load_store_other (by omega)).trans ?_
  refine (Mem.load_store_other (by simp only [listNode]; omega)).trans ?_
  exact (Mem.load_store_other (by simp only [listNode]; omega)).trans (written_word hword)

/-- An address in the heap that `kmem_free` takes for the header of a used block. The free blocks in
front of the pointer have their headers in front of the address. -/
structure Mistaken (session : Session) (free live : List Block) (address : Nat) : Prop where
  represents : Represents session free live
  low : session.heap.start ≤ address
  below : address + usedBlockBytes ≤ session.heap.start + session.heap.size
  magic : blockMagic session.heap.memory address = kmemBlockMagic
  apart : ∀ other ∈ free, other.addr + 32 ≤ address ∨ address + 16 < other.addr

namespace Mistaken

section

variable (h : Mistaken session free live address)
include h

theorem addr_lt : address + 8 < 2 ^ 64 := by
  have hbelow := h.below
  have hbounded := h.represents.bounded
  simp only [usedBlockBytes] at hbelow
  omega

theorem kmem_free : kmemFree session.heap (address + usedBlockBytes) =
    (insertFree (writtenHeap session.heap address) (address + usedBlockBytes) address).map
      fun linked =>
        let merged := mergePrevious linked.memory address (usedSize session.heap.memory address)
        { linked with memory := mergeNext merged.1 merged.2 } := by
  rw [kmem_free_eq h.low h.below h.represents.bounded, if_neg (not_not.mpr h.magic)]
  rfl

/-- No free block starts in front of the pointer: the header becomes the head of the free list. -/
theorem not_ignored_first (hbehind : ∀ other ∈ free, address + usedBlockBytes < other.addr) :
    ¬ Ignored session free (address + usedBlockBytes) := by
  rintro ⟨after, hfree, _, _, hhead, _⟩
  rw [h.kmem_free] at hfree
  obtain ⟨linked, hinsert, rfl⟩ := Option.map_eq_some_iff.mp hfree
  have hholds := h.represents.holds
  have hlinked : linked.freeList = listNode address := by
    by_cases hnull : (writtenHeap session.heap address).freeList = 0
    · simp only [insertFree, hnull, ne_eq, not_true_eq_false, if_false, Option.some.injEq] at hinsert
      exact hinsert ▸ rfl
    · have hall : Holds session.heap.memory (writtenHeap session.heap address).freeList
          ([] ++ free) live := hholds
      have hfound : findBefore (writtenHeap session.heap address).memory _ _
          (writtenHeap session.heap address).size _ 0 = _ := find_before_spec hall
        (fun hnil => hnull (hholds.list.head_eq_null_iff.mpr (by rw [show free = [] from hnil]; rfl)))
        (by simp) (by simp) hbehind h.represents.fits.length_le
      simp only [insertFree, if_pos hnull, hfound, nodesOf_nil, List.getLastD_nil,
        Option.bind_eq_bind, Option.bind_some, if_true, Option.some.injEq] at hinsert
      exact hinsert ▸ rfl
  have hsame : session.heap.freeList = listNode address := hhead.symm.trans hlinked
  have hmem := hholds.list.head_mem (hsame ▸ Nat.succ_ne_zero _)
  obtain ⟨other, hother, heq⟩ := mem_nodesOf.mp hmem
  have hnode : listNode address = listNode other.addr := hsame.symm.trans heq
  have := h.apart other hother
  simp only [listNode] at hnode
  omega

end

variable (h : Mistaken session (front ++ block :: back) live address)
  (hfront : ∀ other ∈ front ++ [block], other.addr ≤ address + usedBlockBytes)
  (hback : ∀ other ∈ back, address + usedBlockBytes < other.addr)
include h hfront

theorem block_le : block.addr + 32 ≤ address := by
  have hle := hfront block (by simp)
  have := h.apart block (by simp)
  simp only [usedBlockBytes] at hle
  omega

include hback

/-- The header is linked behind the last free block in front of the pointer. If this block ends at the
header, it is unlinked again. -/
theorem exists_linked : ∃ other ∈ front ++ block :: back, ∃ linked : Mem,
    Link session.heap.memory (listNode block.addr) (listNode other.addr) ∧
    Link linked (listNode block.addr) (listNode address) ∧
    Link linked (listNode address) (listNode other.addr) ∧
    kmemFree session.heap (address + usedBlockBytes) = some { session.heap with
      memory :=
        if block.fin = address then
          mergeNext (setFreeSize (setPrev (setNext (writtenHeap session.heap address).memory
            (listNode address) (listNode other.addr)) (listNode address) (listNode block.addr)) block.addr
            (u64 (block.size + usedSize session.heap.memory address))) block.addr
        else mergeNext linked address } := by
  have hmem : block ∈ front ++ block :: back := by simp
  have hlength : (front ++ block :: back).length ≤ (writtenHeap session.heap address).size :=
    h.represents.fits.length_le
  have hholds : Holds session.heap.memory (writtenHeap session.heap address).freeList
      (front ++ block :: back) live := h.represents.holds
  have hkeep : ∀ other ∈ front ++ [block], next (writtenHeap session.heap address).memory
      (listNode other.addr) = next session.heap.memory (listNode other.addr) := by
    intro other hother
    have hle := hfront other hother
    have := h.apart other (List.append_cons .. ▸ List.mem_append_left _ hother)
    simp only [usedBlockBytes] at hle
    exact written_word (by simp only [listNode]; omega)
  rw [h.kmem_free, insert_free_behind hholds hkeep hlength hfront hback]
  have hfin : u64 (block.addr + block.size) = block.fin :=
    Nat.mod_eq_of_lt (Nat.lt_of_le_of_lt (h.represents.fits.free_inside block hmem).2
      h.represents.bounded)
  have hnode := h.addr_lt
  have hle := h.block_le hfront
  obtain ⟨hmember, hprev⟩ := hholds.list.ring.prev_next (mem_nodesOf.mpr ⟨block, hmem, rfl⟩)
  obtain ⟨other, hother, hnext⟩ := mem_nodesOf.mp hmember
  rw [hnext] at hprev
  have hapart := h.apart other hother
  have hforward : next (writtenHeap session.heap address).memory (listNode block.addr) =
      listNode other.addr := (hkeep block (by simp)).trans hnext
  have hbackward : prev (writtenHeap session.heap address).memory (listNode other.addr) =
      listNode block.addr := (written_word (by simp only [listNode]; omega)).trans hprev
  have hnull : listNode other.addr ≠ 0 := Nat.succ_ne_zero _
  have hbefore : listNode block.addr + 24 ≤ listNode address := by
    simp only [listNode]
    omega
  have hbehind : listNode address + 16 ≤ listNode other.addr ∨
      listNode other.addr + 16 ≤ listNode address := by
    simp only [listNode]
    omega
  have hdiff : listNode block.addr = listNode other.addr ∨
      listNode block.addr + 24 ≤ listNode other.addr ∨
      listNode other.addr + 16 ≤ listNode block.addr := by
    simp only [listNode]
    rcases h.represents.free_far hmem hother with rfl | hfar <;> omega
  obtain ⟨hfirst, hsecond⟩ := insert_links hforward hnull hbefore hbehind hdiff hnode
  refine ⟨other, hother, _, ⟨hnext, hprev⟩, hfirst, hsecond, ?_⟩
  have hsize : freeSize (intrusiveListInsert (writtenHeap session.heap address).memory
      (listNode block.addr) (listNode address)) block.addr = block.size :=
    (inserted_word hforward hnull (.inl (show block.addr + 24 + 8 ≤ address + 8 by omega))
      (.inr (show block.addr + 8 + 8 ≤ block.addr + 24 by omega))
      (by simp only [listNode] at hdiff ⊢; omega)).trans
      ((written_word (.inl (by omega))).trans (hholds.free_header block hmem).2)
  simp only [Option.map_some, mergePrevious, hfirst.2, block_of_list_node, hsize, hfin]
  split
  · rw [unlink_insert_eq hforward hnull hbefore hbehind hdiff hnode rfl hbackward]
    rfl
  · rfl

/-- The last free block in front of the pointer does not end at the header: it is linked to it. -/
theorem not_ignored_gap (hgap : block.fin ≠ address) :
    ¬ Ignored session (front ++ block :: back) (address + usedBlockBytes) := by
  intro hignored
  have hmem : block ∈ front ++ block :: back := by simp
  have hle := h.block_le hfront
  obtain ⟨other, hother, linked, ⟨hnext, _⟩, ⟨hlink, _⟩, ⟨hforward, hbackward⟩, hfree⟩ :=
    h.exists_linked hfront hback
  have hapart := h.apart other hother
  simp only [if_neg hgap, mergeNext, hforward, block_of_list_node] at hfree
  have hsame : listNode address = next session.heap.memory (listNode block.addr) := by
    obtain ⟨hblock, _⟩ := hignored.header hfree hmem
    obtain ⟨hlast, _⟩ := hignored.header hfree hother
    by_cases hmerged : u64 (address + freeSize linked address) = other.addr
    · simp only [if_pos hmerged] at hblock hlast
      generalize u64 (freeSize linked address + freeSize linked other.addr) = value at hblock hlast
      have hresized : ∀ word, word + 8 ≤ address ∨ address + 32 ≤ word →
          (setFreeSize linked address value).load word 8 = linked.load word 8 := fun word hword =>
        Mem.load_store_other (by omega)
      have hlink' : next (setFreeSize linked address value) (listNode block.addr) = listNode address :=
        (hresized _ (by simp only [listNode]; omega)).trans hlink
      have hback' : prev (setFreeSize linked address value) (listNode other.addr) = listNode address :=
        (hresized _ (by simp only [listNode]; omega)).trans hbackward
      have hkept := h.represents.unlinked_word hmem hother (.inl rfl) hback'
        (by simp only [listNode]; omega) (by simp only [listNode]; omega) (by
          rintro rfl
          rw [hlink']
          simp only [listNode]
          omega) hlast
      exact (hkept.trans hlink').symm.trans hblock
    · simp only [if_neg hmerged] at hblock
      exact hlink.symm.trans hblock
  have hnode : listNode address = listNode other.addr := hsame.trans hnext
  simp only [listNode] at hnode
  omega

/-- The free block in front ends at the header, and the word that is taken for the size of the used
block is not zero: the free block gets another size. -/
theorem not_ignored_touching (htouch : block.fin = address)
    (hused : usedSize session.heap.memory address ≠ 0) :
    ¬ Ignored session (front ++ block :: back) (address + usedBlockBytes) := by
  intro hignored
  have hmem : block ∈ front ++ block :: back := by simp
  have hle := h.block_le hfront
  obtain ⟨other, hother, _, ⟨hnext, hprev⟩, _, _, hfree⟩ := h.exists_linked hfront hback
  have hfar : other.addr = block.addr ∨ block.addr + 64 ≤ other.addr ∨ other.addr + 64 ≤ block.addr :=
    (h.represents.free_far hmem hother).imp_left (congrArg Block.addr)
  have hapart := h.apart other hother
  have hword : usedSize session.heap.memory address < 2 ^ 64 := session.heap.memory.load_lt _ 8
  generalize usedSize session.heap.memory address = size at hfree hused hword
  generalize hvalue : u64 (block.size + size) = value at hfree
  generalize hmerged : setFreeSize (setPrev (setNext (writtenHeap session.heap address).memory
    (listNode address) (listNode other.addr)) (listNode address) (listNode block.addr)) block.addr
    value = merged at hfree
  have hnext' : next merged (listNode block.addr) = listNode other.addr := by
    rw [← hmerged]
    exact (relinked_word (by simp only [listNode]; omega) (by simp only [listNode]; omega)).trans hnext
  have hprev' : prev merged (listNode other.addr) = listNode block.addr := by
    rw [← hmerged]
    exact (relinked_word (by simp only [listNode]; omega) (by simp only [listNode]; omega)).trans hprev
  have hself : freeSize merged block.addr = value := by
    rw [← hmerged]
    exact (Mem.load_store_same _ _ _ _).trans (Nat.mod_eq_of_lt (hvalue ▸ Nat.mod_lt _ (by decide)))
  simp only [if_pos htouch, mergeNext, hnext', hself, block_of_list_node] at hfree
  obtain ⟨_, hsize⟩ := hignored.header hfree hmem
  obtain ⟨hlast, _⟩ := hignored.header hfree hother
  rw [(h.represents.holds.free_header block hmem).2] at hsize
  have hinside := h.represents.fits.free_inside block hmem
  have hlarge := h.represents.fits.free_size hmem
  have hbounded := h.represents.bounded
  simp only [Block.fin] at hinside htouch
  by_cases hjoined : u64 (block.addr + value) = other.addr
  · simp only [if_pos hjoined] at hsize hlast
    generalize hsum : u64 (value + freeSize merged other.addr) = sum at hsize hlast
    have hback' : prev (setFreeSize merged block.addr sum) (listNode other.addr) =
        listNode block.addr :=
      (Mem.load_store_other (by simp only [listNode]; omega)).trans hprev'
    have hkept := h.represents.unlinked_word hmem hother (.inr rfl) hback'
      (by simp only [listNode]; omega) (by simp only [listNode]; omega) (by
        rintro rfl
        rw [show next (setFreeSize merged other.addr sum) (listNode other.addr) = _ from
          (Mem.load_store_other (by simp only [listNode]; omega)).trans hnext']
        exact .inr (by simp only [listNode]; omega)) hlast
    have hstored : (setFreeSize merged block.addr sum).load (block.addr + 24) 8 = sum :=
      (Mem.load_store_same _ _ _ _).trans (Nat.mod_eq_of_lt (hsum ▸ Nat.mod_lt _ (by decide)))
    have hsame : sum = block.size := hstored.symm.trans (hkept.symm.trans hsize)
    simp only [u64] at hvalue hjoined hsum
    rcases h.represents.fits.free_cases hmem hother with rfl | hdisjoint
    · rw [hself] at hsum
      omega
    · -- the two blocks would have to end at one address
      simp only [Block.Disjoint, Block.fin] at hdisjoint
      have hinside' := h.represents.fits.free_inside other hother
      have hlarge' := h.represents.fits.free_size hother
      have hsecond : freeSize merged other.addr = other.size := by
        rw [← hmerged]
        exact (relinked_word (by omega) (by omega)).trans
          (h.represents.holds.free_header other hother).2
      simp only [Block.fin] at hinside'
      rw [hsecond] at hsum
      omega
  · simp only [if_neg hjoined, hself] at hsize
    simp only [u64] at hvalue
    omega

/-- The free block in front ends at the header, and the word that is taken for the size of the used
block is zero: the header is linked and unlinked again, and only its own bytes change. -/
theorem freed_nothing (htouch : block.fin = address)
    (hzero : usedSize session.heap.memory address = 0) :
    ∃ memory, kmemFree session.heap (address + usedBlockBytes) =
        some { session.heap with memory := memory } ∧
      (∀ a, a < address ∨ address + 32 ≤ a → memory.byte a = session.heap.memory.byte a) ∧
      blockMagic memory address = kmemBlockMagic ∧
      (session.heap.start + session.heap.size < 2 ^ 56 →
        ∀ i, 0 < i → i < 4 → memory.load (address + 8 * i) 8 < 2 ^ 56) := by
  have hmem : block ∈ front ++ block :: back := by simp
  have hle := h.block_le hfront
  have hholds := h.represents.holds
  obtain ⟨other, hother, _, ⟨hnext, _⟩, _, _, hfree⟩ := h.exists_linked hfront hback
  have hinside := h.represents.fits.free_inside block hmem
  have hfin : u64 (block.addr + block.size) = block.fin :=
    Nat.mod_eq_of_lt (Nat.lt_of_le_of_lt hinside.2 h.represents.bounded)
  have hword : u64 (block.size + 0) = block.size := by
    have hbounded := h.represents.bounded
    simp only [Block.fin] at hinside
    exact Nat.mod_eq_of_lt (by omega)
  obtain ⟨hbytes, hmagic, hfirst, hsecond, hsize⟩ := linked_header_spec session.heap.memory h.addr_lt
    (hholds.node_storable hother) (hholds.node_storable hmem)
  rw [if_pos htouch, writtenHeap, hzero, hword] at hfree
  generalize setPrev (setNext (freedHeader session.heap.memory address 0) (listNode address)
    (listNode other.addr)) (listNode address) (listNode block.addr) = after at *
  have hkept : freeSize after block.addr = block.size :=
    (Mem.load_congr fun a hlow hhigh => hbytes a (by omega)).trans (hholds.free_header block hmem).2
  -- the successor of the free block does not start at the header
  have hmerge : mergeNext after block.addr = after := by
    have hnode : next after (listNode block.addr) = listNode other.addr :=
      (Mem.load_congr fun a hlow hhigh => hbytes a (by simp only [listNode] at hhigh; omega)).trans
        hnext
    have := h.apart other hother
    simp only [mergeNext, hnode, hkept, block_of_list_node, hfin]
    exact if_neg (by omega)
  rw [show setFreeSize after block.addr block.size = after from Mem.store_of_load hkept, hmerge] at hfree
  refine ⟨after, hfree, hbytes, hmagic, fun hend i hpos hlt => ?_⟩
  obtain rfl | rfl | rfl : i = 1 ∨ i = 2 ∨ i = 3 := by omega
  · exact lt_of_eq_of_lt hfirst (h.represents.node_lt hend hother)
  · exact lt_of_eq_of_lt hsecond (h.represents.node_lt hend hmem)
  · exact lt_of_eq_of_lt hsize (by decide)

end Mistaken

/-! ## A pointer that was freed before -/

/-- A run keeps the representation and the bounds of the heap. -/
theorem Represents.run {events : List Event} {final : Session} (h : Represents session free live)
    (hrun : run Session.step session events = some final) :
    (∃ free' live', Represents final free' live') ∧ final.heap.start = session.heap.start ∧
      final.heap.size = session.heap.size := by
  refine run_invariant (fun state => (∃ free' live', Represents state free' live') ∧
    state.heap.start = session.heap.start ∧ state.heap.size = session.heap.size) ?_
    ⟨⟨free, live, h⟩, rfl, rfl⟩ hrun
  rintro state event next ⟨⟨free', live', hstate⟩, hstart, hsize⟩ hstep
  obtain ⟨_, _, _, hsame, hsame', hnext⟩ := hstate.step hstep
  exact ⟨⟨_, _, hnext⟩, hsame.trans hstart, hsame'.trans hsize⟩

/-- A pointer that was freed in a run: its header was in the heap. -/
theorem freed_pointer_inside {heapStart heapSize : Nat} {first rest : List Event}
    (hsize : freeBlockBytes ≤ heapSize) (hend : heapStart + heapSize < 2 ^ 64)
    (hrun : run Session.step (Session.initial memory heapStart heapSize)
      (first ++ .free ptr :: rest) = some session) :
    ∃ free live address, Represents session free live ∧ ptr = address + usedBlockBytes ∧
      session.heap.start ≤ address ∧ ptr ≤ session.heap.start + session.heap.size := by
  rw [run_append] at hrun
  obtain ⟨middle, hfirst, hrest⟩ := Option.bind_eq_some_iff.mp hrun
  obtain ⟨next, hstep, _⟩ := run_cons_eq_some.mp hrest
  have hptr : ptr ∈ middle.live := by
    simp only [Session.step, Option.ite_none_right_eq_some] at hstep
    exact hstep.1
  rcases reachable_cases hsize hend ⟨first, hfirst⟩ with ⟨free, live, h⟩ | ⟨rfl, _⟩
  · obtain ⟨⟨free', live', hfinal⟩, hstart, hsame⟩ := h.run hrest
    obtain ⟨block, hblock, rfl⟩ := List.mem_map.mp (h.pointers ▸ hptr)
    have hinside := h.fits.live_inside block hblock
    have hlarge := h.fits.live_size hblock
    simp only [Block.fin] at hinside
    refine ⟨free', live', block.addr, hfinal, rfl, by omega, ?_⟩
    simp only [usedBlockBytes]
    omega
  · exact absurd hptr List.not_mem_nil

/-- The free list has a last block in front of a pointer, or all blocks are behind it. -/
theorem exists_last_before (horder : free.Pairwise fun first second => first.fin ≤ second.addr)
    (ptr : Nat) : (∀ other ∈ free, ptr < other.addr) ∨ ∃ front block back,
      free = front ++ block :: back ∧ (∀ other ∈ front ++ [block], other.addr ≤ ptr) ∧
      ∀ other ∈ back, ptr < other.addr := by
  induction free with
  | nil => exact .inl (by simp)
  | cons first rest ih =>
    obtain ⟨hfirst, hrest⟩ := List.pairwise_cons.mp horder
    by_cases hle : first.addr ≤ ptr
    · rcases ih hrest with hbehind | ⟨front, block, back, rfl, hfront, hback⟩
      · exact .inr ⟨[], first, rest, rfl, by simpa using hle, hbehind⟩
      · exact .inr ⟨first :: front, block, back, rfl, List.forall_mem_cons.mpr ⟨hle, hfront⟩, hback⟩
    · refine .inl (List.forall_mem_cons.mpr ⟨by omega, fun other hother => ?_⟩)
      have := hfirst other hother
      simp only [Block.fin] at this
      omega

/-- What makes `kmem_free` leave the heap alone: the magic word of the header is gone; or the header is
that of the only free block, whose size is the address of its own list node; or the header lies right
behind a free block, with a zero behind the magic word, and no block starts in the bytes of a free header
there. -/
def Rejected (session : Session) (free : List Block) (address : Nat) : Prop :=
  blockMagic session.heap.memory address ≠ kmemBlockMagic ∨ free = [⟨address, address + 8⟩] ∨
    usedSize session.heap.memory address = 0 ∧ (∃ before ∈ free, before.fin = address) ∧
      ∀ other ∈ free ++ session.live.map (liveBlock session.heap.memory),
        address ≤ other.addr → address + freeBlockBytes ≤ other.addr

section

variable {address : Nat} (h : Represents session free live) (hlow : session.heap.start ≤ address)
  (hbelow : address + usedBlockBytes ≤ session.heap.start + session.heap.size)
include h hlow hbelow

/-- A header of size zero behind a free block, apart from the other blocks, is merged with the free block
in front. -/
theorem Represents.ignored_of_zero {before : Block} (hbefore : before ∈ free)
    (htouch : before.fin = address) (hmagic : blockMagic session.heap.memory address = kmemBlockMagic)
    (hzero : usedSize session.heap.memory address = 0)
    (hfree : ∀ other ∈ free, address ≤ other.addr → address + freeBlockBytes ≤ other.addr)
    (hlive : ∀ other ∈ live, address ≤ other.addr → address + freeBlockBytes ≤ other.addr) :
    Ignored session free (address + usedBlockBytes) := by
  have hlarge := h.fits.free_size hbefore
  have hapart : ∀ other ∈ free, other.addr + 32 ≤ address ∨ address + 32 ≤ other.addr := by
    intro other hother
    have hsize := h.fits.free_size hother
    have hclear := hfree other hother
    rcases h.fits.free_cases hother hbefore with rfl | hdisjoint
    · simp only [Block.fin] at htouch
      omega
    · simp only [Block.Disjoint, Block.fin, freeBlockBytes] at hdisjoint htouch hclear
      omega
  have hmistaken : Mistaken session free live address := ⟨h, hlow, hbelow, hmagic, fun other hother =>
    (hapart other hother).imp_right fun hle => by omega⟩
  simp only [Block.fin, freeBlockBytes] at htouch hfree hlive
  rcases exists_last_before h.fits.free_order (address + usedBlockBytes) with
    hfirst | ⟨front, block, back, rfl, hfront, hback⟩
  · have := hfirst before hbefore
    omega
  · -- the last free block in front of the pointer is the one that ends at the header
    obtain rfl : before = block := by
      have hle := hfront block (by simp)
      have hclear := hfree block (by simp)
      simp only [usedBlockBytes] at hle hback
      rcases List.mem_append.mp hbefore with hmem | hmem
      · have := (List.pairwise_append.mp h.fits.free_order).2.2 before hmem block (by simp)
        simp only [Block.fin] at this
        omega
      · refine (List.mem_cons.mp hmem).resolve_right fun hmem => ?_
        have := hback before hmem
        omega
    obtain ⟨memory, hfreed, hbytes, _⟩ := hmistaken.freed_nothing hfront hback htouch hzero
    refine ⟨_, hfreed, rfl, rfl, rfl, fun block hblock a hstart hstop => hbytes a ?_,
      fun ptr hptr a ha => hbytes a ?_⟩
    · have := hapart block hblock
      simp only [freeBlockBytes] at hstop
      omega
    · have hmem : liveBlock session.heap.memory ptr ∈ live := h.live_eq ▸ List.mem_map_of_mem hptr
      have hclear := hlive _ hmem
      have hdisjoint := h.fits.live_free _ hmem before hbefore
      simp only [Block.Disjoint, Block.Contains, Block.fin] at ha hdisjoint
      omega

theorem Represents.ignored_of_rejected (hrejected : Rejected session free address) :
    Ignored session free (address + usedBlockBytes) := by
  by_cases hmagic : blockMagic session.heap.memory address = kmemBlockMagic
  · rcases hrejected with hgone | hwhole | ⟨hzero, ⟨before, hbefore, htouch⟩, hclear⟩
    · exact absurd hmagic hgone
    · have hblock : (⟨address, address + 8⟩ : Block) ∈ free := by simp [hwhole]
      exact (h.ignored_free_iff hblock).mpr hwhole
    · rw [h.live_eq, List.forall_mem_append] at hclear
      exact h.ignored_of_zero hlow hbelow hbefore htouch hmagic hzero hclear.1 hclear.2
  · refine Ignored.of_eq ?_
    rw [kmem_free_eq hlow hbelow h.bounded, if_pos hmagic]

/-- A header that keeps its magic word lies behind the free headers in front, unless it is one of them.
It is linked into the free list or merged with the free block in front. -/
theorem Represents.rejected_of_ignored (hend : session.heap.start + session.heap.size < 2 ^ 56)
    (hbehind : ∀ other ∈ free, address < other.addr → address + usedBlockBytes < other.addr)
    (hignored : Ignored session free (address + usedBlockBytes)) :
    Rejected session free address := by
  by_contra hnot
  obtain ⟨hmagic, hwhole, hnothing⟩ : blockMagic session.heap.memory address = kmemBlockMagic ∧ _ ∧ _ := by
    simpa only [Rejected, h.live_eq, not_or, not_not] using hnot
  have hapart : ∀ other ∈ free, other.addr + 32 ≤ address ∨ address + 16 < other.addr := by
    intro other hother
    have := hbehind other hother
    simp only [usedBlockBytes] at this
    by_contra hnear
    rcases Nat.lt_trichotomy other.addr address with hlt | rfl | hgt
    · exact h.no_magic_in_header hend hother hlt (by omega) hmagic
    · exact hwhole ((h.ignored_free_iff hother).mp hignored)
    · omega
  have hmistaken : Mistaken session free live address := ⟨h, hlow, hbelow, hmagic, hapart⟩
  rcases exists_last_before h.fits.free_order (address + usedBlockBytes) with
    hfirst | ⟨front, block, back, rfl, hfront, hback⟩
  · exact hmistaken.not_ignored_first hfirst hignored
  · by_cases htouch : block.fin = address
    · by_cases hzero : usedSize session.heap.memory address = 0
      · obtain ⟨memory, hfreed, _, hkept, hwords⟩ := hmistaken.freed_nothing hfront hback htouch hzero
        obtain ⟨after, hafter, _, _, _, hheaders, hlive⟩ := hignored
        cases hfreed.symm.trans hafter
        -- the magic word of a block there would be overwritten
        have hclear : ∀ place, address < place → blockMagic memory place = kmemBlockMagic →
            address + freeBlockBytes ≤ place := by
          intro place hlt hplace
          by_contra hnear
          obtain ⟨offset, rfl⟩ := Nat.exists_eq_add_of_lt hlt
          simp only [freeBlockBytes] at hnear
          exact no_magic_inside hkept (hwords hend) (Nat.succ_pos offset) (by omega) hplace
        refine hnothing ⟨hzero, ⟨block, by simp, htouch⟩, List.forall_mem_append.mpr
          ⟨fun other hother hle => ?_, fun other hother hle => ?_⟩⟩
        · have := hapart other hother
          refine hclear _ (by omega) (Eq.trans ?_ (h.holds.free_header other hother).1)
          exact Mem.load_congr fun a hstart hstop =>
            hheaders other hother a hstart (by simp only [freeBlockBytes]; omega)
        · obtain ⟨hlabel, hsize⟩ := h.holds.live_header other hother
          have hlarge := h.fits.live_size hother
          rcases Nat.eq_or_lt_of_le hle with rfl | hlt
          · omega
          · obtain ⟨ptr, hptr, rfl⟩ := List.mem_map.mp (h.live_eq ▸ hother)
            refine hclear _ hlt (Eq.trans ?_ hlabel)
            refine Mem.load_congr fun a hstart hstop => hlive ptr hptr a ⟨hstart, ?_⟩
            simp only [Block.fin]
            omega
      · exact hmistaken.not_ignored_touching hfront hback htouch hzero hignored
    · exact hmistaken.not_ignored_gap hfront hback htouch hignored

end

/-- A pointer is freed that was freed before in the run. That is ignored if its header meets `Rejected`,
and only then, if no free block starts between the header and the pointer and the heap ends below
`2 ^ 56`. -/
theorem double_free_ignored (memory : Mem) (heapStart heapSize : Nat)
    (hsize : freeBlockBytes ≤ heapSize) (hend : heapStart + heapSize < 2 ^ 64)
    {first rest : List Event} {ptr : Nat} {session : Session}
    (hrun : run Session.step (Session.initial memory heapStart heapSize)
      (first ++ .free ptr :: rest) = some session) :
    ∃ free address, freeBlocks session.heap = some free ∧ ptr = address + usedBlockBytes ∧
      (Rejected session free address → Ignored session free ptr) ∧
      (session.heap.start + session.heap.size < 2 ^ 56 →
        (∀ block ∈ free, address < block.addr → ptr < block.addr) →
        (Ignored session free ptr ↔ Rejected session free address)) := by
  obtain ⟨free, live, address, h, rfl, hlow, hbelow⟩ := freed_pointer_inside hsize hend hrun
  have hsufficient := h.ignored_of_rejected hlow hbelow
  exact ⟨free, address, h.free_blocks, rfl, hsufficient, fun hhigh hbehind =>
    ⟨h.rejected_of_ignored hlow hbelow hhigh hbehind, hsufficient⟩⟩

/-- The pointer of a block whose bytes were given to another client, who has overwritten the magic word
and freed the memory, is freed again. -/
theorem double_free_ignored_overwritten : ∃ session,
    run Session.step (Session.initial ⟨fun _ => 0⟩ 4096 1024)
      ([.alloc 8, .alloc 8] ++ .free 4176 :: [.free 4112, .alloc 200, .write 4160 1, .free 4112]) =
      some session ∧ ∃ free, freeBlocks session.heap = some free ∧ Ignored session free 4176 := by
  refine exists_of_any (fun session => blockMagic session.heap.memory 4160 ≠ kmemBlockMagic)
    (by decide +kernel) fun session hrun hmagic => ?_
  obtain ⟨free, address, hfree, hptr, hrejected, _⟩ :=
    double_free_ignored ⟨fun _ => 0⟩ 4096 1024 (by decide) (by decide) hrun
  obtain rfl : 4160 = address :=
    Nat.add_right_cancel (show 4160 + usedBlockBytes = address + usedBlockBytes from hptr)
  exact ⟨free, hfree, hrejected (.inl hmagic)⟩

/-- The first of two blocks in a heap of 1024 bytes is freed twice. The free list then consists of the
first block, with the address of the next list node as its size, and so covers the second block, which is
live. In a heap of 256 bytes the third block is freed twice while the first is free as well: that does not
come to an end. -/
theorem double_free_corrupts :
    (∃ session after, run Session.step (Session.initial ⟨fun _ => 0⟩ 4096 1024)
        [.alloc 8, .alloc 8, .free 4112] = some session ∧
      session.live = [4176] ∧ freeBlocks session.heap = some [⟨4096, 64⟩, ⟨4224, 896⟩] ∧
      kmemFree session.heap 4112 = some after ∧ freeBlocks after = some [⟨4096, 4232⟩]) ∧
    (∃ session, run Session.step (Session.initial ⟨fun _ => 0⟩ 4096 256)
        [.alloc 8, .alloc 8, .alloc 8, .alloc 8, .free 4112, .free 4240] = some session ∧
      kmemFree session.heap 4240 = none) := by
  have hhead : (run Session.step (Session.initial ⟨fun _ => 0⟩ 4096 1024)
      [.alloc 8, .alloc 8, .free 4112]).map (fun session => (session.live, freeBlocks session.heap,
        (kmemFree session.heap 4112).map freeBlocks)) =
      some ([4176], some [⟨4096, 64⟩, ⟨4224, 896⟩], some (some [⟨4096, 4232⟩])) := by
    decide +kernel
  obtain ⟨session, hrun, heq⟩ := Option.map_eq_some_iff.mp hhead
  obtain ⟨hlive, heq⟩ := Prod.mk.inj heq
  obtain ⟨hblocks, heq⟩ := Prod.mk.inj heq
  obtain ⟨after, hfree, hafter⟩ := Option.map_eq_some_iff.mp heq
  refine ⟨⟨session, after, hrun, hlive, hblocks, hfree, hafter⟩, ?_⟩
  exact exists_of_any (fun session => (kmemFree session.heap 4240).isNone)
    (by decide +kernel) fun _ _ hnone => Option.isNone_iff_eq_none.mp hnone

end Otrix.Kmem
