import Otrix.Kernel.Kmem.Represents
import Mathlib.Data.List.Nodup

/-!
# Allocation refines first fit

`kmem_alloc_spec`: on a memory that represents the free and live blocks,
`kmemAlloc` comes to an end, fails exactly when `takeFirstFit` does, and
otherwise leaves a memory that represents the free blocks of `takeFirstFit` and
one more live block. The four ways in which `carve` edits the free list (head or
not, remainder kept or not) all end in the same two results: the block is
erased from the list, or replaced by its remainder.
-/

namespace Otrix.Kmem

open Linked Bytes Blocks

variable {memory : Mem} {head low high size : Nat} {free live front back : List Block}
  {block : Block}

/-- The geometry of blocks in a heap. Every block is large enough for a free header and two of
the headers that the allocator writes. -/
abbrev Fits (low high : Nat) (free live : List Block) : Prop :=
  Placed low high kmemMinFreeBlockSize free live

theorem Fits.free_cases (h : Fits low high free live) {first second : Block}
    (hfirst : first ∈ free) (hsecond : second ∈ free) :
    first = second ∨ first.Disjoint second := by
  have horder : free.Pairwise Block.Disjoint := h.free_order.imp Or.inl
  have : Std.Symm Block.Disjoint := ⟨fun _ _ => Block.Disjoint.symm⟩
  by_cases heq : first = second
  · exact Or.inl heq
  · exact Or.inr (horder.forall hfirst hsecond heq)

theorem Fits.free_others (h : Fits low high (front ++ block :: back) live) :
    ∀ other ∈ front ++ back, block.Disjoint other := by
  have horder : (front ++ block :: back).Pairwise Block.Disjoint := h.free_order.imp Or.inl
  exact (List.pairwise_cons.mp ((List.pairwise_middle Block.Disjoint.symm).mp horder)).1

theorem Fits.free_size (h : Fits low high free live) (hmem : block ∈ free) : 64 ≤ block.size := by
  have := h.free_large block hmem
  rwa [kmemMinFreeBlockSize_eq] at this

theorem Fits.live_size (h : Fits low high free live) (hmem : block ∈ live) : 64 ≤ block.size := by
  have := h.live_large block hmem
  rwa [kmemMinFreeBlockSize_eq] at this

/-- Live blocks that start at one address are the same. -/
theorem Fits.live_eq_of_addr (h : Fits low high free live) {first second : Block}
    (hfirst : first ∈ live) (hsecond : second ∈ live) (haddr : first.addr = second.addr) :
    first = second := by
  have : Std.Symm Block.Disjoint := ⟨fun _ _ => Block.Disjoint.symm⟩
  by_contra hne
  have hdisjoint := h.live_disjoint.forall hfirst hsecond hne
  have hsize := h.live_size hfirst
  have hsize' := h.live_size hsecond
  simp only [Block.Disjoint, Block.fin] at hdisjoint
  omega

/-- Links of a free block are not part of the header of any free block. -/
theorem Fits.unseen_free (h : Fits low high free live) {owner other : Block} (hblock : block ∈ free)
    (howner : owner ∈ free) (haddr : owner.addr = other.addr) :
    Unseen (fun memory : Mem => FreeHeader memory other) (listNode block.addr) := by
  have hsize := h.free_size hblock
  have hother := h.free_size howner
  apply unseen_free_header
  rcases h.free_cases hblock howner with rfl | hdisjoint
  · exact Or.inl haddr
  · simp only [Block.Disjoint, Block.fin] at hdisjoint
    omega

/-- Links of a free block are not part of the header of any live block. -/
theorem Fits.unseen_live (h : Fits low high free live) {other : Block} (hblock : block ∈ free)
    (hother : other ∈ live) :
    Unseen (fun memory : Mem => UsedHeader memory other) (listNode block.addr) := by
  have hsize := h.free_size hblock
  have hlarge := h.live_size hother
  have hdisjoint := h.live_free other hother block hblock
  apply unseen_used_header
  simp only [Block.Disjoint, Block.fin] at hdisjoint
  omega

/-- A memory that differs only in links of the blocks `touched` represents every list of blocks
whose headers are in place and start where touched blocks start. -/
theorem Holds.of_frame {updated : Mem} {first : Nat} {touched rest : List Block}
    (hfits : Fits low high touched live) (hlist : Queue updated first (nodesOf rest))
    (hfree : ∀ other ∈ rest, FreeHeader memory other)
    (hlive : ∀ other ∈ live, UsedHeader memory other)
    (hrest : ∀ other ∈ rest, ∃ owner ∈ touched, owner.addr = other.addr)
    (hframe : ∀ observe : Mem → Prop,
      (∀ owner ∈ touched, Unseen observe (listNode owner.addr)) →
      observe updated = observe memory) :
    Holds updated first rest live := by
  refine ⟨hlist, ?_, ?_⟩
  · intro other hother
    obtain ⟨owner, howner, haddr⟩ := hrest other hother
    rw [hframe (fun memory => FreeHeader memory other)
      (fun block hblock => hfits.unseen_free hblock howner haddr)]
    exact hfree other hother
  · intro other hother
    rw [hframe (fun memory => UsedHeader memory other)
      (fun block hblock => hfits.unseen_live hblock hother)]
    exact hlive other hother

/-- The node of a block that fits between the free blocks is apart from their nodes. -/
theorem Fits.fresh_node (h : Fits low high (front ++ block :: back) live) (hhigh : high < 2 ^ 64) :
    Storable Mem (listNode block.addr) ∧ listNode block.addr ≠ null Mem ∧
      ∀ node ∈ nodesOf (front ++ back), Apart Mem (listNode block.addr) node := by
  have hinside := h.free_inside block (by simp)
  have hsize : 64 ≤ block.size := h.free_size (by simp)
  refine ⟨?_, ?_, ?_⟩
  · show block.addr + 8 < 2 ^ 64
    simp only [Block.fin] at hinside
    omega
  · show block.addr + 8 ≠ 0
    omega
  · intro node hnode
    obtain ⟨other, hother, rfl⟩ := mem_nodesOf.mp hnode
    have hdisjoint := h.free_others other hother
    have hlarge : 64 ≤ other.size := h.free_size (mem_middle.mpr (.inr hother))
    simp only [Block.Disjoint, Block.fin] at hdisjoint
    show block.addr + 8 + 16 ≤ other.addr + 8 ∨ other.addr + 8 + 16 ≤ block.addr + 8
    omega

section

variable (h : Holds memory head (front ++ block :: back) live)
include h

theorem Holds.ring_at :
    Ring memory (listNode block.addr :: nodesOf (back ++ front)) := by
  have hring := h.list.ring
  rw [nodesOf_append, nodesOf_cons] at hring
  simpa using hring.rotate

theorem Holds.delete (hfits : Fits low high (front ++ block :: back) live) :
    Holds (intrusiveListDelete memory head (listNode block.addr)).1
      (intrusiveListDelete memory head (listNode block.addr)).2 (front ++ back) live := by
  have hqueue : Queue memory head (nodesOf front ++ listNode block.addr :: nodesOf back) := by
    simpa using h.list
  have hsub : ∀ other ∈ front ++ back, other ∈ front ++ block :: back :=
    fun _ hother => mem_middle.mpr (.inr hother)
  refine Holds.of_frame hfits ?_ (fun other ho => h.free_header other (hsub other ho))
    h.live_header (fun other ho => ⟨other, hsub other ho, rfl⟩) ?_
  · simpa using intrusive_list_delete_queue hqueue
  · intro observe hunseen
    refine intrusive_list_delete_unseen observe h.list (by simp) ?_
    intro node hnode
    obtain ⟨owner, howner, rfl⟩ := mem_nodesOf.mp hnode
    exact hunseen owner howner

/-- Unlinking the node of a free block from a free list of at least two blocks. -/
theorem Holds.unlink
    (hfits : Fits low high (front ++ block :: back) live) (hne : back ++ front ≠ []) :
    Ring (intrusiveListUnlinkNode memory (listNode block.addr)) (nodesOf (back ++ front)) ∧
    (∀ other ∈ front ++ block :: back,
      FreeHeader (intrusiveListUnlinkNode memory (listNode block.addr)) other) ∧
    ∀ other ∈ live, UsedHeader (intrusiveListUnlinkNode memory (listNode block.addr)) other := by
  have hmem : listNode block.addr ∈ nodesOf (front ++ block :: back) := by simp
  refine ⟨intrusive_list_unlink_node_ring h.ring_at (by simpa [nodesOf] using hne), ?_, ?_⟩
  · intro other hother
    rw [intrusive_list_unlink_node_unseen (fun memory => FreeHeader memory other) h.list.ring hmem]
    · exact h.free_header other hother
    · intro node hnode
      obtain ⟨owner, howner, rfl⟩ := mem_nodesOf.mp hnode
      exact hfits.unseen_free howner hother rfl
  · intro other hother
    rw [intrusive_list_unlink_node_unseen (fun memory => UsedHeader memory other) h.list.ring hmem]
    · exact h.live_header other hother
    · intro node hnode
      obtain ⟨owner, howner, rfl⟩ := mem_nodesOf.mp hnode
      exact hfits.unseen_live howner hother

/-- Replacing the node of a free block by the node of a block whose header was written elsewhere.
The new block takes the old one's position. -/
theorem Holds.replace {fresh : Block} (hfits : Fits low high (front ++ block :: back) live)
    (hfresh : Fits low high (front ++ fresh :: back) live) (hheader : FreeHeader memory fresh)
    (hapart : ∀ other ∈ front ++ block :: back,
      Unseen (fun memory : Mem => FreeHeader memory fresh) (listNode other.addr))
    (hhigh : high < 2 ^ 64) (hne : back ++ front ≠ []) :
    Holds (intrusiveListInsert (intrusiveListUnlinkNode memory (listNode block.addr))
        (prev memory (listNode block.addr)) (listNode fresh.addr))
      (if front = [] then listNode fresh.addr else head) (front ++ fresh :: back) live := by
  obtain ⟨hunlinked, hfreeHeader, hliveHeader⟩ := h.unlink hfits hne
  obtain ⟨hstorable, hnull, hnodes⟩ := hfresh.fresh_node hhigh
  have hothers : ∀ other ∈ back ++ front, other ∈ front ++ fresh :: back :=
    fun _ hother => mem_middle.mpr (.inr (List.perm_append_comm.mem_iff.mp hother))
  have hnil : nodesOf (back ++ front) ≠ [] := by simpa [nodesOf] using hne
  have hreplaced := intrusive_list_replace_ring h.ring_at hnil hstorable hnull
    (fun node hnode => hnodes node (by simpa [or_comm] using hnode))
  -- the insertion happens in the unlinked ring, behind the old predecessor
  have hprev := h.ring_at.prev_mem_rest hnil
  have hframe : ∀ {observe : Mem → Prop},
      (∀ other ∈ back ++ front, Unseen observe (listNode other.addr)) →
      Unseen observe (listNode fresh.addr) →
      observe (intrusiveListInsert (intrusiveListUnlinkNode memory (listNode block.addr))
        (prev memory (listNode block.addr)) (listNode fresh.addr)) =
      observe (intrusiveListUnlinkNode memory (listNode block.addr)) := by
    intro observe hold hnew
    refine intrusive_list_insert_unseen observe hunlinked hprev ?_ hnew
    intro node hnode
    obtain ⟨other, hother, rfl⟩ := mem_nodesOf.mp hnode
    exact hold other hother
  refine ⟨⟨?_, ?_⟩, ?_, ?_⟩
  · have hmoved := hreplaced
    rw [nodesOf_append, ← List.cons_append] at hmoved
    simpa using hmoved.rotate
  · cases front with
    | nil => simp
    | cons first front => simpa using h.list.head_eq
  · intro other hother
    by_cases heq : other = fresh
    · subst heq
      rw [hframe (fun owner howner => hfresh.unseen_free (hothers owner howner) (by simp) rfl)
        (hfresh.unseen_free (by simp) (by simp) rfl),
        intrusive_list_unlink_node_unseen (fun memory => FreeHeader memory other) h.list.ring
          (by simp)]
      · exact hheader
      · intro node hnode
        obtain ⟨owner, howner, rfl⟩ := mem_nodesOf.mp hnode
        exact hapart owner howner
    · rw [hframe (fun owner howner => hfresh.unseen_free (hothers owner howner) hother rfl)
        (hfresh.unseen_free (by simp) hother rfl)]
      refine hfreeHeader other ?_
      simp only [List.mem_append, List.mem_cons] at hother ⊢
      tauto
  · intro other hother
    rw [hframe (fun owner howner => hfresh.unseen_live (hothers owner howner) hother)
      (hfresh.unseen_live (by simp) hother)]
    exact hliveHeader other hother

/-! ## The first-fit scan -/

/-- The node behind the first block of a suffix of the free list: the next block's node, or the
head of the list. -/
theorem Holds.next_node :
    next memory (listNode block.addr) = (nodesOf back).headD head := by
  have hring := h.ring_at
  rw [nodesOf_append] at hring
  have hhead := h.list.head_eq
  cases back with
  | cons second back => exact hring.link_head.1
  | nil =>
    cases front with
    | nil =>
      simp only [nodesOf_nil, List.append_nil] at hring
      simp only [List.nil_append, nodesOf_cons, List.head?_cons, Option.getD_some] at hhead
      rw [hring.link_self.1, hhead]
      rfl
    | cons first front =>
      simp only [List.cons_append, nodesOf_cons, List.head?_cons, Option.getD_some] at hhead
      rw [hhead]
      exact hring.link_head.1

/-- Only the first block of the free list has the head as its node. -/
theorem Holds.head_iff :
    listNode block.addr = head ↔ front = [] := by
  have hhead := h.list.head_eq
  cases front with
  | nil => simpa using hhead.symm
  | cons first front =>
    simp only [List.cons_append, nodesOf_cons, List.head?_cons, Option.getD_some] at hhead
    have hnodup := h.list.ring.nodup
    simp only [List.cons_append, nodesOf_cons, nodesOf_append] at hnodup
    simp only [reduceCtorEq, iff_false]
    intro heq
    exact (List.nodup_cons.mp hnodup).1 (by simp [← hhead, ← heq])

theorem Holds.head_ne_null : head ≠ 0 := by
  intro hnull
  simpa using h.list.head_eq_null_iff.mp hnull

/-- A scan comes back to the head behind the last block. -/
theorem Holds.next_eq_head_iff : next memory (listNode block.addr) = head ↔ back = [] := by
  rw [h.next_node]
  cases back with
  | nil => simp
  | cons second back =>
    have hmoved : Holds memory head ((front ++ [block]) ++ second :: back) live := by simpa using h
    simpa using hmoved.head_iff

end

theorem Holds.first_node (h : Holds memory head free live) : (nodesOf free).headD head = head := by
  rw [h.list.head_eq]
  cases free with
  | nil => rfl
  | cons first rest => rfl

theorem find_fit_stop {fuel pFree : Nat} (hfit : size ≤ freeSize memory (kmemFreeBlockPtr pFree)) :
    findFit memory head size (fuel + 1) pFree = some pFree := by
  simp [findFit, hfit]

/-- A block that is too small moves the scan on, or ends it at the head. -/
theorem find_fit_next {fuel pFree : Nat}
    (hsmall : freeSize memory (kmemFreeBlockPtr pFree) < size) :
    findFit memory head size (fuel + 1) pFree =
      if next memory pFree = head then some head
      else findFit memory head size fuel (next memory pFree) := by
  simp only [findFit, Nat.not_le.mpr hsmall, if_false, ite_not]
  split
  · next heq => rw [heq]
  · rfl

/-- The scan stops at the first block that is large enough. -/
theorem find_fit_found {fuel : Nat} {skipped : List Block}
    (h : Holds memory head (skipped ++ (front ++ block :: back)) live)
    (hfront : ∀ other ∈ front, other.size < size) (hfit : size ≤ block.size)
    (hfuel : front.length < fuel) :
    findFit memory head size fuel ((nodesOf (front ++ block :: back)).headD head) =
      some (listNode block.addr) := by
  induction front generalizing fuel skipped with
  | nil =>
    obtain ⟨fuel, rfl⟩ : ∃ k, fuel = k + 1 := ⟨fuel - 1, by simp at hfuel; omega⟩
    have hheader := (h.free_header block (by simp)).2
    exact find_fit_stop (by simpa [kmemFreeBlockPtr, listNode, hheader] using hfit)
  | cons first front ih =>
    obtain ⟨fuel, rfl⟩ : ∃ k, fuel = k + 1 := ⟨fuel - 1, by simp at hfuel; omega⟩
    have hheader := (h.free_header first (by simp)).2
    have hmoved : Holds memory head ((skipped ++ [first]) ++ (front ++ block :: back)) live := by
      simpa using h
    have hnext : next memory (listNode first.addr) =
        (nodesOf (front ++ block :: back)).headD head := h.next_node
    have hdiff : next memory (listNode first.addr) ≠ head := h.next_eq_head_iff.not.mpr (by simp)
    show findFit memory head size (fuel + 1) (listNode first.addr) = _
    rw [find_fit_next (by
      have := hfront first (by simp)
      simpa [kmemFreeBlockPtr, listNode, hheader] using this), if_neg hdiff, hnext]
    exact ih hmoved (fun other ho => hfront other (by simp [ho])) (by simpa using hfuel)

/-- The scan comes back to the head when no block is large enough. -/
theorem find_fit_none {fuel : Nat} {skipped : List Block}
    (h : Holds memory head (skipped ++ block :: back) live)
    (hsmall : ∀ other ∈ block :: back, other.size < size) (hfuel : back.length < fuel) :
    findFit memory head size fuel (listNode block.addr) = some head := by
  induction back generalizing fuel skipped block with
  | nil =>
    obtain ⟨fuel, rfl⟩ : ∃ k, fuel = k + 1 := ⟨fuel - 1, by simp at hfuel; omega⟩
    have hheader := (h.free_header block (by simp)).2
    have hnext : next memory (listNode block.addr) = head := h.next_node
    rw [find_fit_next (by
      have := hsmall block (by simp)
      simpa [kmemFreeBlockPtr, listNode, hheader] using this), if_pos hnext]
  | cons second back ih =>
    obtain ⟨fuel, rfl⟩ : ∃ k, fuel = k + 1 := ⟨fuel - 1, by simp at hfuel; omega⟩
    have hheader := (h.free_header block (by simp)).2
    have hmoved : Holds memory head ((skipped ++ [block]) ++ second :: back) live := by
      simpa using h
    have hnext : next memory (listNode block.addr) = listNode second.addr := h.next_node
    rw [find_fit_next (by
      have := hsmall block (by simp)
      simpa [kmemFreeBlockPtr, listNode, hheader] using this),
      if_neg (h.next_eq_head_iff.not.mpr (by simp)), hnext]
    exact ih hmoved (fun other ho => hsmall other (by simp at ho ⊢; tauto)) (by simpa using hfuel)

/-! ## Carving -/

/-- The header of the remainder is outside every other header. -/
theorem Fits.remainder_apart (h : Fits low high (front ++ block :: back) live)
    (hneed : 64 ≤ size) (hkept : 64 ≤ block.size - size) :
    (∀ other ∈ front ++ block :: back,
      block.addr + size + 32 ≤ other.addr ∨ other.addr + 32 ≤ block.addr + size) ∧
    ∀ other ∈ live,
      block.addr + size + 32 ≤ other.addr ∨ other.addr + 16 ≤ block.addr + size := by
  constructor
  · intro other hother
    have hsize := h.free_size hother
    rcases h.free_cases hother (by simp : block ∈ front ++ block :: back) with rfl | hdisjoint
    · omega
    · simp only [Block.Disjoint, Block.fin] at hdisjoint
      omega
  · intro other hother
    have hdisjoint := h.live_free other hother block (by simp)
    have hsize := h.live_size hother
    simp only [Block.Disjoint, Block.fin] at hdisjoint
    omega

/-- `carve` writes the header of the remainder in two orders, with the same outcome. -/
theorem header_order (memory : Mem) (address value : Nat) :
    intrusiveListInit (setBlockMagic (setFreeSize memory address value) address kmemBlockMagic)
        (listNode address) =
      freedHeader memory address value := by
  show Mem.store (Mem.store (Mem.store (Mem.store memory (address + 24) value 8) address
      kmemBlockMagic 8) (address + 8 + 8) (address + 8) 8) (address + 8) (address + 8) 8 =
    Mem.store (Mem.store (Mem.store (Mem.store memory (address + 8 + 8) (address + 8) 8)
      (address + 8) (address + 8) 8) (address + 24) value 8) address kmemBlockMagic 8
  rw [Mem.store_comm _ address kmemBlockMagic 8 (address + 8 + 8) _ 8 (by omega),
    Mem.store_comm _ address kmemBlockMagic 8 (address + 8) _ 8 (by omega),
    Mem.store_comm _ (address + 24) value 8 (address + 8 + 8) _ 8 (by omega),
    Mem.store_comm _ (address + 24) value 8 (address + 8) _ 8 (by omega)]

/-- The remainder replaces the carved block in the free list. -/
theorem Holds.carve_remainder (h : Holds memory head (front ++ block :: back) live)
    (hfits : Fits low high (front ++ block :: back) live) (hhigh : high < 2 ^ 64)
    (hneed : 64 ≤ size) (hkept : kmemMinFreeBlockSize ≤ block.size - size) :
    let fresh : Block := ⟨block.addr + size, block.size - size⟩
    let written := freedHeader memory fresh.addr fresh.size
    prev written (listNode block.addr) = prev memory (listNode block.addr) ∧
    Holds (if prev memory (listNode block.addr) ≠ listNode block.addr then
        intrusiveListInsert (intrusiveListUnlinkNode written (listNode block.addr))
          (prev memory (listNode block.addr)) (listNode fresh.addr) else written)
      (if front = [] then listNode fresh.addr else head) (front ++ fresh :: back) live := by
  intro fresh written
  rw [kmemMinFreeBlockSize_eq] at hkept
  obtain ⟨hfree, hlive⟩ := hfits.remainder_apart hneed hkept
  have hinside := hfits.free_inside block (by simp)
  simp only [Block.fin] at hinside
  have hwritten : Holds written head (front ++ block :: back) live :=
    h.write_header hfree hlive fresh.size
  obtain ⟨hheader, hself⟩ : FreeHeader written fresh ∧ Ring written [listNode fresh.addr] :=
    freed_header_spec memory (by show block.size - size < 2 ^ 64; omega)
      (by show block.addr + size + 8 < 2 ^ 64; omega)
  have hprev : prev written (listNode block.addr) = prev memory (listNode block.addr) :=
    freed_header_prev memory fresh.size (by show block.addr + 24 ≤ block.addr + size; omega)
  refine ⟨hprev, ?_⟩
  have hremainder : remainder kmemMinFreeBlockSize size block = [fresh] := by
    simp only [remainder, kmemMinFreeBlockSize_eq, fresh]
    rw [if_neg (by omega)]
  have hfresh : Fits low high (front ++ fresh :: back) live := by
    have htaken := hfits.take (kmemMinFreeBlockSize_eq.trans_le hneed) (by omega : size ≤ block.size)
    rw [hremainder] at htaken
    exact htaken.of_live_cons
  by_cases hne : back ++ front = []
  · obtain ⟨rfl, rfl⟩ := List.append_eq_nil_iff.mp hne
    have hsingle : Ring memory [listNode block.addr] := by simpa using h.list.ring
    rw [if_neg (by simpa using hsingle.link_self.2)]
    refine ⟨?_, ?_, hwritten.live_header⟩
    · simpa using Queue.cons hself
    · intro other hother
      obtain rfl : other = fresh := by simpa using hother
      exact hheader
  · have hdiff : prev memory (listNode block.addr) ≠ listNode block.addr := by
      intro heq
      have hmem := h.ring_at.prev_mem_rest (by simpa [nodesOf] using hne)
      rw [heq] at hmem
      exact (List.nodup_cons.mp h.ring_at.nodup).1 hmem
    rw [if_pos hdiff, ← hprev]
    refine hwritten.replace hfits hfresh hheader ?_ hhigh hne
    intro other hother
    -- the links of the carved block itself lie in the part that is taken
    have hsize := hfits.free_size hother
    apply unseen_free_header
    rcases hfits.free_cases hother (by simp : block ∈ front ++ block :: back) with rfl | hdisjoint
    · show other.addr = other.addr + size ∨ other.addr + 24 ≤ other.addr + size ∨
        other.addr + size + 32 ≤ other.addr
      omega
    · simp only [Block.Disjoint, Block.fin, fresh] at hdisjoint ⊢
      omega

variable {heap : Heap}

/-- A remainder that is too small is not kept: the block leaves the free list. -/
theorem carve_drop {pFree : Nat}
    (hdrop : freeSize heap.memory (kmemFreeBlockPtr pFree) - size < kmemMinFreeBlockSize) :
    carve heap pFree size =
      { heap with
        memory := (intrusiveListDelete heap.memory heap.freeList pFree).1
        freeList := (intrusiveListDelete heap.memory heap.freeList pFree).2 } := by
  simp only [carve, hdrop, if_true, ite_self]

/-- A remainder that is kept gets a header, and its node replaces the carved block's. -/
theorem carve_keep {pFree block : Nat} (hblock : kmemFreeBlockPtr pFree = block)
    (hkept : ¬ freeSize heap.memory block - size < kmemMinFreeBlockSize)
    (hread : freeSize (intrusiveListInit heap.memory (listNode (u64 (block + size)))) block =
      freeSize heap.memory block)
    (hprev : prev (freedHeader heap.memory (u64 (block + size)) (freeSize heap.memory block - size))
      pFree = prev heap.memory pFree)
    (hself : pFree ≠ heap.freeList → prev heap.memory pFree ≠ pFree) :
    carve heap pFree size =
      { heap with
        memory :=
          let written :=
            freedHeader heap.memory (u64 (block + size)) (freeSize heap.memory block - size)
          if prev heap.memory pFree ≠ pFree then
            intrusiveListInsert (intrusiveListUnlinkNode written pFree) (prev heap.memory pFree)
              (listNode (u64 (block + size))) else written
        freeList :=
          if pFree = heap.freeList then listNode (u64 (block + size)) else heap.freeList } := by
  by_cases hhead : pFree = heap.freeList
  · simp only [carve, hblock, hkept, if_pos hhead, if_false, header_order, hprev]
  · simp only [carve, hblock, hkept, if_neg hhead, if_false, hread, if_pos (hself hhead), freedHeader]

/-- Carving leaves the free blocks of first fit, whichever way the list is edited. -/
theorem carve_spec
    (h : Holds heap.memory heap.freeList (front ++ block :: back) live)
    (hfits : Fits low high (front ++ block :: back) live) (hhigh : high < 2 ^ 64)
    (hneed : 64 ≤ size) (hfit : size ≤ block.size) :
    (carve heap (listNode block.addr) size).start = heap.start ∧
    (carve heap (listNode block.addr) size).size = heap.size ∧
    Holds (carve heap (listNode block.addr) size).memory
      (carve heap (listNode block.addr) size).freeList
      (front ++ (remainder kmemMinFreeBlockSize size block ++ back)) live := by
  have hheader : freeSize heap.memory block.addr = block.size := (h.free_header block (by simp)).2
  have hinside := hfits.free_inside block (by simp)
  simp only [Block.fin] at hinside
  by_cases hdrop : block.size - size < kmemMinFreeBlockSize
  · rw [carve_drop (by rwa [block_of_list_node, hheader])]
    simp only [remainder, hdrop, if_true, List.nil_append]
    exact ⟨trivial, trivial, h.delete hfits⟩
  · have hkept : kmemMinFreeBlockSize ≤ block.size - size := Nat.le_of_not_lt hdrop
    have hroom : 64 ≤ block.size - size := by rwa [kmemMinFreeBlockSize_eq] at hkept
    have hwrap : u64 (block.addr + size) = block.addr + size := Nat.mod_eq_of_lt (by omega)
    obtain ⟨hprev, hcarved⟩ := h.carve_remainder hfits hhigh hneed hkept
    have hread : freeSize (intrusiveListInit heap.memory (listNode (u64 (block.addr + size))))
        block.addr = freeSize heap.memory block.addr := by
      rw [hwrap]
      show (Mem.store (Mem.store heap.memory _ _ 8) _ _ 8).load (block.addr + 24) 8 = _
      simp only [listNode]
      rw [Mem.load_store_other (by omega), Mem.load_store_other (by omega)]
      rfl
    have hself : listNode block.addr ≠ heap.freeList →
        prev heap.memory (listNode block.addr) ≠ listNode block.addr := by
      intro hhead heq
      have hmem : listNode block.addr ∈ nodesOf (front ++ block :: back) := by simp
      have hnext := (h.list.ring.next_prev hmem).2
      rw [heq] at hnext
      exact hhead (h.list.ring.eq_of_next_self hmem hnext (h.list.head_mem h.head_ne_null)).symm
    rw [carve_keep (block_of_list_node _) (by rwa [hheader]) hread
      (by rw [hwrap, hheader]; exact hprev) hself]
    simp only [remainder, hdrop, if_false, List.cons_append, List.nil_append, hwrap, hheader,
      h.head_iff]
    exact ⟨trivial, trivial, hcarved⟩

/-- Writing a used header at the front of a range apart from all blocks makes it a live block. -/
theorem Holds.write_used (h : Holds memory head free live)
    (hfits : Fits low high free (block :: live)) (hhigh : high < 2 ^ 64) :
    Holds (setUsedSize (setBlockMagic memory block.addr kmemBlockMagic) block.addr block.size) head
      free (block :: live) := by
  have hsize : 64 ≤ block.size := hfits.live_size (by simp)
  have hinside := hfits.live_inside block (by simp)
  have hfree : ∀ other ∈ free, block.addr + 16 ≤ other.addr ∨ other.addr + 32 ≤ block.addr := by
    intro other hother
    have hdisjoint := hfits.live_free block (by simp) other hother
    have := hfits.free_size hother
    simp only [Block.Disjoint, Block.fin] at hdisjoint
    omega
  have hlive : ∀ other ∈ live, block.addr + 16 ≤ other.addr ∨ other.addr + 16 ≤ block.addr := by
    intro other hother
    have hdisjoint := (List.pairwise_cons.mp hfits.live_disjoint).1 other hother
    have := hfits.live_size (List.mem_cons_of_mem block hother)
    simp only [Block.Disjoint, Block.fin] at hdisjoint
    omega
  have hmagic := h.store block.addr kmemBlockMagic 8
    (fun other ho => by have := hfree other ho; omega)
    (fun other ho => by have := hlive other ho; omega)
  have hsized := hmagic.store (block.addr + 8) block.size 8
    (fun other ho => by have := hfree other ho; omega)
    (fun other ho => by have := hlive other ho; omega)
  refine ⟨hsized.list, hsized.free_header, ?_⟩
  intro other hother
  rcases List.mem_cons.mp hother with rfl | hother
  · simp only [Block.fin] at hinside
    refine ⟨?_, ?_⟩
    · show (Mem.store (Mem.store memory other.addr kmemBlockMagic 8) (other.addr + 8) other.size
        8).load other.addr 8 = kmemBlockMagic
      rw [Mem.load_store_other (by omega), Mem.load_store_same]
      decide
    · show (Mem.store _ (other.addr + 8) other.size 8).load (other.addr + 8) 8 = other.size
      rw [Mem.load_store_same, Nat.mod_eq_of_lt (by omega)]
  · exact hsized.live_header other hother

/-! ## The whole allocation -/

/-- The size that `kmem_alloc` looks for: the request and a header, but no less than the smallest
block. -/
def needOf (request : Nat) : Nat :=
  kmemAllocationSize (u64 (request + usedBlockBytes))

theorem le_needOf (request : Nat) : 64 ≤ needOf request := by
  unfold needOf kmemAllocationSize
  rw [kmemMinFreeBlockSize_eq]
  exact Nat.le_max_right _ _

/-- The free list is never longer than the fuel of the scans. -/
theorem Fits.length_le (h : Fits low (low + size) free live) : free.length ≤ size := by
  have hlength := length_le_of_order h.free_order h.free_inside (fun block hmem => by
    have := h.free_size hmem
    omega)
  omega

/-- An allocation that finds no block returns null and changes nothing. -/
theorem kmem_alloc_none {request : Nat}
    (h : Holds heap.memory heap.freeList free live) (hlength : free.length ≤ heap.size)
    (hsmall : ∀ block ∈ free, block.size < needOf request) :
    kmemAlloc heap request = some (heap, 0) := by
  unfold kmemAlloc
  by_cases hnull : heap.freeList = 0
  · rw [if_pos hnull]
  · rw [if_neg hnull]
    cases free with
    | nil => exact absurd (h.list.head_eq_null_iff.mpr rfl) hnull
    | cons first rest =>
      have hhead : listNode first.addr = heap.freeList := h.list.head_eq.symm
      have hall : Holds heap.memory heap.freeList ([] ++ first :: rest) live := h
      have hfound := find_fit_none hall hsmall hlength
      have hheader : freeSize heap.memory (kmemFreeBlockPtr heap.freeList) < needOf request := by
        rw [← hhead]
        have hsize := (h.free_header first (by simp)).2
        simpa [kmemFreeBlockPtr, listNode, hsize] using hsmall first (by simp)
      rw [hhead] at hfound
      show (findFit heap.memory heap.freeList (needOf request) heap.size heap.freeList).bind _ = _
      rw [hfound]
      exact if_pos hheader

/-- An allocation that finds a block returns its payload, and the bytes taken from the front of the
block become live. -/
theorem kmem_alloc_some {request : Nat}
    (h : Holds heap.memory heap.freeList (front ++ block :: back) live)
    (hfits : Fits heap.start (heap.start + heap.size) (front ++ block :: back) live)
    (hhigh : heap.start + heap.size < 2 ^ 64)
    (hfront : ∀ other ∈ front, other.size < needOf request) (hfit : needOf request ≤ block.size) :
    ∃ after, kmemAlloc heap request = some (after, block.addr + usedBlockBytes) ∧
      after.start = heap.start ∧ after.size = heap.size ∧
      Holds after.memory after.freeList
        (front ++ (remainder kmemMinFreeBlockSize (needOf request) block ++ back))
        (⟨block.addr, needOf request⟩ :: live) := by
  have hlength := hfits.length_le
  have hall : Holds heap.memory heap.freeList ([] ++ (front ++ block :: back)) live := h
  have hfuel : front.length < heap.size := by
    simp only [List.length_append, List.length_cons] at hlength
    omega
  have hfound := find_fit_found hall hfront hfit hfuel
  rw [h.first_node] at hfound
  have hheader : ¬ freeSize heap.memory block.addr < needOf request := by
    rw [(h.free_header block (by simp)).2]
    omega
  obtain ⟨hstart, hsize, hcarved⟩ := carve_spec h hfits hhigh (le_needOf request) hfit
  have htaken := hfits.take (kmemMinFreeBlockSize_eq.trans_le (le_needOf request)) hfit
  let carved := carve heap (listNode block.addr) (needOf request)
  let memory := setUsedSize (setBlockMagic carved.memory block.addr kmemBlockMagic) block.addr
    (needOf request)
  refine ⟨{ carved with memory }, ?_, hstart, hsize, hcarved.write_used htaken hhigh⟩
  unfold kmemAlloc
  rw [if_neg h.head_ne_null]
  show (findFit heap.memory heap.freeList (needOf request) heap.size heap.freeList).bind _ = _
  rw [hfound]
  simp only [Option.bind_some, block_of_list_node]
  exact if_neg hheader

end Otrix.Kmem
