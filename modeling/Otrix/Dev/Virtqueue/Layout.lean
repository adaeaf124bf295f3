import Otrix.Dev.Virtqueue.Model
import Otrix.Foundation.Run
import Otrix.Kernel.Kmem.FirstFit

/-!
# The memory of a virtqueue

`virtq_create` allocates one block for the descriptor table, the two rings and
the array of contexts. It computes the size of the block first, and the pointers
after it has aligned the address that it got. `virtqLayout` has both, and the
theorems say that they agree for every length of the queue and every block of
the address space, such as the blocks of the kernel's own allocator.

A queue length has 16 bits, so that the sizes do not wrap.
-/

namespace Otrix.Dev

open Blocks

/-- `sizeof(virtio_descriptor)`. -/
def virtioDescriptorBytes : Nat := 16

/-- `sizeof(virtio_ring_hdr)`. -/
def virtioRingHdrBytes : Nat := 4

/-- `sizeof(virtio_used_elem)`. -/
def virtioUsedElemBytes : Nat := 8

/-- `vq_align`, on 64-bit values. -/
def vqAlign (value : Nat) : Nat :=
  u64 (value + 4095) &&& (2 ^ 64 - 4096)

/-- `descriptor_table_size`. -/
def descriptorTableSize (queueLen : Nat) : Nat :=
  virtioDescriptorBytes * queueLen

/-- `available_ring_size`. -/
def availableRingSize (queueLen : Nat) : Nat :=
  virtioRingHdrBytes + 2 * queueLen

/-- `used_ring_size`. -/
def usedRingSize (queueLen : Nat) : Nat :=
  virtioRingHdrBytes + virtioUsedElemBytes * queueLen

/-- `virtq_size`. -/
def virtqSize (queueLen : Nat) : Nat :=
  vqAlign (descriptorTableSize queueLen + availableRingSize queueLen) + vqAlign (usedRingSize queueLen) +
    8 * queueLen

/-- `alloc_size`. -/
def virtqAllocSize (queueLen : Nat) : Nat :=
  virtqSize queueLen + 4095

/-- The pointers of a `virtq`. -/
structure VirtqLayout where
  descTable : Nat
  availRingHdr : Nat
  availRing : Nat
  usedRingHdr : Nat
  usedRing : Nat
  descCtx : Nat

/-- The part of `virtq_create` that sets the pointers. -/
def virtqLayout (queueLen allocatedMem : Nat) : VirtqLayout :=
  let descTable := vqAlign allocatedMem
  let availRingHdr := u64 (descTable + descriptorTableSize queueLen)
  let usedRingHdr := u64 (descTable +
    vqAlign (descriptorTableSize queueLen + availableRingSize queueLen))
  { descTable := descTable
    availRingHdr := availRingHdr
    availRing := u64 (availRingHdr + virtioRingHdrBytes)
    usedRingHdr := usedRingHdr
    usedRing := u64 (usedRingHdr + virtioRingHdrBytes)
    descCtx := u64 (usedRingHdr + vqAlign (usedRingSize queueLen)) }

namespace VirtqLayout

/-- The descriptor table, the available ring, the used ring and the array of contexts. -/
def parts (layout : VirtqLayout) (queueLen : Nat) : List Block :=
  [⟨layout.descTable, descriptorTableSize queueLen⟩, ⟨layout.availRingHdr, availableRingSize queueLen⟩,
    ⟨layout.usedRingHdr, usedRingSize queueLen⟩, ⟨layout.descCtx, 8 * queueLen⟩]

/-- The slot that `virtq_send_buffer` writes, `&avail_ring[avail_ring_hdr->idx % size]`. -/
def availSlot (layout : VirtqLayout) (vq : Virtq) : Block :=
  ⟨u64 (layout.availRing + 2 * vq.availIndex), 2⟩

/-- The slot that `handle_vq_irq` reads, `&used_ring[used_idx % size]`. -/
def usedSlot (layout : VirtqLayout) (vq : Virtq) : Block :=
  ⟨u64 (layout.usedRing + virtioUsedElemBytes * vq.usedIndex), virtioUsedElemBytes⟩

/-- The parts of the queue are disjoint and lie inside the block, where the device expects them. -/
structure Sound (layout : VirtqLayout) (queueLen allocatedMem : Nat) : Prop where
  disjoint : (layout.parts queueLen).Pairwise Block.Disjoint
  inside : ∀ part ∈ layout.parts queueLen,
    allocatedMem ≤ part.addr ∧ part.fin ≤ allocatedMem + virtqAllocSize queueLen
  table_aligned : 4096 ∣ layout.descTable
  used_aligned : 4096 ∣ layout.usedRingHdr

/-- The slots that the driver uses are elements of their arrays. -/
structure SlotsInside (layout : VirtqLayout) (queueLen : Nat) (vq : Virtq) : Prop where
  avail_index : vq.availIndex < queueLen
  used_index : vq.usedIndex < queueLen
  avail : layout.availRingHdr + virtioRingHdrBytes ≤ (layout.availSlot vq).addr ∧
    (layout.availSlot vq).fin ≤ layout.availRingHdr + availableRingSize queueLen
  used : layout.usedRingHdr + virtioRingHdrBytes ≤ (layout.usedSlot vq).addr ∧
    (layout.usedSlot vq).fin ≤ layout.usedRingHdr + usedRingSize queueLen

end VirtqLayout

/-! ## Alignment -/

/-- The mask of `vq_align` clears the twelve low bits. -/
theorem and_page_mask {value : Nat} (h : value < 2 ^ 64) :
    value &&& (2 ^ 64 - 4096) = value / 4096 * 4096 := by
  have hmask : (2 ^ 64 - 4096 : Nat) = (2 ^ 52 - 1) * 2 ^ 12 := by decide
  have hpage : (4096 : Nat) = 2 ^ 12 := by decide
  rw [hmask, hpage]
  refine Nat.eq_of_testBit_eq fun bit => ?_
  rw [Nat.testBit_and, Nat.testBit_mul_two_pow, Nat.testBit_mul_two_pow, Nat.testBit_two_pow_sub_one,
    Nat.testBit_div_two_pow]
  by_cases hlow : 12 ≤ bit
  · rw [Nat.sub_add_cancel hlow, decide_eq_true hlow, Bool.true_and, Bool.true_and]
    by_cases hhigh : bit < 64
    · rw [decide_eq_true (by omega), Bool.and_true]
    · have hclear : value.testBit bit = false :=
        Nat.testBit_lt_two_pow (Nat.lt_of_lt_of_le h (Nat.pow_le_pow_right (by decide) (by omega)))
      rw [hclear, Bool.false_and]
  · rw [decide_eq_false hlow, Bool.false_and, Bool.false_and, Bool.and_false]

/-- `vq_align` rounds up to the next page. -/
theorem vq_align_eq {value : Nat} (h : value + 4095 < 2 ^ 64) :
    vqAlign value = (value + 4095) / 4096 * 4096 := by
  rw [vqAlign, u64_of_lt h, and_page_mask h]

/-- The least multiple of the page size that is not below the value. -/
theorem vq_align_spec {value : Nat} (h : value + 4095 < 2 ^ 64) :
    4096 ∣ vqAlign value ∧ value ≤ vqAlign value ∧ vqAlign value < value + 4096 := by
  rw [vq_align_eq h]
  omega

/-! ## The layout -/

section

variable {queueLen allocatedMem : Nat}

/-- Even the longest queue takes less than 4 MB. -/
theorem virtq_alloc_size_lt (hlen : queueLen ≤ 65535) : virtqAllocSize queueLen < 2 ^ 22 := by
  have hfirst := @vq_align_spec (descriptorTableSize queueLen + availableRingSize queueLen)
  have hsecond := @vq_align_spec (usedRingSize queueLen)
  simp only [descriptorTableSize, availableRingSize, usedRingSize, virtioDescriptorBytes, virtioRingHdrBytes,
    virtioUsedElemBytes] at hfirst hsecond
  simp only [virtqAllocSize, virtqSize, descriptorTableSize, availableRingSize, usedRingSize,
    virtioDescriptorBytes, virtioRingHdrBytes, virtioUsedElemBytes]
  obtain ⟨_, _, hrings⟩ := hfirst (by omega)
  obtain ⟨_, _, hused⟩ := hsecond (by omega)
  omega

variable (hpos : 1 ≤ queueLen) (hlen : queueLen ≤ 65535)
  (hblock : allocatedMem + virtqAllocSize queueLen ≤ 2 ^ 64)
include hpos hlen hblock

/-- The pointers as offsets from the table: no addition wraps. -/
theorem virtq_layout_eq :
    ∃ table behind length, allocatedMem ≤ table ∧ table ≤ allocatedMem + 4095 ∧ 4096 ∣ table ∧
      18 * queueLen + 4 ≤ behind ∧ 4096 ∣ behind ∧ 8 * queueLen + 4 ≤ length ∧
      virtqAllocSize queueLen = behind + length + 8 * queueLen + 4095 ∧
      virtqLayout queueLen allocatedMem =
        ⟨table, table + 16 * queueLen, table + 16 * queueLen + 4, table + behind, table + behind + 4,
          table + behind + length⟩ := by
  have hfirst := @vq_align_spec (descriptorTableSize queueLen + availableRingSize queueLen)
  have hsecond := @vq_align_spec (usedRingSize queueLen)
  have htable := @vq_align_spec allocatedMem
  unfold virtqAllocSize virtqSize at hblock ⊢
  unfold virtqLayout
  generalize vqAlign (descriptorTableSize queueLen + availableRingSize queueLen) = behind at *
  generalize vqAlign (usedRingSize queueLen) = length at *
  generalize vqAlign allocatedMem = table at *
  simp only [descriptorTableSize, availableRingSize, usedRingSize, virtioDescriptorBytes, virtioRingHdrBytes,
    virtioUsedElemBytes] at *
  obtain ⟨hbehind, hrings, _⟩ := hfirst (by omega)
  obtain ⟨_, hused, _⟩ := hsecond (by omega)
  obtain ⟨haligned, hlow, hhigh⟩ := htable (by omega)
  refine ⟨table, behind, length, hlow, by omega, haligned, by omega, hbehind, by omega, rfl, ?_⟩
  simp (disch := omega) only [u64_of_lt]

/-- The size that is allocated and the pointers that are set agree. -/
theorem virtq_layout_sound :
    (virtqLayout queueLen allocatedMem).Sound queueLen allocatedMem := by
  obtain ⟨table, behind, length, hlow, hhigh, htable, hrings, hbehind, hused, hsize, heq⟩ :=
    virtq_layout_eq hpos hlen hblock
  rw [heq]
  refine ⟨?_, ?_, htable, Nat.dvd_add htable hbehind⟩
  · simp only [VirtqLayout.parts, List.pairwise_cons, List.mem_cons, List.not_mem_nil, or_false,
      forall_eq_or_imp, forall_eq, Block.Disjoint, Block.fin, descriptorTableSize, availableRingSize,
      usedRingSize, virtioDescriptorBytes, virtioRingHdrBytes, virtioUsedElemBytes]
    simp
    omega
  · simp only [VirtqLayout.parts, List.mem_cons, List.not_mem_nil, or_false, forall_eq_or_imp, forall_eq,
      Block.fin, descriptorTableSize, availableRingSize, usedRingSize, virtioDescriptorBytes,
      virtioRingHdrBytes, virtioUsedElemBytes, hsize]
    omega

/-- An index modulo the size of the queue is one of its arrays. -/
theorem virtq_slots_inside {vq : Virtq} (hvq : vq.size = queueLen) :
    (virtqLayout queueLen allocatedMem).SlotsInside queueLen vq := by
  obtain ⟨table, behind, length, hlow, hhigh, htable, hrings, hbehind, hused, hsize, heq⟩ :=
    virtq_layout_eq hpos hlen hblock
  have havail : vq.availIndex < queueLen := hvq ▸ Nat.mod_lt _ (hvq ▸ hpos)
  have husedIdx : vq.usedIndex < queueLen := hvq ▸ Nat.mod_lt _ (hvq ▸ hpos)
  rw [heq]
  refine ⟨havail, husedIdx, ?_, ?_⟩
  · simp only [VirtqLayout.availSlot, Block.fin, virtioRingHdrBytes, availableRingSize]
    rw [u64_of_lt (by omega)]
    omega
  · simp only [VirtqLayout.usedSlot, Block.fin, virtioRingHdrBytes, virtioUsedElemBytes, usedRingSize]
    rw [u64_of_lt (by omega)]
    omega

end

/-- For every length of a queue and every block that it may be allocated, the parts of the queue are
disjoint, inside the block and aligned, and whatever happens to the queue, the slots that the driver uses
are inside their arrays. -/
theorem virtq_create_layout (queueLen allocatedMem : Nat) (hpos : 1 ≤ queueLen) (hlen : queueLen ≤ 65535)
    (hblock : allocatedMem + virtqAllocSize queueLen ≤ 2 ^ 64) :
    (virtqLayout queueLen allocatedMem).Sound queueLen allocatedMem ∧
      ∀ irqHandler irqHandlerCtx sys,
        Machine.Reachable System.step (System.initial queueLen irqHandler irqHandlerCtx) sys →
        (virtqLayout queueLen allocatedMem).SlotsInside queueLen sys.vq := by
  refine ⟨virtq_layout_sound hpos hlen hblock, ?_⟩
  intro irqHandler irqHandlerCtx sys hreach
  have hsize : sys.vq.size = queueLen :=
    hreach.invariant (fun sys => sys.vq.size = queueLen) rfl fun state event next hstate hstep =>
      (System.step_size hstep).trans hstate
  exact virtq_slots_inside hpos hlen hblock hsize

/-- A queue of 256 descriptors in a block that is not aligned. -/
theorem virtq_create_layout_unaligned :
    virtqAllocSize 256 = 18431 ∧ (virtqLayout 256 0x100010).Sound 256 0x100010 ∧
      virtqLayout 256 0x100010 = ⟨0x101000, 0x102000, 0x102004, 0x103000, 0x103004, 0x104000⟩ := by
  have hsize : virtqAllocSize 256 = 18431 := by decide
  exact ⟨hsize, (virtq_create_layout 256 0x100010 (by decide) (by decide) (by decide)).1, rfl⟩

/-- The layout in a block of the kernel's own allocator. -/
theorem virtq_layout_of_kmem_alloc {session : Kmem.Session} {free live : List Block}
    (h : Kmem.Represents session free live) {queueLen ptr : Nat} {after : Kmem.Heap} (hpos : 1 ≤ queueLen)
    (hlen : queueLen ≤ 65535)
    (halloc : Kmem.kmemAlloc session.heap (virtqAllocSize queueLen) = some (after, ptr)) (hptr : ptr ≠ 0) :
    (virtqLayout queueLen ptr).Sound queueLen ptr := by
  have hsmall := virtq_alloc_size_lt hlen
  have hinside := h.alloc_inside (by unfold Kmem.usedBlockBytes; omega) halloc hptr
  have hbounded := h.bounded
  exact virtq_layout_sound hpos hlen (by omega)

end Otrix.Dev
