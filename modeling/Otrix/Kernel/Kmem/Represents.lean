import Otrix.Kernel.Kmem.Model
import Otrix.Kernel.Kmem.Blocks

/-!
# Block lists in memory

`Holds memory head free live` says that the memory represents the given free
and live blocks: the free blocks are linked in this order from `head`, and the
headers of all blocks are in place. The lemmas say which writes keep a
representation: a store outside all headers, a list operation, an update of the
size of a free block.
-/

namespace Otrix.Kmem

open Linked Bytes Blocks

/-- The header of a free block is in place. -/
def FreeHeader (memory : Mem) (block : Block) : Prop :=
  blockMagic memory block.addr = kmemBlockMagic ∧ freeSize memory block.addr = block.size

/-- The header of a used block is in place. -/
def UsedHeader (memory : Mem) (block : Block) : Prop :=
  blockMagic memory block.addr = kmemBlockMagic ∧ usedSize memory block.addr = block.size

/-- The list nodes of the blocks, in order. -/
def nodesOf (free : List Block) : List Nat :=
  free.map fun block => listNode block.addr

/-- The memory represents these free and live blocks, with the free list starting at `head`. -/
structure Holds (memory : Mem) (head : Nat) (free live : List Block) : Prop where
  list : Queue memory head (nodesOf free)
  free_header : ∀ block ∈ free, FreeHeader memory block
  live_header : ∀ block ∈ live, UsedHeader memory block

@[simp] theorem nodesOf_append (front back : List Block) :
    nodesOf (front ++ back) = nodesOf front ++ nodesOf back := by
  simp [nodesOf]

@[simp] theorem nodesOf_cons (block : Block) (rest : List Block) :
    nodesOf (block :: rest) = listNode block.addr :: nodesOf rest := rfl

@[simp] theorem nodesOf_nil : nodesOf [] = [] := rfl

theorem mem_nodesOf {free : List Block} {node : Nat} :
    node ∈ nodesOf free ↔ ∃ block ∈ free, node = listNode block.addr := by
  simp [nodesOf, eq_comm]

theorem kmemMinFreeBlockSize_eq : kmemMinFreeBlockSize = 64 := by
  decide

/-! ## What list operations leave alone -/

/-- The links of a free block lie between the header fields of the block itself, and do not reach
the header fields of a block elsewhere. -/
theorem unseen_free_header {address : Nat} {other : Block}
    (h : address = other.addr ∨ address + 24 ≤ other.addr ∨ other.addr + 32 ≤ address) :
    Unseen (fun memory : Mem => FreeHeader memory other) (listNode address) :=
  unseen_words (fun magic size => magic = kmemBlockMagic ∧ size = other.size)
    (by simp only [listNode]; omega) (by simp only [listNode]; omega)

/-- The links of a free block do not reach the header of a live block elsewhere. -/
theorem unseen_used_header {address : Nat} {other : Block}
    (h : address + 24 ≤ other.addr ∨ other.addr + 16 ≤ address) :
    Unseen (fun memory : Mem => UsedHeader memory other) (listNode address) :=
  unseen_words (fun magic size => magic = kmemBlockMagic ∧ size = other.size)
    (by simp only [listNode]; omega) (by simp only [listNode]; omega)

/-! ## Stores outside the headers -/

variable {memory : Mem} {head low high : Nat} {free live front back : List Block} {block : Block}

/-- The representation depends only on the bytes of the headers. -/
theorem Holds.congr {updated : Mem} (h : Holds memory head free live)
    (hfree : ∀ other ∈ free, ∀ a, other.addr ≤ a → a < other.addr + 32 →
      updated.byte a = memory.byte a)
    (hlive : ∀ other ∈ live, ∀ a, other.addr ≤ a → a < other.addr + 16 →
      updated.byte a = memory.byte a) :
    Holds updated head free live := by
  have hword : ∀ other ∈ free, ∀ offset, offset + 8 ≤ 32 →
      updated.load (other.addr + offset) 8 = memory.load (other.addr + offset) 8 := by
    intro other hother offset hoffset
    exact Mem.load_congr (fun a hlow hhigh => hfree other hother a (by omega) (by omega))
  have hused : ∀ other ∈ live, ∀ offset, offset + 8 ≤ 16 →
      updated.load (other.addr + offset) 8 = memory.load (other.addr + offset) 8 := by
    intro other hother offset hoffset
    exact Mem.load_congr (fun a hlow hhigh => hlive other hother a (by omega) (by omega))
  refine ⟨h.list.congr ?_ ?_, ?_, ?_⟩
  · intro node hnode
    obtain ⟨other, hother, rfl⟩ := mem_nodesOf.mp hnode
    exact hword other hother 8 (by decide)
  · intro node hnode
    obtain ⟨other, hother, rfl⟩ := mem_nodesOf.mp hnode
    exact hword other hother 16 (by decide)
  · intro other hother
    obtain ⟨hmagic, hsize⟩ := h.free_header other hother
    exact ⟨(hword other hother 0 (by decide)).trans hmagic,
      (hword other hother 24 (by decide)).trans hsize⟩
  · intro other hother
    obtain ⟨hmagic, hsize⟩ := h.live_header other hother
    exact ⟨(hused other hother 0 (by decide)).trans hmagic,
      (hused other hother 8 (by decide)).trans hsize⟩

/-- A store outside every header keeps the representation. -/
theorem Holds.store (h : Holds memory head free live) (address value width : Nat)
    (hfree : ∀ other ∈ free, address + width ≤ other.addr ∨ other.addr + 32 ≤ address)
    (hlive : ∀ other ∈ live, address + width ≤ other.addr ∨ other.addr + 16 ≤ address) :
    Holds (memory.store address value width) head free live := by
  refine h.congr ?_ ?_
  · intro other hother a hlow hhigh
    have := hfree other hother
    exact Mem.store_byte_outside (by omega)
  · intro other hother a hlow hhigh
    have := hlive other hother
    exact Mem.store_byte_outside (by omega)

/-- The memory when the header of a free block was written, with a node of its own. -/
def freedHeader {μ : Type} [ByteStore μ] (memory : μ) (address size : Nat) : μ :=
  setBlockMagic (setFreeSize (intrusiveListInit memory (listNode address)) address size) address
    kmemBlockMagic

theorem freed_header_byte (memory : Mem) (address size : Nat) {a : Nat}
    (h : a < address ∨ address + 32 ≤ a) :
    (freedHeader memory address size).byte a = memory.byte a := by
  show (Mem.store (Mem.store (Mem.store (Mem.store memory (address + 8 + 8) (address + 8) 8)
    (address + 8) (address + 8) 8) (address + 24) size 8) address kmemBlockMagic 8).byte a = _
  rw [Mem.store_byte_outside (by omega), Mem.store_byte_outside (by omega),
    Mem.store_byte_outside (by omega), Mem.store_byte_outside (by omega)]

theorem freed_header_prev (memory : Mem) {address fresh : Nat} (size : Nat) (h : address + 24 ≤ fresh) :
    prev (freedHeader memory fresh size) (listNode address) = prev memory (listNode address) :=
  Mem.load_congr fun a _ hhigh =>
    freed_header_byte memory fresh size (Or.inl (by simp only [listNode] at hhigh; omega))

theorem freed_header_spec (memory : Mem) (hsize : block.size < 2 ^ 64)
    (haddr : block.addr + 8 < 2 ^ 64) :
    FreeHeader (freedHeader memory block.addr block.size) block ∧
      Ring (freedHeader memory block.addr block.size) [listNode block.addr] := by
  have hring : Ring (intrusiveListInit memory (listNode block.addr)) [listNode block.addr] :=
    intrusive_list_init_ring haddr (Nat.succ_ne_zero _)
  refine ⟨⟨?_, ?_⟩, ?_⟩
  · show (Mem.store _ block.addr kmemBlockMagic 8).load block.addr 8 = kmemBlockMagic
    rw [Mem.load_store_same]
    decide
  · show (Mem.store (Mem.store _ (block.addr + 24) block.size 8) block.addr kmemBlockMagic 8).load
      (block.addr + 24) 8 = block.size
    rw [Mem.load_store_other (by omega), Mem.load_store_same,
      Nat.mod_eq_of_lt (by omega)]
  · refine hring.congr ?_ ?_ <;>
    · intro node hnode
      obtain rfl := List.mem_singleton.mp hnode
      show (Mem.store (Mem.store _ (block.addr + 24) block.size 8) block.addr kmemBlockMagic 8).load
        _ 8 = _
      rw [Mem.load_store_other (by simp only [listNode]; omega),
        Mem.load_store_other (by simp only [listNode]; omega)]
      rfl

/-- Writing a free header in a range that no block uses keeps the representation. -/
theorem Holds.write_header {address : Nat} (h : Holds memory head free live)
    (hfree : ∀ other ∈ free, address + 32 ≤ other.addr ∨ other.addr + 32 ≤ address)
    (hlive : ∀ other ∈ live, address + 32 ≤ other.addr ∨ other.addr + 16 ≤ address) (size : Nat) :
    Holds (freedHeader memory address size) head free live :=
  h.congr (fun other hother _ _ _ => freed_header_byte _ _ _ (by have := hfree other hother; omega))
    fun other hother _ _ _ => freed_header_byte _ _ _ (by have := hlive other hother; omega)

end Otrix.Kmem
