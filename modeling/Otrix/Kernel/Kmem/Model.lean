import Otrix.Common.MemoryList

/-!
# The heap allocator of `kernel/kmem.cpp`

`kmemInit`, `kmemAlloc` and `kmemFree` over a byte memory, which is a plain one or
one that remembers its stores. Block headers, list nodes and payloads live in the
same memory, at the offsets of `kmem_free_block_t` (`magic`, `list_node`, `size`)
and `kmem_used_block_t` (`magic`, `size`), so that a used header overlays the links
of the free block it replaces. Addresses and sizes are 64-bit, and sums are reduced
by `u64` where the source adds.

The two list scans take fuel. `none` means that a scan has not come to an end
after as many nodes as the heap has bytes.
-/

namespace Otrix.Kmem

open Linked Bytes

/-- `KMEM_BLOCK_MAGIC`. -/
def kmemBlockMagic : Nat := 0xDEADBEEFABCDDCBA

/-- `sizeof(kmem_used_block_t)`. -/
def usedBlockBytes : Nat := 16

/-- `sizeof(kmem_free_block_t)`. -/
def freeBlockBytes : Nat := 32

/-- `KMEM_MIN_BLOCK_SIZE`. -/
def kmemMinBlockSize : Nat := max freeBlockBytes usedBlockBytes

/-- `KMEM_MIN_FREE_BLOCK_SIZE`. -/
def kmemMinFreeBlockSize : Nat := kmemMinBlockSize * 2

/-- `KMEM_ALLOCATION_SIZE`. -/
def kmemAllocationSize (size : Nat) : Nat := max size kmemMinFreeBlockSize

/-- `KMEM_FREE_BLOCK_PTR`: the block that contains a list node. -/
def kmemFreeBlockPtr (node : Nat) : Nat := node - 8

/-- `&block->list_node`. -/
def listNode (block : Nat) : Nat := block + 8

/-- The two conversions between a block and its list node fit together. -/
@[simp] theorem block_of_list_node (block : Nat) : kmemFreeBlockPtr (listNode block) = block :=
  Nat.add_sub_cancel block 8

section Allocator

variable {μ : Type} [ByteStore μ]

/-- The `magic` field of either kind of block. -/
def blockMagic (memory : μ) (block : Nat) : Nat := ByteStore.load memory block 8

/-- Assignment to the `magic` field. -/
def setBlockMagic (memory : μ) (block value : Nat) : μ := ByteStore.store memory block value 8

/-- `kmem_free_block_t::size`. -/
def freeSize (memory : μ) (block : Nat) : Nat := ByteStore.load memory (block + 24) 8

/-- Assignment to `kmem_free_block_t::size`. -/
def setFreeSize (memory : μ) (block value : Nat) : μ := ByteStore.store memory (block + 24) value 8

/-- `kmem_used_block_t::size`. -/
def usedSize (memory : μ) (block : Nat) : Nat := ByteStore.load memory (block + 8) 8

/-- Assignment to `kmem_used_block_t::size`. -/
def setUsedSize (memory : μ) (block value : Nat) : μ := ByteStore.store memory (block + 8) value 8

/-- A heap descriptor `kmem_heap_t` together with the memory it manages. -/
structure HeapOf (μ : Type) where
  start : Nat
  size : Nat
  freeList : Nat
  memory : μ

/-- A heap in plain memory. -/
abbrev Heap := HeapOf Mem

/-- `kmem_init`. -/
def kmemInit (memory : μ) (heapStart heapSize : Nat) : HeapOf μ :=
  let memory := intrusiveListInit memory (listNode heapStart)
  let memory := setFreeSize memory heapStart heapSize
  let memory := setBlockMagic memory heapStart kmemBlockMagic
  ⟨heapStart, heapSize, listNode heapStart, memory⟩

/-- The first-fit scan of `kmem_alloc`: stop at the first block that is large enough, or back at
the head. -/
def findFit (memory : μ) (head size : Nat) : Nat → Nat → Option Nat
  | 0, _ => none
  | fuel + 1, pFree =>
    if size ≤ freeSize memory (kmemFreeBlockPtr pFree) then some pFree
    else
      let pFree := next memory pFree
      if pFree ≠ head then findFit memory head size fuel pFree else some pFree

/-- Take `size` bytes from the front of a free block: remove the block from the free list when
the remainder is too small for a block of its own, else put the remainder in its place. -/
def carve (heap : HeapOf μ) (pFree size : Nat) : HeapOf μ :=
  let block := kmemFreeBlockPtr pFree
  if pFree = heap.freeList then
    if freeSize heap.memory block - size < kmemMinFreeBlockSize then
      let (memory, head) := intrusiveListDelete heap.memory heap.freeList pFree
      { heap with memory := memory, freeList := head }
    else
      let newFree := u64 (block + size)
      let memory := setFreeSize heap.memory newFree (freeSize heap.memory block - size)
      let memory := setBlockMagic memory newFree kmemBlockMagic
      let memory := intrusiveListInit memory (listNode newFree)
      let before := prev memory pFree
      let memory :=
        if before ≠ pFree then
          intrusiveListInsert (intrusiveListUnlinkNode memory pFree) before (listNode newFree)
        else memory
      { heap with memory := memory, freeList := listNode newFree }
  else
    if freeSize heap.memory block - size < kmemMinFreeBlockSize then
      let (memory, head) := intrusiveListDelete heap.memory heap.freeList pFree
      { heap with memory := memory, freeList := head }
    else
      let before := prev heap.memory pFree
      let newFree := u64 (block + size)
      let memory := intrusiveListInit heap.memory (listNode newFree)
      let memory := setFreeSize memory newFree (freeSize memory block - size)
      let memory := setBlockMagic memory newFree kmemBlockMagic
      let memory := intrusiveListUnlinkNode memory pFree
      let memory := intrusiveListInsert memory before (listNode newFree)
      { heap with memory := memory }

/-- `kmem_alloc`: the updated heap and the returned pointer, `0` for `nullptr`. -/
def kmemAlloc (heap : HeapOf μ) (size : Nat) : Option (HeapOf μ × Nat) :=
  let size := kmemAllocationSize (u64 (size + usedBlockBytes))
  if heap.freeList = 0 then some (heap, 0)
  else do
    let pFree ← findFit heap.memory heap.freeList size heap.size heap.freeList
    if freeSize heap.memory (kmemFreeBlockPtr pFree) < size then some (heap, 0)
    else
      let heap := carve heap pFree size
      let block := kmemFreeBlockPtr pFree
      let memory := setBlockMagic heap.memory block kmemBlockMagic
      let memory := setUsedSize memory block size
      some ({ heap with memory := memory }, block + usedBlockBytes)

/-- The scan of `kmem_free` for the last free block in front of the freed one. The result is null
when the freed block comes first. -/
def findBefore (memory : μ) (head ptr : Nat) : Nat → Nat → Nat → Option Nat
  | 0, _, _ => none
  | fuel + 1, pHead, pPrev =>
    if kmemFreeBlockPtr pHead > ptr then some pPrev
    else
      let pPrev := pHead
      let pHead := next memory pHead
      if pHead ≠ head then findBefore memory head ptr fuel pHead pPrev else some pPrev

/-- Link the freed block into the address-ordered free list. -/
def insertFree (heap : HeapOf μ) (ptr block : Nat) : Option (HeapOf μ) :=
  let node := listNode block
  if heap.freeList ≠ 0 then do
    let pPrev ← findBefore heap.memory heap.freeList ptr heap.size heap.freeList 0
    if pPrev = 0 then
      let memory := setNext heap.memory (prev heap.memory heap.freeList) node
      let memory := setPrev memory node (prev memory heap.freeList)
      let memory := setNext memory node heap.freeList
      let memory := setPrev memory heap.freeList node
      some { heap with memory := memory, freeList := node }
    else some { heap with memory := intrusiveListInsert heap.memory pPrev node }
  else some { heap with freeList := node }

/-- Merge the freed block into its predecessor when they touch. The result names the block that
now holds the freed bytes. -/
def mergePrevious (memory : μ) (block blockSize : Nat) : μ × Nat :=
  let prevBlock := kmemFreeBlockPtr (prev memory (listNode block))
  if u64 (prevBlock + freeSize memory prevBlock) = block then
    let memory := setFreeSize memory prevBlock (u64 (freeSize memory prevBlock + blockSize))
    (intrusiveListUnlinkNode memory (listNode block), prevBlock)
  else (memory, block)

/-- Merge the block's successor into it when they touch. -/
def mergeNext (memory : μ) (block : Nat) : μ :=
  let nextBlock := kmemFreeBlockPtr (next memory (listNode block))
  if u64 (block + freeSize memory block) = nextBlock then
    let memory :=
      setFreeSize memory block (u64 (freeSize memory block + freeSize memory nextBlock))
    intrusiveListUnlinkNode memory (listNode nextBlock)
  else memory

/-- `kmem_free`. -/
def kmemFree (heap : HeapOf μ) (ptr : Nat) : Option (HeapOf μ) :=
  if ptr = 0 then some heap
  else
    let block := sub64 ptr usedBlockBytes
    if block < heap.start ∨ block > u64 (heap.start + heap.size) then some heap
    else if blockMagic heap.memory block ≠ kmemBlockMagic then some heap
    else do
      let blockSize := usedSize heap.memory block
      let memory := intrusiveListInit heap.memory (listNode block)
      let memory := setFreeSize memory block blockSize
      let memory := setBlockMagic memory block kmemBlockMagic
      let heap ← insertFree { heap with memory := memory } ptr block
      let (memory, merged) := mergePrevious heap.memory block blockSize
      some { heap with memory := mergeNext memory merged }

end Allocator

/-! ## The heap and its clients -/

/-- A heap in use: the allocator's state and the pointers that clients own. -/
structure Session where
  heap : Heap
  live : List Nat

/-- What can happen to a heap. Clients write single bytes; longer writes are several events. -/
inductive Event where
  | alloc (size : Nat)
  | free (ptr : Nat)
  | write (address : Nat) (value : UInt8)
  deriving DecidableEq

/-- The address lies in the payload that the block header of a live pointer records. -/
def InPayload (session : Session) (address : Nat) : Prop :=
  ∃ ptr ∈ session.live, ptr ≤ address ∧
    address < ptr - usedBlockBytes + usedSize session.heap.memory (ptr - usedBlockBytes)
  deriving Decidable

/-- One event. Requests are `size_t` values, only live pointers are freed, and clients write only
inside payloads. -/
def Session.step (session : Session) : Event → Option Session
  | .alloc size =>
    if size < 2 ^ 64 then
      (kmemAlloc session.heap size).map fun (heap, ptr) =>
        { heap := heap, live := if ptr = 0 then session.live else ptr :: session.live }
    else none
  | .free ptr =>
    if ptr ∈ session.live then
      (kmemFree session.heap ptr).map fun heap =>
        { heap := heap, live := session.live.erase ptr }
    else none
  | .write address value =>
    if InPayload session address then
      some { session with heap :=
        { session.heap with memory := session.heap.memory.setByte address value } }
    else none

/-- A freshly initialised heap without clients. -/
def Session.initial (memory : Mem) (heapStart heapSize : Nat) : Session :=
  ⟨kmemInit memory heapStart heapSize, []⟩

end Otrix.Kmem
