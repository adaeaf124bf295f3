import Otrix.Foundation.Records
import Otrix.Kernel.Kmem.Model

/-!
# The memory of the heap

`init_heap` of `kernel/kmain.cpp` looks for the tag with the size of the memory in the list that the boot
loader has left, and makes a heap of that size behind the image of the kernel. The boot loader counts the
memory from 1 MiB, and the image begins there: the heap ends behind the memory by as much as the image
takes.

The tags are a chain of records that ends with a tag of type zero. A size is rounded up to a multiple of
eight, in 32 bits.
-/

namespace Otrix.Kmem

open Bytes

/-- `MULTIBOOT_TAG_TYPE_END`. -/
def multibootTagTypeEnd : Nat := 0

/-- `MULTIBOOT_TAG_TYPE_BASIC_MEMINFO`. -/
def multibootTagTypeBasicMeminfo : Nat := 4

/-- `multiboot_tag::type`. -/
def tagType (memory : Mem) (tag : Nat) : Nat := memory.load tag 4

/-- `multiboot_tag::size`. -/
def tagSize (memory : Mem) (tag : Nat) : Nat := memory.load (tag + 4) 4

/-- `multiboot_tag_basic_meminfo::mem_upper`. -/
def memUpper (memory : Mem) (tag : Nat) : Nat := memory.load (tag + 12) 4

/-- `memset`. -/
def memset (memory : Mem) (address : Nat) (value : UInt8) (count : Nat) : Mem :=
  ⟨fun a => if address ≤ a ∧ a < address + count then value else memory.byte a⟩

/-- What is done for the tag with the size of the memory. -/
def foundMeminfo (memory : Mem) (binaryEnd tag : Nat) : Heap :=
  let memHighSizeKb := memUpper memory tag
  kmemInit (memset memory binaryEnd 0xa5 memHighSizeKb) binaryEnd (memHighSizeKb * 1024)

/-- The loop of `init_heap`. It ends with a heap, or without one at the last tag. -/
def tagLoop (memory : Mem) (binaryEnd : Nat) : Nat → Nat → Option (Option Heap)
  | 0, _ => none
  | fuel + 1, tag =>
    if tagType memory tag = multibootTagTypeEnd then some none
    else if tagType memory tag = multibootTagTypeBasicMeminfo then
      some (some (foundMeminfo memory binaryEnd tag))
    else
      -- the sum is taken in 32 bits before the low bits are cleared
      tagLoop memory binaryEnd fuel (tag + (tagSize memory tag + 7) % 2 ^ 32 / 8 * 8)

/-- `init_heap`. -/
def initHeap (memory : Mem) (multibootAddr binaryEnd fuel : Nat) : Option (Option Heap) :=
  tagLoop memory binaryEnd fuel (multibootAddr % 2 ^ 32 + 8)

/-- The distance from a tag to the next one. -/
def alignedSize (memory : Mem) (tag : Nat) : Nat :=
  (tagSize memory tag + 7) / 8 * 8

/-- A list of tags that the boot loader may leave. -/
structure TagList (memory : Mem) (start : Nat) (tags : List Nat) (stop : Nat) : Prop where
  chain : Records.Chain (alignedSize memory) start tags stop
  header : ∀ tag ∈ tags, 8 ≤ tagSize memory tag
  fits : ∀ tag ∈ tags, alignedSize memory tag < 2 ^ 32
  type : ∀ tag ∈ tags, tagType memory tag ≠ multibootTagTypeEnd
  last : tagType memory stop = multibootTagTypeEnd

/-- The beginning of the memory that the boot loader counts. -/
def upperMemory : Nat := 0x100000

variable {memory : Mem} {binaryEnd : Nat}

/-- The loop passes the tags before the one it looks for. -/
theorem tag_loop_eq {before after : List Nat} {start tag stop : Nat}
    (hchain : Records.Chain (alignedSize memory) start (before ++ tag :: after) stop)
    (hfits : ∀ other ∈ before, alignedSize memory other < 2 ^ 32)
    (htype : ∀ other ∈ before, tagType memory other ≠ multibootTagTypeEnd)
    (hbefore : ∀ other ∈ before, tagType memory other ≠ multibootTagTypeBasicMeminfo)
    (htag : tagType memory tag = multibootTagTypeBasicMeminfo) (fuel : Nat) :
    tagLoop memory binaryEnd fuel start =
      if before.length < fuel then some (some (foundMeminfo memory binaryEnd tag)) else none := by
  induction before generalizing start fuel with
  | nil =>
    obtain rfl := hchain.1
    cases fuel with
    | zero => rfl
    | succ fuel =>
      have hend : tagType memory tag ≠ multibootTagTypeEnd := by
        rw [htag]
        decide
      rw [tagLoop, if_neg hend, if_pos htag]
      exact (if_pos (Nat.succ_pos fuel)).symm
  | cons first before ih =>
    obtain ⟨rfl, hrest⟩ := hchain
    cases fuel with
    | zero => rfl
    | succ fuel =>
      -- the size does not wrap around, so the loop goes where the next tag is
      have hstep : (tagSize memory first + 7) % 2 ^ 32 / 8 * 8 = alignedSize memory first := by
        have hlt := hfits first List.mem_cons_self
        have hsize : tagSize memory first < 2 ^ 32 := Mem.load_lt memory (first + 4) 4
        simp only [alignedSize] at hlt ⊢
        omega
      rw [tagLoop, if_neg (htype first List.mem_cons_self), if_neg (hbefore first List.mem_cons_self),
        hstep, ih hrest (fun other hin => hfits other (List.mem_cons_of_mem first hin))
          (fun other hin => htype other (List.mem_cons_of_mem first hin))
          (fun other hin => hbefore other (List.mem_cons_of_mem first hin))]
      simp only [List.length_cons, Nat.succ_lt_succ_iff]

/-- `init_heap` ends, finds the first tag with the size of the memory, and makes a heap that begins behind
the image and has that size. The heap is inside the memory exactly if the image takes no memory at all. -/
theorem heap_in_memory_iff (binaryEnd : Nat) {multibootAddr tag stop : Nat} {before after : List Nat}
    (htags : TagList memory (multibootAddr % 2 ^ 32 + 8) (before ++ tag :: after) stop)
    (hbefore : ∀ other ∈ before, tagType memory other ≠ multibootTagTypeBasicMeminfo)
    (htag : tagType memory tag = multibootTagTypeBasicMeminfo) :
    (∃ fuel heap, initHeap memory multibootAddr binaryEnd fuel = some (some heap) ∧
      heap.start = binaryEnd ∧ heap.size = memUpper memory tag * 1024) ∧
    ((∃ fuel heap, initHeap memory multibootAddr binaryEnd fuel = some (some heap) ∧
      heap.start = binaryEnd ∧ upperMemory ≤ heap.start ∧
      heap.start + heap.size ≤ upperMemory + memUpper memory tag * 1024) ↔ binaryEnd = upperMemory) := by
  have hloop : ∀ fuel, initHeap memory multibootAddr binaryEnd fuel =
      if before.length < fuel then some (some (foundMeminfo memory binaryEnd tag)) else none :=
    tag_loop_eq htags.chain (fun other hin => htags.fits other (List.mem_append_left _ hin))
      (fun other hin => htags.type other (List.mem_append_left _ hin)) hbefore htag
  have hfound : initHeap memory multibootAddr binaryEnd (before.length + 1) =
      some (some (foundMeminfo memory binaryEnd tag)) := by
    rw [hloop, if_pos (Nat.lt_succ_self _)]
  refine ⟨⟨_, _, hfound, rfl, rfl⟩, ?_⟩
  constructor
  · rintro ⟨fuel, heap, hinit, hstart, hlow, hinside⟩
    have hsize : heap.size = memUpper memory tag * 1024 := by
      rw [hloop] at hinit
      split at hinit
      · rw [← Option.some.inj (Option.some.inj hinit)]
        rfl
      · cases hinit
    omega
  · intro heq
    refine ⟨_, _, hfound, rfl, Nat.le_of_eq heq.symm, ?_⟩
    show binaryEnd + memUpper memory tag * 1024 ≤ _
    rw [heq]

/-- A list with a command line of one byte, 64 MiB of memory and the end. -/
def bootTags : Mem :=
  ⟨fun address =>
    if address = 0x9008 then 1 else if address = 0x900C then 9
    else if address = 0x9018 then 4 else if address = 0x901C then 16
    else if address = 0x9025 then 0xFC else 0⟩

theorem boot_tags_list : TagList bootTags (0x9000 % 2 ^ 32 + 8) ([0x9008] ++ 0x9018 :: []) 0x9028 := by
  constructor
  all_goals decide +kernel

/-- The heap of a kernel that ends at 1 MiB. -/
theorem heap_in_memory_empty_image :
    ∃ fuel heap, initHeap bootTags 0x9000 upperMemory fuel = some (some heap) ∧
      heap.start = upperMemory ∧ upperMemory ≤ heap.start ∧
      heap.start + heap.size ≤ upperMemory + memUpper bootTags 0x9018 * 1024 :=
  (heap_in_memory_iff upperMemory boot_tags_list (by decide +kernel) (by decide +kernel)).2.mpr rfl

/-- With an image of 64 KiB, the heap ends 64 KiB behind the memory. -/
theorem heap_ends_behind_memory :
    ∃ heap, initHeap bootTags 0x9000 0x110000 2 = some (some heap) ∧ heap.start = 0x110000 ∧
      heap.start + heap.size = upperMemory + memUpper bootTags 0x9018 * 1024 + 0x10000 := by
  have hsize : (foundMeminfo bootTags 0x110000 0x9018).size = memUpper bootTags 0x9018 * 1024 := rfl
  have hstart : (foundMeminfo bootTags 0x110000 0x9018).start = 0x110000 := rfl
  refine ⟨foundMeminfo bootTags 0x110000 0x9018, ?_, hstart, ?_⟩
  · exact tag_loop_eq boot_tags_list.chain (by decide +kernel) (by decide +kernel) (by decide +kernel)
      (by decide +kernel) 2
  · rw [hstart, hsize, upperMemory]
    generalize memUpper bootTags 0x9018 = memHighSizeKb
    omega

end Otrix.Kmem
