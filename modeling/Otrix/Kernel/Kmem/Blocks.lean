import Mathlib.Data.List.Basic
import Mathlib.Tactic.Common

/-!
# First-fit allocation on lists of blocks

What the allocator is for, without memory: the free blocks are a list in address
order, an allocation takes the front of the first block that is large enough, and
a release inserts a block at its place and joins it with the neighbours it
touches. `Placed` is the geometry of a heap: blocks inside the heap, no two of
them overlapping, the free ones in address order. `Coalesced` says in addition
that no two free blocks touch. Both operations preserve both. A coalesced list is
a canonical form: it is determined by the bytes of its blocks.
-/

namespace Blocks

/-- A range of `size` bytes at `addr`. -/
structure Block where
  addr : Nat
  size : Nat
  deriving DecidableEq

/-- The first address behind the block. -/
def Block.fin (block : Block) : Nat := block.addr + block.size

/-- Two blocks have no byte in common. -/
def Block.Disjoint (first second : Block) : Prop :=
  first.fin ≤ second.addr ∨ second.fin ≤ first.addr

theorem Block.Disjoint.symm {first second : Block} (h : first.Disjoint second) :
    second.Disjoint first :=
  Or.symm h

/-- The geometry of a heap occupying `[low, high)`, with blocks of at least `least` bytes. -/
structure Placed (low high least : Nat) (free live : List Block) : Prop where
  free_order : free.Pairwise fun first second => first.fin ≤ second.addr
  free_inside : ∀ block ∈ free, low ≤ block.addr ∧ block.fin ≤ high
  free_large : ∀ block ∈ free, least ≤ block.size
  live_inside : ∀ block ∈ live, low ≤ block.addr ∧ block.fin ≤ high
  live_large : ∀ block ∈ live, least ≤ block.size
  live_disjoint : live.Pairwise Block.Disjoint
  live_free : ∀ block ∈ live, ∀ other ∈ free, block.Disjoint other

/-- No two free blocks touch, in address order. -/
def Coalesced (free : List Block) : Prop :=
  free.Pairwise fun first second => first.fin < second.addr

/-- The free blocks after `need` bytes were taken from the front of the block: the remainder is
dropped when it is smaller than `least`. -/
def remainder (least need : Nat) (block : Block) : List Block :=
  if block.size - need < least then [] else [⟨block.addr + need, block.size - need⟩]

/-- Take `need` bytes from the first block that has them. -/
def takeFirstFit (least need : Nat) : List Block → Option (Block × List Block)
  | [] => none
  | block :: rest =>
    if need ≤ block.size then
      some (⟨block.addr, need⟩, remainder least need block ++ rest)
    else (takeFirstFit least need rest).map fun (taken, rest) => (taken, block :: rest)

/-- Join a block with the first block of the list behind it, if they touch. -/
def joinNext (block : Block) : List Block → List Block
  | [] => [block]
  | second :: rest =>
    if block.fin = second.addr then ⟨block.addr, block.size + second.size⟩ :: rest
    else block :: second :: rest

/-- Insert a block at its place and join it with the neighbours it touches. -/
def release (block : Block) : List Block → List Block
  | [] => [block]
  | first :: rest =>
    if block.addr < first.addr then joinNext block (first :: rest)
    else if first.fin = block.addr then joinNext ⟨first.addr, first.size + block.size⟩ rest
    else first :: release block rest

variable {front back : List Block}

theorem mem_middle {block other : Block} :
    other ∈ front ++ block :: back ↔ other = block ∨ other ∈ front ++ back :=
  List.perm_middle.mem_iff.trans List.mem_cons

/-! ## First fit -/

variable {least need : Nat}

theorem takeFirstFit_eq_none {free : List Block} :
    takeFirstFit least need free = none ↔ ∀ block ∈ free, block.size < need := by
  induction free with
  | nil => simp [takeFirstFit]
  | cons block rest ih =>
    by_cases hfit : need ≤ block.size
    · simp only [takeFirstFit, hfit, if_true, reduceCtorEq, false_iff, not_forall]
      exact ⟨block, by simp, by omega⟩
    · have hsmall : block.size < need := by omega
      simp [takeFirstFit, hfit, hsmall, ih]

variable {block : Block}

/-- First fit takes from the first block that is large enough and leaves the others alone. -/
theorem takeFirstFit_append
    (hfront : ∀ other ∈ front, other.size < need) (hfit : need ≤ block.size) :
    takeFirstFit least need (front ++ block :: back) =
      some (⟨block.addr, need⟩, front ++ (remainder least need block ++ back)) := by
  induction front with
  | nil => simp [takeFirstFit, hfit]
  | cons first front ih =>
    have hsmall : ¬ need ≤ first.size := by
      have := hfront first (by simp)
      omega
    simp [takeFirstFit, hsmall, ih (fun other h => hfront other (by simp [h]))]

/-- A list of blocks either has a first block that is large enough or has none. -/
theorem first_fit_cases (need : Nat) (free : List Block) :
    (∀ block ∈ free, block.size < need) ∨
      ∃ front block back, free = front ++ block :: back ∧
        (∀ other ∈ front, other.size < need) ∧ need ≤ block.size := by
  induction free with
  | nil => simp
  | cons first rest ih =>
    by_cases hfit : need ≤ first.size
    · exact Or.inr ⟨[], first, rest, rfl, by simp, hfit⟩
    · rcases ih with hsmall | ⟨front, block, back, rfl, hfront, hblock⟩
      · left
        intro block hblock
        rcases List.mem_cons.mp hblock with rfl | hblock
        · omega
        · exact hsmall block hblock
      · refine Or.inr ⟨first :: front, block, back, rfl, ?_, hblock⟩
        intro other hother
        rcases List.mem_cons.mp hother with rfl | hother
        · omega
        · exact hfront other hother

theorem takeFirstFit_eq_some {free rest : List Block} {taken : Block}
    (h : takeFirstFit least need free = some (taken, rest)) :
    ∃ front block back, free = front ++ block :: back ∧ (∀ other ∈ front, other.size < need) ∧
      need ≤ block.size ∧ taken = ⟨block.addr, need⟩ ∧
      rest = front ++ (remainder least need block ++ back) := by
  rcases first_fit_cases need free with hsmall | ⟨front, block, back, rfl, hfront, hfit⟩
  · rw [takeFirstFit_eq_none.mpr hsmall] at h
    cases h
  · rw [takeFirstFit_append hfront hfit] at h
    cases h
    exact ⟨front, block, back, rfl, hfront, hfit, rfl, rfl⟩

/-! ## Release -/

/-- A released block with no free block in front of it joins only forwards. -/
theorem release_of_first {back : List Block}
    (hback : ∀ other ∈ back, block.addr < other.addr) :
    release block back = joinNext block back := by
  cases back with
  | nil => rfl
  | cons first rest => simp [release, hback first (by simp)]

/-- A released block lands behind the last free block in front of it, and joins both ways. -/
theorem release_append {block before : Block}
    (hfront : ∀ other ∈ front ++ [before], other.addr < block.addr)
    (horder : ∀ other ∈ front, other.fin < before.addr)
    (hback : ∀ other ∈ back, block.addr < other.addr) :
    release block (front ++ before :: back) =
      if before.fin = block.addr then
        front ++ joinNext ⟨before.addr, before.size + block.size⟩ back
      else front ++ before :: joinNext block back := by
  induction front with
  | nil =>
    have hbefore : ¬ block.addr < before.addr := by
      have := hfront before (by simp)
      omega
    simp only [List.nil_append, release, hbefore, if_false, release_of_first hback]
  | cons first front ih =>
    have hfirst : ¬ block.addr < first.addr := by
      have := hfront first (by simp)
      omega
    have hapart : first.fin ≠ block.addr := by
      have := horder first (by simp)
      have := hfront before (by simp)
      omega
    simp only [List.cons_append, release, hfirst, if_false, hapart]
    rw [ih (fun other h => hfront other (by simp at h ⊢; tauto))
      (fun other h => horder other (by simp [h]))]
    split <;> rfl

/-- The address order splits the free list at any block that overlaps none of it. -/
theorem exists_split {free : List Block}
    (horder : free.Pairwise fun first second => first.fin ≤ second.addr)
    (hdisjoint : ∀ other ∈ free, block.Disjoint other) :
    ∃ front back, free = front ++ back ∧ (∀ other ∈ front, other.fin ≤ block.addr) ∧
      ∀ other ∈ back, block.fin ≤ other.addr := by
  induction free with
  | nil => exact ⟨[], [], rfl, by simp, by simp⟩
  | cons first rest ih =>
    obtain ⟨hfirst, hrest⟩ := List.pairwise_cons.mp horder
    rcases hdisjoint first (by simp) with hbehind | hfront
    · refine ⟨[], first :: rest, rfl, by simp, ?_⟩
      intro other hother
      rcases List.mem_cons.mp hother with rfl | hother
      · exact hbehind
      · -- every later block lies behind `first`, and so behind the block
        have hlater := hfirst other hother
        have hle : first.addr ≤ first.fin := by simp [Block.fin]
        omega
    · obtain ⟨front, back, rfl, hbefore, hafter⟩ :=
        ih hrest (fun other h => hdisjoint other (by simp [h]))
      refine ⟨first :: front, back, rfl, ?_, hafter⟩
      intro other hother
      rcases List.mem_cons.mp hother with rfl | hother
      · exact hfront
      · exact hbefore other hother

/-! ## Preservation of the geometry -/

variable {low high least need : Nat} {free live front back : List Block} {block second : Block}

/-- A range holds at most as many ordered nonempty blocks as it has bytes. -/
theorem length_le_of_order (horder : free.Pairwise fun first second => first.fin ≤ second.addr)
    (hinside : ∀ block ∈ free, low ≤ block.addr ∧ block.fin ≤ high)
    (hsize : ∀ block ∈ free, 0 < block.size) : free.length ≤ high - low := by
  induction free generalizing low with
  | nil => simp
  | cons first rest ih =>
    obtain ⟨hfirst, hrest⟩ := List.pairwise_cons.mp horder
    have hhead := hinside first (by simp)
    have hpositive := hsize first (by simp)
    have hlength : rest.length ≤ high - first.fin := ih hrest
      (fun block hb => ⟨hfirst block hb, (hinside block (by simp [hb])).2⟩)
      (fun block hb => hsize block (by simp [hb]))
    simp only [List.length_cons, Block.fin] at *
    omega

theorem mem_remainder {other : Block} : other ∈ remainder least need block ↔
    other = ⟨block.addr + need, block.size - need⟩ ∧ least ≤ block.size - need := by
  unfold remainder
  split
  · exact iff_of_false (by simp) (by omega)
  · rw [List.mem_singleton]
    exact (and_iff_left (by omega)).symm

/-- An order of the free blocks by where they end and start stays when bytes are taken from the
front of one of them. -/
theorem pairwise_take {r : Nat → Nat → Prop} (hmono : ∀ {a b c : Nat}, r a b → b ≤ c → r a c)
    (h : (front ++ block :: back).Pairwise fun first second => r first.fin second.addr)
    (hfit : need ≤ block.size) :
    (front ++ (remainder least need block ++ back)).Pairwise
      fun first second => r first.fin second.addr := by
  obtain ⟨hfront, hblock, hcross⟩ := List.pairwise_append.mp h
  obtain ⟨hbehind, hback⟩ := List.pairwise_cons.mp hblock
  have hsingle : (remainder least need block).Pairwise fun a b => r a.fin b.addr := by
    unfold remainder
    split
    · exact List.Pairwise.nil
    · exact List.pairwise_singleton _ _
  refine List.pairwise_append.mpr ⟨hfront, List.pairwise_append.mpr ⟨hsingle, hback, ?_⟩, ?_⟩
  · -- the remainder ends where the block ends
    intro a ha b hb
    obtain ⟨rfl, _⟩ := mem_remainder.mp ha
    have hfin : (⟨block.addr + need, block.size - need⟩ : Block).fin = block.fin := by
      simp only [Block.fin]
      omega
    rw [hfin]
    exact hbehind b hb
  · intro a ha b hb
    rcases List.mem_append.mp hb with hb | hb
    · obtain ⟨rfl, _⟩ := mem_remainder.mp hb
      exact hmono (hcross a ha block (by simp)) (Nat.le_add_right _ _)
    · exact hcross a ha b (by simp [hb])

/-- Taking bytes from the front of a free block keeps the geometry. The taken bytes become a live
block. -/
theorem Placed.take (h : Placed low high least (front ++ block :: back) live)
    (hleast : least ≤ need) (hfit : need ≤ block.size) :
    Placed low high least (front ++ (remainder least need block ++ back))
      (⟨block.addr, need⟩ :: live) := by
  obtain ⟨_, hblock, hcross⟩ := List.pairwise_append.mp h.free_order
  obtain ⟨hbehind, _⟩ := List.pairwise_cons.mp hblock
  have hinside := h.free_inside block (by simp)
  have hmem : ∀ other ∈ front ++ (remainder least need block ++ back),
      other ∈ front ++ block :: back ∨
        (other = ⟨block.addr + need, block.size - need⟩ ∧ least ≤ block.size - need) := by
    intro other hother
    simp only [List.mem_append, List.mem_cons, mem_remainder] at hother ⊢
    tauto
  refine ⟨pairwise_take Nat.le_trans h.free_order hfit, ?_, ?_, ?_, ?_, ?_, ?_⟩
  · intro other hother
    rcases hmem other hother with hold | ⟨rfl, _⟩
    · exact h.free_inside other hold
    · simp only [Block.fin] at hinside ⊢
      omega
  · intro other hother
    rcases hmem other hother with hold | ⟨rfl, hlarge⟩
    · exact h.free_large other hold
    · exact hlarge
  · intro other hother
    rcases List.mem_cons.mp hother with rfl | hother
    · simp only [Block.fin] at hinside ⊢
      omega
    · exact h.live_inside other hother
  · intro other hother
    rcases List.mem_cons.mp hother with rfl | hother
    · exact hleast
    · exact h.live_large other hother
  · refine List.pairwise_cons.mpr ⟨?_, h.live_disjoint⟩
    intro other hother
    have := h.live_free other hother block (by simp)
    simp only [Block.Disjoint, Block.fin] at this ⊢
    omega
  · intro a ha b hb
    rcases List.mem_cons.mp ha with rfl | ha
    · simp only [Block.Disjoint, Block.fin]
      simp only [List.mem_append] at hb
      rcases hb with hb | hb | hb
      · have := hcross b hb block (by simp)
        simp only [Block.fin] at this
        omega
      · obtain ⟨rfl, _⟩ := mem_remainder.mp hb
        exact Or.inl (Nat.le_refl _)
      · have := hbehind b hb
        simp only [Block.fin] at this
        omega
    · rcases hmem b hb with hold | ⟨rfl, _⟩
      · exact h.live_free a ha b hold
      · have := h.live_free a ha block (by simp)
        simp only [Block.Disjoint, Block.fin] at this ⊢
        omega

theorem Placed.of_live_cons (h : Placed low high least free (block :: live)) :
    Placed low high least free live :=
  ⟨h.free_order, h.free_inside, h.free_large, fun other ho => h.live_inside other (by simp [ho]),
    fun other ho => h.live_large other (by simp [ho]), (List.pairwise_cons.mp h.live_disjoint).2,
    fun other ho => h.live_free other (by simp [ho])⟩

/-- Taking bytes from a free block cannot make free blocks touch. -/
theorem Coalesced.take (h : Coalesced (front ++ block :: back)) (hfit : need ≤ block.size) :
    Coalesced (front ++ (remainder least need block ++ back)) :=
  pairwise_take Nat.lt_of_lt_of_le h hfit

variable {before after : List Block}

/-- A live block can be put into the free list at its place. -/
theorem Placed.insert
    (h : Placed low high least (front ++ back) (before ++ block :: after))
    (hfront : ∀ other ∈ front, other.fin ≤ block.addr)
    (hback : ∀ other ∈ back, block.fin ≤ other.addr) :
    Placed low high least (front ++ block :: back) (before ++ after) := by
  obtain ⟨hf, hb, hcross⟩ := List.pairwise_append.mp h.free_order
  have hlive := (List.pairwise_middle Block.Disjoint.symm).mp h.live_disjoint
  obtain ⟨hblock, hrest⟩ := List.pairwise_cons.mp hlive
  have hmem : ∀ other ∈ front ++ block :: back, other = block ∨ other ∈ front ++ back :=
    fun _ => mem_middle.mp
  have hkeep : ∀ other ∈ before ++ after, other ∈ before ++ block :: after :=
    fun _ hother => mem_middle.mpr (.inr hother)
  refine ⟨?_, ?_, ?_, fun other ho => h.live_inside other (hkeep other ho),
    fun other ho => h.live_large other (hkeep other ho), hrest, ?_⟩
  · refine List.pairwise_append.mpr ⟨hf, List.pairwise_cons.mpr ⟨hback, hb⟩, ?_⟩
    intro a ha b hb
    rcases List.mem_cons.mp hb with rfl | hb
    · exact hfront a ha
    · exact hcross a ha b hb
  · intro other hother
    rcases hmem other hother with rfl | hother
    · exact h.live_inside other (by simp)
    · exact h.free_inside other hother
  · intro other hother
    rcases hmem other hother with rfl | hother
    · exact h.live_large other (by simp)
    · exact h.free_large other hother
  · intro a ha b hb
    rcases hmem b hb with rfl | hb
    · exact (hblock a ha).symm
    · exact h.live_free a (hkeep a ha) b hb

/-- Two touching neighbours in the free list can be joined. -/
theorem Placed.join (h : Placed low high least (front ++ block :: second :: back) live)
    (hleast : 0 < least) (htouch : block.fin = second.addr) :
    Placed low high least (front ++ ⟨block.addr, block.size + second.size⟩ :: back) live := by
  obtain ⟨hf, hb, hcross⟩ := List.pairwise_append.mp h.free_order
  obtain ⟨hbehind, hsecond⟩ := List.pairwise_cons.mp hb
  obtain ⟨hlater, hback⟩ := List.pairwise_cons.mp hsecond
  have hfin : (⟨block.addr, block.size + second.size⟩ : Block).fin = second.fin := by
    simp only [Block.fin] at htouch ⊢
    omega
  have hmem : ∀ other ∈ front ++ ⟨block.addr, block.size + second.size⟩ :: back,
      other = ⟨block.addr, block.size + second.size⟩ ∨
        other ∈ front ++ block :: second :: back := by
    intro other hother
    simp only [List.mem_append, List.mem_cons] at hother ⊢
    tauto
  refine ⟨?_, ?_, ?_, h.live_inside, h.live_large, h.live_disjoint, ?_⟩
  · refine List.pairwise_append.mpr ⟨hf, List.pairwise_cons.mpr ⟨?_, hback⟩, ?_⟩
    · intro b hb
      rw [hfin]
      exact hlater b hb
    · intro a ha b hb
      rcases List.mem_cons.mp hb with rfl | hb
      · exact hcross a ha block (by simp)
      · exact hcross a ha b (by simp [hb])
  · intro other hother
    rcases hmem other hother with rfl | hother
    · rw [hfin]
      exact ⟨(h.free_inside block (by simp)).1, (h.free_inside second (by simp)).2⟩
    · exact h.free_inside other hother
  · intro other hother
    rcases hmem other hother with rfl | hother
    · have := h.free_large block (by simp)
      show least ≤ block.size + second.size
      omega
    · exact h.free_large other hother
  · intro a ha b hb
    rcases hmem b hb with rfl | hb
    · -- a live block between the two would be empty
      have hfirst := h.live_free a ha block (by simp)
      have hthen := h.live_free a ha second (by simp)
      have hsize := h.live_large a ha
      simp only [Block.Disjoint, hfin] at hfirst hthen ⊢
      simp only [Block.fin] at hfirst hthen htouch ⊢
      omega
    · exact h.live_free a ha b hb

/-- Joining a block with the blocks behind it leaves no two of them touching. -/
theorem Coalesced.joinNext (h : Coalesced back) (hback : ∀ other ∈ back, block.fin ≤ other.addr) :
    Coalesced (joinNext block back) := by
  cases back with
  | nil => simp [Coalesced, Blocks.joinNext]
  | cons second rest =>
    obtain ⟨hsecond, hrest⟩ := List.pairwise_cons.mp h
    have hle := hback second (by simp)
    simp only [Blocks.joinNext]
    split
    · refine List.pairwise_cons.mpr ⟨?_, hrest⟩
      intro b hb
      have := hsecond b hb
      simp only [Block.fin] at *
      omega
    · refine List.pairwise_cons.mpr ⟨?_, h⟩
      intro b hb
      rcases List.mem_cons.mp hb with rfl | hb
      · omega
      · have := hsecond b hb
        simp only [Block.fin] at *
        omega

/-- The blocks of a join start at the joined block or behind it. -/
theorem addr_le_of_mem_joinNext (hback : ∀ other ∈ back, block.fin ≤ other.addr) :
    ∀ other ∈ joinNext block back, block.addr ≤ other.addr := by
  have hle : ∀ other ∈ back, block.addr ≤ other.addr := by
    intro other hother
    have := hback other hother
    simp only [Block.fin] at this
    omega
  cases back with
  | nil => simp [joinNext]
  | cons second rest =>
    intro other hother
    simp only [joinNext] at hother
    split at hother
    · rcases List.mem_cons.mp hother with rfl | hother
      · exact Nat.le_refl _
      · exact hle other (by simp [hother])
    · rcases List.mem_cons.mp hother with rfl | hother
      · exact Nat.le_refl _
      · exact hle other hother

/-- Joining a block with the block behind it keeps the geometry. -/
theorem Placed.joinNext (h : Placed low high least (front ++ block :: back) live)
    (hleast : 0 < least) : Placed low high least (front ++ Blocks.joinNext block back) live := by
  cases back with
  | nil => exact h
  | cons second rest =>
    by_cases htouch : block.fin = second.addr
    · simp only [Blocks.joinNext, htouch, if_true]
      exact h.join hleast htouch
    · simp only [Blocks.joinNext, htouch, if_false]
      exact h

/-- A coalesced list in front of a block stays coalesced when the block is joined with the blocks
behind it. -/
theorem Coalesced.append_joinNext (hfront : Coalesced front) (hback : Coalesced back)
    (hbefore : ∀ other ∈ front, other.fin < block.addr)
    (hbehind : ∀ other ∈ back, block.fin ≤ other.addr) :
    Coalesced (front ++ Blocks.joinNext block back) := by
  refine List.pairwise_append.mpr ⟨hfront, hback.joinNext hbehind, ?_⟩
  intro first hfirst other hother
  have := hbefore first hfirst
  have := addr_le_of_mem_joinNext hbehind other hother
  omega

/-- Releasing a live block keeps the geometry, and leaves no two free blocks touching. -/
theorem Placed.release
    (h : Placed low high least free (before ++ block :: after)) (hleast : 0 < least)
    (hcoalesced : Coalesced free) :
    Placed low high least (release block free) (before ++ after) ∧
      Coalesced (release block free) := by
  have hmem : block ∈ before ++ block :: after := by simp
  have hsize := h.live_large block hmem
  obtain ⟨front, back, rfl, hfront, hback⟩ :=
    exists_split h.free_order (fun other ho => h.live_free block hmem other ho)
  have hplaced := h.insert hfront hback
  obtain ⟨hfirst, hlast, hcross⟩ := List.pairwise_append.mp hcoalesced
  have hbehind : ∀ other ∈ back, block.addr < other.addr := by
    intro other hother
    have := hback other hother
    simp only [Block.fin] at this
    omega
  rcases List.eq_nil_or_concat' front with rfl | ⟨rest, previous, rfl⟩
  · rw [List.nil_append, release_of_first hbehind]
    exact ⟨hplaced.joinNext hleast, Coalesced.joinNext hlast hback⟩
  · have hahead : ∀ other ∈ rest ++ [previous], other.addr < block.addr := by
      intro other hother
      have hlarge := h.free_large other (List.mem_append_left _ hother)
      have := hfront other hother
      simp only [Block.fin] at this
      omega
    have horder : ∀ other ∈ rest, other.fin < previous.addr := fun other hother =>
      (List.pairwise_append.mp hfirst).2.2 other hother previous (by simp)
    rw [List.append_assoc, List.singleton_append, release_append hahead horder hbehind]
    simp only [List.append_assoc, List.singleton_append] at hplaced
    split
    · next htouch =>
      refine ⟨(hplaced.join hleast htouch).joinNext hleast, ?_⟩
      refine Coalesced.append_joinNext (List.pairwise_append.mp hfirst).1 hlast horder ?_
      intro other hother
      have := hback other hother
      simp only [Block.fin] at *
      omega
    · next happart =>
      have hmoved : Placed low high least ((rest ++ [previous]) ++ block :: back)
          (before ++ after) := by simpa using hplaced
      have hjoined := hmoved.joinNext hleast
      have hbefore : ∀ other ∈ rest ++ [previous], other.fin < block.addr := by
        intro other hother
        rcases List.mem_append.mp hother with hother | hother
        · have := horder other hother
          have := hahead previous (by simp)
          omega
        · obtain rfl := List.mem_singleton.mp hother
          have := hfront other (by simp)
          omega
      have hcoalesced := Coalesced.append_joinNext hfirst hlast hbefore hback
      simp only [List.append_assoc, List.singleton_append] at hjoined hcoalesced
      exact ⟨hjoined, hcoalesced⟩

/-! ## The bytes of a list of blocks -/

variable {rest others : List Block} {other : Block} {address : Nat}

/-- The address is one of the block's bytes. -/
def Block.Contains (block : Block) (address : Nat) : Prop :=
  block.addr ≤ address ∧ address < block.fin

/-- The address is a byte of one of the blocks. -/
def Covers (blocks : List Block) (address : Nat) : Prop :=
  ∃ block ∈ blocks, block.Contains address

@[simp] theorem covers_nil : ¬ Covers [] address := by
  simp [Covers]

@[simp] theorem covers_cons :
    Covers (block :: rest) address ↔ block.Contains address ∨ Covers rest address := by
  simp [Covers]

@[simp] theorem covers_append :
    Covers (front ++ back) address ↔ Covers front address ∨ Covers back address := by
  simp [Covers, or_and_right, exists_or]

theorem contains_join (htouch : block.fin = second.addr) :
    (⟨block.addr, block.size + second.size⟩ : Block).Contains address ↔
      block.Contains address ∨ second.Contains address := by
  simp only [Block.Contains, Block.fin] at htouch ⊢
  omega

theorem covers_joinNext :
    Covers (joinNext block rest) address ↔ block.Contains address ∨ Covers rest address := by
  cases rest with
  | nil => simp [joinNext]
  | cons second rest =>
    by_cases htouch : block.fin = second.addr
    · simp only [joinNext, if_pos htouch]
      rw [covers_cons, covers_cons, contains_join htouch, or_assoc]
    · simp only [joinNext, if_neg htouch]
      rw [covers_cons]

theorem covers_release :
    Covers (release block free) address ↔ block.Contains address ∨ Covers free address := by
  induction free with
  | nil => simp [release]
  | cons first rest ih =>
    unfold release
    split
    · exact covers_joinNext
    · split
      · next htouch =>
        rw [covers_joinNext, contains_join htouch, covers_cons, or_assoc, or_left_comm]
      · rw [covers_cons, covers_cons, ih, or_left_comm]

theorem Coalesced.head_le (h : Coalesced (other :: others))
    (hcovers : Covers (other :: others) address) : other.addr ≤ address := by
  obtain ⟨owner, hmem, hcontains⟩ := hcovers
  rcases List.mem_cons.mp hmem with rfl | hmem
  · exact hcontains.1
  · have hbehind := (List.pairwise_cons.mp h).1 owner hmem
    simp only [Block.Contains, Block.fin] at hcontains hbehind
    omega

theorem Coalesced.not_covers_fin (h : Coalesced (other :: others)) :
    ¬ Covers (other :: others) other.fin := by
  rintro ⟨owner, hmem, hcontains⟩
  rcases List.mem_cons.mp hmem with rfl | hmem
  · exact Nat.lt_irrefl _ hcontains.2
  · exact Nat.not_le_of_lt ((List.pairwise_cons.mp h).1 owner hmem) hcontains.1

/-- The bytes of the later blocks of a coalesced list are those behind the end of the first. -/
theorem Coalesced.covers_tail_iff (h : Coalesced (other :: others)) :
    Covers others address ↔ Covers (other :: others) address ∧ other.fin ≤ address := by
  rw [covers_cons]
  constructor
  · rintro ⟨owner, hmem, hcontains⟩
    have hbehind := (List.pairwise_cons.mp h).1 owner hmem
    exact ⟨Or.inr ⟨owner, hmem, hcontains⟩,
      Nat.le_of_lt (Nat.lt_of_lt_of_le hbehind hcontains.1)⟩
  · rintro ⟨hfirst | hrest, hle⟩
    · exact absurd hfirst.2 (Nat.not_lt.mpr hle)
    · exact hrest

/-- The first block of a coalesced list ends where that of a list with the same bytes ends, at the
latest. -/
theorem Coalesced.fin_le (h : Coalesced (other :: others)) (haddr : block.addr = other.addr)
    (hcovers : ∀ address, Covers (block :: rest) address → Covers (other :: others) address) :
    block.fin ≤ other.fin := by
  by_contra hlt
  refine h.not_covers_fin (hcovers _ (covers_cons.mpr (Or.inl ⟨?_, Nat.lt_of_not_le hlt⟩)))
  rw [haddr]
  exact Nat.le_add_right _ _

theorem covers_addr (hpos : 0 < block.size) : Covers (block :: rest) block.addr :=
  covers_cons.mpr (Or.inl ⟨Nat.le_refl _, Nat.lt_add_of_pos_right hpos⟩)

/-- A coalesced list is determined by its bytes. -/
theorem Coalesced.eq_of_covers {first second : List Block} (hfirst : Coalesced first)
    (hsecond : Coalesced second) (hlarge : ∀ block ∈ first, 0 < block.size)
    (hlarge' : ∀ block ∈ second, 0 < block.size)
    (hcovers : ∀ address, Covers first address ↔ Covers second address) : first = second := by
  induction first generalizing second with
  | nil =>
    cases second with
    | nil => rfl
    | cons other others =>
      exact absurd ((hcovers _).mpr (covers_addr (hlarge' other (by simp)))) covers_nil
  | cons block rest ih =>
    cases second with
    | nil => exact absurd ((hcovers _).mp (covers_addr (hlarge block (by simp)))) covers_nil
    | cons other others =>
      have haddr : block.addr = other.addr := Nat.le_antisymm
        (hfirst.head_le ((hcovers _).mpr (covers_addr (hlarge' other (by simp)))))
        (hsecond.head_le ((hcovers _).mp (covers_addr (hlarge block (by simp)))))
      have hfin : block.fin = other.fin := Nat.le_antisymm
        (hsecond.fin_le haddr fun address => (hcovers address).mp)
        (hfirst.fin_le haddr.symm fun address => (hcovers address).mpr)
      have hrest : rest = others := by
        refine ih (List.pairwise_cons.mp hfirst).2 (List.pairwise_cons.mp hsecond).2
          (fun block hmem => hlarge block (by simp [hmem]))
          (fun block hmem => hlarge' block (by simp [hmem])) fun address => ?_
        rw [hfirst.covers_tail_iff, hsecond.covers_tail_iff, hcovers, hfin]
      have hblock : block = other := by
        cases block
        cases other
        simp only [Block.fin] at haddr hfin
        simp only [Block.mk.injEq]
        omega
      rw [hblock, hrest]

/-! ## Lost bytes -/

/-- Every byte of the heap belongs to a block. -/
def Accounted (low high : Nat) (free live : List Block) : Prop :=
  ∀ address, low ≤ address → address < high → Covers (free ++ live) address

theorem covers_remainder (hfit : need ≤ block.size) :
    Covers (remainder least need block) address ↔
      least ≤ block.size - need ∧ block.addr + need ≤ address ∧ address < block.fin := by
  unfold remainder
  split
  · exact iff_of_false covers_nil (by omega)
  · simp only [covers_cons, covers_nil, or_false, Block.Contains, Block.fin]
    omega

/-- Taking bytes from the front of a block loses none exactly when the rest of the block is empty or
large enough to be kept. -/
theorem Placed.accounted_take_iff (h : Placed low high least (front ++ block :: back) live)
    (hfit : need ≤ block.size) :
    Accounted low high (front ++ (remainder least need block ++ back))
        (⟨block.addr, need⟩ :: live) ↔
      Accounted low high (front ++ block :: back) live ∧
        (block.size = need ∨ need + least ≤ block.size) := by
  have hinside := h.free_inside block (by simp)
  constructor
  · intro hall
    refine ⟨fun address hlow hhigh => ?_, ?_⟩
    · have hcovered := hall address hlow hhigh
      simp only [covers_append, covers_cons, covers_remainder hfit] at hcovered ⊢
      simp only [Block.Contains, Block.fin] at hcovered ⊢
      rcases hcovered with (hfront | hrest | hback) | htaken | hlive
      · exact Or.inl (Or.inl hfront)
      · exact Or.inl (Or.inr (Or.inl (by omega)))
      · exact Or.inl (Or.inr (Or.inr hback))
      · exact Or.inl (Or.inr (Or.inl (by omega)))
      · exact Or.inr hlive
    · by_contra hlost
      -- the byte behind the taken ones belongs to no block any more
      obtain ⟨_, hblock, hcross⟩ := List.pairwise_append.mp h.free_order
      obtain ⟨hbehind, _⟩ := List.pairwise_cons.mp hblock
      simp only [Block.fin] at hinside
      have hcovered := hall (block.addr + need) (by omega) (by omega)
      simp only [covers_append, covers_cons, covers_remainder hfit] at hcovered
      rcases hcovered with (⟨owner, hmem, hcontains⟩ | hrest | ⟨owner, hmem, hcontains⟩) |
        htaken | ⟨owner, hmem, hcontains⟩
      · have hle := hcross owner hmem block (by simp)
        simp only [Block.Contains] at hcontains
        omega
      · omega
      · have hle := hbehind owner hmem
        simp only [Block.Contains, Block.fin] at hcontains hle
        omega
      · simp only [Block.Contains, Block.fin] at htaken
        omega
      · have hdisjoint := h.live_free owner hmem block (by simp)
        simp only [Block.Contains, Block.Disjoint, Block.fin] at hcontains hdisjoint
        omega
  · rintro ⟨hall, hkept⟩ address hlow hhigh
    have hcovered := hall address hlow hhigh
    simp only [covers_append, covers_cons, covers_remainder hfit] at hcovered ⊢
    simp only [Block.Contains, Block.fin] at hcovered ⊢
    rcases hcovered with (hfront | hmiddle | hback) | hlive
    · exact Or.inl (Or.inl hfront)
    · by_cases htaken : address < block.addr + need
      · exact Or.inr (Or.inl ⟨hmiddle.1, htaken⟩)
      · exact Or.inl (Or.inr (Or.inl (by omega)))
    · exact Or.inl (Or.inr (Or.inr hback))
    · exact Or.inr (Or.inr hlive)

theorem accounted_release_iff :
    Accounted low high (release block free) (before ++ after) ↔
      Accounted low high free (before ++ block :: after) := by
  refine forall_congr' fun address => imp_congr_right fun _ => imp_congr_right fun _ => ?_
  simp only [covers_append, covers_cons, covers_release]
  tauto

/-- Without live blocks, every byte is accounted for exactly when the heap is one free block. -/
theorem Placed.accounted_nil_iff (h : Placed low high least free []) (hcoalesced : Coalesced free)
    (hleast : 0 < least) (hlt : low < high) :
    Accounted low high free [] ↔ free = [⟨low, high - low⟩] := by
  have hwhole : ∀ address, Covers [⟨low, high - low⟩] address ↔ low ≤ address ∧ address < high := by
    intro address
    simp only [covers_cons, covers_nil, or_false, Block.Contains, Block.fin]
    omega
  constructor
  · intro hall
    have hsizes : ∀ block ∈ [(⟨low, high - low⟩ : Block)], 0 < block.size := by
      intro block hmem
      obtain rfl := List.mem_singleton.mp hmem
      exact Nat.sub_pos_of_lt hlt
    refine hcoalesced.eq_of_covers (List.pairwise_singleton _ _)
      (fun block hmem => Nat.lt_of_lt_of_le hleast (h.free_large block hmem)) hsizes ?_
    intro address
    rw [hwhole]
    constructor
    · rintro ⟨owner, hmem, hcontains⟩
      have hinside := h.free_inside owner hmem
      simp only [Block.Contains] at hcontains
      omega
    · rintro ⟨hlow, hhigh⟩
      simpa using hall address hlow hhigh
  · rintro rfl address hlow hhigh
    rw [List.append_nil]
    exact (hwhole address).mpr ⟨hlow, hhigh⟩

end Blocks
