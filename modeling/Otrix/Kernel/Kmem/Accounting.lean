import Otrix.Kernel.Kmem.Invariant

/-!
# Where the bytes of the heap are

`freeBlocks` reads the free list off the memory. In every reachable state it is a
coalesced list, and such a list is determined by its bytes; so the order in which
pointers are freed does not show in it (`free_order_irrelevant`).

A byte of the heap that belongs to no block is lost. A release loses none. An
allocation does when it drops the rest of the block that it takes from, because the
header of the used block records only the bytes that were asked for
(`heap_restored_iff_no_scrap`).
-/

namespace Otrix.Kmem

open Blocks Bytes Linked Machine

variable {session next : Session} {free live front back : List Block} {block : Block}
  {memory : Mem} {head : Nat}

/-! ## The free list as the memory shows it -/

/-- Follow the free list from a node until it comes back to the head. -/
def walkFree (memory : Mem) (head : Nat) : Nat → Nat → Option (List Block)
  | 0, _ => none
  | fuel + 1, node =>
    let block := kmemFreeBlockPtr node
    let rest := LinkStore.next memory node
    if rest = head then some [⟨block, freeSize memory block⟩]
    else (walkFree memory head fuel rest).map (⟨block, freeSize memory block⟩ :: ·)

/-- The free blocks in the order of the list, with their sizes. -/
def freeBlocks (heap : Heap) : Option (List Block) :=
  if heap.freeList = 0 then some []
  else walkFree heap.memory heap.freeList heap.size heap.freeList

/-- The walk from a free block collects the block and those behind it. -/
theorem walk_free_eq {fuel : Nat} {skipped : List Block}
    (h : Holds memory head (skipped ++ block :: back) live) (hfuel : back.length < fuel) :
    walkFree memory head fuel (listNode block.addr) = some (block :: back) := by
  induction back generalizing fuel skipped block with
  | nil =>
    obtain ⟨fuel, rfl⟩ : ∃ k, fuel = k + 1 := ⟨fuel - 1, by simp at hfuel; omega⟩
    have hheader := (h.free_header block (by simp)).2
    have hnext : LinkStore.next memory (listNode block.addr) = head := h.next_node
    simp only [walkFree, block_of_list_node, hheader, if_pos hnext]
  | cons second back ih =>
    obtain ⟨fuel, rfl⟩ : ∃ k, fuel = k + 1 := ⟨fuel - 1, by simp at hfuel; omega⟩
    have hheader := (h.free_header block (by simp)).2
    have hmoved : Holds memory head ((skipped ++ [block]) ++ second :: back) live := by
      simpa using h
    have hnext : LinkStore.next memory (listNode block.addr) = listNode second.addr := h.next_node
    have hdiff : listNode second.addr ≠ head := hnext ▸ h.next_eq_head_iff.not.mpr (by simp)
    simp only [walkFree, block_of_list_node, hheader, hnext, if_neg hdiff,
      ih hmoved (by simpa using hfuel), Option.map_some]

theorem free_blocks_eq {heap : Heap} (h : Holds heap.memory heap.freeList free live)
    (hlength : free.length ≤ heap.size) : freeBlocks heap = some free := by
  unfold freeBlocks
  cases free with
  | nil => exact if_pos (h.list.head_eq_null_iff.mpr rfl)
  | cons first rest =>
    have hhead : heap.freeList = listNode first.addr := h.list.head_eq
    have hall : Holds heap.memory heap.freeList ([] ++ first :: rest) live := h
    have hwalk := walk_free_eq hall hlength
    rw [← hhead] at hwalk
    rw [if_neg (by rw [hhead]; simp [listNode]), hwalk]

theorem Represents.free_blocks (h : Represents session free live) :
    freeBlocks session.heap = some free :=
  free_blocks_eq h.holds h.fits.length_le

variable {heapStart heapSize : Nat}

theorem initial_free_blocks (memory : Mem)
    (hsize : freeBlockBytes ≤ heapSize) (hend : heapStart + heapSize < 2 ^ 64) :
    freeBlocks (kmemInit memory heapStart heapSize) = some [⟨heapStart, heapSize⟩] := by
  unfold freeBlockBytes at hsize
  have hbound : heapSize < 2 ^ 64 := by omega
  have hstart : heapStart + 8 < 2 ^ 64 := by omega
  have hlength : 1 ≤ heapSize := by omega
  exact free_blocks_eq (holds_initial memory hbound hstart) hlength

/-! ## Heaps that are too small for a block -/

/-- In a heap that is smaller than a block, nothing ever happens. -/
theorem Session.step_of_small {event : Event}
    (hsize : 0 < heapSize) (hsmall : heapSize < kmemMinFreeBlockSize)
    (hstart : heapStart + 8 < 2 ^ 64)
    (hstep : (Session.initial memory heapStart heapSize).step event = some next) :
    next = Session.initial memory heapStart heapSize := by
  cases event with
  | alloc request =>
    rw [kmemMinFreeBlockSize_eq] at hsmall
    have hbound : heapSize < 2 ^ 64 := by omega
    have hholds := holds_initial memory hbound hstart
    have hnone : kmemAlloc (kmemInit memory heapStart heapSize) request =
        some (kmemInit memory heapStart heapSize, 0) := by
      refine kmem_alloc_none hholds hsize ?_
      intro block hmem
      obtain rfl := List.mem_singleton.mp hmem
      exact Nat.lt_of_lt_of_le hsmall (le_needOf request)
    simp only [Session.step, Session.initial, hnone, Option.map_some,
      Option.ite_none_right_eq_some, Option.some.injEq, if_true] at hstep
    exact hstep.2.symm
  | free ptr => simp [Session.step, Session.initial] at hstep
  | write address value => simp [Session.step, Session.initial, InPayload] at hstep

/-! ## The order of releases -/

/-- Freeing a set of live pointers comes to an end, and the free list then has the bytes it had
before and those of their blocks. -/
theorem Represents.free_all {pointers : List Nat} (h : Represents session free live)
    (hlive : pointers ⊆ session.live) (hnodup : pointers.Nodup) :
    ∃ final free' live', run Session.step session (pointers.map .free) = some final ∧
      Represents final free' live' ∧ ∀ address, Covers free' address ↔
        Covers free address ∨
          ∃ block ∈ live, block.addr + usedBlockBytes ∈ pointers ∧ block.Contains address := by
  induction pointers generalizing session free live with
  | nil => exact ⟨session, free, live, rfl, h, by simp⟩
  | cons ptr pointers ih =>
    have hptr : ptr ∈ session.live := hlive List.mem_cons_self
    obtain ⟨block, hblock, rfl⟩ := List.mem_map.mp (h.pointers ▸ hptr)
    obtain ⟨before, behind, rfl⟩ := List.append_of_mem hblock
    obtain ⟨after, hfree, _, _, hafter⟩ := h.free_refines
    obtain ⟨hfresh, hnodup⟩ := List.nodup_cons.mp hnodup
    have hrest : pointers ⊆ session.live.erase (block.addr + usedBlockBytes) := by
      intro other hother
      have hne : other ≠ block.addr + usedBlockBytes := fun heq => hfresh (heq ▸ hother)
      exact (List.mem_erase_of_ne hne).mpr (hlive (List.mem_cons_of_mem _ hother))
    obtain ⟨final, free', live', hrun, hfinal, hcovers⟩ := ih hafter hrest hnodup
    refine ⟨final, free', live', ?_, hfinal, fun address => ?_⟩
    · have hstep : session.step (.free (block.addr + usedBlockBytes)) =
          some ⟨after, session.live.erase (block.addr + usedBlockBytes)⟩ := by
        simp only [Session.step, if_pos hptr, hfree, Option.map_some]
      rw [List.map_cons]
      exact run_cons_eq_some.mpr ⟨_, hstep, hrun⟩
    · rw [hcovers, covers_release]
      constructor
      · rintro ((hcontains | hcovered) | ⟨other, hother, hmem, hcontains⟩)
        · exact Or.inr ⟨block, hblock, List.mem_cons_self, hcontains⟩
        · exact Or.inl hcovered
        · refine Or.inr ⟨other, ?_, List.mem_cons_of_mem _ hmem, hcontains⟩
          simp only [List.mem_append, List.mem_cons] at hother ⊢
          tauto
      · rintro (hcovered | ⟨other, hother, hmem, hcontains⟩)
        · exact Or.inl (Or.inr hcovered)
        · rcases List.mem_cons.mp hmem with hsame | hmem
          · obtain rfl := h.fits.live_eq_of_addr hother hblock (Nat.add_right_cancel hsame)
            exact Or.inl (Or.inl hcontains)
          · by_cases heq : other = block
            · exact Or.inl (Or.inl (heq ▸ hcontains))
            · refine Or.inr ⟨other, ?_, hmem, hcontains⟩
              simp only [List.mem_append, List.mem_cons, heq, false_or] at hother ⊢
              exact hother

/-- Free lists with the same bytes are the same free list. -/
theorem Represents.free_list_eq {other : Session} {free' live' : List Block}
    (h : Represents session free live) (h' : Represents other free' live')
    (hcovers : ∀ address, Covers free address ↔ Covers free' address) :
    session.heap.freeList = other.heap.freeList ∧
      freeBlocks session.heap = freeBlocks other.heap := by
  have hlarge : ∀ block ∈ free, 0 < block.size := fun block hmem =>
    Nat.lt_of_lt_of_le (by decide) (h.fits.free_size hmem)
  have hlarge' : ∀ block ∈ free', 0 < block.size := fun block hmem =>
    Nat.lt_of_lt_of_le (by decide) (h'.fits.free_size hmem)
  have hfree : free = free' := h.coalesced.eq_of_covers h'.coalesced hlarge hlarge' hcovers
  subst hfree
  exact ⟨h.holds.list.head_eq.trans h'.holds.list.head_eq.symm,
    h.free_blocks.trans h'.free_blocks.symm⟩

/-- Every state that an initialised heap reaches is represented by blocks, or the heap is too small
for a block and is as it was. -/
theorem reachable_cases (hsize : freeBlockBytes ≤ heapSize)
    (hend : heapStart + heapSize < 2 ^ 64)
    (hreach : Reachable Session.step (Session.initial memory heapStart heapSize) session) :
    (∃ free live, Represents session free live) ∨
      session = Session.initial memory heapStart heapSize ∧ heapSize < kmemMinFreeBlockSize := by
  unfold freeBlockBytes at hsize
  by_cases hlarge : kmemMinFreeBlockSize ≤ heapSize
  · exact Or.inl (represents_of_reachable hlarge hend hreach)
  · have hsmall : heapSize < kmemMinFreeBlockSize := Nat.lt_of_not_le hlarge
    refine Or.inr ⟨hreach.invariant (· = Session.initial memory heapStart heapSize) rfl ?_, hsmall⟩
    rintro state event next rfl hstep
    exact Session.step_of_small (by omega) hsmall (by omega) hstep

/-- In every state that an initialised heap reaches, the pointers of a set of live blocks can be freed
in any order, and any two orders leave the same free list: the same head, and the same blocks with
the same sizes in the same sequence. The first header of the heap fits into it. -/
theorem free_order_irrelevant (memory : Mem) (heapStart heapSize : Nat)
    (hsize : freeBlockBytes ≤ heapSize) (hend : heapStart + heapSize < 2 ^ 64)
    {session : Session}
    (hreach : Reachable Session.step (Session.initial memory heapStart heapSize) session)
    {pointers others : List Nat} (hlive : pointers ⊆ session.live) (hnodup : pointers.Nodup)
    (hperm : pointers.Perm others) :
    ∃ first second, run Session.step session (pointers.map .free) = some first ∧
      run Session.step session (others.map .free) = some second ∧
      first.heap.freeList = second.heap.freeList ∧
      ∃ free, freeBlocks first.heap = some free ∧ freeBlocks second.heap = some free := by
  rcases reachable_cases hsize hend hreach with ⟨free, live, h⟩ | ⟨rfl, hsmall⟩
  · have hlive' : others ⊆ session.live := fun ptr hmem => hlive (hperm.mem_iff.mpr hmem)
    obtain ⟨first, free', live', hrun, hfirst, hcovers⟩ := h.free_all hlive hnodup
    obtain ⟨second, _, _, hrun', hsecond, hcovers'⟩ :=
      h.free_all hlive' (hperm.nodup_iff.mp hnodup)
    have hsame := hfirst.free_list_eq hsecond fun address => by
      simp only [hcovers, hcovers', hperm.mem_iff]
    exact ⟨first, second, hrun, hrun', hsame.1, free', hfirst.free_blocks,
      hsame.2 ▸ hfirst.free_blocks⟩
  · -- nothing is live in a heap that is too small for a block
    obtain rfl : pointers = [] := List.subset_nil.mp hlive
    obtain rfl := hperm.nil_eq
    have hblocks := initial_free_blocks memory hsize hend
    exact ⟨_, _, rfl, rfl, rfl, _, hblocks, hblocks⟩

/-- Three blocks in a heap of 512 bytes, freed in two orders. -/
theorem free_order_three_blocks : ∃ session first second free,
    run Session.step (Session.initial ⟨fun _ => 0⟩ 4096 512)
      [.alloc 8, .alloc 100, .alloc 8] = some session ∧
    run Session.step session ([4112, 4292, 4176].map .free) = some first ∧
    run Session.step session ([4176, 4112, 4292].map .free) = some second ∧
    freeBlocks first.heap = some free ∧ freeBlocks second.heap = some free := by
  have hlive : (run Session.step (Session.initial ⟨fun _ => 0⟩ 4096 512)
      [.alloc 8, .alloc 100, .alloc 8]).map Session.live = some [4292, 4176, 4112] := by
    decide +kernel
  obtain ⟨session, hrun, hlive⟩ := Option.map_eq_some_iff.mp hlive
  have hsubset : [4112, 4292, 4176] ⊆ session.live := by
    rw [hlive]
    decide
  obtain ⟨first, second, hfirst, hsecond, _, free, hfree, hfree'⟩ :=
    free_order_irrelevant ⟨fun _ => 0⟩ 4096 512 (by decide) (by decide) ⟨_, hrun⟩ hsubset
      (by decide) (by decide : [4112, 4292, 4176].Perm [4176, 4112, 4292])
  exact ⟨session, first, second, free, hrun, hfirst, hsecond, hfree, hfree'⟩

/-! ## Lost bytes -/

/-- The heap is as `kmem_init` leaves it: one free block, at its start and of its size. -/
def Restored (heap : Heap) (heapStart heapSize : Nat) : Prop :=
  heap.start = heapStart ∧ heap.size = heapSize ∧ heap.freeList = listNode heapStart ∧
    freeBlocks heap = some [⟨heapStart, heapSize⟩]

/-- The first free block that is large enough for the request has just the bytes that are needed, or
enough more of them for a block of their own. -/
def NoScrap (session : Session) : Event → Prop
  | .alloc request => ∀ free ∈ freeBlocks session.heap,
      ∀ block ∈ free.find? fun block => needOf request ≤ block.size,
        block.size = needOf request ∨ needOf request + kmemMinFreeBlockSize ≤ block.size
  | .free _ => True
  | .write _ _ => True

instance (session : Session) : (event : Event) → Decidable (NoScrap session event)
  | .alloc _ => inferInstanceAs (Decidable (∀ free ∈ freeBlocks session.heap, _))
  | .free _ => inferInstanceAs (Decidable True)
  | .write _ _ => inferInstanceAs (Decidable True)

/-- Every byte of the heap belongs to a free block or to a live one. -/
def AllAccounted (session : Session) : Prop :=
  ∃ free, freeBlocks session.heap = some free ∧
    Accounted session.heap.start (session.heap.start + session.heap.size) free
      (session.live.map (liveBlock session.heap.memory))

theorem Represents.all_accounted_iff (h : Represents session free live) :
    AllAccounted session ↔
      Accounted session.heap.start (session.heap.start + session.heap.size) free live := by
  unfold AllAccounted
  rw [h.live_eq, h.free_blocks]
  simp

theorem Represents.no_scrap_iff (h : Represents session free live) (request : Nat) :
    NoScrap session (.alloc request) ↔
      ∀ block ∈ free.find? fun block => needOf request ≤ block.size,
        block.size = needOf request ∨ needOf request + kmemMinFreeBlockSize ≤ block.size := by
  simp only [NoScrap, h.free_blocks, Option.mem_some_iff, forall_eq']

/-- A byte that was lost stays lost, and an event loses none exactly when it meets the condition. -/
theorem Represents.accounted_step {event : Event} (h : Represents session free live)
    (hstep : session.step event = some next) :
    AllAccounted next ↔ AllAccounted session ∧ NoScrap session event := by
  obtain ⟨free', live', hblocks, hstart, hsize, hnext⟩ := h.step hstep
  rw [h.all_accounted_iff, hnext.all_accounted_iff, hstart, hsize]
  cases hblocks with
  | @failed request hnone =>
    refine (and_iff_left ((h.no_scrap_iff request).mpr ?_)).symm
    have hsmall := takeFirstFit_eq_none.mp hnone
    have hfound : free.find? (fun block => needOf request ≤ block.size) = none := by
      rw [List.find?_eq_none]
      intro block hmem
      simpa using hsmall block hmem
    simp [hfound]
  | @taken request _ _ htake =>
    obtain ⟨front, block, back, rfl, hfront, hfit, rfl, rfl⟩ := takeFirstFit_eq_some htake
    rw [h.fits.accounted_take_iff hfit, h.no_scrap_iff]
    have hfound : (front ++ block :: back).find? (fun block => needOf request ≤ block.size) =
        some block := by
      rw [List.find?_append, List.find?_eq_none.mpr (by simpa using hfront)]
      simp [hfit]
    simp [hfound]
  | released hlive =>
    subst hlive
    rw [accounted_release_iff]
    exact (and_iff_left trivial).symm
  | written => exact (and_iff_left trivial).symm

/-- A heap without live blocks is as it was initialised exactly when no byte of it is lost. -/
theorem Represents.restored_iff (h : Represents session free live)
    (hsize : 0 < session.heap.size) (hfreed : session.live = []) :
    Restored session.heap session.heap.start session.heap.size ↔ AllAccounted session := by
  obtain rfl : live = [] := List.map_eq_nil_iff.mp (h.pointers.symm.trans hfreed)
  rw [h.all_accounted_iff, h.fits.accounted_nil_iff h.coalesced (by decide) (by omega),
    Nat.add_sub_cancel_left]
  constructor
  · rintro ⟨_, _, _, hblocks⟩
    exact Option.some.inj (h.free_blocks.symm.trans hblocks)
  · rintro rfl
    exact ⟨rfl, rfl, h.holds.list.head_eq, h.free_blocks⟩

/-- No request fits into a heap that is too small for a block. -/
theorem no_scrap_of_small (hsize : freeBlockBytes ≤ heapSize)
    (hend : heapStart + heapSize < 2 ^ 64) (hsmall : heapSize < kmemMinFreeBlockSize)
    (event : Event) : NoScrap (Session.initial memory heapStart heapSize) event := by
  cases event with
  | alloc request =>
    have hlarge := le_needOf request
    rw [kmemMinFreeBlockSize_eq] at hsmall
    have hfound : [(⟨heapStart, heapSize⟩ : Block)].find?
        (fun block => needOf request ≤ block.size) = none := by
      rw [List.find?_eq_none]
      intro block hmem
      obtain rfl := List.mem_singleton.mp hmem
      simpa using Nat.lt_of_lt_of_le hsmall hlarge
    intro free hfree
    obtain rfl := Option.some.inj ((initial_free_blocks memory hsize hend).symm.trans hfree)
    rw [hfound]
    simp
  | free ptr => trivial
  | write address value => trivial

/-- After a run at whose end everything is freed, the heap is as it was initialised exactly when every
allocation of the run found a block with just the bytes it needs, or with enough more of them. The
first header of the heap fits into it. -/
theorem heap_restored_iff_no_scrap (memory : Mem) (heapStart heapSize : Nat)
    (hsize : freeBlockBytes ≤ heapSize) (hend : heapStart + heapSize < 2 ^ 64)
    {events : List Event} {final : Session}
    (hrun : run Session.step (Session.initial memory heapStart heapSize) events = some final)
    (hfreed : final.live = []) :
    Restored final.heap heapStart heapSize ↔
      Meets Session.step NoScrap (Session.initial memory heapStart heapSize) events := by
  have hpositive : 0 < heapSize := Nat.lt_of_lt_of_le (by decide) hsize
  by_cases hlarge : kmemMinFreeBlockSize ≤ heapSize
  · let invariant : Session → Prop := fun session =>
      (∃ free live, Represents session free live) ∧ session.heap.start = heapStart ∧
        session.heap.size = heapSize
    have hpreserve : ∀ state event next, invariant state → Session.step state event = some next →
        invariant next := by
      rintro state event next ⟨⟨free, live, h⟩, rfl, rfl⟩ hstep
      obtain ⟨free', live', _, hstart, hsize, hnext⟩ := h.step hstep
      exact ⟨⟨free', live', hnext⟩, hstart, hsize⟩
    have hrepresents := represents_initial memory hlarge hend
    have hinitial : invariant (Session.initial memory heapStart heapSize) :=
      ⟨⟨_, _, hrepresents⟩, rfl, rfl⟩
    obtain ⟨⟨free, live, h⟩, hstart, hsame⟩ := run_invariant invariant hpreserve hinitial hrun
    have hmeets := holds_iff_meets invariant hpreserve
      (fun state event next ⟨⟨_, _, h⟩, _⟩ hstep => h.accounted_step hstep) hinitial hrun
    have haccounted : AllAccounted (Session.initial memory heapStart heapSize) :=
      (hrepresents.restored_iff hpositive rfl).mp
        ⟨rfl, rfl, rfl, initial_free_blocks memory hsize hend⟩
    have hrestored := h.restored_iff (hsame ▸ hpositive) hfreed
    rw [hstart, hsame] at hrestored
    rw [hrestored, hmeets]
    exact and_iff_right haccounted
  · -- nothing ever happens in a heap that is too small for a block
    have hsmall : heapSize < kmemMinFreeBlockSize := Nat.lt_of_not_le hlarge
    have hstart : heapStart + 8 < 2 ^ 64 := by
      unfold freeBlockBytes at hsize
      omega
    have hstays : ∀ state event next, state = Session.initial memory heapStart heapSize →
        Session.step state event = some next →
        next = Session.initial memory heapStart heapSize := by
      rintro state event next rfl hstep
      exact Session.step_of_small hpositive hsmall hstart hstep
    obtain rfl := run_invariant (· = Session.initial memory heapStart heapSize) hstays rfl
      hrun
    refine iff_of_true ⟨rfl, rfl, rfl, initial_free_blocks memory hsize hend⟩ ?_
    refine (meets_iff_meets (· = Session.initial memory heapStart heapSize) ?_ ?_ rfl).mpr
      (meets_true _ events)
    · rintro state event rfl
      exact iff_true_intro (no_scrap_of_small hsize hend hsmall event)
    · rintro state event next hstate _ hstep
      exact hstays state event next hstate hstep

/-- Two blocks in a heap of 1024 bytes, taken and given back. -/
theorem heap_restored_two_blocks : ∃ final,
    run Session.step (Session.initial ⟨fun _ => 0⟩ 4096 1024)
      [.alloc 256, .alloc 736, .free 4112, .free 4384] = some final ∧
    Restored final.heap 4096 1024 := by
  refine exists_of_any (fun final => final.live = []) (by decide +kernel) ?_
  intro final hrun hfreed
  exact (heap_restored_iff_no_scrap ⟨fun _ => 0⟩ 4096 1024 (by decide) (by decide) hrun
    hfreed).mpr (by decide +kernel)

/-- A request for 950 of 1024 bytes takes 966 of them. The other 58 are neither free nor in the block,
and they do not come back when the block is freed. -/
theorem scrap_is_lost : ∃ final,
    run Session.step (Session.initial ⟨fun _ => 0⟩ 4096 1024) [.alloc 950, .free 4112] =
      some final ∧
    final.live = [] ∧ freeBlocks final.heap = some [⟨4096, 966⟩] ∧
    ¬ Restored final.heap 4096 1024 := by
  refine exists_of_any (fun final => final.live = [] ∧
      freeBlocks final.heap = some [⟨4096, 966⟩]) (by decide +kernel) ?_
  rintro final hrun ⟨hlive, hblocks⟩
  refine ⟨hlive, hblocks, ?_⟩
  rintro ⟨_, _, _, hrestored⟩
  rw [hblocks] at hrestored
  simp at hrestored

end Otrix.Kmem
