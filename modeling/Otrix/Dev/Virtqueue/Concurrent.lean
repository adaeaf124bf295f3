import Otrix.Dev.Virtqueue.Delivery

/-!
# Concurrent submissions to a virtqueue

`virtq_send_buffer` statement by statement, for any number of threads. Only the two
regions that run with interrupts disabled are atomic: the one that takes a
descriptor from the free list, and the one that publishes it in the available ring.
A thread can lose the processor between any two control points, in particular
between the test for a free descriptor and the region that takes it, and between the
load and the store of `num_free_descriptors--`.

`Shared` is the invariant of the queue with calls in progress: the descriptor table
is split between the outstanding submissions, the descriptors that threads hold and
the free chain. The counter `num_free_descriptors` runs behind the chain by the
descriptors that were taken and not yet counted, so the test can pass although the
chain is empty. A store that overwrites the count of another thread or of the
interrupt makes it wrong for good.
-/

namespace Otrix.Dev

open Function Machine

/-! ## The statements of `virtq_send_buffer` -/

/-- Where a thread is in `virtq_send_buffer`: before a call; after the tests; with a descriptor
taken from the free list; after the context is set and `num_free_descriptors` is loaded; after the
decremented count is stored; after the descriptor is written; after it is published, before the device
is notified. -/
inductive SendPoint where
  | idle
  | checked (buffer : Buffer)
  | popped (idx : Nat) (buffer : Buffer)
  | loaded (idx : Nat) (buffer : Buffer) (count : Int)
  | counted (idx : Nat) (buffer : Buffer)
  | filled (idx : Nat) (buffer : Buffer)
  | published
  deriving DecidableEq

namespace Virtq

/-- The tests at the start of `virtq_send_buffer`. A call that fails returns. -/
def check (vq : Virtq) (buffer : Buffer) : SendPoint :=
  if buffer.addr = 0 ∨ buffer.size = 0 then .idle
  else if vq.freeList = -1 ∨ vq.numFreeDescriptors = 0 then .idle
  else .checked buffer

/-- What a thread does next in a call. -/
def advance (vq : Virtq) : SendPoint → Option (Virtq × SendPoint)
  | .idle => none
  | .checked buffer => some (vq.popFree vq.freeList.toNat, .popped vq.freeList.toNat buffer)
  -- nobody else looks at the context of a descriptor that was taken
  | .popped idx buffer =>
    some (vq.setContext idx buffer, .loaded idx buffer vq.numFreeDescriptors)
  | .loaded idx buffer count => some (vq.storeTaken count, .counted idx buffer)
  | .counted idx buffer => some (vq.fillDescriptor idx buffer, .filled idx buffer)
  | .filled idx _ => some (vq.publish idx, .published)
  | .published => some (vq.notify, .idle)

end Virtq

namespace SendPoint

/-- The descriptor that was taken from the free list and not yet counted. -/
def taken : SendPoint → Option Nat
  | .popped idx _ => some idx
  | .loaded idx _ _ => some idx
  | _ => none

/-- The descriptor that was counted and not yet published. -/
def ready : SendPoint → Option Nat
  | .counted idx _ => some idx
  | .filled idx _ => some idx
  | _ => none

/-- The descriptor that the thread holds. -/
def index : SendPoint → Option Nat
  | .popped idx _ => some idx
  | .loaded idx _ _ => some idx
  | .counted idx _ => some idx
  | .filled idx _ => some idx
  | _ => none

/-- What the next statement adds to the submissions. -/
def submits : SendPoint → List Buffer
  | .filled _ buffer => [buffer]
  | _ => []

end SendPoint

/-! ## Threads, interrupt and device -/

/-- A virtqueue with calls of `virtq_send_buffer` in progress. -/
structure Concurrent where
  sys : System
  threads : Nat → SendPoint

namespace Concurrent

/-- What can happen: a thread calls `virtq_send_buffer`, a thread gets on with its call, or the
device or the interrupt makes a step. -/
inductive Event where
  | call (thread : Nat) (buffer : Buffer)
  | advance (thread : Nat)
  | queue (event : SystemEvent)

/-- One event. A call that the interrupt handler makes is the call of a thread of its own. -/
def step (state : Concurrent) : Event → Option Concurrent
  | .call thread buffer =>
    if state.threads thread = .idle then
      some { state with
        threads := Function.update state.threads thread (state.sys.vq.check buffer) }
    else none
  | .advance thread => do
    let (vq, point) ← state.sys.vq.advance (state.threads thread)
    some
      { sys := { state.sys with
          vq := vq
          submitted := state.sys.submitted ++ (state.threads thread).submits }
        threads := Function.update state.threads thread point }
  | .queue (.send _) => none
  | .queue event => (state.sys.step event).map fun sys => { state with sys := sys }

/-- A new queue and no calls. -/
def initial (size irqHandler irqHandlerCtx : Nat) : Concurrent where
  sys := System.initial size irqHandler irqHandlerCtx
  threads := fun _ => .idle

/-- A call that is not interrupted is a call of `virtq_send_buffer`. -/
theorem run_uninterrupted (state : Concurrent) {thread : Nat} {buffer : Buffer}
    (hidle : state.threads thread = .idle)
    (hok : (virtqSendBuffer state.sys.vq buffer).1 = .ok) :
    run step state [.call thread buffer, .advance thread, .advance thread, .advance thread,
      .advance thread, .advance thread, .advance thread] =
        some { state with sys := state.sys.send buffer } := by
  have hvalid : ¬ (buffer.addr = 0 ∨ buffer.size = 0) := by
    intro hinvalid
    rw [virtqSendBuffer, if_pos hinvalid] at hok
    cases hok
  have hfree : ¬ (state.sys.vq.freeList = -1 ∨ state.sys.vq.numFreeDescriptors = 0) := by
    intro hnomem
    rw [virtqSendBuffer, if_neg hvalid, if_pos hnomem] at hok
    cases hok
  have hsend : state.sys.send buffer = { state.sys with
      vq := takeDescriptor state.sys.vq state.sys.vq.freeList.toNat buffer
      submitted := state.sys.submitted ++ [buffer] } := by
    rw [System.send, virtqSendBuffer, if_neg hvalid, if_neg hfree]
  have hcheck : state.sys.vq.check buffer = .checked buffer := by
    rw [Virtq.check, if_neg hvalid, if_neg hfree]
  rw [hsend]
  have hthreads : update state.threads thread .idle = state.threads := by
    rw [← hidle, update_eq_self]
  simp only [run, step, hidle, if_true, hcheck, Virtq.advance, SendPoint.submits,
    update_self, update_idem, hthreads, Option.bind_eq_bind, Option.bind_some,
    List.append_nil]
  rfl

/-! ## What should hold -/

/-- The descriptor of a submission: the one that the device has read, or the one in the available
ring. -/
def descriptorAt (state : Concurrent) (position : Nat) : Nat :=
  match state.sys.reads[position]? with
  | some (id, _) => id
  | none => state.sys.vq.availRing (position % state.sys.vq.size)

/-- The descriptors that the threads hold are theirs alone, and the free ones are counted. -/
structure Safe (state : Concurrent) : Prop where
  /-- The index that a thread has taken is in the table. -/
  in_table : ∀ thread idx, (state.threads thread).index = some idx → idx < state.sys.vq.size
  /-- It is not in flight. -/
  not_in_flight : ∀ thread idx, (state.threads thread).index = some idx →
    ∀ position ∈ state.sys.outstanding, state.descriptorAt position ≠ idx
  /-- No other thread has taken it. -/
  exclusive : ∀ first second idx, (state.threads first).index = some idx →
    (state.threads second).index = some idx → first = second
  /-- When no call is in progress, the counter is the length of the free chain. -/
  free : (∀ thread, state.threads thread = .idle) → ∃ chain,
    FreeChain state.sys.vq.descTable state.sys.vq.freeList chain ∧
    (∀ id ∈ chain, id < state.sys.vq.size) ∧ state.sys.vq.numFreeDescriptors = chain.length

/-- A thread takes a descriptor only while there is one in the free chain, whose end is `-1` as a
`uint16_t`. -/
def TakesFree (state : Concurrent) : Event → Prop
  | .advance thread => ∀ buffer, state.threads thread = .checked buffer →
      state.sys.vq.freeList ≠ 65535
  | _ => True

/-- A thread stores its count only while the counter is what it has loaded. -/
def CountsOwn (state : Concurrent) : Event → Prop
  | .advance thread => ∀ idx buffer count, state.threads thread = .loaded idx buffer count →
      state.sys.vq.numFreeDescriptors = count
  | _ => True

end Concurrent

/-! ## Descriptors held by threads -/

/-- The list has the descriptors that the threads have in a slot, with the threads. -/
def Holders (threads : Nat → SendPoint) (slot : SendPoint → Option Nat) (held : List (Nat × Nat)) :
    Prop :=
  ∀ thread idx, (thread, idx) ∈ held ↔ slot (threads thread) = some idx

variable {threads : Nat → SendPoint} {slot : SendPoint → Option Nat} {held : List (Nat × Nat)}
  {thread idx : Nat} {point : SendPoint}

theorem Holders.eq_nil (h : Holders threads slot held) (hnone : ∀ thread, slot (threads thread) = none) :
    held = [] := by
  refine List.eq_nil_iff_forall_not_mem.mpr fun ⟨thread, idx⟩ hmem => ?_
  have hsome := (h thread idx).mp hmem
  rw [hnone thread] at hsome
  cases hsome

theorem Holders.keep (h : Holders threads slot held) (hsame : slot point = slot (threads thread)) :
    Holders (update threads thread point) slot held := by
  intro other id
  rw [h other id]
  by_cases hother : other = thread
  · rw [hother, update_self, hsame]
  · rw [update_of_ne hother]

theorem Holders.add (h : Holders threads slot held) (hnone : slot (threads thread) = none)
    (hsome : slot point = some idx) :
    Holders (update threads thread point) slot ((thread, idx) :: held) := by
  intro other id
  rw [List.mem_cons, h other id, Prod.mk.injEq]
  by_cases hother : other = thread
  · rw [hother, update_self, hnone, hsome, Option.some.injEq]
    simp [eq_comm]
  · rw [update_of_ne hother]
    simp [hother]

theorem Holders.remove (h : Holders threads slot held) (hnodup : held.Nodup)
    (hsome : slot (threads thread) = some idx) (hnone : slot point = none) :
    Holders (update threads thread point) slot (held.erase (thread, idx)) := by
  intro other id
  rw [hnodup.mem_erase_iff, h other id, ne_eq, Prod.mk.injEq]
  by_cases hother : other = thread
  · rw [hother, update_self, hnone, hsome, Option.some.injEq]
    simp [eq_comm]
  · rw [update_of_ne hother]
    simp [hother]

/-- What a thread has written for its submission so far. -/
def SendPoint.Prepared (vq : Virtq) : SendPoint → Prop
  | .loaded idx buffer _ => vq.descCtx idx = buffer.ctx
  | .counted idx buffer => vq.descCtx idx = buffer.ctx
  | .filled idx buffer => (vq.descTable idx).Describes buffer ∧ vq.descCtx idx = buffer.ctx
  | _ => True

/-- It depends only on the descriptor that the thread holds. -/
theorem SendPoint.Prepared.congr {vq vq' : Virtq} (h : point.Prepared vq)
    (htable : ∀ idx, point.index = some idx → vq'.descTable idx = vq.descTable idx)
    (hctx : ∀ idx, point.index = some idx → vq'.descCtx idx = vq.descCtx idx) :
    point.Prepared vq' := by
  cases point with
  | idle | checked buffer | popped idx buffer | published => trivial
  | loaded idx buffer count | counted idx buffer => exact (hctx idx rfl).trans h
  | filled idx buffer =>
    refine ⟨?_, (hctx idx rfl).trans h.2⟩
    rw [htable idx rfl]
    exact h.1

theorem prepared_update {vq : Virtq} (hpoint : point.Prepared vq)
    (hothers : ∀ other, other ≠ thread → (threads other).Prepared vq) (other : Nat) :
    (update threads thread point other).Prepared vq := by
  by_cases hother : other = thread
  · rw [hother, update_self]
    exact hpoint
  · rw [update_of_ne hother]
    exact hothers other hother

/-- The invariant of a queue with calls in progress. `taken` are the descriptors that are not
counted yet, and `ready` are those that are counted and not published. -/
structure Shared (ids : Nat → Nat) (chain : List Nat) (taken ready : List (Nat × Nat))
    (state : Concurrent) : Prop where
  transit : Transit ids state.sys
  size_dvd : state.sys.vq.size ∣ 2 ^ 16
  size_le : state.sys.vq.size ≤ 2 ^ 15
  linked : FreeChain state.sys.vq.descTable state.sys.vq.freeList chain
  free : state.sys.vq.numFreeDescriptors = chain.length + taken.length
  /-- Every descriptor belongs to one outstanding submission, to one thread, or to the chain. -/
  split : (state.sys.outstanding.map ids ++ ((taken ++ ready).map Prod.snd ++ chain)).Perm
    (List.range state.sys.vq.size)
  described : state.sys.Described ids
  taken_iff : Holders state.threads SendPoint.taken taken
  ready_iff : Holders state.threads SendPoint.ready ready
  prepared : ∀ thread, (state.threads thread).Prepared state.sys.vq

variable {state : Concurrent} {ids : Nat → Nat} {chain : List Nat} {taken ready : List (Nat × Nat)}
  {buffer : Buffer}

namespace Shared

section

variable (h : Shared ids chain taken ready state)
include h

theorem nodup :
    (state.sys.outstanding.map ids ++ ((taken ++ ready).map Prod.snd ++ chain)).Nodup :=
  h.split.nodup_iff.mpr List.nodup_range

theorem nodup_held :
    ((taken ++ ready).map Prod.snd).Nodup :=
  (List.nodup_append.mp (List.nodup_append.mp h.nodup).2.1).1

/-- The outstanding submissions, the descriptors of the threads and the chain add up to the size. -/
theorem room :
    state.sys.submitted.length - state.sys.reads.length + state.sys.pending.length +
      (state.sys.completed.length - state.sys.freed) + taken.length + ready.length + chain.length =
      state.sys.vq.size := by
  have hlength := h.split.length_eq
  simp only [System.outstanding, List.length_append, List.length_map, List.length_drop,
    List.length_range', List.length_range] at hlength
  omega

theorem chain_lt {id : Nat} (hid : id ∈ chain) :
    id < state.sys.vq.size :=
  List.mem_range.mp (h.split.mem_iff.mp
    (List.mem_append_right _ (List.mem_append_right _ hid)))

theorem of_held (hmem : (thread, idx) ∈ taken ++ ready) :
    idx < state.sys.vq.size ∧ idx ∉ chain ∧ ∀ position ∈ state.sys.outstanding, ids position ≠ idx := by
  have hsnd : idx ∈ (taken ++ ready).map Prod.snd := List.mem_map_of_mem hmem
  refine ⟨?_, ?_, ?_⟩
  · exact List.mem_range.mp (h.split.mem_iff.mp
      (List.mem_append_right _ (List.mem_append_left _ hsnd)))
  · exact List.disjoint_of_nodup_append (List.nodup_append.mp h.nodup).2.1 hsnd
  · intro position hposition heq
    exact List.disjoint_of_nodup_append h.nodup (List.mem_map_of_mem hposition)
      (List.mem_append_left _ (heq ▸ hsnd))

theorem thread_eq {other : Nat}
    (hmem : (thread, idx) ∈ taken ++ ready) (hother : (other, idx) ∈ taken ++ ready) :
    other = thread :=
  congrArg Prod.fst (List.inj_on_of_nodup_map h.nodup_held hother hmem rfl)

/-- A thread that holds a descriptor is in one of the lists. -/
theorem mem_of_index
    (hindex : (state.threads thread).index = some idx) : (thread, idx) ∈ taken ++ ready := by
  rw [List.mem_append, h.taken_iff thread idx, h.ready_iff thread idx]
  cases hpoint : state.threads thread with
  | idle | checked buffer | published =>
    rw [hpoint] at hindex
    cases hindex
  | popped id buffer | loaded id buffer count =>
    rw [hpoint] at hindex
    exact .inl hindex
  | counted id buffer | filled id buffer =>
    rw [hpoint] at hindex
    exact .inr hindex

theorem index_ne {other id : Nat}
    (hindex : (state.threads thread).index = some idx) (hne : other ≠ thread)
    (hother : (state.threads other).index = some id) : id ≠ idx := by
  rintro rfl
  exact hne (h.thread_eq (h.mem_of_index hindex) (h.mem_of_index hother))

/-! ## The steps of a thread -/

theorem call (hidle : state.threads thread = .idle) (buffer : Buffer) :
    Shared ids chain taken ready { state with
      threads := update state.threads thread (state.sys.vq.check buffer) } := by
  have hcheck : state.sys.vq.check buffer = .idle ∨ state.sys.vq.check buffer = .checked buffer := by
    unfold Virtq.check
    split_ifs
    · exact .inl rfl
    · exact .inl rfl
    · exact .inr rfl
  refine ⟨h.transit, h.size_dvd, h.size_le, h.linked, h.free, h.split, h.described,
    h.taken_iff.keep ?_, h.ready_iff.keep ?_, prepared_update ?_ fun other _ => h.prepared other⟩
  all_goals
    rcases hcheck with hpoint | hpoint
    · rw [hpoint]
      simp only [hidle, SendPoint.taken, SendPoint.ready, SendPoint.Prepared]
    · rw [hpoint]
      simp only [hidle, SendPoint.taken, SendPoint.ready, SendPoint.Prepared]

end

theorem pop {id : Nat} (h : Shared ids (id :: chain) taken ready state)
    (hpoint : state.threads thread = .checked buffer) :
    Shared ids chain ((thread, id) :: taken) ready
      { sys := { state.sys with vq := state.sys.vq.popFree id }
        threads := update state.threads thread (.popped id buffer) } := by
  refine ⟨h.transit.congr rfl rfl rfl rfl rfl rfl rfl rfl, h.size_dvd, h.size_le, ?_, ?_, ?_,
    h.described, h.taken_iff.add (by rw [hpoint]; rfl) rfl, h.ready_iff.keep (by rw [hpoint]; rfl),
    prepared_update trivial fun other _ => (h.prepared other).congr (fun _ _ => rfl) fun _ _ => rfl⟩
  · exact h.linked.2
  · show state.sys.vq.numFreeDescriptors = _
    rw [h.free, List.length_cons, List.length_cons]
    omega
  · exact (List.Perm.append_left _ List.perm_middle.symm).trans h.split

variable (h : Shared ids chain taken ready state)
include h

theorem load (hpoint : state.threads thread = .popped idx buffer) (count : Int) :
    Shared ids chain taken ready
      { sys := { state.sys with vq := state.sys.vq.setContext idx buffer }
        threads := update state.threads thread (.loaded idx buffer count) } := by
  have hindex : (state.threads thread).index = some idx := by rw [hpoint]; rfl
  obtain ⟨_, _, hids⟩ := h.of_held (h.mem_of_index hindex)
  refine ⟨h.transit.congr rfl rfl rfl rfl rfl rfl rfl rfl, h.size_dvd, h.size_le, h.linked, h.free,
    h.split, ?_, h.taken_iff.keep (by rw [hpoint]; rfl), h.ready_iff.keep (by rw [hpoint]; rfl),
    prepared_update ?_ ?_⟩
  · intro position hposition found hfound
    refine (h.described position hposition found hfound).imp id fun hctx => ?_
    show update state.sys.vq.descCtx idx buffer.ctx (ids position) = found.ctx
    rw [update_of_ne (hids position hposition)]
    exact hctx
  · show update state.sys.vq.descCtx idx buffer.ctx idx = buffer.ctx
    exact update_self ..
  · intro other hne
    refine (h.prepared other).congr (fun _ _ => rfl) fun id hid => ?_
    exact update_of_ne (h.index_ne hindex hne hid) _ _

/-- A thread stores the count that it has loaded, less one, while this is still the count. -/
theorem store (hpoint : state.threads thread = .loaded idx buffer state.sys.vq.numFreeDescriptors) :
    Shared ids chain (taken.erase (thread, idx)) ((thread, idx) :: ready)
      { sys := { state.sys with vq := state.sys.vq.storeTaken state.sys.vq.numFreeDescriptors }
        threads := update state.threads thread (.counted idx buffer) } := by
  have htaken : (thread, idx) ∈ taken := (h.taken_iff thread idx).mpr (by rw [hpoint]; rfl)
  have hnodup : taken.Nodup := (List.nodup_append.mp h.nodup_held.of_map).1
  have hctx := h.prepared thread
  rw [hpoint] at hctx
  refine ⟨h.transit.congr rfl rfl rfl rfl rfl rfl rfl rfl, h.size_dvd, h.size_le, h.linked, ?_, ?_,
    h.described, h.taken_iff.remove hnodup (by rw [hpoint]; rfl) rfl,
    h.ready_iff.add (by rw [hpoint]; rfl) rfl, prepared_update hctx fun other _ =>
      (h.prepared other).congr (fun _ _ => rfl) fun _ _ => rfl⟩
  · show state.sys.vq.numFreeDescriptors - 1 = _
    have hpos := List.length_pos_of_mem htaken
    rw [h.free, List.length_erase_of_mem htaken]
    omega
  · have hperm : (taken.erase (thread, idx) ++ (thread, idx) :: ready).Perm (taken ++ ready) :=
      List.perm_middle.trans ((List.perm_cons_erase htaken).symm.append_right ready)
    exact (((hperm.map Prod.snd).append_right chain).append_left _).trans h.split

theorem fill (hpoint : state.threads thread = .counted idx buffer) :
    Shared ids chain taken ready
      { sys := { state.sys with vq := state.sys.vq.fillDescriptor idx buffer }
        threads := update state.threads thread (.filled idx buffer) } := by
  have hindex : (state.threads thread).index = some idx := by rw [hpoint]; rfl
  obtain ⟨_, hchain, hids⟩ := h.of_held (h.mem_of_index hindex)
  have hctx : state.sys.vq.descCtx idx = buffer.ctx := by
    have hprepared := h.prepared thread
    rw [hpoint] at hprepared
    exact hprepared
  refine ⟨h.transit.congr rfl rfl rfl rfl rfl rfl rfl rfl, h.size_dvd, h.size_le, ?_, h.free,
    h.split, ?_, h.taken_iff.keep (by rw [hpoint]; rfl), h.ready_iff.keep (by rw [hpoint]; rfl),
    prepared_update ⟨?_, hctx⟩ ?_⟩
  · refine h.linked.congr fun other hother => ?_
    show (update state.sys.vq.descTable idx _ other).next = _
    rw [update_of_ne (ne_of_mem_of_not_mem hother hchain)]
  · intro position hposition found hfound
    refine (h.described position hposition found hfound).imp (fun hdesc => ?_) id
    show (update state.sys.vq.descTable idx _ (ids position)).Describes found
    rw [update_of_ne (hids position hposition)]
    exact hdesc
  · show (update state.sys.vq.descTable idx _ idx).Describes buffer
    rw [update_self]
    exact ⟨rfl, rfl, rfl⟩
  · intro other hne
    refine (h.prepared other).congr (fun id hid => ?_) fun _ _ => rfl
    exact update_of_ne (h.index_ne hindex hne hid) _ _

/-- A thread publishes its descriptor: it becomes the descriptor of a new submission. -/
theorem publish (hpoint : state.threads thread = .filled idx buffer) :
    Shared (update ids state.sys.submitted.length idx) chain taken
      (ready.erase (thread, idx))
      { sys := { state.sys with
          vq := state.sys.vq.publish idx
          submitted := state.sys.submitted ++ [buffer] }
        threads := update state.threads thread .published } := by
  have hready : (thread, idx) ∈ ready := (h.ready_iff thread idx).mpr (by rw [hpoint]; rfl)
  have hnodup : ready.Nodup := (List.nodup_append.mp h.nodup_held.of_map).2.1
  obtain ⟨hlt, _, _⟩ := h.of_held (List.mem_append_right _ hready)
  have hprepared := h.prepared thread
  rw [hpoint] at hprepared
  have hroom := h.room
  have hsize := h.size_le
  have hpos := List.length_pos_of_mem hready
  have hids : ∀ position ∈ state.sys.outstanding,
      update ids state.sys.submitted.length idx position = ids position :=
    fun position hposition =>
      update_of_ne (Nat.ne_of_lt (h.transit.since_lt hposition)) _ _
  have htransit := h.transit.push h.size_dvd (by omega) (show idx < 2 ^ 16 by omega) buffer
  refine ⟨htransit.congr rfl rfl rfl rfl rfl rfl rfl rfl, h.size_dvd, h.size_le, h.linked, h.free,
    ?_, ?_, h.taken_iff.keep (by rw [hpoint]; rfl),
    h.ready_iff.remove hnodup (by rw [hpoint]; rfl) rfl,
    prepared_update trivial fun other _ => (h.prepared other).congr (fun _ _ => rfl) fun _ _ => rfl⟩
  · have hmap : (state.sys.outstanding ++ [state.sys.submitted.length]).map
        (update ids state.sys.submitted.length idx) =
        state.sys.outstanding.map ids ++ [idx] := by
      rw [List.map_append, List.map_congr_left hids, List.map_singleton, update_self]
    have hperm : ((thread, idx) :: (taken ++ ready.erase (thread, idx))).Perm (taken ++ ready) :=
      List.perm_middle.symm.trans ((List.perm_cons_erase hready).symm.append_left taken)
    rw [System.outstanding_eq_since, System.since_submit h.transit.available.reads_le]
    show (((state.sys.outstanding ++ [_]).map _) ++ _).Perm _
    rw [hmap, List.append_assoc]
    exact (((hperm.map Prod.snd).append_right chain).append_left _).trans h.split
  · intro position hposition found hfound
    rw [System.outstanding_eq_since, System.since_submit h.transit.available.reads_le] at hposition
    rcases List.mem_append.mp hposition with hold | hnew
    · rw [hids position hold]
      rw [List.getElem?_append_left (h.transit.since_lt hold)] at hfound
      exact h.described position hold found hfound
    · obtain rfl := List.mem_singleton.mp hnew
      rw [List.getElem?_concat_length, Option.some.injEq] at hfound
      rw [update_self, ← hfound]
      exact hprepared

theorem notify (hpoint : state.threads thread = .published) :
    Shared ids chain taken ready
      { sys := { state.sys with vq := state.sys.vq.notify }
        threads := update state.threads thread .idle } :=
  ⟨h.transit.congr rfl rfl rfl rfl rfl rfl rfl rfl, h.size_dvd, h.size_le, h.linked, h.free, h.split,
    h.described, h.taken_iff.keep (by rw [hpoint]; rfl), h.ready_iff.keep (by rw [hpoint]; rfl),
    prepared_update trivial fun other _ => (h.prepared other).congr (fun _ _ => rfl) fun _ _ => rfl⟩

variable {next : Concurrent}

/-- A thread goes on with its call. It finds a free descriptor if it is to take one, and the count that
it has loaded if it is to store. -/
theorem advance (hfree : state.TakesFree (.advance thread))
    (hown : state.CountsOwn (.advance thread)) (hstep : state.step (.advance thread) = some next) :
    ∃ ids chain taken ready, Shared ids chain taken ready next := by
  obtain ⟨⟨vq, point⟩, hadvance, hnext⟩ := Option.bind_eq_some_iff.mp hstep
  obtain rfl := Option.some.inj hnext
  cases hpoint : state.threads thread
  all_goals rw [hpoint] at hadvance
  case idle => cases hadvance
  all_goals
    obtain ⟨rfl, rfl⟩ := Prod.mk.inj (Option.some.inj hadvance)
    simp only [SendPoint.submits, List.append_nil]
  case checked buffer =>
    have hne := hfree buffer hpoint
    cases chain with
    | nil => exact absurd h.linked hne
    | cons id rest =>
      have hhead : state.sys.vq.freeList = id := h.linked.1
      simp only [hhead, Int.toNat_natCast]
      exact ⟨_, _, _, _, h.pop hpoint⟩
  case popped => exact ⟨_, _, _, _, h.load hpoint _⟩
  case loaded idx buffer count =>
    obtain rfl := hown idx buffer count hpoint
    exact ⟨_, _, _, _, h.store hpoint⟩
  case counted => exact ⟨_, _, _, _, h.fill hpoint⟩
  case filled => exact ⟨_, _, _, _, h.publish hpoint⟩
  case published => exact ⟨_, _, _, _, h.notify hpoint⟩

/-! ## The steps of the device and the interrupt -/

variable {after : System}

theorem consume (hstep : state.sys.step .consume = some after) :
    Shared ids chain taken ready { state with sys := after } := by
  have hroom := h.room
  have hsize := h.size_le
  obtain ⟨hlt, rfl⟩ := h.transit.consume_cases h.size_dvd (by omega) hstep
  have htransit := h.transit.consume hlt fun buffer hbuffer =>
    (h.described _ (System.reads_mem_outstanding hlt) buffer hbuffer).1
  refine ⟨htransit, h.size_dvd, h.size_le, h.linked, h.free, ?_, ?_, h.taken_iff, h.ready_iff,
    h.prepared⟩
  · rw [System.outstanding_eq_since, System.since_consume hlt]
    exact h.split
  · intro position hposition
    rw [System.outstanding_eq_since, System.since_consume hlt] at hposition
    exact h.described position hposition

theorem complete {position len : Nat}
    (hstep : state.sys.step (.complete position len) = some after) :
    Shared ids chain taken ready { state with sys := after } := by
  obtain ⟨hmem, rfl⟩ := h.transit.complete_cases hstep
  have hroom := h.room
  have hpending : 0 < state.sys.pending.length := List.length_pos_of_mem hmem
  have hperm := System.since_complete hmem h.transit.used.freed_le
    { state.sys.vq with
      usedRing := update state.sys.vq.usedRing
        (state.sys.vq.usedRingIdx % state.sys.vq.size) ⟨ids position, len⟩
      usedRingIdx := u16 (state.sys.vq.usedRingIdx + 1 : Nat) } len
  refine ⟨h.transit.complete h.size_dvd (by omega) hmem len, h.size_dvd, h.size_le, h.linked, h.free,
    ?_, fun other hother => h.described other (hperm.mem_iff.mp hother), h.taken_iff, h.ready_iff,
    fun thread => (h.prepared thread).congr (fun _ _ => rfl) fun _ _ => rfl⟩
  exact ((hperm.map ids).append_right _).trans h.split

theorem enter (hstep : state.sys.step .irqNext = some after) :
    Shared ids chain taken ready { state with sys := after } := by
  have hroom := h.room
  have hsize := h.size_le
  simp only [System.step, Option.ite_none_right_eq_some] at hstep
  obtain ⟨hidle, hstep⟩ := hstep
  obtain ⟨⟨descId, call⟩, hnext, hafter⟩ := Option.bind_eq_some_iff.mp hstep
  obtain rfl := Option.some.inj hafter
  rw [h.transit.next_eq h.size_dvd (by omega) h.described] at hnext
  obtain ⟨done, hdone, heq⟩ := Option.map_eq_some_iff.mp hnext
  obtain ⟨rfl, rfl⟩ := Prod.mk.inj heq
  exact ⟨h.transit.enter hidle hdone, h.size_dvd, h.size_le, h.linked, h.free, h.split, h.described,
    h.taken_iff, h.ready_iff, h.prepared⟩

theorem leave {descId : Nat} (hhandling : state.sys.handling = some descId) :
    Shared ids (descId :: chain) taken ready { state with sys := state.sys.leave descId } := by
  obtain ⟨done, hdone, rfl⟩ := h.transit.handling descId hhandling
  have houtstanding := System.outstanding_leave hdone (ids done.1)
  have hmem : done.1 ∈ state.sys.outstanding := by
    rw [houtstanding]
    exact List.mem_cons_self
  have hchain : ids done.1 ∉ chain := fun hin =>
    List.disjoint_of_nodup_append h.nodup (List.mem_map_of_mem hmem) (List.mem_append_right _ hin)
  have hlt : ∀ id ∈ chain, id < 2 ^ 16 := fun id hid => by
    have := h.chain_lt hid
    have := h.size_le
    omega
  refine ⟨h.transit.leave hhandling hdone, h.size_dvd, h.size_le, h.linked.push hlt hchain, ?_, ?_,
    ?_, h.taken_iff, h.ready_iff, ?_⟩
  · show state.sys.vq.numFreeDescriptors + 1 = _
    rw [h.free, List.length_cons]
    omega
  · have hsplit := h.split
    rw [houtstanding] at hsplit
    refine (List.Perm.trans ?_ hsplit)
    rw [← List.append_assoc, List.map_cons, List.cons_append, ← List.append_assoc]
    exact List.perm_middle
  · intro position hposition found hfound
    have hold : position ∈ state.sys.outstanding := by
      rw [houtstanding]
      exact List.mem_cons_of_mem _ hposition
    exact (h.described position hold found hfound).imp handle_vq_irq_free_describes.mpr id
  · intro thread
    refine (h.prepared thread).congr (fun idx hidx => ?_) fun _ _ => rfl
    obtain ⟨_, _, hids⟩ := h.of_held (h.mem_of_index hidx)
    exact update_of_ne (hids _ hmem).symm _ _

theorem queue {event : SystemEvent}
    (hstep : state.step (.queue event) = some next) :
    ∃ chain, Shared ids chain taken ready next := by
  cases event with
  | send buffer => cases hstep
  | consume =>
    obtain ⟨after, hafter, rfl⟩ := Option.map_eq_some_iff.mp hstep
    exact ⟨_, h.consume hafter⟩
  | complete position len =>
    obtain ⟨after, hafter, rfl⟩ := Option.map_eq_some_iff.mp hstep
    exact ⟨_, h.complete hafter⟩
  | setUsedFlags flags =>
    obtain rfl := Option.some.inj hstep
    exact ⟨chain, h.transit.congr rfl rfl rfl rfl rfl rfl rfl rfl, h.size_dvd, h.size_le, h.linked,
      h.free, h.split, h.described, h.taken_iff, h.ready_iff,
      fun thread => (h.prepared thread).congr (fun _ _ => rfl) fun _ _ => rfl⟩
  | irqNext =>
    obtain ⟨after, hafter, rfl⟩ := Option.map_eq_some_iff.mp hstep
    exact ⟨_, h.enter hafter⟩
  | irqFree =>
    obtain ⟨after, hafter, rfl⟩ := Option.map_eq_some_iff.mp hstep
    obtain ⟨descId, hhandling, hafter⟩ := Option.bind_eq_some_iff.mp hafter
    obtain rfl := Option.some.inj hafter
    exact ⟨_, h.leave hhandling⟩

/-- One step in which a thread does not take a descriptor from an empty chain, and does not overwrite
the count of another. -/
theorem step {event : Concurrent.Event} (hfree : state.TakesFree event)
    (hown : state.CountsOwn event) (hstep : state.step event = some next) :
    ∃ ids chain taken ready, Shared ids chain taken ready next := by
  cases event with
  | call thread buffer =>
    simp only [Concurrent.step, Option.ite_none_right_eq_some, Option.some.injEq] at hstep
    obtain ⟨hidle, rfl⟩ := hstep
    exact ⟨_, _, _, _, h.call hidle buffer⟩
  | advance thread => exact h.advance hfree hown hstep
  | queue event =>
    obtain ⟨chain', hnext⟩ := h.queue hstep
    exact ⟨_, _, _, _, hnext⟩

/-! ## Safety -/

theorem descriptor_at {position : Nat}
    (hlt : position < state.sys.submitted.length) : state.descriptorAt position = ids position := by
  unfold Concurrent.descriptorAt
  split
  · next id desc hread => exact (h.transit.available.read position id desc hread).1
  · next hnone =>
    exact h.transit.available.ring position _ (List.getElem?_eq_none_iff.mp hnone) (by simp [hlt])

/-- When no call is in progress the queue is coherent, as if every call had run without a break. -/
theorem coherent (hidle : ∀ thread, state.threads thread = .idle) : Coherent ids chain state.sys := by
  obtain rfl := h.taken_iff.eq_nil fun thread => by rw [hidle thread]; rfl
  obtain rfl := h.ready_iff.eq_nil fun thread => by rw [hidle thread]; rfl
  refine ⟨h.transit, h.size_dvd, h.size_le, h.linked, ?_, h.split,
    fun position hposition => h.transit.since_lt hposition, h.described⟩
  rw [h.free]
  exact Int.add_zero _

theorem safe : state.Safe where
  in_table thread idx hindex := (h.of_held (h.mem_of_index hindex)).1
  not_in_flight thread idx hindex position hposition := by
    rw [h.descriptor_at (h.transit.since_lt hposition)]
    exact (h.of_held (h.mem_of_index hindex)).2.2 position hposition
  exclusive first second idx hfirst hsecond :=
    h.thread_eq (h.mem_of_index hsecond) (h.mem_of_index hfirst)
  free hidle :=
    ⟨chain, h.linked, fun id hid => h.chain_lt hid, (h.coherent hidle).descriptors.free⟩

end Shared

/-! ## Whole runs -/

namespace Concurrent

theorem shared_initial {order : Nat} (horder : order ≤ 15) (irqHandler irqHandlerCtx : Nat) :
    Shared id (List.range (2 ^ order)) [] [] (initial (2 ^ order) irqHandler irqHandlerCtx) := by
  have hcoherent := coherent_initial_pow horder irqHandler irqHandlerCtx
  have hnone : ∀ slot : SendPoint → Option Nat, slot .idle = none →
      Holders (fun _ => .idle) slot [] := by
    intro slot hslot thread idx
    rw [hslot]
    exact iff_of_false List.not_mem_nil nofun
  exact ⟨hcoherent.toTransit, hcoherent.descriptors.size_dvd, hcoherent.descriptors.size_le,
    hcoherent.descriptors.linked,
    hcoherent.descriptors.free.trans (Int.add_zero _).symm, hcoherent.descriptors.split,
    hcoherent.descriptors.holds, hnone _ rfl, hnone _ rfl, fun _ => trivial⟩

/-- The descriptors of concurrent calls are safe in every run in which no thread takes a descriptor from
the empty free list and no thread overwrites the count of another one or of the interrupt. The test for a
free descriptor does not exclude the first, because another thread can take the last one after the
test. -/
theorem concurrent_submissions_safe {order : Nat} (horder : order ≤ 15)
    (irqHandler irqHandlerCtx : Nat) {events : List Event}
    (hmeets : Meets step (fun state event => state.TakesFree event ∧ state.CountsOwn event)
      (initial (2 ^ order) irqHandler irqHandlerCtx) events) :
    Always step Safe (initial (2 ^ order) irqHandler irqHandlerCtx) events :=
  (always_of_meets (fun state => ∃ ids chain taken ready, Shared ids chain taken ready state)
    (fun _ _ _ ⟨_, _, _, _, h⟩ hboth hstep => h.step hboth.1 hboth.2 hstep)
    ⟨_, _, _, _, shared_initial horder irqHandler irqHandlerCtx⟩ hmeets).imp
    fun _ ⟨_, _, _, _, h⟩ => h.safe

/-- Two threads with a queue of two descriptors: the second one passes the test and takes a descriptor
while the first one has not counted its own, and both are in the middle of their calls. -/
theorem concurrent_submissions_safe_two : ∃ final,
    run step (initial 2 0 0)
      [.call 0 ⟨4096, 64, true, 7⟩, .advance 0, .call 1 ⟨8192, 32, false, 8⟩, .advance 0,
        .advance 0, .advance 1] = some final ∧
    (final.threads 0).index = some 0 ∧ (final.threads 1).index = some 1 ∧
    Always step Safe (initial 2 0 0)
      [.call 0 ⟨4096, 64, true, 7⟩, .advance 0, .call 1 ⟨8192, 32, false, 8⟩, .advance 0,
        .advance 0, .advance 1] := by
  refine ⟨_, rfl, by decide +kernel, by decide +kernel, ?_⟩
  refine concurrent_submissions_safe (show 1 ≤ 15 by decide) 0 0 ?_
  refine ⟨⟨trivial, trivial⟩, fun _ hcall => ?_⟩
  obtain rfl := Option.some.inj hcall
  refine ⟨⟨fun _ _ => by decide, nofun⟩, fun _ hpop => ?_⟩
  obtain rfl := Option.some.inj hpop
  refine ⟨⟨trivial, trivial⟩, fun _ hcall => ?_⟩
  obtain rfl := Option.some.inj hcall
  refine ⟨⟨nofun, nofun⟩, fun _ hload => ?_⟩
  obtain rfl := Option.some.inj hload
  refine ⟨⟨nofun, fun _ _ _ hpoint => by injection hpoint⟩, fun _ hstore => ?_⟩
  obtain rfl := Option.some.inj hstore
  exact ⟨⟨fun _ _ => by decide, nofun⟩, fun _ _ => trivial⟩

/-- A thread submits a buffer, which the device completes. The interrupt frees its descriptor while a
second call is between the load and the store of the counter. -/
def freedWhileCounting : List Event :=
  [.call 0 ⟨4096, 64, true, 7⟩, .advance 0, .advance 0, .advance 0, .advance 0, .advance 0,
    .advance 0, .queue .consume, .queue (.complete 0 64), .call 0 ⟨8192, 32, false, 8⟩,
    .advance 0, .advance 0, .queue .irqNext, .queue .irqFree, .advance 0, .advance 0, .advance 0,
    .advance 0]

/-- The last descriptor is free when both threads test for it. The second one takes the end of the
chain, which is the index `65535` in a table of one descriptor. With two descriptors and one thread,
the count of the interrupt is overwritten: when no call is in progress, the counter is zero and the
chain has one descriptor. -/
theorem concurrent_submissions_break :
    (∃ final, run step (initial 1 0 0)
        [.call 0 ⟨4096, 64, true, 7⟩, .call 1 ⟨8192, 32, false, 8⟩, .advance 0, .advance 1] =
        some final ∧
      final.threads 0 = .popped 0 ⟨4096, 64, true, 7⟩ ∧
      final.threads 1 = .popped 65535 ⟨8192, 32, false, 8⟩ ∧ final.sys.vq.size = 1 ∧
      ¬ final.Safe) ∧
    ∃ final, run step (initial 2 0 0) freedWhileCounting = some final ∧
      (∀ thread, final.threads thread = .idle) ∧ final.sys.vq.numFreeDescriptors = 0 ∧
      FreeChain final.sys.vq.descTable final.sys.vq.freeList [0] ∧ ¬ final.Safe := by
  constructor
  · refine ⟨_, rfl, by decide +kernel, by decide +kernel, rfl, fun hsafe => ?_⟩
    have hlt := hsafe.in_table 1 65535 (by decide +kernel)
    exact absurd hlt (by decide)
  · obtain ⟨final, hrun, hidle, hcount, hhead, hend⟩ : ∃ final,
        run step (initial 2 0 0) freedWhileCounting = some final ∧
        (∀ thread, final.threads thread = .idle) ∧ final.sys.vq.numFreeDescriptors = 0 ∧
        final.sys.vq.freeList = 0 ∧ (final.sys.vq.descTable 0).next = 65535 := by
      refine ⟨_, rfl, fun thread => ?_, by decide +kernel, by decide +kernel, by decide +kernel⟩
      by_cases hsame : thread = 0
      · subst hsame
        rfl
      · simp [Function.update_of_ne hsame, initial]
    refine ⟨final, hrun, hidle, hcount, ⟨hhead, congrArg Int.ofNat hend⟩, fun hsafe => ?_⟩
    obtain ⟨chain, hchain, _, hlength⟩ := hsafe.free hidle
    obtain rfl : chain = [] := List.eq_nil_of_length_eq_zero (by omega)
    exact absurd (hhead.symm.trans hchain) (by decide)

end Concurrent

end Otrix.Dev
