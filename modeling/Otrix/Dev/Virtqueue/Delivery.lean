import Otrix.Dev.Virtqueue.Invariant
import Otrix.Foundation.Run

/-!
# Exactly-once delivery of the virtqueue

Every event moves a position on: a call of `virtq_send_buffer` takes a descriptor
from the chain, the device reads and completes it, and the interrupt reports it
and returns it to the chain. The queue stays coherent, and the results on runs are
read off the invariant.
-/

namespace Otrix.Dev

open Machine RingBuffer

variable {vq : Virtq} {submitted : List Buffer} {chain : List Nat} {ids : Nat → Nat}
  {reads : List (Nat × VirtioDescriptor)} {nextAvail : Nat} {sys : System}

/-! ## The positions that are outstanding -/

/-- The positions of the completions from `first` on, of the descriptors that the device has read
and not completed, and of those that it has not read. -/
def System.since (sys : System) (first : Nat) : List Nat :=
  (sys.completed.drop first).map Prod.fst ++ sys.pending ++
    List.range' sys.reads.length (sys.submitted.length - sys.reads.length)

theorem System.since_submit (hreads : sys.reads.length ≤ sys.submitted.length) (vq : Virtq)
    (buffer : Buffer) (first : Nat) :
    ({ sys with vq := vq, submitted := sys.submitted ++ [buffer] } : System).since first =
      sys.since first ++ [sys.submitted.length] := by
  simp only [System.since, List.length_append, List.length_singleton, List.append_assoc]
  rw [Nat.sub_add_comm hreads, List.range'_concat, Nat.one_mul, Nat.add_sub_cancel' hreads]

/-- The device reads a descriptor: its position moves from the unread ones to the pending ones. -/
theorem System.since_consume (hlt : sys.reads.length < sys.submitted.length)
    (nextAvail : Nat) (entry : Nat × VirtioDescriptor) (first : Nat) :
    ({ sys with
      nextAvail := nextAvail
      reads := sys.reads ++ [entry]
      pending := sys.pending ++ [sys.reads.length] } : System).since first = sys.since first := by
  obtain ⟨rest, hrest⟩ : ∃ rest, sys.submitted.length - sys.reads.length = rest + 1 :=
    ⟨sys.submitted.length - sys.reads.length - 1, by omega⟩
  simp only [System.since, List.length_append, List.length_singleton, List.append_assoc]
  rw [hrest, List.range'_succ, show sys.submitted.length - (sys.reads.length + 1) = rest by omega]
  rfl

/-- The device completes a descriptor: its position moves from the pending ones to the completed
ones. -/
theorem System.since_complete {position first : Nat} (hmem : position ∈ sys.pending)
    (hfirst : first ≤ sys.completed.length) (vq : Virtq) (len : Nat) :
    (({ sys with
      vq := vq
      pending := sys.pending.erase position
      completed := sys.completed ++ [(position, len)] } : System).since first).Perm
      (sys.since first) := by
  show (((sys.completed ++ [(position, len)]).drop first).map Prod.fst ++
    sys.pending.erase position ++ _).Perm (sys.since first)
  rw [List.drop_append_of_le_length hfirst, List.map_append,
    List.append_assoc ((sys.completed.drop first).map Prod.fst)]
  exact ((List.perm_cons_erase hmem).symm.append_left _).append_right _

variable {done : Nat × Nat}

theorem System.since_succ {first : Nat}
    (hdone : sys.completed[first]? = some done) : sys.since first = done.1 :: sys.since (first + 1) := by
  obtain ⟨hlt, hget⟩ := List.getElem?_eq_some_iff.mp hdone
  unfold System.since
  rw [List.drop_eq_getElem_cons hlt, hget]
  rfl

theorem System.outstanding_eq_since : sys.outstanding = sys.since sys.freed := rfl

theorem System.reads_mem_outstanding (hlt : sys.reads.length < sys.submitted.length) :
    sys.reads.length ∈ sys.outstanding := by
  refine List.mem_append_right _ (List.mem_range'_1.mpr ⟨Nat.le_refl _, ?_⟩)
  omega

theorem System.outstanding_leave (hdone : sys.completed[sys.freed]? = some done)
    (descId : Nat) : sys.outstanding = done.1 :: (sys.leave descId).outstanding :=
  System.since_succ hdone

/-! ## The way of a submission through the rings -/

section

variable (h : Transit ids sys)
include h

theorem Transit.completed_lt {done : Nat × Nat}
    (hdone : done ∈ sys.completed) : done.1 < sys.submitted.length := by
  have hmem := h.used.positions.mem_iff.mp (List.mem_append_left _ (List.mem_map_of_mem hdone))
  exact Nat.lt_of_lt_of_le (List.mem_range.mp hmem) h.available.reads_le

theorem Transit.since_lt {position first : Nat}
    (hmem : position ∈ sys.since first) : position < sys.submitted.length := by
  have hreads := h.available.reads_le
  rcases List.mem_append.mp hmem with hread | hunread
  · have hperm : position ∈ sys.completed.map Prod.fst ++ sys.pending := by
      rcases List.mem_append.mp hread with hdone | hpending
      · refine List.mem_append_left _ ?_
        rw [List.map_drop] at hdone
        exact List.mem_of_mem_drop hdone
      · exact List.mem_append_right _ hpending
    have hlt := List.mem_range.mp (h.used.positions.mem_iff.mp hperm)
    omega
  · have hlt := (List.mem_range'_1.mp hunread).2
    omega

/-- The handler is not called for more than what is completed. -/
theorem Transit.handled_le : sys.handled ≤ sys.completed.length := by
  unfold System.handled
  cases hhandling : sys.handling with
  | none => exact h.used.freed_le
  | some id =>
    obtain ⟨done, hdone, _⟩ := h.handling id hhandling
    exact (List.getElem?_eq_some_iff.mp hdone).1

/-- The rings do not depend on the descriptor table. -/
theorem Transit.congr {vq' : Virtq} (hsize : vq'.size = sys.vq.size)
    (havail : vq'.availRing = sys.vq.availRing) (havailIdx : vq'.availRingIdx = sys.vq.availRingIdx)
    (hused : vq'.usedRing = sys.vq.usedRing) (husedIdx : vq'.usedRingIdx = sys.vq.usedRingIdx)
    (hidx : vq'.usedIdx = sys.vq.usedIdx) (hhandler : vq'.irqHandler = sys.vq.irqHandler)
    (hctx : vq'.irqHandlerCtx = sys.vq.irqHandlerCtx) : Transit ids { sys with vq := vq' } where
  available := h.available.congr hsize havail havailIdx
  used := h.used.congr hsize hused husedIdx hidx fun _ _ => rfl
  handling := h.handling
  calls := by
    have howed : ({ sys with vq := vq' } : System).owedCalls (sys.completed.take sys.handled) =
        sys.owedCalls (sys.completed.take sys.handled) := by
      unfold System.owedCalls Virtq.callFor
      simp only [hhandler, hctx]
    exact h.calls.trans howed.symm

theorem Transit.push {id : Nat} (hdvd : sys.vq.size ∣ 2 ^ 16)
    (hroom : sys.submitted.length < sys.reads.length + sys.vq.size) (hid : id < 2 ^ 16)
    (buffer : Buffer) :
    Transit (Function.update ids sys.submitted.length id)
      { sys with
        vq := takeDescriptor sys.vq id buffer
        submitted := sys.submitted ++ [buffer] } := by
  have hreads := h.available.reads_le
  refine ⟨h.available.push hdvd hroom hid buffer, ?_, ?_, ?_⟩
  · exact h.used.congr rfl rfl rfl rfl fun position hlt => Function.update_of_ne (by omega) _ _
  · intro handled hhandling
    obtain ⟨done, hdone, heq⟩ := h.handling handled hhandling
    refine ⟨done, hdone, ?_⟩
    have hlt := h.completed_lt (List.mem_of_getElem? hdone)
    rw [Function.update_of_ne (by omega)]
    exact heq
  · rw [h.calls]
    unfold System.owedCalls
    show (if sys.vq.irqHandler = 0 then _ else _) = if sys.vq.irqHandler = 0 then _ else _
    congr 1
    refine List.map_congr_left fun done hdone => ?_
    rw [List.getElem?_append_left (h.completed_lt (List.mem_of_mem_take hdone))]
    rfl

/-- What the device reads: the descriptor of the next submission. -/
theorem Transit.consume_cases {after : System} (hdvd : sys.vq.size ∣ 2 ^ 16)
    (hroom : sys.submitted.length < sys.reads.length + 2 ^ 16)
    (hstep : sys.step .consume = some after) :
    sys.reads.length < sys.submitted.length ∧ after = { sys with
      nextAvail := u16 (sys.nextAvail + 1 : Nat)
      reads := sys.reads ++ [(ids sys.reads.length, sys.vq.descTable (ids sys.reads.length))]
      pending := sys.pending ++ [sys.reads.length] } := by
  simp only [System.step, Option.ite_none_right_eq_some, Option.some.injEq] at hstep
  obtain ⟨hne, rfl⟩ := hstep
  have hreads := h.available.reads_le
  have hlt : sys.reads.length < sys.submitted.length := by
    have hiff := h.available.next_avail_eq_iff hroom
    have : sys.reads.length ≠ sys.submitted.length := fun heq => hne (hiff.mpr heq)
    omega
  rw [h.available.next_entry hdvd hlt]
  exact ⟨hlt, rfl⟩

/-- The device reads a descriptor that holds its submission. -/
theorem Transit.consume (hlt : sys.reads.length < sys.submitted.length)
    (hdesc : ∀ buffer, sys.submitted[sys.reads.length]? = some buffer →
      (sys.vq.descTable (ids sys.reads.length)).Describes buffer) :
    Transit ids { sys with
      nextAvail := u16 (sys.nextAvail + 1 : Nat)
      reads := sys.reads ++ [(ids sys.reads.length, sys.vq.descTable (ids sys.reads.length))]
      pending := sys.pending ++ [sys.reads.length] } := by
  have hbuffer : sys.submitted[sys.reads.length]? = some (sys.submitted[sys.reads.length]) :=
    List.getElem?_eq_getElem hlt
  refine ⟨h.available.consume hbuffer (hdesc _ hbuffer), ?_, h.handling, h.calls⟩
  show Used sys.vq (sys.reads ++ [_]).length _ _ _ _
  rw [List.length_append, List.length_singleton]
  exact h.used.consume

/-- What the device writes: the descriptor of the position that it completes. -/
theorem Transit.complete_cases {after : System} {position len : Nat}
    (hstep : sys.step (.complete position len) = some after) :
    position ∈ sys.pending ∧ after = { sys with
      vq := { sys.vq with
        usedRing := Function.update sys.vq.usedRing (sys.vq.usedRingIdx % sys.vq.size)
          ⟨ids position, len⟩
        usedRingIdx := u16 (sys.vq.usedRingIdx + 1 : Nat) }
      pending := sys.pending.erase position
      completed := sys.completed ++ [(position, len)] } := by
  simp only [System.step, Option.ite_none_right_eq_some] at hstep
  obtain ⟨hmem, hstep⟩ := hstep
  obtain ⟨⟨id, desc⟩, hread, hafter⟩ := Option.bind_eq_some_iff.mp hstep
  obtain rfl := Option.some.inj hafter
  obtain ⟨rfl, _⟩ := h.available.read position id desc hread
  exact ⟨hmem, rfl⟩

theorem Transit.complete {position : Nat} (hdvd : sys.vq.size ∣ 2 ^ 16)
    (hroom : sys.completed.length < sys.freed + sys.vq.size) (hmem : position ∈ sys.pending)
    (len : Nat) :
    Transit ids { sys with
      vq := { sys.vq with
        usedRing := Function.update sys.vq.usedRing (sys.vq.usedRingIdx % sys.vq.size)
          ⟨ids position, len⟩
        usedRingIdx := u16 (sys.vq.usedRingIdx + 1 : Nat) }
      pending := sys.pending.erase position
      completed := sys.completed ++ [(position, len)] } := by
  refine ⟨h.available.congr rfl rfl rfl, h.used.complete hdvd hroom hmem len, ?_, ?_⟩
  · intro handled hhandling
    obtain ⟨done, hdone, heq⟩ := h.handling handled hhandling
    refine ⟨done, ?_, heq⟩
    rw [List.getElem?_append_left (List.getElem?_eq_some_iff.mp hdone).1]
    exact hdone
  · show sys.calls.map some =
      sys.owedCalls ((sys.completed ++ [(position, len)]).take sys.handled)
    rw [List.take_append_of_le_length h.handled_le]
    exact h.calls

end

/-- The descriptors of the outstanding submissions hold them. -/
def System.Described (sys : System) (ids : Nat → Nat) : Prop :=
  ∀ position ∈ sys.outstanding, ∀ buffer, sys.submitted[position]? = some buffer →
    (sys.vq.descTable (ids position)).Describes buffer ∧
      sys.vq.descCtx (ids position) = buffer.ctx

/-- The first half of a turn of the interrupt: what it finds, and that the call is the one that is
owed. -/
theorem Transit.next_eq (h : Transit ids sys) (hdvd : sys.vq.size ∣ 2 ^ 16)
    (hroom : sys.completed.length < sys.freed + 2 ^ 16) (hdesc : sys.Described ids) :
    handleVqIrqNext sys.vq = sys.completed[sys.freed]?.map fun done =>
      (ids done.1, if sys.vq.irqHandler ≠ 0
        then sys.submitted[done.1]?.map sys.vq.callFor else none) := by
  have hiff := h.used.used_idx_eq_iff hroom
  have hfreed := h.used.freed_le
  unfold handleVqIrqNext
  cases hdone : sys.completed[sys.freed]? with
  | none =>
    have hlength := List.getElem?_eq_none_iff.mp hdone
    rw [if_neg (not_not.mpr (hiff.mpr (by omega)))]
    rfl
  | some done =>
    obtain ⟨hlt, hget⟩ := List.getElem?_eq_some_iff.mp hdone
    rw [if_pos (fun heq => by have := hiff.mp heq; omega), h.used.next_entry hdvd hdone]
    have hmem : done.1 ∈ sys.outstanding := by
      rw [System.outstanding_leave hdone 0]
      exact List.mem_cons_self
    have hbuffer := List.getElem?_eq_getElem (h.completed_lt (List.mem_of_getElem? hdone))
    obtain ⟨⟨haddr, hlen, _⟩, hctx⟩ := hdesc _ hmem _ hbuffer
    simp only [hbuffer, Option.map_some, Virtq.callFor, haddr, hlen, hctx]

theorem Transit.enter (h : Transit ids sys) (hidle : sys.handling = none)
    (hdone : sys.completed[sys.freed]? = some done) :
    Transit ids (sys.enter (ids done.1) (if sys.vq.irqHandler ≠ 0
      then sys.submitted[done.1]?.map sys.vq.callFor else none)) := by
  refine ⟨h.available, h.used, ?_, ?_⟩
  · intro id hid
    exact ⟨done, hdone, (Option.some.inj hid).symm⟩
  · obtain ⟨hlt, hget⟩ := List.getElem?_eq_some_iff.mp hdone
    have hhandled : sys.handled = sys.freed := by simp [System.handled, hidle]
    have hcalls := h.calls
    rw [hhandled] at hcalls
    show (sys.calls ++ _).map some = sys.owedCalls (sys.completed.take (sys.freed + 1))
    rw [List.map_append, hcalls, List.take_succ_eq_append_getElem hlt, hget]
    have hbuffer := List.getElem?_eq_getElem (h.completed_lt (List.mem_of_getElem? hdone))
    unfold System.owedCalls
    by_cases hnull : sys.vq.irqHandler = 0
    · simp [hnull]
    · simp [hnull, hbuffer]

theorem Transit.leave {descId : Nat} (h : Transit ids sys)
    (hhandling : sys.handling = some descId) (hdone : sys.completed[sys.freed]? = some done) :
    Transit ids (sys.leave descId) := by
  have hlt := (List.getElem?_eq_some_iff.mp hdone).1
  refine ⟨h.available.congr rfl rfl rfl, h.used.free hlt _, nofun, ?_⟩
  have hhandled : sys.handled = sys.freed + 1 := by simp [System.handled, hhandling]
  have hcalls := h.calls
  rw [hhandled] at hcalls
  exact hcalls

/-! ## The steps of the system -/

theorem coherent_initial {size : Nat} (irqHandler irqHandlerCtx : Nat) (hsize : 0 < size)
    (hdvd : size ∣ 2 ^ 16) (hle : size ≤ 2 ^ 15) :
    Coherent id (List.range size) (System.initial size irqHandler irqHandlerCtx) where
  descriptors :=
    { size_dvd := hdvd
      size_le := hle
      linked := virtq_create_chain hsize
      free := by simp [System.initial, virtqCreate]
      split := List.Perm.refl _
      submitted_of_mem := by simp [System.outstanding, System.initial]
      holds := by simp [System.outstanding, System.initial] }
  available :=
    { reads_le := Nat.le_refl _
      read := by simp [System.initial]
      ring := Window.nil
      ring_idx := rfl
      next_avail := rfl }
  used :=
    { positions := List.Perm.refl _
      freed_le := Nat.le_refl _
      ring := Window.nil
      ring_idx := rfl
      used_idx := rfl }
  handling := by simp [System.initial]
  calls := by simp [System.initial, System.owedCalls]

/-- The sizes that a device has are powers of two up to `32768`. -/
theorem coherent_initial_pow {order : Nat} (horder : order ≤ 15) (irqHandler irqHandlerCtx : Nat) :
    Coherent id (List.range (2 ^ order)) (System.initial (2 ^ order) irqHandler irqHandlerCtx) :=
  coherent_initial irqHandler irqHandlerCtx (Nat.two_pow_pos order)
    (Nat.pow_dvd_pow 2 (by omega)) (Nat.pow_le_pow_right (by decide) horder)

section

variable (h : Coherent ids chain sys)
include h

/-- The outstanding submissions that the device has not read, and the completions that are not
freed, fit in the rings. -/
theorem Coherent.room :
    sys.submitted.length - sys.reads.length + sys.pending.length +
      (sys.completed.length - sys.freed) + chain.length = sys.vq.size := by
  have hlength := h.descriptors.length_add
  simp only [System.outstanding, List.length_append, List.length_map, List.length_drop,
    List.length_range'] at hlength
  omega

/-- A call of `virtq_send_buffer` keeps the queue coherent. -/
theorem Coherent.send (buffer : Buffer) :
    ∃ ids chain, Coherent ids chain (sys.send buffer) := by
  unfold System.send
  rw [virtq_send_buffer_eq h.descriptors]
  by_cases hinvalid : buffer.addr = 0 ∨ buffer.size = 0
  · rw [if_pos hinvalid]
    exact ⟨ids, chain, h⟩
  · rw [if_neg hinvalid]
    cases chain with
    | nil => exact ⟨ids, [], h⟩
    | cons id rest =>
      have hroom := h.room
      have hsize := h.descriptors.size_le
      have hid := h.descriptors.lt_size (List.mem_append_right _ (List.mem_cons_self))
      rw [List.length_cons] at hroom
      have htransit := h.toTransit.push h.descriptors.size_dvd (by omega)
        (show id < 2 ^ 16 by omega) buffer
      refine ⟨Function.update ids sys.submitted.length id, rest, htransit, ?_⟩
      rw [System.outstanding_eq_since, System.since_submit h.available.reads_le]
      exact h.descriptors.take buffer

/-- Reading the next available descriptor keeps the queue coherent. -/
theorem Coherent.consume {after : System}
    (hstep : sys.step .consume = some after) : Coherent ids chain after := by
  have hroom := h.room
  have hsize := h.descriptors.size_le
  obtain ⟨hlt, rfl⟩ := h.toTransit.consume_cases h.descriptors.size_dvd (by omega) hstep
  have htransit := h.toTransit.consume hlt fun buffer hbuffer =>
    (h.descriptors.holds _ (System.reads_mem_outstanding hlt) buffer hbuffer).1
  refine ⟨htransit, ?_⟩
  rw [System.outstanding_eq_since, System.since_consume hlt]
  exact h.descriptors

theorem Coherent.complete {after : System} {position len : Nat}
    (hstep : sys.step (.complete position len) = some after) : Coherent ids chain after := by
  obtain ⟨hmem, rfl⟩ := h.toTransit.complete_cases hstep
  have hroom := h.room
  have hpending : 0 < sys.pending.length := List.length_pos_of_mem hmem
  have htransit := h.toTransit.complete h.descriptors.size_dvd (by omega) hmem len
  refine ⟨htransit, ?_⟩
  exact (h.descriptors.perm (System.since_complete hmem h.used.freed_le _ len)).congr
    rfl rfl rfl rfl rfl

theorem Coherent.next_eq :
    handleVqIrqNext sys.vq = sys.completed[sys.freed]?.map fun done =>
      (ids done.1, if sys.vq.irqHandler ≠ 0
        then sys.submitted[done.1]?.map sys.vq.callFor else none) := by
  have hroom := h.room
  have hsize := h.descriptors.size_le
  exact h.toTransit.next_eq h.descriptors.size_dvd (by omega) h.descriptors.holds

theorem Coherent.enter {descId : Nat} {call : Option IrqCall}
    (hidle : sys.handling = none) (hnext : handleVqIrqNext sys.vq = some (descId, call)) :
    Coherent ids chain (sys.enter descId call) := by
  rw [h.next_eq] at hnext
  obtain ⟨done, hdone, heq⟩ := Option.map_eq_some_iff.mp hnext
  obtain ⟨rfl, rfl⟩ := Prod.mk.inj heq
  exact ⟨h.toTransit.enter hidle hdone, h.descriptors⟩

theorem Coherent.leave {descId : Nat} (hhandling : sys.handling = some descId) :
    Coherent ids (descId :: chain) (sys.leave descId) := by
  obtain ⟨done, hdone, rfl⟩ := h.handling descId hhandling
  refine ⟨h.toTransit.leave hhandling hdone, ?_⟩
  have hdescriptors := h.descriptors
  rw [System.outstanding_leave hdone (ids done.1)] at hdescriptors
  exact hdescriptors.release

theorem Coherent.step {event : SystemEvent} {after : System}
    (hstep : sys.step event = some after) : ∃ ids chain, Coherent ids chain after := by
  cases event with
  | send buffer =>
    obtain rfl := Option.some.inj hstep
    exact h.send buffer
  | consume => exact ⟨ids, chain, h.consume hstep⟩
  | complete position len => exact ⟨ids, chain, h.complete hstep⟩
  | setUsedFlags flags =>
    obtain rfl := Option.some.inj hstep
    exact ⟨ids, chain, h.toTransit.congr rfl rfl rfl rfl rfl rfl rfl rfl,
      h.descriptors.congr rfl rfl rfl rfl rfl⟩
  | irqNext =>
    simp only [System.step, Option.ite_none_right_eq_some] at hstep
    obtain ⟨hidle, hstep⟩ := hstep
    obtain ⟨⟨descId, call⟩, hnext, hafter⟩ := Option.bind_eq_some_iff.mp hstep
    obtain rfl := Option.some.inj hafter
    exact ⟨ids, chain, h.enter hidle hnext⟩
  | irqFree =>
    obtain ⟨descId, hhandling, hafter⟩ := Option.bind_eq_some_iff.mp hstep
    obtain rfl := Option.some.inj hafter
    exact ⟨ids, descId :: chain, h.leave hhandling⟩

end

/-! ## The interrupt as a whole -/

/-- A call of `virtq_send_buffer` leaves the device and the interrupt alone. -/
theorem System.send_frame (sys : System) (buffer : Buffer) :
    (sys.send buffer).handling = sys.handling ∧ (sys.send buffer).completed = sys.completed ∧
      (sys.send buffer).freed = sys.freed := by
  unfold System.send
  split
  · exact ⟨rfl, rfl, rfl⟩
  · exact ⟨rfl, rfl, rfl⟩

theorem System.send_submitted (sys : System) (buffer : Buffer) :
    (sys.send buffer).submitted = if (virtqSendBuffer sys.vq buffer).1 = .ok
      then sys.submitted ++ [buffer] else sys.submitted := by
  unfold System.send
  split
  · next hok => rw [hok, if_pos rfl]
  · next hne heq => rw [heq, if_neg hne]

theorem System.send_irq_handler (sys : System) (buffer : Buffer) :
    (sys.send buffer).vq.irqHandler = sys.vq.irqHandler := by
  unfold System.send virtqSendBuffer
  split_ifs
  · rfl
  · rfl
  · rfl

/-- What the handler submits is a run of calls that keeps the queue coherent. -/
theorem Coherent.sends (h : Coherent ids chain sys) (buffers : List Buffer) :
    ∃ ids chain after, buffers.foldl System.send sys = after ∧ Coherent ids chain after ∧
      run System.step sys (buffers.map SystemEvent.send) = some after ∧
      after.handling = sys.handling ∧ after.completed = sys.completed ∧
      after.freed = sys.freed := by
  induction buffers generalizing sys ids chain with
  | nil => exact ⟨ids, chain, sys, rfl, h, rfl, rfl, rfl, rfl⟩
  | cons buffer buffers ih =>
    obtain ⟨ids', chain', hsent⟩ := h.send buffer
    obtain ⟨ids'', chain'', after, hfold, hafter, hrun, hhandling, hcompleted, hfreed⟩ := ih hsent
    obtain ⟨hhandling', hcompleted', hfreed'⟩ := sys.send_frame buffer
    exact ⟨ids'', chain'', after, hfold, hafter,
      run_cons_eq_some.mpr ⟨sys.send buffer, rfl, hrun⟩, hhandling.trans hhandling',
      hcompleted.trans hcompleted', hfreed.trans hfreed'⟩

/-- `handle_vq_irq` returns after one turn for each completion that was not freed, and then all
completions are freed. It is a run of the steps of the system. -/
theorem Coherent.handle_vq_irq (h : Coherent ids chain sys) (hidle : sys.handling = none)
    (sends : IrqCall → List Buffer) {fuel : Nat}
    (hfuel : sys.completed.length - sys.freed < fuel) :
    ∃ after, sys.handleVqIrq sends fuel = some after ∧
      (∃ events, run System.step sys events = some after) ∧
      after.handling = none ∧ after.completed = sys.completed ∧
      after.freed = sys.completed.length := by
  induction fuel generalizing sys ids chain with
  | zero => omega
  | succ fuel ih =>
    unfold System.handleVqIrq
    have hle := h.used.freed_le
    cases hnext : handleVqIrqNext sys.vq with
    | none =>
      rw [h.next_eq, Option.map_eq_none_iff] at hnext
      have hlength := List.getElem?_eq_none_iff.mp hnext
      exact ⟨sys, rfl, ⟨[], rfl⟩, hidle, rfl, by omega⟩
    | some found =>
      obtain ⟨descId, call⟩ := found
      have hlt : sys.freed < sys.completed.length := by
        have hsome := hnext
        rw [h.next_eq, Option.map_eq_some_iff] at hsome
        obtain ⟨done, hdone, _⟩ := hsome
        exact (List.getElem?_eq_some_iff.mp hdone).1
      -- the turn: enter the handler, what it submits, leave the handler
      have henter := h.enter hidle hnext
      obtain ⟨ids', chain', between, hfold, hbetween, hrun, hhandling, hcompleted, hfreed⟩ :=
        henter.sends (call.toList.flatMap sends)
      simp only [hfold]
      have hleave := hbetween.leave hhandling
      have hfreed' : (between.leave descId).freed = sys.freed + 1 := congrArg (· + 1) hfreed
      have hcompleted' : (between.leave descId).completed = sys.completed := hcompleted
      obtain ⟨after, hloop, ⟨events, hevents⟩, hresult⟩ :=
        ih hleave rfl (by rw [hfreed', hcompleted']; omega)
      rw [hcompleted'] at hresult
      refine ⟨after, hloop, ⟨.irqNext :: ((call.toList.flatMap sends).map .send ++
        .irqFree :: events), ?_⟩, hresult⟩
      refine run_cons_eq_some.mpr ⟨sys.enter descId call, ?_, ?_⟩
      · simp only [System.step, if_pos hidle, hnext, Option.bind_eq_bind, Option.bind_some]
      · rw [run_append, hrun]
        refine run_cons_eq_some.mpr ⟨between.leave descId, ?_, hevents⟩
        simp only [System.step, hhandling, System.enter, Option.bind_eq_bind, Option.bind_some]

/-! ## Whole runs -/

/-- `ids` are the descriptors of the submissions: the ones that the device has read, and the ones in
the available ring. -/
def System.DescriptorsAre (sys : System) (ids : Nat → Nat) : Prop :=
  (∀ position id desc, sys.reads[position]? = some (id, desc) → id = ids position) ∧
    ∀ position, sys.reads.length ≤ position → position < sys.submitted.length →
      sys.vq.availRing (position % sys.vq.size) = ids position

/-- What the queue is for: every accepted buffer is delivered once in each direction, and the
descriptors are accounted for. -/
structure ExactlyOnce (sys : System) : Prop where
  /-- The device has read the accepted buffers in order. -/
  reads : List.Forall₂ (fun (read : Nat × VirtioDescriptor) buffer => read.2.Describes buffer)
    sys.reads (sys.submitted.take sys.reads.length)
  /-- The device finds nothing to read exactly when it has read all of them. -/
  read_all : sys.nextAvail = sys.vq.availRingIdx ↔ sys.reads.length = sys.submitted.length
  /-- A descriptor that the device has read and not completed still holds its buffer. -/
  intact : ∀ position ∈ sys.pending, ∃ id desc buffer, sys.reads[position]? = some (id, desc) ∧
    sys.submitted[position]? = some buffer ∧ (sys.vq.descTable id).Describes buffer
  /-- Every descriptor that was read is pending or was completed once. -/
  completions : (sys.completed.map Prod.fst ++ sys.pending).Perm (List.range sys.reads.length)
  /-- The handler was called once for each completion so far, in order and with its buffer. -/
  calls : sys.calls.map some = sys.owedCalls (sys.completed.take sys.handled)
  /-- The loop of the interrupt ends exactly when no completion is left. -/
  handled_all : sys.vq.usedIdx = sys.vq.usedRingIdx ↔ sys.freed = sys.completed.length
  /-- The interrupt comes to its end with all completions handled. -/
  irq : sys.handling = none → ∀ (sends : IrqCall → List Buffer) (fuel : Nat),
    sys.completed.length - sys.freed < fuel →
    ∃ after, sys.handleVqIrq sends fuel = some after ∧ after.completed = sys.completed ∧
      after.calls.map some = after.owedCalls sys.completed
  /-- The free chain has the counted number of distinct descriptors, none of them in flight. -/
  free : ∃ ids chain, sys.DescriptorsAre ids ∧
    FreeChain sys.vq.descTable sys.vq.freeList chain ∧
    sys.vq.numFreeDescriptors = chain.length ∧ (sys.outstanding.map ids ++ chain).Nodup ∧
    ∀ id, id ∈ sys.outstanding.map ids ++ chain ↔ id < sys.vq.size
  /-- Free descriptors and descriptors in flight add up to the size. -/
  count : sys.vq.numFreeDescriptors + sys.outstanding.length = sys.vq.size
  /-- A call with a buffer fails for want of memory exactly when all descriptors are in flight. -/
  nomem : ∀ buffer : Buffer, (virtqSendBuffer sys.vq buffer).1 = .nomem ↔
    buffer.addr ≠ 0 ∧ buffer.size ≠ 0 ∧ sys.outstanding.length = sys.vq.size
  /-- A call that fails changes nothing. -/
  refused : ∀ buffer : Buffer, (virtqSendBuffer sys.vq buffer).1 ≠ .ok →
    (virtqSendBuffer sys.vq buffer).2 = sys.vq

/-- The device reads what was submitted, in order. -/
theorem Available.forall₂ (h : Available vq submitted reads nextAvail ids) :
    List.Forall₂ (fun (read : Nat × VirtioDescriptor) buffer => read.2.Describes buffer)
      reads (submitted.take reads.length) := by
  rw [List.forall₂_iff_get]
  refine ⟨by rw [List.length_take, Nat.min_eq_left h.reads_le], fun position hread hbuffer => ?_⟩
  obtain ⟨_, buffer, hfound, hdesc⟩ :=
    h.read position _ _ (List.getElem?_eq_getElem hread)
  obtain ⟨hlt, hget⟩ := List.getElem?_eq_some_iff.mp hfound
  rw [List.get_eq_getElem, List.get_eq_getElem, List.getElem_take, hget]
  exact hdesc

/-- What the invariant says about the buffers and the calls. -/
theorem Coherent.exactly_once (h : Coherent ids chain sys) : ExactlyOnce sys := by
  have hroom := h.room
  have hsize := h.descriptors.size_le
  have hlength := h.descriptors.length_add
  have hfreed := h.used.freed_le
  have hreads := h.available.reads_le
  refine ⟨h.available.forall₂, h.available.next_avail_eq_iff (by omega), ?_, h.used.positions,
    h.calls, h.used.used_idx_eq_iff (by omega), ?_, ⟨ids, chain, ⟨?_, ?_⟩, h.descriptors.linked,
      h.descriptors.free, h.descriptors.nodup, ?_⟩, ?_, ?_, ?_⟩
  · intro position hmem
    have hlt := List.mem_range.mp (h.used.positions.mem_iff.mp (List.mem_append_right _ hmem))
    obtain ⟨heq, buffer, hbuffer, _⟩ :=
      h.available.read position _ _ (List.getElem?_eq_getElem hlt)
    have houtstanding : position ∈ sys.outstanding :=
      List.mem_append_left _ (List.mem_append_right _ hmem)
    refine ⟨_, _, buffer, List.getElem?_eq_getElem hlt, hbuffer, ?_⟩
    rw [heq]
    exact (h.descriptors.holds position houtstanding buffer hbuffer).1
  · intro hidle sends fuel hfuel
    obtain ⟨after, hloop, ⟨events, hrun⟩, hdone, hcompleted, hall⟩ :=
      h.handle_vq_irq hidle sends hfuel
    obtain ⟨ids', chain', hafter⟩ := run_invariant
      (fun sys => ∃ ids chain, Coherent ids chain sys)
      (fun _ _ _ ⟨_, _, hcoherent⟩ hstep => hcoherent.step hstep) ⟨ids, chain, h⟩ hrun
    have hhandled : after.handled = after.completed.length := by
      simp [System.handled, hdone, hall, hcompleted]
    have hcalls := hafter.calls
    rw [hhandled, List.take_length, hcompleted] at hcalls
    exact ⟨after, hloop, hcompleted, hcalls⟩
  · intro position id desc hread
    exact (h.available.read position id desc hread).1
  · intro position hle hlt
    exact h.available.ring position _ hle (by simp [hlt])
  · intro id
    rw [h.descriptors.split.mem_iff, List.mem_range]
  · rw [h.descriptors.free]
    omega
  · intro buffer
    rw [virtq_send_buffer_eq h.descriptors]
    by_cases hinvalid : buffer.addr = 0 ∨ buffer.size = 0
    · rw [if_pos hinvalid]
      exact iff_of_false nofun fun hvalid => hinvalid.elim hvalid.1 hvalid.2.1
    · rw [if_neg hinvalid]
      obtain ⟨haddr, hbytes⟩ := not_or.mp hinvalid
      cases chain with
      | nil => exact iff_of_true rfl ⟨haddr, hbytes, hlength⟩
      | cons id rest =>
        refine iff_of_false nofun fun hvalid => ?_
        rw [List.length_cons] at hlength
        omega
  · intro buffer hne
    rw [virtq_send_buffer_eq h.descriptors] at hne ⊢
    by_cases hinvalid : buffer.addr = 0 ∨ buffer.size = 0
    · rw [if_pos hinvalid]
    · rw [if_neg hinvalid] at hne ⊢
      cases chain with
      | nil => rfl
      | cons id rest => exact absurd rfl hne

/-- In every reachable state of a queue whose size is a power of two up to `32768`, every buffer is
delivered exactly once and the descriptors are accounted for. -/
theorem virtq_exactly_once {order : Nat} (horder : order ≤ 15) (irqHandler irqHandlerCtx : Nat)
    {sys : System}
    (hreach : Reachable System.step
      (System.initial (2 ^ order) irqHandler irqHandlerCtx) sys) :
    ExactlyOnce sys := by
  obtain ⟨ids, chain, hcoherent⟩ := hreach.invariant
    (fun sys => ∃ ids chain, Coherent ids chain sys)
    ⟨_, _, coherent_initial_pow horder irqHandler irqHandlerCtx⟩
    (fun _ _ _ ⟨_, _, hcoherent⟩ hstep => hcoherent.step hstep)
  exact hcoherent.exactly_once

/-- A queue with two descriptors, both submitted, completed in the other order, and one of them
reported. -/
theorem virtq_exactly_once_two : ∃ sys,
    run System.step (System.initial 2 1 5)
      [.send ⟨4096, 64, true, 7⟩, .send ⟨8192, 32, false, 8⟩, .consume, .consume, .complete 1 0,
        .complete 0 64, .irqNext, .irqFree] = some sys ∧
    sys.calls = [⟨5, 8, 8192, 32⟩] ∧ ExactlyOnce sys := by
  refine exists_of_any (fun sys => sys.calls = [⟨5, 8, 8192, 32⟩]) (by decide +kernel) ?_
  intro sys hrun hcalls
  exact ⟨hcalls, virtq_exactly_once (show 1 ≤ 15 by decide) 1 5 ⟨_, hrun⟩⟩

/-- With all descriptors in flight a call without a buffer is not refused for want of memory. -/
theorem null_buffer_is_not_nomem : ∃ sys,
    run System.step (System.initial 1 0 0) [.send ⟨4096, 64, true, 7⟩] = some sys ∧
    sys.outstanding.length = sys.vq.size ∧
    (virtqSendBuffer sys.vq ⟨0, 64, true, 7⟩).1 = .inval := by
  exact ⟨_, rfl, by decide +kernel, by decide +kernel⟩

end Otrix.Dev
