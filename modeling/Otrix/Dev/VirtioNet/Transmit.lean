import Otrix.Net.Transmit
import Otrix.Dev.Virtqueue.Delivery

/-!
# The ownership of transmitted socket buffers

`virtio_net::write` hands the bytes of a `sockbuf` to the transmit queue, and
`tx_completion_event` deletes the `sockbuf` that the queue reports as the context
of the completed descriptor. `TxSystem` is the queue with its device and the history
of the socket buffers: which ones were posted, which ones were refused, and which
ones were deleted.

The call of `virtq_send_buffer` in `write` leaves the context at its default, so the
context of every descriptor is a null pointer. What a run deletes is read off this
one invariant.
-/

namespace Otrix.Dev

open Bytes Machine Otrix.Net

/-! ## The driver -/

/-- What `virtio_net::write` passes to `virtq_send_buffer`: the data of the buffer as a `void *` and
its size as a `uint32_t`. The last argument is not given, and its default is a null pointer. -/
def txBuffer (skb : Sockbuf) : Buffer where
  addr := skb.data
  size := skb.size % 2 ^ 32
  deviceWritable := false
  ctx := 0

/-- `tx_completion_event`: the socket buffers that it deletes. Deleting a null pointer does
nothing. -/
def txCompletionEvent (call : IrqCall) : List Nat :=
  let owner := call.dataCtx
  if owner ≠ 0 then [owner] else []

/-- The transmit side of a `virtio_net`. `posted` are the addresses of the socket buffers that
`write` has accepted, in the order of the submissions of the queue, and `refused` are those of the
calls that failed. -/
structure TxSystem where
  queue : System
  memory : Mem
  posted : List Nat
  refused : List Nat
  deleted : List Nat

namespace TxSystem

/-- `virtio_net::write` on the socket buffer `skb` at the address `object`. -/
def write (net : VirtioNet) (tx : TxSystem) (object : Nat) (skb : Sockbuf) (dest : Mac)
    (type : Ethertype) : Kerror × TxSystem :=
  let (memory, skb) := virtioNetWrite net tx.memory skb dest type
  let ret := (virtqSendBuffer tx.queue.vq (txBuffer skb)).1
  let tx := { tx with memory := memory, queue := tx.queue.send (txBuffer skb) }
  if ret ≠ .ok then (ret, { tx with refused := tx.refused ++ [object] })
  else (.ok, { tx with posted := tx.posted ++ [object] })

/-- What can happen: a call of `write`, the device reads a descriptor, completes one or sets its
flags, and the two halves of a turn of the interrupt. -/
inductive Event where
  | write (object : Nat) (skb : Sockbuf) (dest : Mac) (type : Ethertype)
  | consume
  | complete (position len : Nat)
  | setUsedFlags (flags : Nat)
  | irqNext
  | irqFree

/-- The events of the queue that are not calls of the driver. -/
def ofQueue (tx : TxSystem) (event : SystemEvent) : Option TxSystem :=
  (tx.queue.step event).map fun queue => { tx with queue := queue }

/-- One event. -/
def step (net : VirtioNet) (tx : TxSystem) : Event → Option TxSystem
  | .write object skb dest type => some (tx.write net object skb dest type).2
  | .consume => tx.ofQueue .consume
  | .complete position len => tx.ofQueue (.complete position len)
  | .setUsedFlags flags => tx.ofQueue (.setUsedFlags flags)
  | .irqNext =>
    if tx.queue.handling = none then do
      let (descId, call) ← handleVqIrqNext tx.queue.vq
      some { tx with
        queue := tx.queue.enter descId call
        deleted := tx.deleted ++ call.toList.flatMap txCompletionEvent }
    else none
  | .irqFree => tx.ofQueue .irqFree

/-- The driver after its constructor has created the queue. -/
def initial (size irqHandler irqHandlerCtx : Nat) (memory : Mem) : TxSystem where
  queue := System.initial size irqHandler irqHandlerCtx
  memory := memory
  posted := []
  refused := []
  deleted := []

/-! ## What the driver should release -/

/-- The socket buffers of the completions that were reported to the driver. -/
def completed (tx : TxSystem) : List (Option Nat) :=
  (tx.queue.completed.take tx.queue.handled).map fun done => tx.posted[done.1]?

/-- The number of descriptors in flight: posted, and the completion not reported. -/
def inFlight (tx : TxSystem) : Nat :=
  tx.queue.submitted.length - tx.queue.handled

/-- The socket buffers that were passed to `write` and not deleted. -/
def live (tx : TxSystem) : List Nat :=
  (tx.refused ++ tx.posted).diff tx.deleted

/-- Every socket buffer is released once. -/
structure ReleasedOnce (tx : TxSystem) : Prop where
  /-- What was deleted is what was refused and what was completed, each as often as it was passed to
  `write`. -/
  deleted : (tx.deleted.map some).Perm (tx.refused.map some ++ tx.completed)
  /-- The contexts that the queue reports are the socket buffers of the descriptors. -/
  contexts : tx.queue.calls.map (fun call => some call.dataCtx) = tx.completed
  /-- As many socket buffers are alive as descriptors are in flight. -/
  live : tx.live.length = tx.inFlight

/-- The step has nothing to release: the packet of a `write` has an address and bytes, and a
descriptor is left for it, and no completion is reported. -/
def NothingToRelease (net : VirtioNet) (tx : TxSystem) : Event → Prop
  | .write _ skb dest type =>
    let buffer := txBuffer (virtioNetWrite net tx.memory skb dest type).2
    (buffer.addr ≠ 0 ∧ buffer.size ≠ 0) ∧
      tx.queue.vq.freeList ≠ -1 ∧ tx.queue.vq.numFreeDescriptors ≠ 0
  | .irqNext => False
  | _ => True

instance (net : VirtioNet) (tx : TxSystem) : ∀ event, Decidable (tx.NothingToRelease net event)
  | .write _ _ _ _ => inferInstanceAs (Decidable ((_ ∧ _) ∧ _ ∧ _))
  | .irqNext => isFalse id
  | .consume | .complete _ _ | .setUsedFlags _ | .irqFree => isTrue trivial

end TxSystem

/-! ## Queues without contexts -/

/-- The context of every descriptor is null, and the handler was called once for each completion
that was reported. -/
structure Contextless (queue : System) : Prop where
  context : ∀ id, queue.vq.descCtx id = 0
  handler : queue.vq.irqHandler ≠ 0
  calls : queue.calls.length = queue.handled
  handled_le : queue.handled ≤ queue.completed.length
  used_ring_idx : queue.vq.usedRingIdx = queue.completed.length % 2 ^ 16
  used_idx : queue.vq.usedIdx = queue.freed % 2 ^ 16

variable {queue after : System}

section

variable (h : Contextless queue)
include h

theorem Contextless.send {buffer : Buffer} (hctx : buffer.ctx = 0) :
    Contextless (queue.send buffer) := by
  unfold System.send virtqSendBuffer
  split_ifs
  · exact ⟨h.context, h.handler, h.calls, h.handled_le, h.used_ring_idx, h.used_idx⟩
  · exact ⟨h.context, h.handler, h.calls, h.handled_le, h.used_ring_idx, h.used_idx⟩
  · refine ⟨fun id => ?_, h.handler, h.calls, h.handled_le, h.used_ring_idx, h.used_idx⟩
    show Function.update queue.vq.descCtx _ buffer.ctx id = 0
    rw [hctx, Function.update_apply, h.context]
    exact ite_self 0

/-- The interrupt finds a completion that was not reported, and the call has no context. -/
theorem Contextless.next {descId : Nat} {call : Option IrqCall}
    (hidle : queue.handling = none) (hnext : handleVqIrqNext queue.vq = some (descId, call)) :
    queue.freed < queue.completed.length ∧ ∃ reported, call = some reported ∧
      reported.dataCtx = 0 := by
  unfold handleVqIrqNext at hnext
  rw [Option.ite_none_right_eq_some] at hnext
  obtain ⟨hne, hfound⟩ := hnext
  obtain ⟨rfl, rfl⟩ := Prod.mk.inj (Option.some.inj hfound)
  have hle := h.handled_le
  have hhandled : queue.handled = queue.freed := by simp [System.handled, hidle]
  have hdiffer : queue.freed ≠ queue.completed.length := by
    intro heq
    rw [h.used_idx, h.used_ring_idx, heq] at hne
    exact hne rfl
  exact ⟨by omega, _, if_pos h.handler, h.context _⟩

theorem Contextless.enter {descId : Nat} {call : Option IrqCall}
    (hidle : queue.handling = none) (hnext : handleVqIrqNext queue.vq = some (descId, call)) :
    Contextless (queue.enter descId call) := by
  obtain ⟨hlt, reported, rfl, _⟩ := h.next hidle hnext
  have hcalls := h.calls
  have hhandled : queue.handled = queue.freed := by simp [System.handled, hidle]
  refine ⟨h.context, h.handler, ?_, hlt, h.used_ring_idx, h.used_idx⟩
  show (queue.calls ++ [reported]).length = queue.freed + 1
  rw [List.length_append, hcalls, hhandled]
  rfl

theorem Contextless.leave {descId : Nat}
    (hhandling : queue.handling = some descId) : Contextless (queue.leave descId) := by
  have hhandled : queue.handled = queue.freed + 1 := by simp [System.handled, hhandling]
  have hle : queue.freed + 1 ≤ queue.completed.length := hhandled ▸ h.handled_le
  refine ⟨h.context, h.handler, h.calls.trans hhandled, hle, h.used_ring_idx, ?_⟩
  show u16 (queue.vq.usedIdx + 1 : Nat) = _
  rw [u16_natCast, h.used_idx, RingBuffer.counter_succ]
  rfl

theorem Contextless.complete {position len : Nat}
    (hstep : queue.step (.complete position len) = some after) : Contextless after := by
  simp only [System.step, Option.ite_none_right_eq_some] at hstep
  obtain ⟨_, hread⟩ := hstep
  obtain ⟨_, _, hafter⟩ := Option.bind_eq_some_iff.mp hread
  obtain rfl := Option.some.inj hafter
  have hlength : (queue.completed ++ [(position, len)]).length = queue.completed.length + 1 :=
    List.length_append
  refine ⟨h.context, h.handler, h.calls, ?_, ?_, h.used_idx⟩
  · show queue.handled ≤ (queue.completed ++ [(position, len)]).length
    rw [hlength]
    exact Nat.le_succ_of_le h.handled_le
  · show u16 (queue.vq.usedRingIdx + 1 : Nat) = (queue.completed ++ [(position, len)]).length % 2 ^ 16
    rw [u16_natCast, h.used_ring_idx, RingBuffer.counter_succ, hlength]

/-- Every event keeps a queue without contexts, if no call names one. -/
theorem Contextless.step {event : SystemEvent}
    (hctx : ∀ buffer, event = .send buffer → buffer.ctx = 0)
    (hstep : queue.step event = some after) : Contextless after := by
  cases event with
  | send buffer =>
    obtain rfl := Option.some.inj hstep
    exact h.send (hctx buffer rfl)
  | consume =>
    simp only [System.step, Option.ite_none_right_eq_some, Option.some.injEq] at hstep
    obtain ⟨_, rfl⟩ := hstep
    exact ⟨h.context, h.handler, h.calls, h.handled_le, h.used_ring_idx, h.used_idx⟩
  | complete position len => exact h.complete hstep
  | setUsedFlags flags =>
    obtain rfl := Option.some.inj hstep
    exact ⟨h.context, h.handler, h.calls, h.handled_le, h.used_ring_idx, h.used_idx⟩
  | irqNext =>
    simp only [System.step, Option.ite_none_right_eq_some] at hstep
    obtain ⟨hidle, hstep⟩ := hstep
    obtain ⟨⟨descId, call⟩, hnext, hafter⟩ := Option.bind_eq_some_iff.mp hstep
    obtain rfl := Option.some.inj hafter
    exact h.enter hidle hnext
  | irqFree =>
    obtain ⟨descId, hhandling, hafter⟩ := Option.bind_eq_some_iff.mp hstep
    obtain rfl := Option.some.inj hafter
    exact h.leave hhandling

end

/-! ## Runs of the driver -/

namespace TxSystem

variable {net : VirtioNet} {tx next : TxSystem}

/-- The queue has no contexts, and nothing was deleted. -/
structure Leaking (tx : TxSystem) : Prop where
  queue : Contextless tx.queue
  deleted : tx.deleted = []
  posted : tx.posted.length = tx.queue.submitted.length

/-- Nothing had to be released so far. -/
def Unreleased (tx : TxSystem) : Prop :=
  tx.refused = [] ∧ tx.queue.handled = 0

/-- Since nothing is deleted, the buffers are released as they should exactly when there is nothing
to release. -/
theorem Leaking.released_once_iff (h : Leaking tx) : tx.ReleasedOnce ↔ tx.Unreleased := by
  constructor
  · intro hreleased
    have hperm := hreleased.deleted
    rw [h.deleted, List.map_nil, List.nil_perm, List.append_eq_nil_iff, List.map_eq_nil_iff] at hperm
    obtain ⟨hrefused, hcompleted⟩ := hperm
    refine ⟨hrefused, ?_⟩
    have hlength := congrArg List.length hcompleted
    have hle := h.queue.handled_le
    rw [completed, List.length_map, List.length_take, List.length_nil] at hlength
    omega
  · rintro ⟨hrefused, hhandled⟩
    have hcompleted : tx.completed = [] := by simp [completed, hhandled]
    refine ⟨?_, ?_, ?_⟩
    · simp [h.deleted, hrefused, hcompleted]
    · have hcalls := h.queue.calls
      rw [hhandled, List.length_eq_zero_iff] at hcalls
      rw [hcalls, hcompleted, List.map_nil]
    · simp [live, inFlight, h.deleted, hrefused, hhandled, h.posted]

/-- `write` fails on a packet without bytes, and when no descriptor is left. -/
theorem write_ok_iff (object : Nat) (skb : Sockbuf) (dest : Mac) (type : Ethertype) :
    (tx.write net object skb dest type).1 = .ok ↔
      tx.NothingToRelease net (.write object skb dest type) := by
  simp only [TxSystem.write, NothingToRelease, virtqSendBuffer, ← not_or]
  split_ifs <;> simp_all

/-- A call of `write` deletes nothing, also when it fails. -/
theorem Leaking.write (h : Leaking tx) (object : Nat) (skb : Sockbuf) (dest : Mac)
    (type : Ethertype) :
    Leaking (tx.write net object skb dest type).2 ∧
      ((tx.write net object skb dest type).2.Unreleased ↔
        tx.Unreleased ∧ (tx.write net object skb dest type).1 = .ok) := by
  cases hsent : virtioNetWrite net tx.memory skb dest type with
  | mk memory sent =>
    have hqueue : Contextless (tx.queue.send (txBuffer sent)) := h.queue.send rfl
    have hsubmitted := tx.queue.send_submitted (txBuffer sent)
    have hhandled : (tx.queue.send (txBuffer sent)).handled = tx.queue.handled := by
      obtain ⟨hhandling, _, hfreed⟩ := tx.queue.send_frame (txBuffer sent)
      rw [System.handled, System.handled, hhandling, hfreed]
    unfold Unreleased
    by_cases hok : (virtqSendBuffer tx.queue.vq (txBuffer sent)).1 = .ok
    · rw [if_pos hok] at hsubmitted
      simp only [TxSystem.write, hsent, hok, ne_eq, not_true_eq_false, if_false, hhandled, and_true]
      refine ⟨hqueue, h.deleted, ?_⟩
      simp only [hsubmitted, List.length_append, List.length_singleton, h.posted]
    · rw [if_neg hok] at hsubmitted
      simp only [TxSystem.write, hsent, hok, ne_eq, not_false_eq_true, if_true,
        List.append_eq_nil_iff, List.cons_ne_nil, and_false, false_and, and_true]
      exact ⟨hqueue, h.deleted, h.posted.trans (congrArg List.length hsubmitted.symm)⟩

/-- An event of the queue that is not a call of the driver deletes nothing. -/
theorem Leaking.of_queue (h : Leaking tx) (event : SystemEvent)
    (hevent : ∀ buffer, event ≠ .send buffer) (hirq : event ≠ .irqNext)
    (hstep : tx.ofQueue event = some next) :
    Leaking next ∧ (next.Unreleased ↔ tx.Unreleased) := by
  obtain ⟨after, hafter, rfl⟩ := Option.map_eq_some_iff.mp hstep
  have hqueue := h.queue.step (fun buffer heq => absurd heq (hevent buffer)) hafter
  have hframe : after.submitted = tx.queue.submitted ∧ after.handled = tx.queue.handled := by
    cases event with
    | send buffer => exact absurd rfl (hevent buffer)
    | consume =>
      simp only [System.step, Option.ite_none_right_eq_some, Option.some.injEq] at hafter
      obtain ⟨_, rfl⟩ := hafter
      exact ⟨rfl, rfl⟩
    | complete position len =>
      simp only [System.step, Option.ite_none_right_eq_some] at hafter
      obtain ⟨_, hread⟩ := hafter
      obtain ⟨_, _, hafter⟩ := Option.bind_eq_some_iff.mp hread
      obtain rfl := Option.some.inj hafter
      exact ⟨rfl, rfl⟩
    | setUsedFlags flags =>
      obtain rfl := Option.some.inj hafter
      exact ⟨rfl, rfl⟩
    | irqNext => exact absurd rfl hirq
    | irqFree =>
      obtain ⟨descId, hhandling, hafter⟩ := Option.bind_eq_some_iff.mp hafter
      obtain rfl := Option.some.inj hafter
      refine ⟨rfl, ?_⟩
      show tx.queue.freed + 1 = tx.queue.handled
      simp [System.handled, hhandling]
  refine ⟨⟨hqueue, h.deleted, ?_⟩, ?_⟩
  · rw [hframe.1]
    exact h.posted
  · unfold Unreleased
    rw [hframe.2]

/-- One step: nothing is deleted, and what is left to release is not released later. -/
theorem Leaking.step {event : Event} (h : Leaking tx) (hstep : tx.step net event = some next) :
    Leaking next ∧ (next.Unreleased ↔ tx.Unreleased ∧ tx.NothingToRelease net event) := by
  cases event with
  | write object skb dest type =>
    obtain rfl := Option.some.inj hstep
    rw [← write_ok_iff]
    exact h.write object skb dest type
  | consume =>
    obtain ⟨hnext, hiff⟩ := h.of_queue .consume nofun nofun hstep
    exact ⟨hnext, hiff.trans (and_iff_left trivial).symm⟩
  | complete position len =>
    obtain ⟨hnext, hiff⟩ := h.of_queue (.complete position len) nofun nofun hstep
    exact ⟨hnext, hiff.trans (and_iff_left trivial).symm⟩
  | setUsedFlags flags =>
    obtain ⟨hnext, hiff⟩ := h.of_queue (.setUsedFlags flags) nofun nofun hstep
    exact ⟨hnext, hiff.trans (and_iff_left trivial).symm⟩
  | irqNext =>
    simp only [TxSystem.step, Option.ite_none_right_eq_some] at hstep
    obtain ⟨hidle, hstep⟩ := hstep
    obtain ⟨⟨descId, call⟩, hfound, hafter⟩ := Option.bind_eq_some_iff.mp hstep
    obtain rfl := Option.some.inj hafter
    obtain ⟨_, reported, rfl, hctx⟩ := h.queue.next hidle hfound
    -- the handler deletes a null pointer
    have hdeleted : txCompletionEvent reported = [] := by
      rw [txCompletionEvent, hctx]
      rfl
    refine ⟨⟨h.queue.enter hidle hfound, ?_, h.posted⟩, iff_of_false ?_ fun hfalse => hfalse.2⟩
    · show tx.deleted ++ (txCompletionEvent reported ++ []) = []
      rw [h.deleted, hdeleted]
      rfl
    · rintro ⟨_, hhandled⟩
      exact Nat.succ_ne_zero _ hhandled
  | irqFree =>
    obtain ⟨hnext, hiff⟩ := h.of_queue .irqFree nofun nofun hstep
    exact ⟨hnext, hiff.trans (and_iff_left trivial).symm⟩

theorem leaking_initial (size irqHandlerCtx : Nat) {irqHandler : Nat} (hhandler : irqHandler ≠ 0)
    (memory : Mem) : Leaking (initial size irqHandler irqHandlerCtx memory) where
  queue := ⟨fun _ => rfl, hhandler, rfl, Nat.le_refl _, rfl, rfl⟩
  deleted := rfl
  posted := rfl

/-- The driver never deletes a socket buffer that was passed to `write`. So the socket buffers are
released once exactly in the runs in which none has to be released: every `write` finds a free
descriptor, and no completion is reported. -/
theorem tx_buffers_released_iff {irqHandler : Nat} (hhandler : irqHandler ≠ 0)
    (net : VirtioNet) (size irqHandlerCtx : Nat) (memory : Mem) {events : List Event}
    {final : TxSystem}
    (hrun : run (step net) (initial size irqHandler irqHandlerCtx memory) events =
      some final) :
    final.deleted = [] ∧
      (final.ReleasedOnce ↔ Meets (step net) (NothingToRelease net)
        (initial size irqHandler irqHandlerCtx memory) events) := by
  have hinitial := leaking_initial size irqHandlerCtx hhandler memory
  have hfinal : Leaking final :=
    run_invariant Leaking (fun _ _ _ h hstep => (h.step hstep).1) hinitial hrun
  refine ⟨hfinal.deleted, hfinal.released_once_iff.trans ?_⟩
  rw [holds_iff_meets Leaking (fun _ _ _ h hstep => (h.step hstep).1)
    (fun _ _ _ h hstep => (h.step hstep).2) hinitial hrun]
  exact and_iff_right ⟨rfl, rfl⟩

/-- The driver that the examples of runs are about. -/
def sampleNet : VirtioNet where
  addr := broadcastMac
  rxHandlers := []

/-- A packet with room for the headers of the link. -/
def samplePacket (start : Nat) : Sockbuf :=
  Sockbuf.allocated start virtioNetHeadersSize 40

/-- Two packets in flight, of which the device has completed one. -/
theorem tx_buffers_released_in_flight : ∃ final,
    run (step sampleNet) (initial 2 1 5 ⟨fun _ => 0⟩)
      [.write 8 (samplePacket 4096) broadcastMac .ipv4, .consume,
        .write 16 (samplePacket 8192) broadcastMac .arp, .complete 0 0] = some final ∧
    final.live = [8, 16] ∧ final.deleted = [] ∧ final.ReleasedOnce := by
  refine exists_of_any (fun final => final.live = [8, 16]) (by decide +kernel) ?_
  intro final hrun hlive
  obtain ⟨hdeleted, hiff⟩ :=
    tx_buffers_released_iff (show 1 ≠ 0 by decide) sampleNet 2 5 ⟨fun _ => 0⟩ hrun
  exact ⟨hlive, hdeleted, hiff.mpr (by decide +kernel)⟩

/-- The packet at `8` is sent and reported with a null pointer as its context, and the packet at `16`
is refused because the queue of one descriptor is full. Neither is deleted. -/
theorem tx_buffers_are_not_released : ∃ sent full,
    run (step sampleNet) (initial 1 1 5 ⟨fun _ => 0⟩)
      [.write 8 (samplePacket 4096) broadcastMac .ipv4, .consume, .complete 0 0, .irqNext,
        .irqFree] = some sent ∧
    sent.posted = [8] ∧ sent.queue.calls = [⟨5, 0, 4096, 64⟩] ∧ sent.deleted = [] ∧
    sent.inFlight = 0 ∧ ¬ sent.ReleasedOnce ∧
    run (step sampleNet) (initial 1 1 5 ⟨fun _ => 0⟩)
      [.write 8 (samplePacket 4096) broadcastMac .ipv4,
        .write 16 (samplePacket 8192) broadcastMac .arp] = some full ∧
    full.refused = [16] ∧ full.deleted = [] ∧ full.inFlight = 1 ∧ ¬ full.ReleasedOnce := by
  refine ⟨_, _, rfl, by decide +kernel, by decide +kernel, by decide +kernel, by decide +kernel, ?_,
    rfl, by decide +kernel, by decide +kernel, by decide +kernel, ?_⟩
  · intro hreleased
    exact absurd hreleased.live (by decide +kernel)
  · intro hreleased
    exact absurd hreleased.live (by decide +kernel)

end TxSystem

end Otrix.Dev
