import Otrix.Dev.VirtioNet.Conservation

/-!
# The length of a received packet

The device writes the length of a packet into the used element of its buffer.
`handle_vq_irq` reads only the index from the used element, and passes the length of
the descriptor to the handler, which is the size of the buffer that was posted. The
`sockbuf` of a packet therefore has the size of its buffer, whatever the device has
reported.
-/

namespace Otrix.Dev

open Machine

variable {sys : System} {ids : Nat → Nat} {chain : List Nat}

/-- The used element that `handle_vq_irq` looks at next. -/
def System.usedElem (sys : System) : VirtioUsedElem :=
  sys.vq.usedRing sys.vq.usedIndex

/-- The size of the buffer of the next completion. -/
def System.postedSize (sys : System) : Option Nat :=
  sys.completed[sys.freed]? >>= fun done => sys.submitted[done.1]?.map Buffer.size

/-- The next used element is the one that the device wrote for its completion. -/
theorem Coherent.used_elem_eq {done : Nat × Nat} (h : Coherent ids chain sys)
    (hdone : sys.completed[sys.freed]? = some done) : sys.usedElem = ⟨ids done.1, done.2⟩ :=
  h.used.next_entry h.descriptors.size_dvd hdone

/-- The handler is called with the size of the posted buffer, and the used element has the length
that the device reported. -/
theorem Coherent.report_lengths {descId : Nat} {call : IrqCall} (h : Coherent ids chain sys)
    (hnext : handleVqIrqNext sys.vq = some (descId, some call)) :
    sys.postedSize = some call.len ∧
      ∃ position, sys.completed[sys.freed]? = some (position, sys.usedElem.len) := by
  rw [h.next_eq] at hnext
  obtain ⟨⟨position, len⟩, hdone, heq⟩ := Option.map_eq_some_iff.mp hnext
  have hcall := (Prod.mk.inj heq).2
  split_ifs at hcall
  obtain ⟨buffer, hbuffer, rfl⟩ := Option.map_eq_some_iff.mp hcall
  rw [System.postedSize, hdone, h.used_elem_eq hdone]
  refine ⟨?_, position, rfl⟩
  show sys.submitted[position]?.map Buffer.size = some buffer.size
  rw [hbuffer]
  rfl

/-- The number of bytes of a `sockbuf`. -/
def RxSockbuf.bufferSize : RxSockbuf → Nat
  | .owner _ bufferSize => bufferSize
  | .empty => 0

namespace RxSystem

/-- The `sockbuf` that `rx_handler` builds for a call, where `allocated` says whether `new` returns
one. -/
def rxSockbuf (rx : RxSystem) (call : IrqCall) (allocated : Bool) : Option RxSockbuf :=
  if rx.full ∨ allocated = false then none else some (.owner call.data call.len)

/-- The `sockbuf` that an event makes `rx_handler` build. -/
def built (rx : RxSystem) : Event → Option RxSockbuf
  | .irqNext allocated =>
    match handleVqIrqNext rx.queue.vq with
    | some (_, some call) => rx.rxSockbuf call allocated
    | _ => none
  | _ => none

/-- The `sockbuf` that the event builds has the length that the device has reported in the used
element. -/
def ReportedLength (rx : RxSystem) (event : Event) : Prop :=
  ∀ skb ∈ rx.built event, skb.bufferSize = rx.queue.usedElem.len

/-- The device has filled the buffer for which the event builds a `sockbuf`. -/
def FilledBuffer (rx : RxSystem) (event : Event) : Prop :=
  (rx.built event).isSome → rx.queue.postedSize = some rx.queue.usedElem.len
  deriving Decidable

variable {rx next : RxSystem} {skb : RxSockbuf}

/-- A `sockbuf` is built for a call of `rx_handler`. -/
theorem built_eq_some {event : Event} (h : rx.built event = some skb) :
    ∃ descId call allocated, event = .irqNext allocated ∧
      handleVqIrqNext rx.queue.vq = some (descId, some call) ∧
      rx.rxSockbuf call allocated = some skb := by
  cases event with
  | irqNext allocated =>
    simp only [built] at h
    split at h
    · next descId call hnext => exact ⟨descId, call, allocated, rfl, hnext, h⟩
    · cases h
  | _ => cases h

/-- The receive queue is coherent. -/
def QueueCoherent (rx : RxSystem) : Prop :=
  ∃ ids chain, Coherent ids chain rx.queue

theorem QueueCoherent.built_size {event : Event} (h : rx.QueueCoherent)
    (hbuilt : rx.built event = some skb) : rx.queue.postedSize = some skb.bufferSize := by
  obtain ⟨ids, chain, hcoherent⟩ := h
  obtain ⟨descId, call, allocated, _, hnext, hskb⟩ := built_eq_some hbuilt
  obtain ⟨_, hskb⟩ := Option.ite_none_left_eq_some.mp hskb
  obtain rfl := Option.some.inj hskb
  exact (hcoherent.report_lengths hnext).1

/-- The length of a `sockbuf` is the reported one exactly if the device has filled the buffer. -/
theorem QueueCoherent.reported_length_iff (h : rx.QueueCoherent) (event : Event) :
    rx.ReportedLength event ↔ rx.FilledBuffer event := by
  unfold ReportedLength FilledBuffer
  cases hbuilt : rx.built event with
  | none => exact iff_of_true (fun _ hskb => nomatch hskb) (fun hsome => nomatch hsome)
  | some skb =>
    rw [h.built_size hbuilt]
    simp

/-! ## The driver uses the queue by its events -/

theorem destroy_queue (rx : RxSystem) (skb : RxSockbuf) : (rx.destroy skb).2.queue = rx.queue := by
  cases skb with
  | empty => rfl
  | owner start bufferSize =>
    unfold destroy skbFreeFunc
    split_ifs <;> rfl

theorem delete_packet_queue (rx : RxSystem) (skb : RxSockbuf) (refills : Bool) :
    (rx.deletePacket skb refills).queue = rx.queue := by
  rw [← rx.destroy_queue skb]
  unfold deletePacket
  split <;> simp_all

theorem refill_queue {bufs : List Nat} (h : rx.refill bufs = some next) :
    Reachable System.step rx.queue next.queue := by
  induction bufs generalizing rx with
  | nil =>
    obtain ⟨_, h⟩ := Option.ite_none_left_eq_some.mp h
    obtain rfl := Option.some.inj h
    exact ⟨[], rfl⟩
  | cons buf bufs ih =>
    obtain ⟨_, h⟩ := Option.ite_none_right_eq_some.mp h
    obtain ⟨events, hrun⟩ := ih h
    exact ⟨.send (rxBuffer buf rxBufferSize) :: events, hrun⟩

/-- The end of `rx_handler` posts the buffer again or leaves the queue alone. -/
theorem enqueue_queue (rx : RxSystem) (skb : RxSockbuf) :
    Reachable System.step rx.queue (rx.enqueue skb).queue := by
  unfold enqueue writePacket
  by_cases hfull : rx.packets.length = rxQueueSize
  · rw [if_pos hfull, ← rx.destroy_queue skb]
    dsimp only
    rcases rx.destroy skb with ⟨_ | ⟨buf, size⟩ | _ | _, after⟩
    · exact ⟨[], rfl⟩
    · exact ⟨[.send (rxBuffer buf size)], rfl⟩
    · exact ⟨[], rfl⟩
    · exact ⟨[], rfl⟩
  · rw [if_neg hfull]
    exact ⟨[], rfl⟩

theorem rx_handler_queue (rx : RxSystem) (call : IrqCall) (allocated : Bool) :
    Reachable System.step rx.queue (rx.rxHandler call allocated).queue := by
  unfold rxHandler
  split_ifs
  · exact ⟨[], rfl⟩
  · exact enqueue_queue { rx with numRxBuffers := sub64 rx.numRxBuffers 1 } _
  · exact ⟨[], rfl⟩

/-- A step of the driver is a run of the receive queue. -/
theorem step_queue {event : Event} (h : rx.step event = some next) :
    Reachable System.step rx.queue next.queue := by
  have hquiet {other : RxSystem} (hother : some other = some next) (hqueue : other.queue = rx.queue) :
      Reachable System.step rx.queue next.queue := by
    obtain rfl := Option.some.inj hother
    exact ⟨[], congrArg some hqueue.symm⟩
  have hevent {event : SystemEvent} (hqueue : rx.ofQueue event = some next) :
      Reachable System.step rx.queue next.queue := by
    obtain ⟨after, hafter, rfl⟩ := Option.map_eq_some_iff.mp hqueue
    exact ⟨[event], run_cons_eq_some.mpr ⟨after, hafter, rfl⟩⟩
  cases event with
  | alloc buf =>
    simp only [step] at h
    split at h
    · obtain ⟨_, h⟩ := Option.ite_none_right_eq_some.mp h
      obtain rfl := Option.some.inj h
      exact ⟨[.send (rxBuffer buf rxBufferSize)], rfl⟩
    · cases h
  | compare mine =>
    simp only [step] at h
    split at h
    · next skb _ =>
      refine hquiet h ?_
      split_ifs
      · rfl
      · exact rx.delete_packet_queue skb false
    · cases h
  | finish =>
    simp only [step] at h
    split at h
    · next skb _ => exact hquiet h (rx.delete_packet_queue skb true)
    · cases h
  | goOn =>
    simp only [step] at h
    split at h
    · next buf size _ _ =>
      obtain rfl := Option.some.inj h
      exact ⟨[.send (rxBuffer buf size)], rfl⟩
    · exact hquiet h rfl
    · exact hquiet h rfl
    · cases h
  | refill bufs =>
    simp only [step] at h
    split at h
    · obtain ⟨filled, hloop, rfl⟩ := Option.map_eq_some_iff.mp h
      have hposts := refill_queue hloop
      exact hposts
    · cases h
  | destroy skb =>
    obtain ⟨_, h⟩ := Option.ite_none_right_eq_some.mp h
    have hqueue := destroy_queue { rx with received := rx.received.erase skb } skb
    split at h <;> next hdestroy => exact hquiet h (by rw [hdestroy] at hqueue; exact hqueue)
  | release release =>
    obtain ⟨_, h⟩ := Option.ite_none_right_eq_some.mp h
    cases release with
    | returning buf size =>
      obtain rfl := Option.some.inj h
      exact ⟨[.send (rxBuffer buf size)], rfl⟩
    | counting => exact hquiet h rfl
    | storing loaded => exact hquiet h rfl
  | irqNext allocated =>
    obtain ⟨hidle, h⟩ := Option.ite_none_right_eq_some.mp h
    obtain ⟨⟨descId, call⟩, hfound, h⟩ := Option.bind_eq_some_iff.mp h
    obtain rfl := Option.some.inj h
    have henter : rx.queue.step .irqNext = some (rx.queue.enter descId call) := by
      simp only [System.step, if_pos hidle, hfound]
      rfl
    cases call with
    | none => exact ⟨[.irqNext], run_cons_eq_some.mpr ⟨_, henter, rfl⟩⟩
    | some call =>
      obtain ⟨events, hrun⟩ := rx_handler_queue
        { rx with queue := rx.queue.enter descId (some call) } call allocated
      exact ⟨.irqNext :: events, run_cons_eq_some.mpr ⟨_, henter, hrun⟩⟩
  | consume | complete | setUsedFlags | irqFree => exact hevent h
  | count | take | copy | move =>
    simp only [step] at h
    split at h
    · exact hquiet h rfl
    · cases h

theorem QueueCoherent.step {event : Event} (h : rx.QueueCoherent)
    (hstep : rx.step event = some next) : next.QueueCoherent :=
  (step_queue hstep).invariant (fun sys => ∃ ids chain, Coherent ids chain sys) h
    fun _ _ _ ⟨_, _, hcoherent⟩ hqueue => hcoherent.step hqueue

/-- Every `sockbuf` that `rx_handler` builds has the length that the device has reported in the used
element exactly when the device has filled every buffer for which one is built. The used element is
the one that the device wrote when it completed the buffer. -/
theorem sockbuf_length_reported_iff {order irqHandler : Nat} (horder : order ≤ 15)
    (irqHandlerCtx : Nat) {events : List Event} {final : RxSystem}
    (hrun : run step (initial (2 ^ order) irqHandler irqHandlerCtx) events = some final) :
    (Meets step ReportedLength (initial (2 ^ order) irqHandler irqHandlerCtx) events ↔
      Meets step FilledBuffer (initial (2 ^ order) irqHandler irqHandlerCtx) events) ∧
    ∀ event, (final.built event).isSome →
      ∃ position, final.queue.completed[final.queue.freed]? =
        some (position, final.queue.usedElem.len) := by
  have hinitial : QueueCoherent (initial (2 ^ order) irqHandler irqHandlerCtx) :=
    ⟨_, _, coherent_initial_pow horder irqHandler irqHandlerCtx⟩
  constructor
  · exact meets_iff_meets_of_run QueueCoherent (fun _ event _ h _ => h.reported_length_iff event)
      (fun _ _ _ h hstep => h.step hstep) hinitial hrun
  · intro event hbuilt
    obtain ⟨ids, chain, hcoherent⟩ :=
      run_invariant QueueCoherent (fun _ _ _ h hstep => h.step hstep) hinitial hrun
    obtain ⟨skb, hskb⟩ := Option.isSome_iff_exists.mp hbuilt
    obtain ⟨descId, call, allocated, _, hnext, _⟩ := built_eq_some hskb
    exact (hcoherent.report_lengths hnext).2

/-- The device fills the first buffer. -/
theorem sockbuf_length_full_buffer :
    Meets step ReportedLength (initial 16 1 0)
      (startEvents ++ [.consume, .complete 0 rxBufferSize, .irqNext true]) := by
  have hreturns : (run step (initial 16 1 0)
      (startEvents ++ [.consume, .complete 0 rxBufferSize, .irqNext true])).isSome := by
    decide +kernel
  obtain ⟨final, hrun⟩ := Option.isSome_iff_exists.mp hreturns
  exact (sockbuf_length_reported_iff (show 4 ≤ 15 by decide) 0 hrun).1.mpr
    (by decide +kernel)

/-- The device reports 64 bytes. The `sockbuf` has the size of the buffer. -/
theorem short_packet_has_buffer_size : ∃ rx next,
    run step (initial 16 1 0) (startEvents ++ [.consume, .complete 0 64]) = some rx ∧
    rx.step (.irqNext true) = some next ∧ rx.queue.usedElem.len = 64 ∧
    rx.built (.irqNext true) = some (.owner 4096 rxBufferSize) ∧
    next.packets = [.owner 4096 rxBufferSize] ∧ ¬ rx.ReportedLength (.irqNext true) := by
  have hresult : (run step (initial 16 1 0)
      (startEvents ++ [.consume, .complete 0 64])).any
      (fun rx => decide (rx.queue.usedElem.len = 64 ∧
          rx.built (.irqNext true) = some (.owner 4096 rxBufferSize)) &&
        (rx.step (.irqNext true)).any fun next =>
          decide (next.packets = [.owner 4096 rxBufferSize])) = true := by
    decide +kernel
  obtain ⟨rx, hrun, hrx⟩ := (Option.any_eq_true _ _).mp hresult
  obtain ⟨hstate, hirq⟩ := Bool.and_eq_true_iff.mp hrx
  obtain ⟨hlen, hbuilt⟩ := of_decide_eq_true hstate
  obtain ⟨next, hstep, hnext⟩ := (Option.any_eq_true _ _).mp hirq
  refine ⟨rx, next, hrun, hstep, hlen, hbuilt, of_decide_eq_true hnext, fun hreported => ?_⟩
  have hsize := hreported _ hbuilt
  rw [hlen] at hsize
  exact absurd hsize (by decide)

end RxSystem
end Otrix.Dev
