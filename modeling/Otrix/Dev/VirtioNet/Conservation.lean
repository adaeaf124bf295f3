import Otrix.Dev.VirtioNet.Books

/-!
# The conservation of receive buffers

The hands of `Books` are those of the `sockbuf`s in `rx_packet_queue_` and in the receive
lists, of `rx_thread`, and of the calls of `skb_free_func`. A step of the driver is a
sequence of movements of buffers, and keeps the books balanced if it is careful and stores
no counter that was changed since it was loaded.

The steps that are not careful are the return of `rx_handler` when the queue of packets
is full, an allocation that fails, and a post that the queue refuses.
-/

namespace Otrix.Dev

open Machine Otrix.Net

/-! ## Who holds a buffer -/

/-- The buffer that a `sockbuf` owns, with its size. -/
def RxSockbuf.held : RxSockbuf → Multiset (Nat × Nat)
  | .owner start bufferSize => {(start, bufferSize)}
  | .empty => 0

/-- The buffer that is to be posted. -/
def Release.held : Release → Multiset (Nat × Nat)
  | .returning buf size => {(buf, size)}
  | .counting | .storing _ => 0

/-- The post that is not counted. -/
def Release.uncounted : Release → Nat
  | .returning _ _ => 0
  | .counting | .storing _ => 1

/-- The buffer that `rx_thread` has, in a packet or to be posted. -/
def RxPoint.held : RxPoint → Multiset (Nat × Nat)
  | .processing skb => skb.held
  | .dispatching skb => skb.held
  | .releasing release _ => release.held
  | _ => 0

/-- The post of `rx_thread` that is not counted. -/
def RxPoint.uncounted : RxPoint → Nat
  | .posted _ => 1
  | .releasing release _ => release.uncounted
  | _ => 0

/-- `rx_thread` is not in the middle of anything: at the head of its first loop, or waiting for a
packet. -/
def RxPoint.AtRest : RxPoint → Prop
  | .posting _ => True
  | .reading => True
  | .sleeping => True
  | _ => False

instance : DecidablePred RxPoint.AtRest
  | .posting _ | .reading | .sleeping => isTrue trivial
  | .posted _ | .taken | .processing _ | .dispatching _ | .releasing _ _ | .refilling => isFalse id

namespace RxSystem

/-- The buffers in the packets of `rx_packet_queue_`. -/
def queued (rx : RxSystem) : Multiset Nat :=
  (rx.packets.map RxSockbuf.held).sum.map Prod.fst

/-- The buffers of the `sockbuf`s in the receive lists. -/
def owned (rx : RxSystem) : Multiset Nat :=
  (rx.received.map RxSockbuf.held).sum.map Prod.fst

/-- No code of the receive path is in progress. -/
structure Quiescent (rx : RxSystem) : Prop where
  handler : rx.queue.handling = none
  thread : rx.thread.AtRest
  releases : rx.releases = []

instance : DecidablePred Quiescent := fun rx =>
  decidable_of_iff (rx.queue.handling = none ∧ rx.thread.AtRest ∧ rx.releases = [])
    ⟨fun ⟨hhandler, hthread, hreleases⟩ => ⟨hhandler, hthread, hreleases⟩,
      fun hquiet => ⟨hquiet.handler, hquiet.thread, hquiet.releases⟩⟩

/-- The counter is the number of posted buffers, and every buffer that was allocated and not freed
is in one place: posted, in a packet of the queue, or owned by a `sockbuf`. -/
structure Conserved (rx : RxSystem) : Prop where
  counter : rx.numRxBuffers = Multiset.card rx.queue.posted
  places : (rx.buffers : Multiset Nat) = rx.queue.posted + rx.queued + rx.owned
  once : rx.buffers.Nodup

/-! ## Careful steps -/

/-- `rx_handler` keeps the buffer: the queue of packets is not full, `new` returns a `sockbuf`, and if
the packet is refused nevertheless, the buffer is freed or the receive queue takes it back. -/
def CarefulHandler (rx : RxSystem) (call : IrqCall) (allocated : Bool) : Prop :=
  ¬ rx.full ∧ allocated = true ∧
    (rx.packets.length = rxQueueSize → ¬ sub64 rx.numRxBuffers 1 > rxQueueSize →
      rx.queue.Accepts call.data call.len)
  deriving Decidable

/-- Every post of the loop that allocates buffers is accepted. -/
def CarefulRefill : RxSystem → List Nat → Prop
  | _, [] => True
  | rx, buf :: bufs =>
    rx.queue.Accepts buf rxBufferSize ∧
      CarefulRefill ((rx.alloc buf).post buf rxBufferSize).count bufs

instance decidableCarefulRefill :
    ∀ (rx : RxSystem) (bufs : List Nat), Decidable (rx.CarefulRefill bufs)
  | _, [] => isTrue trivial
  | rx, buf :: bufs =>
    have := decidableCarefulRefill ((rx.alloc buf).post buf rxBufferSize).count bufs
    inferInstanceAs (Decidable (_ ∧ _))

/-- The step loses no buffer, and counts no buffer that is not posted. -/
def Careful (rx : RxSystem) : Event → Prop
  | .alloc buf => rx.queue.Accepts buf rxBufferSize
  | .goOn =>
    match rx.thread with
    | .releasing (.returning buf size) _ => rx.queue.Accepts buf size
    | _ => True
  | .refill bufs => rx.CarefulRefill bufs
  | .release (.returning buf size) => rx.queue.Accepts buf size
  | .irqNext allocated =>
    match handleVqIrqNext rx.queue.vq with
    | some (_, some call) => rx.CarefulHandler call allocated
    | _ => True
  | _ => True

instance decidableCareful (rx : RxSystem) : ∀ event, Decidable (rx.Careful event)
  | .alloc buf => inferInstanceAs (Decidable (rx.queue.Accepts buf rxBufferSize))
  | .goOn => by dsimp only [Careful]; split <;> infer_instance
  | .refill bufs => inferInstanceAs (Decidable (rx.CarefulRefill bufs))
  | .release (.returning buf size) => inferInstanceAs (Decidable (rx.queue.Accepts buf size))
  | .irqNext allocated => by dsimp only [Careful]; split <;> infer_instance
  | .release .counting | .release (.storing _) => isTrue trivial
  | .count | .take | .copy | .compare _ | .move | .finish | .destroy _ | .consume | .complete _ _
  | .setUsedFlags _ | .irqFree => isTrue trivial

/-- A call of `skb_free_func` stores the counter only while it is what the call has loaded. -/
def Undisturbed (rx : RxSystem) : Event → Prop
  | .goOn =>
    match rx.thread with
    | .releasing (.storing loaded) _ => loaded = rx.numRxBuffers
    | _ => True
  | .release (.storing loaded) => loaded = rx.numRxBuffers
  | _ => True

instance decidableUndisturbed (rx : RxSystem) : ∀ event, Decidable (rx.Undisturbed event)
  | .goOn => by dsimp only [Undisturbed]; split <;> infer_instance
  | .release (.storing loaded) => inferInstanceAs (Decidable (loaded = rx.numRxBuffers))
  | .release .counting | .release (.returning _ _) => isTrue trivial
  | .alloc _ | .refill _ | .irqNext _ | .count | .take | .copy | .compare _ | .move | .finish
  | .destroy _ | .consume | .complete _ _ | .setUsedFlags _ | .irqFree => isTrue trivial

/-! ## The balance of the driver -/

/-- What `rx_thread`, the packets, the receive lists and the other threads have. -/
def holdings (rx : RxSystem) : Multiset (Nat × Nat) :=
  (rx.packets.map RxSockbuf.held).sum + rx.thread.held + (rx.received.map RxSockbuf.held).sum +
    (rx.releases.map Release.held).sum

/-- The posts that are not counted. -/
def uncounted (rx : RxSystem) : Nat :=
  rx.thread.uncounted + (rx.releases.map Release.uncounted).sum

/-- The books of the driver. -/
def Balanced (rx : RxSystem) : Prop :=
  Books rx.queue rx.holdings rx.uncounted rx.numRxBuffers rx.buffers

variable {rx next : RxSystem}

/-- In a quiescent state nothing is in the hands of a thread. -/
theorem Balanced.conserved (h : Balanced rx) (hquiet : rx.Quiescent) : rx.Conserved := by
  obtain ⟨ids, chain, hcoherent⟩ := h.coherent
  have hcard := hcoherent.card_posted_le
  have hsize := hcoherent.descriptors.size_le
  have hthread : rx.thread.held = 0 ∧ rx.thread.uncounted = 0 := by
    have hrest := hquiet.thread
    cases hpoint : rx.thread with
    | posting i | reading | sleeping => exact ⟨rfl, rfl⟩
    | posted i | taken | processing skb | dispatching skb | releasing release refills | refilling =>
      rw [hpoint] at hrest
      exact absurd hrest id
  have huncounted : rx.uncounted = 0 := by
    rw [uncounted, hquiet.releases, hthread.2]
    rfl
  have hholdings : rx.holdings.map Prod.fst = rx.queued + rx.owned := by
    rw [holdings, hquiet.releases, hthread.1, queued, owned, ← Multiset.map_add]
    simp
  have hcounter := h.counter
  have hplaces := h.places
  have hnum := h.num_lt
  rw [huncounted] at hcounter
  rw [hholdings, ← add_assoc] at hplaces
  exact ⟨by omega, hplaces, h.nodup⟩

theorem Balanced.congr (h : Balanced rx) (hqueue : next.queue = rx.queue)
    (hnum : next.numRxBuffers = rx.numRxBuffers) (hbuffers : next.buffers = rx.buffers)
    (hholdings : next.holdings = rx.holdings) (huncounted : next.uncounted = rx.uncounted) :
    Balanced next := by
  unfold Balanced
  rw [hqueue, hnum, hbuffers, hholdings, huncounted]
  exact h

/-- The books with what is in hands and not counted written in another way. -/
theorem Balanced.books (h : Balanced rx) {hands : Multiset (Nat × Nat)} {posts : Nat}
    (hholdings : rx.holdings = hands) (huncounted : rx.uncounted = posts) :
    Books rx.queue hands posts rx.numRxBuffers rx.buffers :=
  hholdings ▸ huncounted ▸ h

/-- `~sockbuf` frees the buffer or leaves it to be posted. -/
theorem destroy_books (rx : RxSystem) {skb : RxSockbuf} {hands : Multiset (Nat × Nat)}
    {posts : Nat} (h : Books rx.queue (skb.held + hands) posts rx.numRxBuffers rx.buffers) :
    (∃ buffers, rx.destroy skb = (none, { rx with buffers := buffers }) ∧
      Books rx.queue hands posts rx.numRxBuffers buffers) ∨
    (∃ buf size, rx.destroy skb = (some (.returning buf size), rx) ∧ skb.held = {(buf, size)}) := by
  cases skb with
  | empty =>
    rw [show RxSockbuf.empty.held = 0 from rfl, zero_add] at h
    exact .inl ⟨rx.buffers, rfl, h⟩
  | owner start bufferSize =>
    unfold destroy skbFreeFunc
    split_ifs
    · exact .inl ⟨_, rfl, h.free⟩
    · exact .inr ⟨_, _, rfl, rfl⟩

theorem after_delete (refills : Bool) :
    (afterDelete refills).held = 0 ∧ (afterDelete refills).uncounted = 0 := by
  cases refills with
  | false => exact ⟨rfl, rfl⟩
  | true => exact ⟨rfl, rfl⟩

section

variable (h : Balanced rx)
include h

variable {skb : RxSockbuf}

theorem Balanced.delete_packet
    (hheld : rx.thread.held = skb.held) (huncounted : rx.thread.uncounted = 0) (refills : Bool) :
    Balanced (rx.deletePacket skb refills) := by
  have hafter := after_delete refills
  have hholdings : rx.holdings = skb.held + ((rx.packets.map RxSockbuf.held).sum +
      (rx.received.map RxSockbuf.held).sum + (rx.releases.map Release.held).sum) := by
    rw [holdings, hheld]
    abel
  unfold deletePacket
  rcases rx.destroy_books (h.books hholdings rfl) with
    ⟨buffers, hdestroy, hfreed⟩ | ⟨buf, size, hdestroy, hskb⟩
  · rw [hdestroy]
    unfold Balanced holdings uncounted
    simp only [hafter, add_zero, zero_add]
    rw [uncounted, huncounted, zero_add] at hfreed
    exact hfreed
  · rw [hdestroy]
    refine h.congr rfl rfl rfl ?_ ?_
    · rw [holdings, holdings, hheld, hskb]
      rfl
    · rw [uncounted, uncounted, huncounted]
      rfl

theorem Balanced.at_point {point : RxPoint}
    (hheld : point.held = rx.thread.held) (huncounted : point.uncounted = rx.thread.uncounted) :
    Balanced { rx with thread := point } := by
  refine h.congr rfl rfl rfl ?_ ?_
  · simp only [holdings, hheld]
  · simp only [uncounted, huncounted]

/-- `rx_thread` allocates a buffer in its first loop and posts it. -/
theorem Balanced.alloc {i buf : Nat} (hpoint : rx.thread = .posting i) (hfresh : rx.Fresh buf)
    (haccepts : rx.queue.Accepts buf rxBufferSize) :
    Balanced { (rx.alloc buf).post buf rxBufferSize with thread := .posted i } := by
  have hholdings : rx.holdings = { (rx.alloc buf).post buf rxBufferSize with
      thread := RxPoint.posted i }.holdings := by
    simp only [holdings, hpoint, RxPoint.held, RxSystem.alloc, post]
  have huncounted : rx.uncounted + 1 = { (rx.alloc buf).post buf rxBufferSize with
      thread := RxPoint.posted i }.uncounted := by
    simp only [uncounted, hpoint, RxPoint.uncounted, RxSystem.alloc, post]
    omega
  have hposted := (h.books hholdings rfl).alloc_post hfresh haccepts
  rw [huncounted] at hposted
  exact hposted

theorem Balanced.count {point : RxPoint}
    (hheld : rx.thread.held = 0) (huncounted : rx.thread.uncounted = 1) (hpoint : point.held = 0)
    (hnone : point.uncounted = 0) : Balanced { rx.count with thread := point } := by
  have hone : rx.uncounted = { rx.count with thread := point }.uncounted + 1 := by
    simp only [uncounted, RxSystem.count, RxSystem.store, hnone, huncounted]
    omega
  have hholdings : rx.holdings = { rx.count with thread := point }.holdings := by
    simp only [holdings, RxSystem.count, RxSystem.store, hheld, hpoint]
  exact (h.books hholdings hone).count

theorem Balanced.copy {packets : List RxSockbuf}
    (hpoint : rx.thread = .taken) (hpackets : rx.packets = skb :: packets) :
    Balanced { rx with packets := packets, thread := .processing skb } := by
  refine h.congr rfl rfl rfl ?_ ?_
  · simp only [holdings, hpoint, hpackets, RxPoint.held, List.map_cons, List.sum_cons]
    abel
  · simp only [uncounted, hpoint, RxPoint.uncounted]

/-- A handler moves the buffer of the packet to a receive list. -/
theorem Balanced.move (hpoint : rx.thread = .dispatching skb) :
    Balanced { rx with received := skb :: rx.received, thread := .dispatching .empty } := by
  refine h.congr rfl rfl rfl ?_ ?_
  · simp only [holdings, hpoint, RxPoint.held, RxSockbuf.held, List.map_cons, List.sum_cons]
    abel
  · simp only [uncounted, hpoint, RxPoint.uncounted]

/-- `rx_thread` posts the buffer of the packet that it has deleted. -/
theorem Balanced.post_back {buf size : Nat} {refills : Bool}
    (hpoint : rx.thread = .releasing (.returning buf size) refills)
    (haccepts : rx.queue.Accepts buf size) :
    Balanced { rx.post buf size with thread := .releasing .counting refills } := by
  have hholdings : rx.holdings = {(buf, size)} + { rx.post buf size with
      thread := RxPoint.releasing .counting refills }.holdings := by
    simp only [holdings, hpoint, RxPoint.held, Release.held, post]
    abel
  have huncounted : rx.uncounted + 1 = { rx.post buf size with
      thread := RxPoint.releasing .counting refills }.uncounted := by
    simp only [uncounted, hpoint, RxPoint.uncounted, Release.uncounted, post]
    omega
  have hposted := (h.books hholdings rfl).post haccepts
  rw [huncounted] at hposted
  exact hposted

/-- The loop of `rx_thread` that allocates buffers. -/
theorem Balanced.refill {bufs : List Nat} (hcareful : rx.CarefulRefill bufs)
    (hloop : rx.refill bufs = some next) : next.thread = rx.thread ∧ Balanced next := by
  induction bufs generalizing rx with
  | nil =>
    simp only [RxSystem.refill, Option.ite_none_left_eq_some, Option.some.injEq] at hloop
    obtain ⟨_, rfl⟩ := hloop
    exact ⟨rfl, h⟩
  | cons buf bufs ih =>
    simp only [RxSystem.refill, Option.ite_none_right_eq_some] at hloop
    obtain ⟨⟨_, hfresh⟩, hloop⟩ := hloop
    have hcounted : Balanced ((rx.alloc buf).post buf rxBufferSize).count :=
      (Books.alloc_post h hfresh hcareful.1).count
    have hrest := ih hcounted hcareful.2 hloop
    exact hrest

theorem Balanced.destroy
    (hmem : skb ∈ rx.received) (hstep : rx.step (.destroy skb) = some next) : Balanced next := by
  have hholdings : rx.holdings = skb.held +
      { rx with received := rx.received.erase skb }.holdings := by
    simp only [holdings]
    rw [← List.sum_map_erase RxSockbuf.held hmem]
    abel
  simp only [step, if_pos hmem] at hstep
  rcases destroy_books { rx with received := rx.received.erase skb } (h.books hholdings rfl) with
    ⟨buffers, hdestroy, hfreed⟩ | ⟨buf, size, hdestroy, hskb⟩
  · rw [hdestroy] at hstep
    obtain rfl := Option.some.inj hstep
    exact hfreed
  · rw [hdestroy] at hstep
    obtain rfl := Option.some.inj hstep
    refine h.congr rfl rfl rfl ?_ ?_
    · rw [hholdings, hskb]
      simp only [holdings, List.map_cons, List.sum_cons, Release.held]
      abel
    · simp only [uncounted, List.map_cons, List.sum_cons, Release.uncounted, zero_add]

/-- A release that goes on keeps the books. -/
theorem Balanced.release {release : Release} (hmem : release ∈ rx.releases)
    (hcareful : rx.Careful (.release release)) (hown : rx.Undisturbed (.release release))
    (hstep : rx.step (.release release) = some next) : Balanced next := by
  simp only [step, if_pos hmem] at hstep
  have hheld := List.sum_map_erase Release.held hmem
  have huncounted := List.sum_map_erase Release.uncounted hmem
  cases release with
  | returning buf size =>
    obtain rfl := Option.some.inj hstep
    have hholdings : rx.holdings = {(buf, size)} +
        { rx.post buf size with
          releases := Release.counting :: rx.releases.erase (.returning buf size) }.holdings := by
      simp only [holdings, post, List.map_cons, List.sum_cons]
      rw [← hheld]
      simp only [Release.held]
      abel
    have hposts : rx.uncounted + 1 = { rx.post buf size with
        releases := Release.counting :: rx.releases.erase (.returning buf size) }.uncounted := by
      simp only [uncounted, post, List.map_cons, List.sum_cons]
      rw [← huncounted]
      simp only [Release.uncounted]
      omega
    have hposted := (h.books hholdings rfl).post hcareful
    rw [hposts] at hposted
    exact hposted
  | counting =>
    obtain rfl := Option.some.inj hstep
    refine h.congr rfl rfl rfl ?_ ?_
    · simp only [holdings, List.map_cons, List.sum_cons]
      rw [← hheld]
      rfl
    · simp only [uncounted, List.map_cons, List.sum_cons]
      rw [← huncounted]
      rfl
  | storing loaded =>
    obtain rfl := Option.some.inj hstep
    obtain rfl : loaded = rx.numRxBuffers := hown
    have hholdings : rx.holdings =
        { rx with releases := rx.releases.erase (.storing rx.numRxBuffers) }.holdings := by
      simp only [holdings]
      rw [← hheld]
      simp only [Release.held, zero_add]
    have hposts : rx.uncounted =
        { rx with releases := rx.releases.erase (.storing rx.numRxBuffers) }.uncounted + 1 := by
      simp only [uncounted]
      rw [← huncounted]
      simp only [Release.uncounted]
      omega
    exact (h.books hholdings hposts).count

end

/-- The packet goes into the queue, or its buffer is freed or posted again. -/
theorem balanced_enqueue (rx : RxSystem) (buf size : Nat)
    (h : Books rx.queue ({(buf, size)} + rx.holdings) rx.uncounted rx.numRxBuffers rx.buffers)
    (haccepts : rx.packets.length = rxQueueSize → ¬ rx.numRxBuffers > rxQueueSize →
      rx.queue.Accepts buf size) : Balanced (rx.enqueue (.owner buf size)) := by
  unfold RxSystem.enqueue
  by_cases hlength : rx.packets.length = rxQueueSize
  · have hwrite : rx.writePacket (.owner buf size) = (false, rx) := if_pos hlength
    by_cases hmany : rx.numRxBuffers > rxQueueSize
    · have hdestroy : rx.destroy (.owner buf size) =
          (none, { rx with buffers := rx.buffers.erase buf }) := if_pos hmany
      simp only [hwrite, hdestroy]
      exact h.free
    · have hdestroy : rx.destroy (.owner buf size) = (some (.returning buf size), rx) :=
        if_neg hmany
      simp only [hwrite, hdestroy]
      exact (h.post (haccepts hlength hmany)).count
  · have hwrite : rx.writePacket (.owner buf size) = (true, { rx with
        packets := rx.packets ++ [.owner buf size]
        thread := if rx.thread = .sleeping then .taken else rx.thread }) := if_neg hlength
    rw [hwrite]
    -- a reader that is woken has no packet yet
    have hwoken : (if rx.thread = .sleeping then RxPoint.taken else rx.thread).held =
        rx.thread.held ∧ (if rx.thread = .sleeping then RxPoint.taken else rx.thread).uncounted =
        rx.thread.uncounted := by
      split_ifs with hsleeping
      · rw [hsleeping]
        exact ⟨rfl, rfl⟩
      · exact ⟨rfl, rfl⟩
    have hholdings : { rx with
        packets := rx.packets ++ [RxSockbuf.owner buf size]
        thread := if rx.thread = RxPoint.sleeping then .taken else rx.thread }.holdings =
        {(buf, size)} + rx.holdings := by
      rw [holdings, hwoken.1, List.map_append, List.sum_append, List.map_singleton,
        List.sum_singleton, RxSockbuf.held, holdings]
      abel
    unfold Balanced
    rw [hholdings, uncounted, hwoken.2]
    exact h

theorem Balanced.irq_next {allocated : Bool} (h : Balanced rx)
    (hcareful : rx.Careful (.irqNext allocated))
    (hstep : rx.step (.irqNext allocated) = some next) : Balanced next := by
  simp only [RxSystem.step, Option.ite_none_right_eq_some] at hstep
  obtain ⟨hidle, hstep⟩ := hstep
  obtain ⟨⟨descId, call⟩, hfound, hnext⟩ := Option.bind_eq_some_iff.mp hstep
  obtain rfl := Option.some.inj hnext
  obtain ⟨report, rfl, hbooks⟩ := Books.report h hidle hfound
  simp only [Careful, hfound] at hcareful
  obtain ⟨hroom, rfl, haccepts⟩ := hcareful
  have hcounts : (({ rx with queue := rx.queue.enter descId (some report) } : RxSystem).rxHandler
      report true) = ({ rx with
        queue := rx.queue.enter descId (some report)
        numRxBuffers := sub64 rx.numRxBuffers 1 } : RxSystem).enqueue
          (.owner report.data report.len) := if_neg hroom
  show Balanced (RxSystem.rxHandler _ report true)
  rw [hcounts]
  exact balanced_enqueue _ _ _ hbooks haccepts

theorem Balanced.of_queue (h : Balanced rx) (event : SystemEvent)
    (hsend : ∀ buffer, event ≠ .send buffer) (hirq : event ≠ .irqNext)
    (hstep : rx.ofQueue event = some next) : Balanced next := by
  obtain ⟨after, hafter, rfl⟩ := Option.map_eq_some_iff.mp hstep
  exact Books.step h hsend hirq hafter

theorem Balanced.go_on (h : Balanced rx) (hcareful : rx.Careful .goOn) (hown : rx.Undisturbed .goOn)
    (hstep : rx.step .goOn = some next) : Balanced next := by
  simp only [RxSystem.step] at hstep
  split at hstep
  · next buf size refills hpoint =>
    obtain rfl := Option.some.inj hstep
    exact h.post_back hpoint (by simpa only [Careful, hpoint] using hcareful)
  · next refills hpoint =>
    obtain rfl := Option.some.inj hstep
    exact h.at_point (by rw [hpoint]; rfl) (by rw [hpoint]; rfl)
  · next loaded refills hpoint =>
    obtain rfl := Option.some.inj hstep
    obtain rfl : loaded = rx.numRxBuffers := by
      simpa only [Undisturbed, hpoint] using hown
    obtain ⟨hheld, huncounted⟩ := after_delete refills
    exact h.count (by rw [hpoint]; rfl) (by rw [hpoint]; rfl) hheld huncounted
  · cases hstep

/-- One careful step that does not overwrite the counter of another. -/
theorem Balanced.step {event : Event} (h : Balanced rx) (hcareful : rx.Careful event)
    (hown : rx.Undisturbed event) (hstep : rx.step event = some next) : Balanced next := by
  cases event with
  | alloc buf =>
    simp only [RxSystem.step] at hstep
    split at hstep
    · next i hpoint =>
      obtain ⟨hfresh, hnext⟩ := Option.ite_none_right_eq_some.mp hstep
      obtain rfl := Option.some.inj hnext
      exact h.alloc hpoint hfresh hcareful
    · cases hstep
  | count =>
    simp only [RxSystem.step] at hstep
    split at hstep
    · next i hpoint =>
      obtain rfl := Option.some.inj hstep
      refine h.count (by rw [hpoint]; rfl) (by rw [hpoint]; rfl) ?_ ?_
      · split_ifs <;> rfl
      · split_ifs <;> rfl
    · cases hstep
  | take =>
    simp only [RxSystem.step] at hstep
    split at hstep
    · next hpoint =>
      obtain rfl := Option.some.inj hstep
      refine h.at_point ?_ ?_
      · rw [hpoint]
        split_ifs <;> rfl
      · rw [hpoint]
        split_ifs <;> rfl
    · cases hstep
  | copy =>
    simp only [RxSystem.step] at hstep
    split at hstep
    · next skb packets hpoint hpackets =>
      obtain rfl := Option.some.inj hstep
      exact h.copy hpoint hpackets
    · cases hstep
  | compare mine =>
    simp only [RxSystem.step] at hstep
    split at hstep
    · next skb hpoint =>
      obtain rfl := Option.some.inj hstep
      cases mine with
      | true => exact h.at_point (by rw [hpoint]; rfl) (by rw [hpoint]; rfl)
      | false => exact h.delete_packet (by rw [hpoint]; rfl) (by rw [hpoint]; rfl) false
    · cases hstep
  | move =>
    simp only [RxSystem.step] at hstep
    split at hstep
    · next skb hpoint =>
      obtain rfl := Option.some.inj hstep
      exact h.move hpoint
    · cases hstep
  | finish =>
    simp only [RxSystem.step] at hstep
    split at hstep
    · next skb hpoint =>
      obtain rfl := Option.some.inj hstep
      exact h.delete_packet (by rw [hpoint]; rfl) (by rw [hpoint]; rfl) true
    · cases hstep
  | goOn => exact h.go_on hcareful hown hstep
  | refill bufs =>
    simp only [RxSystem.step] at hstep
    split at hstep
    · next hpoint =>
      obtain ⟨filled, hloop, rfl⟩ := Option.map_eq_some_iff.mp hstep
      obtain ⟨hthread, hfilled⟩ := h.refill hcareful hloop
      rw [hpoint] at hthread
      exact hfilled.at_point (by rw [hthread]; rfl) (by rw [hthread]; rfl)
    · cases hstep
  | destroy skb =>
    have hmem : skb ∈ rx.received := by
      by_contra hnot
      simp only [RxSystem.step, if_neg hnot] at hstep
      cases hstep
    exact h.destroy hmem hstep
  | release release =>
    have hmem : release ∈ rx.releases := by
      by_contra hnot
      simp only [RxSystem.step, if_neg hnot] at hstep
      cases hstep
    exact h.release hmem hcareful hown hstep
  | consume => exact h.of_queue .consume nofun nofun hstep
  | complete position len => exact h.of_queue (.complete position len) nofun nofun hstep
  | setUsedFlags flags => exact h.of_queue (.setUsedFlags flags) nofun nofun hstep
  | irqNext allocated => exact h.irq_next hcareful hstep
  | irqFree => exact h.of_queue .irqFree nofun nofun hstep

/-! ## Whole runs -/

theorem balanced_initial {order irqHandler : Nat} (horder : order ≤ 15) (hhandler : irqHandler ≠ 0)
    (irqHandlerCtx : Nat) : Balanced (initial (2 ^ order) irqHandler irqHandlerCtx) where
  coherent := ⟨_, _, coherent_initial_pow horder irqHandler irqHandlerCtx⟩
  handler := hhandler
  accepted := nofun
  held := nofun
  nodup := List.nodup_nil
  places := rfl
  counter := rfl
  num_lt := Nat.two_pow_pos 64

/-- `rx_thread` posts its first buffers. -/
def startEvents : List Event :=
  (List.range 16).flatMap fun i => [.alloc (4096 * (i + 1)), .count]

/-- The device fills `count` buffers, from the submission `first` on, and the interrupt reports
each of them. -/
def packetEvents (first count : Nat) : List Event :=
  (List.range' first count).flatMap fun i =>
    [.consume, .complete i 64, .irqNext true, .irqFree]

/-- Sixteen packets fill the queue of packets. `rx_thread` takes one of them out and posts sixteen
buffers again, of which two come back while it waits for the processor. The second one finds the
queue full: `15` buffers are counted, but `14` are posted, and one of the `31` buffers is nowhere. -/
def fullPacketQueue : List Event :=
  startEvents ++ packetEvents 0 16 ++
    [.take, .copy, .compare true, .finish, .goOn, .goOn, .goOn,
      .refill ((List.range 15).map fun i => 131072 + 4096 * i)] ++ packetEvents 16 2

/-- The second packet comes in while `rx_thread` has loaded the counter for the buffer of the first
one. The decrement of `rx_handler` is overwritten: `16` buffers are counted, and `15` are posted. -/
def packetWhileCounting : List Event :=
  startEvents ++ packetEvents 0 1 ++ [.take, .copy, .compare true, .finish, .goOn, .goOn] ++
    packetEvents 1 1 ++ [.goOn, .refill []]

end RxSystem

end Otrix.Dev
