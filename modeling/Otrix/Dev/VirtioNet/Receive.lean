import Otrix.Net.Ipv4
import Otrix.Dev.Virtqueue.Delivery
import Mathlib.Algebra.Order.Group.Multiset

/-!
# The receive buffers of `virtio_net`

A receive buffer is allocated by `rx_thread` and posted on the receive queue. The
device fills it, `rx_handler` wraps it in a zero-copy `sockbuf` and puts the pointer
into `rx_packet_queue_`, `rx_thread` takes it out and hands it to the protocol
handlers, and a TCP socket may move the buffer to a `sockbuf` in its receive list.
When the `sockbuf` that owns the buffer is destroyed, `skb_free_func` posts the
buffer again or frees it. `num_rx_buffers_` is to count the posted buffers.

`RxSystem` has a control point for each place where `rx_thread` or a thread that
destroys a `sockbuf` can be interrupted between calls, and one between the load and the
store of the `num_rx_buffers_++` that ends `skb_free_func`, which nothing protects. A call
of `virtq_send_buffer` is one step here. What becomes of one that is interrupted is said
in `Otrix.Dev.Virtqueue.Concurrent`. `rx_handler` runs in the interrupt and is not
interrupted. What the packets hold, what `alloc` returns and what the handlers do with a
packet are choices of the events.
-/

namespace Otrix.Dev

open Otrix.Net

/-! ## The state -/

/-- `RX_QUEUE_SIZE`. -/
def rxQueueSize : Nat := 16

/-- `MTU + sizeof(virtio_net_hdr)`. -/
def rxBufferSize : Nat := 1514 + virtioNetHdrBytes

/-- A `sockbuf` on the receive path: one that the zero-copy constructor has made, with
`skb_free_func`, or what the move constructor leaves, without a buffer and without a function. -/
inductive RxSockbuf where
  | owner (start bufferSize : Nat)
  | empty
  deriving DecidableEq

/-- Where a call of `skb_free_func` is after its region, if the buffer is not freed: before
`virtq_send_buffer`, before the counter is loaded, or before it is stored. -/
inductive Release where
  | returning (buf size : Nat)
  | counting
  | storing (loaded : Nat)
  deriving DecidableEq

/-- Where `rx_thread` is: in the first loop, before buffer `i` is allocated or before it is counted;
in `rx_packet_queue_.read`, before the semaphore, blocked, or with a permit; with a packet, before or
after the address is compared; in `skb_free_func`, from where it goes on to allocate more buffers or
not; before the loop that allocates them. -/
inductive RxPoint where
  | posting (i : Nat)
  | posted (i : Nat)
  | reading
  | sleeping
  | taken
  | processing (skb : RxSockbuf)
  | dispatching (skb : RxSockbuf)
  | releasing (release : Release) (refills : Bool)
  | refilling
  deriving DecidableEq

/-- The receive side of a `virtio_net`. `packets` are the `sockbuf`s that `rx_packet_queue_` points
to, `received` those in the receive lists of the sockets, `releases` the calls of `skb_free_func` in
other threads, and `buffers` the receive buffers that were allocated and not freed. -/
structure RxSystem where
  queue : System
  numRxBuffers : Nat
  packets : List RxSockbuf
  thread : RxPoint
  received : List RxSockbuf
  releases : List Release
  buffers : List Nat

namespace RxSystem

/-! ## The functions of the driver -/

/-- `sem_.count()` of `rx_packet_queue_`. A reader with a permit has not yet taken its packet out. -/
def semCount (rx : RxSystem) : Nat :=
  rx.packets.length - if rx.thread = .taken then 1 else 0

/-- `rx_packet_queue_.full()`. -/
def full (rx : RxSystem) : Prop :=
  rx.semCount = rxQueueSize
  deriving Decidable

/-- The arguments of `virtq_send_buffer` for a receive buffer. -/
def rxBuffer (buf size : Nat) : Buffer where
  addr := buf
  size := size % 2 ^ 32
  deviceWritable := true
  ctx := 0

/-- `virtq_send_buffer` on the receive queue. No caller looks at the result. -/
def post (rx : RxSystem) (buf size : Nat) : RxSystem :=
  { rx with queue := rx.queue.send (rxBuffer buf size) }

/-- The store of `num_rx_buffers_++`. -/
def store (rx : RxSystem) (loaded : Nat) : RxSystem :=
  { rx with numRxBuffers := u64 (loaded + 1) }

/-- `num_rx_buffers_++` where it is not interrupted. -/
def count (rx : RxSystem) : RxSystem :=
  rx.store rx.numRxBuffers

/-- `alloc` has returned a pointer, or a null pointer. -/
def alloc (rx : RxSystem) (buf : Nat) : RxSystem :=
  { rx with buffers := if buf = 0 then rx.buffers else buf :: rx.buffers }

/-- `alloc` does not return a buffer that is in use. -/
def Fresh (rx : RxSystem) (buf : Nat) : Prop :=
  buf = 0 ∨ buf ∉ rx.buffers
  deriving Decidable

/-- The region of `skb_free_func`: the buffer is freed, or it is to be posted. -/
def skbFreeFunc (rx : RxSystem) (buf size : Nat) : Option Release × RxSystem :=
  if rx.numRxBuffers > rxQueueSize then (none, { rx with buffers := rx.buffers.erase buf })
  else (some (.returning buf size), rx)

/-- `~sockbuf`. A `sockbuf` that was moved from has nothing to free. -/
def destroy (rx : RxSystem) : RxSockbuf → Option Release × RxSystem
  | .owner start bufferSize => rx.skbFreeFunc start bufferSize
  | .empty => (none, rx)

/-- `rx_packet_queue_.write`, which wakes a reader that is blocked, and whether it has room. -/
def writePacket (rx : RxSystem) (skb : RxSockbuf) : Bool × RxSystem :=
  if rx.packets.length = rxQueueSize then (false, rx)
  else
    (true, { rx with
      packets := rx.packets ++ [skb]
      thread := if rx.thread = .sleeping then .taken else rx.thread })

/-- The end of `rx_handler`: the packet goes into the queue. If the queue refuses it, it is deleted,
and `skb_free_func` is not interrupted. -/
def enqueue (rx : RxSystem) (skb : RxSockbuf) : RxSystem :=
  match rx.writePacket skb with
  | (true, rx) => rx
  | (false, rx) =>
    match rx.destroy skb with
    | (some (.returning buf size), rx) => (rx.post buf size).count
    | (_, rx) => rx

/-- `rx_handler`, where `allocated` says whether `new` returns a `sockbuf`. -/
def rxHandler (rx : RxSystem) (call : IrqCall) (allocated : Bool) : RxSystem :=
  if rx.full then rx
  else
    let rx := { rx with numRxBuffers := sub64 rx.numRxBuffers 1 }
    if allocated then rx.enqueue (.owner call.data call.len) else rx

/-- The loop of `rx_thread` that allocates more buffers, with what `alloc` returns. -/
def refill (rx : RxSystem) : List Nat → Option RxSystem
  | [] => if rx.numRxBuffers < rxQueueSize then none else some rx
  | buf :: bufs =>
    if rx.numRxBuffers < rxQueueSize ∧ rx.Fresh buf then
      refill ((rx.alloc buf).post buf rxBufferSize).count bufs
    else none

/-- Where `rx_thread` goes after it has deleted the packet. -/
def afterDelete (refills : Bool) : RxPoint :=
  if refills then .refilling else .reading

/-- `rx_thread` deletes its packet. -/
def deletePacket (rx : RxSystem) (skb : RxSockbuf) (refills : Bool) : RxSystem :=
  match rx.destroy skb with
  | (none, rx) => { rx with thread := afterDelete refills }
  | (some release, rx) => { rx with thread := .releasing release refills }

/-! ## The steps -/

/-- What can happen. The first group is `rx_thread`: a turn of its first loop in two steps, the two
steps of `read`, the comparison of the address, a handler that moves the buffer to a receive list,
the end of the handlers, the rest of `skb_free_func`, and the loop that allocates buffers. In the
second group a thread destroys a `sockbuf` of a receive list, and goes on with `skb_free_func`. The
last group is the device and the interrupt. -/
inductive Event where
  | alloc (buf : Nat)
  | count
  | take
  | copy
  | compare (mine : Bool)
  | move
  | finish
  | goOn
  | refill (bufs : List Nat)
  | destroy (skb : RxSockbuf)
  | release (release : Release)
  | consume
  | complete (position len : Nat)
  | setUsedFlags (flags : Nat)
  | irqNext (allocated : Bool)
  | irqFree

/-- The events of the queue that do not call the driver. -/
def ofQueue (rx : RxSystem) (event : SystemEvent) : Option RxSystem :=
  (rx.queue.step event).map fun queue => { rx with queue := queue }

/-- One event. -/
def step (rx : RxSystem) : Event → Option RxSystem
  | .alloc buf =>
    match rx.thread with
    | .posting i =>
      if rx.Fresh buf then
        some { (rx.alloc buf).post buf rxBufferSize with thread := .posted i }
      else none
    | _ => none
  | .count =>
    match rx.thread with
    | .posted i =>
      some { rx.count with thread := if i + 1 < 16 then .posting (i + 1) else .reading }
    | _ => none
  | .take =>
    match rx.thread with
    | .reading => some { rx with thread := if rx.semCount ≠ 0 then .taken else .sleeping }
    | _ => none
  | .copy =>
    match rx.thread, rx.packets with
    | .taken, skb :: packets => some { rx with packets := packets, thread := .processing skb }
    | _, _ => none
  | .compare mine =>
    match rx.thread with
    | .processing skb =>
      some (if mine then { rx with thread := .dispatching skb } else rx.deletePacket skb false)
    | _ => none
  | .move =>
    match rx.thread with
    | .dispatching skb =>
      some { rx with received := skb :: rx.received, thread := .dispatching .empty }
    | _ => none
  | .finish =>
    match rx.thread with
    | .dispatching skb => some (rx.deletePacket skb true)
    | _ => none
  | .goOn =>
    match rx.thread with
    | .releasing (.returning buf size) refills =>
      some { rx.post buf size with thread := .releasing .counting refills }
    | .releasing .counting refills =>
      some { rx with thread := .releasing (.storing rx.numRxBuffers) refills }
    | .releasing (.storing loaded) refills =>
      some { rx.store loaded with thread := afterDelete refills }
    | _ => none
  | .refill bufs =>
    match rx.thread with
    | .refilling => (rx.refill bufs).map fun rx => { rx with thread := .reading }
    | _ => none
  | .destroy skb =>
    if skb ∈ rx.received then
      match { rx with received := rx.received.erase skb }.destroy skb with
      | (none, rx) => some rx
      | (some release, rx) => some { rx with releases := release :: rx.releases }
    else none
  | .release release =>
    if release ∈ rx.releases then
      let rx := { rx with releases := rx.releases.erase release }
      match release with
      | .returning buf size => some { rx.post buf size with releases := .counting :: rx.releases }
      | .counting => some { rx with releases := .storing rx.numRxBuffers :: rx.releases }
      | .storing loaded => some (rx.store loaded)
    else none
  | .consume => rx.ofQueue .consume
  | .complete position len => rx.ofQueue (.complete position len)
  | .setUsedFlags flags => rx.ofQueue (.setUsedFlags flags)
  | .irqNext allocated =>
    if rx.queue.handling = none then do
      let (descId, call) ← handleVqIrqNext rx.queue.vq
      let rx := { rx with queue := rx.queue.enter descId call }
      some (match call with
        | some call => rx.rxHandler call allocated
        | none => rx)
    else none
  | .irqFree => rx.ofQueue .irqFree

/-- The driver after its constructor has created the queue and `rx_thread`. -/
def initial (size irqHandler irqHandlerCtx : Nat) : RxSystem where
  queue := System.initial size irqHandler irqHandlerCtx
  numRxBuffers := 0
  packets := []
  thread := .posting 0
  received := []
  releases := []
  buffers := []

end RxSystem

end Otrix.Dev
