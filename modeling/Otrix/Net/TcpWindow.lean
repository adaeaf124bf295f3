import Otrix.Net.TcpConnection
import Mathlib.Algebra.Ring.Nat

/-!
# The receive window

`recv_window_used_` is to count the bytes that are in the receive list and were not read. The
accounting starts in `accept_connection`, which counts the payload of the segment that completes
the handshake and then passes the segment to `handle_segment`, where it is counted again.

`handle_segment` and `recv` count alike as long as `recv` applies the offset of a partly read buffer
to a buffer that is at least that long. A shorter segment that arrives in between becomes the head of
the list, and `recv` then subtracts what it believes to have copied.
-/

namespace Otrix.Net

open Function Linked Machine

/-- `TCP_MSS`. -/
def tcpMss : Nat := 1460

/-- `TCP_INITIAL_WINDOW_SIZE`. -/
def tcpInitialWindowSize : Nat := tcpMss * 20

namespace TcpSocket

/-- The fields that the constructor and `accept_connection` give to a new connection. The constructor
leaves `remote_window_size_` as it is in memory, and the receive list is empty, whatever the
memory of its links and buffers holds. -/
def connected (links : Links) (buffers : Nat → Segment) (remoteWindowSize : Nat) (seq : UInt32)
    (data : Segment) : TcpSocket where
  state := .established
  seq := seq
  ack := data.seq
  recvWindowSize := tcpInitialWindowSize
  recvWindowUsed := data.payloadSize
  recvSkb := 0
  recvSkbPayloadOffset := 0
  remoteWindowSize := remoteWindowSize
  links := links
  buffers := buffers
  allocated := []
  reader := .idle
  senderNotified := 0
  sent := []

/-- The new connection when `accept_connection` is done with it. -/
def accepted (links : Links) (buffers : Nat → Segment) (remoteWindowSize : Nat) (seq : UInt32)
    (copy : Nat) (data : Segment) : TcpSocket :=
  let socket := connected links buffers remoteWindowSize seq data
  if 0 < data.payloadSize then socket.handleSegment copy data else socket

/-- The used window is the number of bytes in the receive list that were not read, and no more than
the window. -/
def Accounted (socket : TcpSocket) : Prop :=
  ∃ nodes, Queue socket.links socket.recvSkb nodes ∧
    socket.recvWindowUsed + socket.recvSkbPayloadOffset =
      (nodes.map fun node => (socket.buffers node).payloadSize).sum ∧
    socket.recvWindowUsed ≤ socket.recvWindowSize

end TcpSocket

/-- When `recv` is about to copy from the first buffer, the offset is within that buffer. -/
def OffsetWithin (stream : Stream) : ConnectionEvent → Prop
  | .advance =>
    match stream.socket.reader with
    | .ready _ _ => stream.socket.recvSkbPayloadOffset ≤
        (stream.socket.buffers stream.socket.recvSkb).payloadSize
    | _ => True
  | _ => True

/-- A condition on a reader that is about to copy can be evaluated. -/
def Reader.decidableReady (condition : Prop) [Decidable condition] : (reader : Reader) →
    Decidable (match reader with | .ready _ _ => condition | _ => True)
  | .ready _ _ => inferInstanceAs (Decidable condition)
  | .idle => instDecidableTrue
  | .loop _ _ => instDecidableTrue
  | .sawEmpty _ _ => instDecidableTrue
  | .waiting _ _ => instDecidableTrue

instance (stream : Stream) : (event : ConnectionEvent) → Decidable (OffsetWithin stream event)
  | .advance => Reader.decidableReady (stream.socket.recvSkbPayloadOffset ≤
      (stream.socket.buffers stream.socket.recvSkb).payloadSize) stream.socket.reader
  | .packet _ _ => instDecidableTrue
  | .recv _ => instDecidableTrue

/-- The bytes in a list of buffers. -/
def payloadTotal (buffers : Nat → Segment) (nodes : List Nat) : Nat :=
  (nodes.map fun node => (buffers node).payloadSize).sum

/-- The invariant of the accounting, for a receive list with these nodes. -/
structure Counted (socket : TcpSocket) (nodes : List Nat) : Prop where
  queue : Queue socket.links socket.recvSkb nodes
  total : socket.recvWindowUsed + socket.recvSkbPayloadOffset = payloadTotal socket.buffers nodes
  window : socket.recvWindowUsed ≤ socket.recvWindowSize
  range : socket.recvWindowSize < 2 ^ 64
  sizes : ∀ node ∈ nodes, (socket.buffers node).payloadSize < 2 ^ 64
  known : ∀ node ∈ nodes, node ∈ socket.allocated
  bounded : socket.reader.Bounded

namespace Counted

variable {socket : TcpSocket} {nodes : List Nat} {copy : Nat} {data : Segment}

theorem accounted (h : Counted socket nodes) : socket.Accounted :=
  ⟨nodes, h.queue, h.total, h.window⟩

theorem free_eq (h : Counted socket nodes) :
    sub64 socket.recvWindowSize socket.recvWindowUsed =
      socket.recvWindowSize - socket.recvWindowUsed :=
  sub64_of_le h.window h.range

theorem of_untouched {after : TcpSocket} (h : Counted socket nodes)
    (hsame : Untouched socket after) : Counted after nodes := by
  refine ⟨?_, ?_, ?_, ?_, ?_, ?_, ?_⟩
  · rw [hsame.links, hsame.head]
    exact h.queue
  · rw [hsame.used, hsame.offset, hsame.buffers]
    exact h.total
  · rw [hsame.used, hsame.window]
    exact h.window
  · rw [hsame.window]
    exact h.range
  · rw [hsame.buffers]
    exact h.sizes
  · rw [hsame.allocated]
    exact h.known
  · rw [hsame.reader]
    exact h.bounded

theorem payload_total_update (buffers : Nat → Segment) (data : Segment) (hnew : copy ∉ nodes) :
    payloadTotal (update buffers copy data) nodes = payloadTotal buffers nodes := by
  unfold payloadTotal
  congr 1
  refine List.map_congr_left fun node hnode => ?_
  have hne : node ≠ copy := fun heq => hnew (heq ▸ hnode)
  rw [update_of_ne hne]

/-- A queued segment takes its size from the window. -/
theorem queue_segment (h : Counted socket nodes) (hcopy : copy ≠ 0)
    (hnew : copy ∉ socket.allocated) (hqueues : socket.Queues data) :
    Counted (socket.handleSegment copy data) (copy :: nodes) := by
  obtain ⟨reader, sent, hhandle, hbounded⟩ := handle_segment_of_queues copy hqueues
  have hnot : copy ∉ nodes := fun hin => hnew (h.known copy hin)
  have hfree := hqueues.2.1
  rw [h.free_eq] at hfree
  have hwindow := h.window
  have hrange := h.range
  have hused : u64 (socket.recvWindowUsed + data.payloadSize) =
      socket.recvWindowUsed + data.payloadSize := u64_of_lt (by omega)
  rw [hhandle]
  refine ⟨?_, ?_, ?_, h.range, ?_, ?_, hbounded h.bounded⟩
  · have hfresh : ∀ other ∈ nodes, Apart Links copy other :=
      fun other hother heq => hnot (heq ▸ hother)
    have hpushed := intrusive_list_init_push_back_queue h.queue (show Storable Links copy from trivial)
      hcopy hfresh
    rw [intrusive_list_push_back_snd] at hpushed
    exact hpushed
  · have htotal := h.total
    show u64 (socket.recvWindowUsed + data.payloadSize) + socket.recvSkbPayloadOffset =
      payloadTotal (update socket.buffers copy data) (copy :: nodes)
    have hcons : payloadTotal (update socket.buffers copy data) (copy :: nodes) =
        data.payloadSize + payloadTotal (update socket.buffers copy data) nodes := by
      simp [payloadTotal]
    rw [hcons, payload_total_update _ _ hnot, hused]
    omega
  · show u64 (socket.recvWindowUsed + data.payloadSize) ≤ socket.recvWindowSize
    omega
  · intro node hnode
    show (update socket.buffers copy data node).payloadSize < 2 ^ 64
    by_cases heq : node = copy
    · rw [heq, update_self]
      omega
    · rw [update_of_ne heq]
      exact h.sizes node ((List.mem_cons.mp hnode).resolve_left heq)
  · intro node hnode
    rcases List.mem_cons.mp hnode with rfl | hnode
    · exact List.mem_cons_self
    · exact List.mem_cons_of_mem _ (h.known node hnode)

theorem packet (h : Counted socket nodes) (hcopy : copy ≠ 0) (hnew : copy ∉ socket.allocated)
    (data : Segment) :
    ∃ nodes, Counted (socket.processPacket copy data) nodes := by
  by_cases hhandles : socket.Handles data
  · rw [process_packet_of_handles copy hhandles]
    by_cases hqueues : socket.Queues data
    · exact ⟨_, h.queue_segment hcopy hnew hqueues⟩
    · have hused : socket.recvWindowUsed < 2 ^ 64 := lt_of_le_of_lt h.window h.range
      exact ⟨nodes, h.of_untouched (handle_segment_of_not_queues copy hused hqueues)⟩
  · exact ⟨nodes, h.of_untouched (process_packet_of_not_handles copy hhandles)⟩

theorem reader (h : Counted socket nodes) {reader : Reader} (hbounded : reader.Bounded) :
    Counted { socket with reader := reader } nodes :=
  ⟨h.queue, h.total, h.window, h.range, h.sizes, h.known, hbounded⟩

/-- The protected region of `recv` counts what it copies, if the offset is within the first
buffer. -/
theorem region (h : Counted socket nodes) {dataSize : Nat} {received copied : List UInt8}
    {push : Bool} {after : TcpSocket} (hlength : received.length ≤ dataSize)
    (hdata : dataSize < 2 ^ 64)
    (hfirst : socket.recvSkbPayloadOffset ≤ (socket.buffers socket.recvSkb).payloadSize)
    (hregion : socket.recvRegion dataSize received = some (after, copied, push)) :
    copied.length ≤ dataSize ∧ ∃ nodes, Counted after nodes := by
  by_cases hnull : socket.recvSkb = 0
  · rw [TcpSocket.recvRegion, if_pos hnull] at hregion
    cases hregion
  · obtain ⟨rest, rfl⟩ := h.queue.exists_cons hnull
    obtain ⟨_, hcases, hafter⟩ := recv_region_cases hnull hlength hdata hfirst
      (h.sizes socket.recvSkb List.mem_cons_self) rfl
    rw [hregion] at hcases
    cases hcases
    generalize hcount : min (dataSize - received.length)
      ((socket.buffers socket.recvSkb).payloadSize - socket.recvSkbPayloadOffset) = count at hafter ⊢
    have htotal := h.total
    have hrest : payloadTotal socket.buffers (socket.recvSkb :: rest) =
        (socket.buffers socket.recvSkb).payloadSize + payloadTotal socket.buffers rest := by
      simp [payloadTotal]
    have hwindow := h.window
    have hrange := h.range
    have hused : sub64 socket.recvWindowUsed count = socket.recvWindowUsed - count :=
      sub64_of_le (by omega) (by omega)
    refine ⟨?_, ?_⟩
    · simp only [List.length_append, List.length_map, List.length_range]
      omega
    · rcases hafter with ⟨husedUp, sent, rfl⟩ | ⟨_, sent, rfl⟩
      · -- the buffer is used up and leaves the list
        have hqueue : Queue socket.links socket.recvSkb ([] ++ socket.recvSkb :: rest) := h.queue
        refine ⟨rest, intrusive_list_delete_queue hqueue, ?_, ?_, h.range,
          fun node hnode => h.sizes node (List.mem_cons_of_mem _ hnode), fun node hnode => ?_,
          h.bounded⟩
        · show sub64 socket.recvWindowUsed count + 0 = payloadTotal socket.buffers rest
          omega
        · show sub64 socket.recvWindowUsed count ≤ socket.recvWindowSize
          omega
        · have hnodup := h.queue.ring.nodup
          have hne : node ≠ socket.recvSkb := fun heq =>
            (List.nodup_cons.mp hnodup).1 (heq ▸ hnode)
          exact (List.mem_erase_of_ne hne).mpr (h.known node (List.mem_cons_of_mem _ hnode))
      · refine ⟨socket.recvSkb :: rest, h.queue, ?_, ?_, h.range, h.sizes, h.known, h.bounded⟩
        · show sub64 socket.recvWindowUsed count + (socket.recvSkbPayloadOffset + count) =
            payloadTotal socket.buffers (socket.recvSkb :: rest)
          omega
        · show sub64 socket.recvWindowUsed count ≤ socket.recvWindowSize
          omega

theorem advance {stream next : Stream} (h : Counted stream.socket nodes)
    (hwithin : OffsetWithin stream .advance) (hstep : stream.advance = some next) :
    ∃ nodes, Counted next.socket nodes := by
  have hbounded := h.bounded
  cases Stream.advances hstep with
  | finish => exact ⟨nodes, h.reader trivial⟩
  | sawEmpty hreader | sawBuffer hreader | waits hreader =>
    rw [hreader] at hbounded
    exact ⟨nodes, h.reader hbounded⟩
  | pushed hreader hregion =>
    rw [hreader] at hbounded
    simp only [OffsetWithin, hreader] at hwithin
    obtain ⟨_, nodes', hafter⟩ := h.region hbounded.1 hbounded.2 hwithin hregion
    exact ⟨nodes', hafter.reader trivial⟩
  | copied hreader hregion =>
    rw [hreader] at hbounded
    simp only [OffsetWithin, hreader] at hwithin
    obtain ⟨hcopied, nodes', hafter⟩ := h.region hbounded.1 hbounded.2 hwithin hregion
    exact ⟨nodes', hafter.reader ⟨hcopied, hbounded.2⟩⟩

theorem serve {stream next : Stream} {event : ConnectionEvent} (h : Counted stream.socket nodes)
    (hwithin : OffsetWithin stream event) (hstep : stream.serve event = some next) :
    ∃ nodes, Counted next.socket nodes := by
  cases event with
  | packet copy data =>
    simp only [Stream.serve, Option.ite_none_right_eq_some, Option.some.injEq] at hstep
    obtain ⟨⟨hcopy, hnew, _⟩, rfl⟩ := hstep
    exact h.packet hcopy hnew data
  | recv dataSize =>
    simp only [Stream.serve, Stream.step, Option.ite_none_right_eq_some, Option.some.injEq]
      at hstep
    obtain ⟨⟨_, _, hdata⟩, rfl⟩ := hstep
    exact ⟨nodes, h.reader ⟨Nat.zero_le _, hdata⟩⟩
  | advance => exact h.advance hwithin hstep

end Counted

/-! ## The handshake -/

section

variable (links : Links) (buffers : Nat → Segment) (remoteWindowSize : Nat) (seq : UInt32)
  {copy : Nat} {data : Segment}

/-- A connection whose handshake carries no data starts with an empty window. -/
theorem counted_accepted (hempty : data.payloadSize = 0) :
    Counted (TcpSocket.accepted links buffers remoteWindowSize seq copy data) [] := by
  have hnone : ¬ 0 < data.payloadSize := by omega
  unfold TcpSocket.accepted
  simp only [if_neg hnone]
  refine ⟨Queue.nil, ?_, ?_, ?_, ?_, ?_, trivial⟩
  · show data.payloadSize + 0 = 0
    omega
  · show data.payloadSize ≤ tcpInitialWindowSize
    omega
  · show tcpInitialWindowSize < 2 ^ 64
    unfold tcpInitialWindowSize tcpMss
    omega
  · intro node hnode
    cases hnode
  · intro node hnode
    cases hnode

/-- A connection whose handshake carries data counts it twice if it fits the rest of the window, and
once without keeping it otherwise. -/
theorem not_accounted_accepted (hcopy : copy ≠ 0) (hsize : data.payloadSize < 2 ^ 64)
    (hpayload : 0 < data.payloadSize) :
    ¬ (TcpSocket.accepted links buffers remoteWindowSize seq copy data).Accounted := by
  unfold TcpSocket.accepted
  simp only [if_pos hpayload]
  generalize hsocket : TcpSocket.connected links buffers remoteWindowSize seq data = socket
  rintro ⟨nodes, hqueue, htotal, _⟩
  by_cases hqueues : socket.Queues data
  · obtain ⟨reader, sent, hhandle, _⟩ := handle_segment_of_queues copy hqueues
    rw [hhandle, ← hsocket] at hqueue htotal
    obtain ⟨rest, rfl⟩ := hqueue.exists_cons hcopy
    have hrest : rest = [] := hqueue.ring.rest_eq_nil (intrusive_list_init_ring
      (s := intrusiveListInit links copy) trivial hcopy).link_self.1
    have htwice : u64 (data.payloadSize + data.payloadSize) + 0 =
        payloadTotal (update buffers copy data) (copy :: rest) := htotal
    have hone : payloadTotal (update buffers copy data) [copy] = data.payloadSize := by
      simp [payloadTotal]
    rw [hrest, hone] at htwice
    unfold u64 at htwice
    omega
  · have hused : socket.recvWindowUsed < 2 ^ 64 := hsocket ▸ hsize
    have hsame := handle_segment_of_not_queues copy hused hqueues
    rw [hsame.head, ← hsocket] at hqueue
    rw [hsame.used, hsame.offset, ← hsocket, hqueue.head_eq_null_iff.mp rfl] at htotal
    have hnone : data.payloadSize + 0 = 0 := htotal
    omega

end

/-- A new connection is accounted for exactly when the segment that completes the handshake carries
no data. From then on, the accounting holds in every state of every run in which `recv` copies only
while the offset is within the first buffer. -/
theorem window_accounted_of_offset_within (links : Links) (buffers : Nat → Segment)
    (remoteWindowSize : Nat) (seq : UInt32) {copy : Nat} {data : Segment} (hcopy : copy ≠ 0)
    (hsize : data.payloadSize < 2 ^ 64) :
    ((TcpSocket.accepted links buffers remoteWindowSize seq copy data).Accounted ↔
      data.payloadSize = 0) ∧
    (data.payloadSize = 0 → ∀ (events : List ConnectionEvent) (final : Stream),
      Meets Stream.serve OffsetWithin (Stream.initial
        (TcpSocket.accepted links buffers remoteWindowSize seq copy data)) events →
      run Stream.serve (Stream.initial
        (TcpSocket.accepted links buffers remoteWindowSize seq copy data)) events = some final →
      final.socket.Accounted) := by
  refine ⟨⟨?_, fun hempty => (counted_accepted links buffers remoteWindowSize seq hempty).accounted⟩,
    ?_⟩
  · intro haccounted
    by_contra hne
    exact not_accounted_accepted links buffers remoteWindowSize seq hcopy hsize (by omega) haccounted
  · intro hempty events final hmeets hrun
    obtain ⟨nodes, h⟩ := run_invariant_of_meets
      (fun stream : Stream => ∃ nodes, Counted stream.socket nodes)
      (fun _ _ _ ⟨_, h⟩ hwithin hstep => h.serve hwithin hstep)
      ⟨[], counted_accepted links buffers remoteWindowSize seq hempty⟩ hmeets hrun
    exact h.accounted

/-- The connection of a handshake whose last segment has this payload. -/
def handshakeSocket (letters : List UInt8) : TcpSocket :=
  TcpSocket.accepted ⟨fun _ => 0, fun _ => 0⟩ (fun _ => dataSegment 0 []) 0 1 8
    (dataSegment 0 letters)

/-- Two segments arrive, and two calls read them with one byte left over in between. -/
theorem window_accounted_two_segments : ∃ final,
    run Stream.serve (Stream.initial (handshakeSocket []))
      [.packet 16 (dataSegment 0 [97, 98, 99]), .recv 2, .advance, .advance, .advance,
        .packet 32 (dataSegment 3 [100, 101]), .recv 9, .advance, .advance] = some final ∧
    final.socket.Accounted := by
  refine exists_of_isSome (by decide +kernel) ?_
  intro final hrun
  exact (window_accounted_of_offset_within _ _ _ _ (by decide) (by decide)).2 rfl _ _
    (by decide +kernel) hrun

/-- One byte in the handshake is counted twice. After a handshake without data, a segment of one byte
arrives while three of four bytes are read, and the next call wraps the counter. -/
theorem window_is_miscounted :
    (handshakeSocket [97]).recvWindowUsed = 2 ∧ ¬ (handshakeSocket [97]).Accounted ∧
    (handshakeSocket []).Accounted ∧ ∃ final,
      run Stream.serve (Stream.initial (handshakeSocket []))
        [.packet 16 (dataSegment 0 [97, 98, 99, 100]), .recv 3, .advance, .advance, .advance,
          .packet 32 (dataSegment 4 [101]), .recv 9, .advance, .advance] = some final ∧
      final.socket.recvWindowSize < final.socket.recvWindowUsed ∧ ¬ final.socket.Accounted := by
  refine ⟨by decide +kernel, not_accounted_accepted _ _ _ _ (by decide) (by decide) (by decide),
    (counted_accepted _ _ _ _ rfl).accounted, ?_⟩
  refine exists_of_any (fun final =>
      final.socket.recvWindowSize < final.socket.recvWindowUsed) (by decide +kernel) ?_
  intro final hrun hlarge
  exact ⟨hlarge, fun ⟨_, _, _, hwindow⟩ => Nat.not_lt.mpr hwindow hlarge⟩

end Otrix.Net
