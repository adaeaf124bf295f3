import Otrix.Net.TcpStream

/-!
# Segments of a connection in any order

`process_packet` of a connected socket: what it does with a segment of any sequence number
depends on the state. An established socket answers a segment without ACK with a reset, and a
socket in `CLOSE_WAIT` closes on a reset; everything else goes to `handle_segment`.

`handle_segment` compares the sequence number with `ack_` in one direction only. A segment from
beyond a gap is taken like the next one.
-/

namespace Otrix.Net

open Linked Machine

/-- `TCP_FLAG_RST`. -/
def tcpFlagRst : UInt8 := 0x04

namespace TcpSocket

/-- `handle_established_state`. -/
def handleEstablishedState (socket : TcpSocket) (copy : Nat) (data : Segment) : TcpSocket :=
  if data.flags &&& tcpFlagAck ≠ 0 then socket.handleSegment copy data
  else socket.sendPacket tcpFlagRst

/-- `handle_close_wait_state`. -/
def handleCloseWaitState (socket : TcpSocket) (copy : Nat) (data : Segment) : TcpSocket :=
  if data.flags &&& tcpFlagRst ≠ 0 then
    { socket with state := .closed, senderNotified := socket.senderNotified + 1 }
  else socket.handleSegment copy data

/-- `process_packet` of a socket that does not listen. -/
def processPacket (socket : TcpSocket) (copy : Nat) (data : Segment) : TcpSocket :=
  match socket.state with
  | .established => socket.handleEstablishedState copy data
  | .closeWait => socket.handleCloseWaitState copy data
  | _ => socket

/-- The socket passes the segment to `handle_segment`. -/
def Handles (socket : TcpSocket) (data : Segment) : Prop :=
  socket.state = .established ∧ data.flags &&& tcpFlagAck ≠ 0 ∨
    socket.state = .closeWait ∧ data.flags &&& tcpFlagRst = 0
  deriving Decidable

/-- `handle_segment` has something of the segment to put into the receive list: the segment is not
an old one, it fits the window, and it has a payload or a FIN. -/
def Queues (socket : TcpSocket) (data : Segment) : Prop :=
  ¬ data.seq < socket.ack ∧
    data.payloadSize ≤ sub64 socket.recvWindowSize socket.recvWindowUsed ∧
    (0 < data.payloadSize ∨ isFin data)
  deriving Decidable

/-- What of a packet goes into the receive list. -/
def bytesTaken (socket : TcpSocket) (data : Segment) : List UInt8 :=
  if socket.Handles data ∧ socket.Queues data then data.bytes else []

/-! ## The parts of `handle_segment` -/

section Parts

variable (socket : TcpSocket) (copy : Nat) (data : Segment)

/-- `handle_segment` treats the segment as an old one. -/
def TreatsAsOld : Prop :=
  data.seq < socket.ack
  deriving Decidable

/-- The segment is accepted, and queued if there is something of it to queue. -/
def takeSegment : TcpSocket :=
  if 0 < data.payloadSize ∨ isFin data then (socket.acceptSegment data).queueSegment copy data
  else socket.acceptSegment data

/-- The end of `handle_segment`. -/
def answerSegment : TcpSocket :=
  if data.flags &&& tcpFlagPsh ≠ 0 ∨ socket.recvWindowSize = 0 ∨ isFin data then
    socket.sendPacket tcpFlagAck
  else socket

theorem handle_segment_eq : socket.handleSegment copy data =
    if socket.TreatsAsOld data ∨
        sub64 socket.recvWindowSize socket.recvWindowUsed < data.payloadSize then
      socket.sendPacket tcpFlagAck
    else (socket.takeSegment copy data).answerSegment data := by
  unfold handleSegment
  by_cases hold : socket.TreatsAsOld data
  · have hseq : data.seq < socket.ack := hold
    rw [if_pos hseq, if_pos (Or.inl hold)]
  · have hseq : ¬ data.seq < socket.ack := hold
    rw [if_neg hseq]
    by_cases hwindow : sub64 socket.recvWindowSize socket.recvWindowUsed < data.payloadSize
    · rw [if_pos hwindow, if_pos (Or.inr hwindow)]
    · rw [if_neg hwindow, if_neg (not_or.mpr ⟨hold, hwindow⟩)]
      rfl

/-- Accepting a segment changes the receiving side behind the bookkeeping and nothing else. -/
theorem take_segment_frame : ∃ links recvSkb buffers allocated reader,
    socket.takeSegment copy data = { socket.acceptSegment data with
      links := links
      recvSkb := recvSkb
      buffers := buffers
      allocated := allocated
      reader := reader } := by
  unfold takeSegment
  split
  · obtain ⟨reader, hqueue, _⟩ := queue_segment_eq (socket.acceptSegment data) copy data
    exact ⟨_, _, _, _, reader, hqueue⟩
  · exact ⟨_, _, _, _, _, rfl⟩

theorem answer_segment_eq : socket.answerSegment data =
    { socket with sent := (socket.answerSegment data).sent } := by
  unfold answerSegment
  split
  · rfl
  · rfl

end Parts

end TcpSocket

/-! ## A connection in use -/

/-- What can happen to a connection: any packet arrives, an application calls `recv`, or the running
call takes its next step. -/
inductive ConnectionEvent where
  | packet (copy : Nat) (data : Segment)
  | recv (dataSize : Nat)
  | advance

/-- One event. The `sockbuf` that may be allocated for the packet is a new one. -/
def Stream.serve (stream : Stream) : ConnectionEvent → Option Stream
  | .packet copy data =>
    if copy ≠ 0 ∧ copy ∉ stream.socket.allocated ∧ copy ≠ stream.socket.recvSkb then
      some { stream with
        socket := stream.socket.processPacket copy data
        delivered := stream.delivered ++ stream.socket.bytesTaken data }
    else none
  | .recv dataSize => stream.step (.recv dataSize)
  | .advance => stream.advance

/-- The receive list, the acknowledged sequence number and the used window are the same. -/
structure SameReceive (before after : TcpSocket) : Prop where
  ack : after.ack = before.ack
  used : after.recvWindowUsed = before.recvWindowUsed
  head : after.recvSkb = before.recvSkb
  links : after.links = before.links
  buffers : after.buffers = before.buffers
  offset : after.recvSkbPayloadOffset = before.recvSkbPayloadOffset

/-- A packet whose sequence number is not the next one changes nothing of what was received. -/
def InOrderOnly (stream : Stream) : ConnectionEvent → Prop
  | .packet copy data => data.seq ≠ stream.socket.ack →
      SameReceive stream.socket (stream.socket.processPacket copy data)
  | _ => True

/-- No packet that `handle_segment` has something to queue of is ahead of `ack_`. -/
def NoGap (stream : Stream) : ConnectionEvent → Prop
  | .packet _ data => stream.socket.Handles data → stream.socket.Queues data →
      ¬ stream.socket.ack < data.seq
  | _ => True

instance (stream : Stream) (event : ConnectionEvent) : Decidable (NoGap stream event) := by
  cases event <;> unfold NoGap <;> infer_instance

/-! ## What a packet changes -/

/-- Nothing of the receiving side is changed. -/
structure Untouched (before after : TcpSocket) : Prop extends SameReceive before after where
  window : after.recvWindowSize = before.recvWindowSize
  allocated : after.allocated = before.allocated
  reader : after.reader = before.reader

namespace Untouched

variable {socket : TcpSocket}

theorem refl (socket : TcpSocket) : Untouched socket socket :=
  ⟨⟨rfl, rfl, rfl, rfl, rfl, rfl⟩, rfl, rfl, rfl⟩

theorem send_packet (socket : TcpSocket) (flags : UInt8) :
    Untouched socket (socket.sendPacket flags) :=
  ⟨⟨rfl, rfl, rfl, rfl, rfl, rfl⟩, rfl, rfl, rfl⟩

theorem trans {middle after : TcpSocket} (h : Untouched socket middle)
    (h' : Untouched middle after) : Untouched socket after :=
  ⟨⟨h'.ack.trans h.ack, h'.used.trans h.used, h'.head.trans h.head, h'.links.trans h.links,
    h'.buffers.trans h.buffers, h'.offset.trans h.offset⟩, h'.window.trans h.window,
    h'.allocated.trans h.allocated, h'.reader.trans h.reader⟩

theorem send_packet_if (socket : TcpSocket) (condition : Prop) [Decidable condition]
    (flags : UInt8) :
    Untouched socket (if condition then socket.sendPacket flags else socket) := by
  split
  · exact send_packet socket flags
  · exact refl socket

end Untouched

variable {socket : TcpSocket} {data : Segment}

/-- A segment that `handle_segment` has something to queue of becomes the head of the list. -/
theorem handle_segment_of_queues (copy : Nat)
    (h : socket.Queues data) :
    ∃ reader sent, socket.handleSegment copy data = { socket.acceptSegment data with
        links := (intrusiveListPushBack (intrusiveListInit socket.links copy) socket.recvSkb copy).1
        recvSkb := copy
        buffers := Function.update socket.buffers copy data
        allocated := copy :: socket.allocated
        reader := reader
        sent := sent } ∧ (socket.reader.Bounded → reader.Bounded) := by
  obtain ⟨hseq, hwindow, hsome⟩ := h
  obtain ⟨reader, hqueue, _, hbounded⟩ := queue_segment_eq (socket.acceptSegment data) copy data
  have htaken : ¬ (socket.TreatsAsOld data ∨
      sub64 socket.recvWindowSize socket.recvWindowUsed < data.payloadSize) :=
    not_or.mpr ⟨hseq, Nat.not_lt.mpr hwindow⟩
  rw [TcpSocket.handle_segment_eq, if_neg htaken, TcpSocket.answer_segment_eq,
    TcpSocket.takeSegment, if_pos hsome, hqueue]
  exact ⟨reader, _, rfl, hbounded⟩

/-- Any other segment changes nothing of what was received. -/
theorem handle_segment_of_not_queues (copy : Nat)
    (hused : socket.recvWindowUsed < 2 ^ 64) (h : ¬ socket.Queues data) :
    Untouched socket (socket.handleSegment copy data) := by
  rw [TcpSocket.handle_segment_eq]
  by_cases hdropped : socket.TreatsAsOld data ∨
      sub64 socket.recvWindowSize socket.recvWindowUsed < data.payloadSize
  · rw [if_pos hdropped]
    exact Untouched.send_packet ..
  · obtain ⟨hseq, hwindow⟩ := not_or.mp hdropped
    have hnone : ¬ (0 < data.payloadSize ∨ TcpSocket.isFin data) :=
      fun hsome => h ⟨hseq, Nat.not_lt.mp hwindow, hsome⟩
    have hempty : data.payloadSize = 0 := by
      have := (not_or.mp hnone).1
      omega
    have haccept : Untouched socket (socket.acceptSegment data) := by
      refine ⟨⟨?_, ?_, rfl, rfl, rfl, rfl⟩, rfl, rfl, rfl⟩
      · show socket.ack + UInt32.ofNat data.payloadSize = socket.ack
        rw [hempty]
        exact UInt32.add_zero _
      · show u64 (socket.recvWindowUsed + data.payloadSize) = socket.recvWindowUsed
        rw [hempty]
        exact u64_of_lt hused
    rw [if_neg hdropped, TcpSocket.takeSegment, if_neg hnone]
    exact haccept.trans (Untouched.send_packet_if ..)

theorem process_packet_of_handles (copy : Nat)
    (h : socket.Handles data) :
    socket.processPacket copy data = socket.handleSegment copy data := by
  unfold TcpSocket.processPacket
  rcases h with ⟨hstate, hflag⟩ | ⟨hstate, hflag⟩
  · rw [hstate]
    exact if_pos hflag
  · rw [hstate]
    exact if_neg (not_not_intro hflag)

/-- A packet that is not handled changes nothing of what was received. -/
theorem process_packet_of_not_handles (copy : Nat)
    (h : ¬ socket.Handles data) : Untouched socket (socket.processPacket copy data) := by
  unfold TcpSocket.processPacket
  cases hstate : socket.state with
  | established =>
    have hflag : ¬ data.flags &&& tcpFlagAck ≠ 0 := fun hflag => h (Or.inl ⟨hstate, hflag⟩)
    simp only [TcpSocket.handleEstablishedState, if_neg hflag]
    exact Untouched.send_packet ..
  | closeWait =>
    have hflag : data.flags &&& tcpFlagRst ≠ 0 := fun hflag => h (Or.inr ⟨hstate, hflag⟩)
    simp only [TcpSocket.handleCloseWaitState, if_pos hflag]
    exact ⟨⟨rfl, rfl, rfl, rfl, rfl, rfl⟩, rfl, rfl, rfl⟩
  | _ => exact Untouched.refl socket

/-- A packet changes what was received exactly when it is handled and has something to queue. -/
theorem process_packet_same_iff {copy : Nat}
    (hused : socket.recvWindowUsed < 2 ^ 64) (hcopy : copy ≠ socket.recvSkb) :
    SameReceive socket (socket.processPacket copy data) ↔
      ¬ (socket.Handles data ∧ socket.Queues data) := by
  constructor
  · rintro hsame ⟨hhandles, hqueues⟩
    rw [process_packet_of_handles copy hhandles] at hsame
    obtain ⟨_, _, hhandle, _⟩ := handle_segment_of_queues copy hqueues
    have hhead := hsame.head
    rw [hhandle] at hhead
    exact hcopy hhead
  · intro hnot
    by_cases hhandles : socket.Handles data
    · rw [process_packet_of_handles copy hhandles]
      exact (handle_segment_of_not_queues copy hused
        fun hqueues => hnot ⟨hhandles, hqueues⟩).toSameReceive
    · exact (process_packet_of_not_handles copy hhandles).toSameReceive

/-! ## The counter of the window is a `size_t` -/

theorem handle_segment_used_lt (copy : Nat) (data : Segment)
    (hused : socket.recvWindowUsed < 2 ^ 64) :
    (socket.handleSegment copy data).recvWindowUsed < 2 ^ 64 := by
  by_cases hqueues : socket.Queues data
  · obtain ⟨_, _, hhandle, _⟩ := handle_segment_of_queues copy hqueues
    rw [hhandle]
    exact u64_lt _
  · rw [(handle_segment_of_not_queues copy hused hqueues).used]
    exact hused

/-- What `recv` does not change. -/
structure SameControl (before after : TcpSocket) : Prop where
  state : after.state = before.state
  seq : after.seq = before.seq
  ack : after.ack = before.ack
  remoteWindow : after.remoteWindowSize = before.remoteWindowSize
  notified : after.senderNotified = before.senderNotified

/-- The protected region of `recv` changes what was received and what is left of it, and no more, and
keeps the used window in its range. -/
theorem recv_region_frame {socket after : TcpSocket} {dataSize : Nat}
    {received copied : List UInt8} {push : Bool}
    (hregion : socket.recvRegion dataSize received = some (after, copied, push)) :
    SameControl socket after ∧ after.recvWindowUsed < 2 ^ 64 := by
  unfold TcpSocket.recvRegion at hregion
  split at hregion
  · cases hregion
  · simp only [Option.some.injEq, Prod.mk.injEq] at hregion
    rw [← hregion.1, Otrix.Net.send_packet_if]
    split
    · exact ⟨⟨rfl, rfl, rfl, rfl, rfl⟩, sub64_lt ..⟩
    · exact ⟨⟨rfl, rfl, rfl, rfl, rfl⟩, sub64_lt ..⟩

variable {stream next : Stream}

/-- What a step of the running call changes: the point that the call has reached and, in the
protected region, what the region changes. -/
theorem advance_cases (hstep : stream.advance = some next) :
    ∃ socket reader, next.socket = { socket with reader := reader } ∧
      (socket = stream.socket ∨ ∃ dataSize received copied push,
        stream.socket.recvRegion dataSize received = some (socket, copied, push)) := by
  cases Stream.advances hstep with
  | finish | sawEmpty | sawBuffer | waits => exact ⟨stream.socket, _, rfl, Or.inl rfl⟩
  | pushed _ hregion | copied _ hregion =>
    exact ⟨_, _, rfl, Or.inr ⟨_, _, _, _, hregion⟩⟩

/-- A step of the running call changes what was received and what is left of it, and no more. -/
theorem advance_same_control (hstep : stream.advance = some next) :
    SameControl stream.socket next.socket := by
  obtain ⟨socket, reader, hnext, rfl | ⟨dataSize, received, copied, push, hregion⟩⟩ :=
    advance_cases hstep
  · rw [hnext]
    exact ⟨rfl, rfl, rfl, rfl, rfl⟩
  · have hsame := (recv_region_frame hregion).1
    rw [hnext]
    exact ⟨hsame.state, hsame.seq, hsame.ack, hsame.remoteWindow, hsame.notified⟩

theorem advance_used_lt (hused : stream.socket.recvWindowUsed < 2 ^ 64)
    (hstep : stream.advance = some next) : next.socket.recvWindowUsed < 2 ^ 64 := by
  obtain ⟨socket, reader, hnext, rfl | ⟨_, _, _, _, hregion⟩⟩ := advance_cases hstep
  · exact hnext ▸ hused
  · have hregionUsed := (recv_region_frame hregion).2
    rw [hnext]
    exact hregionUsed

theorem serve_used_lt {event : ConnectionEvent}
    (hused : stream.socket.recvWindowUsed < 2 ^ 64) (hstep : stream.serve event = some next) :
    next.socket.recvWindowUsed < 2 ^ 64 := by
  cases event with
  | packet copy data =>
    simp only [Stream.serve, Option.ite_none_right_eq_some, Option.some.injEq] at hstep
    obtain ⟨_, rfl⟩ := hstep
    by_cases hhandles : stream.socket.Handles data
    · show (stream.socket.processPacket copy data).recvWindowUsed < _
      rw [process_packet_of_handles copy hhandles]
      exact handle_segment_used_lt copy data hused
    · show (stream.socket.processPacket copy data).recvWindowUsed < _
      rw [(process_packet_of_not_handles copy hhandles).used]
      exact hused
  | recv dataSize =>
    simp only [Stream.serve, Stream.step, Option.ite_none_right_eq_some, Option.some.injEq]
      at hstep
    exact hstep.2 ▸ hused
  | advance => exact advance_used_lt hused hstep

/-! ## Whole runs -/

/-- In a run of any packets and `recv` calls, only segments with the next sequence number change what
was received exactly when no packet with something to queue comes from beyond a gap. -/
theorem in_order_only_iff_no_gap {socket : TcpSocket} (hused : socket.recvWindowUsed < 2 ^ 64)
    {events : List ConnectionEvent} {final : Stream}
    (hrun : run Stream.serve (Stream.initial socket) events = some final) :
    Meets Stream.serve InOrderOnly (Stream.initial socket) events ↔
      Meets Stream.serve NoGap (Stream.initial socket) events := by
  refine meets_iff_meets_of_run (fun stream => stream.socket.recvWindowUsed < 2 ^ 64)
    ?_ (fun _ _ _ h hstep => serve_used_lt h hstep) hused hrun
  intro stream event next hused hstep
  cases event with
  | packet copy data =>
    simp only [Stream.serve, Option.ite_none_right_eq_some] at hstep
    show (data.seq ≠ stream.socket.ack → _) ↔
      (stream.socket.Handles data → stream.socket.Queues data → ¬ stream.socket.ack < data.seq)
    rw [process_packet_same_iff hused hstep.1.2.2]
    constructor
    · intro honly hhandles hqueues hgap
      exact honly (Ne.symm (UInt32.ne_of_lt hgap)) ⟨hhandles, hqueues⟩
    · rintro hnone hne ⟨hhandles, hqueues⟩
      -- a segment that is neither old nor the next one is ahead
      have hle : stream.socket.ack ≤ data.seq := UInt32.not_lt.mp hqueues.1
      exact hnone hhandles hqueues (UInt32.lt_of_le_of_ne hle hne.symm)
  | recv dataSize => exact Iff.rfl
  | advance => exact Iff.rfl

/-- Segments in order, one of them twice, and an empty acknowledgement from beyond a gap. -/
theorem in_order_only_segments : ∃ final,
    run Stream.serve (Stream.initial freshSocket)
      [.packet 16 (dataSegment 0 [97, 98]), .packet 32 (dataSegment 0 [97, 98]),
        .packet 32 (dataSegment 2 [99]), .packet 48 (dataSegment 7 [])] = some final ∧
    Meets Stream.serve InOrderOnly (Stream.initial freshSocket)
      [.packet 16 (dataSegment 0 [97, 98]), .packet 32 (dataSegment 0 [97, 98]),
        .packet 32 (dataSegment 2 [99]), .packet 48 (dataSegment 7 [])] := by
  refine exists_of_isSome (by decide +kernel) ?_
  intro final hrun
  exact (in_order_only_iff_no_gap (by decide) hrun).mpr (by decide +kernel)

/-- A segment with sequence number `5` arrives while `0` is the next one. Its payload is queued and
acknowledged as if nothing were missing. -/
theorem segment_beyond_gap_is_queued :
    freshSocket.state = .established ∧ freshSocket.ack = 0 ∧
    (freshSocket.processPacket 16 (dataSegment 5 [97])).ack = 1 ∧
    (freshSocket.processPacket 16 (dataSegment 5 [97])).recvSkb = 16 ∧
    ¬ InOrderOnly (Stream.initial freshSocket) (.packet 16 (dataSegment 5 [97])) := by
  have hack : (freshSocket.processPacket 16 (dataSegment 5 [97])).ack = 1 := by decide +kernel
  refine ⟨rfl, rfl, hack, by decide +kernel, fun honly => ?_⟩
  have hsame := (honly (by decide)).ack
  rw [show (Stream.initial freshSocket).socket = freshSocket from rfl, hack] at hsame
  exact absurd hsame (by decide)

end Otrix.Net
