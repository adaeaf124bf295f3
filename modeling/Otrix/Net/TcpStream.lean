import Otrix.Net.TcpSocket
import Otrix.Foundation.Run

/-!
# The order of the received bytes

`recv` returns the bytes of the segments in sequence order as long as every data
segment arrives while the receive list is empty. Without that condition it does
not: `handle_segment` stores the result of `intrusive_list_push_back` as the head
of the list, which makes the newest segment the first one to be read, and the
offset of a half-read segment is then applied to the new head.
-/

namespace Otrix.Net

open Linked Machine

/-- The bytes that the running call has copied. -/
def Reader.received : Reader → List UInt8
  | .idle => []
  | .loop _ received => received
  | .sawEmpty _ received => received
  | .waiting _ received => received
  | .ready _ received => received

/-- The running call has copied no more than it was asked for. -/
def Reader.Bounded : Reader → Prop
  | .idle => True
  | .loop dataSize received => received.length ≤ dataSize ∧ dataSize < 2 ^ 64
  | .sawEmpty dataSize received => received.length ≤ dataSize ∧ dataSize < 2 ^ 64
  | .waiting dataSize received => received.length ≤ dataSize ∧ dataSize < 2 ^ 64
  | .ready dataSize received => received.length ≤ dataSize ∧ dataSize < 2 ^ 64

/-- The rest of the first buffer in the receive list. -/
def TcpSocket.unread (socket : TcpSocket) : List UInt8 :=
  if socket.recvSkb = 0 then []
  else (socket.buffers socket.recvSkb).bytes.drop socket.recvSkbPayloadOffset

/-- The receive list holds at most one buffer, partly read, and nothing was reordered so far. -/
structure InStep (stream : Stream) : Prop where
  bytes : stream.delivered =
    stream.returned.flatten ++ stream.socket.reader.received ++ stream.socket.unread
  empty : stream.socket.recvSkb = 0 → stream.socket.recvSkbPayloadOffset = 0
  single : stream.socket.recvSkb ≠ 0 → Ring stream.socket.links [stream.socket.recvSkb] ∧
    stream.socket.recvSkbPayloadOffset ≤
      (stream.socket.buffers stream.socket.recvSkb).payloadSize ∧
    (stream.socket.buffers stream.socket.recvSkb).payloadSize < 2 ^ 64
  bounded : stream.socket.reader.Bounded
  ready : ∀ dataSize received, stream.socket.reader = .ready dataSize received →
    stream.socket.recvSkb ≠ 0

variable {socket : TcpSocket}

theorem in_step_initial (h : socket.Fresh) : InStep (Stream.initial socket) := by
  refine ⟨?_, fun _ => h.offset, fun hne => absurd h.empty hne, ?_, ?_⟩
  · simp [Stream.initial, TcpSocket.unread, h.empty, h.idle, Reader.received]
  · simp [Stream.initial, h.idle, Reader.Bounded]
  · intro dataSize received hready
    rw [Stream.initial, h.idle] at hready
    cases hready

/-! ## Arriving segments -/

/-- A notification changes the point of the reader, not what it has copied. -/
theorem notify_reader_eq (socket : TcpSocket) :
    ∃ reader, socket.notifyReader = { socket with reader := reader } ∧
      reader.received = socket.reader.received ∧
      (socket.reader.Bounded → reader.Bounded) := by
  unfold TcpSocket.notifyReader
  cases hreader : socket.reader with
  | waiting dataSize received => exact ⟨.ready dataSize received, rfl, rfl, id⟩
  | _ => exact ⟨socket.reader, rfl, by rw [hreader], by rw [hreader]; exact id⟩

/-- A queued segment becomes the head of the receive list, and a waiting reader goes on. -/
theorem queue_segment_eq (socket : TcpSocket) (copy : Nat) (data : Segment) :
    ∃ reader, socket.queueSegment copy data = { socket with
        links := (intrusiveListPushBack (intrusiveListInit socket.links copy) socket.recvSkb copy).1
        recvSkb := copy
        buffers := Function.update socket.buffers copy data
        allocated := copy :: socket.allocated
        reader := reader } ∧
      reader.received = socket.reader.received ∧ (socket.reader.Bounded → reader.Bounded) := by
  obtain ⟨reader, hnotify, hreceived, hbounded⟩ := notify_reader_eq { socket with
    links := (intrusiveListPushBack (intrusiveListInit socket.links copy) socket.recvSkb copy).1
    recvSkb := (intrusiveListPushBack (intrusiveListInit socket.links copy) socket.recvSkb copy).2
    buffers := Function.update socket.buffers copy data
    allocated := copy :: socket.allocated }
  refine ⟨reader, hnotify.trans ?_, hreceived, hbounded⟩
  rw [intrusive_list_push_back_snd]

variable {stream : Stream} {data : Segment}

/-- Queueing a segment on an empty list makes its payload the unread bytes. -/
theorem InStep.queue {copy : Nat} (h : InStep stream)
    (hempty : stream.socket.recvSkb = 0) (hcopy : copy ≠ 0) (hsize : data.payloadSize < 2 ^ 64) :
    InStep { stream with
      socket := stream.socket.queueSegment copy data
      delivered := stream.delivered ++ data.bytes } := by
  obtain ⟨reader, hqueue, hreceived, hbounded⟩ := queue_segment_eq stream.socket copy data
  have hlinks : (intrusiveListPushBack (intrusiveListInit stream.socket.links copy)
      stream.socket.recvSkb copy).1 =
        intrusiveListInit (intrusiveListInit stream.socket.links copy) copy := by
    rw [hempty, intrusiveListPushBack, null_links, if_pos rfl]
  rw [hlinks] at hqueue
  rw [hqueue]
  have hoffset := h.empty hempty
  refine ⟨?_, fun hnull => absurd hnull hcopy, fun _ => ⟨?_, ?_, ?_⟩, hbounded h.bounded,
    fun _ _ _ => hcopy⟩
  · have hbytes := h.bytes
    simp only [TcpSocket.unread, hempty, if_true, List.append_nil] at hbytes
    simp only [TcpSocket.unread, if_neg hcopy, hoffset, Function.update_self, List.drop_zero,
      hreceived, hbytes]
  · exact intrusive_list_init_ring trivial hcopy
  · simp only [Function.update_self, hoffset]
    exact Nat.zero_le _
  · simp only [Function.update_self]
    exact hsize

/-- A segment that is in order passes the checks of `handle_segment`. -/
theorem handle_segment_in_order (copy : Nat)
    (h : InOrder socket data) :
    ∃ sent, socket.handleSegment copy data =
      { (if 0 < data.payloadSize then (socket.acceptSegment data).queueSegment copy data
          else socket.acceptSegment data) with sent := sent } := by
  obtain ⟨hseq, hwindow, hfin⟩ := h
  have hnew : ¬ data.seq < socket.ack := by
    rw [hseq]
    exact UInt32.lt_irrefl _
  simp only [TcpSocket.handleSegment, if_neg hnew, if_neg (Nat.not_lt.mpr hwindow), hfin, or_false]
  generalize (if 0 < data.payloadSize then (socket.acceptSegment data).queueSegment copy data
    else socket.acceptSegment data) = queued
  split
  · exact ⟨_, rfl⟩
  · exact ⟨_, rfl⟩

theorem InStep.accept (h : InStep stream) (data : Segment) :
    InStep { stream with socket := stream.socket.acceptSegment data } :=
  ⟨h.bytes, h.empty, h.single, h.bounded, h.ready⟩

theorem InStep.send (h : InStep stream) (sent : List Packet) :
    InStep { stream with socket := { stream.socket with sent := sent } } :=
  ⟨h.bytes, h.empty, h.single, h.bounded, h.ready⟩

/-- A data segment that arrives on an empty list keeps the stream in step. -/
theorem InStep.segment {copy : Nat} (h : InStep stream)
    (horder : InOrder stream.socket data) (hcopy : copy ≠ 0)
    (hempty : 0 < data.payloadSize → stream.socket.recvSkb = 0) :
    InStep { stream with
      socket := stream.socket.handleSegment copy data
      delivered := stream.delivered ++ data.bytes } := by
  obtain ⟨sent, hhandle⟩ := handle_segment_in_order copy horder
  rw [hhandle]
  have hsize : data.payloadSize < 2 ^ 64 := lt_of_le_of_lt horder.2.1 (sub64_lt ..)
  by_cases hpayload : 0 < data.payloadSize
  · rw [if_pos hpayload]
    exact ((h.accept data).queue (hempty hpayload) hcopy hsize).send sent
  · have hnone : data.bytes = [] := by
      rw [Segment.bytes, Nat.eq_zero_of_not_pos hpayload]
      rfl
    rw [if_neg hpayload, hnone, List.append_nil]
    exact (h.accept data).send sent

/-! ## The running call -/

/-- The first bytes of what is left of a buffer. -/
theorem copied_append_rest (data : Segment) (offset count : Nat)
    (h : offset + count ≤ data.payloadSize) :
    ((List.range count).map fun i => data.payload (offset + i)) ++ data.bytes.drop (offset + count) =
      data.bytes.drop offset := by
  have hfirst : ((List.range count).map fun i => data.payload (offset + i)) =
      (data.bytes.drop offset).take count := by
    refine List.ext_getElem ?_ ?_
    · simp only [Segment.bytes, List.length_map, List.length_range, List.length_take,
        List.length_drop]
      omega
    · intro i hleft hright
      simp [Segment.bytes]
  rw [hfirst, ← List.drop_drop, List.take_append_drop]

theorem send_packet_if (socket : TcpSocket) (condition : Prop) [Decidable condition]
    (flags : UInt8) :
    (if condition then socket.sendPacket flags else socket) =
      { socket with
        sent := if condition then (socket.sendPacket flags).sent else socket.sent } := by
  split
  · rfl
  · rfl

/-- What the protected region does when the offset is within the first buffer: it copies `count`
bytes, and drops the buffer when nothing is left of it. -/
theorem recv_region_cases {dataSize count : Nat} {received : List UInt8}
    (hne : socket.recvSkb ≠ 0) (hlength : received.length ≤ dataSize) (hdata : dataSize < 2 ^ 64)
    (hoffset : socket.recvSkbPayloadOffset ≤ (socket.buffers socket.recvSkb).payloadSize)
    (hsize : (socket.buffers socket.recvSkb).payloadSize < 2 ^ 64)
    (hcount : min (dataSize - received.length)
      ((socket.buffers socket.recvSkb).payloadSize - socket.recvSkbPayloadOffset) = count) :
    ∃ after, socket.recvRegion dataSize received =
        some (after, received ++ (List.range count).map fun i =>
          (socket.buffers socket.recvSkb).payload (socket.recvSkbPayloadOffset + i),
          decide (socket.recvSkbPayloadOffset + count = (socket.buffers socket.recvSkb).payloadSize ∧
            (socket.buffers socket.recvSkb).flags &&& (tcpFlagPsh ||| tcpFlagFin) ≠ 0)) ∧
      ((socket.recvSkbPayloadOffset + count = (socket.buffers socket.recvSkb).payloadSize ∧
        ∃ sent, after = { socket with
          recvWindowUsed := sub64 socket.recvWindowUsed count
          recvSkbPayloadOffset := 0
          links := (intrusiveListDelete socket.links socket.recvSkb socket.recvSkb).1
          recvSkb := (intrusiveListDelete socket.links socket.recvSkb socket.recvSkb).2
          allocated := socket.allocated.erase socket.recvSkb
          sent := sent }) ∨
      (socket.recvSkbPayloadOffset + count < (socket.buffers socket.recvSkb).payloadSize ∧
        ∃ sent, after = { socket with
          recvWindowUsed := sub64 socket.recvWindowUsed count
          recvSkbPayloadOffset := socket.recvSkbPayloadOffset + count
          sent := sent })) := by
  generalize hbuf : socket.buffers socket.recvSkb = buf at *
  have hleft : sub64 dataSize received.length = dataSize - received.length :=
    sub64_of_le hlength hdata
  have hrest : sub64 buf.payloadSize socket.recvSkbPayloadOffset =
      buf.payloadSize - socket.recvSkbPayloadOffset := sub64_of_le hoffset hsize
  have hadd : u64 (socket.recvSkbPayloadOffset + count) = socket.recvSkbPayloadOffset + count :=
    u64_of_lt (by omega)
  simp only [TcpSocket.recvRegion, if_neg hne, hbuf, hleft, hrest, hcount, hadd, send_packet_if]
  by_cases husedUp : socket.recvSkbPayloadOffset + count = buf.payloadSize
  · simp only [if_pos husedUp]
    exact ⟨_, rfl, Or.inl ⟨husedUp, _, rfl⟩⟩
  · simp only [if_neg husedUp]
    exact ⟨_, rfl, Or.inr ⟨by omega, _, rfl⟩⟩

/-- The protected region copies the next unread bytes, and leaves the rest of them unread. -/
theorem InStep.region {dataSize : Nat} {received : List UInt8}
    (h : InStep stream) (hreader : stream.socket.reader = .ready dataSize received) :
    ∃ after copied push,
      stream.socket.recvRegion dataSize received = some (after, received ++ copied, push) ∧
      copied ++ after.unread = stream.socket.unread ∧
      (received ++ copied).length ≤ dataSize ∧
      (after.recvSkb = 0 → after.recvSkbPayloadOffset = 0) ∧
      (after.recvSkb ≠ 0 → Ring after.links [after.recvSkb] ∧
        after.recvSkbPayloadOffset ≤ (after.buffers after.recvSkb).payloadSize ∧
        (after.buffers after.recvSkb).payloadSize < 2 ^ 64) := by
  have hne := h.ready dataSize received hreader
  obtain ⟨hring, hoffset, hsize⟩ := h.single hne
  have hbounded := h.bounded
  rw [hreader] at hbounded
  obtain ⟨hlength, hdata⟩ := hbounded
  generalize stream.socket = socket at *
  obtain ⟨after, hregion, hafter⟩ := recv_region_cases hne hlength hdata hoffset hsize rfl
  have hunread : socket.unread =
      (socket.buffers socket.recvSkb).bytes.drop socket.recvSkbPayloadOffset := by
    rw [TcpSocket.unread, if_neg hne]
  refine ⟨after, _, _, hregion, ?_⟩
  generalize hcount : min (dataSize - received.length)
    ((socket.buffers socket.recvSkb).payloadSize - socket.recvSkbPayloadOffset) = count at hafter ⊢
  have hcopy := copied_append_rest (socket.buffers socket.recvSkb) socket.recvSkbPayloadOffset count
    (by omega)
  have htotal : (received ++ (List.range count).map fun i =>
      (socket.buffers socket.recvSkb).payload (socket.recvSkbPayloadOffset + i)).length ≤
        dataSize := by
    simp only [List.length_append, List.length_map, List.length_range]
    omega
  rcases hafter with ⟨husedUp, sent, rfl⟩ | ⟨hleft, sent, rfl⟩
  · -- nothing is left of the buffer, and the list becomes empty
    have hempty : (intrusiveListDelete socket.links socket.recvSkb socket.recvSkb).2 = 0 := by
      unfold intrusiveListDelete
      rw [if_pos rfl, if_pos hring.link_self.1.symm]
      rfl
    refine ⟨?_, htotal, fun _ => rfl, fun hother => absurd hempty hother⟩
    have hnone : (socket.buffers socket.recvSkb).bytes.drop
        (socket.buffers socket.recvSkb).payloadSize = [] := by
      simp [Segment.bytes]
    rw [hunread, ← hcopy, husedUp, hnone]
    exact congrArg (_ ++ ·) (if_pos hempty)
  · refine ⟨?_, htotal, fun hnull => absurd hnull hne, fun _ =>
      ⟨hring, Nat.le_of_lt hleft, hsize⟩⟩
    rw [hunread, ← hcopy]
    simp only [TcpSocket.unread, if_neg hne]

/-- What the protected region moves from the list to the call. -/
theorem InStep.region_moved {dataSize : Nat} {received copied : List UInt8}
    {after : TcpSocket} {push : Bool} (h : InStep stream)
    (hreader : stream.socket.reader = .ready dataSize received)
    (hregion : stream.socket.recvRegion dataSize received = some (after, copied, push)) :
    stream.delivered = stream.returned.flatten ++ copied ++ after.unread ∧
      copied.length ≤ dataSize ∧ (after.recvSkb = 0 → after.recvSkbPayloadOffset = 0) ∧
      (after.recvSkb ≠ 0 → Ring after.links [after.recvSkb] ∧
        after.recvSkbPayloadOffset ≤ (after.buffers after.recvSkb).payloadSize ∧
        (after.buffers after.recvSkb).payloadSize < 2 ^ 64) := by
  obtain ⟨_, _, _, hresult, hunread, hlength, hempty, hsingle⟩ := h.region hreader
  cases hresult.symm.trans hregion
  refine ⟨?_, hlength, hempty, hsingle⟩
  have hbytes := h.bytes
  rw [hreader] at hbytes
  rw [hbytes, ← hunread]
  simp [Reader.received]

/-- Every step of the running call keeps the stream in step. -/
theorem InStep.advance {stream next : Stream} (h : InStep stream)
    (hstep : stream.advance = some next) : InStep next := by
  have hbytes := h.bytes
  have hbounded := h.bounded
  cases Stream.advances hstep with
  | finish hreader =>
    rw [hreader] at hbytes
    refine ⟨?_, h.empty, h.single, trivial, fun _ _ hready => by cases hready⟩
    rw [hbytes]
    simp [Reader.received, TcpSocket.unread]
  | sawEmpty hreader | waits hreader =>
    rw [hreader] at hbytes hbounded
    exact ⟨hbytes, h.empty, h.single, hbounded, fun _ _ hready => by cases hready⟩
  | sawBuffer hreader hne =>
    rw [hreader] at hbytes hbounded
    exact ⟨hbytes, h.empty, h.single, hbounded, fun _ _ _ => hne⟩
  | pushed hreader hregion =>
    obtain ⟨hmoved, _, hempty, hsingle⟩ := h.region_moved hreader hregion
    refine ⟨?_, hempty, hsingle, trivial, fun _ _ hready => by cases hready⟩
    rw [hmoved]
    simp [Reader.received, TcpSocket.unread]
  | copied hreader hregion =>
    obtain ⟨hmoved, hlength, hempty, hsingle⟩ := h.region_moved hreader hregion
    rw [hreader] at hbounded
    exact ⟨hmoved, hempty, hsingle, ⟨hlength, hbounded.2⟩, fun _ _ hready => by cases hready⟩

/-! ## Whole runs -/

/-- The event is no data segment that arrives while earlier data is still queued. -/
def ArrivesOnEmpty (stream : Stream) : StreamEvent → Prop
  | .segment _ data => 0 < data.payloadSize → stream.socket.recvSkb = 0
  | _ => True

/-- Every event that does not queue data behind earlier data keeps the stream in step. -/
theorem InStep.step {stream next : Stream} {event : StreamEvent} (h : InStep stream)
    (hcondition : ArrivesOnEmpty stream event) (hstep : stream.step event = some next) :
    InStep next := by
  cases event with
  | segment copy data =>
    simp only [Stream.step, Option.ite_none_right_eq_some, Option.some.injEq] at hstep
    obtain ⟨⟨horder, hcopy, _⟩, rfl⟩ := hstep
    exact h.segment horder hcopy hcondition
  | recv dataSize =>
    simp only [Stream.step, Option.ite_none_right_eq_some, Option.some.injEq] at hstep
    obtain ⟨⟨hidle, _, hdata⟩, rfl⟩ := hstep
    have hbytes := h.bytes
    rw [hidle] at hbytes
    exact ⟨hbytes, h.empty, h.single, ⟨Nat.zero_le _, hdata⟩, fun _ _ hready => by cases hready⟩
  | advance => exact h.advance hstep

/-- In every run in which each data segment arrives while the receive list is empty, the results of
the finished `recv` calls, in order, are a prefix of the payloads in sequence order, and the running
call never uses a null buffer. -/
theorem recv_prefix_of_arrives_on_empty {socket : TcpSocket} (hfresh : socket.Fresh)
    {events : List StreamEvent} {final : Stream}
    (hmeets : Meets Stream.step ArrivesOnEmpty (Stream.initial socket) events)
    (hrun : run Stream.step (Stream.initial socket) events = some final) :
    final.returned.flatten <+: final.delivered ∧
      ∀ dataSize received, final.socket.reader = .ready dataSize received →
        final.socket.recvSkb ≠ 0 := by
  have h : InStep final := run_invariant_of_meets InStep
    (fun _ _ _ h hcondition hstep => h.step hcondition hstep) (in_step_initial hfresh) hmeets hrun
  refine ⟨?_, h.ready⟩
  rw [h.bytes, List.append_assoc]
  exact List.prefix_append _ _

/-- A connection with the initial window of the source and an empty receive list. -/
def freshSocket : TcpSocket :=
  ⟨.established, 0, 0, 29200, 0, 0, 0, 0, ⟨fun _ => 0, fun _ => 0⟩, fun _ => ⟨0, 0, 0, fun _ => 0, 0⟩,
    [], .idle, 0, []⟩

/-- A data segment whose payload is the given letters. -/
def dataSegment (seq : UInt32) (letters : List UInt8) : Segment :=
  ⟨seq, tcpFlagAck, 1000, fun i => letters.getD i 0, letters.length⟩

/-- The last segment of the peer, with this payload. -/
def finSegment (seq : UInt32) (letters : List UInt8) : Segment :=
  { dataSegment seq letters with flags := tcpFlagAck ||| tcpFlagFin }

theorem fresh_socket : freshSocket.Fresh :=
  ⟨rfl, rfl, rfl, rfl⟩

/-- One segment of two bytes, read in two calls. -/
theorem recv_prefix_of_one_segment : ∃ final,
    run Stream.step (Stream.initial freshSocket)
      [.segment 16 (dataSegment 0 [97, 98]), .recv 1, .advance, .advance, .advance, .recv 5,
        .advance] = some final ∧
    final.returned.flatten <+: final.delivered := by
  refine exists_of_isSome (by decide +kernel) ?_
  intro final hrun
  refine (recv_prefix_of_arrives_on_empty fresh_socket ?_ hrun).1
  -- only the first event is a segment, and it finds the list empty
  refine ⟨fun _ => rfl, fun _ _ => ?_⟩
  simp [Meets, ArrivesOnEmpty]

/-- Two segments that arrive before a call come back in the wrong order. -/
theorem recv_reverses_two_segments : freshSocket.Fresh ∧ ∃ final,
    run Stream.step (Stream.initial freshSocket)
      [.segment 16 (dataSegment 0 [97]), .segment 32 (dataSegment 1 [98]), .recv 2, .advance,
        .advance, .advance, .advance, .advance] = some final ∧
    ¬ final.returned.flatten <+: final.delivered := by
  refine ⟨fresh_socket, exists_of_any (fun final => final.delivered = [97, 98] ∧
    final.returned = [[98, 97]]) (by decide +kernel) ?_⟩
  rintro final hrun ⟨hdelivered, hreturned⟩
  rw [hdelivered, hreturned]
  decide

end Otrix.Net
