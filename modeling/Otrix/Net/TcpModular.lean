import Otrix.Net.TcpConnection

/-!
# Sequence numbers across the wrap

`handle_segment` compares sequence numbers as 32-bit numbers. Two runs whose `ack_` and
segment are both shifted by a constant should differ by the constant and nothing
else. `handle_segment_modular_iff` says when they do: the shift must carry both
numbers past `2 ^ 32` or neither of them. It also says which segments from just
before `ack_` are kept out of the receive list, and which are taken as new data.
-/

namespace Otrix.Net

/-! ## Numbers -/

/-- A shift keeps the order of two numbers exactly when both of them wrap around or neither. -/
theorem add_lt_add_iff (first second c : UInt32) :
    (first + c < second + c ↔ first < second) ↔
      (first.toNat + c.toNat < 2 ^ 32 ↔ second.toNat + c.toNat < 2 ^ 32) := by
  have hfirst := first.toNat_lt
  have hsecond := second.toNat_lt
  have hc := c.toNat_lt
  rw [UInt32.lt_iff_toNat_lt, UInt32.lt_iff_toNat_lt, UInt32.toNat_add, UInt32.toNat_add]
  omega

/-- A number that is behind another modulo `2 ^ 32` is below it unless the distance is more than the
other number. -/
theorem lt_iff_sub_le {seq ack : UInt32} (hbehind : 0 < (ack - seq).toNat) :
    seq < ack ↔ (ack - seq).toNat ≤ ack.toNat := by
  have hseq := seq.toNat_lt
  have hack := ack.toNat_lt
  rw [UInt32.toNat_sub] at hbehind ⊢
  rw [UInt32.lt_iff_toNat_lt]
  omega

/-- The segment with its sequence number moved by a constant. -/
def Segment.shifted (data : Segment) (c : UInt32) : Segment :=
  { data with seq := data.seq + c }

namespace TcpSocket

/-! ## What is allocated -/

section Allocated

variable (socket : TcpSocket) (copy : Nat) (data : Segment)

/-- The `sockbuf` that `handle_segment` allocates, if it queues the segment. -/
theorem allocated_handle_segment :
    (socket.handleSegment copy data).allocated =
      if socket.Queues data then copy :: socket.allocated else socket.allocated := by
  have hanswer : ∀ taken : TcpSocket, (taken.answerSegment data).allocated = taken.allocated := by
    intro taken
    unfold answerSegment
    split
    · rfl
    · rfl
  rw [handle_segment_eq]
  by_cases hdropped : socket.TreatsAsOld data ∨
      sub64 socket.recvWindowSize socket.recvWindowUsed < data.payloadSize
  · rw [if_pos hdropped, if_neg fun h => hdropped.elim h.1 (Nat.not_lt.mpr h.2.1)]
    rfl
  · obtain ⟨hseq, hwindow⟩ := not_or.mp hdropped
    rw [if_neg hdropped, hanswer, takeSegment]
    by_cases hsome : 0 < data.payloadSize ∨ isFin data
    · obtain ⟨_, hqueue, _⟩ := queue_segment_eq (socket.acceptSegment data) copy data
      rw [if_pos hsome, if_pos ⟨hseq, Nat.not_lt.mp hwindow, hsome⟩, hqueue]
      rfl
    · rw [if_neg hsome, if_neg fun h => hsome h.2.2]
      rfl

end Allocated

/-! ## Two runs -/

/-- The socket with `ack_` moved by a constant, and other contents of its buffers. -/
def shifted (socket : TcpSocket) (c : UInt32) (buffers : Nat → Segment) : TcpSocket :=
  { socket with ack := socket.ack + c, buffers := buffers }

/-- The buffers differ in nothing but the sequence numbers of their headers. -/
def SameContents (first second : Nat → Segment) : Prop :=
  ∀ node, { second node with seq := (first node).seq } = first node

/-- The two states differ by a constant in `ack_`, and by what goes with that: the sequence numbers
in the headers of the buffers, and the acknowledgement in the packet that was sent, if one was. -/
def DifferBy (c : UInt32) (first second : TcpSocket) : Prop :=
  ∃ buffers sent, second = { first.shifted c buffers with sent := sent } ∧
    SameContents first.buffers buffers ∧
    (sent = first.sent ∨ ∃ packet before, first.sent = packet :: before ∧
      sent = { packet with ack := packet.ack + c } :: before)

section Shift

variable {socket : TcpSocket} {c : UInt32} {buffers : Nat → Segment} (copy : Nat) (data : Segment)

theorem accept_segment_shifted :
    (socket.shifted c buffers).acceptSegment (data.shifted c) =
      (socket.acceptSegment data).shifted c buffers := by
  have hack : socket.ack + c + UInt32.ofNat data.payloadSize =
      socket.ack + UInt32.ofNat data.payloadSize + c := by
    rw [UInt32.add_assoc, UInt32.add_comm c, UInt32.add_assoc]
  unfold acceptSegment shifted Segment.shifted
  dsimp only
  rw [hack]
  rfl

theorem notify_reader_shifted :
    (socket.shifted c buffers).notifyReader = socket.notifyReader.shifted c buffers := by
  unfold notifyReader
  cases hreader : socket.reader with
  | waiting dataSize received => simp only [shifted, hreader]
  | _ => simp only [shifted, hreader]

theorem queue_segment_shifted :
    (socket.shifted c buffers).queueSegment copy (data.shifted c) =
      (socket.queueSegment copy data).shifted c
        (Function.update buffers copy (data.shifted c)) := by
  have hlinks : (socket.shifted c buffers).links = socket.links := rfl
  have hhead : (socket.shifted c buffers).recvSkb = socket.recvSkb := rfl
  unfold queueSegment
  rcases hpush : intrusiveListPushBack (intrusiveListInit socket.links copy)
    socket.recvSkb copy with ⟨links, head⟩
  simp only [hlinks, hhead, hpush]
  rw [← notify_reader_shifted]
  rfl

/-- A buffer that gets a segment in the one run and the shifted segment in the other. -/
theorem SameContents.update {first second : Nat → Segment} (h : SameContents first second) :
    SameContents (Function.update first copy data)
      (Function.update second copy (data.shifted c)) := by
  intro node
  by_cases hnode : node = copy
  · subst hnode
    rw [Function.update_self, Function.update_self]
    rfl
  · rw [Function.update_of_ne hnode, Function.update_of_ne hnode]
    exact h node

theorem take_segment_shifted (hbuffers : SameContents socket.buffers buffers) :
    ∃ taken, (socket.shifted c buffers).takeSegment copy (data.shifted c) =
        (socket.takeSegment copy data).shifted c taken ∧
      SameContents (socket.takeSegment copy data).buffers taken := by
  unfold takeSegment
  by_cases hsome : 0 < data.payloadSize ∨ isFin data
  · have hsome' : 0 < (data.shifted c).payloadSize ∨ isFin (data.shifted c) := hsome
    obtain ⟨_, hqueue, _⟩ := queue_segment_eq (socket.acceptSegment data) copy data
    rw [if_pos hsome, if_pos hsome', accept_segment_shifted, queue_segment_shifted]
    refine ⟨_, rfl, ?_⟩
    rw [hqueue]
    exact hbuffers.update copy data
  · have hsome' : ¬ (0 < (data.shifted c).payloadSize ∨ isFin (data.shifted c)) := hsome
    rw [if_neg hsome, if_neg hsome', accept_segment_shifted]
    exact ⟨buffers, rfl, hbuffers⟩

theorem DifferBy.send_packet (hbuffers : SameContents socket.buffers buffers) (flags : UInt8) :
    DifferBy c (socket.sendPacket flags) ((socket.shifted c buffers).sendPacket flags) :=
  ⟨buffers, _, rfl, hbuffers, Or.inr ⟨_, _, rfl, rfl⟩⟩

theorem DifferBy.answer_segment (hbuffers : SameContents socket.buffers buffers) :
    DifferBy c (socket.answerSegment data)
      ((socket.shifted c buffers).answerSegment (data.shifted c)) := by
  unfold answerSegment
  by_cases hanswer : data.flags &&& tcpFlagPsh ≠ 0 ∨ socket.recvWindowSize = 0 ∨ isFin data
  · have hanswer' : (data.shifted c).flags &&& tcpFlagPsh ≠ 0 ∨
        (socket.shifted c buffers).recvWindowSize = 0 ∨ isFin (data.shifted c) := hanswer
    rw [if_pos hanswer, if_pos hanswer']
    exact DifferBy.send_packet hbuffers tcpFlagAck
  · have hanswer' : ¬ ((data.shifted c).flags &&& tcpFlagPsh ≠ 0 ∨
        (socket.shifted c buffers).recvWindowSize = 0 ∨ isFin (data.shifted c)) := hanswer
    rw [if_neg hanswer, if_neg hanswer']
    exact ⟨buffers, socket.sent, rfl, hbuffers, Or.inl rfl⟩

/-- When both segments are old or neither is, the two runs differ by the constant. -/
theorem handle_segment_shifted
    (hold : (socket.shifted c socket.buffers).TreatsAsOld (data.shifted c) ↔
      socket.TreatsAsOld data) :
    DifferBy c (socket.handleSegment copy data)
      ((socket.shifted c socket.buffers).handleSegment copy (data.shifted c)) := by
  have hsame : SameContents socket.buffers socket.buffers := fun _ => rfl
  have hdrops : ((socket.shifted c socket.buffers).TreatsAsOld (data.shifted c) ∨
      sub64 (socket.shifted c socket.buffers).recvWindowSize
        (socket.shifted c socket.buffers).recvWindowUsed < (data.shifted c).payloadSize) ↔
      (socket.TreatsAsOld data ∨
        sub64 socket.recvWindowSize socket.recvWindowUsed < data.payloadSize) :=
    or_congr hold Iff.rfl
  rw [handle_segment_eq, handle_segment_eq]
  by_cases hdropped : socket.TreatsAsOld data ∨
      sub64 socket.recvWindowSize socket.recvWindowUsed < data.payloadSize
  · rw [if_pos hdropped, if_pos (hdrops.mpr hdropped)]
    exact DifferBy.send_packet hsame tcpFlagAck
  · obtain ⟨taken, htaken, hcontents⟩ := take_segment_shifted copy data hsame
    rw [if_neg hdropped, if_neg (hdropped ∘ hdrops.mp), htaken]
    exact DifferBy.answer_segment data hcontents

end Shift

/-- Adding a constant to `ack_` and to the sequence number of a segment does not change whether
`handle_segment` treats the segment as old, and the two runs differ by the constant in `ack_`,
exactly when both numbers wrap around or neither does. A segment from at most `2 ^ 31` bytes
before `ack_` is not queued exactly when the numbers between did not wrap around, or the window has
no room for it, or there is nothing in it to queue. -/
theorem handle_segment_modular_iff (socket : TcpSocket) (copy : Nat) (data : Segment) :
    (∀ c : UInt32,
      (({ socket with ack := socket.ack + c }.TreatsAsOld (data.shifted c) ↔
          socket.TreatsAsOld data) ∧
        DifferBy c (socket.handleSegment copy data)
          ({ socket with ack := socket.ack + c }.handleSegment copy
            (data.shifted c))) ↔
        (data.seq.toNat + c.toNat < 2 ^ 32 ↔ socket.ack.toNat + c.toNat < 2 ^ 32)) ∧
    (0 < (socket.ack - data.seq).toNat → (socket.ack - data.seq).toNat ≤ 2 ^ 31 →
      ((socket.handleSegment copy data).allocated = socket.allocated ↔
        (socket.ack - data.seq).toNat ≤ socket.ack.toNat ∨
          sub64 socket.recvWindowSize socket.recvWindowUsed < data.payloadSize ∨
          data.payloadSize = 0 ∧ ¬ isFin data)) := by
  refine ⟨fun c => ?_, fun hbehind _ => ?_⟩
  · rw [← add_lt_add_iff]
    exact ⟨fun h => h.1, fun h => ⟨h, handle_segment_shifted copy data h⟩⟩
  · rw [← lt_iff_sub_le hbehind, allocated_handle_segment]
    by_cases hqueues : socket.Queues data
    · obtain ⟨hseq, hwindow, hsome⟩ := hqueues
      rw [if_pos ⟨hseq, hwindow, hsome⟩]
      refine iff_of_false (List.cons_ne_self _ _) ?_
      rintro (hold | hfull | ⟨hempty, hfin⟩)
      · exact hseq hold
      · exact Nat.not_lt.mpr hwindow hfull
      · exact hsome.elim (fun hpositive => by omega) hfin
    · rw [if_neg hqueues]
      refine iff_of_true rfl ?_
      by_contra hnone
      obtain ⟨hseq, hrest⟩ := not_or.mp hnone
      obtain ⟨hwindow, hempty⟩ := not_or.mp hrest
      refine hqueues ⟨hseq, Nat.not_lt.mp hwindow, ?_⟩
      by_cases hfin : isFin data
      · exact Or.inr hfin
      · exact Or.inl (Nat.pos_of_ne_zero fun hzero => hempty ⟨hzero, hfin⟩)

/-- A segment of three bytes from three bytes before `ack_` is not queued when `ack_` is not near the
wrap. -/
theorem handle_segment_modular_old :
    ({ freshSocket with ack := 1000 }.handleSegment 16 (dataSegment 997 [1, 2, 3])).allocated = [] :=
  ((handle_segment_modular_iff { freshSocket with ack := 1000 } 16 (dataSegment 997 [1, 2, 3])).2
    (by decide) (by decide)).mpr (Or.inl (by decide))

/-- With `ack_` five bytes behind the wrap, a segment of three bytes from eight bytes before it is
not treated as old and is queued. Shifted by ten, the same segment is old. -/
theorem wrapped_segment_is_queued :
    (5 - (0xfffffffd : UInt32)).toNat = 8 ∧
      ¬ { freshSocket with ack := 5 }.TreatsAsOld (dataSegment 0xfffffffd [1, 2, 3]) ∧
      { freshSocket with ack := 5 + 10 }.TreatsAsOld (dataSegment (0xfffffffd + 10) [1, 2, 3]) ∧
      ({ freshSocket with ack := 5 }.handleSegment 16
        (dataSegment 0xfffffffd [1, 2, 3])).allocated = [16] ∧
      ({ freshSocket with ack := 5 }.handleSegment 16
        (dataSegment 0xfffffffd [1, 2, 3])).ack = 8 := by
  decide +kernel

end TcpSocket

end Otrix.Net
