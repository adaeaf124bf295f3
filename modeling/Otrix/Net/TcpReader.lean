import Otrix.Net.TcpConnection

/-!
# The reader and the receive wait queue

`recv` tests `recv_skb_` and calls `recv_waitq_.wait()` if there is no buffer. The test is not part
of a protected region: a segment that arrives after the test and before the reader is enqueued
notifies nobody, and the reader then waits although there is data. Only the next segment wakes it.

A reader that was notified always finds a buffer, because no one else takes buffers from the list.
-/

namespace Otrix.Net

open Machine

namespace TcpSocket

/-- The reader is enqueued in `recv_waitq_` although the receive list is not empty. A notified reader
has left the queue. -/
def Stalled (socket : TcpSocket) : Prop :=
  match socket.reader with
  | .waiting _ _ => socket.recvSkb ≠ 0
  | _ => False

instance (socket : TcpSocket) : Decidable socket.Stalled := by
  unfold Stalled
  generalize socket.reader = reader
  cases reader <;> infer_instance

/-- The reader is about to use the first buffer of an empty list. -/
def ReadsNull (socket : TcpSocket) : Prop :=
  match socket.reader with
  | .ready _ _ => socket.recvSkb = 0
  | _ => False

instance (socket : TcpSocket) : Decidable socket.ReadsNull := by
  unfold ReadsNull
  generalize socket.reader = reader
  cases reader <;> infer_instance

end TcpSocket

/-- The reader is enqueued only while the list is empty. -/
def WaitsOnEmpty (stream : Stream) : ConnectionEvent → Prop
  | .advance =>
    match stream.socket.reader with
    | .sawEmpty _ _ => stream.socket.recvSkb = 0
    | _ => True
  | _ => True

/-- A condition on a reader that has found the list empty can be evaluated. -/
def Reader.decidableSawEmpty (condition : Prop) [Decidable condition] : (reader : Reader) →
    Decidable (match reader with | .sawEmpty _ _ => condition | _ => True)
  | .sawEmpty _ _ => inferInstanceAs (Decidable condition)
  | .idle => instDecidableTrue
  | .loop _ _ => instDecidableTrue
  | .waiting _ _ => instDecidableTrue
  | .ready _ _ => instDecidableTrue

instance (stream : Stream) : (event : ConnectionEvent) → Decidable (WaitsOnEmpty stream event)
  | .advance => Reader.decidableSawEmpty (stream.socket.recvSkb = 0) stream.socket.reader
  | .packet _ _ => instDecidableTrue
  | .recv _ => instDecidableTrue

/-- No segment is queued between the test of `recv_skb_` and the wait. -/
def NoneInBetween (stream : Stream) : ConnectionEvent → Prop
  | .packet _ data =>
    match stream.socket.reader with
    | .sawEmpty _ _ => ¬ (stream.socket.Handles data ∧ stream.socket.Queues data)
    | _ => True
  | _ => True

instance (stream : Stream) : (event : ConnectionEvent) → Decidable (NoneInBetween stream event)
  | .packet _ data => Reader.decidableSawEmpty
      (¬ (stream.socket.Handles data ∧ stream.socket.Queues data)) stream.socket.reader
  | .recv _ => instDecidableTrue
  | .advance => instDecidableTrue

/-! ## What an event does to the reader -/

/-- The reader after `recv_waitq_.notify_one()`. -/
def Reader.notified : Reader → Reader
  | .waiting dataSize received => .ready dataSize received
  | reader => reader

theorem notify_reader_notified (socket : TcpSocket) :
    socket.notifyReader = { socket with reader := socket.reader.notified } := by
  unfold TcpSocket.notifyReader Reader.notified
  cases socket with
  | mk state seq ack size used skb offset remote links buffers allocated reader notified sent =>
    cases reader <;> rfl

theorem queue_segment_reader (socket : TcpSocket) (copy : Nat) (data : Segment) :
    (socket.queueSegment copy data).reader = socket.reader.notified := by
  unfold TcpSocket.queueSegment
  simp only [notify_reader_notified]

theorem handle_segment_reader {socket : TcpSocket} {data : Segment} (copy : Nat)
    (h : socket.Queues data) :
    (socket.handleSegment copy data).reader = socket.reader.notified := by
  obtain ⟨hseq, hwindow, hsome⟩ := h
  have htaken : ¬ (socket.TreatsAsOld data ∨
      sub64 socket.recvWindowSize socket.recvWindowUsed < data.payloadSize) :=
    not_or.mpr ⟨hseq, Nat.not_lt.mpr hwindow⟩
  rw [TcpSocket.handle_segment_eq, if_neg htaken, TcpSocket.answer_segment_eq]
  show (socket.takeSegment copy data).reader = _
  rw [TcpSocket.takeSegment, if_pos hsome, queue_segment_reader]
  rfl

/-- What an event does to the reader and to the head of the receive list. -/
inductive ReaderStep (before after : TcpSocket) : ConnectionEvent → Prop
  | queued {copy : Nat} {data : Segment} (hqueues : before.Handles data ∧ before.Queues data)
      (hhead : after.recvSkb ≠ 0) (hreader : after.reader = before.reader.notified) :
      ReaderStep before after (.packet copy data)
  | kept {copy : Nat} {data : Segment} (hnot : ¬ (before.Handles data ∧ before.Queues data))
      (hhead : after.recvSkb = before.recvSkb) (hreader : after.reader = before.reader) :
      ReaderStep before after (.packet copy data)
  | called {dataSize : Nat} (hafter : after.reader = .loop dataSize []) :
      ReaderStep before after (.recv dataSize)
  | returned {dataSize : Nat} {received : List UInt8}
      (hbefore : before.reader = .loop dataSize received ∨ before.reader = .ready dataSize received)
      (hafter : after.reader = .idle) : ReaderStep before after .advance
  | looped {dataSize : Nat} {received copied : List UInt8}
      (hbefore : before.reader = .ready dataSize received)
      (hafter : after.reader = .loop dataSize copied) : ReaderStep before after .advance
  | sawEmpty {dataSize : Nat} {received : List UInt8}
      (hbefore : before.reader = .loop dataSize received) (hempty : after.recvSkb = 0)
      (hafter : after.reader = .sawEmpty dataSize received) : ReaderStep before after .advance
  | sawBuffer {dataSize : Nat} {received : List UInt8}
      (hbefore : before.reader = .loop dataSize received) (hhead : after.recvSkb ≠ 0)
      (hafter : after.reader = .ready dataSize received) : ReaderStep before after .advance
  | waits {dataSize : Nat} {received : List UInt8}
      (hbefore : before.reader = .sawEmpty dataSize received)
      (hhead : after.recvSkb = before.recvSkb)
      (hafter : after.reader = .waiting dataSize received) : ReaderStep before after .advance

theorem advance_reader_step {stream next : Stream} (hstep : stream.advance = some next) :
    ReaderStep stream.socket next.socket .advance := by
  cases Stream.advances hstep with
  | finish hreader => exact .returned (Or.inl hreader) rfl
  | sawEmpty hreader hempty => exact .sawEmpty hreader hempty rfl
  | sawBuffer hreader hhead => exact .sawBuffer hreader hhead rfl
  | waits hreader => exact .waits hreader rfl rfl
  | pushed hreader => exact .returned (Or.inr hreader) rfl
  | copied hreader => exact .looped hreader rfl

theorem serve_reader_step {stream next : Stream} {event : ConnectionEvent}
    (hused : stream.socket.recvWindowUsed < 2 ^ 64) (hstep : stream.serve event = some next) :
    ReaderStep stream.socket next.socket event := by
  cases event with
  | packet copy data =>
    simp only [Stream.serve, Option.ite_none_right_eq_some, Option.some.injEq] at hstep
    obtain ⟨⟨hcopy, _, _⟩, rfl⟩ := hstep
    by_cases hhandles : stream.socket.Handles data
    · by_cases hqueues : stream.socket.Queues data
      · obtain ⟨_, _, hhandle, _⟩ := handle_segment_of_queues copy hqueues
        refine .queued ⟨hhandles, hqueues⟩ ?_ ?_
        · show (stream.socket.processPacket copy data).recvSkb ≠ 0
          rw [process_packet_of_handles copy hhandles, hhandle]
          exact hcopy
        · show (stream.socket.processPacket copy data).reader = _
          rw [process_packet_of_handles copy hhandles, handle_segment_reader copy hqueues]
      · have hsame := handle_segment_of_not_queues copy hused hqueues
        rw [← process_packet_of_handles copy hhandles] at hsame
        exact .kept (fun h => hqueues h.2) hsame.head hsame.reader
    · have hsame := process_packet_of_not_handles copy hhandles
      exact .kept (fun h => hhandles h.1) hsame.head hsame.reader
  | recv dataSize =>
    simp only [Stream.serve, Stream.step, Option.ite_none_right_eq_some, Option.some.injEq]
      at hstep
    exact .called (hstep.2 ▸ rfl)
  | advance => exact advance_reader_step hstep

/-! ## What holds in every state -/

namespace ReaderStep

variable {before after : TcpSocket} {stream : Stream} {event : ConnectionEvent}

theorem not_reads_null (hmove : ReaderStep before after event) (h : ¬ before.ReadsNull) :
    ¬ after.ReadsNull := by
  unfold TcpSocket.ReadsNull at h ⊢
  cases hmove with
  | queued hqueues hhead hreader =>
    split
    · exact hhead
    · exact id
  | kept hnot hhead hreader =>
    rw [hhead, hreader]
    exact h
  | sawBuffer hbefore hhead hafter =>
    rw [hafter]
    exact hhead
  | called hafter => simp [hafter]
  | returned hbefore hafter => simp [hafter]
  | looped hbefore hafter => simp [hafter]
  | sawEmpty hbefore hempty hafter => simp [hafter]
  | waits hbefore hhead hafter => simp [hafter]

theorem notified_ne_waiting (reader : Reader) (dataSize : Nat) (received : List UInt8) :
    reader.notified ≠ .waiting dataSize received := by
  cases reader <;> simp [Reader.notified]

/-- A reader that is enqueued only while the list is empty does not stall. -/
theorem not_stalled (hmove : ReaderStep stream.socket after event)
    (h : ¬ stream.socket.Stalled) (hwaits : WaitsOnEmpty stream event) : ¬ after.Stalled := by
  unfold TcpSocket.Stalled at h ⊢
  cases hmove with
  | queued hqueues hhead hreader =>
    split
    next dataSize received hwaiting =>
      exact absurd hwaiting (hreader ▸ notified_ne_waiting stream.socket.reader dataSize received)
    · exact id
  | kept hnot hhead hreader =>
    rw [hhead, hreader]
    exact h
  | waits hbefore hhead hafter =>
    simp only [WaitsOnEmpty, hbefore] at hwaits
    rw [hafter, hhead]
    exact fun hne => hne hwaits
  | called hafter => simp [hafter]
  | returned hbefore hafter => simp [hafter]
  | looped hbefore hafter => simp [hafter]
  | sawEmpty hbefore hempty hafter => simp [hafter]
  | sawBuffer hbefore hhead hafter => simp [hafter]

/-- A reader that is enqueued while the list is not empty stalls. -/
theorem stalled (hmove : ReaderStep stream.socket after event)
    (hwaits : ¬ WaitsOnEmpty stream event) : after.Stalled := by
  unfold TcpSocket.Stalled
  cases hmove with
  | waits hbefore hhead hafter =>
    simp only [WaitsOnEmpty, hbefore] at hwaits
    rw [hafter, hhead]
    exact hwaits
  | returned hbefore hafter =>
    rcases hbefore with hbefore | hbefore
    · simp [WaitsOnEmpty, hbefore] at hwaits
    · simp [WaitsOnEmpty, hbefore] at hwaits
  | looped hbefore hafter => simp [WaitsOnEmpty, hbefore] at hwaits
  | sawEmpty hbefore hempty hafter => simp [WaitsOnEmpty, hbefore] at hwaits
  | sawBuffer hbefore hhead hafter => simp [WaitsOnEmpty, hbefore] at hwaits
  | queued hqueues hhead hreader => exact absurd trivial hwaits
  | kept hnot hhead hreader => exact absurd trivial hwaits
  | called hafter => exact absurd trivial hwaits

/-- While nothing is queued after the test, what the reader saw stays true. -/
theorem saw_empty (hmove : ReaderStep stream.socket after event)
    (h : ∀ dataSize received, stream.socket.reader = .sawEmpty dataSize received →
      stream.socket.recvSkb = 0)
    (hnone : NoneInBetween stream event) (dataSize : Nat) (received : List UInt8)
    (hsaw : after.reader = .sawEmpty dataSize received) : after.recvSkb = 0 := by
  cases hmove with
  | queued hqueues hhead hreader =>
    have hbefore : stream.socket.reader = .sawEmpty dataSize received := by
      rw [hreader] at hsaw
      unfold Reader.notified at hsaw
      split at hsaw
      · cases hsaw
      · exact hsaw
    simp only [NoneInBetween, hbefore] at hnone
    exact absurd hqueues hnone
  | kept hnot hhead hreader => exact hhead.trans (h dataSize received (hreader ▸ hsaw))
  | sawEmpty hbefore hempty hafter => exact hempty
  | called hafter => cases hafter.symm.trans hsaw
  | returned hbefore hafter => cases hafter.symm.trans hsaw
  | looped hbefore hafter => cases hafter.symm.trans hsaw
  | sawBuffer hbefore hhead hafter => cases hafter.symm.trans hsaw
  | waits hbefore hhead hafter => cases hafter.symm.trans hsaw

end ReaderStep

/-- What holds in every state of a run in which no reader stalls. -/
structure ReaderSound (stream : Stream) : Prop where
  used : stream.socket.recvWindowUsed < 2 ^ 64
  buffer : ¬ stream.socket.ReadsNull
  awake : ¬ stream.socket.Stalled

/-- A segment that is queued after the test, and the wait that follows. -/
theorem packet_in_between_stalls {stream : Stream} {copy : Nat} {data : Segment} {dataSize : Nat}
    {received : List UInt8} (hused : stream.socket.recvWindowUsed < 2 ^ 64)
    (hsaw : stream.socket.reader = .sawEmpty dataSize received)
    (hqueues : stream.socket.Handles data ∧ stream.socket.Queues data) {final : Stream}
    (hrun : run Stream.serve stream [.packet copy data, .advance] = some final) :
    final.socket.Stalled := by
  obtain ⟨middle, hpacket, hrest⟩ := run_cons_eq_some.mp hrun
  obtain ⟨last, hwait, hlast⟩ := run_cons_eq_some.mp hrest
  cases hlast
  have hmiddle : middle.socket.reader = .sawEmpty dataSize received ∧ middle.socket.recvSkb ≠ 0 := by
    cases serve_reader_step hused hpacket with
    | queued _ hhead hreader => exact ⟨by rw [hreader, hsaw]; rfl, hhead⟩
    | kept hnot _ _ => exact absurd hqueues hnot
  have hunmet : ¬ WaitsOnEmpty middle .advance := by
    simp only [WaitsOnEmpty, hmiddle.1]
    exact hmiddle.2
  exact (serve_reader_step (serve_used_lt hused hpacket) hwait).stalled hunmet

/-- In every run of a connection that no one reads at first, `recv` never uses the first buffer of an
empty list. The reader is never enqueued while there is data exactly when it is enqueued only while
the list is empty, and that is so in a run in which no segment is queued between the test and the
wait. Every segment that is queued there stalls the reader. -/
theorem reader_awake_iff {socket : TcpSocket} (hused : socket.recvWindowUsed < 2 ^ 64)
    (hidle : socket.reader = .idle) {events : List ConnectionEvent} {final : Stream}
    (hrun : run Stream.serve (Stream.initial socket) events = some final) :
    ¬ final.socket.ReadsNull ∧
    (Always Stream.serve (fun stream => ¬ stream.socket.Stalled) (Stream.initial socket)
        events ↔
      Meets Stream.serve WaitsOnEmpty (Stream.initial socket) events) ∧
    (Meets Stream.serve NoneInBetween (Stream.initial socket) events →
      Meets Stream.serve WaitsOnEmpty (Stream.initial socket) events) ∧
    ∀ (copy : Nat) (data : Segment) (dataSize : Nat) (received : List UInt8) (last : Stream),
      final.socket.reader = .sawEmpty dataSize received →
      final.socket.Handles data ∧ final.socket.Queues data →
      run Stream.serve final [.packet copy data, .advance] = some last →
      last.socket.Stalled := by
  have hfinal : final.socket.recvWindowUsed < 2 ^ 64 ∧ ¬ final.socket.ReadsNull := by
    refine run_invariant
      (fun stream : Stream => stream.socket.recvWindowUsed < 2 ^ 64 ∧ ¬ stream.socket.ReadsNull)
      (fun stream event next h hstep => ⟨serve_used_lt h.1 hstep,
        (serve_reader_step h.1 hstep).not_reads_null h.2⟩) ⟨hused, ?_⟩ hrun
    simp [Stream.initial, TcpSocket.ReadsNull, hidle]
  have hstart : ReaderSound (Stream.initial socket) := by
    refine ⟨hused, ?_, ?_⟩
    · simp [Stream.initial, TcpSocket.ReadsNull, hidle]
    · simp [Stream.initial, TcpSocket.Stalled, hidle]
  refine ⟨hfinal.2, ?_, ?_, ?_⟩
  · refine always_iff_meets ReaderSound (fun _ h => h.awake) ?_ ?_ hstart hrun
    · intro stream event next h hwaits hstep
      have hmove := serve_reader_step h.used hstep
      exact ⟨serve_used_lt h.used hstep, hmove.not_reads_null h.buffer,
        hmove.not_stalled h.awake hwaits⟩
    · intro stream event next h hwaits hstep hnot
      exact hnot ((serve_reader_step h.used hstep).stalled hwaits)
  · intro hnone
    refine Meets.imp (fun stream : Stream => stream.socket.recvWindowUsed < 2 ^ 64 ∧
      ∀ dataSize received, stream.socket.reader = .sawEmpty dataSize received →
        stream.socket.recvSkb = 0) ?_ ?_ ⟨hused, ?_⟩ hnone
    · rintro stream (_ | _ | _) ⟨_, hsaw⟩ _
      · trivial
      · trivial
      · unfold WaitsOnEmpty
        cases hreader : stream.socket.reader with
        | sawEmpty dataSize received => exact hsaw dataSize received hreader
        | _ => trivial
    · rintro stream event next ⟨hless, hsaw⟩ hbetween hstep
      exact ⟨serve_used_lt hless hstep, (serve_reader_step hless hstep).saw_empty hsaw hbetween⟩
    · intro dataSize received hsaw
      cases hidle.symm.trans hsaw
  · intro copy data dataSize received last hsaw hqueues hlast
    exact packet_in_between_stalls hfinal.1 hsaw hqueues hlast

/-- A call finds the list empty and waits, and the segment that arrives then wakes it. -/
theorem reader_awake_segment_after_wait : ∃ final,
    run Stream.serve (Stream.initial freshSocket)
      [.recv 2, .advance, .advance, .packet 16 (dataSegment 0 [97, 98]), .advance] = some final ∧
    ¬ final.socket.ReadsNull ∧
    Always Stream.serve (fun stream => ¬ stream.socket.Stalled) (Stream.initial freshSocket)
      [.recv 2, .advance, .advance, .packet 16 (dataSegment 0 [97, 98]), .advance] := by
  refine exists_of_isSome (by decide +kernel) ?_
  intro final hrun
  have h := @reader_awake_iff freshSocket (by decide) rfl _ _ hrun
  exact ⟨h.1, h.2.1.mpr (h.2.2.1 (by decide +kernel))⟩

/-- The same segment, one step earlier: it arrives after the test and before the wait, and the reader
is enqueued next to two bytes that it asked for. -/
theorem segment_before_wait_stalls : ∃ final,
    run Stream.serve (Stream.initial freshSocket)
      [.recv 2, .advance, .packet 16 (dataSegment 0 [97, 98]), .advance] = some final ∧
    final.socket.reader = .waiting 2 [] ∧ final.socket.recvSkb = 16 ∧ final.socket.Stalled ∧
    final.advance.isNone := by
  exact exists_of_any _ (by decide +kernel) fun _ _ htest => htest

end Otrix.Net
