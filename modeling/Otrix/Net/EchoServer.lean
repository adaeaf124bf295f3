import Otrix.Net.TcpReader
import Otrix.Net.TcpSegmentation

/-!
# The server of `net/net_task.cpp`

`tcp_server` accepts a connection and sends back what it receives, at most 256 bytes at a time, until
`recv` returns 0. The connection goes on meanwhile: any packets arrive during `recv` and `send`, which
are the calls of `net/tcp_socket.cpp` in all their steps.

`echo_server_echoes` says that what was sent is what was received, in order, in every interleaving in
which nothing is added to a receive list that is not empty and the lower layers take every segment. A
FIN makes `recv` refuse, which ends the loop. A reset after the FIN makes `send` give up, and the loop
ends with the next `recv`.
-/

namespace Otrix.Net

open Machine Sending

/-- Where the inner loop of `tcp_server` is: before `recv`, in `recv` or behind it, in `send` or behind
it, or at its end. -/
inductive EchoPoint where
  | loop
  | receiving
  | sending
  | closed
  deriving DecidableEq

/-- The server with the connection to its client. -/
structure EchoServer where
  client : Sending
  point : EchoPoint

/-- What can happen: a packet arrives, or the server takes its next step. The lower layers return
`result` when they are given a segment. -/
inductive EchoEvent where
  | packet (copy : Nat) (data : Segment) (ackNumber : UInt32)
  | run (result : Kerror)

namespace EchoServer

/-- `buf`, as far as `recv` has filled it. -/
def buf (server : EchoServer) : List UInt8 :=
  server.client.stream.returned.getLastD []

/-- `recv` returns 0 at once. -/
def refused (client : Sending) : Sending :=
  { client with stream.returned := client.stream.returned ++ [[]] }

/-- One event. The inner loop ends when `recv` returns 0. -/
def step (server : EchoServer) : EchoEvent → Option EchoServer
  | .packet copy data ackNumber => do
    let client ← server.client.step (.packet copy data ackNumber)
    some { server with client := client }
  | .run result =>
    match server.point with
    | .loop =>
      if server.client.stream.socket.state.Receives then do
        let client ← server.client.step (.recv 256)
        some ⟨client, .receiving⟩
      else some ⟨refused server.client, .receiving⟩
    | .receiving =>
      if server.client.stream.socket.reader ≠ .idle then do
        let client ← server.client.step .read
        some { server with client := client }
      else if 0 < server.buf.length then do
        let client ← server.client.step (.send server.buf)
        some ⟨client, .sending⟩
      else some { server with point := .closed }
    | .sending =>
      if server.client.sender ≠ .idle then do
        let client ← server.client.step (.advance result)
        some { server with client := client }
      else some { server with point := .loop }
    | .closed => none

/-- A packet that adds to the receive list finds it empty, and the lower layers take every segment. -/
def Orderly (server : EchoServer) : EchoEvent → Prop
  | .packet _ data _ => server.client.stream.socket.Handles data →
      server.client.stream.socket.Queues data → server.client.stream.socket.recvSkb = 0
  | .run result => result = .ok

instance (server : EchoServer) : ∀ event, Decidable (server.Orderly event)
  | .packet _ data _ => inferInstanceAs (Decidable (server.client.stream.socket.Handles data →
      server.client.stream.socket.Queues data → server.client.stream.socket.recvSkb = 0))
  | .run _ => inferInstanceAs (Decidable (_ = _))

end EchoServer

/-- The bytes that a connection has sent. -/
def Sending.payloads (sending : Sending) : List UInt8 :=
  (sending.transmitted.reverse.map (·.payload)).flatten

namespace EchoServer

/-- These bytes were sent, or the connection was reset and a part of them was. -/
def Echoed (client : Sending) (bytes : List UInt8) : Prop :=
  client.payloads = bytes ∨ client.stream.socket.state = .closed ∧ client.payloads <+: bytes

/-- What was sent, at each point of the loop: all that was read, or all but what is in `buf`. A call
that was refused has read nothing. -/
def AtPoint (client : Sending) : EchoPoint → Prop
  | .loop => client.stream.socket.reader = .idle ∧ client.sender = .idle ∧
      Echoed client client.stream.returned.flatten
  | .receiving => client.sender = .idle ∧
      (client.stream.socket.reader ≠ .idle ∧ client.payloads = client.stream.returned.flatten ∨
        client.stream.socket.reader = .idle ∧ ∃ front buf,
          client.stream.returned = front ++ [buf] ∧
          (client.payloads = front.flatten ∨ buf = [] ∧ Echoed client front.flatten))
  | .sending => client.stream.socket.reader = .idle ∧
      ((∃ before buf, During before buf client ∧ buf.length < 2 ^ 64 ∧
        before.payloads ++ buf = client.stream.returned.flatten) ∨
      client.sender = .idle ∧ Echoed client client.stream.returned.flatten)
  | .closed => Echoed client client.stream.returned.flatten

/-- The invariant. -/
structure Echoes (server : EchoServer) : Prop where
  inStep : InStep server.client.stream
  used : server.client.stream.socket.recvWindowUsed < 2 ^ 64
  point : AtPoint server.client server.point

/-- What a call of `send` has sent is the beginning of its data, and all of it when it has returned. -/
theorem during_payloads {before state : Sending} {data : List UInt8} (h : During before data state) :
    ∃ sent, state.payloads = before.payloads ++ data.take sent ∧
      (state.sender = .idle → sent = data.length) := by
  obtain ⟨segments, htransmitted, hpoint⟩ := h
  obtain ⟨sent, hprogress, hdone⟩ : ∃ sent, Progress before.stream.socket.seq data sent segments ∧
      (state.sender = .idle → sent = data.length) := by
    cases hsender : state.sender with
    | idle => exact ⟨_, (hsender ▸ hpoint).1, fun _ => rfl⟩
    | loop => exact ⟨_, (hsender ▸ hpoint).2.progress, by simp⟩
    | segment | woken | committed => exact ⟨_, (hsender ▸ hpoint).2.2.2.progress, by simp⟩
    | waiting => exact ⟨_, (hsender ▸ hpoint).2.2.2.1.progress, by simp⟩
  exact ⟨sent, by simp [Sending.payloads, htransmitted, hprogress.payloads], hdone⟩

theorem during_prefix {before state : Sending} {data bytes : List UInt8} (h : During before data state)
    (hall : before.payloads ++ data = bytes) : state.payloads <+: bytes := by
  obtain ⟨sent, hpayloads, _⟩ := during_payloads h
  rw [hpayloads, ← hall, List.prefix_append_right_inj]
  exact List.take_prefix _ _

/-- A step of `send` changes `seq_` and the window of the peer, and nothing else of the connection. -/
theorem advance_stream {sending next : Sending} {result : Kerror}
    (hstep : sending.advance result = some next) : ∃ seq window, next.stream =
      { sending.stream with
        socket := { sending.stream.socket with seq := seq, remoteWindowSize := window } } := by
  cases Sending.advance_cases hstep with
  | segment | woken =>
    unfold trySegment
    dsimp only
    split <;> exact ⟨_, _, rfl⟩
  | _ => exact ⟨_, _, rfl⟩

/-! ## Packets -/

section Packets

variable {stream : Stream} {copy : Nat} {data : Segment}

/-- A packet that finds the list empty, or adds nothing, keeps the stream in step. -/
theorem in_step_packet (h : InStep stream) (hused : stream.socket.recvWindowUsed < 2 ^ 64)
    (hcopy : copy ≠ 0)
    (hempty : stream.socket.Handles data → stream.socket.Queues data → stream.socket.recvSkb = 0) :
    InStep { stream with
      socket := stream.socket.processPacket copy data
      delivered := stream.delivered ++ stream.socket.bytesTaken data } := by
  by_cases hqueued : stream.socket.Handles data ∧ stream.socket.Queues data
  · obtain ⟨hhandles, hqueues⟩ := hqueued
    have htaken : ¬ (stream.socket.TreatsAsOld data ∨
        sub64 stream.socket.recvWindowSize stream.socket.recvWindowUsed < data.payloadSize) :=
      not_or.mpr ⟨hqueues.1, Nat.not_lt.mpr hqueues.2.1⟩
    rw [process_packet_of_handles copy hhandles, TcpSocket.handle_segment_eq, if_neg htaken,
      TcpSocket.answer_segment_eq, TcpSocket.takeSegment, if_pos hqueues.2.2, TcpSocket.bytesTaken,
      if_pos ⟨hhandles, hqueues⟩]
    exact ((h.accept data).queue (hempty hhandles hqueues) hcopy
      (Nat.lt_of_le_of_lt hqueues.2.1 (sub64_lt ..))).send _
  · have hsame : Untouched stream.socket (stream.socket.processPacket copy data) := by
      by_cases hhandles : stream.socket.Handles data
      · rw [process_packet_of_handles copy hhandles]
        exact handle_segment_of_not_queues copy hused fun hqueues => hqueued ⟨hhandles, hqueues⟩
      · exact process_packet_of_not_handles copy hhandles
    rw [TcpSocket.bytesTaken, if_neg hqueued, List.append_nil]
    refine ⟨?_, ?_, ?_, ?_, ?_⟩
    · simp only [TcpSocket.unread, hsame.reader, hsame.head, hsame.buffers, hsame.offset]
      exact h.bytes
    · rw [hsame.head, hsame.offset]
      exact h.empty
    · rw [hsame.head, hsame.links, hsame.buffers, hsame.offset]
      exact h.single
    · rw [hsame.reader]
      exact h.bounded
    · rw [hsame.reader, hsame.head]
      exact h.ready

/-- A packet does not start or end a call of `recv`. -/
theorem reader_idle_packet {before after : TcpSocket}
    (hmove : ReaderStep before after (.packet copy data)) :
    after.reader = .idle ↔ before.reader = .idle := by
  cases hmove with
  | queued _ _ hreader =>
    rw [hreader]
    cases before.reader <;> simp [Reader.notified]
  | kept _ _ hreader => rw [hreader]

/-- A connection that was reset stays so. -/
theorem process_packet_closed {socket : TcpSocket} (h : socket.state = .closed) :
    (socket.processPacket copy data).state = .closed := by
  simp only [TcpSocket.processPacket, h]

end Packets

theorem Echoed.keep {client after : Sending} {bytes : List UInt8} (h : Echoed client bytes)
    (hpayloads : after.payloads = client.payloads)
    (hclosed : client.stream.socket.state = .closed → after.stream.socket.state = .closed) :
    Echoed after bytes := by
  rcases h with h | ⟨hstate, h⟩
  · exact Or.inl (hpayloads.trans h)
  · exact Or.inr ⟨hclosed hstate, hpayloads ▸ h⟩

/-- A packet, which may wake the sender, leaves the server where it is. -/
theorem AtPoint.packet {client after : Sending} {copy : Nat} {data : Segment} {ackNumber : UInt32}
    {point : EchoPoint} (h : AtPoint client point)
    (hused : client.stream.socket.recvWindowUsed < 2 ^ 64)
    (hstep : client.step (.packet copy data ackNumber) = some after) : AtPoint after point := by
  have hduring : ∀ {before buf}, During before buf client → buf.length < 2 ^ 64 →
      During before buf after := fun hduring hrange =>
    hduring.step (show Undisturbed _ (.packet copy data ackNumber) from trivial) hrange hstep
  obtain ⟨stream, hserve, hrest⟩ := Option.bind_eq_some_iff.mp hstep
  have hidle := reader_idle_packet (serve_reader_step hused hserve)
  simp only [Option.ite_none_right_eq_some, Option.some.injEq] at hrest
  obtain ⟨_, hafter⟩ := hrest
  obtain ⟨_, hstream⟩ := Option.ite_none_right_eq_some.mp hserve
  have hstream := Option.some.inj hstream
  have hreader : after.stream.socket.reader = .idle ↔ client.stream.socket.reader = .idle :=
    hafter ▸ hidle
  have hreturned : after.stream.returned = client.stream.returned := by
    rw [← hafter, ← hstream]
  have hpayloads : after.payloads = client.payloads := by
    rw [← hafter]
    rfl
  have hechoed : ∀ {bytes}, Echoed client bytes → Echoed after bytes := by
    refine fun hechoed => hechoed.keep hpayloads fun hclosed => ?_
    rw [← hafter, ← hstream]
    exact process_packet_closed hclosed
  have hsender : client.sender = .idle → after.sender = .idle := by
    intro hsender
    rw [← hafter]
    show (if _ then client.sender.wake else client.sender) = _
    rw [hsender]
    exact ite_self _
  cases point with
  | loop =>
    refine ⟨hreader.mpr h.1, hsender h.2.1, ?_⟩
    rw [hreturned]
    exact hechoed h.2.2
  | receiving =>
    refine ⟨hsender h.1, ?_⟩
    rw [hreturned, hpayloads]
    refine h.2.imp (fun h => ⟨fun hnow => h.1 (hreader.mp hnow), h.2⟩) ?_
    rintro ⟨hidle, front, buf, hlast, hsent⟩
    exact ⟨hreader.mpr hidle, front, buf, hlast, hsent.imp id fun h => ⟨h.1, hechoed h.2⟩⟩
  | sending =>
    refine ⟨hreader.mpr h.1, ?_⟩
    rw [hreturned]
    refine h.2.imp ?_ fun h => ⟨hsender h.1, hechoed h.2⟩
    rintro ⟨before, buf, hcall, hrange, hbytes⟩
    exact ⟨before, buf, hduring hcall hrange, hrange, hbytes⟩
  | closed =>
    show Echoed after after.stream.returned.flatten
    rw [hreturned]
    exact hechoed h

/-! ## The steps of the server -/

section Steps

variable {server after : EchoServer}

theorem Echoes.packet {copy : Nat} {data : Segment} {ackNumber : UInt32} (h : server.Echoes)
    (horderly : server.Orderly (.packet copy data ackNumber))
    (hstep : server.step (.packet copy data ackNumber) = some after) : after.Echoes := by
  obtain ⟨client, hclient, hafter⟩ := Option.bind_eq_some_iff.mp hstep
  obtain rfl := Option.some.inj hafter
  have hpoint := h.point.packet h.used hclient
  obtain ⟨stream, hserve, hrest⟩ := Option.bind_eq_some_iff.mp hclient
  have hused := serve_used_lt h.used hserve
  simp only [Option.ite_none_right_eq_some, Option.some.injEq] at hrest
  obtain ⟨_, rfl⟩ := hrest
  obtain ⟨⟨hcopy, _⟩, hstream⟩ := Option.ite_none_right_eq_some.mp hserve
  obtain rfl := Option.some.inj hstream
  exact ⟨in_step_packet h.inStep h.used hcopy horderly, hused, hpoint⟩

theorem Echoes.run_loop (h : server.Echoes) (hcase : server.point = .loop)
    (hstep : server.step (.run .ok) = some after) : after.Echoes := by
  have hpoint := h.point
  rw [hcase] at hpoint
  obtain ⟨hreader, hsender, hechoed⟩ := hpoint
  simp only [step, hcase] at hstep
  split at hstep
  · next hreceives =>
    obtain ⟨client, hclient, hafter⟩ := Option.bind_eq_some_iff.mp hstep
    obtain ⟨stream, hserve, hnext⟩ := Option.bind_eq_some_iff.mp hclient
    obtain rfl := Option.some.inj hnext
    obtain rfl := Option.some.inj hafter
    have hinStep := h.inStep.step (show ArrivesOnEmpty _ (.recv 256) from trivial) hserve
    have hused := serve_used_lt h.used hserve
    obtain ⟨_, hstream⟩ := Option.ite_none_right_eq_some.mp hserve
    obtain rfl := Option.some.inj hstream
    refine ⟨hinStep, hused, hsender, Or.inl ⟨by simp, hechoed.resolve_right ?_⟩⟩
    rintro ⟨hclosed, _⟩
    simp [hclosed, TcpState.Receives] at hreceives
  · obtain rfl := Option.some.inj hstep
    have hbytes := h.inStep.bytes
    refine ⟨⟨?_, h.inStep.empty, h.inStep.single, h.inStep.bounded, h.inStep.ready⟩, h.used, hsender,
      Or.inr ⟨hreader, _, [], rfl, Or.inr ⟨rfl, hechoed⟩⟩⟩
    show _ = (server.client.stream.returned ++ [[]]).flatten ++ _ ++ _
    rw [List.flatten_append, List.flatten_singleton, List.append_nil]
    exact hbytes

theorem Echoes.run_receiving (h : server.Echoes) (hcase : server.point = .receiving)
    (hstep : server.step (.run .ok) = some after) : after.Echoes := by
  have hpoint := h.point
  rw [hcase] at hpoint
  obtain ⟨hsender, hpoint⟩ := hpoint
  simp only [step, hcase] at hstep
  split at hstep
  · next hreader =>
    obtain ⟨client, hclient, hafter⟩ := Option.bind_eq_some_iff.mp hstep
    obtain ⟨stream, hserve, hnext⟩ := Option.bind_eq_some_iff.mp hclient
    obtain rfl := Option.some.inj hnext
    obtain rfl := Option.some.inj hafter
    have hpayloads := (hpoint.resolve_right fun h => hreader h.1).2
    refine ⟨h.inStep.advance hserve, advance_used_lt h.used hserve, hsender, ?_⟩
    cases Stream.advances hserve with
    | finish | pushed => exact Or.inr ⟨rfl, _, _, rfl, Or.inl hpayloads⟩
    | _ => exact Or.inl ⟨by simp, hpayloads⟩
  · next hreader =>
    obtain ⟨hidle, front, buf, hreturned, hpayloads⟩ :=
      hpoint.resolve_left fun h => hreader h.1
    have hbuf : server.buf = buf := by simp [EchoServer.buf, hreturned]
    rw [hbuf] at hstep
    split at hstep
    · next hsome =>
      obtain ⟨client, hclient, hafter⟩ := Option.bind_eq_some_iff.mp hstep
      obtain ⟨⟨_, hrange⟩, hnext⟩ := Option.ite_none_right_eq_some.mp hclient
      obtain rfl := Option.some.inj hnext
      obtain rfl := Option.some.inj hafter
      have hall : server.client.payloads = front.flatten :=
        hpayloads.resolve_right fun h => by simp [h.1] at hsome
      exact ⟨h.inStep, h.used, hidle, Or.inl ⟨server.client, buf,
        ⟨[], rfl, rfl, progress_nil _ _, (UInt32.add_zero _).symm, rfl⟩, hrange,
        by simp [hall, hreturned]⟩⟩
    · next hempty =>
      obtain rfl := Option.some.inj hstep
      have hnil : buf = [] := List.eq_nil_of_length_eq_zero (by omega)
      have hflat : server.client.stream.returned.flatten = front.flatten := by
        simp [hreturned, hnil]
      refine ⟨h.inStep, h.used, ?_⟩
      show Echoed server.client server.client.stream.returned.flatten
      rw [hflat]
      exact hpayloads.elim Or.inl fun h => h.2

theorem Echoes.run_sending (h : server.Echoes) (hcase : server.point = .sending)
    (hstep : server.step (.run .ok) = some after) : after.Echoes := by
  have hpoint := h.point
  rw [hcase] at hpoint
  obtain ⟨hreader, hpoint⟩ := hpoint
  simp only [step, hcase] at hstep
  split at hstep
  · next hrunning =>
    obtain ⟨client, hclient, hafter⟩ := Option.bind_eq_some_iff.mp hstep
    obtain rfl := Option.some.inj hafter
    obtain ⟨before, buf, hcall, hrange, hbytes⟩ := hpoint.resolve_right fun h => hrunning h.1
    obtain ⟨seq, window, hstream⟩ := advance_stream hclient
    have hinStep := h.inStep
    refine ⟨?_, by rw [hstream]; exact h.used, by rw [hstream]; exact hreader, ?_⟩
    · rw [hstream]
      exact ⟨hinStep.bytes, hinStep.empty, hinStep.single, hinStep.bounded, hinStep.ready⟩
    · rcases hcall.advance_or_closed hrange hclient with hduring | ⟨hclosed, rfl⟩
      · exact Or.inl ⟨before, buf, hduring, hrange, by rw [hstream]; exact hbytes⟩
      · have hprefix := during_prefix hcall hbytes
        exact Or.inr ⟨rfl, Or.inr ⟨hclosed, hprefix⟩⟩
  · next hsender =>
    obtain rfl := Option.some.inj hstep
    have hidle := not_not.mp hsender
    refine ⟨h.inStep, h.used, hreader, hidle, ?_⟩
    rcases hpoint with ⟨before, buf, hcall, _, hbytes⟩ | ⟨_, hechoed⟩
    · obtain ⟨sent, hpayloads, hdone⟩ := during_payloads hcall
      exact Or.inl (by rw [hpayloads, hdone hidle, List.take_length, hbytes])
    · exact hechoed

theorem Echoes.step {event : EchoEvent} (h : server.Echoes) (horderly : server.Orderly event)
    (hstep : server.step event = some after) : after.Echoes := by
  cases event with
  | packet copy data ackNumber => exact h.packet horderly hstep
  | run result =>
    obtain rfl : result = .ok := horderly
    cases hcase : server.point with
    | loop => exact h.run_loop hcase hstep
    | receiving => exact h.run_receiving hcase hstep
    | sending => exact h.run_sending hcase hstep
    | closed => simp [EchoServer.step, hcase] at hstep

end Steps

theorem Echoed.reaches {client : Sending} {bytes : List UInt8} (h : Echoed client bytes) :
    client.payloads <+: bytes :=
  h.elim (fun h => h ▸ List.prefix_rfl) fun h => h.2

/-- In every orderly run, what the server has sent to its client is a prefix of what it has read from
it, which is a prefix of what the connection has accepted. Whenever the server calls `recv` again, and
when its loop has ended, it has sent back all that it has read, unless the connection was reset. -/
theorem echo_server_echoes {client : Sending} (hfresh : client.stream.socket.Fresh)
    (hused : client.stream.socket.recvWindowUsed < 2 ^ 64)
    (hstream : client.stream = Stream.initial client.stream.socket) (hidle : client.sender = .idle)
    (hnone : client.transmitted = []) {events : List EchoEvent} {final : EchoServer}
    (hrun : run step ⟨client, .loop⟩ events = some final)
    (horderly : Meets step Orderly ⟨client, .loop⟩ events) :
    final.client.payloads <+: final.client.stream.returned.flatten ∧
      final.client.stream.returned.flatten <+: final.client.stream.delivered ∧
      (final.point = .loop ∨ final.point = .closed →
        final.client.stream.socket.state ≠ .closed →
        final.client.payloads = final.client.stream.returned.flatten) := by
  have hinitial : Echoes ⟨client, .loop⟩ := by
    refine ⟨hstream ▸ in_step_initial hfresh, hused, hfresh.idle, hidle, Or.inl ?_⟩
    rw [hstream]
    simp [Sending.payloads, hnone, Stream.initial]
  have h : final.Echoes := run_invariant_of_meets Echoes
    (fun _ _ _ h hcondition hstep => h.step hcondition hstep) hinitial horderly hrun
  have hpoint := h.point
  have hbytes := h.inStep.bytes
  rw [List.append_assoc] at hbytes
  refine ⟨?_, hbytes ▸ List.prefix_append _ _, fun hcase hopen => ?_⟩
  · cases hcase : final.point with
    | loop => exact (hcase ▸ hpoint).2.2.reaches
    | receiving =>
      rcases (hcase ▸ hpoint).2 with ⟨_, hpayloads⟩ | ⟨_, front, buf, hreturned, hpayloads⟩
      · exact hpayloads ▸ List.prefix_rfl
      · have hfront : final.client.payloads <+: front.flatten :=
          hpayloads.elim (fun h => h ▸ List.prefix_rfl) fun h => h.2.reaches
        rw [hreturned, List.flatten_append]
        exact hfront.trans (List.prefix_append _ _)
    | sending =>
      rcases (hcase ▸ hpoint).2 with ⟨_, _, hcall, _, hall⟩ | ⟨_, hechoed⟩
      · exact during_prefix hcall hall
      · exact hechoed.reaches
    | closed => exact (hcase ▸ hpoint).reaches
  · have hechoed : Echoed final.client final.client.stream.returned.flatten := by
      rcases hcase with hcase | hcase
      · rw [hcase] at hpoint
        exact hpoint.2.2
      · rw [hcase] at hpoint
        exact hpoint
    exact hechoed.resolve_right fun h => hopen h.1

/-- A client sends two bytes, gets them back and closes, and the loop ends. -/
theorem echo_server_echoes_two_bytes : ∃ final,
    run step ⟨{ exampleSending 0 with stream := Stream.initial freshSocket }, .loop⟩
      ([.run .ok, .run .ok, .run .ok,
        .packet 16 { dataSegment 0 [97, 98] with flags := tcpFlagAck ||| tcpFlagPsh } 0] ++
        List.replicate 10 (.run .ok) ++ [.packet 32 (finSegment 2 []) 2, .run .ok, .run .ok]) =
      some final ∧
    final.point = .closed ∧ final.client.payloads = [97, 98] ∧
    final.client.stream.returned.flatten = [97, 98] := by
  refine exists_of_any (fun final => final.point = .closed ∧
    final.client.stream.socket.state ≠ .closed ∧ final.client.payloads = [97, 98])
    (by decide +kernel) ?_
  rintro final hrun ⟨hclosed, hopen, hpayloads⟩
  have hechoes := echo_server_echoes ⟨rfl, rfl, rfl, rfl⟩ (by decide) rfl rfl rfl hrun
    (by decide +kernel)
  exact ⟨hclosed, hpayloads, (hechoes.2.2 (Or.inr hclosed) hopen).symm.trans hpayloads⟩

end EchoServer

end Otrix.Net
