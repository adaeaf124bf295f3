import Otrix.Net.TcpWindow

/-!
# The sending side of `net/tcp_socket.cpp`

`send` cuts the data into segments, and `send_segment` waits until `remote_window_size_` has room for
one. In one protected region it takes the segment off the window and moves `seq_` on. The header is
filled in behind the region, so that packets may arrive before the segment leaves.

The peer allows everything up to the right edge, which is the sum of `ack` and `window` of its last
segment. `remote_window_size_` is to be what is left up to there. `handle_segment` sets it to the
window of an accepted segment, which is too much by the bytes that are in flight.
-/

namespace Otrix.Net

open Linked Machine

/-- The point that the running `send` call has reached, with the data, the bytes sent so far and,
inside `send_segment`, the size of the segment. -/
inductive Sender where
  | idle
  | loop (data : List UInt8) (sent : Nat)
  | segment (data : List UInt8) (sent toSend : Nat)
  | waiting (data : List UInt8) (sent toSend : Nat)
  | woken (data : List UInt8) (sent toSend : Nat)
  | committed (data : List UInt8) (sent toSend : Nat)
  deriving DecidableEq

/-- `send_waitq_.notify_one()` and `notify_all()`: at most one sender waits. -/
def Sender.wake : Sender → Sender
  | .waiting data sent toSend => .woken data sent toSend
  | sender => sender

/-- A segment was taken off the window and has not left yet. -/
def Sender.onItsWay : Sender → Bool
  | .committed _ _ _ => true
  | _ => false

/-- A segment that was sent, with the `ack` and the `window` of the last segment that was received
before. -/
structure Transmission extends Packet where
  payload : List UInt8
  lastAck : UInt32
  lastWindow : Nat
  deriving DecidableEq

/-- The segment ends at or before the right edge. -/
def Transmission.Within (segment : Transmission) : Prop :=
  (segment.seq + UInt32.ofNat segment.payload.length - segment.lastAck).toNat ≤ segment.lastWindow
  deriving Decidable

/-- A connection with its sender, the `ack` and the `window` of the last segment of the peer, the
segments sent so far, the last one first, and the results of the finished calls. -/
structure Sending where
  stream : Stream
  sender : Sender
  lastAck : UInt32
  lastWindow : Nat
  transmitted : List Transmission
  returned : List Nat

/-- What can happen: a packet arrives, an application calls `recv`, which runs, or it calls `send`,
which runs. The lower layers return `result` when they are given a segment. -/
inductive SendEvent where
  | packet (copy : Nat) (data : Segment) (ackNumber : UInt32)
  | recv (dataSize : Nat)
  | read
  | send (data : List UInt8)
  | advance (result : Kerror)

namespace Sending

/-- The protected region of `send_segment`: wait, or take the segment off the window. -/
def trySegment (sending : Sending) (data : List UInt8) (sent toSend : Nat) : Sending :=
  let socket := sending.stream.socket
  if socket.remoteWindowSize < toSend then { sending with sender := .waiting data sent toSend }
  else
    { sending with
      stream.socket := { socket with
        seq := socket.seq + UInt32.ofNat toSend
        remoteWindowSize := sub64 socket.remoteWindowSize toSend }
      sender := .committed data sent toSend }

/-- The segment that `send_segment` hands to the lower layers. -/
def outgoing (sending : Sending) (data : List UInt8) (sent toSend : Nat) : Transmission where
  seq := sending.stream.socket.seq - UInt32.ofNat toSend
  ack := sending.stream.socket.ack
  flags := tcpFlagAck ||| if sent + toSend = data.length then tcpFlagPsh else 0
  windowSize := sub64 sending.stream.socket.recvWindowSize sending.stream.socket.recvWindowUsed % 2 ^ 16
  payload := (data.drop sent).take toSend
  lastAck := sending.lastAck
  lastWindow := sending.lastWindow

/-- `send` returns. -/
def finish (sending : Sending) (sent : Nat) : Sending :=
  { sending with sender := .idle, returned := sent :: sending.returned }

/-- The running `send` call takes its next step. A waiting call has none. -/
def advance (sending : Sending) (result : Kerror) : Option Sending :=
  match sending.sender with
  | .idle => none
  | .loop data sent =>
    if sent = data.length then some (sending.finish sent)
    else some { sending with
      sender := .segment data sent (min (sub64 data.length sent) tcpMss) }
  | .segment data sent toSend => some (sending.trySegment data sent toSend)
  | .waiting _ _ _ => none
  | .woken data sent toSend =>
    -- `E_PIPE`
    if sending.stream.socket.state = .closed then some (sending.finish 0)
    else some (sending.trySegment data sent toSend)
  | .committed data sent toSend =>
    if result = .ok then
      some { sending with
        transmitted := sending.outgoing data sent toSend :: sending.transmitted
        sender := .loop data (sent + toSend) }
    else if result = .pipe then some (sending.finish 0)
    else some (sending.finish sent)

/-- One event. The window of a packet is a `uint16_t`. One `send` call runs at a time, under
`send_mutex_`. -/
def step (sending : Sending) : SendEvent → Option Sending
  | .packet copy data ackNumber => do
    let stream ← sending.stream.serve (.packet copy data)
    if data.windowSize < 2 ^ 16 then
      let notified := stream.socket.senderNotified ≠ sending.stream.socket.senderNotified
      some { sending with
        stream := stream
        sender := if notified then sending.sender.wake else sending.sender
        lastAck := ackNumber
        lastWindow := data.windowSize }
    else none
  | .recv dataSize => do
    let stream ← sending.stream.serve (.recv dataSize)
    some { sending with stream := stream }
  | .read => do
    let stream ← sending.stream.serve .advance
    some { sending with stream := stream }
  | .send data =>
    if sending.sender = .idle ∧ data.length < 2 ^ 64 then
      some { sending with sender := .loop data 0 }
    else none
  | .advance result => sending.advance result

/-- The steps of a running call, with what each of them has checked. -/
inductive Advances (sending : Sending) (result : Kerror) : Sending → Prop
  | finish {data : List UInt8} {sent : Nat} (hsender : sending.sender = .loop data sent)
      (hdone : sent = data.length) : Advances sending result (sending.finish sent)
  | begin {data : List UInt8} {sent : Nat} (hsender : sending.sender = .loop data sent)
      (hmore : ¬ sent = data.length) : Advances sending result
        { sending with sender := .segment data sent (min (sub64 data.length sent) tcpMss) }
  | segment {data : List UInt8} {sent toSend : Nat}
      (hsender : sending.sender = .segment data sent toSend) :
      Advances sending result (sending.trySegment data sent toSend)
  | closed {data : List UInt8} {sent toSend : Nat}
      (hsender : sending.sender = .woken data sent toSend)
      (hclosed : sending.stream.socket.state = .closed) : Advances sending result (sending.finish 0)
  | woken {data : List UInt8} {sent toSend : Nat}
      (hsender : sending.sender = .woken data sent toSend) :
      Advances sending result (sending.trySegment data sent toSend)
  | transmit {data : List UInt8} {sent toSend : Nat}
      (hsender : sending.sender = .committed data sent toSend) (hok : result = .ok) :
      Advances sending result { sending with
        transmitted := sending.outgoing data sent toSend :: sending.transmitted
        sender := .loop data (sent + toSend) }
  | refused {data : List UInt8} {sent toSend : Nat}
      (hsender : sending.sender = .committed data sent toSend) (hresult : result ≠ .ok)
      (count : Nat) : Advances sending result (sending.finish count)

theorem advance_cases {sending next : Sending} {result : Kerror}
    (hstep : sending.advance result = some next) : sending.Advances result next := by
  unfold advance at hstep
  cases hsender : sending.sender with
  | idle | waiting _ _ _ => simp [hsender] at hstep
  | loop data sent =>
    simp only [hsender] at hstep
    split at hstep
    next hdone => exact Option.some.inj hstep ▸ .finish hsender hdone
    next hmore => exact Option.some.inj hstep ▸ .begin hsender hmore
  | segment data sent toSend =>
    simp only [hsender] at hstep
    exact Option.some.inj hstep ▸ .segment hsender
  | woken data sent toSend =>
    simp only [hsender] at hstep
    split at hstep
    next hclosed => exact Option.some.inj hstep ▸ .closed hsender hclosed
    next => exact Option.some.inj hstep ▸ .woken hsender
  | committed data sent toSend =>
    simp only [hsender] at hstep
    split at hstep
    next hok => exact Option.some.inj hstep ▸ .transmit hsender hok
    next hresult => split at hstep <;> exact Option.some.inj hstep ▸ .refused hsender hresult _

/-- A call of `recv` and its steps leave the sender alone. -/
theorem exists_stream {sending next : Sending} {event : ConnectionEvent}
    (hstep : (sending.stream.serve event >>= fun stream =>
      some { sending with stream := stream }) = some next)
    (hevent : ∀ copy data, event ≠ .packet copy data) :
    ∃ stream, SameControl sending.stream.socket stream.socket ∧
      next = { sending with stream := stream } := by
  obtain ⟨stream, hserve, hnext⟩ := Option.bind_eq_some_iff.mp hstep
  refine ⟨stream, ?_, (Option.some.inj hnext).symm⟩
  cases event with
  | packet copy data => exact absurd rfl (hevent copy data)
  | recv dataSize =>
    obtain ⟨_, hstream⟩ := Option.ite_none_right_eq_some.mp hserve
    exact Option.some.inj hstream ▸ ⟨rfl, rfl, rfl, rfl, rfl⟩
  | advance => exact advance_same_control hserve

/-- The connection that `accept_connection` makes of the segment that completes the handshake. The
segment acknowledges everything that was sent. -/
def initial (links : Links) (buffers : Nat → Segment) (remoteWindowSize : Nat) (seq : UInt32)
    (copy : Nat) (data : Segment) : Sending where
  stream := Stream.initial (TcpSocket.accepted links buffers remoteWindowSize seq copy data)
  sender := .idle
  lastAck := seq
  lastWindow := data.windowSize
  transmitted := []
  returned := []

/-- Every segment was within the window of the peer. -/
def Respected (sending : Sending) : Prop :=
  ∀ segment ∈ sending.transmitted, segment.Within
  deriving Decidable

/-- The bytes that were sent, or are about to be, and not acknowledged. -/
def inFlight (sending : Sending) : Nat :=
  (sending.stream.socket.seq - sending.lastAck).toNat

/-- The sender may go on: there is room in `remote_window_size_`, or a segment is on its way to the
lower layers. -/
def Entitled (sending : Sending) : Prop :=
  sending.stream.socket.remoteWindowSize ≠ 0 ∨ sending.sender.onItsWay = true

/-- What the sender believes to be allowed ends at or before the right edge. -/
def Credited (sending : Sending) : Prop :=
  sending.Entitled →
    sending.stream.socket.remoteWindowSize + sending.inFlight ≤ sending.lastWindow

end Sending

/-- `handle_segment` accepts the segment, with its window. -/
def TcpSocket.Takes (socket : TcpSocket) (data : Segment) : Prop :=
  ¬ data.seq < socket.ack ∧ data.payloadSize ≤ sub64 socket.recvWindowSize socket.recvWindowUsed
  deriving Decidable

namespace Sending

/-- A packet leaves the sender within the window. If it is accepted, it acknowledges all that was
sent, or closes the window while no segment is on its way. If not, what the sender believes to be
allowed is within the window of the packet as well. -/
def Settled (sending : Sending) : SendEvent → Prop
  | .packet _ data ackNumber =>
    let socket := sending.stream.socket
    if socket.Handles data ∧ socket.Takes data then
      ackNumber = socket.seq ∨ data.windowSize = 0 ∧ sending.sender.onItsWay = false
    else
      socket.remoteWindowSize + (socket.seq - ackNumber).toNat ≤ data.windowSize ∨
        socket.remoteWindowSize = 0 ∧ sending.sender.onItsWay = false
  | _ => True

instance (sending : Sending) : ∀ event, Decidable (sending.Settled event)
  | .packet _ data _ => inferInstanceAs (Decidable (if
      sending.stream.socket.Handles data ∧ sending.stream.socket.Takes data then _ else _))
  | .recv _ => isTrue trivial
  | .read => isTrue trivial
  | .send _ => isTrue trivial
  | .advance _ => isTrue trivial

end Sending

/-! ## What a packet means for the sender -/

/-- A segment is acknowledged and otherwise ignored, or it is accepted. -/
theorem handle_segment_cases (socket : TcpSocket) (copy : Nat) (data : Segment) :
    (¬ socket.Takes data ∧ socket.handleSegment copy data = socket.sendPacket tcpFlagAck) ∨
    (socket.Takes data ∧ ∃ links recvSkb buffers allocated reader sent,
      socket.handleSegment copy data = { socket.acceptSegment data with
        links := links
        recvSkb := recvSkb
        buffers := buffers
        allocated := allocated
        reader := reader
        sent := sent }) := by
  rw [TcpSocket.handle_segment_eq]
  by_cases hdropped : socket.TreatsAsOld data ∨
      sub64 socket.recvWindowSize socket.recvWindowUsed < data.payloadSize
  · rw [if_pos hdropped]
    exact Or.inl ⟨fun h => hdropped.elim h.1 (Nat.not_lt.mpr h.2), rfl⟩
  · obtain ⟨hseq, hwindow⟩ := not_or.mp hdropped
    obtain ⟨links, recvSkb, buffers, allocated, reader, htake⟩ :=
      socket.take_segment_frame copy data
    rw [if_neg hdropped, TcpSocket.answer_segment_eq, htake]
    exact Or.inr ⟨⟨hseq, Nat.not_lt.mp hwindow⟩, links, recvSkb, buffers, allocated, reader, _, rfl⟩

/-- A segment does not move `seq_`, and if it is accepted its window is taken. -/
theorem handle_segment_window (socket : TcpSocket) (copy : Nat) (data : Segment) :
    (socket.handleSegment copy data).seq = socket.seq ∧
      (socket.handleSegment copy data).remoteWindowSize =
        if socket.Takes data then data.windowSize else socket.remoteWindowSize := by
  rcases handle_segment_cases socket copy data with
    ⟨hdropped, heq⟩ | ⟨htakes, _, _, _, _, _, _, heq⟩
  · rw [heq, if_neg hdropped]
    exact ⟨rfl, rfl⟩
  · rw [heq, if_pos htakes]
    exact ⟨rfl, rfl⟩

theorem process_packet_window (socket : TcpSocket) (copy : Nat) (data : Segment) :
    (socket.processPacket copy data).seq = socket.seq ∧
      (socket.processPacket copy data).remoteWindowSize =
        if socket.Handles data ∧ socket.Takes data then data.windowSize
        else socket.remoteWindowSize := by
  by_cases hhandles : socket.Handles data
  · rw [process_packet_of_handles copy hhandles]
    simpa only [hhandles, true_and] using handle_segment_window socket copy data
  · rw [if_neg fun h => hhandles h.1]
    unfold TcpSocket.processPacket
    cases hstate : socket.state with
    | established =>
      have hflag : ¬ data.flags &&& tcpFlagAck ≠ 0 := fun hflag => hhandles (Or.inl ⟨hstate, hflag⟩)
      simp only [TcpSocket.handleEstablishedState, if_neg hflag]
      exact ⟨rfl, rfl⟩
    | closeWait =>
      have hflag : data.flags &&& tcpFlagRst ≠ 0 := fun hflag => hhandles (Or.inr ⟨hstate, hflag⟩)
      show (socket.handleCloseWaitState copy data).seq = _ ∧
        (socket.handleCloseWaitState copy data).remoteWindowSize = _
      rw [TcpSocket.handleCloseWaitState, if_pos hflag]
      exact ⟨rfl, rfl⟩
    | _ => exact ⟨rfl, rfl⟩

/-- The sizes of a running call are in order. -/
def Sender.Bounded : Sender → Prop
  | .idle => True
  | .loop data sent => sent ≤ data.length ∧ data.length < 2 ^ 64
  | .segment data sent toSend => 0 < toSend ∧ toSend ≤ tcpMss ∧ sent + toSend ≤ data.length ∧
      data.length < 2 ^ 64
  | .waiting data sent toSend => 0 < toSend ∧ toSend ≤ tcpMss ∧ sent + toSend ≤ data.length ∧
      data.length < 2 ^ 64
  | .woken data sent toSend => 0 < toSend ∧ toSend ≤ tcpMss ∧ sent + toSend ≤ data.length ∧
      data.length < 2 ^ 64
  | .committed data sent toSend => 0 < toSend ∧ toSend ≤ tcpMss ∧ sent + toSend ≤ data.length ∧
      data.length < 2 ^ 64

theorem Sender.Bounded.wake {sender : Sender} (h : sender.Bounded) : sender.wake.Bounded := by
  cases sender with
  | waiting data sent toSend => exact h
  | _ => exact h

theorem Sender.on_its_way_wake (sender : Sender) : sender.wake.onItsWay = sender.onItsWay := by
  cases sender with
  | waiting data sent toSend => rfl
  | _ => rfl

theorem Sender.bounded_segment {data : List UInt8} {sent : Nat} (h : (Sender.loop data sent).Bounded)
    (hmore : ¬ sent = data.length) :
    (Sender.segment data sent (min (sub64 data.length sent) tcpMss)).Bounded := by
  obtain ⟨hle, hrange⟩ := h
  have hsub : sub64 data.length sent = data.length - sent := sub64_of_le hle hrange
  refine ⟨?_, Nat.min_le_right _ _, ?_, hrange⟩
  · rw [hsub]
    exact lt_min (by omega) (by decide)
  · rw [hsub]
    have hmin := Nat.min_le_left (data.length - sent) tcpMss
    omega

namespace Sending

/-- The invariant of the sender. -/
structure Sound (sending : Sending) : Prop where
  respected : sending.Respected
  credited : sending.Credited
  window : sending.lastWindow < 2 ^ 16
  bounded : sending.sender.Bounded

section

variable {sending next : Sending} {copy : Nat} {segment : Segment} {ackNumber : UInt32}
  {data : List UInt8} {sent toSend : Nat}

/-- A packet that finds the call settled keeps the invariant. -/
theorem Sound.packet (h : sending.Sound) (hsettled : sending.Settled (.packet copy segment ackNumber))
    (hstep : sending.step (.packet copy segment ackNumber) = some next) : next.Sound := by
  obtain ⟨stream, hserve, hrest⟩ := Option.bind_eq_some_iff.mp hstep
  simp only [Option.ite_none_right_eq_some, Option.some.injEq] at hrest
  obtain ⟨hrange, rfl⟩ := hrest
  simp only [Stream.serve, Option.ite_none_right_eq_some, Option.some.injEq] at hserve
  obtain ⟨_, rfl⟩ := hserve
  obtain ⟨hseq, hwindow⟩ := process_packet_window sending.stream.socket copy segment
  refine ⟨h.respected, fun hentitled => ?_, hrange, ?_⟩
  · show (sending.stream.socket.processPacket copy segment).remoteWindowSize +
      ((sending.stream.socket.processPacket copy segment).seq - ackNumber).toNat ≤ segment.windowSize
    have hway : ∀ {p : Prop} [Decidable p],
        (if p then sending.sender.wake else sending.sender).onItsWay = sending.sender.onItsWay := by
      intro p _
      split
      · exact sending.sender.on_its_way_wake
      · rfl
    replace hentitled : (sending.stream.socket.processPacket copy segment).remoteWindowSize ≠ 0 ∨
        sending.sender.onItsWay = true := hentitled.imp_right hway.symm.trans
    simp only [Settled] at hsettled
    rw [hwindow] at hentitled ⊢
    rw [hseq]
    by_cases htaken : sending.stream.socket.Handles segment ∧ sending.stream.socket.Takes segment
    · rw [if_pos htaken] at hsettled hentitled ⊢
      rcases hsettled with rfl | ⟨hzero, hresting⟩
      · rw [UInt32.sub_self]
        exact Nat.le_refl _
      · rcases hentitled with hne | hcommitted
        · exact absurd hzero hne
        · exact absurd hcommitted (by rw [hresting]; exact Bool.false_ne_true)
    · rw [if_neg htaken] at hsettled hentitled ⊢
      rcases hsettled with hle | ⟨hzero, hresting⟩
      · exact hle
      · rcases hentitled with hne | hcommitted
        · exact absurd hzero hne
        · exact absurd hcommitted (by rw [hresting]; exact Bool.false_ne_true)
  · show Sender.Bounded (if _ then sending.sender.wake else sending.sender)
    split
    · exact h.bounded.wake
    · exact h.bounded

theorem Sound.same_control (h : sending.Sound) {stream : Stream}
    (hsame : SameControl sending.stream.socket stream.socket) :
    Sound { sending with stream := stream } := by
  refine ⟨h.respected, fun hentitled => ?_, h.window, h.bounded⟩
  have hcredit := h.credited (hentitled.imp_left fun hne => hsame.remoteWindow ▸ hne)
  show stream.socket.remoteWindowSize + (stream.socket.seq - sending.lastAck).toNat ≤ _
  rw [hsame.remoteWindow, hsame.seq]
  exact hcredit

theorem Sound.move (h : sending.Sound) (sender : Sender) (hbounded : sender.Bounded)
    (hresting : sender.onItsWay = false) (returned : List Nat) :
    Sound { sending with sender := sender, returned := returned } := by
  refine ⟨h.respected, fun hentitled => h.credited ?_, h.window, hbounded⟩
  rcases hentitled with hne | hcommitted
  · exact Or.inl hne
  · exact absurd hcommitted (by rw [show sender.onItsWay = false from hresting]; exact Bool.false_ne_true)

theorem in_flight_add (seq ack : UInt32) {count limit : Nat}
    (hlimit : (seq - ack).toNat + count ≤ limit) (hrange : limit < 2 ^ 32) :
    (seq + UInt32.ofNat count - ack).toNat = (seq - ack).toNat + count := by
  have hcomm : seq + UInt32.ofNat count - ack = seq - ack + UInt32.ofNat count := by
    rw [UInt32.sub_eq_add_neg, UInt32.sub_eq_add_neg, UInt32.add_assoc, UInt32.add_assoc,
      UInt32.add_comm (UInt32.ofNat count)]
  rw [hcomm, UInt32.toNat_add, UInt32.toNat_ofNat', Nat.mod_eq_of_lt (a := count) (by omega),
    Nat.mod_eq_of_lt (by omega)]

theorem Sound.try_segment (h : sending.Sound)
    (hbounded : (Sender.segment data sent toSend).Bounded) :
    (sending.trySegment data sent toSend).Sound := by
  unfold trySegment
  by_cases hfull : sending.stream.socket.remoteWindowSize < toSend
  · simp only [if_pos hfull]
    exact h.move (.waiting data sent toSend) hbounded rfl sending.returned
  · simp only [if_neg hfull]
    have hpositive := hbounded.1
    have hcredit := h.credited (Or.inl (by omega))
    have hwindow := h.window
    have hsub : sub64 sending.stream.socket.remoteWindowSize toSend =
        sending.stream.socket.remoteWindowSize - toSend := sub64_of_le (by omega) (by omega)
    have hflight := in_flight_add sending.stream.socket.seq sending.lastAck
      (show sending.inFlight + toSend ≤ sending.lastWindow by omega) (by omega)
    refine ⟨h.respected, fun _ => ?_, h.window, hbounded⟩
    show sub64 sending.stream.socket.remoteWindowSize toSend +
      (sending.stream.socket.seq + UInt32.ofNat toSend - sending.lastAck).toNat ≤ _
    rw [hsub, hflight]
    show _ - toSend + (sending.inFlight + toSend) ≤ sending.lastWindow
    omega

theorem outgoing_within (h : sending.Sound) (hsender : sending.sender = .committed data sent toSend) :
    (sending.outgoing data sent toSend).Within := by
  have hbounded := h.bounded
  rw [hsender] at hbounded
  have hcredit := h.credited (Or.inr (by rw [hsender]; rfl))
  have hlength : ((data.drop sent).take toSend).length = toSend := by
    simp only [List.length_take, List.length_drop]
    have hfits := hbounded.2.2.1
    omega
  show (sending.stream.socket.seq - UInt32.ofNat toSend +
    UInt32.ofNat ((data.drop sent).take toSend).length - sending.lastAck).toNat ≤ sending.lastWindow
  rw [hlength, UInt32.sub_add_cancel]
  exact le_trans (Nat.le_add_left _ _) hcredit

theorem Sound.advance {result : Kerror} (h : sending.Sound)
    (hstep : sending.advance result = some next) : next.Sound := by
  have hbounded := h.bounded
  cases advance_cases hstep with
  | finish | closed | refused => exact h.move .idle trivial rfl _
  | begin hsender hmore =>
    rw [hsender] at hbounded
    exact h.move _ (Sender.bounded_segment hbounded hmore) rfl sending.returned
  | segment hsender | woken hsender =>
    rw [hsender] at hbounded
    exact h.try_segment hbounded
  | @transmit data sent toSend hsender _ =>
    rw [hsender] at hbounded
    have hmoved := h.move (.loop data (sent + toSend)) ⟨hbounded.2.2.1, hbounded.2.2.2⟩ rfl
      sending.returned
    refine ⟨fun segment hsegment => ?_, hmoved.credited, h.window, hmoved.bounded⟩
    rcases List.mem_cons.mp hsegment with rfl | hold
    · exact outgoing_within h hsender
    · exact h.respected segment hold

theorem Sound.step {event : SendEvent} (h : sending.Sound) (hsettled : sending.Settled event)
    (hstep : sending.step event = some next) : next.Sound := by
  cases event with
  | packet copy data ackNumber => exact h.packet hsettled hstep
  | recv _ | read =>
    obtain ⟨stream, hsame, rfl⟩ := exists_stream hstep (by simp)
    exact h.same_control hsame
  | send data =>
    simp only [Sending.step, Option.ite_none_right_eq_some, Option.some.injEq] at hstep
    obtain ⟨⟨_, hrange⟩, rfl⟩ := hstep
    exact h.move (.loop data 0) ⟨Nat.zero_le _, hrange⟩ rfl sending.returned
  | advance result => exact h.advance hstep

end

/-! ## A window that is too large -/

/-- A call of `send` with the data of one segment. -/
def oneSegment (count : Nat) : List SendEvent :=
  [.send (List.replicate count 0), .advance .ok, .advance .ok, .advance .ok, .advance .ok]

/-- An idle sender sends one segment that its window has room for. -/
theorem send_one {sending : Sending} (hidle : sending.sender = .idle) (count : Nat)
    (hpositive : 0 < count) (hcount : count ≤ tcpMss)
    (hroom : count ≤ sending.stream.socket.remoteWindowSize)
    (hrange : sending.stream.socket.remoteWindowSize < 2 ^ 64) :
    ∃ next segment, run step sending (oneSegment count) = some next ∧
      next.sender = .idle ∧ next.lastAck = sending.lastAck ∧ next.lastWindow = sending.lastWindow ∧
      next.stream.socket.seq = sending.stream.socket.seq + UInt32.ofNat count ∧
      next.stream.socket.remoteWindowSize = sending.stream.socket.remoteWindowSize - count ∧
      segment ∈ next.transmitted ∧ (segment.Within ↔
        (sending.stream.socket.seq + UInt32.ofNat count - sending.lastAck).toNat ≤
          sending.lastWindow) := by
  have hmss : tcpMss < 2 ^ 64 := by decide
  have hsub : sub64 count 0 = count := sub64_of_le (Nat.zero_le _) (by omega)
  have hmin : min count tcpMss = count := Nat.min_eq_left hcount
  have hfull : ¬ sending.stream.socket.remoteWindowSize < count := by omega
  have hrest : sub64 sending.stream.socket.remoteWindowSize count =
      sending.stream.socket.remoteWindowSize - count := sub64_of_le hroom hrange
  have hne : ¬ 0 = count := by omega
  have hlength : count < 2 ^ 64 := by omega
  -- the state behind the protected region, and the segment that leaves
  let committed : Sending := { sending with
    stream.socket := { sending.stream.socket with
      seq := sending.stream.socket.seq + UInt32.ofNat count
      remoteWindowSize := sending.stream.socket.remoteWindowSize - count }
    sender := .committed (List.replicate count 0) 0 count }
  let segment := committed.outgoing (List.replicate count 0) 0 count
  have hsend : step sending (.send (List.replicate count 0)) =
      some { sending with sender := .loop (List.replicate count 0) 0 } :=
    if_pos ⟨hidle, by rwa [List.length_replicate]⟩
  have hloop : step { sending with sender := .loop (List.replicate count 0) 0 } (.advance .ok) =
      some { sending with sender := .segment (List.replicate count 0) 0 count } := by
    simp [step, advance, hne, hsub, hmin]
  have hregion : step { sending with sender := .segment (List.replicate count 0) 0 count }
      (.advance .ok) = some committed := by
    simp [step, advance, trySegment, hfull, hrest, committed]
  have hleaves : step committed (.advance .ok) = some { committed with
      transmitted := segment :: sending.transmitted
      sender := .loop (List.replicate count 0) count } := by
    simp [step, advance, committed, segment]
  have hreturns : step { committed with
      transmitted := segment :: sending.transmitted
      sender := .loop (List.replicate count 0) count } (.advance .ok) = some { committed with
        transmitted := segment :: sending.transmitted
        sender := .idle
        returned := count :: sending.returned } := by
    simp [step, advance, finish, committed]
  refine ⟨{ committed with
    transmitted := segment :: sending.transmitted
    sender := .idle
    returned := count :: sending.returned }, segment, ?_, rfl, rfl, rfl, rfl, rfl,
    List.mem_cons_self, ?_⟩
  · simp only [oneSegment, run, hsend, hloop, hregion, hleaves, hreturns,
      Option.bind_eq_bind, Option.bind_some]
  · show (sending.stream.socket.seq + UInt32.ofNat count - UInt32.ofNat count +
      UInt32.ofNat (((List.replicate count 0).drop 0).take count).length - sending.lastAck).toNat ≤
        sending.lastWindow ↔ _
    rw [UInt32.add_sub_cancel, List.drop_zero, List.take_of_length_le (by simp),
      List.length_replicate]

/-- The event is one of the sender. -/
def FromSender : SendEvent → Prop
  | .send _ => True
  | .advance _ => True
  | _ => False

/-- An idle sender whose window reaches behind the right edge can send a segment that does. -/
theorem exists_overrun {sending : Sending} (hidle : sending.sender = .idle)
    (hover : sending.lastWindow < sending.stream.socket.remoteWindowSize + sending.inFlight)
    (hsome : sending.stream.socket.remoteWindowSize ≠ 0)
    (hrange : sending.stream.socket.remoteWindowSize + sending.inFlight < 2 ^ 32) :
    ∃ events final, (∀ event ∈ events, FromSender event) ∧
      run step sending events = some final ∧ ¬ final.Respected := by
  -- by induction on the room in the window, one segment at a time
  induction hroom : sending.stream.socket.remoteWindowSize using Nat.strongRecOn generalizing sending with
  | _ room ih =>
    subst hroom
    generalize hcount : min sending.stream.socket.remoteWindowSize tcpMss = count
    have hmss : 0 < tcpMss := by decide
    obtain ⟨next, segment, hrun, hnextIdle, hack, hwindow, hseq, hremote, hsent, hwithin⟩ :=
      send_one hidle count (by omega) (by omega) (by omega) (by omega)
    have hflight := in_flight_add sending.stream.socket.seq sending.lastAck
      (show sending.inFlight + count ≤ sending.inFlight + count from Nat.le_refl _) (by omega)
    have hevents : ∀ event ∈ oneSegment count, FromSender event := by
      simp [oneSegment, FromSender]
    by_cases hover' : sending.lastWindow < sending.inFlight + count
    · refine ⟨_, next, hevents, hrun, fun hrespected => ?_⟩
      have hsegment := hwithin.mp (hrespected segment hsent)
      rw [hflight] at hsegment
      exact absurd hsegment (Nat.not_le.mpr hover')
    · have hnextFlight : next.inFlight = sending.inFlight + count := by
        rw [inFlight, hseq, hack, hflight]
        rfl
      obtain ⟨events, final, hsender, hrest, hfinal⟩ := ih next.stream.socket.remoteWindowSize
        (by omega) hnextIdle (by omega) (by omega) (by omega) rfl
      refine ⟨oneSegment count ++ events, final, fun event hevent => ?_, ?_, hfinal⟩
      · rcases List.mem_append.mp hevent with hfirst | hlater
        · exact hevents event hfirst
        · exact hsender event hlater
      · rw [run_append, hrun]
        exact hrest

/-! ## Whole runs -/

section

variable (links : Links) (buffers : Nat → Segment) (remoteWindowSize : Nat) (seq : UInt32)
  (copy : Nat) (data : Segment)

/-- A new connection whose window is not larger than the one in the handshake. -/
theorem sound_initial (hrange : data.windowSize < 2 ^ 16)
    (hfirst : (TcpSocket.accepted links buffers remoteWindowSize seq copy data).remoteWindowSize ≤
      data.windowSize) :
    (initial links buffers remoteWindowSize seq copy data).Sound := by
  refine ⟨fun segment hsegment => absurd hsegment List.not_mem_nil, fun _ => ?_, hrange, trivial⟩
  have hseq : (TcpSocket.accepted links buffers remoteWindowSize seq copy data).seq = seq := by
    unfold TcpSocket.accepted
    split
    · exact (handle_segment_window _ copy data).1
    · rfl
  show (TcpSocket.accepted links buffers remoteWindowSize seq copy data).remoteWindowSize +
    ((TcpSocket.accepted links buffers remoteWindowSize seq copy data).seq - seq).toNat ≤ _
  rw [hseq, UInt32.sub_self]
  exact hfirst

end

/-- Every segment ends at or before the right edge if the connection starts with the window of the
handshake and every packet leaves the sender within the window. Where that is not so, an idle sender
can send a segment that ends behind the right edge. -/
theorem send_within_window (links : Links) (buffers : Nat → Segment) (remoteWindowSize : Nat)
    (seq : UInt32) (copy : Nat) (data : Segment) (hrange : data.windowSize < 2 ^ 16)
    {events : List SendEvent} {final : Sending}
    (hrun : run step (initial links buffers remoteWindowSize seq copy data) events =
      some final) :
    ((TcpSocket.accepted links buffers remoteWindowSize seq copy data).remoteWindowSize ≤
        data.windowSize →
      Meets step Settled (initial links buffers remoteWindowSize seq copy data) events →
      final.Respected) ∧
    (final.sender = .idle → ¬ final.Credited →
      final.stream.socket.remoteWindowSize + final.inFlight < 2 ^ 32 →
      ∃ continuation last, (∀ event ∈ continuation, FromSender event) ∧
        run step final continuation = some last ∧ ¬ last.Respected) := by
  refine ⟨fun hfirst hsettled => ?_, fun hidle hcredited hsmall => ?_⟩
  · exact (run_invariant_of_meets Sound (fun _ _ _ h hmeets hstep => h.step hmeets hstep)
      (sound_initial links buffers remoteWindowSize seq copy data hrange hfirst) hsettled
      hrun).respected
  · simp only [Credited, Entitled, hidle, Sender.onItsWay, Bool.false_eq_true, or_false,
      Classical.not_imp, Nat.not_le] at hcredited
    exact exists_overrun hidle hcredited.2 hcredited.1 hsmall

/-- A segment without data that acknowledges and advertises a window. -/
def windowSegment (windowSize : Nat) : Segment :=
  ⟨101, tcpFlagAck, windowSize, fun _ => 0, 0⟩

/-- A connection whose handshake advertises a window of `2000`, on memory that holds
`remoteWindowSize`. -/
def exampleSending (remoteWindowSize : Nat) : Sending :=
  initial ⟨fun _ => 0, fun _ => 0⟩ (fun _ => windowSegment 0) remoteWindowSize 1 8 (windowSegment 2000)

/-- The memory holds the window of the handshake, and the peer acknowledges a segment before the next
one is sent. -/
theorem send_within_window_acknowledged : ∃ final,
    run step (exampleSending 2000)
      (oneSegment 1000 ++ [.packet 16 (windowSegment 1500) 1001] ++ oneSegment 1400) = some final ∧
    final.Respected := by
  refine exists_of_isSome (by decide +kernel) ?_
  intro final hrun
  exact (send_within_window _ _ _ _ _ _ (by decide) hrun).1 (by decide) (by decide +kernel)

/-- The window of the handshake is `2000`. On memory that holds `5000`, the second segment ends at
`2920`. If the memory holds `2000` and the peer announces its window again while `1460` bytes are in
flight, the second segment ends at `2920` as well. -/
theorem send_beyond_window :
    (run step (exampleSending 5000) (oneSegment 1460 ++ oneSegment 1460)).any
      (fun final => ¬ final.Respected) = true ∧
    (run step (exampleSending 2000)
        (oneSegment 1460 ++ [.packet 16 (windowSegment 2000) 1] ++ oneSegment 1460)).any
      (fun final => ¬ final.Respected) = true := by
  decide +kernel

end Sending

end Otrix.Net
