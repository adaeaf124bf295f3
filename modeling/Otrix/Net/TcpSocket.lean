import Otrix.Common.List
import Otrix.Common.Word

/-!
# The receiving side of `net/tcp_socket.cpp`

`handleSegment` and the loop of `recv`. The receive list is the intrusive list
of the source, with the buffers at its nodes. A buffer is the memory that
`payload()` points to together with its size, so that a read behind the payload
is a read of whatever lies there.

A `recv` call is a machine of its own, because segments arrive between its
protected regions. Its points are the head of the loop, the gap between the
test of `recv_skb_` and the wait, the wait, and the protected region. One call
runs at a time, under `recv_mutex_`.
-/

namespace Otrix.Net

open Linked

/-- `enum tcp_state`. -/
inductive TcpState where
  | closed
  | listen
  | synSent
  | synReceived
  | established
  | finWait1
  | finWait2
  | closeWait
  | closing
  | lastAck
  | timeWait
  deriving DecidableEq

/-- The states in which `recv` goes on. -/
def TcpState.Receives (state : TcpState) : Prop :=
  state = .established ∨ state = .synSent ∨ state = .synReceived
  deriving Decidable

/-- `TCP_FLAG_ACK`. -/
def tcpFlagAck : UInt8 := 0x10

/-- `TCP_FLAG_PSH`. -/
def tcpFlagPsh : UInt8 := 0x08

/-- `TCP_FLAG_FIN`. -/
def tcpFlagFin : UInt8 := 0x01

/-- What the socket reads of an incoming `sockbuf`: header fields in host order, and the payload. -/
structure Segment where
  seq : UInt32
  flags : UInt8
  windowSize : Nat
  payload : Nat → UInt8
  payloadSize : Nat

/-- The payload as a byte string. -/
def Segment.bytes (segment : Segment) : List UInt8 :=
  (List.range segment.payloadSize).map segment.payload

/-- The header fields that `send_packet` fills in. -/
structure Packet where
  seq : UInt32
  ack : UInt32
  flags : UInt8
  windowSize : Nat
  deriving DecidableEq

/-- The point that the running `recv` call has reached, with the requested size and the bytes
copied so far. -/
inductive Reader where
  | idle
  | loop (dataSize : Nat) (received : List UInt8)
  | sawEmpty (dataSize : Nat) (received : List UInt8)
  | waiting (dataSize : Nat) (received : List UInt8)
  | ready (dataSize : Nat) (received : List UInt8)
  deriving DecidableEq

/-- A `tcp_socket`, with the links and the contents of the buffers that it allocated for its receive
list, the reader, the notifications of the sending side, and the packets sent so far. -/
structure TcpSocket where
  state : TcpState
  seq : UInt32
  ack : UInt32
  recvWindowSize : Nat
  recvWindowUsed : Nat
  recvSkb : Nat
  recvSkbPayloadOffset : Nat
  remoteWindowSize : Nat
  links : Links
  buffers : Nat → Segment
  allocated : List Nat
  reader : Reader
  senderNotified : Nat
  sent : List Packet

namespace TcpSocket

/-- `send_packet`: the window field is `uint16_t`. -/
def sendPacket (socket : TcpSocket) (flags : UInt8) : TcpSocket :=
  let windowSize := sub64 socket.recvWindowSize socket.recvWindowUsed % 2 ^ 16
  { socket with sent := ⟨socket.seq, socket.ack, flags, windowSize⟩ :: socket.sent }

/-- `recv_waitq_.notify_one()`: at most one reader waits. -/
def notifyReader (socket : TcpSocket) : TcpSocket :=
  match socket.reader with
  | .waiting dataSize received => { socket with reader := .ready dataSize received }
  | _ => socket

/-- Queue the buffer of a segment, moved to a new `sockbuf` whose node is `copy`. -/
def queueSegment (socket : TcpSocket) (copy : Nat) (data : Segment) : TcpSocket :=
  let links := intrusiveListInit socket.links copy
  let (links, head) := intrusiveListPushBack links socket.recvSkb copy
  notifyReader { socket with
    links := links
    recvSkb := head
    buffers := Function.update socket.buffers copy data
    allocated := copy :: socket.allocated }

/-- The segment carries a FIN. -/
def isFin (data : Segment) : Prop :=
  data.flags &&& tcpFlagFin ≠ 0
  deriving Decidable

/-- The bookkeeping of `handle_segment` for a segment that it accepts. -/
def acceptSegment (socket : TcpSocket) (data : Segment) : TcpSocket :=
  { socket with
    recvWindowUsed := u64 (socket.recvWindowUsed + data.payloadSize)
    ack := socket.ack + UInt32.ofNat data.payloadSize
    state := if isFin data then .closeWait else socket.state
    remoteWindowSize := data.windowSize
    senderNotified :=
      if socket.remoteWindowSize < data.windowSize then socket.senderNotified + 1
      else socket.senderNotified }

/-- `handle_segment`. -/
def handleSegment (socket : TcpSocket) (copy : Nat) (data : Segment) : TcpSocket :=
  if data.seq < socket.ack then socket.sendPacket tcpFlagAck
  else if sub64 socket.recvWindowSize socket.recvWindowUsed < data.payloadSize then
    socket.sendPacket tcpFlagAck
  else
    let socket := socket.acceptSegment data
    let socket :=
      if 0 < data.payloadSize ∨ isFin data then socket.queueSegment copy data else socket
    if data.flags &&& tcpFlagPsh ≠ 0 ∨ socket.recvWindowSize = 0 ∨ isFin data then
      socket.sendPacket tcpFlagAck
    else socket

/-- The protected region of `recv`: copy from the first buffer of the list, and drop the buffer once
it is used up. `none` is the use of a null buffer. The results are the bytes copied so far and
whether a push ends the call. -/
def recvRegion (socket : TcpSocket) (dataSize : Nat) (received : List UInt8) :
    Option (TcpSocket × List UInt8 × Bool) :=
  if socket.recvSkb = 0 then none
  else
    let buf := socket.buffers socket.recvSkb
    let toCopy := min (sub64 dataSize received.length)
      (sub64 buf.payloadSize socket.recvSkbPayloadOffset)
    let copied := (List.range toCopy).map fun i => buf.payload (socket.recvSkbPayloadOffset + i)
    let windowWasZero := socket.recvWindowUsed = socket.recvWindowSize
    let socket := { socket with
      recvSkbPayloadOffset := u64 (socket.recvSkbPayloadOffset + toCopy)
      recvWindowUsed := sub64 socket.recvWindowUsed toCopy }
    let usedUp := socket.recvSkbPayloadOffset = buf.payloadSize
    let pushReceived := usedUp ∧ buf.flags &&& (tcpFlagPsh ||| tcpFlagFin) ≠ 0
    let socket :=
      if usedUp then
        let (links, head) := intrusiveListDelete socket.links socket.recvSkb socket.recvSkb
        { socket with
          links := links
          recvSkb := head
          recvSkbPayloadOffset := 0
          allocated := socket.allocated.erase socket.recvSkb }
      else socket
    let socket := if windowWasZero then socket.sendPacket tcpFlagAck else socket
    some (socket, received ++ copied, decide pushReceived)

end TcpSocket

/-! ## The stream -/

/-- A socket in use, with the payloads of the segments that it has taken and the results of the
finished `recv` calls. -/
structure Stream where
  socket : TcpSocket
  delivered : List UInt8
  returned : List (List UInt8)

/-- What can happen to a stream: a segment arrives, an application calls `recv`, or the running call
takes its next step. -/
inductive StreamEvent where
  | segment (copy : Nat) (data : Segment)
  | recv (dataSize : Nat)
  | advance

/-- The segment is the next one in sequence, fits the window and is no FIN. -/
def InOrder (socket : TcpSocket) (data : Segment) : Prop :=
  data.seq = socket.ack ∧ data.payloadSize ≤ sub64 socket.recvWindowSize socket.recvWindowUsed ∧
    ¬ TcpSocket.isFin data
  deriving Decidable

/-- The running `recv` call takes its next step. A waiting call has none. -/
def Stream.advance (stream : Stream) : Option Stream :=
  let socket := stream.socket
  match socket.reader with
  | .idle => none
  | .loop dataSize received =>
    if received.length = dataSize then
      some { stream with
        socket := { socket with reader := .idle }
        returned := stream.returned ++ [received] }
    else if socket.recvSkb = 0 then
      some { stream with socket := { socket with reader := .sawEmpty dataSize received } }
    else some { stream with socket := { socket with reader := .ready dataSize received } }
  | .sawEmpty dataSize received =>
    some { stream with socket := { socket with reader := .waiting dataSize received } }
  | .waiting _ _ => none
  | .ready dataSize received => do
    let (after, copied, pushReceived) ← socket.recvRegion dataSize received
    if pushReceived then
      some { stream with
        socket := { after with reader := .idle }
        returned := stream.returned ++ [copied] }
    else some { stream with socket := { after with reader := .loop dataSize copied } }

/-- The steps of a running call, with what each of them has checked. -/
inductive Stream.Advances (stream : Stream) : Stream → Prop
  | finish {dataSize : Nat} {received : List UInt8}
      (hreader : stream.socket.reader = .loop dataSize received)
      (hfull : received.length = dataSize) : Advances stream { stream with
        socket := { stream.socket with reader := .idle }
        returned := stream.returned ++ [received] }
  | sawEmpty {dataSize : Nat} {received : List UInt8}
      (hreader : stream.socket.reader = .loop dataSize received)
      (hempty : stream.socket.recvSkb = 0) : Advances stream { stream with
        socket := { stream.socket with reader := .sawEmpty dataSize received } }
  | sawBuffer {dataSize : Nat} {received : List UInt8}
      (hreader : stream.socket.reader = .loop dataSize received)
      (hhead : stream.socket.recvSkb ≠ 0) (hmore : received.length ≠ dataSize) :
      Advances stream { stream with
        socket := { stream.socket with reader := .ready dataSize received } }
  | waits {dataSize : Nat} {received : List UInt8}
      (hreader : stream.socket.reader = .sawEmpty dataSize received) : Advances stream
        { stream with socket := { stream.socket with reader := .waiting dataSize received } }
  | pushed {dataSize : Nat} {received copied : List UInt8} {after : TcpSocket}
      (hreader : stream.socket.reader = .ready dataSize received)
      (hregion : stream.socket.recvRegion dataSize received = some (after, copied, true)) :
      Advances stream { stream with
        socket := { after with reader := .idle }
        returned := stream.returned ++ [copied] }
  | copied {dataSize : Nat} {received copied : List UInt8} {after : TcpSocket}
      (hreader : stream.socket.reader = .ready dataSize received)
      (hregion : stream.socket.recvRegion dataSize received = some (after, copied, false)) :
      Advances stream { stream with socket := { after with reader := .loop dataSize copied } }

theorem Stream.advances {stream next : Stream} (hstep : stream.advance = some next) :
    stream.Advances next := by
  unfold Stream.advance at hstep
  cases hreader : stream.socket.reader with
  | idle | waiting _ _ => simp [hreader] at hstep
  | loop dataSize received =>
    simp only [hreader] at hstep
    split at hstep
    next hfull => exact Option.some.inj hstep ▸ .finish hreader hfull
    next hmore =>
      split at hstep
      next hempty => exact Option.some.inj hstep ▸ .sawEmpty hreader hempty
      next hhead => exact Option.some.inj hstep ▸ .sawBuffer hreader hhead hmore
  | sawEmpty dataSize received =>
    simp only [hreader] at hstep
    exact Option.some.inj hstep ▸ .waits hreader
  | ready dataSize received =>
    simp only [hreader] at hstep
    obtain ⟨⟨after, copied, push⟩, hregion, hrest⟩ := Option.bind_eq_some_iff.mp hstep
    cases push with
    | true => exact Option.some.inj hrest ▸ .pushed hreader hregion
    | false => exact Option.some.inj hrest ▸ .copied hreader hregion

/-- One event. Segments are in order, and the new `sockbuf` is none of those still allocated. A
`recv` call starts on an established socket while no other call runs. -/
def Stream.step (stream : Stream) : StreamEvent → Option Stream
  | .segment copy data =>
    if InOrder stream.socket data ∧ copy ≠ 0 ∧ copy ∉ stream.socket.allocated then
      some { stream with
        socket := stream.socket.handleSegment copy data
        delivered := stream.delivered ++ data.bytes }
    else none
  | .recv dataSize =>
    if stream.socket.reader = .idle ∧ stream.socket.state = .established ∧ dataSize < 2 ^ 64 then
      some { stream with socket := { stream.socket with reader := .loop dataSize [] } }
    else none
  | .advance => stream.advance

/-- An established socket whose receive list is empty and that no one reads. -/
structure TcpSocket.Fresh (socket : TcpSocket) : Prop where
  established : socket.state = .established
  empty : socket.recvSkb = 0
  offset : socket.recvSkbPayloadOffset = 0
  idle : socket.reader = .idle

/-- The stream of a socket from here on. -/
def Stream.initial (socket : TcpSocket) : Stream :=
  ⟨socket, [], []⟩

end Otrix.Net
