import Otrix.Net.Transmit
import Otrix.Net.TcpTable

/-!
# Parsing TCP headers

`tcp::process_packet` takes the length of the header from the header itself, hands it to
`add_parsed_header`, and reads the fields where `header(tcp)` points. It checks
nothing. `tcp_header_checked_iff` says for which packets that does no harm: those
with room for a header whose length is at least twenty bytes and at most the payload.
Of any other packet some field is read at the wrong place, and the packet is not
dropped.
-/

namespace Otrix.Net

open Bytes

/-- What `tcp::process_packet` and the handlers of the sockets read of a packet. The fields are read
where `header(tcp)` and `header(ip)` point after the header was parsed. -/
def tcpIncoming (memory : Mem) (data : Sockbuf) : Incoming :=
  let parsed := (tcpProcessPacket memory data).1
  let header := loadTcpHeader memory (parsed.headers .tcp)
  { seq := header.seq
    flags := header.flags
    windowSize := header.windowSize.toNat
    payload := fun i => memory.byte (parsed.payload + i)
    payloadSize := parsed.payloadSize
    saddr := UInt32.ofNat (bswap32 (memory.load (parsed.headers .ip + 12) 4))
    sourcePort := header.sourcePort
    destPort := header.destPort
    ackNumber := header.ack }

/-- `tcp::process_packet` on a socket buffer. -/
def Tcp.receive (tcp : Tcp) (memory : Mem) (data : Sockbuf) (tsc : Nat) (new : NewSocket)
    (copy : Nat) : Option Tcp :=
  tcp.processPacket (tcpIncoming memory data) tsc new copy

/-- There is a whole header, its length is that of a header at least, and it fits. -/
def WellFormedHeader (memory : Mem) (data : Sockbuf) : Prop :=
  tcpHdrBytes ≤ data.payloadSize ∧ tcpHdrBytes ≤ tcpHeaderSize memory data ∧
    tcpHeaderSize memory data ≤ data.payloadSize
  deriving Decidable

/-- The pointer to the header is not null, and the payload starts behind the header and inside the
packet. -/
def HeaderParsed (memory : Mem) (data : Sockbuf) : Prop :=
  (tcpProcessPacket memory data).1.headers .tcp ≠ 0 ∧
    data.payload + tcpHdrBytes ≤ (tcpProcessPacket memory data).1.payload ∧
    (tcpProcessPacket memory data).1.payload ≤ data.payloadEnd

section Parse

variable {memory : Mem} {data : Sockbuf}

/-- A header that does not fit leaves the pointer null and the payload where it is. -/
theorem tcp_process_packet_of_long (hnew : data.headers .tcp = 0)
    (hlong : data.payloadSize < tcpHeaderSize memory data) :
    (tcpProcessPacket memory data).1 = data := by
  unfold tcpProcessPacket Sockbuf.addParsedHeader
  rw [if_neg (not_not.mpr hnew), if_pos hlong]

/-- A header that fits is the start of the packet, and the payload is behind as many bytes as the
header says. -/
theorem tcp_process_packet_of_fits (hnew : data.headers .tcp = 0)
    (hfits : tcpHeaderSize memory data ≤ data.payloadSize) :
    (tcpProcessPacket memory data).1.headers .tcp = data.head ∧
      (tcpProcessPacket memory data).1.payload = data.payload + tcpHeaderSize memory data := by
  unfold tcpProcessPacket
  rw [data.add_parsed_header_of_le _ _ hnew hfits]
  have hheader : Function.update data.headers .tcp data.head .tcp = data.head :=
    Function.update_self _ _ _
  exact ⟨hheader, rfl⟩

/-- The header is parsed as one exactly when it is well formed. -/
theorem header_parsed_iff (hnew : data.headers .tcp = 0) (hhead : data.head ≠ 0) :
    HeaderParsed memory data ↔ WellFormedHeader memory data := by
  unfold HeaderParsed WellFormedHeader
  by_cases hfits : tcpHeaderSize memory data ≤ data.payloadSize
  · obtain ⟨hheader, hpayload⟩ := tcp_process_packet_of_fits hnew hfits
    rw [hheader, hpayload, Sockbuf.payloadEnd]
    omega
  · rw [tcp_process_packet_of_long hnew (by omega)]
    exact iff_of_false (fun h => h.1 hnew) fun h => hfits h.2.2

end Parse

/-- A layer without sockets answers every packet. -/
theorem receive_initial (hashFunc : SocketId → Nat) (nodes : HashMapNodes SocketId) (memory : Mem)
    (data : Sockbuf) (tsc : Nat) (new : NewSocket) (copy : Nat) :
    (Tcp.initial hashFunc nodes).receive memory data tsc new copy =
      some { Tcp.initial hashFunc nodes with
        sent := [(tcpIncoming memory data).sendReply (tcpFlagRst ||| tcpFlagAck)] } := by
  have hnone : ∀ id, (Tcp.initial hashFunc nodes).findConnected id = some 0 ∧
      (Tcp.initial hashFunc nodes).findListen id = some 0 := fun id => ⟨rfl, rfl⟩
  unfold Tcp.receive Tcp.processPacket
  rw [(hnone _).1, Option.bind_eq_bind, Option.bind_some]
  simp only [or_true, if_true, (hnone _).2, Option.bind_some]
  rfl

/-- A packet does no harm in any state that the layer can reach, that is, its header is parsed as one
or the packet leaves the layer unchanged, exactly when it has a well-formed header. -/
theorem tcp_header_checked_iff (memory : Mem) (data : Sockbuf) (hnew : data.headers .tcp = 0)
    (hhead : data.head ≠ 0) :
    (∀ (hashFunc : SocketId → Nat) (nodes : HashMapNodes SocketId) (tcp : Tcp),
      Machine.Reachable Tcp.step (Tcp.initial hashFunc nodes) tcp →
      ∀ (tsc : Nat) (new : NewSocket) (copy : Nat),
        HeaderParsed memory data ∨ tcp.receive memory data tsc new copy = some tcp) ↔
      WellFormedHeader memory data := by
  constructor
  · intro hharmless
    let nodes : HashMapNodes SocketId := ⟨⟨fun _ => 0, fun _ => 0⟩, fun _ => ⟨0, 0, 0⟩⟩
    rcases hharmless (fun _ => 0) nodes (Tcp.initial (fun _ => 0) nodes) ⟨[], rfl⟩ 0
      (newSocketAt 0) 0 with hparsed | hdropped
    · exact (header_parsed_iff hnew hhead).mp hparsed
    · rw [receive_initial] at hdropped
      have hsent := congrArg Tcp.sent (Option.some.inj hdropped)
      cases hsent
  · intro hwell hashFunc nodes tcp _ tsc new copy
    exact Or.inl ((header_parsed_iff hnew hhead).mpr hwell)

/-- The bytes of an acknowledgement with the given length of the header, in units of four bytes. -/
def offsetPacket (offset : UInt8) : Mem :=
  ⟨fun address =>
    if address = 4108 then offset * 16 else if address = 4109 then tcpFlagAck else 0⟩

/-- Twenty bytes whose header has twenty bytes are parsed. -/
theorem tcp_header_checked_twenty_bytes :
    HeaderParsed (offsetPacket 5) (Sockbuf.zeroCopy 4096 20) ∨
      emptyTcp.receive (offsetPacket 5) (Sockbuf.zeroCopy 4096 20) 0 (newSocketAt 16) 24 =
        some emptyTcp :=
  (tcp_header_checked_iff (offsetPacket 5) (Sockbuf.zeroCopy 4096 20) rfl (by decide)).mpr
    (by decide +kernel) _ _ emptyTcp ⟨[], rfl⟩ 0 (newSocketAt 16) 24

/-- Of twenty bytes that announce a header of sixty, the fields are read through a null pointer. Of
twenty bytes that announce a header of none, all twenty are payload, and an established connection
queues them as data. Both packets are answered by a layer without sockets. -/
theorem malformed_header_is_used :
    (tcpProcessPacket (offsetPacket 15) (Sockbuf.zeroCopy 4096 20)).1.headers .tcp = 0 ∧
      (emptyTcp.receive (offsetPacket 15) (Sockbuf.zeroCopy 4096 20) 0 (newSocketAt 16) 24).map
        (·.sent.length) = some 1 ∧
      (tcpProcessPacket (offsetPacket 0) (Sockbuf.zeroCopy 4096 20)).1.payload = 4096 ∧
      (emptyTcp.receive (offsetPacket 0) (Sockbuf.zeroCopy 4096 20) 0 (newSocketAt 16) 24).map
        (·.sent.length) = some 1 ∧
      (freshSocket.processPacket 24
        (tcpIncoming (offsetPacket 0) (Sockbuf.zeroCopy 4096 20)).toSegment).recvWindowUsed = 20 :=
  ⟨by decide +kernel, by decide +kernel, by decide +kernel, by decide +kernel, by decide +kernel⟩

end Otrix.Net
