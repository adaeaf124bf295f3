import Otrix.Net.Sockbuf
import Otrix.Foundation.ByteMemory

/-!
# The receive path from `virtio_net` through `ipv4` to the protocol handlers

`ipv4::process_packet` with the checksum of `net/ipv4.hpp` over a flat memory,
and what the handlers of `icmp.cpp` and `tcp.cpp` do to the socket buffer. A null
header pointer is an address like any other, because the kernel maps all memory.
-/

namespace Otrix.Net

open Bytes

/-- `ntohs` and `htons` on a little-endian machine. -/
def bswap16 (value : Nat) : Nat :=
  value % 256 * 256 + value / 256 % 256

/-- `ntohl` and `htonl` on a little-endian machine. -/
def bswap32 (value : Nat) : Nat :=
  bswap16 (value % 2 ^ 16) * 2 ^ 16 + bswap16 (value / 2 ^ 16)

/-- `ip_checksum`. The sum is a `uint32_t` and is folded once. -/
def ipChecksum (memory : Mem) (data dataSize initialSum : Nat) : Nat :=
  let csum := (List.range (dataSize / 2)).foldl
    (fun csum i => (csum + memory.load (data + 2 * i) 2) % 2 ^ 32) initialSum
  let csum :=
    if dataSize % 2 ≠ 0 then (csum + memory.load (data + 2 * (dataSize / 2)) 1) % 2 ^ 32 else csum
  let folded := (csum &&& 0xffff) + ((csum &&& 0xffff0000) >>> 16)
  (2 ^ 32 - 1 - folded) % 2 ^ 16

/-- `sizeof(virtio_net_hdr)`. -/
def virtioNetHdrBytes : Nat := 10

/-- `sizeof(ethernet_hdr)`. -/
def ethernetHdrBytes : Nat := 14

/-- `sizeof(ip_hdr)`. -/
def ipHdrBytes : Nat := 20

/-- `sizeof(icmp_v4_hdr)`. -/
def icmpHdrBytes : Nat := 4

/-- `VERSION_IHL_IPV4`. -/
def versionIhlIpv4 : Nat := 4 * 16 + ipHdrBytes / 4

/-- `make_ipv4(255, 255, 255, 255)`. -/
def broadcast : Nat := 0xffffffff

/-- The socket buffer of a received frame, after `rx_handler` has wrapped it and `rx_thread` has
parsed the two headers of the link. -/
def receivedSockbuf (data size : Nat) : Sockbuf :=
  ((Sockbuf.zeroCopy data size).addParsedHeader virtioNetHdrBytes .virtio).addParsedHeader
    ethernetHdrBytes .ethernet

/-- The handlers that subscribe to `ipv4`. Whether the TCP layer moves the buffer into a receive
list depends on its sockets: `queues` says which way it goes. -/
inductive L3Handler where
  | icmp
  | tcp (queues : Bool)
  deriving DecidableEq

/-- A slot of `rx_handlers_`. An empty slot has type `0` and a null handler. -/
structure RxHandler where
  type : Nat
  handler : Option L3Handler
  deriving DecidableEq

/-- The members of `ipv4` that the receive path reads. -/
structure Ipv4 where
  addr : Nat
  rxHandlers : List RxHandler

/-- `icmp::process_packet`: the buffer after the header was parsed, and the bytes that
`process_echo_request` copies into its reply. -/
def icmpProcessPacket (memory : Mem) (skb : Sockbuf) : Sockbuf × Option (Nat × Nat) :=
  if skb.payloadSize < ipHdrBytes then (skb, none)
  else
    let skb := skb.addParsedHeader icmpHdrBytes .icmp
    if memory.load (skb.headers .icmp) 1 = 8 then (skb, some (skb.payload, skb.payloadSize))
    else (skb, none)

/-- `tcp_header_size`. -/
def tcpHeaderSize (memory : Mem) (skb : Sockbuf) : Nat :=
  memory.load (skb.payload + 12) 1 / 16 * 4

/-- The part of `tcp::process_packet` in front of the sockets: the buffer after the header was
parsed, and the bytes of it that a socket queues. -/
def tcpProcessPacket (memory : Mem) (skb : Sockbuf) : Sockbuf × Option (Nat × Nat) :=
  let skb := skb.addParsedHeader (tcpHeaderSize memory skb) .tcp
  (skb, some (skb.payload, skb.payloadSize))

/-- What a handler reads as payload, as an address and a length. -/
def L3Handler.readsPayload (memory : Mem) (skb : Sockbuf) : L3Handler → Option (Nat × Nat)
  | .icmp => (icmpProcessPacket memory skb).2
  | .tcp _ => (tcpProcessPacket memory skb).2

/-- The socket buffer when a handler returns. -/
def L3Handler.process (memory : Mem) (skb : Sockbuf) : L3Handler → Sockbuf
  | .icmp => (icmpProcessPacket memory skb).1
  | .tcp queues => if queues then Sockbuf.movedFrom else (tcpProcessPacket memory skb).1

/-- A call of a handler, with the socket buffer it is given. -/
structure HandlerCall where
  handler : L3Handler
  skb : Sockbuf

/-- The loop of `process_packet` over the handlers. The call of a null handler does not return. -/
def dispatch (memory : Mem) (proto : Nat) : List RxHandler → Sockbuf → List HandlerCall
  | [], _ => []
  | slot :: slots, skb =>
    if slot.type = proto then
      match slot.handler with
      | none => []
      | some handler => ⟨handler, skb⟩ :: dispatch memory proto slots (handler.process memory skb)
    else dispatch memory proto slots skb

/-- The checks of `process_packet` on the header at `hdr`. -/
def headerAccepted (ip : Ipv4) (memory : Mem) (hdr : Nat) : Bool :=
  ipChecksum memory hdr ipHdrBytes 0 = 0 ∧ memory.load hdr 1 = versionIhlIpv4 ∧
    (memory.load (hdr + 16) 4 = bswap32 ip.addr ∨ memory.load (hdr + 16) 4 = bswap32 broadcast)

/-- The total length field of the header at `hdr`. -/
def totalLength (memory : Mem) (hdr : Nat) : Nat :=
  bswap16 (memory.load (hdr + 2) 2)

/-- The protocol field of the header at `hdr`. -/
def protocol (memory : Mem) (hdr : Nat) : Nat :=
  memory.load (hdr + 9) 1

/-- `ipv4::process_packet`: the calls of handlers that it makes. -/
def processPacket (ip : Ipv4) (memory : Mem) (skb : Sockbuf) : List HandlerCall :=
  if skb.payloadSize < ipHdrBytes then []
  else
    let skb := skb.addParsedHeader ipHdrBytes .ip
    let hdr := skb.headers .ip
    if headerAccepted ip memory hdr then
      let len := sub64 (totalLength memory hdr) ipHdrBytes
      dispatch memory (protocol memory hdr) ip.rxHandlers (skb.setPayloadSize len)
    else []

end Otrix.Net
