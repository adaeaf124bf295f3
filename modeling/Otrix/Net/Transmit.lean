import Otrix.Net.ReceiveBounds
import Otrix.Net.Checksum

/-!
# Sent packets and the packets that are parsed from them

The way of a TCP packet out of a host, through `tcp::send`, `ipv4::write` and
`virtio_net::write`, and the frame check of `virtio_net::rx_thread` on the way in.
The buffer of a packet to be sent has room for the headers in front of the
payload, and each layer prepends its own. `Carries` says what the buffer holds in
between; each layer has one lemma about it.

`transmit_receive_agree` joins the two directions: what a host parses from the
bytes that another one sends is what was sent.
-/

namespace Otrix.Net

open Bytes OnesComplement

/-! ## The link -/

/-- `mac_t`. -/
structure Mac where
  bytes : List UInt8
  length_eq : bytes.length = 6

/-- `broadcast_mac`. -/
def broadcastMac : Mac :=
  ⟨List.replicate 6 0xff, rfl⟩

/-- `enum class ethertype`. -/
inductive Ethertype where
  | unknown
  | ipv4
  | arp
  deriving DecidableEq

/-- The number of an `ethertype`. -/
def Ethertype.value : Ethertype → Nat
  | .unknown => 0
  | .ipv4 => 0x800
  | .arp => 0x0806

/-- The handlers that subscribe to the link. -/
inductive LinkHandler where
  | ipv4
  | arp
  deriving DecidableEq

/-- A slot of `virtio_net::rx_handlers_`. -/
structure LinkRxHandler where
  type : Ethertype
  handler : Option LinkHandler

/-- The members of `virtio_net` that the two paths read. -/
structure VirtioNet where
  addr : Mac
  rxHandlers : List LinkRxHandler

/-- `rx_thread` on a received frame: the first handler that it calls, with the buffer it passes. A
frame for another host is dropped. -/
def rxThread (net : VirtioNet) (memory : Mem) (data size : Nat) : Option (LinkHandler × Sockbuf) :=
  let skb := receivedSockbuf data size
  let hdr := skb.headers .ethernet
  let dmac := memory.read hdr 6
  if dmac ≠ broadcastMac.bytes ∧ dmac ≠ net.addr.bytes then none
  else
    let type := bswap16 (memory.load (hdr + 12) 2)
    ((net.rxHandlers.find? fun slot => slot.type.value = type).bind LinkRxHandler.handler).map
      fun handler => (handler, skb)

/-- `virtio_net::write`: the memory and the buffer that are handed to the queue. -/
def virtioNetWrite (net : VirtioNet) (memory : Mem) (skb : Sockbuf) (dest : Mac)
    (type : Ethertype) : Mem × Sockbuf :=
  let (eHdr, skb) := skb.addHeader ethernetHdrBytes .ethernet
  let memory := memory.write eHdr dest.bytes
  let memory := memory.write (eHdr + 6) net.addr.bytes
  let ethertype := if type = .unknown then sub64 skb.size ethernetHdrBytes else type.value
  let memory := memory.store (eHdr + 12) (bswap16 ethertype) 2
  let (vHdr, skb) := skb.addHeader virtioNetHdrBytes .virtio
  (memory.write vHdr (List.replicate virtioNetHdrBytes 0), skb)

/-- `virtio_net::headers_size`. -/
def virtioNetHeadersSize : Nat := virtioNetHdrBytes + ethernetHdrBytes

/-! ## The network layer -/

/-- The fields of an `ip_hdr` that `ipv4::write` fills, in their order. -/
def ipFields (len proto csum saddr daddr : Nat) : List (Nat × Nat) :=
  [(1, versionIhlIpv4), (1, 0), (2, bswap16 len), (2, 0), (2, 0), (1, 64), (1, proto), (2, csum),
    (4, bswap32 saddr), (4, bswap32 daddr)]

/-- `ipv4::write`, given what `arp::resolve` finds for the gateway. `none` is `E_UNREACHABLE`. -/
def ipv4Write (net : VirtioNet) (ip : Ipv4) (resolved : Option Mac) (memory : Mem) (skb : Sockbuf)
    (dest proto : Nat) : Option (Mem × Sockbuf) :=
  resolved.map fun destination =>
    let (hdr, skb) := skb.addHeader ipHdrBytes .ip
    let memory := memory.storeFields hdr (ipFields skb.size proto 0 ip.addr dest)
    let memory := memory.store (hdr + 10) (ipChecksum memory hdr ipHdrBytes 0) 2
    virtioNetWrite net memory skb destination .ipv4

/-- `ipv4::headers_size`. -/
def ipv4HeadersSize : Nat := ipHdrBytes + virtioNetHeadersSize

/-! ## The transport layer -/

/-- `sizeof(tcp_header)`. -/
def tcpHdrBytes : Nat := 20

/-- `ipproto_t::tcp`. -/
def ipprotoTcp : Nat := 6

/-- A `tcp_header`, with its fields in host order. The checksum is the word in memory, which is
never swapped. -/
structure TcpHeader where
  sourcePort : UInt16
  destPort : UInt16
  seq : UInt32
  ack : UInt32
  headerLen : UInt8
  flags : UInt8
  windowSize : UInt16
  csum : UInt16
  urp : UInt16
  deriving DecidableEq

/-- The fields of a `tcp_header` in memory, in their order. -/
def TcpHeader.fields (header : TcpHeader) : List (Nat × Nat) :=
  [(2, bswap16 header.sourcePort.toNat), (2, bswap16 header.destPort.toNat),
    (4, bswap32 header.seq.toNat), (4, bswap32 header.ack.toNat), (1, header.headerLen.toNat),
    (1, header.flags.toNat), (2, bswap16 header.windowSize.toNat), (2, header.csum.toNat),
    (2, bswap16 header.urp.toNat)]

/-- The `tcp_header` at an address. -/
def loadTcpHeader (memory : Mem) (hdr : Nat) : TcpHeader where
  sourcePort := UInt16.ofNat (bswap16 (memory.load hdr 2))
  destPort := UInt16.ofNat (bswap16 (memory.load (hdr + 2) 2))
  seq := UInt32.ofNat (bswap32 (memory.load (hdr + 4) 4))
  ack := UInt32.ofNat (bswap32 (memory.load (hdr + 8) 4))
  headerLen := UInt8.ofNat (memory.load (hdr + 12) 1)
  flags := UInt8.ofNat (memory.load (hdr + 13) 1)
  windowSize := UInt16.ofNat (bswap16 (memory.load (hdr + 14) 2))
  csum := UInt16.ofNat (memory.load (hdr + 16) 2)
  urp := UInt16.ofNat (bswap16 (memory.load (hdr + 18) 2))

/-- The header that the senders of `tcp_socket.cpp` fill in: they differ in these six fields. -/
def outgoingHeader (sourcePort destPort : UInt16) (seq ack : UInt32) (flags : UInt8)
    (windowSize : UInt16) : TcpHeader where
  sourcePort := sourcePort
  destPort := destPort
  seq := seq
  ack := ack
  headerLen := UInt8.ofNat (tcpHdrBytes / 4 * 16)
  flags := flags
  windowSize := windowSize
  csum := 0
  urp := 0

/-- The fields of an `ipv4_pseudo_header`, in their order. -/
def pseudoFields (sourceAddr destAddressNetworkOrder tcpLength : Nat) : List (Nat × Nat) :=
  [(4, bswap32 sourceAddr), (4, destAddressNetworkOrder), (1, 0), (1, ipprotoTcp),
    (2, bswap16 tcpLength)]

/-- `tcp_checksum`: the words of the pseudo header start the sum. -/
def tcpChecksum (ip : Ipv4) (memory : Mem) (skb : Sockbuf) (destAddressNetworkOrder : Nat) : Nat :=
  let sourceAddr := bswap32 ip.addr
  let words := [sourceAddr % 2 ^ 16, sourceAddr / 2 ^ 16, destAddressNetworkOrder % 2 ^ 16,
    destAddressNetworkOrder / 2 ^ 16, ipprotoTcp * 256, bswap16 (skb.payloadSize + tcpHdrBytes)]
  let initialCsum := words.foldl (fun csum word => (csum + word) % 2 ^ 32) 0
  ipChecksum memory (skb.headers .tcp) (tcpHdrBytes + skb.payloadSize) initialCsum

/-- `tcp::send`. -/
def tcpSend (net : VirtioNet) (ip : Ipv4) (resolved : Option Mac) (memory : Mem) (skb : Sockbuf)
    (remoteAddr : Nat) : Option (Mem × Sockbuf) :=
  let csum := tcpChecksum ip memory skb (bswap32 remoteAddr)
  let memory := memory.store (skb.headers .tcp + 16) csum 2
  ipv4Write net ip resolved memory skb remoteAddr ipprotoTcp

/-- `tcp::headers_size`. -/
def tcpHeadersSize : Nat := ipv4HeadersSize + tcpHdrBytes

/-- Send a payload with a header: the constructor copies the payload behind the room for the
headers, the sender fills in the header, and `tcp::send` does the rest. -/
def transmit (net : VirtioNet) (ip : Ipv4) (resolved : Option Mac) (memory : Mem) (start : Nat)
    (header : TcpHeader) (payload : List UInt8) (remoteAddr : Nat) : Option (Mem × Sockbuf) :=
  let skb := Sockbuf.allocated start tcpHeadersSize payload.length
  let memory := memory.write skb.payload payload
  let (hdr, skb) := skb.addHeader tcpHdrBytes .tcp
  tcpSend net ip resolved (memory.storeFields hdr header.fields) skb remoteAddr

/-- The bytes from `data()` to `data() + size()`. -/
def frame (memory : Mem) (skb : Sockbuf) : List UInt8 :=
  memory.read skb.data skb.size

/-! ## Byte order -/

theorem bswap32_lt (value : Nat) : bswap32 value < 2 ^ 32 := by
  have hhigh := bswap16_lt (value % 2 ^ 16)
  have hlow := bswap16_lt (value / 2 ^ 16)
  unfold bswap32
  omega

theorem bswap16_bytes {high low : Nat} (hhigh : high < 256) (hlow : low < 256) :
    bswap16 (high * 256 + low) = low * 256 + high := by
  unfold bswap16
  omega

theorem bswap16_bswap16 {value : Nat} (h : value < 2 ^ 16) : bswap16 (bswap16 value) = value := by
  have hhigh : value / 256 < 256 := by omega
  have hlow : value % 256 < 256 := by omega
  have hvalue : value / 256 * 256 + value % 256 = value := Nat.div_add_mod' value 256
  rw [← hvalue, bswap16_bytes hhigh hlow, bswap16_bytes hlow hhigh]

theorem bswap32_halves {high low : Nat} (hlow : low < 2 ^ 16) :
    bswap32 (high * 2 ^ 16 + low) = bswap16 low * 2 ^ 16 + bswap16 high := by
  have hmod : (high * 2 ^ 16 + low) % 2 ^ 16 = low := by omega
  have hdiv : (high * 2 ^ 16 + low) / 2 ^ 16 = high := by omega
  rw [bswap32, hmod, hdiv]

theorem bswap32_bswap32 {value : Nat} (h : value < 2 ^ 32) : bswap32 (bswap32 value) = value := by
  have hhigh : value / 2 ^ 16 < 2 ^ 16 := by omega
  have hlow : value % 2 ^ 16 < 2 ^ 16 := by omega
  rw [bswap32.eq_def value, bswap32_halves (bswap16_lt _), bswap16_bswap16 hhigh,
    bswap16_bswap16 hlow]
  exact Nat.div_add_mod' value (2 ^ 16)

theorem bswap16_loaded (value : UInt16) :
    bswap16 (bswap16 value.toNat % 256 ^ 2) = value.toNat := by
  have hlt : bswap16 value.toNat < 256 ^ 2 := bswap16_lt _
  rw [Nat.mod_eq_of_lt hlt, bswap16_bswap16 value.toNat_lt]

theorem bswap32_loaded (value : UInt32) :
    bswap32 (bswap32 value.toNat % 256 ^ 4) = value.toNat := by
  have hlt : bswap32 value.toNat < 256 ^ 4 := bswap32_lt _
  rw [Nat.mod_eq_of_lt hlt, bswap32_bswap32 value.toNat_lt]

/-- Where the fields of a header lie, the header is read. -/
theorem load_tcp_header {memory : Mem} {hdr : Nat} {header : TcpHeader}
    (h : memory.Holds hdr (Mem.fieldBytes header.fields)) : loadTcpHeader memory hdr = header := by
  obtain ⟨hsource, h⟩ := h.field
  obtain ⟨hdest, h⟩ := h.field
  obtain ⟨hseq, h⟩ := h.field
  obtain ⟨hack, h⟩ := h.field
  obtain ⟨hlen, h⟩ := h.field
  obtain ⟨hflags, h⟩ := h.field
  obtain ⟨hwindow, h⟩ := h.field
  obtain ⟨hcsum, h⟩ := h.field
  obtain ⟨hurp, _⟩ := h.field
  simp only [Nat.add_assoc, Nat.reduceAdd] at hdest hseq hack hlen hflags hwindow hcsum hurp
  simp only [loadTcpHeader, hsource, hdest, hseq, hack, hlen, hflags, hwindow, hcsum, hurp,
    bswap16_loaded, bswap32_loaded]
  simp

theorem leSum_pseudoFields {sourceAddr destAddr : Nat} (tcpLength : Nat) (hdest : destAddr < 2 ^ 32) :
    leSum (Mem.fieldBytes (pseudoFields sourceAddr destAddr tcpLength)) =
      [bswap32 sourceAddr % 2 ^ 16, bswap32 sourceAddr / 2 ^ 16, destAddr % 2 ^ 16,
        destAddr / 2 ^ 16, ipprotoTcp * 256, bswap16 tcpLength].sum := by
  have hsource := bswap32_lt sourceAddr
  have hlength := bswap16_lt tcpLength
  simp only [leSum, pseudoFields, Mem.fieldBytes, List.flatMap_cons, List.flatMap_nil, Mem.leBytes,
    List.cons_append, List.nil_append, List.append_nil, leWords, List.sum_cons, List.sum_nil,
    UInt8.toNat_ofNat', ipprotoTcp]
  omega

/-- `tcp_checksum` sums over the pseudo header and the segment. -/
theorem tcp_checksum_eq (ip : Ipv4) (memory : Mem) (skb : Sockbuf) {destAddr : Nat}
    (hdest : destAddr < 2 ^ 32) :
    tcpChecksum ip memory skb destAddr =
      foldOnce (leSum (Mem.fieldBytes (pseudoFields ip.addr destAddr
          (tcpHdrBytes + skb.payloadSize))) +
        leSum (memory.read (skb.headers .tcp) (tcpHdrBytes + skb.payloadSize))) := by
  have hsource := bswap32_lt ip.addr
  have hlength := bswap16_lt (skb.payloadSize + tcpHdrBytes)
  have hsmall : [bswap32 ip.addr % 2 ^ 16, bswap32 ip.addr / 2 ^ 16, destAddr % 2 ^ 16,
      destAddr / 2 ^ 16, ipprotoTcp * 256, bswap16 (skb.payloadSize + tcpHdrBytes)].sum <
        2 ^ 32 := by
    simp only [List.sum_cons, List.sum_nil, ipprotoTcp]
    omega
  have hwords := foldl_add_mod id [bswap32 ip.addr % 2 ^ 16, bswap32 ip.addr / 2 ^ 16,
    destAddr % 2 ^ 16, destAddr / 2 ^ 16, ipprotoTcp * 256,
    bswap16 (skb.payloadSize + tcpHdrBytes)] (by decide : 0 < 2 ^ 32)
  rw [List.map_id, Nat.zero_add, Nat.mod_eq_of_lt hsmall] at hwords
  unfold tcpChecksum
  rw [leSum_pseudoFields _ hdest, Nat.add_comm tcpHdrBytes skb.payloadSize,
    ← ip_checksum_eq memory _ _ hsmall, ← hwords]
  rfl

/-! ## Prepending headers -/

/-- The buffer holds the bytes from its head on, and there is just enough room in front of them for
the headers that are still to come. -/
structure Carries (memory : Mem) (skb : Sockbuf) (pending : List (SockbufHeader × Nat))
    (bytes : List UInt8) : Prop where
  holds : memory.Holds skb.head bytes
  size_eq : skb.size = bytes.length
  room : skb.head = skb.start + (pending.map Prod.snd).sum
  inFront : skb.head ≤ skb.payload
  new : ∀ header ∈ pending, skb.headers header.1 = 0
  distinct : (pending.map Prod.fst).Nodup

namespace Carries

variable {memory : Mem} {skb : Sockbuf} {pending : List (SockbufHeader × Nat)}
  {bytes : List UInt8} {type : SockbufHeader} {headerSize : Nat}

theorem of_holds (h : Carries memory skb pending bytes) {after : Mem} {replaced : List UInt8}
    (hlength : replaced.length = bytes.length) (hholds : after.Holds skb.head replaced) :
    Carries after skb pending replaced where
  holds := hholds
  size_eq := h.size_eq.trans hlength.symm
  room := h.room
  inFront := h.inFront
  new := h.new
  distinct := h.distinct

/-- A new buffer with room for the headers in front of the payload. -/
theorem of_allocated (memory : Mem) (start : Nat) {headersSize : Nat} (payload : List UInt8)
    (hroom : headersSize = (pending.map Prod.snd).sum)
    (hdistinct : (pending.map Prod.fst).Nodup) :
    Carries (memory.write (Sockbuf.allocated start headersSize payload.length).payload payload)
      (Sockbuf.allocated start headersSize payload.length) pending payload where
  holds := Mem.holds_write _ _ _
  size_eq := by simp [Sockbuf.size, Sockbuf.allocated]
  room := congrArg (start + ·) hroom
  inFront := Nat.le_refl _
  new := fun _ _ => rfl
  distinct := hdistinct

/-- The next header: `add_header` returns the new head, and the header is written there. -/
theorem prepend (h : Carries memory skb ((type, headerSize) :: pending) bytes)
    (header : List UInt8) (hlength : header.length = headerSize) :
    ∃ after : Sockbuf, skb.addHeader headerSize type = (after.head, after) ∧
      after.head + headerSize = skb.head ∧
      after.headers = Function.update skb.headers type after.head ∧
      after.size = headerSize + bytes.length ∧ after.payloadSize = skb.payloadSize ∧
      Carries (memory.write after.head header) after pending (header ++ bytes) := by
  have hroom := h.room
  simp only [List.map_cons, List.sum_cons] at hroom
  have hnew : skb.headers type = 0 := h.new _ List.mem_cons_self
  have hinFront := h.inFront
  have hsize := h.size_eq
  have hhead : skb.head - headerSize + headerSize = skb.head := by omega
  obtain ⟨hfresh, hdistinct⟩ := List.nodup_cons.mp h.distinct
  unfold Sockbuf.size at hsize
  have hgrown : skb.payload - (skb.head - headerSize) + skb.payloadSize =
      headerSize + bytes.length := by
    omega
  refine ⟨{ skb with
      head := skb.head - headerSize
      headers := Function.update skb.headers type (skb.head - headerSize) },
    skb.add_header_of_le headerSize type hnew (by omega), hhead, rfl, hgrown, rfl, ?_, ?_, ?_, ?_,
    ?_, hdistinct⟩
  · refine Mem.holds_append.mpr ⟨Mem.holds_write _ _ _, ?_⟩
    rw [hlength, hhead]
    exact h.holds.write _ (Or.inr (by rw [hlength, hhead]))
  · rw [List.length_append, hlength]
    exact hgrown
  · show skb.head - headerSize = skb.start + (pending.map Prod.snd).sum
    omega
  · exact Nat.le_trans (Nat.sub_le _ _) hinFront
  · intro other hmem
    have hne : other.1 ≠ type := by
      intro heq
      have hused : other.1 ∈ pending.map Prod.fst := List.mem_map_of_mem hmem
      exact hfresh (heq ▸ hused)
    exact (Function.update_of_ne hne _ _).trans (h.new other (List.mem_cons_of_mem _ hmem))

theorem store_field (front : List (Nat × Nat)) {back : List (Nat × Nat)} {width old : Nat}
    (h : Carries memory skb pending (Mem.fieldBytes (front ++ (width, old) :: back) ++ bytes))
    (value : Nat) :
    Carries (memory.store (skb.head + (Mem.fieldBytes front).length) value width) skb pending
      (Mem.fieldBytes (front ++ (width, value) :: back) ++ bytes) := by
  have hlength : ∀ content, (Mem.fieldBytes (front ++ (width, content) :: back)).length =
      (Mem.fieldBytes front).length + (width + (Mem.fieldBytes back).length) := by
    intro content
    simp [Mem.fieldBytes]
  obtain ⟨hheader, hrest⟩ := Mem.holds_append.mp h.holds
  refine h.of_holds ?_ (Mem.holds_append.mpr ⟨hheader.store_field front value, ?_⟩)
  · rw [List.length_append, List.length_append, hlength, hlength]
  · rw [hlength] at hrest ⊢
    rw [Mem.store_eq_write]
    refine hrest.write _ (Or.inr ?_)
    rw [Mem.length_leBytes]
    omega

theorem frame_eq (h : Carries memory skb [] bytes) : frame memory skb = bytes := by
  have hdata : skb.data = skb.head := by
    have hroom : skb.head = skb.start := h.room
    unfold Sockbuf.data
    split
    · exact hroom.symm
    · rfl
  rw [frame, hdata, h.size_eq]
  exact h.holds

end Carries

/-! ## The layers -/

/-- The bytes of an `ethernet_hdr`. -/
def ethernetBytes (dest source : Mac) (type : Ethertype) : List UInt8 :=
  dest.bytes ++ (source.bytes ++ Mem.leBytes (bswap16 type.value) 2)

/-- The bytes of the two headers of the link. -/
def linkBytes (dest source : Mac) (type : Ethertype) : List UInt8 :=
  List.replicate virtioNetHdrBytes 0 ++ ethernetBytes dest source type

/-- The headers of the link, from the inside out. -/
def linkHeaders : List (SockbufHeader × Nat) :=
  [(.ethernet, ethernetHdrBytes), (.virtio, virtioNetHdrBytes)]

/-- The headers of the link have the size that the link announces. -/
theorem length_linkBytes (dest source : Mac) (type : Ethertype) :
    (linkBytes dest source type).length = virtioNetHeadersSize := by
  simp [linkBytes, ethernetBytes, dest.length_eq, source.length_eq, virtioNetHeadersSize,
    ethernetHdrBytes]

section Layers

variable {memory : Mem} {skb : Sockbuf} {bytes : List UInt8}

/-- `virtio_net::write` prepends the headers of the link. -/
theorem Carries.virtio_net_write (h : Carries memory skb linkHeaders bytes) (net : VirtioNet)
    (dest : Mac) {type : Ethertype} (hknown : type ≠ .unknown) :
    ∃ (after : Mem) (sent : Sockbuf), virtioNetWrite net memory skb dest type = (after, sent) ∧
      sent.head + virtioNetHeadersSize = skb.head ∧ sent.headers .tcp = skb.headers .tcp ∧
      Carries after sent [] (linkBytes dest net.addr type ++ bytes) := by
  have hethernet : (ethernetBytes dest net.addr type).length = ethernetHdrBytes := by
    simp [ethernetBytes, dest.length_eq, net.addr.length_eq, ethernetHdrBytes]
  obtain ⟨framed, hadd, hhead, hheaders, _, _, hcarries⟩ := h.prepend _ hethernet
  obtain ⟨sent, hadd', hhead', hheaders', _, _, hcarries'⟩ :=
    hcarries.prepend (List.replicate virtioNetHdrBytes 0) List.length_replicate
  have hwrites : ((memory.write framed.head dest.bytes).write (framed.head + 6)
      net.addr.bytes).store (framed.head + 12) (bswap16 type.value) 2 =
      memory.write framed.head (ethernetBytes dest net.addr type) := by
    rw [ethernetBytes, Mem.write_append, Mem.write_append, Mem.store_eq_write, dest.length_eq,
      net.addr.length_eq, Nat.add_assoc]
  have hcall : virtioNetWrite net memory skb dest type =
      ((memory.write framed.head (ethernetBytes dest net.addr type)).write sent.head
        (List.replicate virtioNetHdrBytes 0), sent) := by
    simp only [virtioNetWrite, hadd, hadd', if_neg hknown, hwrites]
  refine ⟨_, sent, hcall, ?_, ?_, ?_⟩
  · rw [virtioNetHeadersSize, ← Nat.add_assoc, hhead', hhead]
  · rw [hheaders', hheaders]
    rfl
  · rw [linkBytes, List.append_assoc]
    exact hcarries'

/-- `ipv4::write` prepends its header and those of the link. -/
theorem Carries.ipv4_write (h : Carries memory skb ((.ip, ipHdrBytes) :: linkHeaders) bytes)
    (net : VirtioNet) (ip : Ipv4) (destination : Mac) (dest proto : Nat) :
    ∃ (after : Mem) (sent : Sockbuf) (csum : Nat),
      csum = foldOnce (leSum (Mem.fieldBytes
        (ipFields (ipHdrBytes + bytes.length) proto 0 ip.addr dest))) ∧
      ipv4Write net ip (some destination) memory skb dest proto = some (after, sent) ∧
      sent.head + ipv4HeadersSize = skb.head ∧ sent.headers .tcp = skb.headers .tcp ∧
      Carries after sent [] (linkBytes destination net.addr .ipv4 ++
        (Mem.fieldBytes (ipFields (ipHdrBytes + bytes.length) proto csum ip.addr dest) ++ bytes)) := by
  obtain ⟨routed, hadd, hhead, hheaders, hsize, _, hcarries⟩ :=
    h.prepend (Mem.fieldBytes (ipFields (ipHdrBytes + bytes.length) proto 0 ip.addr dest)) rfl
  rw [← Mem.storeFields_eq_write] at hcarries
  let filled := memory.storeFields routed.head
    (ipFields (ipHdrBytes + bytes.length) proto 0 ip.addr dest)
  let csum := ipChecksum filled routed.head ipHdrBytes 0
  have hcsum : csum = foldOnce (leSum (Mem.fieldBytes
      (ipFields (ipHdrBytes + bytes.length) proto 0 ip.addr dest))) := by
    have hsum := ip_checksum_holds (Mem.holds_append.mp hcarries.holds).1 (by decide : 0 < 2 ^ 32)
    rw [Nat.zero_add] at hsum
    exact hsum
  have hsummed : Carries (filled.store (routed.head + 10) csum 2) routed linkHeaders
      (Mem.fieldBytes (ipFields (ipHdrBytes + bytes.length) proto csum ip.addr dest) ++ bytes) :=
    hcarries.store_field ((ipFields (ipHdrBytes + bytes.length) proto 0 ip.addr dest).take 7) csum
  have hknown : Ethertype.ipv4 ≠ .unknown := by decide
  obtain ⟨after, sent, hwrite, hhead', hheaders', hcarries'⟩ :=
    hsummed.virtio_net_write net destination hknown
  refine ⟨after, sent, csum, hcsum, ?_, ?_, ?_, hcarries'⟩
  · simp only [ipv4Write, Option.map_some, hadd, hsize]
    exact congrArg some hwrite
  · rw [ipv4HeadersSize, Nat.add_comm ipHdrBytes, ← Nat.add_assoc, hhead', hhead]
  · rw [hheaders', hheaders]
    rfl

/-- `tcp::send` sets the checksum of the header and prepends the others. -/
theorem Carries.tcp_send {header : TcpHeader} {payload : List UInt8}
    (h : Carries memory skb ((.ip, ipHdrBytes) :: linkHeaders)
      (Mem.fieldBytes header.fields ++ payload))
    (hhdr : skb.headers .tcp = skb.head) (hpayload : skb.payloadSize = payload.length)
    (net : VirtioNet) (ip : Ipv4) (destination : Mac) (remoteAddr : Nat) :
    ∃ (after : Mem) (sent : Sockbuf) (csum : UInt16) (ipCsum : Nat),
      csum.toNat = foldOnce (leSum (Mem.fieldBytes (pseudoFields ip.addr (bswap32 remoteAddr)
        (tcpHdrBytes + payload.length))) + leSum (Mem.fieldBytes header.fields ++ payload)) ∧
      ipCsum = foldOnce (leSum (Mem.fieldBytes (ipFields
        (ipHdrBytes + (tcpHdrBytes + payload.length)) ipprotoTcp 0 ip.addr remoteAddr))) ∧
      tcpSend net ip (some destination) memory skb remoteAddr = some (after, sent) ∧
      sent.headers .tcp = sent.head + ipv4HeadersSize ∧
      Carries after sent [] (linkBytes destination net.addr .ipv4 ++
        (Mem.fieldBytes (ipFields (ipHdrBytes + (tcpHdrBytes + payload.length)) ipprotoTcp ipCsum
          ip.addr remoteAddr) ++
        (Mem.fieldBytes { header with csum := csum }.fields ++ payload))) := by
  let csum := tcpChecksum ip memory skb (bswap32 remoteAddr)
  have hsum : (UInt16.ofNat csum).toNat = csum :=
    UInt16.toNat_ofNat_of_lt (Nat.mod_lt _ (by decide))
  have hvalue : csum = foldOnce (leSum (Mem.fieldBytes (pseudoFields ip.addr (bswap32 remoteAddr)
      (tcpHdrBytes + payload.length))) + leSum (Mem.fieldBytes header.fields ++ payload)) := by
    have hlength : (Mem.fieldBytes header.fields ++ payload).length =
        tcpHdrBytes + payload.length := List.length_append
    have hread := h.holds
    rw [Mem.Holds, hlength] at hread
    have hchecksum := tcp_checksum_eq ip memory skb (bswap32_lt remoteAddr)
    rwa [hhdr, hpayload, hread] at hchecksum
  have hsummed : Carries (memory.store (skb.head + 16) (UInt16.ofNat csum).toNat 2) skb
      ((.ip, ipHdrBytes) :: linkHeaders)
      (Mem.fieldBytes { header with csum := UInt16.ofNat csum }.fields ++ payload) :=
    h.store_field (header.fields.take 7) (UInt16.ofNat csum).toNat
  obtain ⟨after, sent, ipCsum, hipCsum, hwrite, hhead, hheaders, hcarries⟩ :=
    hsummed.ipv4_write net ip destination remoteAddr ipprotoTcp
  rw [hsum, ← hhdr] at hwrite
  rw [List.length_append] at hcarries hipCsum
  exact ⟨after, sent, UInt16.ofNat csum, ipCsum, hsum.trans hvalue, hipCsum, hwrite,
    by rw [hheaders, hhdr, hhead], hcarries⟩

end Layers

/-- What is sent: the bytes of the packet, and the header in the buffer. -/
theorem transmit_eq (net : VirtioNet) (ip : Ipv4) (destination : Mac) (memory : Mem) (start : Nat)
    (header : TcpHeader) (payload : List UInt8) (remoteAddr : Nat) :
    ∃ (after : Mem) (sent : Sockbuf) (csum : UInt16) (ipCsum : Nat),
      csum.toNat = foldOnce (leSum (Mem.fieldBytes (pseudoFields ip.addr (bswap32 remoteAddr)
        (tcpHdrBytes + payload.length))) + leSum (Mem.fieldBytes header.fields ++ payload)) ∧
      ipCsum = foldOnce (leSum (Mem.fieldBytes (ipFields
        (ipHdrBytes + (tcpHdrBytes + payload.length)) ipprotoTcp 0 ip.addr remoteAddr))) ∧
      transmit net ip (some destination) memory start header payload remoteAddr =
        some (after, sent) ∧
      loadTcpHeader after (sent.headers .tcp) = { header with csum := csum } ∧
      frame after sent = linkBytes destination net.addr .ipv4 ++
        (Mem.fieldBytes (ipFields (ipHdrBytes + (tcpHdrBytes + payload.length)) ipprotoTcp ipCsum
          ip.addr remoteAddr) ++
        (Mem.fieldBytes { header with csum := csum }.fields ++ payload)) := by
  have hinitial : Carries
      (memory.write (Sockbuf.allocated start tcpHeadersSize payload.length).payload payload)
      (Sockbuf.allocated start tcpHeadersSize payload.length)
      ((.tcp, tcpHdrBytes) :: (.ip, ipHdrBytes) :: linkHeaders) payload :=
    Carries.of_allocated memory start payload rfl (by decide)
  obtain ⟨filled, hadd, _, hheaders, _, hpayload, hcarries⟩ :=
    hinitial.prepend (Mem.fieldBytes header.fields) rfl
  rw [← Mem.storeFields_eq_write] at hcarries
  have hhdr : filled.headers .tcp = filled.head := by
    rw [hheaders]
    rfl
  obtain ⟨after, sent, csum, ipCsum, hcsum, hipCsum, hsend, hlocation, hsent⟩ :=
    hcarries.tcp_send hhdr hpayload net ip destination remoteAddr
  refine ⟨after, sent, csum, ipCsum, hcsum, hipCsum, ?_, ?_, hsent.frame_eq⟩
  · simp only [transmit, hadd]
    exact hsend
  · have hbytes := (Mem.holds_append.mp (Mem.holds_append.mp
      (Mem.holds_append.mp hsent.holds).2).2).1
    rw [length_linkBytes, Nat.add_assoc, Nat.add_comm virtioNetHeadersSize] at hbytes
    rw [hlocation]
    exact load_tcp_header hbytes

/-! ## The receiving host -/

/-- The IP layer gets the frames of its type, and the TCP layer the packets of its protocol. -/
def Subscribed (net : VirtioNet) (ip : Ipv4) : Prop :=
  (net.rxHandlers.find? fun slot => slot.type.value = Ethertype.ipv4.value).bind
      LinkRxHandler.handler = some .ipv4 ∧
    ∃ queues, (ip.rxHandlers.find? fun slot => slot.type = ipprotoTcp).bind RxHandler.handler =
      some (.tcp queues)

/-- The host parses the frame as a TCP packet: `rx_thread` passes it to the IP layer, and what
`tcp::process_packet` parses of the buffer that it is given are the header and the payload. -/
def Parses (net : VirtioNet) (ip : Ipv4) (memory : Mem) (data size : Nat) (header : TcpHeader)
    (payload : List UInt8) : Prop :=
  ∃ skb given queues rest, rxThread net memory data size = some (.ipv4, skb) ∧
    processPacket ip memory skb = ⟨.tcp queues, given⟩ :: rest ∧
    loadTcpHeader memory ((tcpProcessPacket memory given).1.headers .tcp) = header ∧
    (tcpProcessPacket memory given).1.payloadSize = payload.length ∧
    memory.read (tcpProcessPacket memory given).1.payload payload.length = payload

section Receive

variable {net : VirtioNet} {ip : Ipv4} {memory : Mem} {data size : Nat}

/-- A frame for the host is passed to the handler of its type. -/
theorem rx_thread_eq {source : Mac} {type : Ethertype} {handler : LinkHandler}
    (hsize : virtioNetHdrBytes + ethernetHdrBytes ≤ size)
    (hholds : memory.Holds data (linkBytes net.addr source type))
    (hfound : (net.rxHandlers.find? fun slot => slot.type.value = type.value).bind
      LinkRxHandler.handler = some handler) :
    rxThread net memory data size = some (handler, receivedSockbuf data size) := by
  obtain ⟨_, hethernet⟩ := Mem.holds_append.mp hholds
  obtain ⟨hdmac, hrest⟩ := Mem.holds_append.mp hethernet
  obtain ⟨_, htype⟩ := Mem.holds_append.mp hrest
  have hhdr : (receivedSockbuf data size).headers .ethernet = data + virtioNetHdrBytes := by
    rw [received_sockbuf_of_le data hsize]
    rfl
  have hdmac : memory.read (data + virtioNetHdrBytes) 6 = net.addr.bytes := by
    rw [List.length_replicate] at hdmac
    rw [← net.addr.length_eq]
    exact hdmac
  have hvalue : bswap16 (memory.load (data + virtioNetHdrBytes + 12) 2) = type.value := by
    rw [List.length_replicate, net.addr.length_eq, source.length_eq, Nat.add_assoc _ 6 6] at htype
    rw [htype.load_eq]
    cases type <;> rfl
  unfold rxThread
  simp only [hhdr, hdmac, ne_eq, not_true_eq_false, and_false, if_false, hvalue, hfound,
    Option.map_some]

/-- What `process_packet` reads of a header that `ipv4::write` filled in. -/
theorem ip_fields_read {hdr len proto csum saddr daddr : Nat}
    (h : memory.Holds hdr (Mem.fieldBytes (ipFields len proto csum saddr daddr)))
    (hlen : len < 2 ^ 16) (hproto : proto < 256) :
    memory.load hdr 1 = versionIhlIpv4 ∧ totalLength memory hdr = len ∧
      protocol memory hdr = proto ∧ memory.load (hdr + 16) 4 = bswap32 daddr := by
  obtain ⟨hversion, h⟩ := h.field
  obtain ⟨_, h⟩ := h.field
  obtain ⟨hlength, h⟩ := h.field
  obtain ⟨_, h⟩ := h.field
  obtain ⟨_, h⟩ := h.field
  obtain ⟨_, h⟩ := h.field
  obtain ⟨hprotocol, h⟩ := h.field
  obtain ⟨_, h⟩ := h.field
  obtain ⟨_, h⟩ := h.field
  obtain ⟨hdest, _⟩ := h.field
  simp only [Nat.add_assoc, Nat.reduceAdd] at hlength hprotocol hdest
  have hswapped : bswap16 len < 256 ^ 2 := bswap16_lt len
  refine ⟨hversion, ?_, ?_, ?_⟩
  · rw [totalLength, hlength, Nat.mod_eq_of_lt hswapped, bswap16_bswap16 hlen]
  · rw [protocol, hprotocol, Nat.pow_one, Nat.mod_eq_of_lt hproto]
  · rw [hdest]
    exact Nat.mod_eq_of_lt (bswap32_lt daddr)

/-- A packet to the host that passes the checksum test is passed to the handler of its protocol, with
the payload that the packet was sent with. -/
theorem process_packet_of_holds {length proto csum saddr : Nat} {handler : L3Handler}
    (hholds : memory.Holds (ipHeader data)
      (Mem.fieldBytes (ipFields (ipHdrBytes + length) proto csum saddr ip.addr)))
    (hchecked : ipChecksum memory (ipHeader data) ipHdrBytes 0 = 0)
    (hlength : ipHdrBytes + length < 2 ^ 16) (hproto : proto < 256)
    (hsize : virtioNetHdrBytes + ethernetHdrBytes + ipHdrBytes ≤ size)
    (hfound : (ip.rxHandlers.find? fun slot => slot.type = proto).bind RxHandler.handler =
      some handler) :
    ∃ skb rest, processPacket ip memory (receivedSockbuf data size) = ⟨handler, skb⟩ :: rest ∧
      skb.payload = ipHeader data + ipHdrBytes ∧ skb.head = skb.payload ∧
      skb.payloadSize = length ∧ skb.headers .tcp = 0 := by
  obtain ⟨hversion, htotal, hprotocol, hdest⟩ := ip_fields_read hholds hlength hproto
  obtain ⟨skb, hpayload, hhead, hbytes, hnew, hprocess⟩ := process_packet_eq ip memory data hsize
  have haccepted : headerAccepted ip memory (ipHeader data) = true :=
    decide_eq_true ⟨hchecked, hversion, Or.inl hdest⟩
  obtain ⟨rest, hfirst⟩ := dispatch_head hfound
  refine ⟨skb, rest, ?_, hpayload, hhead, ?_, hnew⟩
  · rw [hprocess, if_pos haccepted, hprotocol, hfirst]
  · rw [hbytes, htotal, sub64_of_le (Nat.le_add_right _ _) (by omega), Nat.add_sub_cancel_left]

/-- What `tcp::process_packet` parses of a buffer with a header at its front. -/
theorem tcp_process_packet_of_holds {skb : Sockbuf} {header : TcpHeader}
    (hholds : memory.Holds skb.payload (Mem.fieldBytes header.fields))
    (hlen : header.headerLen = UInt8.ofNat (tcpHdrBytes / 4 * 16)) (hhead : skb.head = skb.payload)
    (hnew : skb.headers .tcp = 0) (hsize : tcpHdrBytes ≤ skb.payloadSize) :
    loadTcpHeader memory ((tcpProcessPacket memory skb).1.headers .tcp) = header ∧
      (tcpProcessPacket memory skb).1.payload = skb.payload + tcpHdrBytes ∧
      (tcpProcessPacket memory skb).1.payloadSize = skb.payloadSize - tcpHdrBytes := by
  have hread := load_tcp_header hholds
  have hheaderSize : tcpHeaderSize memory skb = tcpHdrBytes := by
    have hbyte : UInt8.ofNat (memory.load (skb.payload + 12) 1) = UInt8.ofNat 80 :=
      (congrArg TcpHeader.headerLen hread).trans hlen
    have hvalue := congrArg UInt8.toNat hbyte
    rw [UInt8.toNat_ofNat_of_lt' (memory.load_lt _ 1)] at hvalue
    rw [tcpHeaderSize, hvalue]
    rfl
  unfold tcpProcessPacket
  rw [hheaderSize, skb.add_parsed_header_of_le _ _ hnew hsize]
  refine ⟨?_, rfl, rfl⟩
  show loadTcpHeader memory (Function.update skb.headers .tcp skb.head .tcp) = header
  rw [Function.update_self, hhead, hread]

/-- The receive path parses a frame of these bytes. -/
theorem parses_of_holds {source : Mac} {header : TcpHeader} {payload : List UInt8}
    {csum saddr : Nat} (hsubscribed : Subscribed net ip)
    (hheader : header.headerLen = UInt8.ofNat (tcpHdrBytes / 4 * 16))
    (hlength : payload.length + 40 ≤ 65535) (hsize : payload.length + 64 ≤ size)
    (hholds : memory.Holds data (linkBytes net.addr source .ipv4 ++
      (Mem.fieldBytes (ipFields (ipHdrBytes + (tcpHdrBytes + payload.length)) ipprotoTcp csum saddr
        ip.addr) ++ (Mem.fieldBytes header.fields ++ payload))))
    (hchecked : ipChecksum memory (ipHeader data) ipHdrBytes 0 = 0) :
    Parses net ip memory data size header payload := by
  obtain ⟨hipv4, queues, htcp⟩ := hsubscribed
  obtain ⟨hlink, hholds⟩ := Mem.holds_append.mp hholds
  obtain ⟨hip, hholds⟩ := Mem.holds_append.mp hholds
  obtain ⟨hsegment, hpayload⟩ := Mem.holds_append.mp hholds
  rw [length_linkBytes] at hip hsegment hpayload
  have hfits : ipHdrBytes + (tcpHdrBytes + payload.length) < 2 ^ 16 := by
    unfold ipHdrBytes tcpHdrBytes
    omega
  have hlong : virtioNetHdrBytes + ethernetHdrBytes + ipHdrBytes ≤ size := by
    unfold virtioNetHdrBytes ethernetHdrBytes ipHdrBytes
    omega
  obtain ⟨given, rest, hprocess, hstart, hhead, hgiven, hnew⟩ :=
    process_packet_of_holds hip hchecked hfits (by decide) hlong htcp
  have hsegment : memory.Holds given.payload (Mem.fieldBytes header.fields) := by
    rw [hstart]
    exact hsegment
  obtain ⟨hparsed, hbehind, hleft⟩ := tcp_process_packet_of_holds hsegment hheader hhead hnew
    (by rw [hgiven]; exact Nat.le_add_right _ _)
  refine ⟨_, given, queues, rest, rx_thread_eq (Nat.le_of_add_right_le hlong) hlink hipv4, hprocess,
    hparsed, ?_, ?_⟩
  · rw [hleft, hgiven, Nat.add_sub_cancel_left]
  · rw [hbehind, hstart]
    exact hpayload

end Receive

/-- What a host parses from the bytes that another one sends to it, whatever follows them in the
receive buffer, is the header and the payload that were sent, provided that the packet passes the
checksum test of the receiver. -/
theorem transmit_receive_agree (sender receiver : VirtioNet) (source host : Ipv4) (memory : Mem)
    (start : Nat) (sourcePort destPort : UInt16) (seq ack : UInt32) (flags : UInt8)
    (windowSize : UInt16) (payload : List UInt8) (hlength : payload.length + 40 ≤ 65535)
    (hsubscribed : Subscribed receiver host) :
    ∃ after sent,
      transmit sender source (some receiver.addr) memory start
        (outgoingHeader sourcePort destPort seq ack flags windowSize) payload host.addr =
        some (after, sent) ∧
      { loadTcpHeader after (sent.headers .tcp) with csum := 0 } =
        outgoingHeader sourcePort destPort seq ack flags windowSize ∧
      ∀ (received : Mem) (data : Nat) (trailing : List UInt8),
        received.Holds data (frame after sent ++ trailing) →
        ipChecksum received (ipHeader data) ipHdrBytes 0 = 0 →
        Parses receiver host received data (frame after sent ++ trailing).length
          (loadTcpHeader after (sent.headers .tcp)) payload := by
  obtain ⟨after, sent, csum, ipCsum, _, _, htransmit, hheader, hframe⟩ := transmit_eq sender source
    receiver.addr memory start (outgoingHeader sourcePort destPort seq ack flags windowSize) payload
    host.addr
  refine ⟨after, sent, htransmit, by rw [hheader]; rfl, ?_⟩
  intro received data trailing hholds hchecked
  have hbytes := (Mem.holds_append.mp hholds).1
  have hsize : payload.length + 64 ≤ (frame after sent ++ trailing).length := by
    rw [hframe]
    simp only [List.length_append, length_linkBytes]
    show payload.length + 64 ≤ 24 + (20 + (20 + payload.length)) + trailing.length
    omega
  rw [hheader]
  rw [hframe] at hbytes
  exact parses_of_holds hsubscribed rfl hlength hsize hbytes hchecked

/-- A network device whose address ends in the given byte, with the two layers above subscribed. -/
def linkAt (last : UInt8) : VirtioNet where
  addr := ⟨[0x52, 0x54, 0, 0x12, 0x34, last], rfl⟩
  rxHandlers := [⟨.arp, some .arp⟩, ⟨.ipv4, some .ipv4⟩]

/-- Three bytes with a push, sent to the host 10.0.0.2 and received with two more bytes behind the
packet, are parsed. -/
theorem transmit_receive_three_bytes : ∃ after sent,
    transmit (linkAt 1) ⟨0x0a000001, []⟩ (some (linkAt 2).addr) ⟨fun _ => 0⟩ 4096
      (outgoingHeader 80 1024 7 8 0x18 4096) [1, 2, 3] echoHost.addr = some (after, sent) ∧
    Parses (linkAt 2) echoHost ((⟨fun _ => 0⟩ : Mem).write 8192 (frame after sent ++ [0, 0])) 8192
      (frame after sent ++ [0, 0]).length (loadTcpHeader after (sent.headers .tcp)) [1, 2, 3] := by
  obtain ⟨after, sent, htransmit, _, hparses⟩ := transmit_receive_agree (linkAt 1) (linkAt 2)
    ⟨0x0a000001, []⟩ echoHost ⟨fun _ => 0⟩ 4096 80 1024 7 8 0x18 4096 [1, 2, 3] (by decide)
    ⟨rfl, true, rfl⟩
  have hchecked : (transmit (linkAt 1) ⟨0x0a000001, []⟩ (some (linkAt 2).addr) ⟨fun _ => 0⟩ 4096
      (outgoingHeader 80 1024 7 8 0x18 4096) [1, 2, 3] echoHost.addr).map (fun result =>
        ipChecksum ((⟨fun _ => 0⟩ : Mem).write 8192 (frame result.1 result.2 ++ [0, 0]))
          (ipHeader 8192) ipHdrBytes 0) = some 0 := by
    decide +kernel
  rw [htransmit] at hchecked
  exact ⟨after, sent, htransmit,
    hparses _ 8192 [0, 0] (Mem.holds_write _ _ _) (Option.some.inj hchecked)⟩

end Otrix.Net
