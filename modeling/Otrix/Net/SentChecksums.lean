import Otrix.Net.Transmit

/-!
# The checksums of sent packets

`ip_checksum` folds its sum once. A carry out of that fold is lost, and the checksum
is then one too large. `computed_checksums_verify_iff` says which data pass the
check of a receiver with the checksum that was computed for them: those whose sum,
with a zero in the checksum field, leaves no such carry. It says so of any data, of
the headers that `ipv4::write` fills in, of TCP segments and of echo replies.
-/

namespace Otrix.Net

open Bytes OnesComplement

/-! ## Echo replies -/

/-- `ipproto_t::icmp`. -/
def ipprotoIcmp : Nat := 1

/-- The fields of an `icmp_v4_hdr`, in their order. -/
def icmpFields (type code csum : Nat) : List (Nat × Nat) :=
  [(1, type), (1, code), (2, csum)]

/-- `icmp::process_echo_request`, when the reply is allocated at `start`. The type of an echo reply
is zero. -/
def processEchoRequest (net : VirtioNet) (ip : Ipv4) (resolved : Option Mac) (memory : Mem)
    (start : Nat) (data : Sockbuf) : Option (Mem × Sockbuf) :=
  let reply := Sockbuf.allocated start (ipv4HeadersSize + icmpHdrBytes) data.payloadSize
  let memory := memory.write reply.payload (memory.read data.payload data.payloadSize)
  let (hdr, reply) := reply.addHeader icmpHdrBytes .icmp
  let memory := memory.storeFields hdr (icmpFields 0 0 0)
  let memory := memory.store (hdr + 2)
    (ipChecksum memory hdr (icmpHdrBytes + reply.payloadSize) 0) 2
  ipv4Write net ip resolved memory reply (bswap32 (memory.load (data.headers .ip + 12) 4))
    ipprotoIcmp

variable {payload : List UInt8}

/-- The packet that answers a request: the payload behind a header with a checksum. -/
theorem process_echo_request_eq (net : VirtioNet) (ip : Ipv4) (destination : Mac) (memory : Mem)
    (start : Nat) (data : Sockbuf)
    (hpayload : memory.read data.payload data.payloadSize = payload) :
    ∃ (after : Mem) (sent : Sockbuf) (csum ipCsum dest : Nat),
      csum = foldOnce (leSum (Mem.fieldBytes (icmpFields 0 0 0) ++ payload)) ∧
      processEchoRequest net ip (some destination) memory start data = some (after, sent) ∧
      frame after sent = linkBytes destination net.addr .ipv4 ++
        (Mem.fieldBytes (ipFields (ipHdrBytes + (icmpHdrBytes + payload.length)) ipprotoIcmp ipCsum
          ip.addr dest) ++ (Mem.fieldBytes (icmpFields 0 0 csum) ++ payload)) := by
  have hlength : data.payloadSize = payload.length := by
    rw [← hpayload, Mem.length_read]
  rw [hlength] at hpayload
  have hinitial : Carries
      (memory.write (Sockbuf.allocated start (ipv4HeadersSize + icmpHdrBytes)
        payload.length).payload payload)
      (Sockbuf.allocated start (ipv4HeadersSize + icmpHdrBytes) payload.length)
      ((.icmp, icmpHdrBytes) :: (.ip, ipHdrBytes) :: linkHeaders) payload :=
    Carries.of_allocated memory start payload rfl (by decide)
  obtain ⟨reply, hadd, _, _, _, hreplySize, hcarries⟩ :=
    hinitial.prepend (Mem.fieldBytes (icmpFields 0 0 0)) rfl
  rw [← Mem.storeFields_eq_write] at hcarries
  have hreplySize : reply.payloadSize = payload.length := hreplySize
  let filled := (memory.write (Sockbuf.allocated start (ipv4HeadersSize + icmpHdrBytes)
    payload.length).payload payload).storeFields reply.head (icmpFields 0 0 0)
  let csum := ipChecksum filled reply.head (icmpHdrBytes + payload.length) 0
  have hcsum : csum = foldOnce (leSum (Mem.fieldBytes (icmpFields 0 0 0) ++ payload)) := by
    have hsum := ip_checksum_holds hcarries.holds (Nat.two_pow_pos 32)
    rw [Nat.zero_add, List.length_append] at hsum
    exact hsum
  have hsummed : Carries (filled.store (reply.head + 2) csum 2) reply
      ((.ip, ipHdrBytes) :: linkHeaders) (Mem.fieldBytes (icmpFields 0 0 csum) ++ payload) :=
    hcarries.store_field [(1, 0), (1, 0)] csum
  obtain ⟨after, sent, ipCsum, _, hwrite, _, _, hsent⟩ := hsummed.ipv4_write net ip destination
    (bswap32 ((filled.store (reply.head + 2) csum 2).load (data.headers .ip + 12) 4)) ipprotoIcmp
  rw [List.length_append] at hsent
  refine ⟨after, sent, csum, ipCsum, _, hcsum, ?_, hsent.frame_eq⟩
  simp only [processEchoRequest, hlength, hpayload, hadd, hreplySize]
  exact hwrite

/-! ## When checksums verify -/

/-- The sum over a string of at most 65535 bytes has at most 31 bits. -/
theorem leSum_lt {bytes : List UInt8} (hlength : bytes.length ≤ 65535) : leSum bytes < 2 ^ 31 := by
  have hsum := leSum_le bytes
  have hwords : (bytes.length + 1) / 2 ≤ 32768 := by omega
  omega

/-- Storing the checksum of a string into its zero field. -/
theorem ip_checksum_filled {memory : Mem} {data : Nat} {pseudo front back : List UInt8}
    (hpseudo : pseudo.length % 2 = 0) (hsum : leSum pseudo < 2 ^ 32) (hfront : front.length % 2 = 0)
    (hlength : (front ++ (Mem.leBytes 0 2 ++ back)).length ≤ 65535)
    (hholds : memory.Holds data (front ++ (Mem.leBytes 0 2 ++ back))) :
    ∃ csum, ipChecksum memory data (front ++ (Mem.leBytes 0 2 ++ back)).length (leSum pseudo) =
        csum ∧
      (memory.store (data + front.length) csum 2).Holds data
        (front ++ (Mem.leBytes csum 2 ++ back)) ∧
      (Verifies (pseudo ++ (front ++ (Mem.leBytes csum 2 ++ back))) ↔
        SingleFold (leSum (pseudo ++ (front ++ (Mem.leBytes 0 2 ++ back))))) := by
  have htotal := leSum_append (front ++ (Mem.leBytes 0 2 ++ back)) hpseudo
  have hdata := leSum_lt hlength
  refine ⟨_, ip_checksum_holds hholds hsum, ?_, ?_⟩
  · obtain ⟨hbefore, hrest⟩ := Mem.holds_append.mp hholds
    obtain ⟨_, hbehind⟩ := Mem.holds_append.mp hrest
    rw [Mem.store_eq_write]
    refine Mem.holds_append.mpr ⟨hbefore.write _ (Or.inl (Nat.le_refl _)),
      Mem.holds_append.mpr ⟨Mem.holds_write _ _ _, ?_⟩⟩
    rw [Mem.length_leBytes] at hbehind ⊢
    exact hbehind.write _ (Or.inr (by rw [Mem.length_leBytes]))
  · have heven : (pseudo ++ front).length % 2 = 0 := by
      rw [List.length_append]
      omega
    rw [← htotal, ← List.append_assoc]
    exact filled_verifies_iff back heven (by rw [List.append_assoc]) (by omega)

theorem ip_header_verifies_iff {len proto csum saddr daddr : Nat}
    (hcsum : csum = foldOnce (leSum (Mem.fieldBytes (ipFields len proto 0 saddr daddr)))) :
    Verifies (Mem.fieldBytes (ipFields len proto csum saddr daddr)) ↔
      SingleFold (leSum (Mem.fieldBytes (ipFields len proto 0 saddr daddr))) := by
  have hlt : leSum (Mem.fieldBytes (ipFields len proto 0 saddr daddr)) < 2 ^ 31 :=
    leSum_lt (by simp [Mem.length_fieldBytes, ipFields])
  have hrecord := record_verifies_iff [] ((ipFields len proto 0 saddr daddr).take 7)
    ((ipFields len proto 0 saddr daddr).drop 8) [] rfl (by simp [ipFields])
    (by rw [List.nil_append, List.append_nil]; rfl) (Nat.lt_trans hlt (by decide))
  rwa [List.nil_append, List.append_nil, ← hcsum] at hrecord

/-- A TCP segment, behind the pseudo header that it is summed with. -/
theorem segment_verifies_iff {header : TcpHeader} (hzero : header.csum = 0)
    (hlength : payload.length + 40 ≤ 65535) (saddr daddr : Nat) {csum : UInt16}
    (hcsum : csum.toNat = foldOnce (leSum (Mem.fieldBytes (pseudoFields saddr daddr
      (tcpHdrBytes + payload.length))) + leSum (Mem.fieldBytes header.fields ++ payload))) :
    Verifies (Mem.fieldBytes (pseudoFields saddr daddr (tcpHdrBytes + payload.length)) ++
        (Mem.fieldBytes { header with csum := csum }.fields ++ payload)) ↔
      SingleFold (leSum (Mem.fieldBytes (pseudoFields saddr daddr (tcpHdrBytes + payload.length)) ++
        (Mem.fieldBytes header.fields ++ payload))) := by
  have hpseudo : (Mem.fieldBytes (pseudoFields saddr daddr
      (tcpHdrBytes + payload.length))).length = 12 := by
    simp [Mem.length_fieldBytes, pseudoFields]
  have hheader : (Mem.fieldBytes header.fields).length = tcpHdrBytes := by
    simp [Mem.length_fieldBytes, TcpHeader.fields, tcpHdrBytes]
  have hlt : leSum (Mem.fieldBytes (pseudoFields saddr daddr (tcpHdrBytes + payload.length)) ++
      (Mem.fieldBytes header.fields ++ payload)) < 2 ^ 31 := by
    refine leSum_lt ?_
    rw [List.length_append, List.length_append, hpseudo, hheader, tcpHdrBytes]
    omega
  have heven : (Mem.fieldBytes (pseudoFields saddr daddr
      (tcpHdrBytes + payload.length))).length % 2 = 0 := by
    rw [hpseudo]
  have hfields : header.fields = header.fields.take 7 ++ (2, 0) :: header.fields.drop 8 := by
    simp [TcpHeader.fields, hzero]
  have hrecord := record_verifies_iff (Mem.fieldBytes (pseudoFields saddr daddr
      (tcpHdrBytes + payload.length))) (header.fields.take 7) (header.fields.drop 8) payload heven
    (by simp [TcpHeader.fields]) (by rw [← hfields]) (Nat.lt_trans hlt (by decide))
  rw [← leSum_append _ heven] at hcsum
  rw [← hcsum] at hrecord
  exact hrecord

theorem echo_reply_verifies_iff (hlength : payload.length + 4 ≤ 65535)
    {csum : Nat} (hcsum : csum = foldOnce (leSum (Mem.fieldBytes (icmpFields 0 0 0) ++ payload))) :
    Verifies (Mem.fieldBytes (icmpFields 0 0 csum) ++ payload) ↔
      SingleFold (leSum (Mem.fieldBytes (icmpFields 0 0 0) ++ payload)) := by
  have hlt : leSum (Mem.fieldBytes (icmpFields 0 0 0) ++ payload) < 2 ^ 31 := by
    refine leSum_lt ?_
    rw [List.length_append, Mem.length_fieldBytes]
    simp only [icmpFields, List.map_cons, List.map_nil, List.sum_cons, List.sum_nil]
    omega
  rw [hcsum]
  exact record_verifies_iff [] [(1, 0), (1, 0)] [] payload rfl rfl rfl
    (Nat.lt_trans hlt (by decide))

/-- Computed checksums verify exactly when the sum leaves no second carry: for any data of at most
65535 bytes with a zero field behind an even number of bytes, and any pseudo header in front of it
whose sum starts the sum; for the header of every packet that `ipv4::write` sends; for every segment
that `tcp::send` sends; and for every reply of `icmp`. -/
theorem computed_checksums_verify_iff (memory : Mem) (net : VirtioNet) (ip : Ipv4)
    (destination : Mac) :
    (∀ (data : Nat) (pseudo front back : List UInt8), pseudo.length % 2 = 0 →
      leSum pseudo < 2 ^ 32 → front.length % 2 = 0 →
      (front ++ (Mem.leBytes 0 2 ++ back)).length ≤ 65535 →
      memory.Holds data (front ++ (Mem.leBytes 0 2 ++ back)) →
      ∃ csum, ipChecksum memory data (front ++ (Mem.leBytes 0 2 ++ back)).length (leSum pseudo) =
          csum ∧
        (memory.store (data + front.length) csum 2).Holds data
          (front ++ (Mem.leBytes csum 2 ++ back)) ∧
        (Verifies (pseudo ++ (front ++ (Mem.leBytes csum 2 ++ back))) ↔
          SingleFold (leSum (pseudo ++ (front ++ (Mem.leBytes 0 2 ++ back)))))) ∧
    (∀ (skb : Sockbuf) (bytes : List UInt8) (dest proto : Nat),
      Carries memory skb ((.ip, ipHdrBytes) :: linkHeaders) bytes →
      ∃ after sent csum,
        ipv4Write net ip (some destination) memory skb dest proto = some (after, sent) ∧
        frame after sent = linkBytes destination net.addr .ipv4 ++
          (Mem.fieldBytes (ipFields (ipHdrBytes + bytes.length) proto csum ip.addr dest) ++ bytes) ∧
        (Verifies (Mem.fieldBytes (ipFields (ipHdrBytes + bytes.length) proto csum ip.addr dest)) ↔
          SingleFold (leSum (Mem.fieldBytes
            (ipFields (ipHdrBytes + bytes.length) proto 0 ip.addr dest))))) ∧
    (∀ (start : Nat) (header : TcpHeader) (payload : List UInt8) (remoteAddr : Nat),
      header.csum = 0 → payload.length + 40 ≤ 65535 →
      ∃ after sent csum ipCsum,
        transmit net ip (some destination) memory start header payload remoteAddr =
          some (after, sent) ∧
        frame after sent = linkBytes destination net.addr .ipv4 ++
          (Mem.fieldBytes (ipFields (ipHdrBytes + (tcpHdrBytes + payload.length)) ipprotoTcp ipCsum
            ip.addr remoteAddr) ++
          (Mem.fieldBytes { header with csum := csum }.fields ++ payload)) ∧
        (Verifies (Mem.fieldBytes (pseudoFields ip.addr (bswap32 remoteAddr)
            (tcpHdrBytes + payload.length)) ++
            (Mem.fieldBytes { header with csum := csum }.fields ++ payload)) ↔
          SingleFold (leSum (Mem.fieldBytes (pseudoFields ip.addr (bswap32 remoteAddr)
            (tcpHdrBytes + payload.length)) ++ (Mem.fieldBytes header.fields ++ payload))))) ∧
    ∀ (start : Nat) (data : Sockbuf), data.payloadSize + 4 ≤ 65535 →
      ∃ after sent csum ipCsum dest,
        processEchoRequest net ip (some destination) memory start data = some (after, sent) ∧
        frame after sent = linkBytes destination net.addr .ipv4 ++
          (Mem.fieldBytes (ipFields (ipHdrBytes + (icmpHdrBytes + data.payloadSize)) ipprotoIcmp
            ipCsum ip.addr dest) ++
          (Mem.fieldBytes (icmpFields 0 0 csum) ++ memory.read data.payload data.payloadSize)) ∧
        (Verifies (Mem.fieldBytes (icmpFields 0 0 csum) ++
            memory.read data.payload data.payloadSize) ↔
          SingleFold (leSum (Mem.fieldBytes (icmpFields 0 0 0) ++
            memory.read data.payload data.payloadSize))) := by
  refine ⟨?_, ?_, ?_, ?_⟩
  · intro data pseudo front back hpseudo hsum hfront hlength hholds
    exact ip_checksum_filled hpseudo hsum hfront hlength hholds
  · intro skb bytes dest proto hcarries
    obtain ⟨after, sent, csum, hcsum, hwrite, _, _, hsent⟩ :=
      hcarries.ipv4_write net ip destination dest proto
    exact ⟨after, sent, csum, hwrite, hsent.frame_eq, ip_header_verifies_iff hcsum⟩
  · intro start header payload remoteAddr hzero hlength
    obtain ⟨after, sent, csum, ipCsum, hcsum, _, htransmit, _, hframe⟩ :=
      transmit_eq net ip destination memory start header payload remoteAddr
    exact ⟨after, sent, csum, ipCsum, htransmit, hframe,
      segment_verifies_iff hzero hlength _ _ hcsum⟩
  · intro start data hlength
    obtain ⟨after, sent, csum, ipCsum, dest, hcsum, hreply, hframe⟩ :=
      process_echo_request_eq net ip destination memory start data rfl
    rw [Mem.length_read] at hframe
    exact ⟨after, sent, csum, ipCsum, dest, hreply, hframe,
      echo_reply_verifies_iff (by rwa [Mem.length_read]) hcsum⟩

/-- Two bytes with their checksum behind them verify, and so does a segment of three bytes. -/
theorem computed_checksums_verify_three_bytes :
    (∃ csum, ipChecksum ((⟨fun _ => 0⟩ : Mem).write 0 [1, 2, 0, 0]) 0 4 0 = csum ∧
      Verifies ([1, 2] ++ (Mem.leBytes csum 2 ++ []))) ∧
    ∃ after sent csum ipCsum,
      transmit (linkAt 1) ⟨0x0a000001, []⟩ (some (linkAt 2).addr) ⟨fun _ => 0⟩ 4096
        (outgoingHeader 80 1024 7 8 0x18 4096) [1, 2, 3] echoHost.addr = some (after, sent) ∧
      frame after sent = linkBytes (linkAt 2).addr (linkAt 1).addr .ipv4 ++
        (Mem.fieldBytes (ipFields 43 6 ipCsum 0x0a000001 echoHost.addr) ++
        (Mem.fieldBytes { outgoingHeader 80 1024 7 8 0x18 4096 with csum := csum }.fields ++
          [1, 2, 3])) ∧
      Verifies (Mem.fieldBytes (pseudoFields 0x0a000001 (bswap32 echoHost.addr) 23) ++
        (Mem.fieldBytes { outgoingHeader 80 1024 7 8 0x18 4096 with csum := csum }.fields ++
          [1, 2, 3])) := by
  obtain ⟨hdata, _⟩ := computed_checksums_verify_iff ((⟨fun _ => 0⟩ : Mem).write 0 [1, 2, 0, 0])
    (linkAt 1) ⟨0x0a000001, []⟩ (linkAt 2).addr
  obtain ⟨_, _, hsegment, _⟩ := computed_checksums_verify_iff ⟨fun _ => 0⟩ (linkAt 1)
    ⟨0x0a000001, []⟩ (linkAt 2).addr
  obtain ⟨csum, hcsum, _, hiff⟩ := hdata 0 [] [1, 2] [] rfl (Nat.two_pow_pos 32) rfl (by decide)
    (Mem.holds_write _ _ _)
  obtain ⟨after, sent, segmentCsum, ipCsum, htransmit, hframe, hsegmentIff⟩ := hsegment 4096
    (outgoingHeader 80 1024 7 8 0x18 4096) [1, 2, 3] echoHost.addr rfl (by decide)
  exact ⟨⟨csum, hcsum, hiff.mpr (by decide)⟩, after, sent, segmentCsum, ipCsum, htransmit, hframe,
    hsegmentIff.mpr (by decide)⟩

/-- The header of a packet of 40 bytes from 10.0.178.232 to 10.0.180.232 has the sum `0x1ffff`. Its
checksum is computed as `0xffff`, and the packet that is sent does not verify. -/
theorem second_carry_is_lost : ∃ after sent,
    transmit (linkAt 1) ⟨0x0a00b2e8, []⟩ (some (linkAt 2).addr) ⟨fun _ => 0⟩ 4096
      (outgoingHeader 80 1024 7 8 0x10 4096) [] 0x0a00b4e8 = some (after, sent) ∧
    leSum (Mem.fieldBytes (ipFields 40 6 0 0x0a00b2e8 0x0a00b4e8)) = 0x1ffff ∧
    ((frame after sent).drop virtioNetHeadersSize).take ipHdrBytes =
      Mem.fieldBytes (ipFields 40 6 0xffff 0x0a00b2e8 0x0a00b4e8) ∧
    ¬ Verifies (((frame after sent).drop virtioNetHeadersSize).take ipHdrBytes) := by
  obtain ⟨after, sent, csum, ipCsum, _, hipCsum, htransmit, _, hframe⟩ :=
    transmit_eq (linkAt 1) ⟨0x0a00b2e8, []⟩ (linkAt 2).addr ⟨fun _ => 0⟩ 4096
      (outgoingHeader 80 1024 7 8 0x10 4096) [] 0x0a00b4e8
  have hsum : leSum (Mem.fieldBytes (ipFields 40 6 0 0x0a00b2e8 0x0a00b4e8)) = 0x1ffff := by decide
  have hipCsum : ipCsum = 0xffff := hipCsum.trans (congrArg foldOnce hsum)
  have hheader : ((frame after sent).drop virtioNetHeadersSize).take ipHdrBytes =
      Mem.fieldBytes (ipFields 40 6 0xffff 0x0a00b2e8 0x0a00b4e8) := by
    rw [hframe, hipCsum, ← length_linkBytes (linkAt 2).addr (linkAt 1).addr .ipv4,
      List.drop_left]
    rfl
  refine ⟨after, sent, htransmit, hsum, hheader, ?_⟩
  rw [hheader]
  decide

end Otrix.Net
