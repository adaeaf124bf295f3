import Otrix.Net.Arp

/-!
# ARP replies

The frame that `arp::process_packet` sends for a request for the address of the host, byte by byte.
`send` converts both addresses from host order to network order. `process_packet` passes its own
address in host order, but the address of the sender as it is in the packet, in network order. So the
address of the sender goes out with its four bytes reversed.
-/

namespace Otrix.Net

open Bytes

/-- The bytes of a field of a packet. -/
def fieldAt (packet : List UInt8) (offset length : Nat) : List UInt8 :=
  (packet.drop offset).take length

theorem field_at_append (front field back : List UInt8) :
    fieldAt (front ++ (field ++ back)) front.length field.length = field := by
  simp [fieldAt]

theorem field_at_read (memory : Mem) (address : Nat) {offset length size : Nat}
    (h : offset + length ≤ size) :
    fieldAt (memory.read address size) offset length = memory.read (address + offset) length := by
  obtain ⟨rest, rfl⟩ := Nat.exists_eq_add_of_le h
  have happend := field_at_append (memory.read address offset) (memory.read (address + offset) length)
    (memory.read (address + offset + length) rest)
  rw [Mem.length_read, Mem.length_read, ← Mem.read_add, ← Mem.read_add, ← Nat.add_assoc] at happend
  exact happend

theorem le_bytes_halves {high low : Nat} (hlow : low < 2 ^ 16) :
    Mem.leBytes (high * 2 ^ 16 + low) 4 = Mem.leBytes low 2 ++ Mem.leBytes high 2 := by
  simp only [Mem.leBytes, List.cons_append, List.nil_append, List.cons.injEq, and_true,
    ← UInt8.toNat_inj, UInt8.toNat_ofNat']
  omega

/-- Swapping the bytes of a half word reverses them in memory. -/
theorem le_bytes_bswap16 (value : Nat) :
    Mem.leBytes (bswap16 value) 2 = (Mem.leBytes value 2).reverse := by
  have hhigh : bswap16 value / 256 = value % 256 := by
    unfold bswap16
    omega
  have hlow : bswap16 value % 256 = value / 256 % 256 := by
    unfold bswap16
    omega
  simp only [Mem.leBytes, List.reverse_cons, List.reverse_nil, List.nil_append, List.cons_append,
    List.cons.injEq, ← UInt8.toNat_inj, UInt8.toNat_ofNat', hhigh, Nat.reducePow, hlow, Nat.mod_mod,
    and_self]

/-- Swapping the bytes of a word reverses them in memory. -/
theorem le_bytes_bswap32 (value : Nat) :
    Mem.leBytes (bswap32 value) 4 = (Mem.leBytes value 4).reverse := by
  have hvalue : value / 2 ^ 16 * 2 ^ 16 + value % 2 ^ 16 = value := Nat.div_add_mod' value (2 ^ 16)
  have hlow : value % 2 ^ 16 < 2 ^ 16 := Nat.mod_lt _ (by decide)
  calc Mem.leBytes (bswap32 value) 4
      = Mem.leBytes (bswap16 (value / 2 ^ 16)) 2 ++ Mem.leBytes (bswap16 (value % 2 ^ 16)) 2 :=
        le_bytes_halves (bswap16_lt _)
    _ = (Mem.leBytes (value % 2 ^ 16) 2 ++ Mem.leBytes (value / 2 ^ 16) 2).reverse := by
        rw [le_bytes_bswap16, le_bytes_bswap16, List.reverse_append]
    _ = (Mem.leBytes value 4).reverse := by
        rw [← le_bytes_halves hlow, hvalue]

/-- The bytes of a swapped address that was loaded are those in memory, in the other order. -/
theorem le_bytes_bswap32_load (memory : Mem) (address : Nat) :
    Mem.leBytes (bswap32 (memory.load address 4)) 4 = (memory.read address 4).reverse := by
  rw [le_bytes_bswap32, Mem.leBytes_load]

theorem arp_bytes_fields (op : Nat) (senderMac : Mac) (addr : Nat) (targetMac : Mac) (targetIp : Nat) :
    fieldAt (arpBytes op senderMac addr targetMac targetIp) 6 2 = Mem.leBytes (bswap16 op) 2 ∧
    fieldAt (arpBytes op senderMac addr targetMac targetIp) 14 4 = Mem.leBytes (bswap32 addr) 4 ∧
    fieldAt (arpBytes op senderMac addr targetMac targetIp) 18 6 = targetMac.bytes ∧
    fieldAt (arpBytes op senderMac addr targetMac targetIp) 24 4 =
      Mem.leBytes (bswap32 targetIp) 4 := by
  let kind := Mem.fieldBytes [(2, bswap16 1), (2, bswap16 Ethertype.ipv4.value), (1, 6), (1, 4)]
  have hsender := senderMac.length_eq
  have htarget := targetMac.length_eq
  have hsplit : arpBytes op senderMac addr targetMac targetIp =
      kind ++ (Mem.leBytes (bswap16 op) 2 ++ (senderMac.bytes ++ (Mem.leBytes (bswap32 addr) 4 ++
        (targetMac.bytes ++ (Mem.leBytes (bswap32 targetIp) 4 ++ []))))) := by
    simp [arpBytes, kind, Mem.fieldBytes]
  have hkind : kind.length = 6 := rfl
  refine ⟨?_, ?_, ?_, ?_⟩
  · rw [hsplit]
    exact field_at_append kind (Mem.leBytes (bswap16 op) 2) _
  · have hfield := field_at_append (kind ++ (Mem.leBytes (bswap16 op) 2 ++ senderMac.bytes))
      (Mem.leBytes (bswap32 addr) 4) (targetMac.bytes ++ (Mem.leBytes (bswap32 targetIp) 4 ++ []))
    simpa [hsplit, hsender, hkind] using hfield
  · have hfield := field_at_append (kind ++ (Mem.leBytes (bswap16 op) 2 ++ (senderMac.bytes ++
      Mem.leBytes (bswap32 addr) 4))) targetMac.bytes (Mem.leBytes (bswap32 targetIp) 4 ++ [])
    simpa [hsplit, hsender, htarget, hkind] using hfield
  · have hfield := field_at_append (kind ++ (Mem.leBytes (bswap16 op) 2 ++ (senderMac.bytes ++
      (Mem.leBytes (bswap32 addr) 4 ++ targetMac.bytes)))) (Mem.leBytes (bswap32 targetIp) 4) []
    simpa [hsplit, hsender, htarget, hkind] using hfield

namespace Arp

theorem send_frame (net : VirtioNet) (memory : Mem) (start op addr : Nat) (targetMac : Mac)
    (targetIp : Nat) : ∃ after sent,
    send net memory start op addr targetMac targetIp = (after, sent) ∧
      frame after sent = linkBytes targetMac net.addr .arp ++
        arpBytes op net.addr addr targetMac targetIp := by
  let payload := arpBytes op net.addr addr targetMac targetIp
  have hcarries : Carries (memory.write (start + virtioNetHeadersSize) payload)
      (Sockbuf.allocated start virtioNetHeadersSize payload.length) linkHeaders payload :=
    .of_allocated memory start payload rfl (by decide)
  obtain ⟨after, sent, hwrite, _, _, hsent⟩ :=
    hcarries.virtio_net_write net targetMac (show Ethertype.arp ≠ .unknown by decide)
  exact ⟨after, sent, hwrite, hsent.frame_eq⟩

/-- A packet that `process_packet` takes for a request for the address of the host. -/
def Asks (arp : Arp) (memory : Mem) (data : Sockbuf) : Prop :=
  arpHdrBytes ≤ data.payloadSize ∧
    (loadArpHeader memory data.payload).operation = bswap16 arpRequest ∧
    bswap32 (loadArpHeader memory data.payload).targetIp = arp.ipAddr

end Arp

/-- The reply goes back to the one who asked, and gives the address that was asked for as its own. -/
structure Mirrors (request reply : List UInt8) : Prop where
  operation : fieldAt reply 6 2 = [0, 2]
  senderIp : fieldAt reply 14 4 = fieldAt request 24 4
  targetMac : fieldAt reply 18 6 = fieldAt request 8 6
  targetIp : fieldAt reply 24 4 = fieldAt request 14 4

/-- Every request for the address of the host is answered. The reply mirrors it exactly when the
address of the sender reads the same from both ends: the reply carries this address backwards, and
everything else as it should. -/
theorem reply_mirrors_iff (arp : Arp) (net : VirtioNet) (memory : Mem) (data : Sockbuf) (start : Nat)
    (hasks : arp.Asks memory data) : ∃ after sent reply,
    (arp.processPacket net memory data start).2 = some (after, sent) ∧
    frame after sent =
      linkBytes (loadArpHeader memory data.payload).senderMac net.addr .arp ++ reply ∧
    (Mirrors (memory.read data.payload arpHdrBytes) reply ↔
      (fieldAt (memory.read data.payload arpHdrBytes) 14 4).reverse =
        fieldAt (memory.read data.payload arpHdrBytes) 14 4) ∧
    fieldAt reply 6 2 = [0, 2] ∧
    fieldAt reply 14 4 = fieldAt (memory.read data.payload arpHdrBytes) 24 4 ∧
    fieldAt reply 18 6 = fieldAt (memory.read data.payload arpHdrBytes) 8 6 ∧
    fieldAt reply 24 4 = (fieldAt (memory.read data.payload arpHdrBytes) 14 4).reverse := by
  obtain ⟨hsize, hoperation, htarget⟩ := hasks
  let header := loadArpHeader memory data.payload
  obtain ⟨after, sent, hsend, hframe⟩ := Arp.send_frame net memory start arpReply arp.ipAddr
    header.senderMac header.senderIp
  obtain ⟨hop, hsender, hmac, htargetIp⟩ :=
    arp_bytes_fields arpReply net.addr arp.ipAddr header.senderMac header.senderIp
  have hrequest : ∀ {offset length}, offset + length ≤ arpHdrBytes →
      fieldAt (memory.read data.payload arpHdrBytes) offset length =
        memory.read (data.payload + offset) length :=
    field_at_read memory data.payload
  have hreply : (arp.processPacket net memory data start).2 = some (after, sent) := by
    simp only [Arp.processPacket, if_neg (Nat.not_lt.mpr hsize), if_pos (And.intro hoperation htarget)]
    exact congrArg some hsend
  have hop' : fieldAt (arpBytes arpReply net.addr arp.ipAddr header.senderMac header.senderIp) 6 2 =
      [0, 2] := hop.trans (by decide)
  -- the own address was compared in host order, so swapping it gives the bytes of the request
  have hsender' : fieldAt (arpBytes arpReply net.addr arp.ipAddr header.senderMac header.senderIp)
      14 4 = fieldAt (memory.read data.payload arpHdrBytes) 24 4 := by
    rw [hsender, ← htarget, hrequest (by decide)]
    show Mem.leBytes (bswap32 (bswap32 (memory.load (data.payload + 24) 4))) 4 = _
    rw [le_bytes_bswap32, le_bytes_bswap32_load, List.reverse_reverse]
  have hmac' : fieldAt (arpBytes arpReply net.addr arp.ipAddr header.senderMac header.senderIp)
      18 6 = fieldAt (memory.read data.payload arpHdrBytes) 8 6 := by
    rw [hmac, hrequest (by decide)]
    rfl
  have hback : fieldAt (arpBytes arpReply net.addr arp.ipAddr header.senderMac header.senderIp)
      24 4 = (fieldAt (memory.read data.payload arpHdrBytes) 14 4).reverse := by
    rw [htargetIp, hrequest (by decide)]
    exact le_bytes_bswap32_load memory (data.payload + 14)
  refine ⟨after, sent, _, hreply, hframe, ?_, hop', hsender', hmac', hback⟩
  constructor
  · intro hmirrors
    exact hback.symm.trans hmirrors.targetIp
  · intro hsame
    exact ⟨hop', hsender', hmac', hback.trans hsame⟩

/-- A request for `10.0.2.15` from a host with the given address. -/
def arpRequestFrom (senderIp : List UInt8) : Mem :=
  (⟨fun _ => 0⟩ : Mem).write 4096 ([0, 1, 8, 0, 6, 4, 0, 1] ++ [0x52, 0x54, 0, 0, 0, 2] ++ senderIp ++
    List.replicate 6 0 ++ [10, 0, 2, 15])

/-- The host that is asked. -/
def arpHost : Arp :=
  Arp.initial 0x0a00020f

/-- A request from `10.2.2.10`. -/
theorem reply_mirrors_palindrome : ∃ after sent reply,
    (arpHost.processPacket (linkAt 1) (arpRequestFrom [10, 2, 2, 10]) (.zeroCopy 4096 28) 8192).2 =
      some (after, sent) ∧
    frame after sent = linkBytes ⟨[0x52, 0x54, 0, 0, 0, 2], rfl⟩ (linkAt 1).addr .arp ++ reply ∧
    Mirrors ((arpRequestFrom [10, 2, 2, 10]).read 4096 28) reply := by
  have hasks : arpHost.Asks (arpRequestFrom [10, 2, 2, 10]) (.zeroCopy 4096 28) := by
    unfold Arp.Asks
    decide +kernel
  obtain ⟨after, sent, reply, hreply, hframe, hmirrors, _⟩ :=
    reply_mirrors_iff arpHost (linkAt 1) (arpRequestFrom [10, 2, 2, 10]) (.zeroCopy 4096 28) 8192 hasks
  exact ⟨after, sent, reply, hreply, hframe, hmirrors.mpr (by decide +kernel)⟩

/-- A request from `10.0.2.2`. The reply is for `2.2.0.10`. -/
theorem reply_address_is_reversed : ∃ after sent,
    arpHost.Asks (arpRequestFrom [10, 0, 2, 2]) (.zeroCopy 4096 28) ∧
    (arpHost.processPacket (linkAt 1) (arpRequestFrom [10, 0, 2, 2]) (.zeroCopy 4096 28) 8192).2 =
      some (after, sent) ∧
    fieldAt (frame after sent) (virtioNetHeadersSize + 24) 4 = [2, 2, 0, 10] ∧
    ¬ Mirrors ((arpRequestFrom [10, 0, 2, 2]).read 4096 28)
      ((frame after sent).drop virtioNetHeadersSize) := by
  have hasks : arpHost.Asks (arpRequestFrom [10, 0, 2, 2]) (.zeroCopy 4096 28) := by
    unfold Arp.Asks
    decide +kernel
  have hresult : ((arpHost.processPacket (linkAt 1) (arpRequestFrom [10, 0, 2, 2])
      (.zeroCopy 4096 28) 8192).2).any (fun result =>
        fieldAt (frame result.1 result.2) (virtioNetHeadersSize + 24) 4 = [2, 2, 0, 10] ∧
        fieldAt ((frame result.1 result.2).drop virtioNetHeadersSize) 24 4 = [2, 2, 0, 10]) = true := by
    decide +kernel
  obtain ⟨⟨after, sent⟩, hreply, hfields⟩ := (Option.any_eq_true _ _).mp hresult
  obtain ⟨hframe, hfield⟩ := of_decide_eq_true hfields
  refine ⟨after, sent, hasks, hreply, hframe, fun hmirrors => ?_⟩
  have hsame := hfield.symm.trans hmirrors.targetIp
  revert hsame
  decide +kernel

end Otrix.Net
