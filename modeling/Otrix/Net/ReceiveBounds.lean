import Otrix.Net.Ipv4

/-!
# Payloads of received packets and the frame they came in

`process_packet` takes the payload size from the total length field of the IP
header. `in_frame_iff` says for which frames the handlers are then given a payload
inside the frame: those that no handler gets, and those whose total length is at
least that of the header and at most what the frame holds behind the headers of the
link.
-/

namespace Otrix.Net

open Bytes

variable {ip : Ipv4} {memory : Mem} {data size limit proto : Nat} {skb : Sockbuf}
  {handler : L3Handler} {slots : List RxHandler}

/-- The handler is given a payload that ends inside the frame, and every byte that it reads as
payload is a byte of the frame. -/
def InFrame (memory : Mem) (data size : Nat) (call : HandlerCall) : Prop :=
  call.skb.payloadEnd ≤ data + size ∧
    ∀ range ∈ call.handler.readsPayload memory call.skb, ∀ address,
      range.1 ≤ address → address < range.1 + range.2 → data ≤ address ∧ address < data + size

/-- The address of the IP header in a frame. -/
def ipHeader (data : Nat) : Nat :=
  data + (virtioNetHdrBytes + ethernetHdrBytes)

/-- The frame passes the checks of `process_packet`, and the first slot for its protocol has a
handler. -/
def Dispatched (ip : Ipv4) (memory : Mem) (data size : Nat) : Prop :=
  virtioNetHdrBytes + ethernetHdrBytes + ipHdrBytes ≤ size ∧
    headerAccepted ip memory (ipHeader data) = true ∧
    (ip.rxHandlers.find? fun slot => slot.type = protocol memory (ipHeader data)).bind
      RxHandler.handler ≠ none
  deriving Decidable

/-! ## The handlers -/

/-- The payload lies between the two addresses. A buffer that was moved away has an empty payload
at address `0`. -/
def Inside (data limit : Nat) (skb : Sockbuf) : Prop :=
  (data ≤ skb.payload ∨ skb.payloadEnd = 0) ∧ skb.payloadEnd ≤ limit

theorem Inside.parsed (h : Inside data limit skb) (headerSize : Nat) (type : SockbufHeader) :
    Inside data limit (skb.addParsedHeader headerSize type) := by
  have hpayload := skb.le_add_parsed_header_payload headerSize type
  unfold Inside
  rw [skb.add_parsed_header_payload_end]
  exact ⟨h.1.imp_left fun hle => Nat.le_trans hle hpayload, h.2⟩

/-- What `icmp::process_packet` leaves, and what it copies. -/
theorem Inside.icmp (h : Inside data limit skb) :
    Inside data limit (icmpProcessPacket memory skb).1 ∧
      ∀ range ∈ (icmpProcessPacket memory skb).2, range =
        ((icmpProcessPacket memory skb).1.payload, (icmpProcessPacket memory skb).1.payloadSize) := by
  unfold icmpProcessPacket
  split
  · exact ⟨h, by simp⟩
  · dsimp only
    split
    · exact ⟨h.parsed icmpHdrBytes .icmp, by simp⟩
    · exact ⟨h.parsed icmpHdrBytes .icmp, by simp⟩

theorem Inside.process (h : Inside data limit skb) (handler : L3Handler) :
    Inside data limit (handler.process memory skb) := by
  cases handler with
  | icmp => exact h.icmp.1
  | tcp queues =>
    cases queues with
    | false => exact h.parsed _ _
    | true => exact ⟨Or.inr rfl, Nat.zero_le _⟩

/-- What a handler reads of a payload that is inside is inside. -/
theorem Inside.reads (h : Inside data limit skb) (handler : L3Handler) :
    ∀ range ∈ handler.readsPayload memory skb, ∀ address, range.1 ≤ address →
      address < range.1 + range.2 → data ≤ address ∧ address < limit := by
  have hrange : ∀ other : Sockbuf, Inside data limit other → ∀ address,
      other.payload ≤ address → address < other.payload + other.payloadSize →
      data ≤ address ∧ address < limit := by
    intro other hother address hlow hhigh
    obtain ⟨hstart, hend⟩ := hother
    unfold Sockbuf.payloadEnd at hstart hend
    omega
  intro range hmem
  cases handler with
  | icmp =>
    obtain ⟨hinside, hcopied⟩ := h.icmp
    rw [hcopied range hmem]
    exact hrange _ hinside
  | tcp queues =>
    obtain rfl := Option.some.inj hmem
    exact hrange _ (h.parsed _ _)

/-- When the first handler is given a payload inside the frame, all of them are. -/
theorem dispatch_in_frame (h : Inside data (data + size) skb) :
    ∀ call ∈ dispatch memory proto slots skb, InFrame memory data size call := by
  induction slots generalizing skb with
  | nil => simp [dispatch]
  | cons slot slots ih =>
    unfold dispatch
    split
    · cases slot.handler with
      | none => simp
      | some handler =>
        intro call hcall
        rcases List.mem_cons.mp hcall with rfl | hrest
        · exact ⟨h.2, h.reads handler⟩
        · exact ih (h.process handler) call hrest
    · exact ih h

/-- The first call of the loop is that of the first slot of the protocol. -/
theorem dispatch_head
    (hfound : (slots.find? fun slot => slot.type = proto).bind RxHandler.handler = some handler) :
    ∃ rest, dispatch memory proto slots skb = ⟨handler, skb⟩ :: rest := by
  induction slots with
  | nil => simp at hfound
  | cons slot slots ih =>
    unfold dispatch
    by_cases htype : slot.type = proto
    · have hslot : slot.handler = some handler := by simpa [htype] using hfound
      rw [if_pos htype, hslot]
      exact ⟨_, rfl⟩
    · rw [if_neg htype]
      exact ih (by simpa [htype] using hfound)

/-- Without a handler in the first slot of the protocol there is no call. -/
theorem dispatch_eq_nil
    (hnone : (slots.find? fun slot => slot.type = proto).bind RxHandler.handler = none) :
    dispatch memory proto slots skb = [] := by
  induction slots with
  | nil => rfl
  | cons slot slots ih =>
    unfold dispatch
    by_cases htype : slot.type = proto
    · have hslot : slot.handler = none := by simpa [htype] using hnone
      rw [if_pos htype, hslot]
    · rw [if_neg htype]
      exact ih (by simpa [htype] using hnone)

/-! ## Received frames -/

theorem received_sockbuf_of_le (data : Nat) (hle : virtioNetHdrBytes + ethernetHdrBytes ≤ size) :
    receivedSockbuf data size =
      { start := data
        bufferSize := size
        headers := Function.update (Function.update (fun _ => 0) .virtio data) .ethernet
          (data + virtioNetHdrBytes)
        payload := ipHeader data
        head := ipHeader data
        payloadSize := size - (virtioNetHdrBytes + ethernetHdrBytes) } := by
  have hvirtio := (Sockbuf.zeroCopy data size).add_parsed_header_of_le virtioNetHdrBytes .virtio rfl
    (Nat.le_of_add_right_le hle)
  unfold receivedSockbuf ipHeader
  rw [hvirtio, Sockbuf.add_parsed_header_of_le _ _ _ rfl (Nat.le_sub_of_add_le' hle),
    ← Nat.add_assoc, ← Nat.sub_sub]
  rfl

/-- A frame that is too short for the three headers is dropped. -/
theorem process_packet_short (hlt : size < virtioNetHdrBytes + ethernetHdrBytes + ipHdrBytes) :
    processPacket ip memory (receivedSockbuf data size) = [] := by
  have hshort : (receivedSockbuf data size).payloadSize < ipHdrBytes := by
    by_cases hle : virtioNetHdrBytes + ethernetHdrBytes ≤ size
    · rw [received_sockbuf_of_le data hle]
      unfold virtioNetHdrBytes ethernetHdrBytes ipHdrBytes at *
      show size - (10 + 14) < 20
      omega
    · -- one of the two headers of the link is not parsed
      unfold virtioNetHdrBytes ethernetHdrBytes at hle
      unfold receivedSockbuf virtioNetHdrBytes ethernetHdrBytes ipHdrBytes
      simp only [Sockbuf.addParsedHeader, Sockbuf.zeroCopy]
      grind
  unfold processPacket
  rw [if_pos hshort]

/-- What `process_packet` does with a frame that is long enough. -/
theorem process_packet_eq (ip : Ipv4) (memory : Mem) (data : Nat)
    (hle : virtioNetHdrBytes + ethernetHdrBytes + ipHdrBytes ≤ size) :
    ∃ skb : Sockbuf, skb.payload = ipHeader data + ipHdrBytes ∧ skb.head = skb.payload ∧
      skb.payloadSize = sub64 (totalLength memory (ipHeader data)) ipHdrBytes ∧
      skb.headers .tcp = 0 ∧
      processPacket ip memory (receivedSockbuf data size) =
        if headerAccepted ip memory (ipHeader data) then
          dispatch memory (protocol memory (ipHeader data)) ip.rxHandlers skb
        else [] := by
  have hlong : ¬ size - (virtioNetHdrBytes + ethernetHdrBytes) < ipHdrBytes := by omega
  rw [received_sockbuf_of_le data (Nat.le_of_add_right_le hle)]
  unfold processPacket
  rw [if_neg hlong, Sockbuf.add_parsed_header_of_le _ _ _ rfl (Nat.le_of_not_lt hlong)]
  -- the last component says which buffer it is
  refine ⟨_, ?_, ?_, ?_, ?_, rfl⟩
  · rfl
  · rfl
  · rfl
  · rfl

/-- A total length that fits gives a payload size that fits, and only such a length does. -/
theorem payload_end_le_iff (data : Nat) {len : Nat} (hlen : len < 2 ^ 64) (hsize : size < 2 ^ 64)
    (hle : virtioNetHdrBytes + ethernetHdrBytes + ipHdrBytes ≤ size) :
    ipHeader data + ipHdrBytes + sub64 len ipHdrBytes ≤ data + size ↔
      ipHdrBytes ≤ len ∧ len ≤ size - (virtioNetHdrBytes + ethernetHdrBytes) := by
  unfold ipHeader
  by_cases hheader : ipHdrBytes ≤ len
  · rw [sub64_of_le hheader hlen]
    unfold virtioNetHdrBytes ethernetHdrBytes ipHdrBytes at *
    omega
  · -- the subtraction wraps, and the size is larger than any frame
    have hwrap : sub64 len ipHdrBytes = len + 2 ^ 64 - ipHdrBytes := by
      unfold sub64 ipHdrBytes at *
      exact u64_of_lt (by omega)
    rw [hwrap]
    unfold virtioNetHdrBytes ethernetHdrBytes ipHdrBytes at *
    omega

theorem bswap16_lt (value : Nat) : bswap16 value < 2 ^ 16 := by
  unfold bswap16
  omega

/-- The handlers are given payloads inside the frame exactly when no handler gets the frame or its
total length is that of a header at least and at most what the frame holds. -/
theorem in_frame_iff (ip : Ipv4) (memory : Mem) (data : Nat) {size : Nat} (hsize : size < 2 ^ 64) :
    (∀ call ∈ processPacket ip memory (receivedSockbuf data size), InFrame memory data size call) ↔
      (Dispatched ip memory data size →
        ipHdrBytes ≤ totalLength memory (ipHeader data) ∧
          totalLength memory (ipHeader data) ≤ size - (virtioNetHdrBytes + ethernetHdrBytes)) := by
  by_cases hle : virtioNetHdrBytes + ethernetHdrBytes + ipHdrBytes ≤ size
  · obtain ⟨skb, hpayload, _, hbytes, _, heq⟩ := process_packet_eq ip memory data hle
    have hlen : totalLength memory (ipHeader data) < 2 ^ 64 :=
      Nat.lt_trans (bswap16_lt _) (by decide)
    have hfits := payload_end_le_iff data hlen hsize hle
    rw [← hpayload, ← hbytes, ← Sockbuf.payloadEnd] at hfits
    rw [heq]
    constructor
    · rintro hcalls ⟨_, haccepted, hfound⟩
      obtain ⟨handler, hhandler⟩ := Option.ne_none_iff_exists'.mp hfound
      obtain ⟨rest, hfirst⟩ := dispatch_head hhandler
      rw [if_pos haccepted, hfirst] at hcalls
      exact hfits.mp (hcalls _ List.mem_cons_self).1
    · intro hcondition
      by_cases haccepted : headerAccepted ip memory (ipHeader data) = true
      · rw [if_pos haccepted]
        by_cases hfound : (ip.rxHandlers.find? fun slot =>
            slot.type = protocol memory (ipHeader data)).bind RxHandler.handler = none
        · rw [dispatch_eq_nil hfound]
          simp
        · refine dispatch_in_frame ⟨Or.inl ?_, hfits.mpr (hcondition ⟨hle, haccepted, hfound⟩)⟩
          rw [hpayload, ipHeader, Nat.add_assoc]
          exact Nat.le_add_right _ _
      · rw [if_neg haccepted]
        simp
  · rw [process_packet_short (Nat.lt_of_not_le hle)]
    exact iff_of_true (by simp) fun hdispatched => absurd hdispatched.1 hle

/-- A memory with a frame of 64 bytes at address 4096: an echo request from 10.0.0.1 to 10.0.0.2 in
an IP packet with the given length and checksum fields. -/
def echoFrame (lengthHigh lengthLow csumHigh csumLow : UInt8) : Mem where
  byte address := (List.replicate 4120 0 ++
    [0x45, 0, lengthHigh, lengthLow, 0, 0, 0, 0, 64, 1, csumHigh, csumLow, 10, 0, 0, 1, 10, 0, 0, 2,
      8, 0, 0, 0]).getD address 0

/-- The bytes of the frame without the empty memory in front of it. -/
theorem echo_frame_eq (lengthHigh lengthLow csumHigh csumLow : UInt8) :
    echoFrame lengthHigh lengthLow csumHigh csumLow =
      ⟨fun address => if address < 4120 then 0 else
        [0x45, 0, lengthHigh, lengthLow, 0, 0, 0, 0, 64, 1, csumHigh, csumLow, 10, 0, 0, 1, 10, 0, 0,
          2, 8, 0, 0, 0].getD (address - 4120) 0⟩ := by
  refine congrArg Mem.mk (funext fun address => ?_)
  simp only [List.getD_eq_getElem?_getD, List.getElem?_append, List.length_replicate]
  split
  · next hlow => rw [List.getElem?_replicate, if_pos hlow, Option.getD_some]
  · rfl

/-- The host 10.0.0.2 with a handler for each of the two protocols. -/
def echoHost : Ipv4 where
  addr := 0x0a000002
  rxHandlers := [⟨1, some .icmp⟩, ⟨6, some (.tcp true)⟩, ⟨0, none⟩]

/-- A request whose length fits is handled inside its frame. -/
theorem in_frame_echo : Dispatched echoHost (echoFrame 0 40 0x66 0xd3) 4096 64 ∧
    ∀ call ∈ processPacket echoHost (echoFrame 0 40 0x66 0xd3) (receivedSockbuf 4096 64),
      InFrame (echoFrame 0 40 0x66 0xd3) 4096 64 call :=
  ⟨by rw [echo_frame_eq]; decide +kernel,
    (in_frame_iff echoHost (echoFrame 0 40 0x66 0xd3) 4096 (by decide)).mpr
      fun _ => by rw [echo_frame_eq]; decide +kernel⟩

/-- A request of 64 bytes that announces 1500 is handed over with a payload of 1480 bytes, and the
reply is made of 1476 bytes behind its header. -/
theorem long_length_leaves_frame :
    ∃ call ∈ processPacket echoHost (echoFrame 5 0xdc 0x61 0x1f) (receivedSockbuf 4096 64),
      call.skb.payloadEnd = 4140 + 1480 ∧
      call.handler.readsPayload (echoFrame 5 0xdc 0x61 0x1f) call.skb = some (4144, 1476) ∧
      ¬ InFrame (echoFrame 5 0xdc 0x61 0x1f) 4096 64 call := by
  have hcalls : (processPacket echoHost (echoFrame 5 0xdc 0x61 0x1f) (receivedSockbuf 4096 64)).map
      (fun call => (call.skb.payloadEnd,
        call.handler.readsPayload (echoFrame 5 0xdc 0x61 0x1f) call.skb)) =
      [(5620, some (4144, 1476))] := by
    rw [echo_frame_eq]
    decide +kernel
  obtain ⟨call, hcall, heq⟩ := List.exists_of_mem_map (hcalls ▸ List.mem_singleton_self _)
  obtain ⟨hend, hreads⟩ := Prod.mk.inj heq
  refine ⟨call, hcall, hend, hreads, fun hinside => ?_⟩
  have hle := hinside.1
  omega

end Otrix.Net
