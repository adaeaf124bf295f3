import Otrix.Foundation.HandlerTable
import Otrix.Net.Transmit

/-!
# Subscribed handlers and the packets they are called for

`subscribe_to_rx` of `ipv4` and of `virtio_net`, and the loops that call the handlers
for a received packet. Both tables mark a free slot by the type `unknown`, whose
number is a value that a packet can carry. `dispatch_exact_iff` says what follows:
packets of every other type reach the handlers that were subscribed for them and
nothing else, and a packet of type `unknown` reaches a null handler unless the table
is full.
-/

namespace Otrix.Net

open Bytes Machine

/-! ## The network layer -/

/-- `ipv4::MAX_RX_HANDLERS`. -/
def ipv4MaxRxHandlers : Nat := 3

/-- The slot that a subscription fills in. -/
def RxHandler.subscribed (request : Nat × L3Handler) : RxHandler :=
  ⟨request.1, some request.2⟩

/-- `ipv4::subscribe_to_rx` on `rx_handlers_`. `none` is `E_NOMEM`. -/
def ipv4SubscribeToRx (rxHandlers : List RxHandler) (request : Nat × L3Handler) :
    Option (List RxHandler) :=
  HandlerTable.subscribe (fun slot => slot.type = 0) (RxHandler.subscribed request) rxHandlers

/-- The checks of `ipv4::process_packet` in front of the loop, and the header that it reads. -/
def ipv4Accepts (ip : Ipv4) (memory : Mem) (skb : Sockbuf) : Prop :=
  ¬ skb.payloadSize < ipHdrBytes ∧
    headerAccepted ip memory ((skb.addParsedHeader ipHdrBytes .ip).headers .ip) = true
  deriving Decidable

/-- The protocol of a packet that is given to `ipv4::process_packet`. -/
def ipv4PacketType (memory : Mem) (skb : Sockbuf) : Nat :=
  protocol memory ((skb.addParsedHeader ipHdrBytes .ip).headers .ip)

/-- The handlers that `ipv4::process_packet` calls. `none` is the call of a null pointer. -/
def ipv4Calls (ip : Ipv4) (memory : Mem) (skb : Sockbuf) : List (Option L3Handler) :=
  if ipv4Accepts ip memory skb then
    HandlerTable.calls (fun slot => slot.type = ipv4PacketType memory skb) RxHandler.handler
      ip.rxHandlers
  else []

theorem dispatch_handlers (memory : Mem) (proto : Nat) (slots : List RxHandler) (skb : Sockbuf) :
    (dispatch memory proto slots skb).map HandlerCall.handler =
      (HandlerTable.calls (fun slot => slot.type = proto) RxHandler.handler slots).filterMap id := by
  induction slots generalizing skb with
  | nil => rfl
  | cons slot slots ih =>
    unfold dispatch HandlerTable.calls
    by_cases hhit : slot.type = proto
    · rw [if_pos hhit, if_pos (decide_eq_true hhit)]
      cases slot.handler with
      | none => rfl
      | some handler => exact congrArg (handler :: ·) (ih _)
    · rw [if_neg hhit, if_neg (by simpa using hhit), ih]

/-- The handlers that `process_packet` calls are those of its loop, up to a null one. -/
theorem process_packet_handlers (ip : Ipv4) (memory : Mem) (skb : Sockbuf) :
    (processPacket ip memory skb).map HandlerCall.handler =
      (ipv4Calls ip memory skb).filterMap id := by
  by_cases haccepts : ipv4Accepts ip memory skb
  · have ⟨hlong, haccepted⟩ := haccepts
    rw [ipv4Calls, if_pos haccepts, processPacket, if_neg hlong]
    simp only [haccepted, if_true]
    exact dispatch_handlers _ _ _ _
  · rw [ipv4Calls, if_neg haccepts]
    unfold processPacket
    split
    · rfl
    · next hlong =>
      dsimp only
      rw [if_neg fun haccepted => haccepts ⟨hlong, haccepted⟩]
      rfl

/-! ## The link -/

/-- `virtio_net::MAX_RX_HANDLERS`. -/
def virtioNetMaxRxHandlers : Nat := 2

/-- The slot that a subscription fills in. -/
def LinkRxHandler.subscribed (request : Ethertype × LinkHandler) : LinkRxHandler :=
  ⟨request.1, some request.2⟩

/-- `virtio_net::subscribe_to_rx` on `rx_handlers_`. `none` is `E_NOMEM`. -/
def virtioNetSubscribeToRx (rxHandlers : List LinkRxHandler) (request : Ethertype × LinkHandler) :
    Option (List LinkRxHandler) :=
  HandlerTable.subscribe (fun slot => slot.type = .unknown) (LinkRxHandler.subscribed request)
    rxHandlers

/-- The check of `virtio_net::rx_thread` in front of the loop. -/
def linkAccepts (net : VirtioNet) (memory : Mem) (skb : Sockbuf) : Prop :=
  memory.read (skb.headers .ethernet) 6 = broadcastMac.bytes ∨
    memory.read (skb.headers .ethernet) 6 = net.addr.bytes
  deriving Decidable

/-- The type of a frame that `virtio_net::rx_thread` reads. -/
def linkPacketType (memory : Mem) (skb : Sockbuf) : Nat :=
  bswap16 (memory.load (skb.headers .ethernet + 12) 2)

/-- The handlers that `virtio_net::rx_thread` calls for a frame. -/
def linkCalls (net : VirtioNet) (memory : Mem) (data size : Nat) : List (Option LinkHandler) :=
  let skb := receivedSockbuf data size
  if linkAccepts net memory skb then
    HandlerTable.calls (fun slot => slot.type.value = linkPacketType memory skb)
      LinkRxHandler.handler net.rxHandlers
  else []

/-- The handler that `rx_thread` calls first is the first of its loop. -/
theorem rx_thread_head (net : VirtioNet) (memory : Mem) (data size : Nat) :
    rxThread net memory data size =
      (linkCalls net memory data size).head?.join.map (·, receivedSockbuf data size) := by
  unfold rxThread linkCalls
  dsimp only
  by_cases haccepts : linkAccepts net memory (receivedSockbuf data size)
  · rw [if_pos haccepts, if_neg (fun h => haccepts.elim h.1 h.2), HandlerTable.calls_head]
    rfl
  · rw [if_neg haccepts, if_pos (not_or.mp haccepts)]
    rfl

/-! ## Exact dispatch -/

/-- The calls of the network layer, for a packet that passes the checks. -/
theorem ipv4_calls_iff {requests : List (Nat × L3Handler)} {rxHandlers : List RxHandler}
    (hrun : run ipv4SubscribeToRx (List.replicate ipv4MaxRxHandlers ⟨0, none⟩) requests =
      some rxHandlers)
    {addr : Nat} {memory : Mem} {skb : Sockbuf}
    (haccepts : ipv4Accepts ⟨addr, rxHandlers⟩ memory skb) :
    ipv4Calls ⟨addr, rxHandlers⟩ memory skb =
        (requests.filter fun request => request.1 = ipv4PacketType memory skb).map
          (fun request => some request.2) ↔
      ipv4PacketType memory skb ≠ 0 ∨ rxHandlers = requests.map RxHandler.subscribed := by
  have hfilled : HandlerTable.Filled (fun slot => slot.type = 0) ⟨0, none⟩ RxHandler.subscribed
      requests rxHandlers := HandlerTable.filled_of_run rfl hrun
  have hcalls := hfilled.calls_key_iff RxHandler.handler (ipv4PacketType memory skb) rfl rfl
    fun _ => Option.some_ne_none _
  rw [List.filter_map, List.map_map] at hcalls
  rw [ipv4Calls, if_pos haccepts]
  exact hcalls

/-- The number of a type marks a free slot of the link when the type does. -/
theorem ethertype_value_eq_zero_iff (type : Ethertype) : type.value = 0 ↔ type = .unknown := by
  cases type with
  | unknown => exact iff_of_true rfl rfl
  | ipv4 => exact iff_of_false (by decide) (by decide)
  | arp => exact iff_of_false (by decide) (by decide)

/-- The calls of the link, for a frame that passes the check. -/
theorem link_calls_iff {requests : List (Ethertype × LinkHandler)} {rxHandlers : List LinkRxHandler}
    (hrun : run virtioNetSubscribeToRx
      (List.replicate virtioNetMaxRxHandlers ⟨.unknown, none⟩) requests = some rxHandlers)
    {addr : Mac} {memory : Mem} {data size : Nat}
    (haccepts : linkAccepts ⟨addr, rxHandlers⟩ memory (receivedSockbuf data size)) :
    linkCalls ⟨addr, rxHandlers⟩ memory data size =
        (requests.filter fun request =>
          request.1.value = linkPacketType memory (receivedSockbuf data size)).map
          (fun request => some request.2) ↔
      linkPacketType memory (receivedSockbuf data size) ≠ 0 ∨
        rxHandlers = requests.map LinkRxHandler.subscribed := by
  have hmark : (fun slot : LinkRxHandler => decide (slot.type = .unknown)) =
      fun slot => decide (slot.type.value = 0) := by
    funext slot
    exact decide_eq_decide.mpr (ethertype_value_eq_zero_iff slot.type).symm
  have hfilled : HandlerTable.Filled (fun slot => slot.type = .unknown) ⟨.unknown, none⟩
      LinkRxHandler.subscribed requests rxHandlers := HandlerTable.filled_of_run rfl hrun
  rw [hmark] at hfilled
  have hcalls := hfilled.calls_key_iff LinkRxHandler.handler
    (linkPacketType memory (receivedSockbuf data size)) rfl rfl fun _ => Option.some_ne_none _
  rw [List.filter_map, List.map_map] at hcalls
  unfold linkCalls
  rw [if_pos haccepts]
  exact hcalls

/-- The calls for a packet that passes the checks are those of the handlers that were subscribed for
its type, and no null handler is called, exactly when its type is not `unknown` or the table is full
of the subscriptions. Other packets reach no handler. This holds for the two layers, and the handlers
that `process_packet` and `rx_thread` pass the packet on to are these. -/
theorem dispatch_exact_iff (memory : Mem) :
    (∀ (requests : List (Nat × L3Handler)) (rxHandlers : List RxHandler),
      run ipv4SubscribeToRx (List.replicate ipv4MaxRxHandlers ⟨0, none⟩) requests =
        some rxHandlers →
      ∀ (addr : Nat) (skb : Sockbuf),
        (ipv4Accepts ⟨addr, rxHandlers⟩ memory skb →
          (ipv4Calls ⟨addr, rxHandlers⟩ memory skb =
              (requests.filter fun request => request.1 = ipv4PacketType memory skb).map
                (fun request => some request.2) ↔
            ipv4PacketType memory skb ≠ 0 ∨ rxHandlers = requests.map RxHandler.subscribed)) ∧
        (¬ ipv4Accepts ⟨addr, rxHandlers⟩ memory skb →
          ipv4Calls ⟨addr, rxHandlers⟩ memory skb = []) ∧
        (processPacket ⟨addr, rxHandlers⟩ memory skb).map HandlerCall.handler =
          (ipv4Calls ⟨addr, rxHandlers⟩ memory skb).filterMap id) ∧
    ∀ (requests : List (Ethertype × LinkHandler)) (rxHandlers : List LinkRxHandler),
      run virtioNetSubscribeToRx (List.replicate virtioNetMaxRxHandlers ⟨.unknown, none⟩)
        requests = some rxHandlers →
      ∀ (addr : Mac) (data size : Nat),
        (linkAccepts ⟨addr, rxHandlers⟩ memory (receivedSockbuf data size) →
          (linkCalls ⟨addr, rxHandlers⟩ memory data size =
              (requests.filter fun request =>
                request.1.value = linkPacketType memory (receivedSockbuf data size)).map
                (fun request => some request.2) ↔
            linkPacketType memory (receivedSockbuf data size) ≠ 0 ∨
              rxHandlers = requests.map LinkRxHandler.subscribed)) ∧
        (¬ linkAccepts ⟨addr, rxHandlers⟩ memory (receivedSockbuf data size) →
          linkCalls ⟨addr, rxHandlers⟩ memory data size = []) ∧
        rxThread ⟨addr, rxHandlers⟩ memory data size =
          (linkCalls ⟨addr, rxHandlers⟩ memory data size).head?.join.map
            (·, receivedSockbuf data size) := by
  refine ⟨?_, ?_⟩
  · intro requests rxHandlers hrun addr skb
    refine ⟨ipv4_calls_iff hrun, fun hdropped => ?_, process_packet_handlers _ memory skb⟩
    rw [ipv4Calls, if_neg hdropped]
  · intro requests rxHandlers hrun addr data size
    refine ⟨link_calls_iff hrun, fun hdropped => ?_, rx_thread_head _ memory data size⟩
    unfold linkCalls
    rw [if_neg hdropped]

/-- Memory with an IP header of the given protocol in a frame at 4096, from 10.0.0.1 to
10.0.0.2. -/
def headerOnly (proto csum : Nat) : Mem :=
  (⟨fun _ => 0⟩ : Mem).write 4120 (Mem.fieldBytes (ipFields 20 proto csum 0x0a000001 0x0a000002))

/-- A packet reaches the TCP layer when the two protocols of the kernel are subscribed, and a frame
of type `unknown` reaches nothing when the table of the link is full. -/
theorem dispatch_exact_two_protocols :
    ipv4Calls ⟨0x0a000002, [⟨1, some .icmp⟩, ⟨6, some (.tcp true)⟩, ⟨0, none⟩]⟩ (headerOnly 6 0xe266)
        (receivedSockbuf 4096 64) = [some (.tcp true)] ∧
      linkCalls ⟨⟨List.replicate 6 0, rfl⟩, [⟨.arp, some .arp⟩, ⟨.ipv4, some .ipv4⟩]⟩ ⟨fun _ => 0⟩
        4096 64 = [] := by
  have hpacket := (dispatch_exact_iff (headerOnly 6 0xe266)).1 [(1, .icmp), (6, .tcp true)]
    [⟨1, some .icmp⟩, ⟨6, some (.tcp true)⟩, ⟨0, none⟩] rfl 0x0a000002 (receivedSockbuf 4096 64)
  have hframe := (dispatch_exact_iff ⟨fun _ => 0⟩).2 [(.arp, .arp), (.ipv4, .ipv4)]
    [⟨.arp, some .arp⟩, ⟨.ipv4, some .ipv4⟩] rfl ⟨List.replicate 6 0, rfl⟩ 4096 64
  have hproto : ipv4PacketType (headerOnly 6 0xe266) (receivedSockbuf 4096 64) = 6 := by
    decide +kernel
  have htype : linkPacketType ⟨fun _ => 0⟩ (receivedSockbuf 4096 64) = 0 := by decide +kernel
  have hcalls := (hpacket.1 (by decide +kernel)).mpr (Or.inl (by rw [hproto]; decide))
  have hnone := (hframe.1 (by decide +kernel)).mpr (Or.inr rfl)
  rw [hproto] at hcalls
  rw [htype] at hnone
  exact ⟨hcalls, hnone⟩

/-- A packet of protocol `0` that passes the checks makes the network layer call a null handler when
the two protocols of the kernel are subscribed. So does a frame of type `0` on a link with one
subscription. -/
theorem unknown_type_calls_null :
    run ipv4SubscribeToRx (List.replicate ipv4MaxRxHandlers ⟨0, none⟩)
        [(1, .icmp), (6, .tcp true)] = some [⟨1, some .icmp⟩, ⟨6, some (.tcp true)⟩, ⟨0, none⟩] ∧
      ipv4Calls ⟨0x0a000002, [⟨1, some .icmp⟩, ⟨6, some (.tcp true)⟩, ⟨0, none⟩]⟩
        (headerOnly 0 0xe866) (receivedSockbuf 4096 64) = [none] ∧
      run virtioNetSubscribeToRx (List.replicate virtioNetMaxRxHandlers ⟨.unknown, none⟩)
        [(.ipv4, .ipv4)] = some [⟨.ipv4, some .ipv4⟩, ⟨.unknown, none⟩] ∧
      linkCalls ⟨⟨List.replicate 6 0, rfl⟩, [⟨.ipv4, some .ipv4⟩, ⟨.unknown, none⟩]⟩ ⟨fun _ => 0⟩
        4096 64 = [none] :=
  ⟨rfl, by decide +kernel, rfl, by decide +kernel⟩

end Otrix.Net
