import Otrix.Net.TcpTable

/-!
# Answers to resets

A segment with the RST flag must not be answered, or two hosts can reset each other without end.
The only place that looks at the flag is `handle_close_wait_state`. Everywhere else a reset is
handled by its other flags and numbers: `process_packet` answers it when no socket has its port,
a listening socket answers it as a SYN, an ACK or neither, and an established connection answers it
without an ACK with a reset, and otherwise as a segment of data.

`Ignores` lists the resets that are not answered, at each of the three levels, and the results say
that there are no others.
-/

namespace Otrix.Net

open Linked Machine

namespace TcpSocket

/-- `handle_segment` takes the segment and sends no acknowledgement. -/
def TakesQuietly (socket : TcpSocket) (data : Segment) : Prop :=
  ¬ data.seq < socket.ack ∧
    data.payloadSize ≤ sub64 socket.recvWindowSize socket.recvWindowUsed ∧
    data.flags &&& tcpFlagPsh = 0 ∧ socket.recvWindowSize ≠ 0 ∧ ¬ isFin data

/-- The connection does not answer a reset: it is not established, or it takes the segment as
data. -/
def Ignores (socket : TcpSocket) (data : Segment) : Prop :=
  socket.state = .established → data.flags &&& tcpFlagAck ≠ 0 ∧ socket.TakesQuietly data

theorem sent_send_packet_ne (socket : TcpSocket) (flags : UInt8) :
    (socket.sendPacket flags).sent ≠ socket.sent :=
  List.cons_ne_self _ _

theorem sent_answer_segment_iff (socket : TcpSocket) (data : Segment) :
    (socket.answerSegment data).sent = socket.sent ↔
      ¬ (data.flags &&& tcpFlagPsh ≠ 0 ∨ socket.recvWindowSize = 0 ∨ isFin data) := by
  unfold answerSegment
  split
  · next hanswer => exact iff_of_false (sent_send_packet_ne _ _) (not_not.mpr hanswer)
  · next hanswer => exact iff_of_true rfl hanswer

theorem sent_handle_segment_iff (socket : TcpSocket) (copy : Nat) (data : Segment) :
    (socket.handleSegment copy data).sent = socket.sent ↔ socket.TakesQuietly data := by
  rw [handle_segment_eq, TakesQuietly]
  by_cases hdropped : socket.TreatsAsOld data ∨
      sub64 socket.recvWindowSize socket.recvWindowUsed < data.payloadSize
  · rw [if_pos hdropped]
    exact iff_of_false (sent_send_packet_ne _ _) fun h =>
      hdropped.elim h.1 (Nat.not_lt.mpr h.2.1)
  · obtain ⟨hseq, hwindow⟩ := not_or.mp hdropped
    have hquiet : (¬ data.seq < socket.ack ∧
        data.payloadSize ≤ sub64 socket.recvWindowSize socket.recvWindowUsed ∧
        data.flags &&& tcpFlagPsh = 0 ∧ socket.recvWindowSize ≠ 0 ∧ ¬ isFin data) ↔
        ¬ (data.flags &&& tcpFlagPsh ≠ 0 ∨ socket.recvWindowSize = 0 ∨ isFin data) := by
      rw [and_iff_right (show ¬ data.seq < socket.ack from hseq),
        and_iff_right (Nat.not_lt.mp hwindow), not_or, not_or, not_not]
    -- taking the segment sends nothing
    have htaken : (socket.takeSegment copy data).sent = socket.sent ∧
        (socket.takeSegment copy data).recvWindowSize = socket.recvWindowSize := by
      obtain ⟨_, _, _, _, _, htake⟩ := socket.take_segment_frame copy data
      rw [htake]
      exact ⟨rfl, rfl⟩
    rw [if_neg hdropped, hquiet, ← htaken.1, sent_answer_segment_iff, htaken.2]

theorem sent_process_packet_iff (socket : TcpSocket) (copy : Nat) {data : Segment}
    (hrst : data.flags &&& tcpFlagRst ≠ 0) :
    (socket.processPacket copy data).sent = socket.sent ↔ socket.Ignores data := by
  unfold processPacket Ignores
  cases hstate : socket.state with
  | established =>
    simp only [handleEstablishedState, true_implies]
    by_cases hack : data.flags &&& tcpFlagAck ≠ 0
    · rw [if_pos hack, and_iff_right hack]
      exact sent_handle_segment_iff socket copy data
    · rw [if_neg hack]
      exact iff_of_false (sent_send_packet_ne _ _) fun h => hack h.1
  | closeWait =>
    have hignored : (socket.handleCloseWaitState copy data).sent = socket.sent := by
      rw [handleCloseWaitState, if_pos hrst]
    exact iff_of_true hignored fun hestablished => by cases hestablished
  | _ => exact iff_of_true rfl fun hestablished => by cases hestablished

/-- When `accept_connection` sends nothing for the new connection. -/
theorem sent_accepted_iff (links : Links) (buffers : Nat → Segment) (remoteWindowSize : Nat)
    (seq : UInt32) (copy : Nat) (data : Segment) :
    (accepted links buffers remoteWindowSize seq copy data).sent = [] ↔
      (0 < data.payloadSize → data.payloadSize ≤ sub64 tcpInitialWindowSize data.payloadSize ∧
        data.flags &&& tcpFlagPsh = 0 ∧ ¬ isFin data) := by
  unfold accepted
  by_cases hpayload : 0 < data.payloadSize
  · have hsent := sent_handle_segment_iff
      (connected links buffers remoteWindowSize seq data) copy data
    rw [if_pos hpayload, forall_prop_of_true hpayload]
    refine hsent.trans ⟨fun h => ⟨h.2.1, h.2.2.1, h.2.2.2.2⟩, fun h => ?_⟩
    exact ⟨UInt32.lt_irrefl _, h.1, h.2.1, show tcpInitialWindowSize ≠ 0 by decide, h.2.2⟩
  · rw [if_neg hpayload]
    exact iff_of_true rfl fun h => absurd h hpayload

end TcpSocket

/-! ## The listening socket -/

/-- The listening socket does not answer a reset. As a SYN, the reset finds the SYN cache full and
without an entry for its sender. As an ACK, it completes a handshake, and either the backlog is full
or the new connection takes it without an acknowledgement. -/
def Listener.Ignores (listener : Listener) (data : Incoming) : Prop :=
  if data.IsSyn then
    listener.synCache.find (data.socketId listener.port) = some 0 ∧ listener.synCache.poolHead = 0
  else data.flags &&& tcpFlagAck = tcpFlagAck ∧ ∃ node, node ≠ 0 ∧
    listener.synCache.find (data.socketId listener.port) = some node ∧
    data.seq = (listener.synCache.value node).remoteIsn + 1 ∧
    data.ackNumber = (listener.synCache.value node).isn + 1 ∧
    (listener.listenBacklog.full ∨ (0 < data.payloadSize →
      data.payloadSize ≤ sub64 tcpInitialWindowSize data.payloadSize ∧
        data.flags &&& tcpFlagPsh = 0 ∧ ¬ TcpSocket.isFin data.toSegment))

/-- Nothing is sent. -/
def ListenAction.Quiet : ListenAction → Prop
  | .noMemory => True
  | .created _ _ processed => processed.sent = []
  | _ => False

section

variable {listener after : Listener} {data : Incoming} {action : ListenAction}

theorem handle_syn_quiet_iff {tsc : Nat} (h : listener.handleSyn data tsc = some (after, action)) :
    action.Quiet ↔ listener.synCache.find (data.socketId listener.port) = some 0 ∧
      listener.synCache.poolHead = 0 := by
  obtain ⟨node, hfind, hrest⟩ := Option.bind_eq_some_iff.mp h
  rw [hfind, Option.some.injEq]
  by_cases hnode : node = 0
  · simp only [hnode, ne_eq, not_true_eq_false, if_false] at hrest
    rw [and_iff_right hnode]
    by_cases hfull : listener.synCache.poolHead = 0
    · simp only [PooledHashMap.insert, if_pos hfull] at hrest
      cases hrest
      exact iff_of_true trivial hfull
    · simp only [PooledHashMap.insert, if_neg hfull] at hrest
      cases hrest
      exact iff_of_false id hfull
  · simp only [hnode, ne_eq, not_false_eq_true, if_true] at hrest
    refine iff_of_false ?_ fun h => hnode h.1
    split at hrest
    · cases hrest
      exact id
    · cases hrest
      exact id

theorem accept_connection_quiet_iff {new : NewSocket}
    (h : listener.acceptConnection data new = some (after, action)) :
    action.Quiet ↔ ∃ node, node ≠ 0 ∧
      listener.synCache.find (data.socketId listener.port) = some node ∧
      data.seq = (listener.synCache.value node).remoteIsn + 1 ∧
      data.ackNumber = (listener.synCache.value node).isn + 1 ∧
      (listener.listenBacklog.full ∨ (0 < data.payloadSize →
        data.payloadSize ≤ sub64 tcpInitialWindowSize data.payloadSize ∧
          data.flags &&& tcpFlagPsh = 0 ∧ ¬ TcpSocket.isFin data.toSegment)) := by
  obtain ⟨node, hfind, hrest⟩ := Option.bind_eq_some_iff.mp h
  have hunique : ∀ other, listener.synCache.find (data.socketId listener.port) = some other →
      other = node := fun other hother => Option.some.inj (hother.symm.trans hfind)
  by_cases hnode : node = 0
  · rw [if_pos hnode] at hrest
    cases hrest
    refine iff_of_false id ?_
    rintro ⟨other, hne, hother, _⟩
    exact hne ((hunique other hother).trans hnode)
  · rw [if_neg hnode] at hrest
    by_cases hmismatch : data.seq ≠ (listener.synCache.value node).remoteIsn + 1 ∨
        data.ackNumber ≠ (listener.synCache.value node).isn + 1
    · simp only [if_pos hmismatch] at hrest
      cases hrest
      refine iff_of_false id ?_
      rintro ⟨other, _, hother, hseq, hack, _⟩
      rw [hunique other hother] at hseq hack
      exact hmismatch.elim (fun h => h hseq) fun h => h hack
    · simp only [if_neg hmismatch] at hrest
      simp only [ne_eq, not_or, not_not] at hmismatch
      by_cases hfull : listener.listenBacklog.full
      · rw [if_pos hfull] at hrest
        cases hrest
        exact iff_of_true trivial ⟨node, hnode, hfind, hmismatch.1, hmismatch.2, Or.inl hfull⟩
      · rw [if_neg hfull] at hrest
        cases hrest
        refine (TcpSocket.sent_accepted_iff _ _ _ _ _ _).trans ⟨fun hquiet =>
          ⟨node, hnode, hfind, hmismatch.1, hmismatch.2, Or.inr hquiet⟩, ?_⟩
        rintro ⟨_, _, _, _, _, hquiet⟩
        exact hquiet.resolve_left hfull

/-- A connection is created where `new` has put it. -/
theorem handle_listen_state_address {tsc address : Nat} {new : NewSocket}
    {connection processed : TcpSocket}
    (h : listener.handleListenState data tsc new =
      some (after, .created address connection processed)) : address = new.address := by
  unfold Listener.handleListenState at h
  split at h
  · obtain ⟨node, _, hrest⟩ := Option.bind_eq_some_iff.mp h
    split at hrest
    · simp only at hrest
      split at hrest
      · cases hrest
      · cases hrest
    · simp only at hrest
      split at hrest
      · cases hrest
      · cases hrest
  · split at h
    · obtain ⟨node, _, hrest⟩ := Option.bind_eq_some_iff.mp h
      split at hrest
      · cases hrest
      · simp only at hrest
        split at hrest
        · cases hrest
        · split at hrest
          · cases hrest
          · cases hrest
            rfl
    · cases h

theorem handle_listen_state_quiet_iff {tsc : Nat} {new : NewSocket}
    (h : listener.handleListenState data tsc new = some (after, action)) :
    action.Quiet ↔ listener.Ignores data := by
  unfold Listener.handleListenState at h
  unfold Listener.Ignores
  by_cases hsyn : data.IsSyn
  · rw [if_pos hsyn] at h ⊢
    exact handle_syn_quiet_iff h
  · rw [if_neg hsyn] at h ⊢
    by_cases hack : data.flags &&& tcpFlagAck = tcpFlagAck
    · rw [if_pos hack] at h
      rw [and_iff_right hack]
      exact accept_connection_quiet_iff h
    · rw [if_neg hack] at h
      cases h
      exact iff_of_false id fun h => hack h.1

end

/-! ## The layer -/

/-- The packets that a socket has sent. -/
def TcpObject.sent : TcpObject → List Packet
  | .connected socket => socket.sent
  | _ => []

/-- A socket does not answer a reset. -/
def TcpObject.Ignores (data : Incoming) : TcpObject → Prop
  | .closed => True
  | .listening listener => listener.Ignores data
  | .connected socket => socket.Ignores data.toSegment

namespace Tcp

/-- The packets that the socket at an address has sent. -/
def sentBy (tcp : Tcp) (address : Nat) : List Packet :=
  ((tcp.objects address).map TcpObject.sent).getD []

/-- Neither the layer nor a socket has sent a packet. -/
structure Quiet (before after : Tcp) : Prop where
  layer : after.sent = before.sent
  sockets : ∀ address, after.sentBy address = before.sentBy address

/-- The node of the socket that `process_packet` passes a packet to. -/
def route (tcp : Tcp) (data : Incoming) : Option Nat := do
  let connectedNode ← tcp.findConnected (data.socketId data.destPort)
  if data.flags &&& tcpFlagSyn ≠ 0 ∨ connectedNode = 0 then tcp.findListen ⟨data.destPort, 0, 0⟩
  else some connectedNode

/-- The layer does not answer a reset: there is a socket for it, which does not answer it. -/
def Ignores (tcp : Tcp) (data : Incoming) : Prop :=
  ∃ hmNode object, tcp.route data = some hmNode ∧ hmNode ≠ 0 ∧
    tcp.objects hmNode = some object ∧ object.Ignores data

section

variable {tcp after : Tcp} {data : Incoming} {hmNode : Nat}

theorem sent_by_update (tcp : Tcp) (address : Nat) (object : TcpObject) (other : Nat) :
    sentBy { tcp with objects := Function.update tcp.objects address (some object) } other =
      if other = address then object.sent else tcp.sentBy other := by
  show ((Function.update tcp.objects address (some object) other).map TcpObject.sent).getD [] = _
  by_cases heq : other = address
  · rw [if_pos heq, heq, Function.update_self]
    rfl
  · rw [if_neg heq, Function.update_of_ne heq]
    rfl

/-- Replacing one object is quiet if the new one has sent what the old one had. -/
theorem quiet_update_iff (tcp : Tcp) (address : Nat) (object : TcpObject) :
    Quiet tcp { tcp with objects := Function.update tcp.objects address (some object) } ↔
      object.sent = tcp.sentBy address := by
  constructor
  · intro hquiet
    have hsame := hquiet.sockets address
    rwa [sent_by_update, if_pos rfl] at hsame
  · refine fun hsame => ⟨rfl, fun other => ?_⟩
    rw [sent_by_update]
    split
    · next heq => rw [hsame, heq]
    · rfl

theorem not_quiet_reply (tcp : Tcp) {after : Tcp} {reply : Reply} (h : after.sent = reply :: tcp.sent) :
    ¬ Quiet tcp after :=
  fun hquiet => List.cons_ne_self _ _ (h.symm.trans hquiet.layer)

theorem add_connected_socket_frame {sock : Nat} {peer : SocketId} {ret : Kerror}
    (h : tcp.addConnectedSocket sock peer = some (ret, after)) :
    after.objects = tcp.objects ∧ after.sent = tcp.sent := by
  obtain ⟨node, _, hrest⟩ := Option.bind_eq_some_iff.mp h
  split at hrest
  · cases hrest
    exact ⟨rfl, rfl⟩
  · cases hrest
    exact ⟨rfl, rfl⟩

theorem perform_quiet_iff {peer : SocketId} {action : ListenAction}
    (hfresh : ∀ address connection processed, action = .created address connection processed →
      tcp.objects address = none)
    (h : tcp.perform peer action = some after) : Quiet tcp after ↔ action.Quiet := by
  cases action with
  | recorded entry reply =>
    cases h
    exact iff_of_false (not_quiet_reply tcp rfl) id
  | repeated reply =>
    cases h
    exact iff_of_false (not_quiet_reply tcp rfl) id
  | refused reply =>
    cases h
    exact iff_of_false (not_quiet_reply tcp rfl) id
  | noMemory =>
    cases h
    exact iff_of_true ⟨rfl, fun _ => rfl⟩ trivial
  | created address connection processed =>
    obtain ⟨⟨ret, entered⟩, hadd, hrest⟩ := Option.bind_eq_some_iff.mp h
    cases hrest
    obtain ⟨hobjects, hsent⟩ := add_connected_socket_frame hadd
    have hnone : tcp.sentBy address = [] := by
      rw [sentBy, hfresh address connection processed rfl]
      rfl
    rw [show ListenAction.Quiet (.created address connection processed) =
      ((TcpObject.connected processed).sent = []) from rfl, ← hnone, ← quiet_update_iff]
    constructor
    · exact fun hquiet => ⟨rfl, fun other => by
        rw [← hquiet.sockets other, sentBy, sentBy, hobjects]⟩
    · exact fun hquiet => ⟨hsent, fun other => by
        rw [← hquiet.sockets other, sentBy, sentBy, hobjects]⟩

/-- When the socket that a reset is passed to does not answer it. -/
theorem deliver_quiet_iff {tsc copy : Nat} {new : NewSocket} (hrst : data.flags &&& tcpFlagRst ≠ 0)
    (hfresh : tcp.objects new.address = none)
    (h : tcp.deliver hmNode data tsc new copy = some after) :
    Quiet tcp after ↔
      hmNode ≠ 0 ∧ ∃ object, tcp.objects hmNode = some object ∧ object.Ignores data := by
  unfold deliver at h
  by_cases hnull : hmNode = 0
  · rw [if_pos hnull] at h
    cases h
    exact iff_of_false (not_quiet_reply tcp rfl) fun h => h.1 hnull
  · rw [if_neg hnull] at h
    obtain ⟨object, hobject, hrest⟩ := Option.bind_eq_some_iff.mp h
    have hignores : (hmNode ≠ 0 ∧ ∃ object, tcp.objects hmNode = some object ∧
        object.Ignores data) ↔ object.Ignores data := by
      rw [hobject]
      exact ⟨fun ⟨_, _, hsome, h⟩ => Option.some.inj hsome ▸ h, fun h => ⟨hnull, object, rfl, h⟩⟩
    have hsentBy : tcp.sentBy hmNode = object.sent := by
      rw [sentBy, hobject]
      rfl
    rw [hignores]
    cases object with
    | closed =>
      cases hrest
      exact iff_of_true ⟨rfl, fun _ => rfl⟩ trivial
    | connected socket =>
      cases hrest
      rw [quiet_update_iff, hsentBy]
      exact socket.sent_process_packet_iff copy hrst
    | listening listener =>
      obtain ⟨⟨listener', action⟩, hhandle, hperform⟩ := Option.bind_eq_some_iff.mp hrest
      -- the listening socket itself has no packets of its own
      have hset := (quiet_update_iff tcp hmNode (.listening listener')).mpr hsentBy.symm
      have hperformed := perform_quiet_iff (fun address connection processed haction => by
        subst haction
        rw [handle_listen_state_address hhandle]
        refine (Function.update_of_ne ?_ _ _).trans hfresh
        rintro rfl
        rw [hfresh] at hobject
        cases hobject) hperform
      rw [← show action.Quiet ↔ TcpObject.Ignores data (.listening listener) from
        handle_listen_state_quiet_iff hhandle, ← hperformed]
      constructor
      · exact fun hquiet => ⟨hquiet.layer.trans hset.layer.symm, fun other =>
          (hquiet.sockets other).trans (hset.sockets other).symm⟩
      · exact fun hquiet => ⟨hquiet.layer.trans hset.layer, fun other =>
          (hquiet.sockets other).trans (hset.sockets other)⟩

/-- `process_packet` finds the socket and passes the packet on. -/
theorem process_packet_eq (tcp : Tcp) (data : Incoming) (tsc : Nat) (new : NewSocket) (copy : Nat) :
    tcp.processPacket data tsc new copy =
      tcp.route data >>= fun hmNode => tcp.deliver hmNode data tsc new copy := by
  unfold processPacket route
  rw [bind_assoc]
  refine bind_congr fun connectedNode => ?_
  simp only
  split
  · rfl
  · rfl

end

end Tcp

/-- Whatever the sockets and the SYN caches of the layer are, a reset is not answered exactly when
the layer ignores it. The layer does return from every packet that follows a run of events. -/
theorem reset_unanswered_iff (tcp : Tcp) (data : Incoming) (tsc : Nat) (new : NewSocket) (copy : Nat)
    (hrst : data.flags &&& tcpFlagRst ≠ 0) (hfresh : tcp.objects new.address = none) :
    (∀ after, tcp.processPacket data tsc new copy = some after →
      (tcp.Quiet after ↔ tcp.Ignores data)) ∧
    ∀ (hashFunc : SocketId → Nat) (nodes : HashMapNodes SocketId) (events : List TcpEvent),
      Meets Tcp.step Tcp.Allowed (Tcp.initial hashFunc nodes) events →
      run Tcp.step (Tcp.initial hashFunc nodes) events = some tcp →
      tcp.Allowed (.packet data tsc new copy) →
      ∃ after, tcp.processPacket data tsc new copy = some after := by
  refine ⟨fun after hprocess => ?_, fun hashFunc nodes events hmeets hrun hallowed => ?_⟩
  · rw [Tcp.process_packet_eq] at hprocess
    obtain ⟨hmNode, hroute, hdeliver⟩ := Option.bind_eq_some_iff.mp hprocess
    rw [Tcp.deliver_quiet_iff hrst hfresh hdeliver]
    constructor
    · rintro ⟨hnull, object, hobject, hignores⟩
      exact ⟨hmNode, object, hroute, hnull, hobject, hignores⟩
    · rintro ⟨other, object, hother, hnull, hobject, hignores⟩
      obtain rfl : other = hmNode := Option.some.inj (hother.symm.trans hroute)
      exact ⟨hnull, object, hobject, hignores⟩
  · obtain ⟨listens, connects, hsound⟩ := run_invariant_of_meets
      (fun tcp : Tcp => ∃ listens connects, tcp.Sound listens connects)
      (fun _ _ _ ⟨_, _, h⟩ hevent hstep => by
        obtain ⟨after, hafter, hsound⟩ := h.step hevent
        exact Option.some.inj (hafter.symm.trans hstep) ▸ hsound)
      ⟨_, _, Tcp.sound_initial hashFunc nodes⟩ hmeets hrun
    obtain ⟨after, hprocess, _⟩ := hsound.step hallowed
    exact ⟨after, hprocess⟩

/-- A layer with one listening socket, whose SYN cache has no room. -/
def crowdedTcp : Tcp :=
  (emptyTcp.step (.listen 8 80 0 ⟨⟨fun _ => 0, fun _ => 0⟩, fun _ => ⟨0, 0, 0⟩⟩
    fun _ => ⟨0, 0⟩)).getD emptyTcp

/-- A reset with a SYN is not answered when the SYN cache is full. -/
theorem reset_unanswered_by_full_cache : ∃ after,
    crowdedTcp.processPacket (peerPacket (tcpFlagSyn ||| tcpFlagRst) 100 0) 5 (newSocketAt 16) 24 =
      some after ∧ crowdedTcp.Quiet after := by
  refine exists_of_isSome (by decide +kernel) ?_
  intro after hafter
  refine ((reset_unanswered_iff crowdedTcp _ _ _ _ (by decide) rfl).1 after
    hafter).mpr ⟨8, .listening (Listener.listen 80 0 (fun id => id.remotePort.toNat)
      ⟨⟨fun _ => 0, fun _ => 0⟩, fun _ => ⟨0, 0, 0⟩⟩ fun _ => ⟨0, 0⟩), by decide +kernel,
      by decide, rfl, ?_⟩
  show Listener.Ignores _ _
  rw [Listener.Ignores, if_pos (by decide)]
  decide +kernel

/-- A reset for a port without a socket is answered with a reset, and so is a reset without an ACK
that reaches an established connection. -/
theorem reset_is_answered :
    (emptyTcp.processPacket (peerPacket tcpFlagRst 100 0) 5 (newSocketAt 16) 24).map
        (fun tcp => tcp.sent.map fun reply => reply.flags) = some [tcpFlagRst ||| tcpFlagAck] ∧
    (run Tcp.step emptyTcp (twoPeers.take 3 ++
        [.packet (peerPacket tcpFlagRst 101 6) 7 (newSocketAt 32) 40])).map
      (fun tcp => (tcp.sentBy 16).map Packet.flags) = some [tcpFlagRst] := by
  decide +kernel

end Otrix.Net
