import Otrix.Common.HashMap
import Otrix.Kernel.Msgq
import Otrix.Net.TcpWindow

/-!
# The listening socket

`handle_listen_state` of `net/tcp_socket.cpp` with the SYN cache and the backlog that `listen`
creates. A SYN is recorded in the cache under the identifier of the peer, together with the
initial sequence number that answers it. An ACK is compared with the record, and takes it out of
the cache when it completes the handshake.

`pending` is what the cache is for: the last SYN of a peer that no connection has used up. The
table of the source stands for that map in every run, and everything a packet does is explained
by it.
-/

namespace Otrix.Net

open Linked Machine

/-- `TCP_FLAG_SYN`. -/
def tcpFlagSyn : UInt8 := 0x02

/-- `SYN_CACHE_TABLE_SIZE`. -/
def synCacheTableSize : Nat := 17

/-- `tcp::socket_id`. -/
structure SocketId where
  hostPort : UInt16
  remotePort : UInt16
  remoteIp : UInt32
  deriving DecidableEq

/-- `tcp_socket::syn_cache_entry`. -/
structure SynCacheEntry where
  isn : UInt32
  remoteIsn : UInt32
  deriving DecidableEq

/-- What the tcp layer reads of an incoming packet, in host order: the fields of `Segment`, the ports,
`ack`, and the source address of the IP header. -/
structure Incoming extends Segment where
  saddr : UInt32
  sourcePort : UInt16
  destPort : UInt16
  ackNumber : UInt32

/-- A packet without payload that answers an incoming one. -/
structure Reply extends Packet where
  remoteAddr : UInt32
  sourcePort : UInt16
  destPort : UInt16
  deriving DecidableEq

namespace Incoming

/-- The SYN flag is set. -/
def IsSyn (data : Incoming) : Prop :=
  data.flags &&& tcpFlagSyn = tcpFlagSyn
  deriving Decidable

/-- The identifier of the connection to the sender of a packet. -/
def socketId (data : Incoming) (port : UInt16) : SocketId :=
  ⟨port, data.sourcePort, data.saddr⟩

/-- `tcp::send_reply`. -/
def sendReply (data : Incoming) (flags : UInt8) : Reply where
  remoteAddr := data.saddr
  sourcePort := data.destPort
  destPort := data.sourcePort
  seq := if data.flags &&& tcpFlagAck ≠ 0 then data.ackNumber else 0
  ack := data.seq + UInt32.ofNat data.payloadSize + 1
  flags := flags
  windowSize := 0

/-- `send_syn_ack`. -/
def sendSynAck (data : Incoming) (isn : UInt32) : Reply where
  remoteAddr := data.saddr
  sourcePort := data.destPort
  destPort := data.sourcePort
  seq := isn
  ack := data.seq + UInt32.ofNat data.payloadSize + 1
  flags := tcpFlagSyn ||| tcpFlagAck
  windowSize := tcpInitialWindowSize

end Incoming

/-- `generate_isn`, for a reading of the time stamp counter. -/
def generateIsn (tsc : Nat) : UInt32 :=
  UInt32.ofNat (tsc % (2 ^ 32 - 1))

/-- What `accept_connection` gets from `new`: the address of the socket, the address of the buffer
that its first segment may need, and whatever the memory holds that no constructor writes. -/
structure NewSocket where
  address : Nat
  copy : Nat
  links : Links
  buffers : Nat → Segment
  remoteWindowSize : Nat

/-- A `tcp_socket` in the state `LISTEN`. -/
structure Listener where
  port : UInt16
  synCache : PooledHashMap SocketId SynCacheEntry
  listenBacklog : Msgq

/-- What a packet makes the listening socket do. -/
inductive ListenAction where
  /-- A new SYN is recorded and answered. -/
  | recorded (entry : SynCacheEntry) (reply : Reply)
  /-- A repeated SYN is answered. -/
  | repeated (reply : Reply)
  /-- The packet is answered with a reset. -/
  | refused (reply : Reply)
  /-- `E_NOMEM`: the SYN cache or the backlog is full. -/
  | noMemory
  /-- A connection is created. It is given as it is when it enters the table of connections, and
  when its first segment was processed. -/
  | created (address : Nat) (connection processed : TcpSocket)

/-- Neither is a SYN recorded nor a connection created. -/
def ListenAction.Idle : ListenAction → Prop
  | .recorded _ _ => False
  | .created _ _ _ => False
  | _ => True

/-- The message with a pointer to a socket. -/
def socketPointer (address : Nat) : Message :=
  (List.range 8).map fun i => UInt8.ofNat (address / 2 ^ (8 * i))

namespace Listener

/-- `listen`, for a socket that is bound to the port, on memory that holds anything. -/
def listen (port : UInt16) (backlogSize : Nat) (hashFunc : SocketId → Nat)
    (nodes : HashMapNodes SocketId) (value : Nat → SynCacheEntry) : Listener where
  port := port
  synCache := PooledHashMap.initial backlogSize synCacheTableSize hashFunc nodes value
  listenBacklog := Msgq.initial backlogSize 8

/-- `handle_syn`. -/
def handleSyn (listener : Listener) (data : Incoming) (tsc : Nat) :
    Option (Listener × ListenAction) := do
  let id := data.socketId listener.port
  let synEntry ← listener.synCache.find id
  if synEntry ≠ 0 then
    let entry := listener.synCache.value synEntry
    if data.seq = entry.remoteIsn then some (listener, .repeated (data.sendSynAck entry.isn))
    else some (listener, .refused (data.sendReply (tcpFlagAck ||| tcpFlagRst)))
  else
    let isn := generateIsn tsc
    match listener.synCache.insert id ⟨isn, data.seq⟩ with
    | none => some (listener, .noMemory)
    | some (_, synCache) =>
      some ({ listener with synCache := synCache },
        .recorded ⟨isn, data.seq⟩ (data.sendSynAck isn))

/-- `accept_connection`. -/
def acceptConnection (listener : Listener) (data : Incoming) (new : NewSocket) :
    Option (Listener × ListenAction) := do
  let id := data.socketId listener.port
  let node ← listener.synCache.find id
  if node = 0 then some (listener, .refused (data.sendReply (tcpFlagAck ||| tcpFlagRst)))
  else
    let entry := listener.synCache.value node
    if data.seq ≠ entry.remoteIsn + 1 ∨ data.ackNumber ≠ entry.isn + 1 then
      some (listener, .refused (data.sendReply (tcpFlagAck ||| tcpFlagRst)))
    else if listener.listenBacklog.full then some (listener, .noMemory)
    else
      let seq := entry.isn + 1
      let synCache := listener.synCache.remove node
      let (_, _, backlog) := listener.listenBacklog.write (socketPointer new.address)
      some ({ listener with synCache := synCache, listenBacklog := backlog },
        .created new.address
          (TcpSocket.connected new.links new.buffers new.remoteWindowSize seq data.toSegment)
          (TcpSocket.accepted new.links new.buffers new.remoteWindowSize seq new.copy
            data.toSegment))

/-- `handle_listen_state`. -/
def handleListenState (listener : Listener) (data : Incoming) (tsc : Nat) (new : NewSocket) :
    Option (Listener × ListenAction) :=
  if data.IsSyn then listener.handleSyn data tsc
  else if data.flags &&& tcpFlagAck = tcpFlagAck then listener.acceptConnection data new
  else some (listener, .refused (data.sendReply (tcpFlagRst ||| tcpFlagAck)))

end Listener

/-! ## A listening socket in use -/

/-- A packet that was handled, with the reading of the time stamp counter, what it led to, and the SYN
cache before and after it. -/
structure Handled where
  packet : Incoming
  tsc : Nat
  action : ListenAction
  before : PooledHashMap SocketId SynCacheEntry
  after : PooledHashMap SocketId SynCacheEntry

/-- A listening socket with the packets that it has handled, the last one first. -/
structure Listening where
  listener : Listener
  history : List Handled

/-- A packet arrives, or threads in `accept` change the backlog, in any way. -/
inductive ListenEvent where
  | packet (data : Incoming) (tsc : Nat) (new : NewSocket)
  | accept (backlog : Msgq)

/-- One event. -/
def Listening.step (state : Listening) : ListenEvent → Option Listening
  | .packet data tsc new => do
    let (listener, action) ← state.listener.handleListenState data tsc new
    some ⟨listener, ⟨data, tsc, action, state.listener.synCache, listener.synCache⟩ ::
      state.history⟩
  | .accept backlog => some { state with listener.listenBacklog := backlog }

/-- A map of entries after a packet: a recorded SYN enters it, and a connection uses its entry up. -/
def Handled.update (handled : Handled) (port : UInt16) (entries : SocketId → Option SynCacheEntry) :
    SocketId → Option SynCacheEntry :=
  match handled.action with
  | .recorded entry _ => Function.update entries (handled.packet.socketId port) (some entry)
  | .created _ _ _ => Function.update entries (handled.packet.socketId port) none
  | _ => entries

/-- The entry of the last SYN of a peer that was recorded and that no connection has used up. -/
def pending (port : UInt16) : List Handled → SocketId → Option SynCacheEntry
  | [] => fun _ => none
  | last :: earlier => last.update port (pending port earlier)

/-- What a packet has led to, given the entry that is pending for its sender. -/
structure Explained (pending : Option SynCacheEntry) (handled : Handled) : Prop where
  recorded : ∀ entry reply, handled.action = .recorded entry reply →
    handled.packet.IsSyn ∧ entry = ⟨generateIsn handled.tsc, handled.packet.seq⟩ ∧
      reply = handled.packet.sendSynAck entry.isn
  repeated : ∀ entry, pending = some entry → handled.packet.IsSyn →
    handled.packet.seq = entry.remoteIsn →
      handled.action = .repeated (handled.packet.sendSynAck entry.isn) ∧
        handled.after = handled.before
  created : ∀ address connection processed,
    handled.action = .created address connection processed →
      ∃ entry, pending = some entry ∧ handled.packet.seq = entry.remoteIsn + 1 ∧
        handled.packet.ackNumber = entry.isn + 1 ∧ connection.state = .established ∧
        connection.seq = entry.isn + 1 ∧ connection.ack = entry.remoteIsn + 1

/-! ## One packet -/

variable {handled : Handled}

/-- A packet that records nothing and creates nothing, and does not fail to repeat an answer. -/
theorem Explained.of_idle {pending : Option SynCacheEntry}
    (hidle : handled.action.Idle)
    (hrepeated : ∀ entry, pending = some entry → handled.packet.IsSyn →
      handled.packet.seq = entry.remoteIsn →
        handled.action = .repeated (handled.packet.sendSynAck entry.isn) ∧
          handled.after = handled.before) : Explained pending handled := by
  refine ⟨fun entry reply haction => ?_, hrepeated, fun _ _ _ haction => ?_⟩
  · rw [haction] at hidle
    exact hidle.elim
  · rw [haction] at hidle
    exact hidle.elim

/-- Such a packet leaves the map of entries alone. -/
theorem Handled.update_of_idle (hidle : handled.action.Idle) (port : UInt16)
    (entries : SocketId → Option SynCacheEntry) : handled.update port entries = entries := by
  unfold Handled.update
  cases haction : handled.action with
  | recorded entry reply =>
    rw [haction] at hidle
    exact hidle.elim
  | created address connection processed =>
    rw [haction] at hidle
    exact hidle.elim
  | _ => rfl

variable {port : UInt16} {id : SocketId}

theorem Handled.update_of_ne
    (hne : handled.packet.socketId port ≠ id) (entries : SocketId → Option SynCacheEntry) :
    handled.update port entries id = entries id := by
  unfold Handled.update
  cases handled.action with
  | recorded entry reply => exact Function.update_of_ne hne.symm _ _
  | created address connection processed => exact Function.update_of_ne hne.symm _ _
  | _ => rfl

section

variable {listener : Listener} {cached : SocketId → Option SynCacheEntry} {data : Incoming}

/-- What `handle_syn` does to the map that the cache stands for. -/
theorem handle_syn_spec (h : listener.synCache.Caches cached) (data : Incoming) (tsc : Nat) :
    ∃ after action, listener.handleSyn data tsc = some (after, action) ∧
      after.port = listener.port ∧
      ((∃ entry, cached (data.socketId listener.port) = some entry ∧ after = listener ∧
          (data.seq = entry.remoteIsn ∧ action = .repeated (data.sendSynAck entry.isn) ∨
            data.seq ≠ entry.remoteIsn ∧
              action = .refused (data.sendReply (tcpFlagAck ||| tcpFlagRst)))) ∨
        cached (data.socketId listener.port) = none ∧
          (after = listener ∧ action = .noMemory ∨
            action = .recorded ⟨generateIsn tsc, data.seq⟩ (data.sendSynAck (generateIsn tsc)) ∧
              after.synCache.Caches (Function.update cached (data.socketId listener.port)
                (some ⟨generateIsn tsc, data.seq⟩)))) := by
  rcases h.find_cases (data.socketId listener.port) with ⟨hfind, hnone⟩ | ⟨node, hne, hfind, hsome⟩
  · rcases h.insert hnone ⟨generateIsn tsc, data.seq⟩ with hfull | ⟨node, synCache, hinsert, hcaches⟩
    · refine ⟨listener, .noMemory, ?_, rfl, Or.inr ⟨hnone, Or.inl ⟨rfl, rfl⟩⟩⟩
      simp [Listener.handleSyn, hfind, hfull]
    · refine ⟨{ listener with synCache := synCache }, _, ?_, rfl, Or.inr ⟨hnone, Or.inr ⟨rfl, hcaches⟩⟩⟩
      simp [Listener.handleSyn, hfind, hinsert]
  · by_cases hseq : data.seq = (listener.synCache.value node).remoteIsn
    · refine ⟨listener, _, ?_, rfl, Or.inl ⟨_, hsome, rfl, Or.inl ⟨hseq, rfl⟩⟩⟩
      simp [Listener.handleSyn, hfind, hne, hseq]
    · refine ⟨listener, _, ?_, rfl, Or.inl ⟨_, hsome, rfl, Or.inr ⟨hseq, rfl⟩⟩⟩
      simp [Listener.handleSyn, hfind, hne, hseq]

/-- What `accept_connection` does to the map that the cache stands for. -/
theorem accept_connection_spec (h : listener.synCache.Caches cached) (data : Incoming)
    (new : NewSocket) :
    ∃ after action, listener.acceptConnection data new = some (after, action) ∧
      after.port = listener.port ∧
      (after = listener ∧ (action = .noMemory ∨ ∃ reply, action = .refused reply) ∨
        ∃ entry, cached (data.socketId listener.port) = some entry ∧
          data.seq = entry.remoteIsn + 1 ∧ data.ackNumber = entry.isn + 1 ∧
          action = .created new.address
            (TcpSocket.connected new.links new.buffers new.remoteWindowSize (entry.isn + 1)
              data.toSegment)
            (TcpSocket.accepted new.links new.buffers new.remoteWindowSize (entry.isn + 1) new.copy
              data.toSegment) ∧
          after.synCache.Caches (Function.update cached (data.socketId listener.port) none)) := by
  rcases h.find_cases (data.socketId listener.port) with ⟨hfind, hnone⟩ | ⟨node, hne, hfind, hsome⟩
  · refine ⟨listener, .refused (data.sendReply (tcpFlagAck ||| tcpFlagRst)), ?_, rfl,
      Or.inl ⟨rfl, Or.inr ⟨_, rfl⟩⟩⟩
    simp [Listener.acceptConnection, hfind]
  · by_cases hmatch : data.seq ≠ (listener.synCache.value node).remoteIsn + 1 ∨
        data.ackNumber ≠ (listener.synCache.value node).isn + 1
    · refine ⟨listener, .refused (data.sendReply (tcpFlagAck ||| tcpFlagRst)), ?_, rfl,
        Or.inl ⟨rfl, Or.inr ⟨_, rfl⟩⟩⟩
      simp only [Listener.acceptConnection, hfind, Option.bind_eq_bind, Option.bind_some, if_neg hne,
        if_pos hmatch]
    · by_cases hfull : listener.listenBacklog.full
      · refine ⟨listener, .noMemory, ?_, rfl, Or.inl ⟨rfl, Or.inl rfl⟩⟩
        simp only [Listener.acceptConnection, hfind, Option.bind_eq_bind, Option.bind_some,
          if_neg hne, if_neg hmatch, if_pos hfull]
      · have hboth := not_or.mp hmatch
        refine ⟨{ listener with
          synCache := listener.synCache.remove node
          listenBacklog := (listener.listenBacklog.write (socketPointer new.address)).2.2 }, _, ?_,
          rfl, Or.inr ⟨_, hsome, not_not.mp hboth.1, not_not.mp hboth.2, rfl, h.remove hfind hne⟩⟩
        simp only [Listener.acceptConnection, hfind, Option.bind_eq_bind, Option.bind_some,
          if_neg hne, if_neg hmatch, if_neg hfull]

/-- A connection is created only by a packet without SYN, and at the address that `new` returned. -/
theorem handle_listen_state_created (h : listener.synCache.Caches cached) {tsc : Nat}
    {new : NewSocket} {after : Listener} {address : Nat} {connection processed : TcpSocket}
    (hcreated : listener.handleListenState data tsc new =
      some (after, .created address connection processed)) :
    ¬ data.IsSyn ∧ address = new.address := by
  unfold Listener.handleListenState at hcreated
  by_cases hsyn : data.IsSyn
  · rw [if_pos hsyn] at hcreated
    obtain ⟨_, action, hhandle, _, hcases⟩ := handle_syn_spec h data tsc
    rw [hhandle, Option.some.injEq, Prod.mk.injEq] at hcreated
    rcases hcases with ⟨_, _, _, ⟨_, haction⟩ | ⟨_, haction⟩⟩ | ⟨_, ⟨_, haction⟩ | ⟨haction, _⟩⟩
    all_goals
      rw [haction] at hcreated
      cases hcreated.2
  · refine ⟨hsyn, ?_⟩
    rw [if_neg hsyn] at hcreated
    by_cases hack : data.flags &&& tcpFlagAck = tcpFlagAck
    · rw [if_pos hack] at hcreated
      obtain ⟨_, action, hhandle, _, hcases⟩ := accept_connection_spec h data new
      rw [hhandle, Option.some.injEq, Prod.mk.injEq] at hcreated
      rcases hcases with ⟨_, haction | ⟨_, haction⟩⟩ | ⟨_, _, _, _, haction, _⟩
      · rw [haction] at hcreated
        cases hcreated.2
      · rw [haction] at hcreated
        cases hcreated.2
      · rw [haction] at hcreated
        exact (ListenAction.created.inj hcreated.2).1.symm
    · rw [if_neg hack, Option.some.injEq, Prod.mk.injEq] at hcreated
      cases hcreated.2

/-- Every packet is handled. What it leads to is explained by the entry of its sender in the map that
the cache stands for, and the cache stands for the updated map afterwards. -/
theorem handle_listen_state_spec (h : listener.synCache.Caches cached) (data : Incoming) (tsc : Nat)
    (new : NewSocket) :
    ∃ after action, listener.handleListenState data tsc new = some (after, action) ∧
      after.port = listener.port ∧
      Explained (cached (data.socketId listener.port))
        ⟨data, tsc, action, listener.synCache, after.synCache⟩ ∧
      after.synCache.Caches (Handled.update ⟨data, tsc, action, listener.synCache, after.synCache⟩
        listener.port cached) := by
  unfold Listener.handleListenState
  by_cases hsyn : data.IsSyn
  · obtain ⟨after, action, hhandle, hport, hcases⟩ := handle_syn_spec h data tsc
    refine ⟨after, action, (if_pos hsyn).trans hhandle, hport, ?_⟩
    rcases hcases with ⟨entry, hsome, rfl, ⟨hseq, rfl⟩ | ⟨hseq, rfl⟩⟩ |
      ⟨hnone, ⟨rfl, rfl⟩ | ⟨rfl, hcaches⟩⟩
    · refine ⟨Explained.of_idle trivial fun other hother _ _ => ?_, h⟩
      rw [hsome, Option.some.injEq] at hother
      exact ⟨hother ▸ rfl, rfl⟩
    · refine ⟨Explained.of_idle trivial fun other hother _ hsame => ?_, h⟩
      rw [hsome, Option.some.injEq] at hother
      exact absurd (hother ▸ hsame) hseq
    · refine ⟨Explained.of_idle trivial fun other hother _ _ => ?_, h⟩
      rw [hnone] at hother
      cases hother
    · refine ⟨⟨fun entry reply hrecord => ?_, fun other hother _ _ => ?_, fun _ _ _ hcreate => ?_⟩,
        hcaches⟩
      · obtain ⟨rfl, rfl⟩ := ListenAction.recorded.inj hrecord
        exact ⟨hsyn, rfl, rfl⟩
      · rw [hnone] at hother
        cases hother
      · cases hcreate
  · by_cases hack : data.flags &&& tcpFlagAck = tcpFlagAck
    · obtain ⟨after, action, haccept, hport, hcases⟩ := accept_connection_spec h data new
      refine ⟨after, action, ((if_neg hsyn).trans (if_pos hack)).trans haccept, hport, ?_⟩
      rcases hcases with ⟨rfl, rfl | ⟨reply, rfl⟩⟩ | ⟨entry, hsome, hseq, hnumber, rfl, hcaches⟩
      · exact ⟨Explained.of_idle trivial fun _ _ hnot => absurd hnot hsyn, h⟩
      · exact ⟨Explained.of_idle trivial fun _ _ hnot => absurd hnot hsyn, h⟩
      · refine ⟨⟨fun _ _ hrecord => ?_, fun _ _ hnot => absurd hnot hsyn,
          fun address connection processed hcreate => ?_⟩, hcaches⟩
        · cases hrecord
        · obtain ⟨_, rfl, _⟩ := ListenAction.created.inj hcreate
          exact ⟨entry, hsome, hseq, hnumber, rfl, rfl, hseq⟩
    · exact ⟨listener, _, (if_neg hsyn).trans (if_neg hack), rfl,
        Explained.of_idle trivial fun _ _ hnot => absurd hnot hsyn, h⟩

end

/-! ## Whole runs -/

variable {history : List Handled}

/-- The pending entry of a peer comes from a SYN after which nothing was recorded or created for that
peer. -/
theorem pending_eq_some
    {entry : SynCacheEntry} (h : pending port history id = some entry) :
    ∃ between syn before reply, history = between ++ syn :: before ∧
      syn.packet.socketId port = id ∧ syn.action = .recorded entry reply ∧
      ∀ other ∈ between, other.packet.socketId port = id → other.action.Idle := by
  induction history with
  | nil => cases h
  | cons last earlier ih =>
    -- the entry is older unless this very packet was recorded for the peer
    have hold : pending port earlier id = some entry →
        (last.packet.socketId port = id → last.action.Idle) →
        ∃ between syn before reply, last :: earlier = between ++ syn :: before ∧
          syn.packet.socketId port = id ∧ syn.action = .recorded entry reply ∧
          ∀ other ∈ between, other.packet.socketId port = id → other.action.Idle := by
      intro hpending hidle
      obtain ⟨between, syn, before, reply, rfl, hsyn, haction, hrest⟩ := ih hpending
      refine ⟨last :: between, syn, before, reply, rfl, hsyn, haction, fun other hother => ?_⟩
      rcases List.mem_cons.mp hother with rfl | hother
      · exact hidle
      · exact hrest other hother
    replace h : last.update port (pending port earlier) id = some entry := h
    by_cases hid : last.packet.socketId port = id
    · cases haction : last.action with
      | recorded recorded reply =>
        simp only [Handled.update, haction, hid, Function.update_self, Option.some.injEq] at h
        exact ⟨[], last, earlier, reply, rfl, hid, h ▸ haction, by simp⟩
      | created address connection processed => simp [Handled.update, haction, hid] at h
      | _ =>
        have hidle : last.action.Idle := haction ▸ trivial
        rw [Handled.update_of_idle hidle] at h
        exact hold h fun _ => hidle
    · rw [Handled.update_of_ne hid] at h
      exact hold h fun hsame => absurd hsame hid

/-- The pending entry of a peer does not change while nothing is recorded or created for it. -/
theorem pending_append {between : List Handled} (earlier : List Handled)
    (hidle : ∀ other ∈ between, other.packet.socketId port = id → other.action.Idle) :
    pending port (between ++ earlier) id = pending port earlier id := by
  induction between with
  | nil => rfl
  | cons last between ih =>
    have hrest := ih fun other hother => hidle other (List.mem_cons_of_mem _ hother)
    show last.update port (pending port (between ++ earlier)) id = pending port earlier id
    by_cases hid : last.packet.socketId port = id
    · rw [Handled.update_of_idle (hidle last List.mem_cons_self hid), hrest]
    · rw [Handled.update_of_ne hid, hrest]

/-- The handshakes behind the connections in a history. Every connection was created by a packet that
matches a SYN recorded earlier for the same peer, and no SYN was recorded and no connection created
for that peer in between, so that no other connection has the same SYN behind it. A SYN that came in
between with the same sequence number was answered as the first one, and left the cache as it was. -/
def Agreement (port : UInt16) (history : List Handled) : Prop :=
  ∀ later completing earlier, history = later ++ completing :: earlier →
    ∀ address connection processed,
      completing.action = .created address connection processed →
      ∃ between syn before entry, earlier = between ++ syn :: before ∧
        syn.packet.socketId port = completing.packet.socketId port ∧ syn.packet.IsSyn ∧
        syn.action = .recorded entry (syn.packet.sendSynAck entry.isn) ∧
        entry.isn = generateIsn syn.tsc ∧ syn.packet.seq = entry.remoteIsn ∧
        completing.packet.seq = entry.remoteIsn + 1 ∧
        completing.packet.ackNumber = entry.isn + 1 ∧ connection.state = .established ∧
        connection.seq = entry.isn + 1 ∧ connection.ack = entry.remoteIsn + 1 ∧
        ∀ other ∈ between,
          other.packet.socketId port = completing.packet.socketId port →
            other.action.Idle ∧
              (other.packet.IsSyn → other.packet.seq = entry.remoteIsn →
                other.action = .repeated (other.packet.sendSynAck entry.isn) ∧
                  other.after = other.before)

/-- Every packet of the history is explained by what was pending before it. -/
def AllExplained (port : UInt16) (history : List Handled) : Prop :=
  ∀ later handled earlier, history = later ++ handled :: earlier →
    Explained (pending port earlier (handled.packet.socketId port)) handled

theorem AllExplained.cons
    (h : AllExplained port history)
    (hlast : Explained (pending port history (handled.packet.socketId port)) handled) :
    AllExplained port (handled :: history) := by
  intro later other earlier hsplit
  cases later with
  | nil =>
    obtain ⟨rfl, rfl⟩ := List.cons.inj hsplit
    exact hlast
  | cons first later => exact h later other earlier (List.cons.inj hsplit).2

/-- A history whose packets are all explained has a handshake behind every connection. -/
theorem AllExplained.agreement
    (h : AllExplained port history) : Agreement port history := by
  intro later completing earlier hsplit address connection processed hcreated
  obtain ⟨entry, hpending, hseq, hack, hstate, hnext⟩ :=
    (h later completing earlier hsplit).created address connection processed hcreated
  obtain ⟨between, syn, before, reply, rfl, hid, haction, hidle⟩ := pending_eq_some hpending
  have hrecorded := (h (later ++ completing :: between) syn before (by simp [hsplit])).recorded
    entry reply haction
  obtain ⟨hsyn, rfl, rfl⟩ := hrecorded
  refine ⟨between, syn, before, _, rfl, hid, hsyn, haction, rfl, rfl, hseq, hack, hstate, hnext.1,
    hnext.2, fun other hother hsame => ⟨hidle other hother hsame, fun hagain hnumber => ?_⟩⟩
  -- the same entry was pending when the SYN came again
  obtain ⟨newer, older, rfl⟩ := List.append_of_mem hother
  have hsame' : pending port (older ++ syn :: before) (other.packet.socketId port) =
      some ⟨generateIsn syn.tsc, syn.packet.seq⟩ := by
    rw [hsame, pending_append _ fun packet hpacket => hidle packet (by simp [hpacket])]
    simp [pending, Handled.update, haction, hid]
  exact (h (later ++ completing :: newer) other (older ++ syn :: before) (by simp [hsplit])).repeated
    _ hsame' hagain hnumber

/-- The invariant of a listening socket. -/
structure Listening.Sound (port : UInt16) (state : Listening) : Prop where
  port_eq : state.listener.port = port
  caches : state.listener.synCache.Caches (pending port state.history)
  explained : AllExplained port state.history

theorem Listening.Sound.step {state : Listening} (h : state.Sound port)
    (event : ListenEvent) : ∃ next, state.step event = some next ∧ next.Sound port := by
  cases event with
  | packet data tsc new =>
    obtain ⟨after, action, hhandle, hport, hexplained, hcaches⟩ :=
      handle_listen_state_spec h.caches data tsc new
    rw [h.port_eq] at hexplained hcaches hport
    refine ⟨⟨after, ⟨data, tsc, action, state.listener.synCache, after.synCache⟩ ::
      state.history⟩, ?_, hport, hcaches, h.explained.cons hexplained⟩
    simp [Listening.step, hhandle]
  | accept backlog => exact ⟨_, rfl, h.port_eq, h.caches, h.explained⟩

/-- A socket that starts to listen on the port, with an empty history. -/
def Listening.initial (port : UInt16) (backlogSize : Nat) (hashFunc : SocketId → Nat)
    (nodes : HashMapNodes SocketId) (value : Nat → SynCacheEntry) : Listening :=
  ⟨Listener.listen port backlogSize hashFunc nodes value, []⟩

/-- Every sequence of packets of any content, with threads in `accept` at any point, is handled to its
end, and there is a handshake behind every connection. -/
theorem handshake_agreement (port : UInt16) (backlogSize : Nat) (hashFunc : SocketId → Nat)
    (nodes : HashMapNodes SocketId) (value : Nat → SynCacheEntry) (events : List ListenEvent) :
    ∃ final, run Listening.step
        (Listening.initial port backlogSize hashFunc nodes value) events = some final ∧
      Agreement port final.history := by
  have hinitial : (Listening.initial port backlogSize hashFunc nodes value).Sound port := by
    refine ⟨rfl, PooledHashMap.caches_initial .., fun later handled earlier hsplit => ?_⟩
    simp [Listening.initial] at hsplit
  obtain ⟨final, hrun, hfinal⟩ := run_eq_some_of_meets (Listening.Sound port)
    (fun _ event h _ => h.step event) hinitial (meets_true _ events)
  exact ⟨final, hrun, hfinal.explained.agreement⟩

/-- A packet of one peer with the given numbers. -/
def peerPacket (flags : UInt8) (seq ackNumber : UInt32) : Incoming :=
  ⟨⟨seq, flags, 1000, fun _ => 0, 0⟩, 7, 40000, 80, ackNumber⟩

/-- Memory for a socket at the address. -/
def newSocketAt (address : Nat) : NewSocket :=
  ⟨address, address + 8, ⟨fun _ => 0, fun _ => 0⟩, fun _ => dataSegment 0 [], 0⟩

/-- A socket that listens on port 80 with room for four peers. -/
def listeningSocket : Listening :=
  Listening.initial 80 4 (fun id => id.remotePort.toNat)
    ⟨⟨fun _ => 0, fun _ => 0⟩, fun _ => ⟨0, 0, 0⟩⟩ fun _ => ⟨0, 0⟩

-- A SYN that comes twice, an ACK with the wrong number, the right ACK, and the same ACK again: one
-- connection is created, and the replay finds no entry.
example : (run Listening.step listeningSocket
    [.packet (peerPacket tcpFlagSyn 100 0) 5 (newSocketAt 16),
      .packet (peerPacket tcpFlagSyn 100 0) 9 (newSocketAt 16),
      .packet (peerPacket tcpFlagAck 101 10) 9 (newSocketAt 16),
      .packet (peerPacket tcpFlagAck 101 6) 9 (newSocketAt 16),
      .packet (peerPacket tcpFlagAck 101 6) 9 (newSocketAt 32)]).map
    (fun final => final.history.map fun handled => match handled.action with
      | .created address connection _ => some (address, connection.seq, connection.ack)
      | _ => none) =
    some [none, some (16, 6, 101), none, none, none] := by
  decide +kernel

end Otrix.Net
