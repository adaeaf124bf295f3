import Otrix.Net.TcpListener
import Mathlib.Data.Nat.Bitwise
import Mathlib.Data.Sum.Basic

/-!
# The tables of `net/tcp.cpp`

The tcp layer finds the socket of a packet in two hash maps: connections by ports and address of
the peer, listening sockets by their port. A socket has one node for both maps, and the
destructor removes it from both, although it is in one of them at most. `add_connected_socket`
looks for a duplicate in the table of listening sockets, where none can be.

That no two connections have one identifier follows from the routing: a packet that could create
a second one is passed to the connection that exists. The second removal of a node finds its
neighbours linked to each other already and does what a single removal does.
-/

namespace Otrix.Net

open Function Linked Machine

/-- `TCP_LISTEN_TABLE_SIZE` and `TCP_CONNECTED_TABLE_SIZE`. -/
def tcpTableSize : Nat := 257

/-- A `tcp_socket`, by the state it is in. -/
inductive TcpObject where
  | closed
  | listening (listener : Listener)
  | connected (socket : TcpSocket)

/-- `tcp`, with the nodes of its sockets, the sockets themselves, the addresses in use, the
connections that `accept_connection` has created and that were not destroyed, and the packets that
the layer has sent by itself. -/
structure Tcp where
  nodes : HashMapNodes SocketId
  listenSockets : HashMap SocketId
  connectedSockets : HashMap SocketId
  objects : Nat → Option TcpObject
  allocated : List Nat
  connections : List Nat
  sent : List Reply

namespace Tcp

/-- The constructor, on memory that holds anything. -/
def initial (hashFunc : SocketId → Nat) (nodes : HashMapNodes SocketId) : Tcp where
  nodes := nodes
  listenSockets := HashMap.initial tcpTableSize fun id => id.hostPort.toNat
  connectedSockets := HashMap.initial tcpTableSize hashFunc
  objects := fun _ => none
  allocated := []
  connections := []
  sent := []

/-- `listen_sockets_.find`. The loop has a turn for every socket. -/
def findListen (tcp : Tcp) (id : SocketId) : Option Nat :=
  tcp.listenSockets.find tcp.nodes tcp.allocated.length id

/-- `connected_sockets_.find`. -/
def findConnected (tcp : Tcp) (id : SocketId) : Option Nat :=
  tcp.connectedSockets.find tcp.nodes tcp.allocated.length id

/-- `bind_socket`. -/
def bindSocket (tcp : Tcp) (sock : Nat) (port : UInt16) : Option (Kerror × Tcp) := do
  let id : SocketId := ⟨port, 0, 0⟩
  let hmNode ← tcp.findListen id
  if hmNode ≠ 0 then some (.addrinuse, tcp)
  else
    let nodes := { tcp.nodes with key := Function.update tcp.nodes.key sock id }
    let (nodes, listenSockets) := tcp.listenSockets.insert nodes sock
    some (.ok, { tcp with nodes := nodes, listenSockets := listenSockets })

/-- `unbind_socket`. -/
def unbindSocket (tcp : Tcp) (sock : Nat) : Tcp :=
  let (nodes, listenSockets) := tcp.listenSockets.remove tcp.nodes sock
  { tcp with nodes := nodes, listenSockets := listenSockets }

/-- `add_connected_socket`. -/
def addConnectedSocket (tcp : Tcp) (sock : Nat) (id : SocketId) : Option (Kerror × Tcp) := do
  let hmNode ← tcp.findListen id
  if hmNode ≠ 0 then some (.addrinuse, tcp)
  else
    let nodes := { tcp.nodes with key := Function.update tcp.nodes.key sock id }
    let (nodes, connectedSockets) := tcp.connectedSockets.insert nodes sock
    some (.ok, { tcp with nodes := nodes, connectedSockets := connectedSockets })

/-- `remove_connected_socket`. -/
def removeConnectedSocket (tcp : Tcp) (sock : Nat) : Tcp :=
  let (nodes, connectedSockets) := tcp.connectedSockets.remove tcp.nodes sock
  { tcp with nodes := nodes, connectedSockets := connectedSockets }

/-- `create_socket`, `bind` and `listen`. A socket that cannot be bound stays closed. -/
def openSocket (tcp : Tcp) (address : Nat) (port : UInt16) (backlogSize : Nat)
    (nodes : HashMapNodes SocketId) (value : Nat → SynCacheEntry) : Option Tcp := do
  let tcp := { tcp with
    allocated := address :: tcp.allocated
    objects := Function.update tcp.objects address (some .closed) }
  let (ret, tcp) ← tcp.bindSocket address port
  if ret = .ok then
    let listener := Listener.listen port backlogSize tcp.connectedSockets.hashFunc nodes value
    some { tcp with objects := Function.update tcp.objects address (some (.listening listener)) }
  else some tcp

/-- What a listening socket does to the layer: it sends a packet, or enters a new connection. -/
def perform (tcp : Tcp) (id : SocketId) : ListenAction → Option Tcp
  | .recorded _ reply => some { tcp with sent := reply :: tcp.sent }
  | .repeated reply => some { tcp with sent := reply :: tcp.sent }
  | .refused reply => some { tcp with sent := reply :: tcp.sent }
  | .noMemory => some tcp
  | .created address _ processed => do
    let tcp := { tcp with
      allocated := address :: tcp.allocated
      connections := address :: tcp.connections
      objects := Function.update tcp.objects address (some (.connected processed)) }
    -- `accept_connection` does not look at the result
    let (_, tcp) ← tcp.addConnectedSocket address id
    some tcp

/-- The end of `process_packet`, for the node that was found. `none` is a socket that does not
exist. -/
def deliver (tcp : Tcp) (hmNode : Nat) (data : Incoming) (tsc : Nat) (new : NewSocket)
    (copy : Nat) : Option Tcp := do
  if hmNode = 0 then
    some { tcp with sent := data.sendReply (tcpFlagRst ||| tcpFlagAck) :: tcp.sent }
  else
    match ← tcp.objects hmNode with
    | .closed => some tcp
    | .listening listener => do
      let (after, action) ← listener.handleListenState data tsc new
      let tcp := { tcp with
        objects := Function.update tcp.objects hmNode (some (.listening after)) }
      tcp.perform (data.socketId listener.port) action
    | .connected socket =>
      let socket := socket.processPacket copy data.toSegment
      some { tcp with objects := Function.update tcp.objects hmNode (some (.connected socket)) }

/-- `process_packet`. -/
def processPacket (tcp : Tcp) (data : Incoming) (tsc : Nat) (new : NewSocket) (copy : Nat) :
    Option Tcp := do
  let connectedNode ← tcp.findConnected (data.socketId data.destPort)
  let hmNode ←
    if data.flags &&& tcpFlagSyn ≠ 0 ∨ connectedNode = 0 then tcp.findListen ⟨data.destPort, 0, 0⟩
    else some connectedNode
  tcp.deliver hmNode data tsc new copy

/-- The destructor of a socket, and the release of its memory. -/
def destroySocket (tcp : Tcp) (address : Nat) : Tcp :=
  let tcp := tcp.unbindSocket address
  let tcp := tcp.removeConnectedSocket address
  { tcp with
    allocated := tcp.allocated.filter (· ≠ address)
    connections := tcp.connections.filter (· ≠ address)
    objects := Function.update tcp.objects address none }

end Tcp

/-- What can happen to the layer: a socket is opened to listen, a packet arrives, threads in `accept`
change a backlog, threads in `send` and `recv` change a connection, and a connection is
destroyed. -/
inductive TcpEvent where
  | listen (address : Nat) (port : UInt16) (backlogSize : Nat) (nodes : HashMapNodes SocketId)
      (value : Nat → SynCacheEntry)
  | packet (data : Incoming) (tsc : Nat) (new : NewSocket) (copy : Nat)
  | accept (address : Nat) (backlog : Msgq)
  | transfer (address : Nat) (socket : TcpSocket)
  | destroy (address : Nat)

namespace Tcp

/-- One event. -/
def step (tcp : Tcp) : TcpEvent → Option Tcp
  | .listen address port backlogSize nodes value =>
    tcp.openSocket address port backlogSize nodes value
  | .packet data tsc new copy => tcp.processPacket data tsc new copy
  | .accept address backlog =>
    match tcp.objects address with
    | some (.listening listener) =>
      let listener := { listener with listenBacklog := backlog }
      some { tcp with
        objects := Function.update tcp.objects address (some (.listening listener)) }
    | _ => some tcp
  | .transfer address socket =>
    match tcp.objects address with
    | some (.connected _) =>
      some { tcp with objects := Function.update tcp.objects address (some (.connected socket)) }
    | _ => some tcp
  | .destroy address => some (tcp.destroySocket address)

/-- `new` returns memory that is not in use, the peer of a packet is not the one with port and address
zero, and only connections are destroyed, each of them once. -/
def Allowed (tcp : Tcp) : TcpEvent → Prop
  | .listen address _ _ _ _ => address ≠ 0 ∧ address ∉ tcp.allocated
  | .packet data _ new _ => ¬ (data.sourcePort = 0 ∧ data.saddr = 0) ∧ new.address ≠ 0 ∧
      new.address ∉ tcp.allocated
  | .destroy address => address ∈ tcp.connections
  | _ => True

instance (tcp : Tcp) (event : TcpEvent) : Decidable (tcp.Allowed event) := by
  cases event <;> unfold Allowed <;> infer_instance

/-- The tables are in order. All buckets are rings that share no node, the table of connections has
exactly the connections, which have different identifiers, and `find` returns the connection with
an identifier, or null when there is none. -/
structure Integrity (tcp : Tcp) : Prop where
  rings : ∃ listens connects : Nat → List Nat,
    Rings tcp.nodes.links (Sum.elim tcp.listenSockets.table tcp.connectedSockets.table)
      (Sum.elim listens connects) ∧
    ∀ node, node ∈ tcp.connections ↔ ∃ i, node ∈ connects i
  unique : ∀ first ∈ tcp.connections, ∀ second ∈ tcp.connections,
    tcp.nodes.key first = tcp.nodes.key second → first = second
  found : ∀ node ∈ tcp.connections, tcp.findConnected (tcp.nodes.key node) = some node
  absent : ∀ id, (∀ node ∈ tcp.connections, tcp.nodes.key node ≠ id) →
    tcp.findConnected id = some 0

/-- The invariant, for these buckets of the two tables. -/
structure Sound (tcp : Tcp) (listens connects : Nat → List Nat) : Prop where
  rings : Rings tcp.nodes.links (Sum.elim tcp.listenSockets.table tcp.connectedSockets.table)
    (Sum.elim listens connects)
  listening : Bucketed tcp.listenSockets.index tcp.nodes.key listens
  connected : Bucketed tcp.connectedSockets.index tcp.nodes.key connects
  /-- Listening sockets are found under their port, and their SYN caches are in order. -/
  ports : ∀ i, ∀ node ∈ listens i, ∃ listener cached,
    tcp.objects node = some (.listening listener) ∧
      tcp.nodes.key node = ⟨listener.port, 0, 0⟩ ∧ listener.synCache.Caches cached
  members : ∀ node, node ∈ tcp.connections ↔ ∃ i, node ∈ connects i
  sockets : ∀ node ∈ tcp.connections, ∃ socket, tcp.objects node = some (.connected socket)
  known : ∀ place, ∀ node ∈ Sum.elim listens connects place, node ∈ tcp.allocated

section

variable {tcp : Tcp} {listens connects : Nat → List Nat} {address : Nat} {id : SocketId}

/-! ## Searching -/

section

variable (h : tcp.Sound listens connects)
include h

theorem Sound.length_le (place : Nat ⊕ Nat) :
    (Sum.elim listens connects place).length ≤ tcp.allocated.length :=
  (List.subperm_of_subset (h.rings.queue place).ring.nodup fun node => h.known place node).length_le

theorem Sound.find_listen_cases (id : SocketId) {fuel : Nat} (hfuel : tcp.allocated.length ≤ fuel) :
    (tcp.listenSockets.find tcp.nodes fuel id = some 0 ∧
        ∀ node ∈ listens (tcp.listenSockets.index id), tcp.nodes.key node ≠ id) ∨
      ∃ node ∈ listens (tcp.listenSockets.index id), node ≠ 0 ∧ tcp.nodes.key node = id ∧
        tcp.listenSockets.find tcp.nodes fuel id = some node :=
  HashMap.find_cases (h.rings.queue (.inl _)) ((h.length_le (.inl _)).trans hfuel)

theorem Sound.find_connected_cases (id : SocketId) :
    (tcp.findConnected id = some 0 ∧ ∀ node ∈ connects (tcp.connectedSockets.index id),
        tcp.nodes.key node ≠ id) ∨
      ∃ node ∈ connects (tcp.connectedSockets.index id), node ≠ 0 ∧ tcp.nodes.key node = id ∧
        tcp.findConnected id = some node :=
  HashMap.find_cases (h.rings.queue (.inr _)) (h.length_le (.inr _))

theorem Sound.mem_bucket {node : Nat} (hnode : node ∈ tcp.connections) :
    node ∈ connects (tcp.connectedSockets.index (tcp.nodes.key node)) := by
  obtain ⟨i, hi⟩ := (h.members node).mp hnode
  rw [h.connected.place i node hi]
  exact hi

theorem Sound.integrity : tcp.Integrity := by
  have hunique : ∀ first ∈ tcp.connections, ∀ second ∈ tcp.connections,
      tcp.nodes.key first = tcp.nodes.key second → first = second := by
    intro first hfirst second hsecond hsame
    have hbucket := h.mem_bucket hfirst
    rw [hsame] at hbucket
    exact h.connected.unique _ first hbucket second (h.mem_bucket hsecond) hsame
  refine ⟨⟨listens, connects, h.rings, h.members⟩, hunique, fun node hnode => ?_,
    fun id hnone => ?_⟩
  · rcases h.find_connected_cases (tcp.nodes.key node) with ⟨_, hnone⟩ | ⟨found, hin, _, hkey, hfind⟩
    · exact absurd rfl (hnone node (h.mem_bucket hnode))
    · rw [hfind, hunique found ((h.members found).mpr ⟨_, hin⟩) node hnode hkey]
  · rcases h.find_connected_cases id with ⟨hfind, _⟩ | ⟨found, hin, _, hkey, _⟩
    · exact hfind
    · exact absurd hkey (hnone found ((h.members found).mpr ⟨_, hin⟩))

/-! ## Sockets change -/

/-- A listening socket goes on with another cache or backlog. -/
theorem Sound.set_listener {before : Listener}
    (hobject : tcp.objects address = some (.listening before)) (after : Listener)
    (hport : after.port = before.port) (hcaches : ∀ cached, before.synCache.Caches cached →
        ∃ cached, after.synCache.Caches cached) :
    Sound { tcp with objects := update tcp.objects address (some (.listening after)) }
      listens connects := by
  refine ⟨h.rings, h.listening, h.connected, fun i node hnode => ?_, h.members,
    fun node hnode => ?_, h.known⟩
  · obtain ⟨listener, cached', hlistener, hkey, hcaches'⟩ := h.ports i node hnode
    by_cases heq : node = address
    · subst heq
      rw [hobject, Option.some.injEq, TcpObject.listening.injEq] at hlistener
      subst hlistener
      obtain ⟨cached, hafter⟩ := hcaches cached' hcaches'
      exact ⟨after, cached, update_self .., by rw [hkey, hport], hafter⟩
    · exact ⟨listener, cached', (update_of_ne heq _ _).trans hlistener, hkey, hcaches'⟩
  · obtain ⟨socket, hsocket⟩ := h.sockets node hnode
    have hne : node ≠ address := by
      rintro rfl
      rw [hobject] at hsocket
      cases hsocket
    exact ⟨socket, (update_of_ne hne _ _).trans hsocket⟩

theorem Sound.set_connection {before : TcpSocket}
    (hobject : tcp.objects address = some (.connected before)) (after : TcpSocket) :
    Sound { tcp with objects := update tcp.objects address (some (.connected after)) }
      listens connects := by
  refine ⟨h.rings, h.listening, h.connected, fun i node hnode => ?_, h.members,
    fun node hnode => ?_, h.known⟩
  · obtain ⟨listener, cached, hlistener, hrest⟩ := h.ports i node hnode
    have hne : node ≠ address := by
      rintro rfl
      rw [hobject] at hlistener
      cases hlistener
    exact ⟨listener, cached, (update_of_ne hne _ _).trans hlistener, hrest⟩
  · by_cases heq : node = address
    · exact ⟨after, heq ▸ update_self ..⟩
    · obtain ⟨socket, hsocket⟩ := h.sockets node hnode
      exact ⟨socket, (update_of_ne heq _ _).trans hsocket⟩

theorem Sound.send (sent : List Reply) :
    Sound { tcp with sent := sent } listens connects :=
  ⟨h.rings, h.listening, h.connected, h.ports, h.members, h.sockets, h.known⟩

/-! ## Sockets come -/

theorem Sound.ne_of_fresh (hnew : address ∉ tcp.allocated)
    (place : Nat ⊕ Nat) (node : Nat) (hnode : node ∈ Sum.elim listens connects place) :
    node ≠ address := by
  rintro rfl
  exact hnew (h.known place node hnode)

theorem Sound.update_key (hnew : address ∉ tcp.allocated)
    (id : SocketId) (place : Nat ⊕ Nat) (node : Nat)
    (hnode : node ∈ Sum.elim listens connects place) :
    update tcp.nodes.key address id node = tcp.nodes.key node :=
  update_of_ne (h.ne_of_fresh hnew place node hnode) _ _

/-- The listening sockets when memory that is not in use is given a key and an object. -/
theorem Sound.ports_of_fresh (hnew : address ∉ tcp.allocated)
    (id : SocketId) (object : Option TcpObject) :
    ∀ i, ∀ node ∈ listens i, ∃ listener cached,
      update tcp.objects address object node = some (.listening listener) ∧
        update tcp.nodes.key address id node = ⟨listener.port, 0, 0⟩ ∧
        listener.synCache.Caches cached := by
  intro i node hnode
  obtain ⟨listener, cached, hlistener, hkey, hcaches⟩ := h.ports i node hnode
  have hne := h.ne_of_fresh hnew (.inl i) node hnode
  exact ⟨listener, cached, (update_of_ne hne _ _).trans hlistener,
    (update_of_ne hne _ _).trans hkey, hcaches⟩

theorem Sound.sockets_of_fresh (hnew : address ∉ tcp.allocated)
    (object : Option TcpObject) {node : Nat} (hnode : node ∈ tcp.connections) :
    ∃ socket, update tcp.objects address object node = some (.connected socket) := by
  obtain ⟨i, hi⟩ := (h.members node).mp hnode
  obtain ⟨socket, hsocket⟩ := h.sockets node hnode
  exact ⟨socket, (update_of_ne (h.ne_of_fresh hnew (.inr i) node hi) _ _).trans hsocket⟩

/-- A new connection enters its table, unless its identifier is that of a listening socket. -/
theorem Sound.create (hnull : address ≠ 0)
    (hnew : address ∉ tcp.allocated) (hid : ¬ (id.remotePort = 0 ∧ id.remoteIp = 0))
    (hunique : ∀ node ∈ connects (tcp.connectedSockets.index id), tcp.nodes.key node ≠ id)
    (connection processed : TcpSocket) :
    ∃ after, tcp.perform id (.created address connection processed) = some after ∧
      after.Sound listens (update connects (tcp.connectedSockets.index id)
        (address :: connects (tcp.connectedSockets.index id))) := by
  have hfuel : tcp.allocated.length ≤ (address :: tcp.allocated).length := Nat.le_succ _
  have hfind : tcp.listenSockets.find tcp.nodes (address :: tcp.allocated).length id = some 0 := by
    rcases h.find_listen_cases id hfuel with ⟨hfind, _⟩ | ⟨node, hin, _, hkey, _⟩
    · exact hfind
    · obtain ⟨listener, _, _, hport, _⟩ := h.ports _ node hin
      rw [hkey] at hport
      exact absurd ⟨congrArg SocketId.remotePort hport, congrArg SocketId.remoteIp hport⟩ hid
  have hrings := h.rings.push_back (.inr (tcp.connectedSockets.index id)) address trivial hnull
    fun place node hnode => (h.ne_of_fresh hnew place node hnode).symm
  simp only [Sum.elim_inr, intrusive_list_push_back_snd, Sum.update_elim_inr] at hrings
  refine ⟨{ tcp with
    nodes := ⟨(intrusiveListPushBack tcp.nodes.links
      (tcp.connectedSockets.table (tcp.connectedSockets.index id)) address).1,
      update tcp.nodes.key address id⟩
    connectedSockets := { tcp.connectedSockets with
      table := update tcp.connectedSockets.table (tcp.connectedSockets.index id) address }
    objects := update tcp.objects address (some (.connected processed))
    allocated := address :: tcp.allocated
    connections := address :: tcp.connections }, ?_, hrings,
    h.listening.congr fun i => h.update_key hnew id (.inl i),
    h.connected.push_key (fun i => h.ne_of_fresh hnew (.inr i)) hunique, h.ports_of_fresh hnew id _,
    fun node => ?_, fun node hnode => ?_, ?_⟩
  · simp only [perform, addConnectedSocket, findListen, hfind, HashMap.insert_key,
      Option.bind_eq_bind, Option.bind_some, ne_eq, not_true_eq_false, if_false]
  · rw [List.mem_cons, h.members node, exists_mem_pushed_iff]
  · rcases List.mem_cons.mp hnode with rfl | hnode
    · exact ⟨processed, update_self ..⟩
    · exact h.sockets_of_fresh hnew _ hnode
  · rintro (i | i) node hnode
    · exact List.mem_cons_of_mem _ (h.known (.inl i) node hnode)
    · rcases mem_pushed_iff.mp hnode with ⟨rfl, _⟩ | hold
      · exact List.mem_cons_self
      · exact List.mem_cons_of_mem _ (h.known (.inr i) node hold)

/-- A socket that listens on a port of its own enters the table. -/
theorem Sound.enter_listener (hnull : address ≠ 0) (hnew : address ∉ tcp.allocated) {port : UInt16}
    (hunique : ∀ node ∈ listens (tcp.listenSockets.index ⟨port, 0, 0⟩),
      tcp.nodes.key node ≠ ⟨port, 0, 0⟩)
    {listener : Listener} {cached : SocketId → Option SynCacheEntry} (hport : listener.port = port)
    (hcaches : listener.synCache.Caches cached) :
    Sound { tcp with
      nodes := ⟨(intrusiveListPushBack tcp.nodes.links
        (tcp.listenSockets.table (tcp.listenSockets.index ⟨port, 0, 0⟩)) address).1,
        update tcp.nodes.key address ⟨port, 0, 0⟩⟩
      listenSockets := { tcp.listenSockets with
        table := update tcp.listenSockets.table (tcp.listenSockets.index ⟨port, 0, 0⟩)
          address }
      objects := update tcp.objects address (some (.listening listener))
      allocated := address :: tcp.allocated }
      (update listens (tcp.listenSockets.index ⟨port, 0, 0⟩)
        (address :: listens (tcp.listenSockets.index ⟨port, 0, 0⟩))) connects := by
  have hrings := h.rings.push_back (.inl (tcp.listenSockets.index ⟨port, 0, 0⟩)) address trivial
    hnull fun place node hnode => (h.ne_of_fresh hnew place node hnode).symm
  simp only [Sum.elim_inl, intrusive_list_push_back_snd, Sum.update_elim_inl] at hrings
  refine ⟨hrings, h.listening.push_key (fun i => h.ne_of_fresh hnew (.inl i)) hunique,
    h.connected.congr fun i => h.update_key hnew _ (.inr i), fun i node hnode => ?_, h.members,
    fun node hnode => h.sockets_of_fresh hnew _ hnode, ?_⟩
  · rcases mem_pushed_iff.mp hnode with ⟨rfl, _⟩ | hold
    · exact ⟨listener, cached, update_self .., hport ▸ update_self .., hcaches⟩
    · exact h.ports_of_fresh hnew _ _ i node hold
  · rintro (i | i) node hnode
    · rcases mem_pushed_iff.mp hnode with ⟨rfl, _⟩ | hold
      · exact List.mem_cons_self
      · exact List.mem_cons_of_mem _ (h.known (.inl i) node hold)
    · exact List.mem_cons_of_mem _ (h.known (.inr i) node hnode)

/-- A socket is opened to listen. It stays closed if another one has its port. -/
theorem Sound.open_socket (hnull : address ≠ 0)
    (hnew : address ∉ tcp.allocated) (port : UInt16) (backlogSize : Nat)
    (nodes : HashMapNodes SocketId) (value : Nat → SynCacheEntry) :
    ∃ after listens', tcp.openSocket address port backlogSize nodes value = some after ∧
      after.Sound listens' connects := by
  have hfuel : tcp.allocated.length ≤ (address :: tcp.allocated).length := Nat.le_succ _
  rcases h.find_listen_cases ⟨port, 0, 0⟩ hfuel with ⟨hfind, hunique⟩ | ⟨node, _, hnode, _, hfind⟩
  · have hcaches : (Listener.listen port backlogSize tcp.connectedSockets.hashFunc nodes
        value).synCache.Caches fun _ => none := PooledHashMap.caches_initial ..
    refine ⟨_, _, ?_, h.enter_listener hnull hnew hunique rfl hcaches⟩
    simp only [openSocket, bindSocket, findListen, hfind, HashMap.insert_key, Option.bind_eq_bind,
      Option.bind_some, ne_eq, not_true_eq_false, if_false, if_true, update_idem]
  · refine ⟨{ tcp with
      allocated := address :: tcp.allocated
      objects := update tcp.objects address (some .closed) }, listens, ?_, h.rings,
      h.listening, h.connected, fun i other hother => ?_, h.members,
      fun node hnode => h.sockets_of_fresh hnew _ hnode,
      fun place node hnode => List.mem_cons_of_mem _ (h.known place node hnode)⟩
    · simp only [openSocket, bindSocket, findListen, hfind, Option.bind_eq_bind, Option.bind_some,
        ne_eq, hnode, not_false_eq_true, if_true, reduceCtorEq, if_false]
    · obtain ⟨listener, cached, hlistener, hkey, hcaches⟩ :=
        h.ports_of_fresh hnew ⟨port, 0, 0⟩ (some .closed) i other hother
      rw [h.update_key hnew _ (.inl i) other hother] at hkey
      exact ⟨listener, cached, hlistener, hkey, hcaches⟩

/-! ## Sockets go -/

/-- Removing a connection from the table of listening sockets only unlinks its node. -/
theorem Sound.unbind_socket {i : Nat} (hnode : address ∈ connects i) :
    tcp.unbindSocket address = { tcp with
      nodes := { tcp.nodes with links := intrusiveListUnlinkNode tcp.nodes.links address } } := by
  have hnull : address ≠ 0 := (h.rings.queue (.inr i)).ring.nonnull address hnode
  have hhead : ∀ j, address ≠ tcp.listenSockets.table j := by
    rintro j rfl
    exact h.rings.apart (.inr i) (.inl j) Sum.inr_ne_inl _ hnode _
      ((h.rings.queue (.inl j)).head_mem hnull) rfl
  simp only [unbindSocket, HashMap.remove, intrusiveListDelete, if_neg (hhead _),
    update_eq_self]

/-- The destructor of a connection takes its node out of its bucket, as a single removal does. -/
theorem Sound.destroy_socket_eq {i : Nat}
    (hi : i = tcp.connectedSockets.index (tcp.nodes.key address)) (hnode : address ∈ connects i) :
    tcp.destroySocket address = { tcp with
      nodes := { tcp.nodes with
        links := (intrusiveListDelete tcp.nodes.links (tcp.connectedSockets.table i) address).1 }
      connectedSockets := { tcp.connectedSockets with
        table := update tcp.connectedSockets.table i
          (intrusiveListDelete tcp.nodes.links (tcp.connectedSockets.table i) address).2 }
      objects := update tcp.objects address none
      allocated := tcp.allocated.filter (· ≠ address)
      connections := tcp.connections.filter (· ≠ address) } := by
  have hring : Ring tcp.nodes.links (connects i) := (h.rings.queue (.inr i)).ring
  subst hi
  simp only [destroySocket, h.unbind_socket hnode, removeConnectedSocket, HashMap.remove,
    intrusive_list_delete_unlinked hring hnode]

/-- The table stays sound when a connection is destroyed. -/
theorem Sound.destroy_socket (hnode : address ∈ tcp.connections) :
    ∃ connects', (tcp.destroySocket address).Sound listens connects' := by
  obtain ⟨i, hi⟩ := (h.members address).mp hnode
  have hrings := h.rings.delete (k := .inr i) hi
  simp only [Sum.elim_inr, Sum.update_elim_inr] at hrings
  have hnodup : (connects i).Nodup := (h.rings.queue (.inr i)).ring.nodup
  have hother : ∀ j, j ≠ i → ∀ node ∈ connects j, node ≠ address := by
    rintro j hne node hin rfl
    exact hne ((h.connected.place j node hin).symm.trans (h.connected.place i node hi))
  have hmem : ∀ node, (∃ j, node ∈ update connects i ((connects i).erase address) j) ↔
      node ≠ address ∧ ∃ j, node ∈ connects j := by
    intro node
    constructor
    · rintro ⟨j, hj⟩
      by_cases heq : j = i
      · rw [heq, update_self] at hj
        exact ⟨(hnodup.mem_erase_iff.mp hj).1, i, List.mem_of_mem_erase hj⟩
      · rw [update_of_ne heq] at hj
        exact ⟨hother j heq node hj, j, hj⟩
    · rintro ⟨hne, j, hj⟩
      refine ⟨j, ?_⟩
      by_cases heq : j = i
      · rw [heq, update_self]
        exact hnodup.mem_erase_iff.mpr ⟨hne, heq ▸ hj⟩
      · rwa [update_of_ne heq]
  have hlisten : ∀ j, ∀ node ∈ listens j, node ≠ address := fun j node hin =>
    h.rings.apart (.inl j) (.inr i) Sum.inl_ne_inr node hin address hi
  rw [h.destroy_socket_eq (h.connected.place i address hi).symm hi]
  refine ⟨_, hrings, h.listening, h.connected.erase i address, fun j node hin => ?_, fun node => ?_,
    fun node hin => ?_, ?_⟩
  · obtain ⟨listener, cached, hlistener, hrest⟩ := h.ports j node hin
    exact ⟨listener, cached, (update_of_ne (hlisten j node hin) _ _).trans hlistener, hrest⟩
  · rw [hmem node, ← h.members node]
    simp [and_comm]
  · obtain ⟨hin, hne⟩ := List.mem_filter.mp hin
    obtain ⟨socket, hsocket⟩ := h.sockets node hin
    exact ⟨socket, (update_of_ne (of_decide_eq_true hne) _ _).trans hsocket⟩
  · rintro (j | j) node hin
    · exact List.mem_filter.mpr ⟨h.known (.inl j) node hin, decide_eq_true (hlisten j node hin)⟩
    · obtain ⟨hne, k, hk⟩ := (hmem node).mp ⟨j, hin⟩
      exact List.mem_filter.mpr ⟨h.known (.inr k) node hk, decide_eq_true hne⟩

end

/-! ## Packets -/

theorem and_tcp_flag_syn (flags : UInt8) :
    flags &&& tcpFlagSyn = 0 ∨ flags &&& tcpFlagSyn = tcpFlagSyn := by
  have hbit := Nat.and_two_pow flags.toNat 1
  cases hset : flags.toNat.testBit 1 with
  | false =>
    rw [hset] at hbit
    exact Or.inl (UInt8.toNat_inj.mp (by simpa [tcpFlagSyn] using hbit))
  | true =>
    rw [hset] at hbit
    exact Or.inr (UInt8.toNat_inj.mp (by simpa [tcpFlagSyn] using hbit))

/-- A packet for a listening socket. It has a SYN, or there is no connection to its sender. -/
theorem Sound.deliver_listening (h : tcp.Sound listens connects) {data : Incoming} {new : NewSocket}
    (hpeer : ¬ (data.sourcePort = 0 ∧ data.saddr = 0)) (hnull : new.address ≠ 0)
    (hnew : new.address ∉ tcp.allocated)
    (hroute : data.IsSyn ∨ ∀ node ∈ connects (tcp.connectedSockets.index
      (data.socketId data.destPort)), tcp.nodes.key node ≠ data.socketId data.destPort)
    {hmNode : Nat} (hfind : tcp.findListen ⟨data.destPort, 0, 0⟩ = some hmNode) (tsc copy : Nat) :
    ∃ after connects', tcp.deliver hmNode data tsc new copy = some after ∧
      after.Sound listens connects' := by
  rcases h.find_listen_cases ⟨data.destPort, 0, 0⟩ (Nat.le_refl _) with
    ⟨hnone, _⟩ | ⟨node, hin, hne, hkey, hsome⟩
  · obtain rfl : hmNode = 0 := Option.some.inj (hfind.symm.trans hnone)
    exact ⟨_, connects, if_pos rfl, h.send _⟩
  · obtain rfl : hmNode = node := Option.some.inj (hfind.symm.trans hsome)
    obtain ⟨listener, cached, hobject, hport, hcaches⟩ := h.ports _ hmNode hin
    obtain ⟨listener', action, hhandle, hport', hexplained, hcaches'⟩ :=
      handle_listen_state_spec hcaches data tsc new
    have hsame : data.destPort = listener.port := by
      rw [hkey] at hport
      exact congrArg SocketId.hostPort hport
    have hset := h.set_listener hobject listener' hport' fun _ _ => ⟨_, hcaches'⟩
    have hdeliver : tcp.deliver hmNode data tsc new copy = ({ tcp with
        objects := update tcp.objects hmNode (some (.listening listener')) } : Tcp).perform
          (data.socketId listener.port) action := by
      simp only [deliver, if_neg hne, hobject, hhandle, Option.bind_eq_bind, Option.bind_some]
    rw [hdeliver]
    cases haction : action with
    | recorded entry reply => exact ⟨_, connects, rfl, hset.send _⟩
    | repeated reply => exact ⟨_, connects, rfl, hset.send _⟩
    | refused reply => exact ⟨_, connects, rfl, hset.send _⟩
    | noMemory => exact ⟨_, connects, rfl, hset⟩
    | created address connection processed =>
      rw [haction] at hhandle
      obtain ⟨hsyn, rfl⟩ := handle_listen_state_created hcaches hhandle
      rw [hsame] at hroute
      obtain ⟨after, hperform, hsound⟩ := hset.create hnull hnew hpeer (hroute.resolve_left hsyn)
        connection processed
      exact ⟨after, _, hperform, hsound⟩

/-- Every packet with a sender keeps the table of sockets sound. -/
theorem Sound.process_packet (h : tcp.Sound listens connects) {data : Incoming} {new : NewSocket}
    (hpeer : ¬ (data.sourcePort = 0 ∧ data.saddr = 0)) (hnull : new.address ≠ 0)
    (hnew : new.address ∉ tcp.allocated) (tsc copy : Nat) :
    ∃ after connects', tcp.processPacket data tsc new copy = some after ∧
      after.Sound listens connects' := by
  obtain ⟨hmNode, hlisten⟩ : ∃ hmNode, tcp.findListen ⟨data.destPort, 0, 0⟩ = some hmNode := by
    rcases h.find_listen_cases ⟨data.destPort, 0, 0⟩ (Nat.le_refl _) with
      ⟨hfind, _⟩ | ⟨node, _, _, _, hfind⟩
    · exact ⟨0, hfind⟩
    · exact ⟨node, hfind⟩
  rcases h.find_connected_cases (data.socketId data.destPort) with
    ⟨hfind, hnone⟩ | ⟨node, hin, hne, _, hfind⟩
  · obtain ⟨after, connects', hdeliver, hsound⟩ :=
      h.deliver_listening hpeer hnull hnew (Or.inr hnone) hlisten tsc copy
    refine ⟨after, connects', ?_, hsound⟩
    simp only [processPacket, hfind, Option.bind_eq_bind, Option.bind_some, or_true, if_true, hlisten,
      hdeliver]
  · rcases and_tcp_flag_syn data.flags with hclear | hsyn
    · -- the packet goes to the connection
      obtain ⟨socket, hobject⟩ := h.sockets node ((h.members node).mpr ⟨_, hin⟩)
      refine ⟨_, connects, ?_, h.set_connection hobject (socket.processPacket copy data.toSegment)⟩
      simp only [processPacket, deliver, hfind, Option.bind_eq_bind, Option.bind_some, ne_eq, hclear,
        hne, not_true_eq_false, or_self, if_false, hobject]
    · obtain ⟨after, connects', hdeliver, hsound⟩ :=
        h.deliver_listening hpeer hnull hnew (Or.inl hsyn) hlisten tsc copy
      refine ⟨after, connects', ?_, hsound⟩
      have hset : data.flags &&& tcpFlagSyn ≠ 0 := by
        rw [hsyn]
        decide
      simp only [processPacket, hfind, Option.bind_eq_bind, Option.bind_some, hset, ne_eq,
        not_false_eq_true, true_or, if_true, hlisten, hdeliver]

/-! ## Whole runs -/

/-- Every allowed event has a next state, and keeps the invariant. -/
theorem Sound.step (h : tcp.Sound listens connects) {event : TcpEvent} (hallowed : tcp.Allowed event) :
    ∃ after, tcp.step event = some after ∧ ∃ listens' connects', after.Sound listens' connects' := by
  cases event with
  | listen address port backlogSize nodes value =>
    obtain ⟨after, listens', hopen, hsound⟩ :=
      h.open_socket hallowed.1 hallowed.2 port backlogSize nodes value
    exact ⟨after, hopen, listens', connects, hsound⟩
  | packet data tsc new copy =>
    obtain ⟨after, connects', hprocess, hsound⟩ :=
      h.process_packet hallowed.1 hallowed.2.1 hallowed.2.2 tsc copy
    exact ⟨after, hprocess, listens, connects', hsound⟩
  | accept address backlog =>
    cases hobject : tcp.objects address with
    | none => exact ⟨tcp, by simp only [Tcp.step, hobject], listens, connects, h⟩
    | some object =>
      cases object with
      | listening listener =>
        exact ⟨_, by simp only [Tcp.step, hobject], listens, connects,
          h.set_listener hobject { listener with listenBacklog := backlog } rfl
            fun cached hcaches => ⟨cached, hcaches⟩⟩
      | _ => exact ⟨tcp, by simp only [Tcp.step, hobject], listens, connects, h⟩
  | transfer address socket =>
    cases hobject : tcp.objects address with
    | none => exact ⟨tcp, by simp only [Tcp.step, hobject], listens, connects, h⟩
    | some object =>
      cases object with
      | connected before =>
        exact ⟨_, by simp only [Tcp.step, hobject], listens, connects,
          h.set_connection hobject socket⟩
      | _ => exact ⟨tcp, by simp only [Tcp.step, hobject], listens, connects, h⟩
  | destroy address =>
    obtain ⟨connects', hsound⟩ := h.destroy_socket hallowed
    exact ⟨_, rfl, listens, connects', hsound⟩

theorem sound_initial (hashFunc : SocketId → Nat) (nodes : HashMapNodes SocketId) :
    (initial hashFunc nodes).Sound (fun _ => []) fun _ => [] := by
  refine ⟨⟨?_, ?_⟩, Bucketed.nil _ _, Bucketed.nil _ _, ?_, ?_, ?_, ?_⟩
  · rintro (i | i)
    · exact Queue.nil
    · exact Queue.nil
  · rintro (i | i) place _ node hnode
    · cases hnode
    · cases hnode
  · intro i node hnode
    cases hnode
  · intro node
    simp [initial]
  · intro node hnode
    cases hnode
  · rintro (i | i) node hnode
    · cases hnode
    · cases hnode

end

end Tcp

/-- In every run of sockets that are opened to listen, packets of any content, and destructions of
connections in any order, all events go through, and the tables are in order at the end. -/
theorem connection_table_integrity (hashFunc : SocketId → Nat) (nodes : HashMapNodes SocketId)
    (events : List TcpEvent)
    (hallowed : Meets Tcp.step Tcp.Allowed (Tcp.initial hashFunc nodes) events) :
    ∃ final, run Tcp.step (Tcp.initial hashFunc nodes) events = some final ∧
      final.Integrity := by
  obtain ⟨final, hrun, listens, connects, hsound⟩ := run_eq_some_of_meets
    (fun tcp : Tcp => ∃ listens connects, tcp.Sound listens connects)
    (fun _ _ ⟨_, _, h⟩ hevent => h.step hevent) ⟨_, _, Tcp.sound_initial hashFunc nodes⟩ hallowed
  exact ⟨final, hrun, hsound.integrity⟩

/-- A layer without sockets. -/
def emptyTcp : Tcp :=
  Tcp.initial (fun id => id.remotePort.toNat) ⟨⟨fun _ => 0, fun _ => 0⟩, fun _ => ⟨0, 0, 0⟩⟩

/-- Two peers whose connections share a bucket connect to one listening socket. Another packet reaches
the first connection, which is then destroyed. -/
def twoPeers : List TcpEvent :=
  let memory : HashMapNodes SocketId := ⟨⟨fun _ => 0, fun _ => 0⟩, fun _ => ⟨0, 0, 0⟩⟩
  [.listen 8 80 4 memory fun _ => ⟨0, 0⟩,
    .packet (peerPacket tcpFlagSyn 100 0) 5 (newSocketAt 16) 24,
    .packet (peerPacket tcpFlagAck 101 6) 6 (newSocketAt 16) 24,
    .packet { peerPacket tcpFlagSyn 100 0 with sourcePort := 422 } 7 (newSocketAt 32) 40,
    .packet { peerPacket tcpFlagAck 101 8 with sourcePort := 422 } 8 (newSocketAt 32) 40,
    .packet (peerPacket tcpFlagAck 101 6) 9 (newSocketAt 48) 56,
    .destroy 16]

/-- The tables after these events. -/
theorem connection_table_of_two_peers : ∃ final,
    run Tcp.step emptyTcp twoPeers = some final ∧ final.Integrity ∧
      final.connections = [32] := by
  obtain ⟨final, hrun, hintegrity⟩ := connection_table_integrity _ _ twoPeers
    (show Meets Tcp.step Tcp.Allowed emptyTcp twoPeers by decide +kernel)
  refine ⟨final, hrun, hintegrity, ?_⟩
  have hconnections : (run Tcp.step emptyTcp twoPeers).map Tcp.connections = some [32] := by
    decide +kernel
  rw [show run Tcp.step emptyTcp twoPeers = some final from hrun] at hconnections
  exact Option.some.inj hconnections

end Otrix.Net
