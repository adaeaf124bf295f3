import Otrix.Net.TcpTable
import Otrix.Common.MemoryList

/-!
# The table of ports

`bind` enters a socket under its port, and the destructor of a socket removes its node from the
table of listening sockets whether it was bound or not. The node of a socket that was never bound
has whatever links and key its memory had, and the removal writes through these links. `bind` of a
socket that is bound already pushes its node to the bucket of the new port without taking it out
of the old one.

A write through a wild link can reach anything, so everything that the calls read lies in one flat
memory here: the nodes of the sockets, the two `hash_map` objects in the `tcp` object, and the
arrays of their buckets. The machine has every sequence of constructors, calls of `bind` and
destructors, and a new socket is given arbitrary links and an arbitrary key. Nothing of it lies in
the first bytes of memory, where an address behind the last one would wrap to.
-/

namespace Otrix.Net

open Bytes Function Linked Machine

/-! ## Hash maps in memory -/

/-- The `socket_id` at an address. -/
def loadSocketId (memory : Mem) (address : Nat) : SocketId where
  hostPort := .ofNat (memory.load address 2)
  remotePort := .ofNat (memory.load (address + 2) 2)
  remoteIp := .ofNat (memory.load (address + 4) 4)

/-- The fields of a `socket_id` as they are stored. -/
def socketIdFields (id : SocketId) : List (Nat × Nat) :=
  [(2, id.hostPort.toNat), (2, id.remotePort.toNat), (4, id.remoteIp.toNat)]

/-- The `hash_map_node`s in memory: the links and, behind them, the key. -/
def loadNodes (memory : Mem) : HashMapNodes SocketId where
  links := ⟨next memory, prev memory⟩
  key node := loadSocketId memory (node + 16)

section

variable (code : Nat → SocketId → Nat)

/-- The `hash_map` at an address, where `code` is what the functions in memory compute. Behind the
pointer to its virtual functions there are `table_size_`, `hash_func_` and `table_`. -/
def loadHashMap (memory : Mem) (map : Nat) : HashMap SocketId where
  tableSize := memory.load (map + 8) 8
  hashFunc := code (memory.load (map + 16) 8)
  table idx := memory.load (memory.load (map + 24) 8 + 8 * idx) 8

/-- `table_[idx] = head`. -/
def setHead (memory : Mem) (map idx head : Nat) : Mem :=
  memory.store (memory.load (map + 24) 8 + 8 * idx) head 8

/-- `hash_map::insert`. -/
def hashMapInsert (memory : Mem) (map node : Nat) : Mem :=
  let m := loadHashMap code memory map
  let idx := m.index ((loadNodes memory).key node)
  let (memory, head) := intrusiveListPushBack memory (m.table idx) node
  setHead memory map idx head

/-- `hash_map::remove`. -/
def hashMapRemove (memory : Mem) (map node : Nat) : Mem :=
  let m := loadHashMap code memory map
  let idx := m.index ((loadNodes memory).key node)
  let (memory, head) := intrusiveListDelete memory (m.table idx) node
  setHead memory map idx head

end

/-- Two ranges of addresses have no byte in common. -/
abbrev Separate (first size second size' : Nat) : Prop :=
  first + size ≤ second ∨ second + size' ≤ first

/-- The address is in the range. -/
abbrev Within (start size address : Nat) : Prop :=
  start ≤ address ∧ address < start + size

/-- Where the tcp layer lies: the `tcp` object with `ip_layer_` and the two maps of 32 bytes, the
arrays of 257 buckets that the maps point to, and the hash functions. -/
structure TcpLayout where
  layer : Nat
  listenTable : Nat
  connectedTable : Nat
  listenHash : Nat
  connectedHash : Nat
  code : Nat → SocketId → Nat
  hash_eq : ∀ id, code listenHash id = id.hostPort.toNat
  layer_listen : Separate layer 72 listenTable 2056
  layer_connected : Separate layer 72 connectedTable 2056
  listen_connected : Separate listenTable 2056 connectedTable 2056
  low : 16 ≤ layer ∧ 16 ≤ listenTable ∧ 16 ≤ connectedTable
  high : layer < 2 ^ 64

namespace TcpLayout

/-- `listen_sockets_`. -/
def listenSockets (layout : TcpLayout) (memory : Mem) : HashMap SocketId :=
  loadHashMap layout.code memory (layout.layer + 8)

/-- The bytes from `node_` to `tcp_layer_` of a socket are in memory and not in the layer. -/
def Clear (layout : TcpLayout) (sock : Nat) : Prop :=
  (16 ≤ sock ∧ sock + 40 ≤ 2 ^ 64) ∧ Separate sock 40 layout.layer 72 ∧
    Separate sock 40 layout.listenTable 2056 ∧ Separate sock 40 layout.connectedTable 2056
  deriving Decidable

end TcpLayout

/-- A map with 257 buckets at an address. -/
structure MapAt (memory : Mem) (map hash table : Nat) : Prop where
  size : memory.load (map + 8) 8 = tcpTableSize
  hash : memory.load (map + 16) 8 = hash
  table : memory.load (map + 24) 8 = table

section

variable {memory source : Mem} {map hash buckets : Nat}

theorem loadSocketId_stored (memory : Mem) (address : Nat) (id : SocketId) :
    loadSocketId (memory.storeFields address (socketIdFields id)) address = id := by
  have hholds := Mem.holds_write memory address (Mem.fieldBytes (socketIdFields id))
  rw [← Mem.storeFields_eq_write] at hholds
  obtain ⟨hhost, hholds⟩ := hholds.field
  obtain ⟨hremote, hholds⟩ := hholds.field
  obtain ⟨hip, _⟩ := hholds.field
  simp [loadSocketId, hhost, hremote, hip]

theorem loadSocketId_congr (address : Nat)
    (hsame : ∀ a, Within address 8 a → memory.byte a = source.byte a) :
    loadSocketId memory address = loadSocketId source address := by
  unfold loadSocketId
  have hload : ∀ i width, i + width ≤ 8 →
      memory.load (address + i) width = source.load (address + i) width := fun i width hle =>
    Mem.load_congr fun a _ _ => hsame a (by omega)
  rw [hload 2 2 (by decide), hload 4 4 (by decide), show memory.load address 2 = _ from
    hload 0 2 (by decide)]
  rfl

theorem MapAt.congr (h : MapAt source map hash buckets)
    (hsame : ∀ a, Within map 32 a → memory.byte a = source.byte a) :
    MapAt memory map hash buckets :=
  ⟨(Mem.load_congr fun a _ _ => hsame a (by omega)).trans h.size,
    (Mem.load_congr fun a _ _ => hsame a (by omega)).trans h.hash,
    (Mem.load_congr fun a _ _ => hsame a (by omega)).trans h.table⟩

/-- A map as `find`, `insert` and `remove` see it. -/
theorem MapAt.load_eq (h : MapAt memory map hash buckets) (code : Nat → SocketId → Nat) :
    loadHashMap code memory map =
      ⟨tcpTableSize, code hash, fun idx => memory.load (buckets + 8 * idx) 8⟩ := by
  rw [loadHashMap, h.size, h.hash, h.table]

/-- A list in memory is the list of its links. -/
theorem queue_view {nodes : List Nat} {head : Nat} (h : Queue memory head nodes) :
    Queue (loadNodes memory).links head nodes :=
  ⟨⟨h.ring.chain, h.ring.nodup, fun _ _ => trivial, h.ring.nonnull⟩, h.head_eq⟩

end

/-! ## The machine -/

/-- The memory, the nodes of the sockets that exist, and for each of them the port of its last
successful `bind`. -/
structure PortTable where
  memory : Mem
  allocated : List Nat
  port : Nat → Option UInt16

/-- What an application does with its sockets, which are named by the address of `node_`. The links
and the key are those of the memory of a new socket. -/
inductive PortEvent where
  | create (address next prev : Nat) (key : SocketId)
  | bind (sock : Nat) (port : UInt16)
  | destroy (sock : Nat)
  deriving DecidableEq

namespace PortTable

/-- The identifier that a port is bound under. -/
def portId (port : UInt16) : SocketId := ⟨port, 0, 0⟩

/-- The bucket of a port. -/
def bucket (port : UInt16) : Fin 257 :=
  ⟨port.toNat % 257, Nat.mod_lt _ (by decide)⟩

/-- The socket exists and its last successful `bind` was to this port. -/
def Bound (table : PortTable) (sock : Nat) (port : UInt16) : Prop :=
  sock ∈ table.allocated ∧ table.port sock = some port
  deriving Decidable

section

variable (layout : TcpLayout)

/-- `tcp_socket::tcp_socket`, on memory that holds these links and this key. `p_socket`, the address
of the socket, and `tcp_layer_` are behind the key. -/
def create (table : PortTable) (address next prev : Nat) (key : SocketId) : PortTable where
  memory := table.memory.storeFields address ([(8, next), (8, prev)] ++ socketIdFields key ++
    [(8, address - 24), (8, layout.layer)])
  allocated := address :: table.allocated
  port := Function.update table.port address none

/-- `tcp::bind_socket` of the layer at an address. The loop of `find` has the given number of
turns. -/
def bindSocket (memory : Mem) (fuel layer sock : Nat) (port : UInt16) : Option (Kerror × Mem) := do
  let hmNode ← (loadHashMap layout.code memory (layer + 8)).find (loadNodes memory) fuel (portId port)
  if hmNode ≠ 0 then some (.addrinuse, memory)
  else
    let memory := memory.storeFields (sock + 16) (socketIdFields (portId port))
    some (.ok, hashMapInsert layout.code memory (layer + 8) sock)

/-- `tcp_socket::bind`. -/
def bind (table : PortTable) (sock : Nat) (port : UInt16) : Option PortTable := do
  let tcpLayer := table.memory.load (sock + 32) 8
  let (ret, memory) ← bindSocket layout table.memory table.allocated.length tcpLayer sock port
  if ret = .ok then
    some { table with memory := memory, port := Function.update table.port sock (some port) }
  else some { table with memory := memory }

/-- `tcp::unbind_socket`. -/
def unbindSocket (memory : Mem) (layer sock : Nat) : Mem :=
  hashMapRemove layout.code memory (layer + 8) sock

/-- `tcp::remove_connected_socket`. -/
def removeConnectedSocket (memory : Mem) (layer sock : Nat) : Mem :=
  hashMapRemove layout.code memory (layer + 40) sock

/-- `tcp_socket::~tcp_socket`, and the release of the memory. -/
def destroy (table : PortTable) (sock : Nat) : PortTable :=
  let memory := unbindSocket layout table.memory (table.memory.load (sock + 32) 8) sock
  let memory := removeConnectedSocket layout memory (memory.load (sock + 32) 8) sock
  { memory := memory
    allocated := table.allocated.filter (· ≠ sock)
    port := Function.update table.port sock none }

/-- One event. -/
def step (table : PortTable) : PortEvent → Option PortTable
  | .create address next prev key => some (table.create layout address next prev key)
  | .bind sock port => table.bind layout sock port
  | .destroy sock => some (table.destroy layout sock)

/-- `new` returns memory that is not in use, and calls are made for sockets that exist. -/
def Allowed (table : PortTable) : PortEvent → Prop
  | .create address _ _ _ => layout.Clear address ∧
      ∀ sock ∈ table.allocated, Separate address 40 sock 40
  | .bind sock _ => sock ∈ table.allocated
  | .destroy sock => sock ∈ table.allocated

instance (table : PortTable) : (event : PortEvent) → Decidable (table.Allowed layout event)
  | .create _ _ _ _ => inferInstanceAs (Decidable (_ ∧ ∀ sock ∈ table.allocated, _))
  | .bind _ _ => inferInstanceAs (Decidable (_ ∈ _))
  | .destroy _ => inferInstanceAs (Decidable (_ ∈ _))

/-- The table is as it should be. -/
structure Intact (table : PortTable) : Prop where
  /-- The buckets are rings without common nodes, of the sockets that are bound to their ports. -/
  rings : ∃ lists : Fin 257 → List Nat,
    Rings table.memory (fun i : Fin 257 => (layout.listenSockets table.memory).table i) lists ∧
    ∀ i sock, sock ∈ lists i ↔ ∃ port, table.Bound sock port ∧ bucket port = i
  /-- Every lookup ends, with the socket that is bound to the port, or null. -/
  lookup : ∀ id, ∃ fuel node,
    (layout.listenSockets table.memory).find (loadNodes table.memory) fuel id = some node ∧
    ∀ sock, sock ≠ 0 → (node = sock ↔ ∃ port, table.Bound sock port ∧ portId port = id)

/-- The bytes that lookups and calls for the sockets read: the layer and its tables, `tcp_layer_` of
every socket, and the nodes of the bound ones. -/
def Relied (table : PortTable) (a : Nat) : Prop :=
  Within layout.layer 72 a ∨ Within layout.listenTable 2056 a ∨
    Within layout.connectedTable 2056 a ∨
    ∃ sock ∈ table.allocated, Within (sock + 32) 8 a ∨ table.port sock ≠ none ∧ Within sock 32 a
  deriving Decidable

/-- The two words that are written through the links of a socket that was never bound change none of
these bytes, and not the links themselves: the bytes are not hit, or have these values already. -/
def Harmless (table : PortTable) (sock : Nat) : Prop :=
  ∀ i < 8,
    (let a := table.memory.load (sock + 8) 8 + i
     Within sock 16 a ∨ table.Relied layout a → table.memory.byte a = table.memory.byte (sock + i)) ∧
    (let a := table.memory.load sock 8 + 8 + i
     Within sock 16 a ∨ table.Relied layout a →
       table.memory.byte a = table.memory.byte (sock + 8 + i))

instance (table : PortTable) (sock : Nat) : Decidable (table.Harmless layout sock) :=
  inferInstanceAs (Decidable (∀ i < 8, _ ∧ _))

/-- The socket is alone in its bucket, and the new port has the same one. -/
def StaysAlone (table : PortTable) (sock : Nat) (port : UInt16) : Prop :=
  next table.memory sock = sock ∧ ∀ old ∈ table.port sock, bucket old = bucket port

instance (table : PortTable) (sock : Nat) (port : UInt16) :
    Decidable (table.StaysAlone sock port) :=
  -- only the port of the socket is looked at, and not every port
  @instDecidableAnd _ _ _ (Option.decidableForallMem (table.port sock))

/-- What the callers have to see to: a socket that is bound is not bound to another free port, unless
it is alone in one bucket that both ports have, and the links of a socket that is destroyed without
having been bound do no harm. -/
def Careful (table : PortTable) : PortEvent → Prop
  | .create _ _ _ _ => True
  | .bind sock port => table.port sock = none ∨
      (∃ other ∈ table.allocated, table.port other = some port) ∨ table.StaysAlone sock port
  | .destroy sock => table.port sock ≠ none ∨ table.Harmless layout sock

instance (table : PortTable) : (event : PortEvent) → Decidable (table.Careful layout event)
  | .create _ _ _ _ => inferInstanceAs (Decidable True)
  | .bind _ _ => inferInstanceAs (Decidable (_ ∨ (∃ other ∈ table.allocated, _) ∨ _))
  | .destroy _ => inferInstanceAs (Decidable (_ ∨ _))

/-- What the calls leave as it is: where the sockets lie, the maps, the empty table of connections,
and the keys of the bound sockets. -/
structure Static (table : PortTable) : Prop where
  clear : ∀ sock ∈ table.allocated, layout.Clear sock
  apart : ∀ first ∈ table.allocated, ∀ second ∈ table.allocated, first ≠ second →
    Separate first 40 second 40
  listen : MapAt table.memory (layout.layer + 8) layout.listenHash layout.listenTable
  connect : MapAt table.memory (layout.layer + 40) layout.connectedHash layout.connectedTable
  connected : ∀ i : Fin 257, table.memory.load (layout.connectedTable + 8 * i) 8 = 0
  layers : ∀ sock ∈ table.allocated, table.memory.load (sock + 32) 8 = layout.layer
  keys : ∀ sock port, table.Bound sock port → loadSocketId table.memory (sock + 16) = portId port
  unique : ∀ first second port, table.Bound first port → table.Bound second port → first = second

/-- The heads of the buckets. -/
def heads (memory : Mem) (i : Fin 257) : Nat :=
  memory.load (layout.listenTable + 8 * i) 8

/-- The invariant, for these buckets. -/
structure Sound (table : PortTable) (lists : Fin 257 → List Nat) : Prop
    extends table.Static layout where
  rings : Rings table.memory (heads layout table.memory) lists
  bound : ∀ i sock, sock ∈ lists i ↔ ∃ port, table.Bound sock port ∧ bucket port = i

end

/-! ## What the invariant is about -/

variable {layout : TcpLayout} {table : PortTable} {lists : Fin 257 → List Nat} {memory : Mem}
  {sock : Nat} {port : UInt16}

/-- The invariant is about bytes that the calls rely on. -/
theorem Static.congr (h : table.Static layout)
    (hlayer : ∀ a, Within layout.layer 72 a → memory.byte a = table.memory.byte a)
    (hconnected : ∀ a, Within layout.connectedTable 2056 a → memory.byte a = table.memory.byte a)
    (hsockets : ∀ sock ∈ table.allocated, ∀ a, Within (sock + 32) 8 a →
      memory.byte a = table.memory.byte a)
    (hkeys : ∀ sock ∈ table.allocated, table.port sock ≠ none → ∀ a, Within (sock + 16) 8 a →
      memory.byte a = table.memory.byte a) : Static layout { table with memory := memory } := by
  refine ⟨h.clear, h.apart, h.listen.congr fun a ha => hlayer a (by omega),
    h.connect.congr fun a ha => hlayer a (by omega), fun i => ?_, fun sock hsock => ?_,
    fun sock port hbound => ?_, h.unique⟩
  · exact (Mem.load_congr fun a _ _ => hconnected a (by omega)).trans (h.connected i)
  · exact (Mem.load_congr fun a hlow hhigh => hsockets sock hsock a ⟨hlow, hhigh⟩).trans
      (h.layers sock hsock)
  · have hport : table.port sock ≠ none := by rw [hbound.2]; simp
    exact (loadSocketId_congr _ (hkeys sock hbound.1 hport)).trans (h.keys sock port hbound)

namespace Sound

section

variable (h : table.Sound layout lists)
include h

theorem allocated_of_mem {i : Fin 257} (hmem : sock ∈ lists i) :
    sock ∈ table.allocated ∧ table.port sock ≠ none := by
  obtain ⟨port, hbound, _⟩ := (h.bound i sock).mp hmem
  exact ⟨hbound.1, by simp [hbound.2]⟩

theorem mem_bucket (hbound : table.Bound sock port) : sock ∈ lists (bucket port) :=
  (h.bound _ sock).mpr ⟨port, hbound, rfl⟩

/-- A socket that is not bound is in no bucket. -/
theorem not_mem_of_unbound (hunbound : table.port sock = none) (i : Fin 257) : sock ∉ lists i :=
  fun hmem => (h.allocated_of_mem hmem).2 hunbound

theorem congr (hsame : ∀ a, table.Relied layout a → memory.byte a = table.memory.byte a) :
    Sound layout { table with memory := memory } lists := by
  have hbound : ∀ sock ∈ table.allocated, table.port sock ≠ none → ∀ a, Within sock 32 a →
      memory.byte a = table.memory.byte a := fun sock hsock hport a ha =>
    hsame a (Or.inr (Or.inr (Or.inr ⟨sock, hsock, Or.inr ⟨hport, ha⟩⟩)))
  refine ⟨h.toStatic.congr (fun a ha => hsame a (Or.inl ha))
    (fun a ha => hsame a (Or.inr (Or.inr (Or.inl ha))))
    (fun sock hsock a ha => hsame a (Or.inr (Or.inr (Or.inr ⟨sock, hsock, Or.inl ha⟩))))
    (fun sock hsock hport a ha => hbound sock hsock hport a (by omega)), ?_, h.bound⟩
  have hheads : heads layout memory = heads layout table.memory := funext fun i =>
    Mem.load_congr fun a _ _ => hsame a (Or.inr (Or.inl (by omega)))
  show Rings memory (heads layout memory) lists
  rw [hheads]
  refine h.rings.congr fun i sock hmem => ?_
  obtain ⟨hsock, hport⟩ := h.allocated_of_mem hmem
  exact ⟨Mem.load_congr fun a _ _ => hbound sock hsock hport a (by omega),
    Mem.load_congr fun a _ _ => hbound sock hsock hport a (by omega)⟩

/-! ## Lookups -/

theorem find_cases (id : SocketId) {fuel : Nat} (hfuel : table.allocated.length ≤ fuel) :
    ((layout.listenSockets table.memory).find (loadNodes table.memory) fuel id = some 0 ∧
        ∀ sock port, table.Bound sock port → portId port ≠ id) ∨
      ∃ sock port, table.Bound sock port ∧ portId port = id ∧
        (layout.listenSockets table.memory).find (loadNodes table.memory) fuel id = some sock := by
  have hmap := h.listen.load_eq layout.code
  have hindex : (layout.listenSockets table.memory).index id = (bucket id.hostPort : Nat) := by
    rw [TcpLayout.listenSockets, hmap]
    exact congrArg (· % 257) (layout.hash_eq id)
  have hqueue : Queue (loadNodes table.memory).links ((layout.listenSockets table.memory).table
      ((layout.listenSockets table.memory).index id)) (lists (bucket id.hostPort)) := by
    rw [hindex, TcpLayout.listenSockets, hmap]
    exact queue_view (h.rings.queue _)
  have hlength : (lists (bucket id.hostPort)).length ≤ fuel :=
    (List.subperm_of_subset (h.rings.queue _).ring.nodup fun other hin =>
      (h.allocated_of_mem hin).1).length_le.trans hfuel
  rcases HashMap.find_cases hqueue hlength with ⟨hfind, hnone⟩ | ⟨sock, hmem, _, hkey, hfind⟩
  · refine Or.inl ⟨hfind, ?_⟩
    rintro sock port hbound rfl
    exact hnone sock (h.mem_bucket hbound) (h.keys sock port hbound)
  · obtain ⟨port, hbound, _⟩ := (h.bound _ sock).mp hmem
    exact Or.inr ⟨sock, port, hbound, (h.keys sock port hbound).symm.trans hkey, hfind⟩

theorem intact : table.Intact layout := by
  refine ⟨⟨lists, ?_, h.bound⟩, fun id => ⟨table.allocated.length, ?_⟩⟩
  · rw [TcpLayout.listenSockets, h.listen.load_eq]
    exact h.rings
  rcases h.find_cases id (Nat.le_refl _) with ⟨hfind, hnone⟩ | ⟨found, port, hbound, hid, hfind⟩
  · refine ⟨0, hfind, fun sock hsock => iff_of_false hsock.symm ?_⟩
    rintro ⟨port, hbound, hid⟩
    exact hnone sock port hbound hid
  · refine ⟨found, hfind, fun sock _ => ⟨?_, ?_⟩⟩
    · rintro rfl
      exact ⟨port, hbound, hid⟩
    · rintro ⟨other, hother, hid'⟩
      obtain rfl : port = other := congrArg SocketId.hostPort (hid.trans hid'.symm)
      exact h.unique found sock port hbound hother

end

end Sound

/-! ## Constructors -/

/-- Sockets that are not bound come and go. -/
theorem Sound.of_bound_iff (h : table.Sound layout lists) {after : PortTable}
    (hmemory : after.memory = table.memory)
    (hclear : ∀ sock ∈ after.allocated, layout.Clear sock)
    (hapart : ∀ first ∈ after.allocated, ∀ second ∈ after.allocated, first ≠ second →
      Separate first 40 second 40)
    (hlayers : ∀ sock ∈ after.allocated, after.memory.load (sock + 32) 8 = layout.layer)
    (hiff : ∀ sock port, after.Bound sock port ↔ table.Bound sock port) :
    after.Sound layout lists := by
  refine ⟨⟨hclear, hapart, hmemory ▸ h.listen, hmemory ▸ h.connect, hmemory ▸ h.connected, hlayers,
    fun sock port hbound => ?_, fun first second port hfirst hsecond => ?_⟩, ?_, fun i sock => ?_⟩
  · rw [hmemory]
    exact h.keys sock port ((hiff sock port).mp hbound)
  · exact h.unique first second port ((hiff first port).mp hfirst) ((hiff second port).mp hsecond)
  · rw [hmemory]
    exact h.rings
  · rw [h.bound i sock]
    exact exists_congr fun port => and_congr_left fun _ => (hiff sock port).symm

theorem create_layer (table : PortTable) (address next prev : Nat) (key : SocketId) :
    (table.create layout address next prev key).memory.load (address + 32) 8 = layout.layer := by
  have hholds := Mem.holds_write table.memory address (Mem.fieldBytes
    ([(8, next), (8, prev)] ++ socketIdFields key ++ [(8, address - 24), (8, layout.layer)]))
  rw [← Mem.storeFields_eq_write] at hholds
  have hlayer := hholds.field.2.field.2.field.2.field.2.field.2.field.2.field.1
  have hhigh := layout.high
  exact hlayer.trans (Nat.mod_eq_of_lt (by omega))

/-- A new socket lies apart from all nodes, so no list changes. -/
theorem Sound.create (h : table.Sound layout lists) {address next prev : Nat} {key : SocketId}
    (hallowed : table.Allowed layout (.create address next prev key)) :
    (table.create layout address next prev key).Sound layout lists := by
  obtain ⟨hclear, hapart⟩ : layout.Clear address ∧ ∀ sock ∈ table.allocated,
    Separate address 40 sock 40 := hallowed
  have ⟨_, hlayer, hlisten, hconnected⟩ := hclear
  have hnew : address ∉ table.allocated := fun hin => by
    have := hapart address hin
    omega
  -- the constructor writes to the memory of the new socket only
  have hsame : ∀ a, ¬ Within address 40 a →
      (table.create layout address next prev key).memory.byte a = table.memory.byte a :=
    fun a ha => Mem.storeFields_byte_outside _ (by simp [socketIdFields]; omega)
  have hkept : Sound layout { table with
      memory := (table.create layout address next prev key).memory } lists := by
    refine h.congr fun a ha => hsame a fun hin => ?_
    rcases ha with ha | ha | ha | ⟨sock, hsock, ha⟩
    · omega
    · omega
    · omega
    · have := hapart sock hsock
      omega
  refine hkept.of_bound_iff rfl (List.forall_mem_cons.mpr ⟨hclear, h.clear⟩) ?_
    (List.forall_mem_cons.mpr ⟨create_layer .., hkept.layers⟩) fun sock port => ?_
  · intro first hfirst second hsecond hne
    rcases List.mem_cons.mp hfirst with heq | hin
    · rcases List.mem_cons.mp hsecond with heq' | hin'
      · exact absurd (heq.trans heq'.symm) hne
      · exact heq ▸ hapart second hin'
    · rcases List.mem_cons.mp hsecond with heq' | hin'
      · exact heq' ▸ (hapart first hin).symm
      · exact h.apart first hin second hin' hne
  · show sock ∈ address :: table.allocated ∧ update table.port address none sock = some port ↔ _
    by_cases heq : sock = address
    · subst heq
      simp [Bound, hnew]
    · rw [List.mem_cons, or_iff_right heq, update_of_ne heq]
      rfl

/-! ## Lists that change -/

/-- The writes of a list operation and of the new head of a bucket keep what the calls rely on, and
the head is read back. -/
theorem Static.relink (h : table.Static layout) {i : Fin 257} {head : Nat}
    (hframe : ∀ a, (∀ sock ∈ table.allocated, ¬ Within sock 16 a) →
      memory.byte a = table.memory.byte a)
    (hrings : Rings memory (update (heads layout table.memory) i head) lists)
    (hmem : ∀ j, ∀ sock ∈ lists j, sock ∈ table.allocated) :
    let after := { table with memory := setHead memory (layout.layer + 8) i head }
    after.memory = memory.store (layout.listenTable + 8 * i) head 8 ∧ after.Static layout ∧
      Rings after.memory (heads layout after.memory) lists := by
  have := layout.layer_listen
  have := layout.listen_connected
  have hlayer : ∀ a, Within layout.layer 72 a → memory.byte a = table.memory.byte a := by
    refine fun a ha => hframe a fun sock hsock hin => ?_
    have := (h.clear sock hsock).2.1
    omega
  have htable : memory.load (layout.layer + 8 + 24) 8 = layout.listenTable :=
    (Mem.load_congr fun a _ _ => hlayer a (by omega)).trans h.listen.table
  have hset : setHead memory (layout.layer + 8) i head =
      memory.store (layout.listenTable + 8 * i) head 8 := by rw [setHead, htable]
  have hlt : head < 2 ^ 64 := by
    have hqueue := hrings.queue i
    rw [update_self] at hqueue
    by_cases hnull : head = 0
    · rw [hnull]
      decide
    · exact hqueue.ring.storable head (hqueue.head_mem hnull)
  -- a byte outside the bucket that is written and outside the links of the sockets is the same
  have hkept : ∀ a, ¬ Within (layout.listenTable + 8 * i) 8 a →
      (∀ sock ∈ table.allocated, ¬ Within sock 16 a) →
      (memory.store (layout.listenTable + 8 * i) head 8).byte a = table.memory.byte a :=
    fun a hslot hnodes => (Mem.store_byte_outside (by omega)).trans (hframe a hnodes)
  have hsocket : ∀ sock ∈ table.allocated, ∀ a, Within (sock + 16) 24 a →
      (memory.store (layout.listenTable + 8 * i) head 8).byte a = table.memory.byte a := by
    refine fun sock hsock a ha => hkept a ?_ fun other hother hin => ?_
    · have := (h.clear sock hsock).2.2.1
      omega
    · by_cases heq : other = sock
      · omega
      · have := h.apart other hother sock hsock heq
        omega
  refine ⟨hset, ?_⟩
  rw [hset]
  refine ⟨h.congr ?_ ?_ (fun sock hsock a ha => hsocket sock hsock a (by omega))
    (fun sock hsock _ a ha => hsocket sock hsock a (by omega)), ?_⟩
  · intro a ha
    exact (Mem.store_byte_outside (by omega)).trans (hlayer a ha)
  · refine fun a ha => hkept a (by omega) fun sock hsock hin => ?_
    have := (h.clear sock hsock).2.2.2
    omega
  · have hheads : heads layout (memory.store (layout.listenTable + 8 * i) head 8) =
        update (heads layout table.memory) i head := by
      funext j
      by_cases heq : j = i
      · subst heq
        rw [update_self]
        exact (Mem.load_store_same _ _ _ _).trans (Nat.mod_eq_of_lt hlt)
      · rw [update_of_ne heq]
        have hne : (j : Nat) ≠ i := fun hval => heq (Fin.ext hval)
        refine (Mem.load_store_other (by omega)).trans
          (Mem.load_congr fun a _ _ => hframe a fun sock hsock hin => ?_)
        have := (h.clear sock hsock).2.2.1
        omega
    show Rings _ (heads layout _) lists
    rw [hheads]
    refine hrings.congr fun j sock hin => ?_
    have := (h.clear sock (hmem j sock hin)).2.2.1
    exact ⟨Mem.load_store_other (by omega), Mem.load_store_other (by omega)⟩

/-! ## Binding -/

/-- The table when the node of a socket has got the key of a port. -/
def rekey (table : PortTable) (sock : Nat) (port : UInt16) : PortTable where
  memory := table.memory.storeFields (sock + 16) (socketIdFields (portId port))
  allocated := table.allocated
  port := Function.update table.port sock (some port)

/-- The socket is bound to the new port only, and the others are bound as before. -/
theorem rekey_bound_iff (hsock : sock ∈ table.allocated) (other : Nat) (port' : UInt16) :
    (table.rekey sock port).Bound other port' ↔
      other = sock ∧ port' = port ∨ other ≠ sock ∧ table.Bound other port' := by
  show other ∈ table.allocated ∧ update table.port sock (some port) other = some port' ↔ _
  by_cases heq : other = sock
  · subst heq
    simp [hsock, eq_comm]
  · rw [update_of_ne heq]
    simp [heq, Bound]

theorem rekey_byte {a : Nat} (ha : ¬ Within (sock + 16) 8 a) :
    (table.rekey sock port).memory.byte a = table.memory.byte a :=
  Mem.storeFields_byte_outside _ (by simp [socketIdFields]; omega)

/-- A push of a node to a list where it is alone stores what is there already. -/
theorem push_back_alone {memory : Mem} (hnull : sock ≠ 0) (hnext : next memory sock = sock)
    (hprev : prev memory sock = sock) : (intrusiveListPushBack memory sock sock).1 = memory := by
  have hstore : memory.store sock sock 8 = memory := Mem.store_of_load hnext
  have hstore' : memory.store (sock + 8) sock 8 = memory := Mem.store_of_load hprev
  unfold intrusiveListPushBack
  rw [if_neg (show sock ≠ null Mem from hnull)]
  show Mem.store (Mem.store (Mem.store (Mem.store memory (prev memory sock) sock 8) (sock + 8)
    (prev memory sock) 8) sock sock 8) (sock + 8) sock 8 = memory
  simp only [hprev, hstore, hstore']

section

variable (h : table.Sound layout lists)
include h

/-- `bind` to a port that is in use is refused, and to another one it enters the socket. -/
theorem Sound.bind_cases (hsock : sock ∈ table.allocated) (port : UInt16) :
    ((∃ other, table.Bound other port) ∧ table.bind layout sock port = some table) ∨
      (∀ other, ¬ table.Bound other port) ∧ table.bind layout sock port =
        some { table.rekey sock port with
          memory := hashMapInsert layout.code (table.rekey sock port).memory (layout.layer + 8)
            sock } := by
  have hlayer := h.layers sock hsock
  rcases h.find_cases (portId port) (Nat.le_refl _) with
    ⟨hfind, hnone⟩ | ⟨other, port', hbound, hid, hfind⟩
  · refine Or.inr ⟨fun other hbound => hnone other port hbound rfl, ?_⟩
    rw [TcpLayout.listenSockets] at hfind
    simp only [PortTable.bind, bindSocket, hlayer, hfind, Option.bind_eq_bind, Option.bind_some,
      ne_eq, not_true_eq_false, if_false, if_true]
    rfl
  · obtain rfl : port' = port := congrArg SocketId.hostPort hid
    refine Or.inl ⟨⟨other, hbound⟩, ?_⟩
    have hne : other ≠ 0 := by
      have := (h.clear other hbound.1).1
      omega
    rw [TcpLayout.listenSockets] at hfind
    simp only [PortTable.bind, bindSocket, hlayer, hfind, Option.bind_eq_bind, Option.bind_some,
      ne_eq, hne, not_false_eq_true, if_true, reduceCtorEq, if_false]

/-- The key of a socket changes, and nothing else that the calls rely on. -/
theorem Sound.rekey (hsock : sock ∈ table.allocated) (hfree : ∀ other, ¬ table.Bound other port) :
    (table.rekey sock port).Static layout ∧
      heads layout (table.rekey sock port).memory = heads layout table.memory ∧
      Rings (table.rekey sock port).memory (heads layout table.memory) lists := by
  have hiff : ∀ other port', (table.rekey sock port).Bound other port' ↔ _ := rekey_bound_iff hsock
  have ⟨_, hlayer, hlisten, hconnected⟩ := h.clear sock hsock
  have hothers : ∀ other ∈ table.allocated, other ≠ sock → ∀ a, Within other 40 a →
      (table.rekey sock port).memory.byte a = table.memory.byte a := by
    refine fun other hother hne a ha => rekey_byte fun hin => ?_
    have := h.apart other hother sock hsock hne
    omega
  refine ⟨⟨h.clear, h.apart, h.listen.congr fun a ha => rekey_byte (by omega),
    h.connect.congr fun a ha => rekey_byte (by omega), fun i => ?_, fun other hother => ?_,
    fun other port' hbound => ?_, fun first second port' hfirst hsecond => ?_⟩, ?_, ?_⟩
  · exact (Mem.load_congr fun a _ _ => rekey_byte (by omega)).trans (h.connected i)
  · refine (Mem.load_congr fun a _ _ => ?_).trans (h.layers other hother)
    by_cases heq : other = sock
    · exact rekey_byte (by omega)
    · exact hothers other hother heq a (by omega)
  · rcases (hiff other port').mp hbound with ⟨rfl, rfl⟩ | ⟨hne, hbefore⟩
    · exact loadSocketId_stored ..
    · exact (loadSocketId_congr _ fun a ha => hothers other hbefore.1 hne a (by omega)).trans
        (h.keys other port' hbefore)
  · rcases (hiff first port').mp hfirst with ⟨rfl, rfl⟩ | ⟨_, hbefore⟩
    · rcases (hiff second port').mp hsecond with ⟨rfl, _⟩ | ⟨_, hbefore⟩
      · rfl
      · exact absurd hbefore (hfree second)
    · rcases (hiff second port').mp hsecond with ⟨_, rfl⟩ | ⟨_, hbefore'⟩
      · exact absurd hbefore (hfree first)
      · exact h.unique first second port' hbefore hbefore'
  · exact funext fun i => Mem.load_congr fun a _ _ => rekey_byte (by omega)
  · refine h.rings.congr fun i other hin => ?_
    have hlinks : ∀ a, Within other 16 a →
        (table.rekey sock port).memory.byte a = table.memory.byte a := by
      intro a ha
      by_cases heq : other = sock
      · exact rekey_byte (by omega)
      · exact hothers other (h.allocated_of_mem hin).1 heq a (by omega)
    exact ⟨Mem.load_congr fun a _ _ => hlinks a (by omega),
      Mem.load_congr fun a _ _ => hlinks a (by omega)⟩

/-- `insert` of a socket that has got its key. -/
theorem Sound.insert_eq (hsock : sock ∈ table.allocated) (hfree : ∀ other, ¬ table.Bound other port) :
    hashMapInsert layout.code (table.rekey sock port).memory (layout.layer + 8) sock =
      setHead (intrusiveListPushBack (table.rekey sock port).memory
        (heads layout table.memory (bucket port)) sock).1 (layout.layer + 8) (bucket port) sock := by
  obtain ⟨hstatic, hheads, _⟩ := h.rekey hsock hfree
  have hkey : loadSocketId (table.rekey sock port).memory (sock + 16) = portId port :=
    hstatic.keys sock port ((rekey_bound_iff hsock _ _).mpr (Or.inl ⟨rfl, rfl⟩))
  have hindex : layout.code layout.listenHash (portId port) % tcpTableSize = (bucket port : Nat) := by
    rw [layout.hash_eq]
    rfl
  simp only [hashMapInsert, hstatic.listen.load_eq, HashMap.index, loadNodes, hkey, hindex,
    intrusive_list_push_back_snd]
  rw [← hheads]
  rfl

/-- The sockets in the buckets after the socket was entered into the bucket of the port. -/
theorem Sound.rekey_bound {lists' : Fin 257 → List Nat} (hsock : sock ∈ table.allocated)
    (hlists : ∀ i other, other ∈ lists' i ↔
      other = sock ∧ i = bucket port ∨ other ≠ sock ∧ other ∈ lists i) (i : Fin 257) (other : Nat) :
    other ∈ lists' i ↔ ∃ port', (table.rekey sock port).Bound other port' ∧ bucket port' = i := by
  rw [hlists i other, h.bound i other]
  simp only [rekey_bound_iff hsock]
  constructor
  · rintro (⟨rfl, rfl⟩ | ⟨hne, port', hbound, hbucket⟩)
    · exact ⟨port, Or.inl ⟨rfl, rfl⟩, rfl⟩
    · exact ⟨port', Or.inr ⟨hne, hbound⟩, hbucket⟩
  · rintro ⟨port', ⟨rfl, rfl⟩ | ⟨hne, hbound⟩, hbucket⟩
    · exact Or.inl ⟨rfl, hbucket.symm⟩
    · exact Or.inr ⟨hne, port', hbound, hbucket⟩

/-- A socket that is not bound yet is bound to a free port. -/
theorem Sound.bind_unbound (hsock : sock ∈ table.allocated)
    (hfree : ∀ other, ¬ table.Bound other port) (hunbound : table.port sock = none) :
    ∃ lists', Sound layout { table.rekey sock port with
      memory := hashMapInsert layout.code (table.rekey sock port).memory (layout.layer + 8) sock }
      lists' := by
  obtain ⟨hstatic, hheads, hrings⟩ := h.rekey hsock hfree
  have hclear := (h.clear sock hsock).1
  have hnodes : ∀ i, ∀ other ∈ lists i, other ∈ table.allocated :=
    fun i other hin => (h.allocated_of_mem hin).1
  have hpushed := hrings.push_back (bucket port) sock (show sock < 2 ^ 64 by omega)
    (show sock ≠ 0 by omega) fun i other hin => by
      have hne : sock ≠ other := by
        rintro rfl
        exact h.not_mem_of_unbound hunbound i hin
      have := h.apart sock hsock other (hnodes i other hin) hne
      exact (show sock + 16 ≤ other ∨ other + 16 ≤ sock by omega)
  rw [intrusive_list_push_back_snd, ← hheads] at hpushed
  have hmem : ∀ i, ∀ other ∈ update lists (bucket port) (sock :: lists (bucket port)) i,
      other ∈ table.allocated := fun i other hin =>
    (mem_pushed_iff.mp hin).elim (fun hself => hself.1 ▸ hsock) (hnodes i other)
  obtain ⟨_, hstatic', hrings'⟩ := hstatic.relink (fun a ha => intrusive_list_push_back_unseen
    (fun memory : Mem => memory.byte a) (hheads ▸ hrings.queue (bucket port))
    (fun other hin => unseen_byte (by have := ha other (hnodes _ other hin); omega))
    (unseen_byte (by have := ha sock hsock; omega))) hpushed hmem
  rw [h.insert_eq hsock hfree, ← hheads]
  refine ⟨_, hstatic', hrings', h.rekey_bound hsock fun i other => ?_⟩
  rw [mem_pushed_iff]
  refine or_congr_right ⟨fun hin => ⟨?_, hin⟩, And.right⟩
  rintro rfl
  exact h.not_mem_of_unbound hunbound i hin

/-- A socket that is alone in its bucket is bound to a free port of the same bucket. -/
theorem Sound.bind_alone (hsock : sock ∈ table.allocated)
    (hfree : ∀ other, ¬ table.Bound other port) {old : UInt16} (hold : table.port sock = some old)
    (halone : table.StaysAlone sock port) :
    Sound layout { table.rekey sock port with
      memory := hashMapInsert layout.code (table.rekey sock port).memory (layout.layer + 8) sock }
      lists := by
  obtain ⟨hstatic, hheads, hrings⟩ := h.rekey hsock hfree
  obtain ⟨hself, hsame⟩ := halone
  have hbucket : bucket old = bucket port := hsame old hold
  have hmem : sock ∈ lists (bucket port) := hbucket ▸ h.mem_bucket ⟨hsock, hold⟩
  have hqueue := hrings.queue (bucket port)
  have hnull := hqueue.ring.nonnull sock hmem
  have hnext : next (table.rekey sock port).memory sock = sock :=
    (Mem.load_congr fun a _ _ => rekey_byte (by omega)).trans hself
  have hprev : prev (table.rekey sock port).memory sock = sock := by
    have hback := (hqueue.ring.prev_next hmem).2
    rwa [hnext] at hback
  have hhead : heads layout table.memory (bucket port) = sock :=
    hqueue.ring.eq_of_next_self hmem hnext (hqueue.head_mem (hqueue.head_ne_null hmem))
  -- all five writes store what is there already
  have hinsert : hashMapInsert layout.code (table.rekey sock port).memory (layout.layer + 8) sock =
      (table.rekey sock port).memory := by
    rw [h.insert_eq hsock hfree, hhead, push_back_alone hnull hnext hprev, setHead,
      hstatic.listen.table]
    exact Mem.store_of_load ((congrFun hheads _).trans hhead)
  rw [hinsert]
  refine ⟨hstatic, hheads ▸ hrings, h.rekey_bound hsock fun i other => ?_⟩
  by_cases heq : other = sock
  · subst heq
    have hplace : other ∈ lists i ↔ i = bucket port := by
      rw [h.bound i other]
      constructor
      · rintro ⟨port', hbound, rfl⟩
        rw [← hbucket, Option.some.inj (hbound.2.symm.trans hold)]
      · rintro rfl
        exact ⟨old, ⟨hsock, hold⟩, hbucket⟩
    simp [hplace]
  · simp [heq]

end

/-! ## Destructors -/

/-- The table when a socket has lost its port. -/
def unbound (table : PortTable) (sock : Nat) : PortTable :=
  { table with port := Function.update table.port sock none }

/-- The memory and the head of the bucket when the node of a socket was deleted from it. -/
def deleted (layout : TcpLayout) (memory : Mem) (sock : Nat) (port : UInt16) : Mem × Nat :=
  intrusiveListDelete memory (heads layout memory (bucket port)) sock

/-- The links of a socket that do no harm are followed without a change of the bytes that count. -/
theorem Harmless.unlink (h : table.Harmless layout sock) (hnull : sock ≠ 0) {a : Nat}
    (ha : Within sock 16 a ∨ table.Relied layout a) :
    (intrusiveListUnlinkNode table.memory sock).byte a = table.memory.byte a := by
  generalize hn : next table.memory sock = n
  generalize hp : prev table.memory sock = p
  have hfirst : ∀ a, Within sock 16 a ∨ table.Relied layout a →
      (setNext table.memory p n).byte a = table.memory.byte a := by
    intro a ha
    by_cases hin : Within p 8 a
    · obtain ⟨i, rfl⟩ := Nat.exists_eq_add_of_le hin.1
      have hi : i < 8 := by omega
      subst hn hp
      exact (Mem.store_load_byte _ _ _ sock hi).trans ((h i hi).1 ha).symm
    · exact Mem.store_byte_outside (by omega)
  have hnext : next (setNext table.memory p n) sock = n :=
    (Mem.load_congr fun a _ _ => hfirst a (Or.inl (by omega))).trans hn
  have hprev : prev (setNext table.memory p n) sock = p :=
    (Mem.load_congr fun a _ _ => hfirst a (Or.inl (by omega))).trans hp
  have hunlink : intrusiveListUnlinkNode table.memory sock =
      (setNext table.memory p n).store (n + 8) p 8 := by
    unfold intrusiveListUnlinkNode
    rw [if_neg (show sock ≠ null Mem from hnull), hn, hp]
    simp only [hnext, hprev]
    rfl
  rw [hunlink]
  by_cases hin : Within (n + 8) 8 a
  · obtain ⟨i, rfl⟩ := Nat.exists_eq_add_of_le hin.1
    have hi : i < 8 := by omega
    subst hn hp
    exact (Mem.store_load_byte _ _ _ (sock + 8) hi).trans ((h i hi).2 ha).symm
  · exact (Mem.store_byte_outside (by omega)).trans (hfirst a ha)

/-- A removal from a map where the socket is not the head of its bucket. -/
theorem Harmless.remove_eq (h : table.Harmless layout sock) (hnull : sock ≠ 0)
    {map hash buckets : Nat} (hmap : MapAt table.memory map hash buckets)
    (hrelied : ∀ a, Within map 32 a ∨ Within buckets 2056 a → table.Relied layout a)
    (hheads : ∀ i : Fin 257, sock ≠ table.memory.load (buckets + 8 * i) 8) :
    hashMapRemove layout.code table.memory map sock =
      intrusiveListUnlinkNode table.memory sock := by
  have hload : ∀ address, (∀ a, Within address 8 a → Within map 32 a ∨ Within buckets 2056 a) →
      (intrusiveListUnlinkNode table.memory sock).load address 8 = table.memory.load address 8 :=
    fun address hin => Mem.load_congr fun a hlow hhigh =>
      h.unlink hnull (Or.inr (hrelied a (hin a ⟨hlow, hhigh⟩)))
  have hlt : layout.code hash (loadSocketId table.memory (sock + 16)) % 257 < 257 :=
    Nat.mod_lt _ (by decide)
  simp only [hashMapRemove, hmap.load_eq, HashMap.index, loadNodes, tcpTableSize,
    intrusive_list_delete_of_ne _ (hheads ⟨_, hlt⟩), setHead]
  rw [hload (map + 24) fun a ha => by omega, hmap.table]
  exact Mem.store_of_load (hload _ fun a ha => by omega)

section

variable (h : table.Sound layout lists)
include h

/-- The links of a socket that is not bound are followed. -/
theorem Sound.unlink (hsock : sock ∈ table.allocated) (hharmless : table.Harmless layout sock) :
    Sound layout { table with memory := intrusiveListUnlinkNode table.memory sock } lists ∧
      Harmless layout { table with memory := intrusiveListUnlinkNode table.memory sock } sock := by
  have hnull : sock ≠ 0 := by
    have := (h.clear sock hsock).1
    omega
  have hsame : ∀ a, Within sock 16 a ∨ table.Relied layout a →
      (intrusiveListUnlinkNode table.memory sock).byte a = table.memory.byte a :=
    fun a ha => hharmless.unlink hnull ha
  have hown : ∀ address, address = sock ∨ address = sock + 8 →
      (intrusiveListUnlinkNode table.memory sock).load address 8 = table.memory.load address 8 :=
    fun address haddress => Mem.load_congr fun a _ _ => hsame a (Or.inl (by omega))
  refine ⟨h.congr fun a ha => hsame a (Or.inr ha), fun i hi => ⟨?_, ?_⟩⟩
  · intro a ha
    have haddress : a = table.memory.load (sock + 8) 8 + i := congrArg (· + i) (hown _ (Or.inr rfl))
    show (intrusiveListUnlinkNode table.memory sock).byte a = _
    rw [hsame a ha, hsame (sock + i) (Or.inl (by omega)), haddress]
    exact (hharmless i hi).1 (haddress ▸ ha)
  · intro a ha
    have haddress : a = table.memory.load sock 8 + 8 + i :=
      congrArg (· + 8 + i) (hown _ (Or.inl rfl))
    show (intrusiveListUnlinkNode table.memory sock).byte a = _
    rw [hsame a ha, hsame (sock + 8 + i) (Or.inl (by omega)), haddress]
    exact (hharmless i hi).2 (haddress ▸ ha)

/-- The removal from the table of connections, and the release of a socket that is not bound. -/
theorem Sound.release (hsock : sock ∈ table.allocated) (hunbound : table.port sock = none)
    (hharmless : table.Harmless layout sock) :
    Sound layout
      { memory := removeConnectedSocket layout table.memory (table.memory.load (sock + 32) 8) sock
        allocated := table.allocated.filter (· ≠ sock)
        port := table.port } lists := by
  have hclear := (h.clear sock hsock).1
  have hremove : removeConnectedSocket layout table.memory (table.memory.load (sock + 32) 8) sock =
      intrusiveListUnlinkNode table.memory sock := by
    rw [removeConnectedSocket, h.layers sock hsock]
    refine hharmless.remove_eq (by omega) h.connect ?_ fun i => ?_
    · rintro a (ha | ha)
      · exact Or.inl (by omega)
      · exact Or.inr (Or.inr (Or.inl ha))
    · rw [h.connected i]
      omega
  have hunlinked := (h.unlink hsock hharmless).1
  have hkept : ∀ other ∈ table.allocated.filter (· ≠ sock), other ∈ table.allocated :=
    fun other hin => (List.mem_filter.mp hin).1
  rw [hremove]
  refine hunlinked.of_bound_iff rfl (fun other hin => h.clear other (hkept other hin))
    (fun first hfirst second hsecond => h.apart first (hkept first hfirst) second
      (hkept second hsecond)) (fun other hin => hunlinked.layers other (hkept other hin))
    fun other port => and_congr_left fun hport => ?_
  rw [List.mem_filter, and_iff_left_of_imp]
  rintro hin
  refine decide_eq_true ?_
  rintro rfl
  rw [hunbound] at hport
  cases hport

/-- A socket that is not bound is destroyed, and its links do no harm. -/
theorem Sound.destroy_harmless (hsock : sock ∈ table.allocated)
    (hunbound : table.port sock = none) (hharmless : table.Harmless layout sock) :
    (table.destroy layout sock).Sound layout lists := by
  have hclear := (h.clear sock hsock).1
  have hremove : unbindSocket layout table.memory (table.memory.load (sock + 32) 8) sock =
      intrusiveListUnlinkNode table.memory sock := by
    rw [unbindSocket, h.layers sock hsock]
    refine hharmless.remove_eq (by omega) h.listen ?_ fun i heq => ?_
    · rintro a (ha | ha)
      · exact Or.inl (by omega)
      · exact Or.inr (Or.inl ha)
    · refine h.not_mem_of_unbound hunbound i ?_
      have hqueue := h.rings.queue i
      rw [heads, ← heq] at hqueue
      exact hqueue.head_mem (show sock ≠ 0 by omega)
  obtain ⟨hsound, hharmless'⟩ := h.unlink hsock hharmless
  have hreleased := hsound.release hsock hunbound hharmless'
  rw [PortTable.destroy, hremove, update_eq_self_iff.mpr hunbound.symm]
  exact hreleased

end

/-- The sockets that are bound once a socket has lost its port. -/
theorem unbound_iff (other : Nat) (port' : UInt16) :
    (table.unbound sock).Bound other port' ↔ other ≠ sock ∧ table.Bound other port' := by
  show other ∈ table.allocated ∧ update table.port sock none other = some port' ↔ _
  by_cases heq : other = sock
  · simp [heq]
  · rw [update_of_ne heq]
    simp [heq, Bound]

section

variable (h : table.Sound layout lists) (hbound : table.Bound sock port)
include h hbound

theorem Sound.mem_unbound (i : Fin 257) (other : Nat) :
    other ∈ update lists (bucket port) ((lists (bucket port)).erase sock) i ↔
      ∃ port', (table.unbound sock).Bound other port' ∧ bucket port' = i := by
  have hlists : (∃ port', (table.unbound sock).Bound other port' ∧ bucket port' = i) ↔
      other ≠ sock ∧ other ∈ lists i := by
    rw [h.bound i other, ← exists_and_left]
    simp only [unbound_iff, and_assoc]
  rw [hlists]
  by_cases hplace : i = bucket port
  · rw [hplace, update_self, (h.rings.queue _).ring.nodup.mem_erase_iff]
  · -- the socket is in the bucket of its port only
    rw [update_of_ne hplace]
    refine (and_iff_right_of_imp ?_).symm
    rintro hin rfl
    obtain ⟨port', hbound', rfl⟩ := (h.bound i other).mp hin
    rw [Option.some.inj (hbound'.2.symm.trans hbound.2)] at hplace
    exact hplace rfl

/-- `unbind_socket` of a bound socket deletes its node from the bucket of its port. -/
theorem Sound.unbind_eq :
    unbindSocket layout table.memory (table.memory.load (sock + 32) 8) sock =
      setHead (deleted layout table.memory sock port).1 (layout.layer + 8) (bucket port)
        (deleted layout table.memory sock port).2 := by
  have hindex : layout.code layout.listenHash (portId port) % tcpTableSize = (bucket port : Nat) := by
    rw [layout.hash_eq]
    rfl
  simp only [unbindSocket, h.layers sock hbound.1, hashMapRemove, h.listen.load_eq, HashMap.index,
    loadNodes, h.keys sock port hbound, hindex]
  rfl

/-- `unbind_socket` of a bound socket. The links of its node lead to its neighbours, which are linked
to each other, so that the second removal has nothing to write. -/
theorem Sound.unbind :
    let memory := unbindSocket layout table.memory (table.memory.load (sock + 32) 8) sock
    Sound layout { table.unbound sock with memory := memory }
        (update lists (bucket port) ((lists (bucket port)).erase sock)) ∧
      Harmless layout { table.unbound sock with memory := memory } sock := by
  have hmem := h.mem_bucket hbound
  have hqueue := h.rings.queue (bucket port)
  have hnodes : ∀ i, ∀ other ∈ lists i, other ∈ table.allocated :=
    fun i other hin => (h.allocated_of_mem hin).1
  have hstatic : (table.unbound sock).Static layout :=
    ⟨h.clear, h.apart, h.listen, h.connect, h.connected, h.layers,
      fun other port' hother => h.keys other port' ((unbound_iff other port').mp hother).2,
      fun first second port' hfirst hsecond => h.unique first second port'
        ((unbound_iff first port').mp hfirst).2 ((unbound_iff second port').mp hsecond).2⟩
  have hframe : ∀ a, (∀ other ∈ (table.unbound sock).allocated, ¬ Within other 16 a) →
      (deleted layout table.memory sock port).1.byte a = table.memory.byte a := fun a ha =>
    intrusive_list_delete_unseen (fun memory : Mem => memory.byte a) hqueue hmem fun other hin =>
      unseen_byte (by have := ha other (hnodes _ other hin); omega)
  obtain ⟨hset, hstatic', hrings'⟩ := hstatic.relink hframe (h.rings.delete hmem) fun i other hin =>
    ((h.mem_unbound hbound i other).mp hin).elim fun _ hother => hother.1.1
  rw [h.unbind_eq hbound]
  refine ⟨⟨hstatic', hrings', h.mem_unbound hbound⟩, ?_⟩
  -- the head of the bucket is not part of a node
  have hlinks : ∀ other ∈ lists (bucket port),
      next (setHead (deleted layout table.memory sock port).1 (layout.layer + 8) (bucket port)
          (deleted layout table.memory sock port).2) other =
        next (deleted layout table.memory sock port).1 other ∧
      prev (setHead (deleted layout table.memory sock port).1 (layout.layer + 8) (bucket port)
          (deleted layout table.memory sock port).2) other =
        prev (deleted layout table.memory sock port).1 other := by
    intro other hin
    have := (h.clear other (hnodes _ other hin)).2.2.1
    rw [show setHead (deleted layout table.memory sock port).1 _ _
      (deleted layout table.memory sock port).2 = _ from hset]
    exact ⟨Mem.load_store_other (by omega), Mem.load_store_other (by omega)⟩
  obtain ⟨⟨hnext, hprev⟩, hnext', hprev'⟩ :=
    intrusive_list_delete_links hqueue.ring hmem (heads layout table.memory (bucket port))
  obtain ⟨hfirst, hsecond⟩ := hlinks sock hmem
  rw [deleted, hnext] at hfirst
  rw [deleted, hprev] at hsecond
  refine fun i hi => ⟨fun _ => Mem.byte_eq_of_load_eq ?_ hi, fun _ => Mem.byte_eq_of_load_eq ?_ hi⟩
  · exact (congrArg _ hsecond).trans (((hlinks _ (hqueue.ring.next_prev hmem).1).1.trans
      hnext').trans hfirst.symm)
  · exact (congrArg _ hfirst).trans (((hlinks _ (hqueue.ring.prev_next hmem).1).2.trans
      hprev').trans hsecond.symm)

/-- A bound socket is destroyed. -/
theorem Sound.destroy_bound : ∃ lists', (table.destroy layout sock).Sound layout lists' := by
  obtain ⟨hsound, hharmless⟩ := h.unbind hbound
  exact ⟨_, hsound.release hbound.1 (update_self ..) hharmless⟩

end

/-! ## Whole runs -/

/-- The layer as its constructor leaves it in memory. -/
structure Constructed (layout : TcpLayout) (memory : Mem) : Prop where
  listen : MapAt memory (layout.layer + 8) layout.listenHash layout.listenTable
  connect : MapAt memory (layout.layer + 40) layout.connectedHash layout.connectedTable
  empty : ∀ i : Fin 257, memory.load (layout.listenTable + 8 * i) 8 = 0 ∧
    memory.load (layout.connectedTable + 8 * i) 8 = 0

/-- No socket exists yet. -/
def initial (memory : Mem) : PortTable :=
  ⟨memory, [], fun _ => none⟩

theorem sound_initial (h : Constructed layout memory) :
    (initial memory).Sound layout fun _ => [] := by
  have hnone : ∀ sock, ∀ port, ¬ (initial memory).Bound sock port := by
    rintro sock port ⟨hin, _⟩
    cases hin
  refine ⟨⟨fun sock hin => ?_, fun first hin => ?_, h.listen, h.connect, fun i => (h.empty i).2,
    fun sock hin => ?_, fun sock port hbound => absurd hbound (hnone sock port),
    fun first _ port hfirst => absurd hfirst (hnone first port)⟩,
    ⟨fun i => ⟨Ring.nil, (h.empty i).1⟩, fun _ _ _ x hx => ?_⟩,
    fun i sock => iff_of_false List.not_mem_nil fun ⟨port, hbound, _⟩ => hnone sock port hbound⟩
  · cases hin
  · cases hin
  · cases hin
  · cases hx

/-- A careful event has a next state, and keeps the invariant. -/
theorem Sound.step (h : table.Sound layout lists) {event : PortEvent}
    (hallowed : table.Allowed layout event) (hcareful : table.Careful layout event) :
    ∃ after, table.step layout event = some after ∧ ∃ lists', after.Sound layout lists' := by
  cases event with
  | create address next prev key => exact ⟨_, rfl, lists, h.create hallowed⟩
  | bind sock port =>
    rcases h.bind_cases hallowed port with ⟨_, hbind⟩ | ⟨hfree, hbind⟩
    · exact ⟨table, hbind, lists, h⟩
    · refine ⟨_, hbind, ?_⟩
      rcases hcareful with hunbound | ⟨other, hother, hport⟩ | halone
      · exact h.bind_unbound hallowed hfree hunbound
      · exact absurd ⟨hother, hport⟩ (hfree other)
      · cases hport : table.port sock with
        | none => exact h.bind_unbound hallowed hfree hport
        | some old => exact ⟨lists, h.bind_alone hallowed hfree hport halone⟩
  | destroy sock =>
    refine ⟨_, rfl, ?_⟩
    cases hport : table.port sock with
    | none => exact ⟨lists, h.destroy_harmless hallowed hport (hcareful.resolve_left (· hport))⟩
    | some port => exact h.destroy_bound ⟨hallowed, hport⟩

end PortTable

/-- A layer at 4096, with its tables at 8192 and 16384. -/
def sampleLayout : TcpLayout where
  layer := 4096
  listenTable := 8192
  connectedTable := 16384
  listenHash := 1
  connectedHash := 2
  code address id := if address = 1 then id.hostPort.toNat else id.remotePort.toNat
  hash_eq _ := rfl
  layer_listen := by decide
  layer_connected := by decide
  listen_connected := by decide
  low := by decide
  high := by decide

/-- The memory that the constructor of this layer leaves, where it was zero before. -/
def sampleMemory : Mem :=
  (⟨fun _ => 0⟩ : Mem).storeFields 4096
    [(8, 0), (8, 0), (8, 257), (8, 1), (8, 8192), (8, 0), (8, 257), (8, 2), (8, 16384)]

theorem sample_constructed : PortTable.Constructed sampleLayout sampleMemory := by
  have hzero : ∀ a, 4168 ≤ a → sampleMemory.byte a = 0 :=
    fun a ha => Mem.storeFields_byte_outside _ (Or.inr ha)
  refine ⟨⟨by decide +kernel, by decide +kernel, by decide +kernel⟩,
    ⟨by decide +kernel, by decide +kernel, by decide +kernel⟩, fun i => ⟨?_, ?_⟩⟩
  · exact Mem.load_eq_zero fun a ha _ => hzero a (Nat.le_trans (by decide) (Nat.le_of_add_right_le ha))
  · exact Mem.load_eq_zero fun a ha _ => hzero a (Nat.le_trans (by decide) (Nat.le_of_add_right_le ha))

/-- The loop of `find` does not leave a node that is linked to itself and is not the first one. -/
theorem find_scan_stuck {nodes : HashMapNodes SocketId} {first node : Nat} {id : SocketId}
    (hself : next nodes.links node = node) (hfirst : node ≠ first) (hkey : nodes.key node ≠ id)
    (fuel : Nat) : HashMap.findScan nodes first id fuel node = none := by
  induction fuel with
  | zero => rfl
  | succ fuel ih => rw [HashMap.findScan, if_neg hkey, hself, if_neg hfirst, ih]

end Otrix.Net
