import Otrix.Net.TcpReader

/-!
# Data before a FIN

The readers of a connection call `recv` one after the other, under `recv_mutex_`. A segment with a
FIN moves the connection to `CLOSE_WAIT`, where `recv` refuses every new call before it looks at the
receive list. What is unread then can only be read by a call that is running when the FIN arrives. The
buffer of the FIN becomes the head of the list, and the call returns when it has read that buffer. So
the call never comes to the data that was in the list before. A call that has found the list empty and
does not wait yet sleeps through the FIN, and what it has copied is never returned.

Bytes are lost before the FIN as well. A segment that arrives while the first buffer is partly read
becomes the first one, and the offset of the old one is applied to it.

The proof counts the bytes that will never be returned once `recv` refuses. No step changes their
number, and the running call comes to an end with exactly these bytes outstanding.
-/

namespace Otrix.Net

open Linked Machine

/-- A connection as its readers see it: one call at a time, under `recv_mutex_`, and `shut` when a
call was refused, which leaves the mutex locked. -/
structure Receiving where
  stream : Stream
  shut : Bool

namespace Receiving

/-- The socket. -/
def socket (receiving : Receiving) : TcpSocket :=
  receiving.stream.socket

/-- One event. A refused call returns 0. -/
def step (receiving : Receiving) : ConnectionEvent → Option Receiving
  | .packet copy data => do
    let stream ← receiving.stream.serve (.packet copy data)
    some { receiving with stream := stream }
  | .recv dataSize =>
    if receiving.socket.reader = .idle ∧ receiving.shut = false ∧ dataSize < 2 ^ 64 then
      if receiving.socket.state.Receives then
        some { receiving with stream.socket.reader := .loop dataSize [] }
      else
        some { stream.socket := receiving.socket
               stream.delivered := receiving.stream.delivered
               stream.returned := receiving.stream.returned ++ [[]]
               shut := true }
    else none
  | .advance => do
    let stream ← receiving.stream.advance
    some { receiving with stream := stream }

/-- A connection that no one reads yet. -/
def initial (socket : TcpSocket) : Receiving :=
  ⟨Stream.initial socket, false⟩

end Receiving

/-- The bytes in the receive list that were not read. The offset belongs to the first buffer. -/
def TcpSocket.leftOver (socket : TcpSocket) : List Nat → List UInt8
  | [] => []
  | node :: rest => (socket.buffers node).bytes.drop socket.recvSkbPayloadOffset ++
      (rest.map fun other => (socket.buffers other).bytes).flatten

/-- The bytes that the running call still wants. -/
def Reader.room : Reader → Nat
  | .idle => 0
  | .loop dataSize received => dataSize - received.length
  | .sawEmpty dataSize received => dataSize - received.length
  | .waiting dataSize received => dataSize - received.length
  | .ready dataSize received => dataSize - received.length

/-- The running call has found the list empty and is not in `recv_waitq_` yet. -/
def Reader.Missed (reader : Reader) : Prop :=
  ∃ dataSize received, reader = .sawEmpty dataSize received

/-- No packet adds to the receive list. -/
def NothingQueued (receiving : Receiving) : ConnectionEvent → Prop
  | .packet _ data => ¬ (receiving.socket.Handles data ∧ receiving.socket.Queues data)
  | _ => True

instance (receiving : Receiving) : (event : ConnectionEvent) →
    Decidable (NothingQueued receiving event)
  | .packet _ data =>
    inferInstanceAs (Decidable (¬ (receiving.socket.Handles data ∧ receiving.socket.Queues data)))
  | .recv _ => instDecidableTrue
  | .advance => instDecidableTrue

namespace Receiving

/-- A packet that adds to the receive list finds no buffer that is partly read. -/
def Whole (receiving : Receiving) : ConnectionEvent → Prop
  | .packet _ data => receiving.socket.Handles data → receiving.socket.Queues data →
      receiving.socket.recvSkbPayloadOffset = 0
  | _ => True

instance (receiving : Receiving) : (event : ConnectionEvent) → Decidable (receiving.Whole event)
  | .packet _ data => inferInstanceAs (Decidable (receiving.socket.Handles data →
      receiving.socket.Queues data → receiving.socket.recvSkbPayloadOffset = 0))
  | .recv _ => instDecidableTrue
  | .advance => instDecidableTrue

/-- The calls of `recv` have returned every byte that was accepted. -/
def AllReturned (receiving : Receiving) : Prop :=
  receiving.stream.returned.flatten.Perm receiving.stream.delivered

instance (receiving : Receiving) : Decidable receiving.AllReturned :=
  inferInstanceAs (Decidable (List.Perm _ _))

/-- Whatever calls are made from now on, when one of them returns 0 every accepted byte was returned,
and the running call can always go on until this is so. -/
def ReturnsAll (receiving : Receiving) : Prop :=
  ∀ more mid, Meets Receiving.step NothingQueued receiving more →
    run Receiving.step receiving more = some mid →
    ([] ∈ mid.stream.returned.drop receiving.stream.returned.length → mid.AllReturned) ∧
    ∃ steps last, run Receiving.step mid (List.replicate steps .advance) = some last ∧
      last.AllReturned

end Receiving

/-! ## The receive list -/

theorem bytes_length (data : Segment) : data.bytes.length = data.payloadSize := by
  simp [Segment.bytes]

/-- What holds in every state, for a receive list with these nodes. As long as calls are admitted, no
FIN has arrived, so that every buffer has a payload. -/
structure TcpSocket.Lists (socket : TcpSocket) (nodes : List Nat) : Prop where
  queue : Queue socket.links socket.recvSkb nodes
  used : socket.recvWindowUsed < 2 ^ 64
  within : ∀ node ∈ nodes.head?, socket.recvSkbPayloadOffset ≤ (socket.buffers node).payloadSize
  sizes : ∀ node ∈ nodes, (socket.buffers node).payloadSize < 2 ^ 64
  known : ∀ node ∈ nodes, node ∈ socket.allocated
  bounded : socket.reader.Bounded
  ready : ∀ dataSize received, socket.reader = .ready dataSize received → nodes ≠ []
  full : socket.state.Receives → ∀ node ∈ nodes, 0 < (socket.buffers node).payloadSize

section Sockets

variable {socket after : TcpSocket} {nodes nodes' : List Nat} {copy : Nat} {data : Segment}
  {dataSize : Nat} {received copied : List UInt8} {push : Bool}

theorem left_over_congr (hbuffers : after.buffers = socket.buffers)
    (hoffset : after.recvSkbPayloadOffset = socket.recvSkbPayloadOffset) (nodes : List Nat) :
    after.leftOver nodes = socket.leftOver nodes := by
  cases nodes with
  | nil => rfl
  | cons node rest => simp only [TcpSocket.leftOver, hbuffers, hoffset]

theorem left_over_start (hoffset : socket.recvSkbPayloadOffset = 0) (nodes : List Nat) :
    socket.leftOver nodes = (nodes.map fun node => (socket.buffers node).bytes).flatten := by
  cases nodes with
  | nil => rfl
  | cons node rest => simp [TcpSocket.leftOver, hoffset]

theorem notified_received (reader : Reader) : reader.notified.received = reader.received := by
  cases reader <;> rfl

theorem process_packet_receives (h : (socket.processPacket copy data).state.Receives) :
    socket.state.Receives := by
  unfold TcpSocket.processPacket at h
  cases hstate : socket.state with
  | established => exact Or.inl rfl
  | closeWait =>
    simp only [hstate, TcpSocket.handleCloseWaitState] at h
    split at h
    · simp [TcpState.Receives] at h
    · rw [TcpSocket.handle_segment_eq] at h
      obtain ⟨_, _, _, _, _, htake⟩ := socket.take_segment_frame copy data
      rw [TcpSocket.answer_segment_eq, htake] at h
      split at h
      · simp [TcpState.Receives, TcpSocket.sendPacket, hstate] at h
      · simp [TcpState.Receives, TcpSocket.acceptSegment, hstate] at h
  | _ => simpa only [hstate] using h

namespace TcpSocket.Lists

/-- Only the receiving side matters, and that no call is admitted again. -/
theorem of_untouched (h : socket.Lists nodes) (hsame : Untouched socket after)
    (hreceives : after.state.Receives → socket.state.Receives) : after.Lists nodes := by
  refine ⟨?_, hsame.used ▸ h.used, ?_, hsame.buffers ▸ h.sizes, hsame.allocated ▸ h.known,
    hsame.reader ▸ h.bounded, hsame.reader ▸ h.ready, fun hstate => ?_⟩
  · rw [hsame.links, hsame.head]
    exact h.queue
  · rw [hsame.offset, hsame.buffers]
    exact h.within
  · rw [hsame.buffers]
    exact h.full (hreceives hstate)

/-- The running call has come to another point. -/
theorem moved (h : socket.Lists nodes) {reader : Reader} (hbounded : reader.Bounded)
    (hready : ∀ dataSize received, reader = .ready dataSize received → nodes ≠ []) :
    TcpSocket.Lists { socket with reader := reader } nodes :=
  ⟨h.queue, h.used, h.within, h.sizes, h.known, hbounded, hready, h.full⟩

/-- A segment that is queued comes before what is in the list, if nothing of that is read. -/
theorem queued (h : socket.Lists nodes) (hcopy : copy ≠ 0) (hnew : copy ∉ socket.allocated)
    (hqueues : socket.Queues data) (hoffset : socket.recvSkbPayloadOffset = 0) :
    (socket.handleSegment copy data).Lists (copy :: nodes) ∧
      (socket.handleSegment copy data).leftOver (copy :: nodes) =
        data.bytes ++ socket.leftOver nodes ∧
      (socket.handleSegment copy data).buffers copy = data ∧
      (socket.handleSegment copy data).recvSkbPayloadOffset = 0 := by
  have hless : data.payloadSize < 2 ^ 64 := Nat.lt_of_le_of_lt hqueues.2.1 (sub64_lt ..)
  have hnot : copy ∉ nodes := fun hin => hnew (h.known copy hin)
  obtain ⟨reader, sent, hhandle, hbounded⟩ := handle_segment_of_queues copy hqueues
  have hcopied : (socket.handleSegment copy data).buffers copy = data := by
    rw [hhandle]
    exact Function.update_self ..
  have hothers : ∀ node ∈ nodes, (socket.handleSegment copy data).buffers node =
      socket.buffers node := by
    intro node hin
    rw [hhandle]
    exact Function.update_of_ne (fun heq : node = copy => hnot (heq ▸ hin)) ..
  have hstart : (socket.handleSegment copy data).recvSkbPayloadOffset = 0 := by
    rw [hhandle]
    exact hoffset
  refine ⟨⟨?_, ?_, fun _ _ => ?_, List.forall_mem_cons.mpr ⟨?_, fun node hin => ?_⟩, ?_, ?_,
    fun _ _ _ => List.cons_ne_nil _ _, fun hstate => ?_⟩, ?_, hcopied, hstart⟩
  · have hpushed := intrusive_list_init_push_back_queue h.queue
      (show Storable Links copy from trivial) hcopy fun other hother heq => hnot (heq ▸ hother)
    rw [intrusive_list_push_back_snd] at hpushed
    rw [hhandle]
    exact hpushed
  · rw [hhandle]
    exact u64_lt _
  · rw [hstart]
    exact Nat.zero_le _
  · rw [hcopied]
    exact hless
  · rw [hothers node hin]
    exact h.sizes node hin
  · rw [hhandle]
    exact List.forall_mem_cons.mpr ⟨List.mem_cons_self, fun node hin =>
      List.mem_cons_of_mem _ (h.known node hin)⟩
  · rw [hhandle]
    exact hbounded h.bounded
  · -- a FIN would have closed the connection
    have hopen : ¬ TcpSocket.isFin data ∧ socket.state.Receives := by
      rw [hhandle] at hstate
      by_cases hfin : TcpSocket.isFin data
      · simp [TcpSocket.acceptSegment, if_pos hfin, TcpState.Receives] at hstate
      · simp only [TcpSocket.acceptSegment, if_neg hfin] at hstate
        exact ⟨hfin, hstate⟩
    refine List.forall_mem_cons.mpr ⟨?_, fun node hin => ?_⟩
    · rw [hcopied]
      exact hqueues.2.2.resolve_right hopen.1
    · rw [hothers node hin]
      exact h.full hopen.2 node hin
  · rw [left_over_start hstart, left_over_start hoffset, List.map_cons, List.flatten_cons, hcopied,
      List.map_congr_left fun node hin => congrArg Segment.bytes (hothers node hin)]

end TcpSocket.Lists

/-- What the protected region does: it moves what the call wants of the first buffer, and drops the
buffer when it is used up. -/
structure Moves (socket after : TcpSocket) (dataSize : Nat) (received copied : List UInt8)
    (push : Bool) (nodes nodes' : List Nat) : Prop where
  lists : ∀ reader : Reader, reader.Bounded → (∀ dataSize received, reader ≠ .ready dataSize received) →
    TcpSocket.Lists { after with reader := reader } nodes'
  buffers : after.buffers = socket.buffers
  state : after.state = socket.state
  bytes : copied ++ after.leftOver nodes' = received ++ socket.leftOver nodes
  count : copied.length = received.length +
    min (dataSize - received.length) (socket.leftOver (nodes.take 1)).length
  ends : nodes' = nodes ∧ push = false ∧ copied.length = dataSize ∨
    ∀ node ∈ nodes.head?, (socket.buffers node).flags &&& (tcpFlagPsh ||| tcpFlagFin) ≠ 0 →
      push = true

/-- A reader that found a buffer gets through the protected region. -/
theorem TcpSocket.Lists.region (h : socket.Lists nodes)
    (hreader : socket.reader = .ready dataSize received) :
    ∃ after copied push nodes', socket.recvRegion dataSize received = some (after, copied, push) ∧
      Moves socket after dataSize received copied push nodes nodes' := by
  have hnull : socket.recvSkb ≠ 0 := fun hnull =>
    h.ready dataSize received hreader (h.queue.head_eq_null_iff.mp hnull)
  obtain ⟨rest, rfl⟩ := h.queue.exists_cons hnull
  obtain ⟨hle, hdata⟩ : received.length ≤ dataSize ∧ dataSize < 2 ^ 64 := by
    have hbounded := h.bounded
    rwa [hreader] at hbounded
  have hwithin := h.within _ rfl
  have hsize := h.sizes _ List.mem_cons_self
  obtain ⟨after, hregion, hcases⟩ := recv_region_cases hnull hle hdata hwithin hsize rfl
  have hfirst : (socket.leftOver [socket.recvSkb]).length =
      (socket.buffers socket.recvSkb).payloadSize - socket.recvSkbPayloadOffset := by
    simp [TcpSocket.leftOver, bytes_length]
  generalize hcount : min (dataSize - received.length)
    ((socket.buffers socket.recvSkb).payloadSize - socket.recvSkbPayloadOffset) = count
    at hregion hcases
  have hcopy := copied_append_rest (socket.buffers socket.recvSkb) socket.recvSkbPayloadOffset count
    (by omega)
  have hlength : (received ++ (List.range count).map fun i => (socket.buffers socket.recvSkb).payload
      (socket.recvSkbPayloadOffset + i)).length = received.length + count := by simp
  rcases hcases with ⟨husedUp, sent, rfl⟩ | ⟨hleft, sent, rfl⟩
  · have hrest : Queue socket.links socket.recvSkb ([] ++ socket.recvSkb :: rest) := h.queue
    refine ⟨_, _, _, rest, hregion, fun reader hreader hnot => ⟨intrusive_list_delete_queue hrest,
      sub64_lt .., fun _ _ => Nat.zero_le _, fun node hin => h.sizes node (List.mem_cons_of_mem _ hin),
      fun node hin => ?_, hreader, fun _ _ hready => absurd hready (hnot _ _),
      fun hstate node hin => h.full hstate node (List.mem_cons_of_mem _ hin)⟩, rfl, rfl, ?_, ?_,
      Or.inr fun node hnode hflags => ?_⟩
    · have hne : node ≠ socket.recvSkb := fun heq =>
        (List.nodup_cons.mp h.queue.ring.nodup).1 (heq ▸ hin)
      exact (List.mem_erase_of_ne hne).mpr (h.known node (List.mem_cons_of_mem _ hin))
    · have hnone : (socket.buffers socket.recvSkb).bytes.drop
          (socket.buffers socket.recvSkb).payloadSize = [] := by
        simp [Segment.bytes]
      rw [left_over_start rfl, TcpSocket.leftOver, ← hcopy, husedUp, hnone, List.append_nil,
        List.append_assoc]
    · rw [hlength, ← hcount]
      exact congrArg (fun left => _ + min _ left) hfirst.symm
    · obtain rfl := Option.some.inj hnode
      exact decide_eq_true ⟨husedUp, hflags⟩
  · refine ⟨_, _, _, _, hregion, fun reader hreader hnot => ⟨h.queue, sub64_lt .., fun node hnode => ?_,
      h.sizes, h.known, hreader, fun _ _ hready => absurd hready (hnot _ _), h.full⟩, rfl, rfl, ?_, ?_,
      Or.inl ⟨rfl, decide_eq_false fun hboth => Nat.ne_of_lt hleft hboth.1, ?_⟩⟩
    · obtain rfl := Option.some.inj hnode
      exact Nat.le_of_lt hleft
    · simp only [TcpSocket.leftOver]
      rw [← hcopy, List.append_assoc, List.append_assoc]
    · rw [hlength, ← hcount]
      exact congrArg (fun left => _ + min _ left) hfirst.symm
    · rw [hlength]
      omega

end Sockets

/-! ## Where the accepted bytes are -/

namespace Receiving

variable {receiving after : Receiving} {copy : Nat} {data : Segment} {nodes : List Nat}

theorem packet_eq (hstep : receiving.step (.packet copy data) = some after) :
    copy ≠ 0 ∧ copy ∉ receiving.socket.allocated ∧
      after.socket = receiving.socket.processPacket copy data ∧
      after.stream.returned = receiving.stream.returned ∧
      after.stream.delivered = receiving.stream.delivered ++ receiving.socket.bytesTaken data := by
  obtain ⟨stream, hserve, hafter⟩ := Option.bind_eq_some_iff.mp hstep
  obtain rfl := Option.some.inj hafter
  obtain ⟨⟨hcopy, hnew, _⟩, hstream⟩ := Option.ite_none_right_eq_some.mp hserve
  obtain rfl := Option.some.inj hstream
  exact ⟨hcopy, hnew, rfl, rfl, rfl⟩

/-- Every accepted byte was returned, or the running call has copied it, or it is in the list. -/
structure Accounted (receiving : Receiving) (nodes : List Nat) : Prop where
  lists : receiving.socket.Lists nodes
  bytes : (receiving.stream.returned.flatten ++ (receiving.socket.reader.received ++
    receiving.socket.leftOver nodes)).Perm receiving.stream.delivered

namespace Accounted

/-- All bytes were returned exactly when the running call and the list have none. -/
theorem all_returned_iff (h : Accounted receiving nodes) : receiving.AllReturned ↔
    (receiving.socket.reader.received ++ receiving.socket.leftOver nodes).length = 0 := by
  constructor
  · intro hall
    have hlength := h.bytes.length_eq
    rw [List.length_append, hall.length_eq] at hlength
    omega
  · intro hnone
    have hbytes := h.bytes
    rw [List.length_eq_zero_iff.mp hnone, List.append_nil] at hbytes
    exact hbytes

theorem initial {socket : TcpSocket} (hfresh : socket.Fresh)
    (hused : socket.recvWindowUsed < 2 ^ 64) : Accounted (Receiving.initial socket) [] := by
  have hidle : (Receiving.initial socket).socket.reader = .idle := hfresh.idle
  have hempty : (Receiving.initial socket).socket.recvSkb = 0 := hfresh.empty
  refine ⟨⟨hempty ▸ Queue.nil, hused, by simp, by simp, by simp, hidle ▸ trivial, ?_, by simp⟩, ?_⟩
  · rw [hidle]
    exact nofun
  · rw [hidle]
    exact List.Perm.refl _

/-- A packet that adds to the list, which has no buffer that is partly read. -/
theorem queue (h : Accounted receiving nodes) (hhandles : receiving.socket.Handles data)
    (hqueues : receiving.socket.Queues data) (hwhole : receiving.Whole (.packet copy data))
    (hstep : receiving.step (.packet copy data) = some after) : Accounted after (copy :: nodes) := by
  obtain ⟨hcopy, hnew, hsocket, hreturned, hdelivered⟩ := packet_eq hstep
  rw [process_packet_of_handles copy hhandles] at hsocket
  obtain ⟨hlists, hleft, _⟩ := h.lists.queued hcopy hnew hqueues (hwhole hhandles hqueues)
  refine ⟨hsocket ▸ hlists, List.perm_iff_count.mpr fun byte => ?_⟩
  have hcount := List.perm_iff_count.mp h.bytes byte
  have hreader := handle_segment_reader copy hqueues
  rw [hreturned, hdelivered, TcpSocket.bytesTaken, if_pos ⟨hhandles, hqueues⟩, hsocket, hleft, hreader,
    notified_received]
  simp only [List.count_append] at hcount ⊢
  omega

/-- A packet that adds nothing. -/
theorem kept (h : Accounted receiving nodes) (hquiet : NothingQueued receiving (.packet copy data))
    (hstep : receiving.step (.packet copy data) = some after) :
    Accounted after nodes ∧ Untouched receiving.socket after.socket ∧
      after.stream.returned = receiving.stream.returned ∧
      (after.socket.state.Receives → receiving.socket.state.Receives) := by
  obtain ⟨_, _, hsocket, hreturned, hdelivered⟩ := packet_eq hstep
  have hsame : Untouched receiving.socket after.socket := by
    rw [hsocket]
    by_cases hhandles : receiving.socket.Handles data
    · rw [process_packet_of_handles copy hhandles]
      exact handle_segment_of_not_queues copy h.lists.used fun hqueues => hquiet ⟨hhandles, hqueues⟩
    · exact process_packet_of_not_handles copy hhandles
  have hreceives : after.socket.state.Receives → receiving.socket.state.Receives := by
    rw [hsocket]
    exact process_packet_receives
  refine ⟨⟨h.lists.of_untouched hsame hreceives, ?_⟩, hsame, hreturned, hreceives⟩
  rw [hreturned, hdelivered, TcpSocket.bytesTaken, if_neg hquiet, List.append_nil, hsame.reader,
    left_over_congr hsame.buffers hsame.offset]
  exact h.bytes

/-- A call starts, or it is refused and returns 0. -/
theorem recv {dataSize : Nat} (h : Accounted receiving nodes)
    (hstep : receiving.step (.recv dataSize) = some after) :
    Accounted after nodes ∧ (receiving.socket.state.Receives ∨
      after.socket = receiving.socket ∧ receiving.socket.reader = .idle) := by
  have hbytes := h.bytes
  simp only [Receiving.step, Option.ite_none_right_eq_some] at hstep
  obtain ⟨⟨hidle, _, hdata⟩, hstep⟩ := hstep
  split at hstep
  next hreceives =>
    obtain rfl := Option.some.inj hstep
    rw [hidle] at hbytes
    exact ⟨⟨h.lists.moved ⟨Nat.zero_le _, hdata⟩ nofun, hbytes⟩, Or.inl hreceives⟩
  next =>
    obtain rfl := Option.some.inj hstep
    refine ⟨⟨h.lists, ?_⟩, Or.inr ⟨rfl, hidle⟩⟩
    show ((receiving.stream.returned ++ [[]]).flatten ++ (receiving.socket.reader.received ++
      receiving.socket.leftOver nodes)).Perm receiving.stream.delivered
    rw [List.flatten_append, List.flatten_singleton, List.append_nil]
    exact hbytes

end Accounted

/-! ## The running call -/

end Receiving

/-- How many steps the running call takes before it returns, if the first buffer ends it. A call that
waits, or is about to, does not return. -/
def Reader.stepsLeft : Reader → Nat
  | .loop dataSize received => if received.length = dataSize then 1 else 3
  | .ready _ _ => 2
  | _ => 0

/-- How many of the bytes that are left, or that the call has copied, are never returned once `recv`
refuses. The running call returns with what it wants of the first buffer, unless it waits or is about
to. -/
def Reader.loses (reader : Reader) (first left : Nat) : Nat :=
  match reader with
  | .loop dataSize received => left - min (dataSize - received.length) first
  | .ready dataSize received => left - min (dataSize - received.length) first
  | reader => reader.received.length + left

theorem Reader.loses_le (reader : Reader) (first left : Nat) :
    reader.loses first left ≤ reader.received.length + left := by
  cases reader <;> simp only [Reader.loses] <;> omega

theorem Reader.loses_of_stopped {reader : Reader} (h : reader.stepsLeft = 0) (first left : Nat) :
    reader.loses first left = reader.received.length + left := by
  cases reader with
  | loop dataSize received =>
    by_cases hfull : received.length = dataSize <;> simp [Reader.stepsLeft, hfull] at h
  | ready => cases h
  | _ => rfl

/-- How many bytes of this receive list and of the running call are never returned. -/
def TcpSocket.lost (socket : TcpSocket) (nodes : List Nat) : Nat :=
  socket.reader.loses (socket.leftOver (nodes.take 1)).length (socket.leftOver nodes).length

namespace Receiving

variable {receiving after : Receiving} {copy : Nat} {data : Segment} {nodes nodes' : List Nat}

/-- If a call looks at the list, the first buffer is this one. The buffer ends the call. -/
def Ends (socket : TcpSocket) (copy : Nat) (nodes : List Nat) : Prop :=
  (socket.buffers copy).flags &&& (tcpFlagPsh ||| tcpFlagFin) ≠ 0 ∧
    (socket.reader.stepsLeft ≠ 0 → nodes.head? = some copy)

/-- A step of the running call. -/
structure Advanced (receiving after : Receiving) (nodes nodes' : List Nat) : Prop where
  accounted : Accounted after nodes'
  state : after.socket.state = receiving.socket.state
  returned : after.socket.reader = .idle ∨ after.stream.returned = receiving.stream.returned
  lost : ∀ copy, Ends receiving.socket copy nodes → Ends after.socket copy nodes' ∧
    after.socket.lost nodes' = receiving.socket.lost nodes ∧
    (receiving.socket.reader.stepsLeft ≠ 0 →
      after.socket.reader.stepsLeft < receiving.socket.reader.stepsLeft)

namespace Accounted

/-- The call that returns hands its bytes over to the results. -/
theorem returned_flatten (results : List (List UInt8)) (received left : List UInt8) :
    (results ++ [received]).flatten ++ ([] ++ left) = results.flatten ++ (received ++ left) := by
  simp

/-- A step of the running call moves bytes, and loses none. -/
theorem advance (h : Accounted receiving nodes) (hstep : receiving.step .advance = some after) :
    ∃ nodes', Advanced receiving after nodes nodes' := by
  obtain ⟨stream, hadvance, hafter⟩ := Option.bind_eq_some_iff.mp hstep
  obtain rfl := Option.some.inj hafter
  have hbytes := h.bytes
  have hbounded := h.lists.bounded
  have hlost : receiving.socket.lost nodes = receiving.socket.reader.loses _ _ := rfl
  have hsame : receiving.socket.reader = receiving.stream.socket.reader := rfl
  rw [hsame] at hbytes hbounded hlost
  cases Stream.advances hadvance with
  | @finish dataSize received hreader hfull =>
    rw [hreader] at hbytes hlost
    refine ⟨nodes, ⟨h.lists.moved trivial nofun, ?_⟩, rfl, Or.inl rfl, fun copy hends =>
      ⟨⟨hends.1, fun hleft => absurd rfl hleft⟩, ?_, Nat.pos_of_ne_zero⟩⟩
    · show ((receiving.stream.returned ++ [received]).flatten ++ ([] ++
        receiving.socket.leftOver nodes)).Perm _
      rw [returned_flatten]
      exact hbytes
    · rw [hlost]
      show 0 + (receiving.socket.leftOver nodes).length = _ - min (dataSize - received.length) _
      omega
  | @sawEmpty dataSize received hreader hempty =>
    rw [hreader] at hbytes hbounded
    obtain rfl := h.lists.queue.head_eq_null_iff.mp hempty
    refine ⟨[], ⟨h.lists.moved hbounded nofun, hbytes⟩, rfl, Or.inr rfl, fun copy hends => ?_⟩
    have hfirst : ([] : List Nat).head? = some copy := hends.2 (by
      rw [hsame, hreader, Reader.stepsLeft]
      split <;> decide)
    cases hfirst
  | @sawBuffer dataSize received hreader hhead hmore =>
    have hleft : receiving.socket.reader.stepsLeft = 3 := by
      rw [hsame, hreader, Reader.stepsLeft, if_neg hmore]
    rw [hreader] at hbytes hbounded hlost
    refine ⟨nodes, ⟨h.lists.moved hbounded fun _ _ _ hnil =>
      hhead (h.lists.queue.head_eq_null_iff.mpr hnil), hbytes⟩, rfl, Or.inr rfl, fun copy hends =>
      ⟨⟨hends.1, fun _ => hends.2 (by omega)⟩, hlost.symm, fun _ => ?_⟩⟩
    rw [hleft]
    exact (by decide : 2 < 3)
  | @waits dataSize received hreader =>
    rw [hreader] at hbytes hbounded hlost
    refine ⟨nodes, ⟨h.lists.moved hbounded nofun, hbytes⟩, rfl, Or.inr rfl, fun copy hends =>
      ⟨⟨hends.1, fun hleft => absurd rfl hleft⟩, hlost.symm, fun hleft => ?_⟩⟩
    rw [hsame, hreader] at hleft
    exact absurd rfl hleft
  | @pushed dataSize received copied moved hreader hregion =>
    obtain ⟨_, _, _, nodes', heq, hmoves⟩ := h.lists.region hreader
    cases heq.symm.trans hregion
    have hlength := congrArg List.length hmoves.bytes
    have hcount := hmoves.count
    rw [List.length_append, List.length_append] at hlength
    rw [hreader] at hbytes hlost
    refine ⟨nodes', ⟨hmoves.lists .idle trivial nofun, ?_⟩, hmoves.state, Or.inl rfl, fun copy hends =>
      ⟨⟨?_, fun hleft => absurd rfl hleft⟩, ?_, Nat.pos_of_ne_zero⟩⟩
    · show ((receiving.stream.returned ++ [copied]).flatten ++ ([] ++ moved.leftOver nodes')).Perm _
      rw [returned_flatten, hmoves.bytes]
      exact hbytes
    · show (moved.buffers copy).flags &&& _ ≠ 0
      rw [hmoves.buffers]
      exact hends.1
    · rw [hlost]
      show 0 + (moved.leftOver nodes').length = _ - min (dataSize - received.length) _
      omega
  | @copied dataSize received copied moved hreader hregion =>
    obtain ⟨_, _, _, nodes', heq, hmoves⟩ := h.lists.region hreader
    cases heq.symm.trans hregion
    have hlength := congrArg List.length hmoves.bytes
    have hcount := hmoves.count
    rw [List.length_append, List.length_append] at hlength
    rw [hreader] at hbytes hbounded hlost
    have hle : received.length ≤ dataSize := hbounded.1
    refine ⟨nodes', ⟨hmoves.lists (.loop dataSize copied) ⟨by omega, hbounded.2⟩ nofun, ?_⟩,
      hmoves.state, Or.inr rfl, fun copy hends => ?_⟩
    · show (receiving.stream.returned.flatten ++ (copied ++ moved.leftOver nodes')).Perm _
      rw [hmoves.bytes]
      exact hbytes
    · have hfirst := hends.2 (by rw [hsame, hreader]; exact Nat.succ_ne_zero 1)
      rcases hmoves.ends with ⟨rfl, _, hfull⟩ | hpush
      · refine ⟨⟨?_, fun _ => hfirst⟩, ?_, fun _ => ?_⟩
        · show (moved.buffers copy).flags &&& _ ≠ 0
          rw [hmoves.buffers]
          exact hends.1
        · rw [hlost]
          show (moved.leftOver nodes').length - min (dataSize - copied.length) _ =
            _ - min (dataSize - received.length) _
          omega
        · rw [hsame, hreader]
          show (if copied.length = dataSize then 1 else 3) < 2
          rw [if_pos hfull]
          decide
      · cases hpush copy hfirst hends.1

theorem can_advance (h : Accounted receiving nodes) (hleft : receiving.socket.reader.stepsLeft ≠ 0) :
    ∃ next, receiving.step .advance = some next := by
  cases hreader : receiving.socket.reader with
  | loop dataSize received =>
    have hreader' : receiving.stream.socket.reader = .loop dataSize received := hreader
    simp only [Receiving.step, Stream.advance, hreader']
    split
    · exact ⟨_, rfl⟩
    · split <;> exact ⟨_, rfl⟩
  | ready dataSize received =>
    have hreader' : receiving.stream.socket.reader = .ready dataSize received := hreader
    obtain ⟨moved, copied, push, _, hregion, _⟩ := h.lists.region hreader
    have hregion' : receiving.stream.socket.recvRegion dataSize received = _ := hregion
    simp only [Receiving.step, Stream.advance, hreader', hregion']
    cases push <;> exact ⟨_, rfl⟩
  | _ =>
    rw [hreader] at hleft
    exact absurd rfl hleft

theorem step {event : ConnectionEvent} (h : Accounted receiving nodes)
    (hwhole : receiving.Whole event) (hstep : receiving.step event = some after) :
    ∃ nodes', Accounted after nodes' := by
  cases event with
  | packet copy data =>
    by_cases hqueues : receiving.socket.Handles data ∧ receiving.socket.Queues data
    · exact ⟨_, h.queue hqueues.1 hqueues.2 hwhole hstep⟩
    · exact ⟨nodes, (h.kept hqueues hstep).1⟩
  | recv dataSize => exact ⟨nodes, (h.recv hstep).1⟩
  | advance =>
    obtain ⟨nodes', hadvanced⟩ := h.advance hstep
    exact ⟨nodes', hadvanced.accounted⟩

end Accounted

/-! ## After the FIN -/

/-- A connection after the FIN, with the results that were there when it arrived, and the number of
bytes that are lost. -/
structure Closing (receiving : Receiving) (copy : Nat) (results : List (List UInt8)) (total : Nat)
    (nodes : List Nat) : Prop where
  accounted : Accounted receiving nodes
  closed : ¬ receiving.socket.state.Receives
  ends : Ends receiving.socket copy nodes
  since : receiving.socket.reader = .idle ∨ receiving.stream.returned = results
  lost : receiving.socket.lost nodes = total

namespace Closing

variable {results : List (List UInt8)} {total : Nat}

theorem advance (h : Closing receiving copy results total nodes)
    (hstep : receiving.step .advance = some after) :
    ∃ nodes', Closing after copy results total nodes' ∧ (receiving.socket.reader.stepsLeft ≠ 0 →
      after.socket.reader.stepsLeft < receiving.socket.reader.stepsLeft) := by
  obtain ⟨nodes', hadvanced⟩ := h.accounted.advance hstep
  obtain ⟨hends, hlost, hless⟩ := hadvanced.lost copy h.ends
  refine ⟨nodes', ⟨hadvanced.accounted, hadvanced.state ▸ h.closed, hends, ?_, hlost.trans h.lost⟩,
    hless⟩
  refine hadvanced.returned.imp_right fun hreturned => hreturned.trans (h.since.resolve_left ?_)
  -- an idle reader takes no step
  intro hidle
  have hidle' : receiving.stream.socket.reader = .idle := hidle
  simp [Receiving.step, Stream.advance, hidle'] at hstep

theorem step {event : ConnectionEvent} (h : Closing receiving copy results total nodes)
    (hquiet : NothingQueued receiving event) (hstep : receiving.step event = some after) :
    ∃ nodes', Closing after copy results total nodes' := by
  cases event with
  | packet other segment =>
    obtain ⟨haccounted, hsame, hreturned, hreceives⟩ := h.accounted.kept hquiet hstep
    refine ⟨nodes, haccounted, fun hopen => h.closed (hreceives hopen), ?_, ?_, ?_⟩
    · unfold Ends
      rw [hsame.buffers, hsame.reader]
      exact h.ends
    · rw [hsame.reader, hreturned]
      exact h.since
    · rw [← h.lost, TcpSocket.lost, hsame.reader, left_over_congr hsame.buffers hsame.offset,
        left_over_congr hsame.buffers hsame.offset]
      rfl
  | recv dataSize =>
    obtain ⟨haccounted, hreceives | ⟨hsocket, hidle⟩⟩ := h.accounted.recv hstep
    · exact absurd hreceives h.closed
    · exact ⟨nodes, haccounted, hsocket ▸ h.closed, hsocket ▸ h.ends, Or.inl (hsocket ▸ hidle),
        hsocket ▸ h.lost⟩
  | advance =>
    obtain ⟨nodes', hafter, _⟩ := h.advance hstep
    exact ⟨nodes', hafter⟩

/-- However far the running call goes on. -/
theorem advances (h : Closing receiving copy results total nodes) {steps : Nat}
    (hrun : run Receiving.step receiving (List.replicate steps .advance) = some after) :
    ∃ nodes', Closing after copy results total nodes' := by
  induction steps generalizing receiving nodes with
  | zero =>
    obtain rfl := Option.some.inj hrun
    exact ⟨nodes, h⟩
  | succ steps ih =>
    obtain ⟨next, hnext, hrest⟩ := run_cons_eq_some.mp hrun
    obtain ⟨nodes', hafter, _⟩ := h.advance hnext
    exact ih hafter hrest

/-- The running call returns, or it waits for good. -/
theorem ends_stopped (h : Closing receiving copy results total nodes) :
    ∃ steps last nodes', run Receiving.step receiving (List.replicate steps .advance) =
      some last ∧ Closing last copy results total nodes' ∧ last.socket.reader.stepsLeft = 0 := by
  induction hleft : receiving.socket.reader.stepsLeft using Nat.strong_induction_on
    generalizing receiving nodes with
  | _ left ih =>
    by_cases hzero : left = 0
    · exact ⟨0, receiving, nodes, rfl, h, hleft.trans hzero⟩
    · rw [← hleft] at hzero
      obtain ⟨next, hnext⟩ := h.accounted.can_advance hzero
      obtain ⟨nodes', hafter, hless⟩ := h.advance hnext
      obtain ⟨steps, last, nodes'', hrun, hlast⟩ := ih _ (hleft ▸ hless hzero) hafter rfl
      exact ⟨steps + 1, last, nodes'', run_cons_eq_some.mpr ⟨next, hnext, hrun⟩, hlast⟩

/-- Once no call looks at the list any more, exactly the lost bytes are outstanding. -/
theorem all_returned_iff (h : Closing receiving copy results total nodes)
    (hstopped : receiving.socket.reader.stepsLeft = 0) : receiving.AllReturned ↔ total = 0 := by
  rw [h.accounted.all_returned_iff, ← h.lost, TcpSocket.lost, Reader.loses_of_stopped hstopped,
    List.length_append]

theorem total_eq_zero (h : Closing receiving copy results total nodes)
    (hall : receiving.AllReturned) : total = 0 := by
  have hnone := h.accounted.all_returned_iff.mp hall
  have hle := receiving.socket.reader.loses_le (receiving.socket.leftOver (nodes.take 1)).length
    (receiving.socket.leftOver nodes).length
  rw [List.length_append] at hnone
  have hlost : receiving.socket.reader.loses _ _ = total := h.lost
  omega

end Closing

/-! ## The FIN -/

/-- What a FIN finds when no byte is lost: an empty list, and a running call that has room for the
payload of the FIN. If the call has just found the list empty and does not wait yet, it has copied
nothing, and the FIN has no payload. -/
def FinReadable (receiving : Receiving) (data : Segment) : Prop :=
  receiving.socket.recvSkb = 0 ∧ data.payloadSize ≤ receiving.socket.reader.room ∧
    (receiving.socket.reader.Missed →
      data.payloadSize = 0 ∧ receiving.socket.reader.received = [])

theorem fin_flags (hfin : TcpSocket.isFin data) :
    data.flags &&& (tcpFlagPsh ||| tcpFlagFin) ≠ 0 := by
  intro hnone
  refine hfin ?_
  have hboth : data.flags &&& tcpFlagFin = data.flags &&& (tcpFlagPsh ||| tcpFlagFin) &&& tcpFlagFin :=
    (UInt8.and_assoc ..).symm ▸ rfl
  rw [hboth, hnone]
  rfl

/-- Buffers with a payload leave no bytes only if there are none. -/
theorem left_over_eq_nil_iff {socket : TcpSocket} (hoffset : socket.recvSkbPayloadOffset = 0)
    (hfull : ∀ node ∈ nodes, 0 < (socket.buffers node).payloadSize) :
    (socket.leftOver nodes).length = 0 ↔ nodes = [] := by
  refine ⟨fun hnone => ?_, fun hnil => hnil ▸ rfl⟩
  cases nodes with
  | nil => rfl
  | cons node rest =>
    have hpositive := hfull node List.mem_cons_self
    rw [left_over_start hoffset, List.map_cons, List.flatten_cons, List.length_append,
      bytes_length] at hnone
    omega

section Fin

variable (h : Accounted receiving nodes) (hhandles : receiving.socket.Handles data)
  (hqueues : receiving.socket.Queues data) (hwhole : receiving.Whole (.packet copy data))
  (hstep : receiving.step (.packet copy data) = some after)
include h hhandles hqueues hwhole hstep

theorem Accounted.closing (hfin : TcpSocket.isFin data) :
    Closing after copy after.stream.returned (after.socket.lost (copy :: nodes)) (copy :: nodes) := by
  obtain ⟨hcopy, hnew, hsocket, _⟩ := packet_eq hstep
  rw [process_packet_of_handles copy hhandles] at hsocket
  obtain ⟨_, _, hbuffer, _⟩ := h.lists.queued hcopy hnew hqueues (hwhole hhandles hqueues)
  refine ⟨h.queue hhandles hqueues hwhole hstep, ?_, ⟨?_, fun _ => rfl⟩, Or.inr rfl, rfl⟩
  · obtain ⟨_, _, hhandle, _⟩ := handle_segment_of_queues copy hqueues
    rw [hsocket, hhandle]
    show ¬ (if TcpSocket.isFin data then TcpState.closeWait else receiving.socket.state).Receives
    rw [if_pos hfin]
    decide
  · rw [hsocket, hbuffer]
    exact fin_flags hfin

theorem Accounted.fin_lost_iff (hreceives : receiving.socket.state.Receives) :
    after.socket.lost (copy :: nodes) = 0 ↔ receiving.FinReadable data := by
  obtain ⟨hcopy, hnew, hsocket, _⟩ := packet_eq hstep
  rw [process_packet_of_handles copy hhandles] at hsocket
  have hoffset := hwhole hhandles hqueues
  obtain ⟨_, hleft, hbuffer, hstart⟩ := h.lists.queued hcopy hnew hqueues hoffset
  have hfirst : (receiving.socket.handleSegment copy data).leftOver [copy] = data.bytes := by
    rw [left_over_start hstart, List.map_singleton, List.flatten_singleton, hbuffer]
  have hempty : (receiving.socket.leftOver nodes).length = 0 ↔ receiving.socket.recvSkb = 0 :=
    (left_over_eq_nil_iff hoffset (h.lists.full hreceives)).trans h.lists.queue.head_eq_null_iff.symm
  rw [TcpSocket.lost, hsocket, handle_segment_reader copy hqueues, List.take_succ_cons, List.take_zero,
    hfirst, hleft, List.length_append, bytes_length, FinReadable, ← hempty]
  cases hreader : receiving.socket.reader with
  | sawEmpty dataSize received =>
    have hnil : received.length = 0 ↔ received = [] := List.length_eq_zero_iff
    simp only [Reader.notified, Reader.loses, Reader.received, Reader.Missed, Reader.room, ← hnil]
    constructor
    · intro hnone
      exact ⟨by omega, by omega, fun _ => by omega⟩
    · rintro ⟨hnone, _, hmissed⟩
      have := hmissed ⟨dataSize, received, rfl⟩
      omega
  | _ =>
    simp only [Reader.notified, Reader.loses, Reader.received, Reader.Missed, Reader.room,
      reduceCtorEq, exists_false, false_implies, and_true, List.length_nil]
    omega

end Fin

end Receiving

open Receiving in
/-- Whatever a connection has received and whoever has read how much of it when its FIN is accepted, as
long as no packet was added to a list whose first buffer was partly read: later calls of `recv` return
every accepted byte before one of them returns 0 exactly when the FIN finds the list empty, the running
call has room for the payload of the FIN, and the call does not sleep through the FIN with something to
return. -/
theorem data_before_fin_iff {socket : TcpSocket} (hfresh : socket.Fresh)
    (hused : socket.recvWindowUsed < 2 ^ 64) {events : List ConnectionEvent}
    {before after : Receiving} {copy : Nat} {data : Segment}
    (hrun : run Receiving.step (initial socket) events = some before)
    (hwhole : Meets Receiving.step Whole (initial socket) events)
    (hestablished : before.socket.state = .established) (hhandles : before.socket.Handles data)
    (hqueues : before.socket.Queues data) (hfin : TcpSocket.isFin data)
    (hlast : before.Whole (.packet copy data))
    (hpacket : before.step (.packet copy data) = some after) :
    after.ReturnsAll ↔ before.FinReadable data := by
  obtain ⟨nodes, h⟩ := run_invariant_of_meets
    (fun receiving => ∃ nodes, Accounted receiving nodes)
    (fun _ _ _ ⟨_, h⟩ hcondition hstep => h.step hcondition hstep)
    ⟨[], Accounted.initial hfresh hused⟩ hwhole hrun
  have hclosing := h.closing hhandles hqueues hlast hpacket hfin
  rw [← h.fin_lost_iff hhandles hqueues hlast hpacket (Or.inl hestablished)]
  constructor
  · intro hreturns
    obtain ⟨steps, last, hsteps, hall⟩ := (hreturns [] after trivial rfl).2
    obtain ⟨_, hend⟩ := hclosing.advances hsteps
    exact hend.total_eq_zero hall
  · intro hnone more mid hmeets hmore
    obtain ⟨nodes', hmid⟩ := run_invariant_of_meets
      (fun receiving => ∃ nodes, Closing receiving copy after.stream.returned _ nodes)
      (fun _ _ _ ⟨_, h⟩ hquiet hstep => h.step hquiet hstep) ⟨_, hclosing⟩ hmeets hmore
    constructor
    · intro hzero
      refine (hmid.all_returned_iff ?_).mpr hnone
      rcases hmid.since with hidle | hsince
      · rw [hidle]
        rfl
      · simp [hsince] at hzero
    · obtain ⟨steps, last, _, hsteps, hend, hstopped⟩ := hmid.ends_stopped
      exact ⟨steps, last, hsteps, (hend.all_returned_iff hstopped).mpr hnone⟩

/-- A call for five bytes waits when a FIN with two bytes arrives. It returns them, and the next call
returns 0. -/
theorem data_before_fin_waiting_call : ∃ before after final,
    run Receiving.step (Receiving.initial freshSocket) [.recv 5, .advance, .advance] =
      some before ∧
    before.step (.packet 16 (finSegment 0 [97, 98])) = some after ∧
    run Receiving.step after [.advance, .recv 1] = some final ∧
    final.stream.returned = [[97, 98], []] ∧ final.AllReturned := by
  have hbefore : (run Receiving.step (Receiving.initial freshSocket)
      [.recv 5, .advance, .advance]).any (fun before =>
        before.socket.state = .established ∧ before.socket.Handles (finSegment 0 [97, 98]) ∧
        before.socket.Queues (finSegment 0 [97, 98]) ∧ before.socket.recvSkb = 0 ∧
        before.socket.reader = .waiting 5 [] ∧ before.Whole (.packet 16 (finSegment 0 [97, 98])) ∧
        (before.step (.packet 16 (finSegment 0 [97, 98]))).any (fun after =>
          after.stream.returned = [] ∧
          (run Receiving.step after [.advance, .recv 1]).any (fun final =>
            final.stream.returned = [[97, 98], []]))) = true := by
    decide +kernel
  obtain ⟨before, hrun, h⟩ := (Option.any_eq_true _ _).mp hbefore
  obtain ⟨hestablished, hhandles, hqueues, hempty, hreader, hwhole, hnext⟩ := of_decide_eq_true h
  obtain ⟨after, hpacket, hlast⟩ := (Option.any_eq_true _ _).mp hnext
  obtain ⟨hnone, hlast⟩ := of_decide_eq_true hlast
  obtain ⟨final, hmore, hresult⟩ := (Option.any_eq_true _ _).mp hlast
  have hreturned := of_decide_eq_true hresult
  have hreadable : before.FinReadable (finSegment 0 [97, 98]) := by
    refine ⟨hempty, ?_, ?_⟩
    · rw [hreader]
      decide
    · rintro ⟨dataSize, received, hmissed⟩
      cases hreader.symm.trans hmissed
  have hread := (data_before_fin_iff fresh_socket (by decide) hrun (by decide +kernel) hestablished
    hhandles hqueues (by decide) hwhole hpacket).mpr hreadable
  refine ⟨before, after, final, hrun, hpacket, hmore, hreturned, (hread _ final ?_ hmore).1 ?_⟩
  · exact ⟨trivial, fun _ _ => ⟨trivial, fun _ _ => trivial⟩⟩
  · rw [hreturned, hnone]
    decide

/-- Three ways to lose bytes. Two bytes and a FIN arrive before the first call, which gets 0. Three
more bytes arrive when two of three were read: the first two of them are skipped, and the two that were
read come again. A call has copied two bytes and found the list empty when the FIN arrives: it sleeps,
and no other call is let in. -/
theorem data_before_fin_is_lost :
    (∃ final, run Receiving.step (Receiving.initial freshSocket)
        [.packet 16 (dataSegment 0 [97, 98]), .packet 32 (finSegment 2 []), .recv 9] = some final ∧
      final.stream.returned = [[]] ∧ ¬ final.AllReturned) ∧
    (∃ final, run Receiving.step (Receiving.initial freshSocket)
        ([.packet 16 (dataSegment 0 [97, 98, 99]), .recv 2, .advance, .advance, .advance,
          .packet 32 (dataSegment 3 [100, 101, 102]), .recv 4] ++ List.replicate 5 .advance ++
          [.packet 48 (finSegment 6 []), .recv 1]) = some final ∧
      final.stream.returned = [[97, 98], [102, 97, 98, 99], []] ∧ ¬ final.AllReturned) ∧
    ∃ final, run Receiving.step (Receiving.initial freshSocket)
        [.packet 16 (dataSegment 0 [97, 98]), .recv 5, .advance, .advance, .advance,
          .packet 32 (finSegment 2 []), .advance] = some final ∧
      final.socket.reader = .waiting 5 [97, 98] ∧ final.step .advance = none ∧
      (∀ dataSize, final.step (.recv dataSize) = none) ∧ ¬ final.AllReturned := by
  refine ⟨?_, ?_, ?_⟩
  · exact exists_of_any (fun final => final.stream.returned = [[]] ∧ ¬ final.AllReturned)
      (by decide +kernel) fun _ _ h => h
  · exact exists_of_any (fun final =>
      final.stream.returned = [[97, 98], [102, 97, 98, 99], []] ∧ ¬ final.AllReturned)
      (by decide +kernel) fun _ _ h => h
  · refine exists_of_any (fun final =>
      final.socket.reader = .waiting 5 [97, 98] ∧ ¬ final.AllReturned) (by decide +kernel) ?_
    rintro final _ ⟨hreader, hlost⟩
    have hreader' : final.stream.socket.reader = .waiting 5 [97, 98] := hreader
    refine ⟨hreader, ?_, fun dataSize => ?_, hlost⟩
    · simp [Receiving.step, Stream.advance, hreader']
    · simp [Receiving.step, hreader]

end Otrix.Net
