import Otrix.Net.TcpWindow

/-!
# What `ack_` counts

A FIN takes a sequence number of its own. `handle_segment` advances `ack_` by the payload of an
accepted segment, with or without a FIN, so that the next segment it expects has the number of the
FIN itself. A FIN without payload that is sent again is therefore not an old segment, and it is
queued again.

`AckLedger` records what was appended to the receive list. A packet was appended if its new
`sockbuf` has become the head of the list.
-/

namespace Otrix.Net

open Linked Machine

/-- A connection with the bytes that were appended to its receive list and the FINs among the
segments. -/
structure AckLedger where
  stream : Stream
  remoteIsn : UInt32
  appended : Nat
  fins : List Segment

namespace AckLedger

/-- A segment was given to `handle_segment`, with `copy` as its new `sockbuf`. -/
def record (ledger : AckLedger) (copy : Nat) (data : Segment) : AckLedger :=
  if ledger.stream.socket.recvSkb = copy then
    { ledger with
      appended := ledger.appended + data.payloadSize
      fins := if TcpSocket.isFin data then data :: ledger.fins else ledger.fins }
  else ledger

/-- One event. -/
def step (ledger : AckLedger) (event : ConnectionEvent) : Option AckLedger := do
  let stream ← ledger.stream.serve event
  match event with
  | .packet copy data => some ({ ledger with stream := stream }.record copy data)
  | _ => some { ledger with stream := stream }

/-- The connection that `accept_connection` makes of the segment that completes the handshake. -/
def initial (links : Links) (buffers : Nat → Segment) (remoteWindowSize : Nat) (seq remoteIsn : UInt32)
    (copy : Nat) (data : Segment) : AckLedger :=
  AckLedger.record ⟨Stream.initial
    (TcpSocket.accepted links buffers remoteWindowSize seq copy data), remoteIsn, 0, []⟩ copy data

/-- `ack_` counts the SYN, the appended bytes and the FIN. -/
def Accounted (ledger : AckLedger) : Prop :=
  ledger.stream.socket.ack =
    ledger.remoteIsn + 1 + UInt32.ofNat ledger.appended + if ledger.fins = [] then 0 else 1

/-- A FIN that was accepted before changes neither what was received nor the state. -/
def RepeatedFinIgnored (ledger : AckLedger) : ConnectionEvent → Prop
  | .packet copy data => data ∈ ledger.fins →
      SameReceive ledger.stream.socket (ledger.stream.socket.processPacket copy data) ∧
        (ledger.stream.socket.processPacket copy data).state = ledger.stream.socket.state
  | _ => True

/-- The packet is not one that is accepted with a FIN. -/
def NoFin (ledger : AckLedger) : ConnectionEvent → Prop
  | .packet _ data => ledger.stream.socket.Handles data → ledger.stream.socket.Queues data →
      ¬ TcpSocket.isFin data
  | _ => True

instance (ledger : AckLedger) : ∀ event, Decidable (ledger.NoFin event)
  | .packet _ data => inferInstanceAs (Decidable (ledger.stream.socket.Handles data →
      ledger.stream.socket.Queues data → ¬ TcpSocket.isFin data))
  | .recv _ => isTrue trivial
  | .advance => isTrue trivial

/-- The invariant while no FIN was accepted. -/
structure Counted (ledger : AckLedger) : Prop where
  fins : ledger.fins = []
  ack : ledger.stream.socket.ack = ledger.remoteIsn + 1 + UInt32.ofNat ledger.appended
  used : ledger.stream.socket.recvWindowUsed < 2 ^ 64

theorem accounted_iff_of_no_fins {ledger : AckLedger} (h : ledger.fins = []) :
    ledger.Accounted ↔
      ledger.stream.socket.ack = ledger.remoteIsn + 1 + UInt32.ofNat ledger.appended := by
  rw [Accounted, if_pos h, UInt32.add_zero]

theorem Counted.accounted {ledger : AckLedger} (h : ledger.Counted) : ledger.Accounted :=
  (accounted_iff_of_no_fins h.fins).mpr h.ack

section

variable {ledger next : AckLedger} {copy : Nat} {data : Segment}

/-- A segment that is appended to a counted connection: `ack_` counts its payload and not its
FIN. -/
theorem Counted.append (h : ledger.Counted) (hqueues : ledger.stream.socket.Queues data)
    (stream : Stream) (hstream : stream.socket = ledger.stream.socket.handleSegment copy data) :
    (¬ TcpSocket.isFin data → ({ ledger with stream := stream }.record copy data).Counted) ∧
      (TcpSocket.isFin data → ¬ ({ ledger with stream := stream }.record copy data).Accounted) := by
  obtain ⟨reader, sent, hhandle, _⟩ := handle_segment_of_queues copy hqueues
  rw [hhandle] at hstream
  have hhead : stream.socket.recvSkb = copy := by rw [hstream]
  have hack : stream.socket.ack = ledger.remoteIsn + 1 +
      UInt32.ofNat (ledger.appended + data.payloadSize) := by
    have hcounted : stream.socket.ack =
        ledger.stream.socket.ack + UInt32.ofNat data.payloadSize := by rw [hstream]; rfl
    rw [hcounted, h.ack, UInt32.ofNat_add, UInt32.add_assoc]
  have hused : stream.socket.recvWindowUsed < 2 ^ 64 := by
    rw [hstream]
    exact u64_lt _
  simp only [record, hhead, if_true]
  refine ⟨fun hfin => ⟨(if_neg hfin).trans h.fins, hack, hused⟩, fun hfin haccounted => ?_⟩
  -- the law wants one more than `handle_segment` has added
  simp only [Accounted, if_pos hfin, reduceCtorEq, if_false, hack] at haccounted
  exact absurd (UInt32.left_eq_add.mp haccounted) (by decide)

theorem Counted.unchanged (h : ledger.Counted) (stream : Stream) (data : Segment)
    (hsame : SameReceive ledger.stream.socket stream.socket)
    (hcopy : copy ≠ ledger.stream.socket.recvSkb) :
    ({ ledger with stream := stream }.record copy data).Counted := by
  have hhead : ¬ stream.socket.recvSkb = copy := fun heq => hcopy (heq.symm.trans hsame.head)
  simp only [record, if_neg hhead]
  exact ⟨h.fins, hsame.ack.trans h.ack, hsame.used ▸ h.used⟩

theorem Counted.read (h : ledger.Counted) {stream : Stream}
    (hack : stream.socket.ack = ledger.stream.socket.ack)
    (hused : stream.socket.recvWindowUsed < 2 ^ 64) :
    AckLedger.Counted { ledger with stream := stream } :=
  ⟨h.fins, hack.trans h.ack, hused⟩

/-- An event keeps the count, unless it is the packet of a FIN. Then the count is wrong at once. -/
theorem Counted.step {event : ConnectionEvent} (h : ledger.Counted)
    (hstep : ledger.step event = some next) :
    (ledger.NoFin event → next.Counted) ∧ (¬ ledger.NoFin event → ¬ next.Accounted) := by
  obtain ⟨stream, hserve, hnext⟩ := Option.bind_eq_some_iff.mp hstep
  cases event with
  | packet copy data =>
    obtain rfl := Option.some.inj hnext
    simp only [Stream.serve, Option.ite_none_right_eq_some, Option.some.injEq] at hserve
    obtain ⟨⟨_, _, hcopy⟩, hstream⟩ := hserve
    have hsocket : stream.socket = ledger.stream.socket.processPacket copy data := hstream ▸ rfl
    by_cases hhandled : ledger.stream.socket.Handles data ∧ ledger.stream.socket.Queues data
    · obtain ⟨hhandles, hqueues⟩ := hhandled
      have happend := h.append hqueues stream
        (hsocket.trans (process_packet_of_handles copy hhandles))
      exact ⟨fun hno => happend.1 (hno hhandles hqueues), fun hfin => happend.2 (by
        by_contra hnot
        exact hfin fun _ _ => hnot)⟩
    · have hnext := h.unchanged stream data
        (hsocket ▸ (process_packet_same_iff h.used hcopy).mpr hhandled) hcopy
      exact ⟨fun _ => hnext, fun hfin => absurd (fun hhandles hqueues =>
        absurd ⟨hhandles, hqueues⟩ hhandled) hfin⟩
  | recv dataSize =>
    obtain rfl := Option.some.inj hnext
    have hused := serve_used_lt h.used hserve
    simp only [Stream.serve, Stream.step, Option.ite_none_right_eq_some, Option.some.injEq]
      at hserve
    obtain ⟨_, rfl⟩ := hserve
    exact ⟨fun _ => h.read rfl hused, fun hfin => absurd trivial hfin⟩
  | advance =>
    obtain rfl := Option.some.inj hnext
    exact ⟨fun _ => h.read (advance_same_control hserve).ack (serve_used_lt h.used hserve),
      fun hfin => absurd trivial hfin⟩

end

section

variable (links : Links) (buffers : Nat → Segment) (remoteWindowSize : Nat) (seq remoteIsn : UInt32)
  {copy : Nat} {data : Segment}

/-- The handshake is completed without a FIN, or its segment is not appended. -/
def FirstNoFin (data : Segment) : Prop :=
  0 < data.payloadSize →
    (TcpSocket.connected links buffers remoteWindowSize seq data).Queues data →
    ¬ TcpSocket.isFin data

/-- Only a FIN in the first segment miscounts. -/
theorem counted_initial (hcopy : copy ≠ 0) (hseq : data.seq = remoteIsn + 1)
    (hsize : data.payloadSize < 2 ^ 64) :
    (FirstNoFin links buffers remoteWindowSize seq data →
      (initial links buffers remoteWindowSize seq remoteIsn copy data).Counted) ∧
    (¬ FirstNoFin links buffers remoteWindowSize seq data →
      ¬ (initial links buffers remoteWindowSize seq remoteIsn copy data).Accounted) := by
  -- the connection before its first segment
  have hconnected : AckLedger.Counted ⟨Stream.initial
      (TcpSocket.connected links buffers remoteWindowSize seq data), remoteIsn, 0, []⟩ :=
    ⟨rfl, hseq.trans (UInt32.add_zero _).symm, hsize⟩
  by_cases hpayload : 0 < data.payloadSize
  · by_cases hqueues : (TcpSocket.connected links buffers remoteWindowSize seq data).Queues data
    · have happend := hconnected.append hqueues
        (Stream.initial (TcpSocket.accepted links buffers remoteWindowSize seq copy data))
        (if_pos hpayload)
      exact ⟨fun hno => happend.1 (hno hpayload hqueues), fun hfin => happend.2 (by
        by_contra hnot
        exact hfin fun _ _ => hnot)⟩
    · have haccepted : (Stream.initial (TcpSocket.accepted links buffers remoteWindowSize seq copy
          data)).socket = _ := if_pos hpayload
      have hinitial := hconnected.unchanged
        (Stream.initial (TcpSocket.accepted links buffers remoteWindowSize seq copy data)) data
        (haccepted ▸ (handle_segment_of_not_queues copy hsize hqueues).toSameReceive) hcopy
      exact ⟨fun _ => hinitial, fun hfin => absurd (fun _ hqueued => absurd hqueued hqueues) hfin⟩
  · have haccepted : (Stream.initial (TcpSocket.accepted links buffers remoteWindowSize seq copy
        data)).socket = _ := if_neg hpayload
    have hinitial := hconnected.unchanged
      (Stream.initial (TcpSocket.accepted links buffers remoteWindowSize seq copy data)) data
      (haccepted ▸ (Untouched.refl _).toSameReceive) hcopy
    exact ⟨fun _ => hinitial, fun hfin => absurd (fun hlarge => absurd hlarge hpayload) hfin⟩

end

/-- `ack_` counts what it should in every state, and no FIN that was accepted has an effect when it
is sent again, exactly when no FIN is accepted. -/
theorem ack_accounted_iff_no_fin (links : Links) (buffers : Nat → Segment) (remoteWindowSize : Nat)
    (seq remoteIsn : UInt32) {copy : Nat} {data : Segment} (hcopy : copy ≠ 0)
    (hseq : data.seq = remoteIsn + 1) (hsize : data.payloadSize < 2 ^ 64)
    {events : List ConnectionEvent} {final : AckLedger}
    (hrun : run step (initial links buffers remoteWindowSize seq remoteIsn copy data) events =
      some final) :
    Always step Accounted
        (initial links buffers remoteWindowSize seq remoteIsn copy data) events ∧
      Meets step RepeatedFinIgnored
        (initial links buffers remoteWindowSize seq remoteIsn copy data) events ↔
    FirstNoFin links buffers remoteWindowSize seq data ∧
      Meets step NoFin
        (initial links buffers remoteWindowSize seq remoteIsn copy data) events := by
  obtain ⟨hcounted, hwrong⟩ := counted_initial links buffers remoteWindowSize seq remoteIsn hcopy
    hseq hsize
  by_cases hfirst : FirstNoFin links buffers remoteWindowSize seq data
  · have hinitial := hcounted hfirst
    rw [and_iff_right hfirst, always_iff_meets Counted (fun _ h => h.accounted)
      (fun _ _ _ h hno hstep => (h.step hstep).1 hno)
      (fun _ _ _ h hfin hstep => (h.step hstep).2 hfin) hinitial hrun]
    refine and_iff_left_of_imp fun hmeets => hmeets.imp Counted ?_
      (fun _ _ _ h hno hstep => (h.step hstep).1 hno) hinitial
    -- there is no FIN to be sent again
    intro ledger event h _
    cases event with
    | packet copy data =>
      intro hmem
      rw [h.fins] at hmem
      cases hmem
    | recv dataSize => trivial
    | advance => trivial
  · have hnot : ¬ Always step Accounted
        (initial links buffers remoteWindowSize seq remoteIsn copy data) events := by
      intro halways
      refine hwrong hfirst ?_
      cases events with
      | nil => exact halways
      | cons event events => exact halways.1
    exact iff_of_false (fun h => hnot h.1) fun h => hfirst h.1

/-- A connection whose peer has the initial sequence number `100`. -/
def exampleLedger : AckLedger :=
  initial ⟨fun _ => 0, fun _ => 0⟩ (fun _ => dataSegment 0 []) 0 1 100 8 (dataSegment 101 [])

/-- Two segments and a read without a FIN. -/
theorem ack_accounted_two_segments :
    Always step Accounted exampleLedger
      [.packet 16 (dataSegment 101 [97, 98]), .recv 1, .advance, .packet 32 (dataSegment 103 [99])] := by
  obtain ⟨final, hrun⟩ : ∃ final, run step exampleLedger
      [.packet 16 (dataSegment 101 [97, 98]), .recv 1, .advance,
        .packet 32 (dataSegment 103 [99])] = some final :=
    Option.isSome_iff_exists.mp (by decide +kernel)
  exact ((ack_accounted_iff_no_fin _ _ _ _ _ (by decide) (by decide) (by decide) hrun).mpr
    ⟨fun hpayload => absurd hpayload (by decide), by decide +kernel⟩).1

/-- The FIN with sequence number `101` is accepted and acknowledged with `101`. When it is sent
again, it is queued again. -/
theorem fin_is_not_counted :
    (run step exampleLedger [.packet 16 (finSegment 101 [])]).map (fun ledger =>
        (ledger.stream.socket.ack, ledger.appended, ledger.fins.length,
          ledger.stream.socket.recvSkb)) = some (101, 0, 1, 16) ∧
    (run step exampleLedger
        [.packet 16 (finSegment 101 []), .packet 32 (finSegment 101 [])]).map (fun ledger =>
          (ledger.stream.socket.ack, ledger.appended, ledger.fins.length,
            ledger.stream.socket.recvSkb)) = some (101, 0, 2, 32) := by
  decide +kernel

end AckLedger

end Otrix.Net
