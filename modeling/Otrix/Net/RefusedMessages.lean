import Otrix.Kernel.MsgqGuarded
import Otrix.Dev.VirtioNet.ReceiveLength
import Otrix.Net.TcpListener

/-!
# Messages that a queue refuses although it is not full

Two writers rely on `full`. `rx_handler` calls the branch that drops the packet "most
likely impossible", and `accept_connection` has taken the SYN out of the cache and
entered the connection into the table when it calls `write`. Both come to the branch
that they do not expect when the reader of their queue is between its permit and its
copy while the ring is full.
-/

namespace Otrix

open Machine Otrix.Dev Otrix.Net

namespace Dev.RxSystem

variable {rx : RxSystem} {event : Event}

/-- The event makes `rx_handler` delete the packet that it has built, because the queue of packets
refuses it. -/
def Drops (rx : RxSystem) (event : Event) : Prop :=
  ∃ skb ∈ rx.built event, (rx.writePacket skb).1 = false

/-- When a packet arrives, the queue of packets has a free slot, or `rx_thread` is not between its
permit and its copy. -/
def Uncontended (rx : RxSystem) (event : Event) : Prop :=
  (rx.built event).isSome → ¬ (rx.packets.length = rxQueueSize ∧ rx.thread = .taken)

/-- A packet is built only if the queue of packets is not full. -/
theorem not_full_of_built (h : (rx.built event).isSome) : ¬ rx.full := by
  obtain ⟨skb, hskb⟩ := Option.isSome_iff_exists.mp h
  obtain ⟨_, call, allocated, _, _, hbuilt⟩ := built_eq_some hskb
  exact fun hfull => (Option.ite_none_left_eq_some.mp hbuilt).1 (Or.inl hfull)

/-- With a full ring, the queue is not full exactly while `rx_thread` has a permit. -/
theorem not_full_iff_taken (hring : rx.packets.length = rxQueueSize) :
    ¬ rx.full ↔ rx.thread = .taken := by
  unfold full semCount
  rw [hring]
  by_cases htaken : rx.thread = .taken
  · rw [if_pos htaken]
    exact iff_of_true (by decide) htaken
  · rw [if_neg htaken]
    exact iff_of_false (not_not_intro rfl) htaken

/-- The message queue refuses a packet exactly if its ring is full. -/
theorem write_packet_eq_false_iff (rx : RxSystem) (skb : RxSockbuf) :
    (rx.writePacket skb).1 = false ↔ rx.packets.length = rxQueueSize := by
  unfold writePacket
  split
  · next hring => exact iff_of_true rfl hring
  · next hring => exact iff_of_false nofun hring

/-- A packet is dropped exactly if the ring is full while `rx_thread` has a permit. -/
theorem not_drops_iff (rx : RxSystem) (event : Event) : ¬ rx.Drops event ↔ rx.Uncontended event := by
  have hdrops : rx.Drops event ↔ (rx.built event).isSome ∧ rx.packets.length = rxQueueSize := by
    simp only [Drops, write_packet_eq_false_iff, Option.isSome_iff_exists, Option.mem_def,
      exists_and_right]
  rw [hdrops]
  constructor
  · intro hnot hbuilt hboth
    exact hnot ⟨hbuilt, hboth.1⟩
  · rintro huncontended ⟨hbuilt, hring⟩
    exact huncontended hbuilt ⟨hring, (not_full_iff_taken hring).mp (not_full_of_built hbuilt)⟩

end Dev.RxSystem

/-- `accept_connection` creates a connection only if the backlog is not full. -/
theorem Net.Listener.not_full_of_created {listener after : Listener} {data : Incoming}
    {new : NewSocket} {address : Nat} {connection processed : TcpSocket}
    (h : listener.acceptConnection data new = some (after, .created address connection processed)) :
    ¬ listener.listenBacklog.full := by
  obtain ⟨node, _, haction⟩ := Option.bind_eq_some_iff.mp h
  intro hfull
  simp only [if_pos hfull] at haction
  split_ifs at haction <;> cases haction

/-- For a queue of any capacity and message size, with one reader at a time and a writer that looks
at `full` first: a queue that is not full accepts every message exactly when it never receives one
while its ring is full and `full` returns false, which is while the reader has a permit and has not
copied its message. In the same situation `rx_handler` drops a packet, and a connection that
`accept_connection` has created does not get into the backlog. -/
theorem not_full_accepts_iff (size msgSize : Nat) {events : List MsgqEvent} {final : MsgqSystem}
    (hone : Meets MsgqSystem.guarded OneReader (MsgqSystem.initial size msgSize) events)
    (hrun : run MsgqSystem.guarded (MsgqSystem.initial size msgSize) events = some final) :
    (Meets MsgqSystem.guarded AcceptsUnlessFull (MsgqSystem.initial size msgSize) events ↔
      Meets MsgqSystem.guarded RoomUnlessFull (MsgqSystem.initial size msgSize) events) ∧
    (size < 2 ^ 31 → final.accepted.length = final.returned.length + size →
      (¬ final.q.full ↔ ∃ thread, final.pc thread = .awake ∨ final.pc thread = .taken)) ∧
    (∀ (rx : RxSystem) (rxEvents : List RxSystem.Event),
      Meets RxSystem.step (fun rx event => ¬ rx.Drops event) rx rxEvents ↔
        Meets RxSystem.step RxSystem.Uncontended rx rxEvents) ∧
    (∀ (listener after : Listener) (data : Incoming) (new : NewSocket) (address : Nat)
      (connection processed : TcpSocket), listener.listenBacklog = final.q →
      listener.acceptConnection data new = some (after, .created address connection processed) →
      ((listener.listenBacklog.write (socketPointer new.address)).1 = true ↔
        (2 ≤ size → final.accepted.length ≠ final.returned.length + size))) := by
  have hinitial : ∃ waiting granted,
      GuardSound size (MsgqSystem.initial size msgSize) waiting granted :=
    ⟨[], [], .initial size msgSize⟩
  obtain ⟨waiting, granted, hfinal⟩ := run_invariant_of_meets
    (fun sys => ∃ waiting granted, GuardSound size sys waiting granted)
    (fun _ _ _ ⟨_, _, h⟩ hone hstep => h.step hone hstep) hinitial hone hrun
  refine ⟨?_, hfinal.not_full_iff_reader, fun rx rxEvents => ?_, ?_⟩
  · exact meets_iff_meets_of_allowed
      (fun sys => ∃ waiting granted, GuardSound size sys waiting granted)
      (fun _ event ⟨_, _, h⟩ => h.accepts_iff event)
      (fun _ _ _ ⟨_, _, h⟩ hone _ hstep => h.step hone hstep) hinitial hone
  · exact meets_iff_meets (fun _ => True) (fun rx event _ => rx.not_drops_iff event)
      (fun _ _ _ _ _ _ => trivial) trivial
  · intro listener after data new address connection processed hbacklog hcreated
    have hnot := Listener.not_full_of_created hcreated
    rw [hbacklog] at hnot ⊢
    rw [← Bool.not_eq_false, final.q.write_eq_false_iff, hfinal.refuses_iff hnot, not_and]

/-- A reader waits in a queue of two messages. The second message comes while the first one is
claimed, and the third one when it was copied. -/
theorem not_full_accepts_two :
    Meets MsgqSystem.guarded AcceptsUnlessFull (MsgqSystem.initial 2 1)
      [.take 7, .write [1], .write [2], .resume 7, .copy 7, .write [3], .write [4]] := by
  have hreturns : (run MsgqSystem.guarded (MsgqSystem.initial 2 1)
      [.take 7, .write [1], .write [2], .resume 7, .copy 7, .write [3], .write [4]]).isSome := by
    decide +kernel
  obtain ⟨final, hrun⟩ := Option.isSome_iff_exists.mp hreturns
  refine (not_full_accepts_iff 2 1 ?_ hrun).1.mpr (by decide +kernel)
  -- the only reader comes in first
  exact ⟨fun _ _ => rfl, fun _ _ => by simp [Meets, OneReader]⟩

/-- The events up to a full ring of packets, with `rx_thread` between its permit and its copy, and one
more packet. -/
def contendedEvents : List RxSystem.Event :=
  RxSystem.startEvents ++ RxSystem.packetEvents 0 16 ++
    [.take, .copy, .compare true, .finish, .goOn, .goOn, .goOn,
      .refill ((List.range 15).map fun i => 131072 + 4096 * i)] ++
    RxSystem.packetEvents 16 1 ++ [.take, .consume, .complete 17 64]

/-- A queue of two messages is filled, and a reader takes a permit: `full` returns false, and `write`
refuses. After the same steps `rx_handler` drops a packet, and a connection that `accept_connection`
creates does not get into a backlog of four. -/
theorem claimed_slot_is_refused :
    (∃ sys, run MsgqSystem.guarded (MsgqSystem.initial 2 1)
      [.write [1], .write [2], .take 7] = some sys ∧ ¬ sys.q.full ∧ (sys.q.write [3]).1 = false) ∧
    (∃ rx skb, run RxSystem.step (RxSystem.initial 16 1 0) contendedEvents = some rx ∧
      skb ∈ rx.built (.irqNext true) ∧ (rx.writePacket skb).1 = false) ∧
    ∃ sys listening after address connection processed,
      run MsgqSystem.guarded (MsgqSystem.initial 4 8)
        ((List.range 4).map (fun i => .write (socketPointer i)) ++ [.take 7]) = some sys ∧
      run Listening.step listeningSocket
        [.packet (peerPacket tcpFlagSyn 100 0) 5 (newSocketAt 16), .accept sys.q] =
        some listening ∧
      listening.listener.acceptConnection (peerPacket tcpFlagAck 101 6) (newSocketAt 16) =
        some (after, .created address connection processed) ∧
      (listening.listener.listenBacklog.write (socketPointer 16)).1 = false := by
  refine ⟨?_, ?_, ?_⟩
  · exact exists_of_any _ (by decide +kernel) fun _ _ htest => htest
  · have hresult : (run RxSystem.step (RxSystem.initial 16 1 0) contendedEvents).any
        (fun rx => (rx.built (.irqNext true)).any fun skb => (rx.writePacket skb).1 = false) =
        true := by
      decide +kernel
    obtain ⟨rx, hrun, hrx⟩ := (Option.any_eq_true _ _).mp hresult
    obtain ⟨skb, hskb, hrefused⟩ := (Option.any_eq_true _ _).mp hrx
    exact ⟨rx, skb, hrun, hskb, of_decide_eq_true hrefused⟩
  · have hresult : (run MsgqSystem.guarded (MsgqSystem.initial 4 8)
        ((List.range 4).map (fun i => .write (socketPointer i)) ++ [.take 7])).any
        (fun sys => (run Listening.step listeningSocket
          [.packet (peerPacket tcpFlagSyn 100 0) 5 (newSocketAt 16), .accept sys.q]).any
          fun listening => (listening.listener.listenBacklog.write (socketPointer 16)).1 = false &&
            (listening.listener.acceptConnection (peerPacket tcpFlagAck 101 6)
              (newSocketAt 16)).any fun result => match result.2 with
                | .created _ _ _ => true
                | _ => false) = true := by
      decide +kernel
    obtain ⟨sys, hrun, hsys⟩ := (Option.any_eq_true _ _).mp hresult
    obtain ⟨listening, hlistening, hboth⟩ := (Option.any_eq_true _ _).mp hsys
    obtain ⟨hrefused, haccept⟩ := Bool.and_eq_true_iff.mp hboth
    obtain ⟨⟨after, action⟩, hresult, haction⟩ := (Option.any_eq_true _ _).mp haccept
    cases action with
    | created address connection processed =>
      exact ⟨sys, listening, after, address, connection, processed, hrun, hlistening, hresult,
        of_decide_eq_true hrefused⟩
    | _ => cases haction

end Otrix
