import Otrix.Net.TcpSend
import Mathlib.Algebra.BigOperators.Group.List.Basic
import Mathlib.Algebra.Ring.Nat

/-!
# Segments that the lower layers refuse

`send_segment` moves `seq_` and takes the segment off the window before it gives the
segment to the lower layers, and does not take this back when they return an error.
The sequence numbers of all later segments are then too large by the bytes of the
refused one. `Ledger` keeps `seq_` and `remote_window_size_` as they are without the
running call, so that a failed call can be compared with what was before it.
-/

namespace Otrix.Net

open Linked Machine

/-- `send_segment` is running. -/
def Sender.inCall : Sender → Bool
  | .segment _ _ _ | .waiting _ _ _ | .woken _ _ _ | .committed _ _ _ => true
  | .idle | .loop _ _ => false

/-- The bytes that `seq_` was moved by and that have not left yet. -/
def Sender.unsent : Sender → Nat
  | .committed _ _ toSend => toSend
  | _ => 0

/-- The payload of some segments. -/
def payloadBytes (segments : List Transmission) : Nat :=
  (segments.map fun segment => segment.payload.length).sum

theorem payload_bytes_cons (segment : Transmission) (segments : List Transmission) :
    payloadBytes (segment :: segments) = segment.payload.length + payloadBytes segments := by
  rw [payloadBytes, List.map_cons, List.sum_cons]
  rfl

/-- The sequence number of each segment is the first one plus the bytes that were transmitted before
it. The last segment comes first. -/
def InSequence (seq : UInt32) : List Transmission → Prop
  | [] => True
  | segment :: earlier =>
    segment.seq = seq + UInt32.ofNat (payloadBytes earlier) ∧ InSequence seq earlier

instance decidableInSequence (seq : UInt32) :
    ∀ segments, Decidable (InSequence seq segments)
  | [] => isTrue trivial
  | _ :: earlier =>
    have := decidableInSequence seq earlier
    inferInstanceAs (Decidable (_ ∧ _))

namespace Sending

/-- The sequence number of the next segment that leaves. -/
def segmentSeq (sending : Sending) : UInt32 :=
  sending.stream.socket.seq - UInt32.ofNat sending.sender.unsent

/-- The running `send_segment` returns an error in this step: the lower layers refuse the segment, or
the connection was closed while the call waited. -/
def Fails (sending : Sending) : SendEvent → Prop
  | .advance result =>
    match sending.sender with
    | .committed _ _ _ => result ≠ .ok
    | .woken _ _ _ => sending.stream.socket.state = .closed
    | _ => False
  | _ => False

/-- The lower layers take the segment that they are given. -/
def NotRefused (sending : Sending) : SendEvent → Prop
  | .advance result => sending.sender.onItsWay = true → result = .ok
  | _ => True

end Sending

/-- A connection with `seq_` and `remote_window_size_` as they are without the running call of
`send_segment`. -/
structure Ledger where
  sending : Sending
  seq : UInt32
  window : Nat

namespace Ledger

/-- A connection whose sender is idle. -/
def initial (sending : Sending) : Ledger :=
  ⟨sending, sending.stream.socket.seq, sending.stream.socket.remoteWindowSize⟩

/-- One event of the connection. A packet that is accepted sets the window, with or without the
call. -/
def step (ledger : Ledger) (event : SendEvent) : Option Ledger :=
  (ledger.sending.step event).map fun next =>
    match event with
    | .packet _ data _ =>
      let socket := ledger.sending.stream.socket
      { sending := next
        seq := ledger.seq
        window := if socket.Handles data ∧ socket.Takes data then data.windowSize
          else ledger.window }
    | .advance _ =>
      if ledger.sending.sender.inCall = true then { ledger with sending := next }
      else initial next
    | _ => { ledger with sending := next }

theorem step_sending {ledger after : Ledger} {event : SendEvent}
    (hstep : ledger.step event = some after) : ledger.sending.step event = some after.sending := by
  obtain ⟨next, hnext, rfl⟩ := Option.map_eq_some_iff.mp hstep
  rw [hnext]
  cases event with
  | advance result => simp only [apply_ite Ledger.sending, initial, ite_self]
  | _ => rfl

/-- If `send_segment` returns an error, `seq_` and `remote_window_size_` are as before the call. -/
def Restores (ledger : Ledger) (event : SendEvent) : Prop :=
  ∀ after ∈ ledger.step event, ledger.sending.Fails event →
    after.sending.stream.socket.seq = after.seq ∧
      after.sending.stream.socket.remoteWindowSize = after.window

/-- The lower layers refuse no segment. -/
def NotRefused (ledger : Ledger) (event : SendEvent) : Prop :=
  ledger.sending.NotRefused event

end Ledger

instance (sending : Sending) : ∀ event, Decidable (sending.NotRefused event)
  | .advance _ => inferInstanceAs (Decidable (_ → _))
  | .packet _ _ _ => isTrue trivial
  | .recv _ => isTrue trivial
  | .read => isTrue trivial
  | .send _ => isTrue trivial

instance (ledger : Ledger) (event : SendEvent) : Decidable (ledger.NotRefused event) :=
  inferInstanceAs (Decidable (ledger.sending.NotRefused event))

/-! ## The sender inside `send_segment` -/

namespace Sender

variable (sender : Sender)

theorem unsent_wake : sender.wake.unsent = sender.unsent := by
  cases sender with
  | waiting data sent toSend => rfl
  | _ => rfl

theorem in_call_wake : sender.wake.inCall = sender.inCall := by
  cases sender with
  | waiting data sent toSend => rfl
  | _ => rfl

variable {sender}

/-- Nothing is on its way from a sender that has not moved `seq_`. -/
theorem unsent_of_resting (h : sender.onItsWay = false) : sender.unsent = 0 := by
  cases sender with
  | committed data sent toSend => cases h
  | _ => rfl

end Sender

variable {sending next : Sending} {event : SendEvent} {data : List UInt8} {sent toSend : Nat}
  {result : Kerror}

/-- A packet leaves `seq_` and the segments alone, and wakes the sender at most. -/
theorem Sending.packet_sender {copy : Nat} {data : Segment} {ackNumber : UInt32}
    (hstep : sending.step (.packet copy data ackNumber) = some next) :
    next.transmitted = sending.transmitted ∧
      next.stream.socket = sending.stream.socket.processPacket copy data ∧
      (next.sender = sending.sender ∨ next.sender = sending.sender.wake) := by
  obtain ⟨stream, hserve, hrest⟩ := Option.bind_eq_some_iff.mp hstep
  simp only [Option.ite_none_right_eq_some, Option.some.injEq] at hrest
  obtain ⟨_, rfl⟩ := hrest
  simp only [Stream.serve, Option.ite_none_right_eq_some, Option.some.injEq] at hserve
  obtain ⟨_, rfl⟩ := hserve
  refine ⟨rfl, rfl, ?_⟩
  dsimp only
  split
  · exact Or.inr rfl
  · exact Or.inl rfl

/-- Inside the call, `seq_` differs from the one before by the bytes that have not left, and the window
is the one before until the segment is taken off it. -/
structure Ledger.Tracked (ledger : Ledger) : Prop where
  bounded : ledger.sending.sender.Bounded
  seq : ledger.sending.sender.inCall = true →
    ledger.sending.stream.socket.seq = ledger.seq + UInt32.ofNat ledger.sending.sender.unsent
  window : ledger.sending.sender.inCall = true → ledger.sending.sender.onItsWay = false →
    ledger.sending.stream.socket.remoteWindowSize = ledger.window

theorem add_ofNat_eq_self_iff (seq : UInt32) (count : Nat) :
    seq + UInt32.ofNat count = seq ↔ count % 2 ^ 32 = 0 := by
  rw [← UInt32.toNat_inj, UInt32.toNat_add, UInt32.toNat_ofNat']
  have hlt := seq.toNat_lt
  omega

theorem Sending.advance_refused (hsender : sending.sender = .committed data sent toSend)
    (hresult : result ≠ .ok) : ∃ count, sending.advance result = some (sending.finish count) := by
  simp only [Sending.advance, hsender, if_neg hresult]
  split
  · exact ⟨0, rfl⟩
  · exact ⟨sent, rfl⟩

namespace Ledger.Tracked

variable {ledger after : Ledger}

theorem of_outside (hbounded : ledger.sending.sender.Bounded)
    (hout : ledger.sending.sender.inCall = false) : ledger.Tracked :=
  ⟨hbounded, fun h => absurd (hout.symm.trans h) Bool.false_ne_true,
    fun h => absurd (hout.symm.trans h) Bool.false_ne_true⟩

theorem initial_begin (sending : Sending) (hbounded : sending.sender.Bounded)
    (hresting : sending.sender.onItsWay = false) : (Ledger.initial sending).Tracked :=
  ⟨hbounded, fun _ => by
    show sending.stream.socket.seq = sending.stream.socket.seq + UInt32.ofNat sending.sender.unsent
    rw [Sender.unsent_of_resting hresting]
    exact (UInt32.add_zero _).symm, fun _ _ => rfl⟩

/-- The socket after a step that ends the call with an error, and the values from before the call. -/
theorem failed_eq (hin : ledger.sending.sender.inCall = true) {count : Nat}
    (hstep : ledger.step (.advance result) = some after)
    (hfinish : ledger.sending.advance result = some (ledger.sending.finish count)) :
    after.sending.stream.socket = ledger.sending.stream.socket ∧ after.seq = ledger.seq ∧
      after.window = ledger.window := by
  obtain ⟨next, hnext, rfl⟩ := Option.map_eq_some_iff.mp hstep
  obtain rfl := Option.some.inj (hfinish.symm.trans hnext)
  simp only [hin, if_true]
  exact ⟨rfl, trivial, trivial⟩

variable (h : ledger.Tracked)
include h

theorem packet {copy : Nat} {data : Segment} {ackNumber : UInt32}
    (hstep : ledger.step (.packet copy data ackNumber) = some after) : after.Tracked := by
  obtain ⟨next, hnext, rfl⟩ := Option.map_eq_some_iff.mp hstep
  obtain ⟨_, hsocket, hsender⟩ := Sending.packet_sender hnext
  obtain ⟨hseq, hwindow⟩ := process_packet_window ledger.sending.stream.socket copy data
  rw [← hsocket] at hseq hwindow
  have hsame : next.sender.Bounded ∧ next.sender.inCall = ledger.sending.sender.inCall ∧
      next.sender.unsent = ledger.sending.sender.unsent ∧
      next.sender.onItsWay = ledger.sending.sender.onItsWay := by
    rcases hsender with hsender | hsender
    · rw [hsender]
      exact ⟨h.bounded, rfl, rfl, rfl⟩
    · rw [hsender]
      exact ⟨h.bounded.wake, Sender.in_call_wake _, Sender.unsent_wake _, Sender.on_its_way_wake _⟩
  obtain ⟨hbounded, hcall, hunsent, hway⟩ := hsame
  refine ⟨hbounded, fun hin => ?_, fun hin hresting => ?_⟩
  · rw [hunsent, hseq]
    exact h.seq (hcall ▸ hin)
  · show next.stream.socket.remoteWindowSize = if _ then data.windowSize else ledger.window
    rw [hwindow, h.window (hcall ▸ hin) (hway ▸ hresting)]

theorem same_control {stream : Stream}
    (hsame : SameControl ledger.sending.stream.socket stream.socket) :
    Ledger.Tracked { ledger with sending := { ledger.sending with stream := stream } } :=
  ⟨h.bounded, fun hin => hsame.seq.trans (h.seq hin),
    fun hin hresting => hsame.remoteWindow.trans (h.window hin hresting)⟩

theorem try_segment (hin : ledger.sending.sender.inCall = true)
    (hresting : ledger.sending.sender.onItsWay = false)
    (hbounded : (Sender.segment data sent toSend).Bounded) :
    Ledger.Tracked { ledger with sending := ledger.sending.trySegment data sent toSend } := by
  have hseq := h.seq hin
  rw [Sender.unsent_of_resting hresting] at hseq
  replace hseq : ledger.sending.stream.socket.seq = ledger.seq := hseq.trans (UInt32.add_zero _)
  unfold Sending.trySegment
  by_cases hfull : ledger.sending.stream.socket.remoteWindowSize < toSend
  · simp only [if_pos hfull]
    exact ⟨hbounded, fun _ => hseq.trans (UInt32.add_zero _).symm, fun _ _ => h.window hin hresting⟩
  · simp only [if_neg hfull]
    exact ⟨hbounded, fun _ => congrArg (· + UInt32.ofNat toSend) hseq, fun _ hway => by cases hway⟩

theorem advance (hstep : ledger.step (.advance result) = some after) : after.Tracked := by
  obtain ⟨next, hnext, rfl⟩ := Option.map_eq_some_iff.mp hstep
  have hcase := Sending.advance_cases hnext
  cases hcall : ledger.sending.sender.inCall with
  | false =>
    simp only [Bool.false_eq_true, if_false]
    cases hcase with
    | finish hsender hdone => exact initial_begin _ trivial rfl
    | begin hsender hmore =>
      exact initial_begin _ (Sender.bounded_segment (hsender ▸ h.bounded) hmore) rfl
    | segment hsender | closed hsender | woken hsender | transmit hsender | refused hsender =>
      rw [hsender] at hcall
      cases hcall
  | true =>
    simp only [if_true]
    cases hcase with
    | finish hsender | begin hsender =>
      rw [hsender] at hcall
      cases hcall
    | segment hsender | woken hsender =>
      exact h.try_segment hcall (by rw [hsender]; rfl) (hsender ▸ h.bounded :)
    | closed hsender hclosed => exact of_outside trivial rfl
    | transmit hsender hok =>
      have hbounded := h.bounded
      rw [hsender] at hbounded
      exact of_outside hbounded.2.2 rfl
    | refused hsender hresult count => exact of_outside trivial rfl

theorem step (hstep : ledger.step event = some after) : after.Tracked := by
  cases event with
  | packet copy data ackNumber => exact h.packet hstep
  | recv _ | read =>
    obtain ⟨next, hnext, rfl⟩ := Option.map_eq_some_iff.mp hstep
    obtain ⟨stream, hsame, rfl⟩ := Sending.exists_stream hnext (by simp)
    exact h.same_control hsame
  | send data =>
    obtain ⟨next, hnext, rfl⟩ := Option.map_eq_some_iff.mp hstep
    obtain ⟨⟨_, hrange⟩, hnext⟩ := Option.ite_none_right_eq_some.mp hnext
    exact Option.some.inj hnext ▸ of_outside ⟨Nat.zero_le _, hrange⟩ rfl
  | advance result => exact h.advance hstep

/-- A segment that is refused leaves `seq_` moved by its bytes, and a call that fails because the
connection was closed has moved nothing. -/
theorem restores_iff (hstep : ledger.step event = some after) :
    ledger.Restores event ↔ ledger.NotRefused event := by
  cases event with
  | packet _ _ _ | recv _ | read | send _ => exact iff_of_true (fun _ _ hfails => hfails.elim) trivial
  | advance result =>
    have hseq := h.seq
    have hwindow := h.window
    have hbounded := h.bounded
    have hfailed := @failed_eq result ledger after
    simp only [Ledger.Restores, hstep, Option.mem_def, Option.some.injEq, forall_eq',
      Ledger.NotRefused, Sending.NotRefused]
    cases hsender : ledger.sending.sender with
    | idle | loop _ _ | segment _ _ _ | waiting _ _ _ =>
      simp [Sending.Fails, hsender, Sender.onItsWay]
    | woken data sent toSend =>
      refine iff_of_true (fun hfails => ?_) (fun hway => by cases hway)
      simp only [Sending.Fails, hsender] at hfails
      rw [hsender] at hseq hwindow hfailed
      obtain ⟨hsocket, hsame, hsame'⟩ := @hfailed rfl 0 hstep (by
        simp only [Sending.advance, hsender, if_pos hfails])
      rw [hsocket, hsame, hsame']
      exact ⟨(hseq rfl).trans (UInt32.add_zero _), hwindow rfl rfl⟩
    | committed data sent toSend =>
      rw [hsender] at hseq hbounded hfailed
      simp only [Sending.Fails, hsender, Sender.onItsWay, forall_const]
      by_cases hok : result = .ok
      · exact iff_of_true (fun hfails => absurd hok hfails) hok
      · refine iff_of_false (fun hrestores => ?_) hok
        obtain ⟨count, hfinish⟩ := Sending.advance_refused hsender hok
        obtain ⟨hsocket, hsame, _⟩ := hfailed rfl hstep hfinish
        have hmoved := (hrestores hok).1
        rw [hsocket, hsame] at hmoved
        obtain ⟨hpositive, hmss, _⟩ := hbounded
        have hmultiple := (add_ofNat_eq_self_iff _ _).mp ((hseq rfl).symm.trans hmoved)
        have hsmall : tcpMss < 2 ^ 32 := by decide
        simp only [Sender.unsent] at hmultiple
        omega

end Ledger.Tracked

/-! ## The segments that leave -/

namespace Sending

/-- The step transmits nothing. -/
structure Quiet (sending next : Sending) : Prop where
  transmitted : next.transmitted = sending.transmitted
  segment_seq : next.segmentSeq = sending.segmentSeq

/-- The step transmits a segment with the sequence number that is due. -/
structure Sends (sending next : Sending) (segment : Transmission) : Prop where
  transmitted : next.transmitted = segment :: sending.transmitted
  seq : segment.seq = sending.segmentSeq
  segment_seq : next.segmentSeq = sending.segmentSeq + UInt32.ofNat segment.payload.length

theorem segment_seq_of_resting (hresting : sending.sender.onItsWay = false) :
    sending.segmentSeq = sending.stream.socket.seq := by
  rw [segmentSeq, Sender.unsent_of_resting hresting]
  exact UInt32.sub_zero _

theorem quiet_try_segment (hresting : sending.sender.onItsWay = false) :
    Quiet sending (sending.trySegment data sent toSend) := by
  unfold trySegment
  by_cases hfull : sending.stream.socket.remoteWindowSize < toSend
  · simp only [if_pos hfull]
    exact ⟨rfl, (segment_seq_of_resting rfl).trans (segment_seq_of_resting hresting).symm⟩
  · simp only [if_neg hfull]
    exact ⟨rfl, (UInt32.add_sub_cancel _ _).trans (segment_seq_of_resting hresting).symm⟩

theorem sends_outgoing (hsender : sending.sender = .committed data sent toSend)
    (hbounded : sending.sender.Bounded) :
    Sends sending
      { sending with
        transmitted := sending.outgoing data sent toSend :: sending.transmitted
        sender := .loop data (sent + toSend) }
      (sending.outgoing data sent toSend) := by
  rw [hsender] at hbounded
  obtain ⟨_, _, hfits, hrange⟩ := hbounded
  have hunsent : sending.sender.unsent = toSend := by rw [hsender]; rfl
  have hlength : (sending.outgoing data sent toSend).payload.length = toSend := by
    show ((data.drop sent).take toSend).length = toSend
    rw [List.length_take, List.length_drop]
    omega
  refine ⟨rfl, ?_, ?_⟩
  · rw [segmentSeq, hunsent]
    rfl
  · rw [hlength, segment_seq_of_resting rfl, segmentSeq, hunsent, UInt32.sub_add_cancel]

/-- If no segment is refused, a step transmits nothing or the segment that is due. -/
theorem step_account (hbounded : sending.sender.Bounded) (hnot : sending.NotRefused event)
    (hstep : sending.step event = some next) :
    Quiet sending next ∨ ∃ segment, Sends sending next segment := by
  cases event with
  | packet copy data ackNumber =>
    obtain ⟨htransmitted, hsocket, hsender⟩ := packet_sender hstep
    refine .inl ⟨htransmitted, ?_⟩
    have hunsent : next.sender.unsent = sending.sender.unsent := by
      rcases hsender with hsender | hsender
      · rw [hsender]
      · rw [hsender, Sender.unsent_wake]
    rw [segmentSeq, segmentSeq, hunsent, hsocket,
      (process_packet_window sending.stream.socket copy data).1]
  | recv _ | read =>
    obtain ⟨stream, hsame, rfl⟩ := exists_stream hstep (by simp)
    exact .inl ⟨rfl, congrArg (· - _) hsame.seq⟩
  | send data =>
    simp only [Sending.step, Option.ite_none_right_eq_some, Option.some.injEq] at hstep
    obtain ⟨⟨hidle, _⟩, rfl⟩ := hstep
    exact .inl ⟨rfl, (segment_seq_of_resting rfl).trans
      (segment_seq_of_resting (by rw [hidle]; rfl)).symm⟩
  | advance result =>
    cases advance_cases hstep with
    | finish hsender | begin hsender | closed hsender =>
      exact .inl ⟨rfl, (segment_seq_of_resting rfl).trans
        (segment_seq_of_resting (by rw [hsender]; rfl)).symm⟩
    | segment hsender | woken hsender => exact .inl (quiet_try_segment (by rw [hsender]; rfl))
    | transmit hsender hok => exact .inr ⟨_, sends_outgoing hsender hbounded⟩
    | refused hsender hresult count => exact absurd (hnot (by rw [hsender]; rfl)) hresult

end Sending

/-! ## Whole runs -/

/-- The next sequence number is the first one plus the bytes that were transmitted, as for every
segment that was transmitted. -/
structure Accounted (seq : UInt32) (sending : Sending) : Prop where
  segment_seq : sending.segmentSeq = seq + UInt32.ofNat (payloadBytes sending.transmitted)
  in_sequence : InSequence seq sending.transmitted

theorem Accounted.step {seq : UInt32} (h : Accounted seq sending)
    (hbounded : sending.sender.Bounded) (hnot : sending.NotRefused event)
    (hstep : sending.step event = some next) : Accounted seq next := by
  rcases Sending.step_account hbounded hnot hstep with hquiet | ⟨segment, hsends⟩
  · constructor
    · rw [hquiet.segment_seq, hquiet.transmitted, h.segment_seq]
    · rw [hquiet.transmitted]
      exact h.in_sequence
  · constructor
    · rw [hsends.segment_seq, hsends.transmitted, h.segment_seq, payload_bytes_cons,
        UInt32.ofNat_add]
      ac_rfl
    · rw [hsends.transmitted]
      exact ⟨hsends.seq.trans h.segment_seq, h.in_sequence⟩

/-- For a connection that has sent nothing yet, and whatever its calls of `send` run into: every
`send_segment` that returns an error leaves `seq_` and `remote_window_size_` as before the call, and
the sequence number of every transmitted segment is the first `seq_` plus the bytes transmitted before
it, exactly when the lower layers refuse no segment. -/
theorem sequence_kept_iff_not_refused (start : Sending) (hidle : start.sender = .idle)
    (hnew : start.transmitted = []) {events : List SendEvent} {final : Ledger}
    (hrun : run Ledger.step (.initial start) events = some final) :
    (Meets Ledger.step Ledger.Restores (.initial start) events ∧
        InSequence start.stream.socket.seq final.sending.transmitted) ↔
      Meets Ledger.step Ledger.NotRefused (.initial start) events := by
  have htracked : (Ledger.initial start).Tracked :=
    .initial_begin start (by rw [hidle]; trivial) (by rw [hidle]; rfl)
  have haccounted : Accounted start.stream.socket.seq start := by
    constructor
    · rw [Sending.segment_seq_of_resting (by rw [hidle]; rfl), hnew]
      exact (UInt32.add_zero _).symm
    · rw [hnew]
      trivial
  have hiff := meets_iff_meets_of_run Ledger.Tracked
    (fun _ _ _ h hstep => h.restores_iff hstep) (fun _ _ _ h hstep => h.step hstep) htracked hrun
  rw [hiff]
  refine and_iff_left_of_imp fun hmeets => ?_
  refine (run_invariant_of_meets (fun ledger => ledger.Tracked ∧
    Accounted start.stream.socket.seq ledger.sending) ?_ ⟨htracked, haccounted⟩ hmeets
    hrun).2.in_sequence
  rintro ledger event after ⟨h, haccount⟩ hnot hstep
  exact ⟨h.step hstep, haccount.step h.bounded hnot (Ledger.step_sending hstep)⟩

/-- A call of `send` with the data of one segment that the lower layers refuse. -/
def refusedSegment (count : Nat) (result : Kerror) : List SendEvent :=
  [.send (List.replicate count 0), .advance .ok, .advance .ok, .advance result]

/-- Two segments are transmitted, and a third one waits for the window. -/
theorem sequence_kept_two_segments : ∃ final,
    run Ledger.step (.initial (Sending.exampleSending 2000))
      (Sending.oneSegment 1000 ++ Sending.oneSegment 500 ++
        [.send (List.replicate 600 0), .advance .ok, .advance .ok]) = some final ∧
    final.sending.sender = .waiting (List.replicate 600 0) 0 600 ∧
    InSequence 1 final.sending.transmitted := by
  refine exists_of_any
    (fun final => final.sending.sender = .waiting (List.replicate 600 0) 0 600)
    (by decide +kernel) ?_
  intro final hrun hwaits
  exact ⟨hwaits, ((sequence_kept_iff_not_refused (Sending.exampleSending 2000) rfl rfl
    hrun).mpr (by decide +kernel)).2⟩

/-- The gateway is not reachable when the first segment is sent: `send_segment` fails, and leaves
`seq_` at `1001` and the window at `1000` where they were `1` and `2000` before. The second segment is
the first that leaves, with the sequence number `1001`. -/
theorem refused_segment_leaves_hole :
    (∃ failed, run Ledger.step (.initial (Sending.exampleSending 2000))
        (refusedSegment 1000 .unreachable) = some failed ∧
      failed.sending.stream.socket.seq = 1001 ∧ failed.seq = 1 ∧
      failed.sending.stream.socket.remoteWindowSize = 1000 ∧ failed.window = 2000) ∧
    ∃ final, run Ledger.step (.initial (Sending.exampleSending 2000))
        (refusedSegment 1000 .unreachable ++ Sending.oneSegment 500) = some final ∧
      (Sending.exampleSending 2000).stream.socket.seq = 1 ∧
      final.sending.transmitted.map (fun segment => segment.seq) = [1001] ∧
      ¬ InSequence 1 final.sending.transmitted :=
  ⟨exists_of_any _ (by decide +kernel) fun _ _ htest => htest,
    exists_of_any _ (by decide +kernel) fun _ _ htest => htest⟩

end Otrix.Net
