import Otrix.Net.TcpSend

/-!
# How `send` cuts its data into segments

A call of `send` runs while packets arrive and the window of the peer changes. Between
the protected region of `send_segment`, which moves `seq_`, and the header that is
filled in from `seq_`, anything else may happen.

`send_segmentation` says what a call has sent when it returns, for every such
interleaving. It also says that the call returns: it takes three steps for a segment
and one more for each time it is woken, and only a window that is too small keeps it
from taking the next one.
-/

namespace Otrix.Net

open Linked Machine

/-- The number of segments that some bytes are cut into. -/
def segmentCount (bytes : Nat) : Nat :=
  (bytes + tcpMss - 1) / tcpMss

/-- The size of the next segment. -/
def nextSize (data : List UInt8) (sent : Nat) : Nat :=
  min (data.length - sent) tcpMss

/-- The segments, in the order in which they were sent, carry the data. Their payloads are the data
in pieces of `TCP_MSS`, with the rest in the last one. Each begins where the one before it ends, and
the last one is pushed. -/
structure Segmented (seq : UInt32) (data : List UInt8) (segments : List Transmission) : Prop where
  payloads : (segments.map (·.payload)).flatten = data
  sizes : ∀ segment ∈ segments, 0 < segment.payload.length ∧ segment.payload.length ≤ tcpMss
  full : ∀ segment ∈ segments.dropLast, segment.payload.length = tcpMss
  seqs : ∀ front segment back, segments = front ++ segment :: back →
    segment.seq = seq + UInt32.ofNat (front.map (·.payload)).flatten.length
  push : ∀ front segment back, segments = front ++ segment :: back →
    (segment.flags &&& tcpFlagPsh ≠ 0 ↔ back = [])

/-- The same of the segments that carry the first bytes of the data. -/
structure Progress (seq : UInt32) (data : List UInt8) (sent : Nat)
    (segments : List Transmission) : Prop where
  sent_le : sent ≤ data.length
  payloads : (segments.map (·.payload)).flatten = data.take sent
  sizes : ∀ segment ∈ segments, 0 < segment.payload.length ∧ segment.payload.length ≤ tcpMss
  full : ∀ segment ∈ segments.dropLast, segment.payload.length = tcpMss
  unfinished : sent < data.length → ∀ segment ∈ segments, segment.payload.length = tcpMss
  seqs : ∀ front segment back, segments = front ++ segment :: back →
    segment.seq = seq + UInt32.ofNat (front.map (·.payload)).flatten.length
  push : ∀ front segment back, segments = front ++ segment :: back →
    (segment.flags &&& tcpFlagPsh ≠ 0 ↔ back = [] ∧ sent = data.length)

/-! ## The segments of a call -/

/-- Where an element of a list can be that got one more at its end. -/
theorem append_singleton_split {α : Type} {list front back : List α} {added element : α}
    (h : list ++ [added] = front ++ element :: back) :
    (back = [] ∧ front = list ∧ element = added) ∨
      ∃ rest, back = rest ++ [added] ∧ list = front ++ element :: rest := by
  rcases List.eq_nil_or_concat back with rfl | ⟨rest, last, rfl⟩
  · obtain ⟨hlist, hadded⟩ := List.append_inj' h rfl
    exact Or.inl ⟨rfl, hlist.symm, (List.singleton_inj.mp hadded).symm⟩
  · have hassoc : front ++ element :: rest.concat last = front ++ element :: rest ++ [last] := by
      simp
    obtain ⟨hlist, hadded⟩ := List.append_inj' (h.trans hassoc) rfl
    refine Or.inr ⟨rest, ?_, hlist⟩
    rw [List.singleton_inj.mp hadded, List.concat_eq_append]

section Progress

variable {seq : UInt32} {data : List UInt8} {sent : Nat} {segments : List Transmission}

theorem progress_nil (seq : UInt32) (data : List UInt8) : Progress seq data 0 [] where
  sent_le := Nat.zero_le _
  payloads := rfl
  sizes := fun _ hmem => absurd hmem List.not_mem_nil
  full := fun _ hmem => absurd hmem List.not_mem_nil
  unfinished := fun _ _ hmem => absurd hmem List.not_mem_nil
  seqs := fun _ _ _ h => absurd h.symm (by simp)
  push := fun _ _ _ h => absurd h.symm (by simp)

/-- The next segment carries the bytes that follow those sent. -/
theorem Progress.append (h : Progress seq data sent segments) (hmore : sent < data.length)
    {segment : Transmission}
    (hpayload : segment.payload = (data.drop sent).take (nextSize data sent))
    (hseq : segment.seq = seq + UInt32.ofNat sent)
    (hpush : segment.flags &&& tcpFlagPsh ≠ 0 ↔ sent + nextSize data sent = data.length) :
    Progress seq data (sent + nextSize data sent) (segments ++ [segment]) := by
  have hmss : 0 < tcpMss := by decide
  have hsize : segment.payload.length = nextSize data sent := by
    rw [hpayload, List.length_take, List.length_drop, nextSize]
    omega
  have hnext : 0 < nextSize data sent ∧ nextSize data sent ≤ tcpMss ∧
      sent + nextSize data sent ≤ data.length ∧
      (sent + nextSize data sent < data.length → nextSize data sent = tcpMss) := by
    unfold nextSize
    omega
  obtain ⟨hpositive, hle, hfits, hfull⟩ := hnext
  refine ⟨hfits, ?_, ?_, ?_, ?_, ?_, ?_⟩
  · rw [List.map_append, List.flatten_append, h.payloads, List.map_singleton,
      List.flatten_singleton, hpayload, ← List.take_add]
  · intro other hother
    rcases List.mem_append.mp hother with hold | hnew
    · exact h.sizes other hold
    · rw [List.mem_singleton.mp hnew, hsize]
      exact ⟨hpositive, hle⟩
  · rw [List.dropLast_concat]
    exact h.unfinished hmore
  · intro hstill other hother
    rcases List.mem_append.mp hother with hold | hnew
    · exact h.unfinished hmore other hold
    · rw [List.mem_singleton.mp hnew, hsize]
      exact hfull hstill
  · intro front other back hsplit
    rcases append_singleton_split hsplit with ⟨_, rfl, rfl⟩ | ⟨rest, _, hold⟩
    · rw [h.payloads, List.length_take_of_le (Nat.le_of_lt hmore)]
      exact hseq
    · exact h.seqs front other rest hold
  · intro front other back hsplit
    rcases append_singleton_split hsplit with ⟨rfl, rfl, rfl⟩ | ⟨rest, rfl, hold⟩
    · rw [hpush]
      simp
    · have hearlier := h.push front other rest hold
      rw [hearlier]
      exact iff_of_false (fun hfinished => by omega) fun hlast => by simp at hlast

theorem Progress.segmented (h : Progress seq data data.length segments) :
    Segmented seq data segments where
  payloads := h.payloads.trans List.take_length
  sizes := h.sizes
  full := h.full
  seqs := h.seqs
  push := fun front segment back hsplit =>
    (h.push front segment back hsplit).trans (and_iff_left rfl)

end Progress

/-! ## What wakes a waiting sender -/

/-- A segment that does not notify the sender does not raise the window. -/
theorem handle_segment_quiet (socket : TcpSocket) (copy : Nat) (data : Segment)
    (hquiet : (socket.handleSegment copy data).senderNotified = socket.senderNotified) :
    (socket.handleSegment copy data).remoteWindowSize ≤ socket.remoteWindowSize := by
  rcases handle_segment_cases socket copy data with ⟨_, heq⟩ | ⟨_, _, _, _, _, _, _, heq⟩
  · rw [heq]
    exact Nat.le_refl _
  · rw [heq] at hquiet ⊢
    by_contra hnot
    have hraised : socket.remoteWindowSize < data.windowSize := Nat.not_le.mp hnot
    have hnotified : (if socket.remoteWindowSize < data.windowSize then socket.senderNotified + 1
        else socket.senderNotified) = socket.senderNotified := hquiet
    rw [if_pos hraised] at hnotified
    omega

theorem process_packet_quiet (socket : TcpSocket) (copy : Nat) (data : Segment)
    (hquiet : (socket.processPacket copy data).senderNotified = socket.senderNotified) :
    (socket.processPacket copy data).remoteWindowSize ≤ socket.remoteWindowSize := by
  by_cases hhandles : socket.Handles data
  · rw [process_packet_of_handles copy hhandles] at hquiet ⊢
    exact handle_segment_quiet socket copy data hquiet
  · rw [(process_packet_window socket copy data).2, if_neg fun h => hhandles h.1]

namespace Sending

/-! ## A running call -/

/-- Nothing else is sent meanwhile, the lower layers take every segment, and the connection is not
closed. -/
def Undisturbed (sending : Sending) : SendEvent → Prop
  | .send _ => False
  | .advance result => sending.stream.socket.state ≠ .closed ∧ result = .ok
  | _ => True

instance (sending : Sending) : ∀ event, Decidable (sending.Undisturbed event)
  | .send _ => isFalse id
  | .advance _ => inferInstanceAs (Decidable (_ ∧ _))
  | .packet _ _ _ => isTrue trivial
  | .recv _ => isTrue trivial
  | .read => isTrue trivial

/-- The call has sent some bytes and has moved `seq_` by `moved` bytes. -/
structure Reached (start : Sending) (data : List UInt8) (segments : List Transmission)
    (sent moved : Nat) (state : Sending) : Prop where
  progress : Progress start.stream.socket.seq data sent segments
  seq : state.stream.socket.seq = start.stream.socket.seq + UInt32.ofNat moved
  returned : state.returned = start.returned

/-- What holds at each point of the call. -/
def AtPoint (start : Sending) (data : List UInt8) (segments : List Transmission)
    (state : Sending) : Sender → Prop
  | .idle => Progress start.stream.socket.seq data data.length segments ∧
      state.stream.socket.seq = start.stream.socket.seq + UInt32.ofNat data.length ∧
      state.returned = data.length :: start.returned
  | .loop buffer sent => buffer = data ∧ Reached start data segments sent sent state
  | .segment buffer sent toSend => buffer = data ∧ sent < data.length ∧
      toSend = nextSize data sent ∧ Reached start data segments sent sent state
  | .waiting buffer sent toSend => buffer = data ∧ sent < data.length ∧
      toSend = nextSize data sent ∧ Reached start data segments sent sent state ∧
      state.stream.socket.remoteWindowSize < toSend
  | .woken buffer sent toSend => buffer = data ∧ sent < data.length ∧
      toSend = nextSize data sent ∧ Reached start data segments sent sent state
  | .committed buffer sent toSend => buffer = data ∧ sent < data.length ∧
      toSend = nextSize data sent ∧ Reached start data segments sent (sent + toSend) state

/-- The state is one of the call of `send` with the data that began in `start`, or one behind it. -/
def During (start : Sending) (data : List UInt8) (state : Sending) : Prop :=
  ∃ segments, state.transmitted = segments.reverse ++ start.transmitted ∧
    AtPoint start data segments state state.sender

section Steps

variable {start state next : Sending} {data : List UInt8} {segments : List Transmission}
  {sender : Sender} {sent toSend : Nat}

theorem Reached.keep {moved : Nat} (h : Reached start data segments sent moved state)
    (hseq : next.stream.socket.seq = state.stream.socket.seq)
    (hreturned : next.returned = state.returned) :
    Reached start data segments sent moved next :=
  ⟨h.progress, hseq.trans h.seq, hreturned.trans h.returned⟩

theorem AtPoint.keep (h : AtPoint start data segments state sender)
    (hseq : next.stream.socket.seq = state.stream.socket.seq)
    (hreturned : next.returned = state.returned)
    (hwindow : sender.wake = sender ∨
      next.stream.socket.remoteWindowSize ≤ state.stream.socket.remoteWindowSize) :
    AtPoint start data segments next sender := by
  cases sender with
  | idle => exact ⟨h.1, hseq.trans h.2.1, hreturned.trans h.2.2⟩
  | loop buffer sent => exact ⟨h.1, h.2.keep hseq hreturned⟩
  | waiting buffer sent toSend =>
    exact ⟨h.1, h.2.1, h.2.2.1, h.2.2.2.1.keep hseq hreturned,
      Nat.lt_of_le_of_lt (hwindow.resolve_left nofun) h.2.2.2.2⟩
  | segment buffer sent toSend | woken buffer sent toSend | committed buffer sent toSend =>
    exact ⟨h.1, h.2.1, h.2.2.1, h.2.2.2.keep hseq hreturned⟩

/-- A packet may wake the sender, whatever window it announces. -/
theorem AtPoint.wake (h : AtPoint start data segments state sender)
    (hseq : next.stream.socket.seq = state.stream.socket.seq)
    (hreturned : next.returned = state.returned) :
    AtPoint start data segments next sender.wake := by
  cases sender with
  | waiting buffer sent toSend => exact ⟨h.1, h.2.1, h.2.2.1, h.2.2.2.1.keep hseq hreturned⟩
  | _ => exact h.keep hseq hreturned (.inl rfl)

theorem During.try_segment (htransmitted : state.transmitted = segments.reverse ++ start.transmitted)
    (hmore : sent < data.length) (hsize : toSend = nextSize data sent)
    (hreached : Reached start data segments sent sent state) :
    During start data (state.trySegment data sent toSend) := by
  refine ⟨segments, ?_⟩
  unfold trySegment
  by_cases hfull : state.stream.socket.remoteWindowSize < toSend
  · simp only [if_pos hfull]
    exact ⟨htransmitted, rfl, hmore, hsize,
      ⟨hreached.progress, hreached.seq, hreached.returned⟩, hfull⟩
  · simp only [if_neg hfull]
    refine ⟨htransmitted, rfl, hmore, hsize, hreached.progress, ?_, hreached.returned⟩
    show state.stream.socket.seq + UInt32.ofNat toSend = _
    rw [hreached.seq, UInt32.ofNat_add, UInt32.add_assoc]

/-- The segment that leaves carries the next bytes of the data. -/
theorem Progress.outgoing (hmore : sent < data.length) (hsize : toSend = nextSize data sent)
    (hreached : Reached start data segments sent (sent + toSend) state) :
    Progress start.stream.socket.seq data (sent + toSend)
      (segments ++ [state.outgoing data sent toSend]) := by
  subst hsize
  refine hreached.progress.append hmore rfl ?_ ?_
  · show state.stream.socket.seq - UInt32.ofNat (nextSize data sent) = _
    rw [hreached.seq, UInt32.ofNat_add, ← UInt32.add_assoc, UInt32.add_sub_cancel]
  · show (tcpFlagAck ||| if sent + nextSize data sent = data.length then tcpFlagPsh else 0) &&&
      tcpFlagPsh ≠ 0 ↔ _
    split
    · next hlast => exact iff_of_true (by decide) hlast
    · next hlast => exact iff_of_false (by decide) hlast

/-- A step of the call, which is given up if it wakes up on a connection that was reset. -/
theorem During.advance_or_closed (h : During start data state) (hrange : data.length < 2 ^ 64)
    (hstep : state.advance .ok = some next) :
    During start data next ∨ state.stream.socket.state = .closed ∧ next = state.finish 0 := by
  obtain ⟨segments, htransmitted, hpoint⟩ := h
  cases advance_cases hstep with
  | closed _ hclosed => exact Or.inr ⟨hclosed, rfl⟩
  | refused _ hresult => exact absurd rfl hresult
  | finish hsender hdone =>
    rw [hsender] at hpoint
    obtain ⟨rfl, hreached⟩ := hpoint
    subst hdone
    exact Or.inl ⟨segments, htransmitted, hreached.progress, hreached.seq,
      congrArg (_ :: ·) hreached.returned⟩
  | @begin buffer sent hsender hmore =>
    rw [hsender] at hpoint
    obtain ⟨rfl, hreached⟩ := hpoint
    have hle := hreached.progress.sent_le
    have hsize : min (sub64 buffer.length sent) tcpMss = nextSize buffer sent := by
      rw [nextSize, sub64_of_le hle hrange]
    exact Or.inl ⟨segments, htransmitted, rfl, by omega, hsize,
      ⟨hreached.progress, hreached.seq, hreached.returned⟩⟩
  | segment hsender | woken hsender =>
    rw [hsender] at hpoint
    obtain ⟨rfl, hmore, hsize, hreached⟩ := hpoint
    exact Or.inl (During.try_segment htransmitted hmore hsize hreached)
  | @transmit buffer sent toSend hsender =>
    rw [hsender] at hpoint
    obtain ⟨rfl, hmore, hsize, hreached⟩ := hpoint
    refine Or.inl ⟨segments ++ [state.outgoing buffer sent toSend], ?_, rfl,
      Progress.outgoing hmore hsize hreached, hreached.seq, hreached.returned⟩
    rw [List.reverse_append, htransmitted]
    rfl

theorem During.advance (h : During start data state) (hopen : state.stream.socket.state ≠ .closed)
    (hrange : data.length < 2 ^ 64) (hstep : state.advance .ok = some next) :
    During start data next :=
  (h.advance_or_closed hrange hstep).resolve_right fun hclosed => hopen hclosed.1

theorem During.step {event : SendEvent} (h : During start data state)
    (hcalm : state.Undisturbed event) (hrange : data.length < 2 ^ 64)
    (hstep : state.step event = some next) : During start data next := by
  cases event with
  | send data => exact hcalm.elim
  | advance result =>
    obtain ⟨hopen, rfl⟩ := hcalm
    exact h.advance hopen hrange hstep
  | recv _ | read =>
    obtain ⟨segments, htransmitted, hpoint⟩ := h
    obtain ⟨stream, hsame, rfl⟩ := exists_stream hstep (by simp)
    exact ⟨segments, htransmitted, hpoint.keep hsame.seq rfl (.inr (Nat.le_of_eq hsame.remoteWindow))⟩
  | packet copy segment ackNumber =>
    obtain ⟨segments, htransmitted, hpoint⟩ := h
    obtain ⟨stream, hserve, hrest⟩ := Option.bind_eq_some_iff.mp hstep
    simp only [Option.ite_none_right_eq_some, Option.some.injEq] at hrest
    obtain ⟨_, rfl⟩ := hrest
    simp only [Stream.serve, Option.ite_none_right_eq_some, Option.some.injEq] at hserve
    obtain ⟨_, rfl⟩ := hserve
    have hseq := (process_packet_window state.stream.socket copy segment).1
    refine ⟨segments, htransmitted, ?_⟩
    dsimp only
    split
    · exact hpoint.wake hseq rfl
    · next hquiet =>
      exact hpoint.keep hseq rfl
        (.inr (process_packet_quiet state.stream.socket copy segment (not_not.mp hquiet)))

end Steps

/-! ## The steps that a call takes -/

/-- The steps that are left of a call if it does not have to wait. -/
def work : Sender → Nat
  | .idle => 0
  | .loop data sent => 3 * segmentCount (data.length - sent) + 1
  | .segment data sent _ => 3 * segmentCount (data.length - sent)
  | .waiting data sent _ => 3 * segmentCount (data.length - sent) - 1
  | .woken data sent _ => 3 * segmentCount (data.length - sent)
  | .committed data sent _ => 3 * segmentCount (data.length - sent) - 1

/-- The event is a step of the call. -/
def isAdvance : SendEvent → Bool
  | .advance _ => true
  | _ => false

/-- The event is a packet. -/
def isPacket : SendEvent → Bool
  | .packet _ _ _ => true
  | _ => false

theorem segment_count_next {data : List UInt8} {sent : Nat} (hmore : sent < data.length) :
    segmentCount (data.length - sent) =
      segmentCount (data.length - (sent + nextSize data sent)) + 1 := by
  unfold segmentCount nextSize tcpMss
  omega

theorem work_wake (sender : Sender) : work sender.wake ≤ work sender + 1 := by
  cases sender with
  | waiting data sent toSend =>
    show 3 * segmentCount (data.length - sent) ≤ 3 * segmentCount (data.length - sent) - 1 + 1
    omega
  | _ => exact Nat.le_succ _

section Work

variable {start state next : Sending} {data : List UInt8} {segments : List Transmission}
  {sent toSend : Nat}

/-- Every step of the call leaves less work. -/
theorem During.work_advance (h : During start data state)
    (hopen : state.stream.socket.state ≠ .closed) (hstep : state.advance .ok = some next) :
    work next.sender + 1 ≤ work state.sender := by
  obtain ⟨segments, _, hpoint⟩ := h
  have htry : ∀ {sent toSend}, sent < data.length →
      work (state.trySegment data sent toSend).sender + 1 ≤
        3 * segmentCount (data.length - sent) := by
    intro sent toSend hmore
    have hcount := segment_count_next hmore
    unfold trySegment
    dsimp only
    split
    · show 3 * segmentCount (data.length - sent) - 1 + 1 ≤ _
      omega
    · show 3 * segmentCount (data.length - sent) - 1 + 1 ≤ _
      omega
  cases advance_cases hstep with
  | finish hsender =>
    rw [hsender]
    exact Nat.le_add_left _ _
  | begin hsender =>
    rw [hsender]
    exact Nat.le_refl _
  | segment hsender | woken hsender =>
    rw [hsender] at hpoint ⊢
    obtain ⟨rfl, hmore, _⟩ := hpoint
    exact htry hmore
  | closed _ hclosed => exact absurd hclosed hopen
  | @transmit buffer sent toSend hsender =>
    rw [hsender] at hpoint ⊢
    obtain ⟨rfl, hmore, rfl, _⟩ := hpoint
    have hcount := segment_count_next hmore
    show 3 * segmentCount (buffer.length - (sent + nextSize buffer sent)) + 1 + 1 ≤
      3 * segmentCount (buffer.length - sent) - 1
    omega
  | refused _ hresult => exact absurd rfl hresult

/-- An event takes a step off the work if it is one of the call, and adds at most one if it is a
packet. -/
theorem During.work_step {event : SendEvent} (h : During start data state)
    (hcalm : state.Undisturbed event) (hstep : state.step event = some next) :
    work next.sender + (if isAdvance event then 1 else 0) ≤
      work state.sender + if isPacket event then 1 else 0 := by
  cases event with
  | send data => exact hcalm.elim
  | advance result =>
    obtain ⟨hopen, rfl⟩ := hcalm
    exact h.work_advance hopen hstep
  | recv _ | read =>
    obtain ⟨stream, _, hrest⟩ := Option.bind_eq_some_iff.mp hstep
    cases hrest
    exact Nat.le_refl _
  | packet copy segment ackNumber =>
    obtain ⟨stream, _, hrest⟩ := Option.bind_eq_some_iff.mp hstep
    simp only [Option.ite_none_right_eq_some, Option.some.injEq] at hrest
    obtain ⟨_, rfl⟩ := hrest
    show work (if _ then state.sender.wake else state.sender) + 0 ≤ work state.sender + 1
    split
    · exact work_wake state.sender
    · exact Nat.le_succ _

theorem During.run {events : List SendEvent} {final : Sending} (h : During start data state)
    (hrange : data.length < 2 ^ 64) (hcalm : Meets Sending.step Undisturbed state events)
    (hrun : run Sending.step state events = some final) :
    During start data final ∧
      work final.sender + events.countP isAdvance ≤ work state.sender + events.countP isPacket := by
  induction events generalizing state with
  | nil =>
    obtain rfl := Option.some.inj hrun
    exact ⟨h, Nat.le_refl _⟩
  | cons event events ih =>
    obtain ⟨next, hstep, hrest⟩ := run_cons_eq_some.mp hrun
    obtain ⟨hduring, hwork⟩ := ih (h.step hcalm.1 hrange hstep) (hcalm.2 next hstep) hrest
    have hone := h.work_step hcalm.1 hstep
    rw [List.countP_cons, List.countP_cons]
    exact ⟨hduring, by omega⟩

/-- Before the call has returned, there is a step left. -/
theorem AtPoint.work_pos {sender : Sender} (h : AtPoint start data segments state sender)
    (hrunning : sender ≠ .idle) : 0 < work sender := by
  have hcount : ∀ {sent}, sent < data.length → 1 < 3 * segmentCount (data.length - sent) := by
    intro sent hmore
    rw [segment_count_next hmore]
    omega
  cases sender with
  | idle => exact absurd rfl hrunning
  | loop buffer sent => exact Nat.succ_pos _
  | segment buffer sent toSend =>
    obtain ⟨rfl, hmore, _⟩ := h
    exact Nat.lt_of_succ_lt (hcount hmore)
  | waiting buffer sent toSend =>
    obtain ⟨rfl, hmore, _⟩ := h
    exact Nat.sub_pos_of_lt (hcount hmore)
  | woken buffer sent toSend =>
    obtain ⟨rfl, hmore, _⟩ := h
    exact Nat.lt_of_succ_lt (hcount hmore)
  | committed buffer sent toSend =>
    obtain ⟨rfl, hmore, _⟩ := h
    exact Nat.sub_pos_of_lt (hcount hmore)

/-- A call that has not returned can take its next step, or waits for a window that is too small. -/
theorem AtPoint.can_advance (h : AtPoint start data segments state state.sender)
    (hrunning : state.sender ≠ .idle) :
    (∃ next, state.advance .ok = some next) ∨
      ∃ sent, state.sender = .waiting data sent (nextSize data sent) ∧
        state.stream.socket.remoteWindowSize < nextSize data sent := by
  unfold Sending.advance
  cases hsender : state.sender with
  | idle => exact absurd hsender hrunning
  | loop buffer sent =>
    left
    dsimp only
    split
    · exact ⟨_, rfl⟩
    · exact ⟨_, rfl⟩
  | segment buffer sent toSend => exact Or.inl ⟨_, rfl⟩
  | waiting buffer sent toSend =>
    rw [hsender] at h
    obtain ⟨rfl, _, rfl, _, hsmall⟩ := h
    exact Or.inr ⟨sent, rfl, hsmall⟩
  | woken buffer sent toSend =>
    left
    dsimp only
    split
    · exact ⟨_, rfl⟩
    · exact ⟨_, rfl⟩
  | committed buffer sent toSend => exact Or.inl ⟨_, rfl⟩

end Work

/-- Segmentation is exact. When a call of `send` has returned, whatever happened to the connection
meanwhile, the segments that it has sent carry the data, it has returned the size of the data, and
`seq_` has moved by as much. A call that has not returned took at most three steps for each segment
and one for each packet, and can take the next one unless the window has no room for the next
segment. -/
theorem send_segmentation {start final : Sending} {data : List UInt8} {events : List SendEvent}
    (hrun : run step start (.send data :: events) = some final)
    (hcalm : Meets step Undisturbed { start with sender := .loop data 0 } events) :
    (final.sender = .idle →
      (∃ segments, final.transmitted = segments.reverse ++ start.transmitted ∧
        Segmented start.stream.socket.seq data segments) ∧
      final.returned = data.length :: start.returned ∧
      final.stream.socket.seq = start.stream.socket.seq + UInt32.ofNat data.length) ∧
    (final.sender ≠ .idle →
      events.countP isAdvance ≤ 3 * segmentCount data.length + events.countP isPacket ∧
      ((∃ next, final.advance .ok = some next) ∨
        ∃ sent, final.sender = .waiting data sent (nextSize data sent) ∧
          final.stream.socket.remoteWindowSize < nextSize data sent)) := by
  obtain ⟨begun, hsend, hrest⟩ := run_cons_eq_some.mp hrun
  simp only [step, Option.ite_none_right_eq_some, Option.some.injEq] at hsend
  obtain ⟨⟨_, hrange⟩, rfl⟩ := hsend
  have hbegun : During start data { start with sender := .loop data 0 } :=
    ⟨[], rfl, rfl, progress_nil _ _, (UInt32.add_zero _).symm, rfl⟩
  obtain ⟨hduring, hwork⟩ := hbegun.run hrange hcalm hrest
  refine ⟨fun hidle => ?_, fun hrunning => ?_⟩
  · obtain ⟨segments, htransmitted, hpoint⟩ := hduring
    rw [hidle] at hpoint
    exact ⟨⟨segments, htransmitted, hpoint.1.segmented⟩, hpoint.2.2, hpoint.2.1⟩
  · obtain ⟨segments, _, hpoint⟩ := hduring
    have hpositive := hpoint.work_pos hrunning
    refine ⟨?_, hpoint.can_advance hrunning⟩
    have htotal : work (Sender.loop data 0) = 3 * segmentCount data.length + 1 := rfl
    rw [htotal] at hwork
    omega

/-- A call with the data of two segments on a connection whose `seq_` is close to the wrap. It waits
for the window before the second segment, and returns after the peer has raised it. -/
theorem send_segmentation_two_segments : ∃ final segments,
    run step { exampleSending 1480 with stream.socket.seq := 0xffffff00 }
      (.send (List.replicate 1500 7) :: [.advance .ok, .advance .ok, .advance .ok, .advance .ok,
        .advance .ok, .packet 16 (windowSegment 2000) 0, .advance .ok, .advance .ok, .advance .ok]) =
      some final ∧
    final.transmitted = segments.reverse ∧
    Segmented 0xffffff00 (List.replicate 1500 7) segments ∧ final.returned = [1500] ∧
    final.stream.socket.seq = 0xffffff00 + 1500 := by
  have hresult : (run step { exampleSending 1480 with stream.socket.seq := 0xffffff00 }
      (.send (List.replicate 1500 7) :: [.advance .ok, .advance .ok, .advance .ok, .advance .ok,
        .advance .ok, .packet 16 (windowSegment 2000) 0, .advance .ok, .advance .ok,
        .advance .ok])).map Sending.sender = some .idle := by
    decide +kernel
  obtain ⟨final, hrun, hidle⟩ := Option.map_eq_some_iff.mp hresult
  obtain ⟨⟨segments, htransmitted, hsegmented⟩, hreturned, hseq⟩ :=
    (send_segmentation hrun (by decide +kernel)).1 hidle
  rw [List.length_replicate] at hreturned hseq
  exact ⟨final, segments, hrun, htransmitted.trans (List.append_nil _), hsegmented, hreturned, hseq⟩

end Sending

end Otrix.Net
