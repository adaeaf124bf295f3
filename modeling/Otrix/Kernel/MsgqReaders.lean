import Otrix.Kernel.Msgq

/-!
# Many readers of a message queue

Any number of threads are in `read`. A reader lowers the count of the semaphore, or is
handed a permit while it sleeps, before it copies its message out, and in between its
message is still in the ring but not in the count that `write` looks at. When all the
messages of a full ring are claimed that way, `write` takes the ring for empty.

`RingSound` is the invariant of a queue of any capacity with any number of readers. It
lasts as long as no `write` meets a full ring without a permit in the count.
-/

namespace Otrix

open Machine

/-- A `write` that stores its message in the slot of a message that was accepted and not copied
out. The write index starts at slot `0` and moves on with every accepted message, so message number
`k` was stored in slot `k % size`; the messages are copied out in the order of their numbers. -/
def Overwrites (sys : MsgqSystem) : MsgqEvent → Prop
  | .write msg => (sys.q.write msg).1 = true ∧ ∃ k, sys.returned.length ≤ k ∧
      k < sys.accepted.length ∧ k % sys.q.size = sys.q.writeP
  | _ => False

/-- A `write` that finds the ring full of messages that were not copied out finds a permit in the
count: not all of the messages are claimed by readers that have not copied them. -/
def PermitLeft (sys : MsgqSystem) : MsgqEvent → Prop
  | .write _ => sys.accepted.length = sys.returned.length + sys.q.size → sys.q.sem.count ≠ 0
  | _ => True

/-- `PermitLeft` compares numbers of the state. -/
instance (sys : MsgqSystem) (event : MsgqEvent) : Decidable (PermitLeft sys event) := by
  cases event <;> unfold PermitLeft <;> infer_instance

/-- The invariant of a queue with any number of readers. `waiting` are the threads that sleep in
`take`, `granted` the ones that have a permit. A `give` that finds the count at its maximum is lost,
so a message may have no permit, but every permit has its message. -/
structure RingSound (sys : MsgqSystem) (waiting granted : List Nat) : Prop where
  size_pos : 0 < sys.q.size
  stored : Stored sys.q.storage sys.q.msgSize sys.q.size sys.q.writeP sys.q.readP sys.accepted
    sys.returned
  readers : Permits sys.q.sem sys.pc waiting granted
  permits : sys.q.sem.count + granted.length + sys.returned.length ≤ sys.accepted.length

namespace RingSound

variable {sys after : MsgqSystem} {waiting granted : List Nat} {msg : Message}

theorem initial {size : Nat} (msgSize : Nat) (hsize : 1 ≤ size) :
    RingSound (MsgqSystem.initial size msgSize) [] [] where
  size_pos := hsize
  stored := ⟨rfl, Nat.le_refl _, Nat.zero_le _, (Nat.zero_mod _).symm, (Nat.zero_mod _).symm,
    RingBuffer.Window.nil⟩
  readers := .initial size msgSize
  permits := Int.le_refl _

variable (h : RingSound sys waiting granted)
include h

/-- The indices agree when the ring is full of messages that were not copied out. -/
theorem indices_of_full (hfull : sys.accepted.length = sys.returned.length + sys.q.size) :
    sys.q.writeP = sys.q.readP := by
  rw [h.stored.write_p, h.stored.read_p, hfull, Nat.add_mod_right]

/-- A `write` that goes through has room, unless it finds no permit for a full ring. -/
theorem room (hpermit : PermitLeft sys (.write msg))
    (hnotFull : ¬ (sys.q.writeP = sys.q.readP ∧ sys.q.sem.count ≠ 0)) :
    sys.accepted.length < sys.returned.length + sys.q.size := by
  refine Nat.lt_of_le_of_ne h.stored.room fun hfull => ?_
  exact hnotFull ⟨h.indices_of_full hfull, hpermit hfull⟩

/-- Every step keeps the queue sound, when a `write` finds a permit for a full ring. -/
theorem step {event : MsgqEvent}
    (hpermit : PermitLeft sys event) (hstep : sys.step event = some after) :
    ∃ waiting granted, RingSound after waiting granted := by
  obtain ⟨waiting', granted', change, htaken⟩ := h.readers.step hstep
  have hreaders := htaken.permits
  have hpermits := h.permits
  refine ⟨waiting', granted', ?_⟩
  cases htaken.turn with
  | still sem pc hafter _ _ =>
    subst hafter
    have htotal : sem.count + granted'.length = sys.q.sem.count + granted.length + 0 := htaken.total
    refine ⟨h.size_pos, h.stored, hreaders, ?_⟩
    show sem.count + granted'.length + sys.returned.length ≤ sys.accepted.length
    omega
  | copied pc hafter =>
    subst hafter
    have htotal : sys.q.sem.count + granted'.length = sys.q.sem.count + granted.length + -1 :=
      htaken.total
    have hnonneg := h.readers.nonneg
    -- the permit of the reader stands for a message that is still in the ring
    refine ⟨h.size_pos, h.stored.pop (by omega), hreaders, ?_⟩
    show sys.q.sem.count + granted'.length + ((sys.returned ++ [_]).length : Int) ≤
      sys.accepted.length
    rw [List.length_append, List.length_singleton]
    omega
  | written msg sem pc hafter _ _ hlength hnotFull hevent =>
    subst hafter hevent
    have htotal : sem.count + granted'.length = sys.q.sem.count + granted.length +
        if sys.q.sem.count = sys.q.sem.maxCount then 0 else 1 := htaken.total
    refine ⟨h.size_pos, h.stored.push (h.room hpermit hnotFull) hlength, hreaders, ?_⟩
    show sem.count + granted'.length + sys.returned.length ≤ ((sys.accepted ++ [msg]).length : Int)
    rw [List.length_append, List.length_singleton]
    split at htotal <;> omega

/-- A step overwrites a message exactly when it is a `write` that finds no permit for a full
ring. -/
theorem not_overwrites_iff (event : MsgqEvent) :
    ¬ Overwrites sys event ↔ PermitLeft sys event := by
  cases event with
  | write msg =>
    have haccepts : (sys.q.write msg).1 = true ↔
        ¬ (sys.q.writeP = sys.q.readP ∧ sys.q.sem.count ≠ 0) := by
      rw [← sys.q.write_eq_false_iff msg, Bool.not_eq_false]
    constructor
    · -- the slot that a full ring offers is the one of its oldest message
      intro hnot hfull hcount
      refine hnot ⟨haccepts.mpr fun hboth => hboth.2 hcount, sys.returned.length,
        Nat.le_refl _, ?_, ?_⟩
      · have hpos := h.size_pos
        omega
      · rw [← h.stored.read_p, h.indices_of_full hfull]
    · -- with room, the message numbers in the ring are less than a turn apart
      rintro hpermit ⟨hwrite, k, hfirst, hlast, hslot⟩
      have hroom := h.room hpermit (haccepts.mp hwrite)
      rw [h.stored.write_p] at hslot
      exact RingBuffer.mod_ne_mod_of_lt hlast (by omega) hslot
  | take thread => exact iff_of_true (fun h => h) trivial
  | resume thread => exact iff_of_true (fun h => h) trivial
  | copy thread => exact iff_of_true (fun h => h) trivial

end RingSound

/-! ## Whole runs -/

/-- With any number of readers and writers, no `write` of a run stores into the slot of a message
that was not copied out exactly when every `write` that finds the ring full finds a permit in the
count. -/
theorem never_overwrites_iff_permit_left {size : Nat} (msgSize : Nat) (hsize : 1 ≤ size)
    (events : List MsgqEvent) :
    Meets MsgqSystem.step (fun sys event => ¬ Overwrites sys event)
        (MsgqSystem.initial size msgSize) events ↔
      Meets MsgqSystem.step PermitLeft (MsgqSystem.initial size msgSize) events := by
  refine meets_iff_meets (fun sys => ∃ waiting granted, RingSound sys waiting granted)
    ?_ ?_ ⟨[], [], RingSound.initial msgSize hsize⟩
  · rintro sys event ⟨waiting, granted, h⟩
    exact h.not_overwrites_iff event
  · rintro sys event next ⟨waiting, granted, h⟩ hpermit hstep
    exact h.step hpermit hstep

/-- Two readers claim messages of a ring of three, and the writer fills it up behind them. -/
theorem never_overwrites_two_readers :
    Meets MsgqSystem.step (fun sys event => ¬ Overwrites sys event)
      (MsgqSystem.initial 3 1)
      [.take 7, .write [1], .write [2], .take 8, .write [3], .write [4], .resume 7, .copy 8,
        .write [5], .copy 7] :=
  (never_overwrites_iff_permit_left 1 (by decide) _).mpr (by decide +kernel)

/-- In a queue of one message, a reader takes the permit, and a `write` that comes before the copy
stores its message over the first one, which no `read` returns. -/
theorem claimed_message_is_overwritten : ∃ sys final,
    run MsgqSystem.step (MsgqSystem.initial 1 1) [.write [1], .take 7] = some sys ∧
    Overwrites sys (.write [2]) ∧
    run MsgqSystem.step sys [.write [2], .copy 7] = some final ∧
    final.accepted = [[1], [2]] ∧ final.returned = [[2]] := by
  have hresult : ((run MsgqSystem.step (MsgqSystem.initial 1 1) [.write [1], .take 7]).any
      fun sys => (sys.q.write [2]).1 && sys.returned.length == 0 && sys.accepted.length == 1 &&
        sys.q.size == 1 && sys.q.writeP == 0 &&
        (run MsgqSystem.step sys [.write [2], .copy 7]).any fun final =>
          final.accepted == [[1], [2]] && final.returned == [[2]]) = true := by
    decide +kernel
  obtain ⟨sys, hrun, hsys⟩ := Option.any_eq_true .. |>.mp hresult
  simp only [Bool.and_eq_true, beq_iff_eq] at hsys
  obtain ⟨⟨⟨⟨⟨hwrite, hreturned⟩, haccepted⟩, hsize⟩, hindex⟩, hafter⟩ := hsys
  obtain ⟨final, hfinal, hboth⟩ := Option.any_eq_true .. |>.mp hafter
  simp only [Bool.and_eq_true, beq_iff_eq] at hboth
  refine ⟨sys, final, hrun, ⟨hwrite, 0, ?_, ?_, ?_⟩, hfinal, hboth⟩
  · rw [hreturned]
  · rw [haccepted]
    decide
  · rw [hsize, hindex]

end Otrix
