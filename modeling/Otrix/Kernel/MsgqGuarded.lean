import Otrix.Kernel.Msgq

/-!
# Writers that ask whether the queue is full

`rx_handler` and `accept_connection` call `full` before they call `write`. `full`
compares the count of the semaphore with the capacity, `write` compares the indices.
A reader that has taken its permit and has not copied its message is missing in the
count, but its message is still in the ring: then the queue is not full, and `write`
refuses.

With one reader at a time, every capacity and every message size, the two tests
disagree in this situation only. A queue of one message cannot be in it: `write` takes
the ring for empty when the count is zero.
-/

namespace Otrix

open RingBuffer

/-- A writer calls `full` and, unless the queue is full, `write`, in one region. -/
def MsgqSystem.guarded (sys : MsgqSystem) : MsgqEvent → Option MsgqSystem
  | .write msg => if sys.q.full then some sys else sys.step (.write msg)
  | .take thread => sys.step (.take thread)
  | .resume thread => sys.step (.resume thread)
  | .copy thread => sys.step (.copy thread)

/-- A queue that is not full accepts the message. -/
def AcceptsUnlessFull (sys : MsgqSystem) : MsgqEvent → Prop
  | .write msg => ¬ sys.q.full → (sys.q.write msg).1 = true
  | _ => True

/-- A queue of two or more messages that is not full has a free slot. -/
def RoomUnlessFull (sys : MsgqSystem) : MsgqEvent → Prop
  | .write _ => ¬ sys.q.full → 2 ≤ sys.q.size →
      sys.accepted.length ≠ sys.returned.length + sys.q.size
  | _ => True

instance (sys : MsgqSystem) : (event : MsgqEvent) → Decidable (RoomUnlessFull sys event)
  | .write _ => inferInstanceAs (Decidable (_ → _ → _))
  | .take _ => isTrue trivial
  | .resume _ => isTrue trivial
  | .copy _ => isTrue trivial

/-- The invariant of a queue with one reader at a time and a writer that looks at `full` first. The
capacity may be any `size_t`. -/
structure GuardSound (size : Nat) (sys : MsgqSystem) (waiting granted : List Nat) : Prop where
  size_eq : sys.q.size = size
  max_eq : sys.q.sem.maxCount = toInt size
  write_p : sys.q.writeP = sys.accepted.length % size
  read_p : sys.q.readP = sys.returned.length % size
  room : 2 ≤ size → sys.accepted.length ≤ sys.returned.length + size
  small : size ≤ 1 → sys.q.sem.count ≤ size
  readers : Permits sys.q.sem sys.pc waiting granted
  single : SingleReader sys.pc
  permits : sys.q.sem.count + granted.length + sys.returned.length = sys.accepted.length

namespace GuardSound

variable {size : Nat} {sys after : MsgqSystem} {waiting granted : List Nat}

theorem initial (size msgSize : Nat) : GuardSound size (MsgqSystem.initial size msgSize) [] [] where
  size_eq := rfl
  max_eq := rfl
  write_p := (Nat.zero_mod _).symm
  read_p := (Nat.zero_mod _).symm
  room := fun _ => Nat.zero_le _
  small := fun _ => Int.natCast_nonneg _
  readers := .initial size msgSize
  single := fun _ _ hfirst => absurd rfl hfirst
  permits := rfl

section

variable (h : GuardSound size sys waiting granted)
include h

/-- A full ring is refused: at most one of its messages has no permit in the count. -/
theorem refuses_full_ring (hsize : 2 ≤ size)
    (hfull : sys.accepted.length = sys.returned.length + size) :
    sys.q.writeP = sys.q.readP ∧ sys.q.sem.count ≠ 0 := by
  have hgranted := h.readers.length_le_one h.single
  have hpermits := h.permits
  refine ⟨?_, by omega⟩
  rw [h.write_p, h.read_p, hfull, Nat.add_mod_right]

/-- A queue that is not full refuses a message exactly if its ring is full. -/
theorem refuses_iff (hnot : ¬ sys.q.full) :
    sys.q.writeP = sys.q.readP ∧ sys.q.sem.count ≠ 0 ↔
      2 ≤ size ∧ sys.accepted.length = sys.returned.length + size := by
  have hnonneg := h.readers.nonneg
  have hpermits := h.permits
  constructor
  · rintro ⟨hindex, hcount⟩
    have hsize : 2 ≤ size := by
      by_contra hsmall
      -- the count is `0` or the capacity
      have hle := h.small (by omega)
      have hint : toInt sys.q.size = size := by
        rw [h.size_eq]
        exact toInt_of_lt (by omega)
      exact hnot (show sys.q.sem.count = toInt sys.q.size by omega)
    refine ⟨hsize, ?_⟩
    by_contra hne
    have hroom := h.room hsize
    rw [h.write_p, h.read_p] at hindex
    exact mod_ne_mod_of_lt (by omega) (by omega) hindex.symm
  · rintro ⟨hsize, hfull⟩
    exact h.refuses_full_ring hsize hfull

/-- `write` agrees with `full` exactly if the ring has a free slot. -/
theorem accepts_iff (event : MsgqEvent) :
    AcceptsUnlessFull sys event ↔ RoomUnlessFull sys event := by
  cases event with
  | write msg =>
    refine forall_congr' fun hnot => ?_
    rw [← Bool.not_eq_false, sys.q.write_eq_false_iff msg, h.refuses_iff hnot, h.size_eq, not_and]
  | take thread => exact Iff.rfl
  | resume thread => exact Iff.rfl
  | copy thread => exact Iff.rfl

/-- When the ring is full, `full` returns false exactly while the reader has a permit and has not
copied its message. -/
theorem not_full_iff_reader (hint : size < 2 ^ 31)
    (hfull : sys.accepted.length = sys.returned.length + size) :
    ¬ sys.q.full ↔ ∃ thread, sys.pc thread = .awake ∨ sys.pc thread = .taken := by
  have hpermits := h.permits
  have hcount : sys.q.full ↔ granted = [] := by
    unfold Msgq.full
    rw [h.size_eq, toInt_of_lt hint, ← List.length_eq_zero_iff]
    omega
  rw [hcount, List.eq_nil_iff_forall_not_mem]
  simp only [h.readers.mem_iff, not_forall, not_not]

end

/-- The writer finds the queue full, or a step is taken. -/
theorem guarded_cases {event : MsgqEvent} (hstep : sys.guarded event = some after) :
    after = sys ∨ sys.step event = some after ∧ ∀ msg, event = .write msg → ¬ sys.q.full := by
  cases event with
  | write msg =>
    simp only [MsgqSystem.guarded] at hstep
    split at hstep
    · exact Or.inl (Option.some.inj hstep).symm
    · next hnot => exact Or.inr ⟨hstep, fun _ _ => hnot⟩
  | take thread => exact Or.inr ⟨hstep, nofun⟩
  | resume thread => exact Or.inr ⟨hstep, nofun⟩
  | copy thread => exact Or.inr ⟨hstep, nofun⟩

/-- Every step keeps the queue sound, when a reader comes in only while no other is there. -/
theorem step {event : MsgqEvent} (h : GuardSound size sys waiting granted)
    (hone : OneReader sys event) (hguarded : sys.guarded event = some after) :
    ∃ waiting granted, GuardSound size after waiting granted := by
  rcases guarded_cases hguarded with rfl | ⟨hstep, hguard⟩
  · exact ⟨waiting, granted, h⟩
  obtain ⟨waiting', granted', change, htaken⟩ := h.readers.step hstep
  have hreaders := htaken.permits
  have hsingle := h.single.step hone htaken.busy
  have hpermits := h.permits
  refine ⟨waiting', granted', ?_⟩
  cases htaken.turn with
  | still sem pc hafter hmax hcount =>
    subst hafter
    have htotal : sem.count + granted'.length = sys.q.sem.count + granted.length + 0 := htaken.total
    refine ⟨h.size_eq, hmax.trans h.max_eq, h.write_p, h.read_p, h.room,
      fun hsmall => Int.le_trans hcount (h.small hsmall), hreaders, hsingle, ?_⟩
    show sem.count + granted'.length + sys.returned.length = sys.accepted.length
    omega
  | copied pc hafter =>
    subst hafter
    have htotal : sys.q.sem.count + granted'.length = sys.q.sem.count + granted.length + -1 :=
      htaken.total
    have hreturned : (sys.returned ++ [sys.q.copyOut.1]).length = sys.returned.length + 1 := by
      rw [List.length_append, List.length_singleton]
    refine ⟨h.size_eq, h.max_eq, h.write_p, ?_, fun hsize => ?_, h.small, hreaders,
      hsingle, ?_⟩
    · show (sys.q.readP + 1) % sys.q.size = (sys.returned ++ [sys.q.copyOut.1]).length % size
      rw [h.read_p, h.size_eq, hreturned, Nat.mod_add_mod]
    · have hroom := h.room hsize
      show sys.accepted.length ≤ (sys.returned ++ [sys.q.copyOut.1]).length + size
      omega
    · show sys.q.sem.count + granted'.length + ((sys.returned ++ [sys.q.copyOut.1]).length : Int) =
        sys.accepted.length
      omega
  | written msg sem pc hafter hmax hcount _ hnotFull hevent =>
    subst hafter
    have hbelow : sys.q.sem.count ≠ toInt sys.q.size := hguard msg hevent
    have haccepted : (sys.accepted ++ [msg]).length = sys.accepted.length + 1 := by
      rw [List.length_append, List.length_singleton]
    have htotal : sem.count + granted'.length = sys.q.sem.count + granted.length +
        if sys.q.sem.count = sys.q.sem.maxCount then 0 else 1 := htaken.total
    rw [h.max_eq, ← h.size_eq, if_neg hbelow] at htotal
    refine ⟨h.size_eq, hmax.trans h.max_eq, ?_, h.read_p, fun hsize => ?_, fun hsmall => ?_,
      hreaders, hsingle, ?_⟩
    · show (sys.q.writeP + 1) % sys.q.size = (sys.accepted ++ [msg]).length % size
      rw [h.write_p, h.size_eq, haccepted, Nat.mod_add_mod]
    · have hroom := h.room hsize
      have hne : sys.accepted.length ≠ sys.returned.length + size :=
        fun hfull => hnotFull (h.refuses_full_ring hsize hfull)
      show (sys.accepted ++ [msg]).length ≤ sys.returned.length + size
      omega
    · have hle := h.small hsmall
      rw [h.size_eq, toInt_of_lt (by omega)] at hbelow
      show sem.count ≤ size
      omega
    · show sem.count + granted'.length + sys.returned.length =
        ((sys.accepted ++ [msg]).length : Int)
      omega

end GuardSound

end Otrix
