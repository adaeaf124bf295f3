import Otrix.Kernel.Semaphore
import Otrix.Foundation.RingBuffer

/-!
# The message queue of `kernel/msgq.cpp`

A ring of messages in a byte array, with a semaphore that counts them. `read` takes
a permit and copies a message out in a second step; `write` is one step. The number
of messages is not stored: `write` takes the queue for full when the two indices
agree and the count is not zero, although a reader lowers the count before it moves
the read index.

`FifoSound` relates the indices and the count to the messages that were accepted and
not copied out, for one reader at a time and a capacity that the `int` of the
semaphore can hold. The array has the size that the constructor asks for.
-/

namespace Otrix

open Function Machine RingBuffer

/-- A message, as the bytes that are copied. -/
abbrev Message := List UInt8

/-- The value of a `size_t` after conversion to `int`. -/
def toInt (value : Nat) : Int :=
  if value % 2 ^ 32 < 2 ^ 31 then (value % 2 ^ 32 : Nat) else (value % 2 ^ 32 : Nat) - 2 ^ 32

theorem toInt_of_lt {size : Nat} (h : size < 2 ^ 31) : toInt size = size := by
  unfold toInt
  rw [Nat.mod_eq_of_lt (by omega), if_pos h]

/-- `msgq`. -/
structure Msgq where
  storage : Nat → UInt8
  readP : Nat
  writeP : Nat
  size : Nat
  msgSize : Nat
  sem : Semaphore

namespace Msgq

/-- The constructor. -/
def initial (size msgSize : Nat) : Msgq where
  storage := fun _ => 0
  readP := 0
  writeP := 0
  size := size
  msgSize := msgSize
  sem := Semaphore.initial (toInt size) 0

/-- The bytes of the slot with this index. -/
def slot (storage : Nat → UInt8) (msgSize index : Nat) : Message :=
  (List.range msgSize).map fun i => storage (index * msgSize + i)

/-- `memcpy` of a message into the slot with this index. -/
def copyIn (storage : Nat → UInt8) (msgSize index : Nat) (msg : Message) : Nat → UInt8 :=
  fun address =>
    if index * msgSize ≤ address ∧ address < index * msgSize + msgSize
    then msg.getD (address - index * msgSize) 0 else storage address

/-- The region of `read` that copies a message out. -/
def copyOut (q : Msgq) : Message × Msgq :=
  (slot q.storage q.msgSize q.readP, { q with readP := (q.readP + 1) % q.size })

/-- `write`: whether the message was accepted, and the reader that it wakes. -/
def write (q : Msgq) (msg : Message) : Bool × Option Nat × Msgq :=
  if q.writeP = q.readP ∧ q.sem.count ≠ 0 then (false, none, q)
  else
    let (woken, sem) := q.sem.give
    (true, woken, { q with
      storage := copyIn q.storage q.msgSize q.writeP msg
      writeP := (q.writeP + 1) % q.size
      sem := sem })

/-- `full`. -/
def full (q : Msgq) : Prop :=
  q.sem.count = toInt q.size
  deriving Decidable

/-- `write` refuses a message when the indices agree and the count is not zero. -/
theorem write_eq_false_iff (q : Msgq) (msg : Message) :
    (q.write msg).1 = false ↔ q.writeP = q.readP ∧ q.sem.count ≠ 0 := by
  unfold write
  by_cases hfull : q.writeP = q.readP ∧ q.sem.count ≠ 0
  · rw [if_pos hfull]
    exact iff_of_true rfl hfull
  · rw [if_neg hfull]
    exact iff_of_false nofun hfull

/-- A slot holds the message that was copied into it, and the other slots are not touched. -/
theorem slot_copyIn (storage : Nat → UInt8) {msgSize : Nat} (index : Nat) {msg : Message}
    (hlength : msg.length = msgSize) :
    slot (copyIn storage msgSize index msg) msgSize =
      update (slot storage msgSize) index msg := by
  funext other
  by_cases heq : other = index
  · rw [heq, update_self]
    refine List.ext_getElem (by simp [slot, hlength]) fun i hi hmsg => ?_
    simp only [slot, List.getElem_map, List.getElem_range, copyIn]
    rw [if_pos ⟨by omega, by omega⟩, Nat.add_sub_cancel_left, List.getD_eq_getElem?_getD,
      List.getElem?_eq_getElem hmsg]
    rfl
  · rw [update_of_ne heq]
    refine List.map_congr_left fun i hi => ?_
    have hlt := List.mem_range.mp hi
    refine if_neg fun hinside => heq ?_
    -- the two slots are multiples of the message size apart
    have hfirst : other < index + 1 := by
      by_contra hge
      have := Nat.mul_le_mul_right msgSize (Nat.le_of_not_lt hge)
      rw [Nat.succ_mul] at this
      omega
    have hsecond : index < other + 1 := by
      by_contra hge
      have := Nat.mul_le_mul_right msgSize (Nat.le_of_not_lt hge)
      rw [Nat.succ_mul] at this
      omega
    omega

end Msgq

/-- Where a thread is in `read`. -/
inductive ReadPc where
  /-- Outside. -/
  | idle
  /-- Blocked in `take`. -/
  | sleeping
  /-- Released, still in `take`. -/
  | awake
  /-- Between `take` and the copy. -/
  | taken
  deriving DecidableEq

/-- A message queue and its readers, with the messages that `write` has accepted and those that
`read` has returned. -/
structure MsgqSystem where
  q : Msgq
  pc : Nat → ReadPc
  accepted : List Message
  returned : List Message

/-- The steps: `take` without a timeout, the return from it, the copy, and a whole `write` by a
thread or an interrupt handler. -/
inductive MsgqEvent where
  | take (thread : Nat)
  | resume (thread : Nat)
  | copy (thread : Nat)
  | write (msg : Message)
  deriving DecidableEq

namespace MsgqSystem

/-- A thread moves on. -/
def goto (sys : MsgqSystem) (thread : Nat) (pc : ReadPc) : MsgqSystem :=
  { sys with pc := Function.update sys.pc thread pc }

/-- A call of `write`. `wake` refuses a thread that is not blocked. -/
def write (sys : MsgqSystem) (msg : Message) : MsgqSystem :=
  match sys.q.write msg with
  | (false, _, q) => { sys with q := q }
  | (true, none, q) => { sys with q := q, accepted := sys.accepted ++ [msg] }
  | (true, some thread, q) =>
    let sys := { sys with q := q, accepted := sys.accepted ++ [msg] }
    if sys.pc thread = .sleeping then sys.goto thread .awake else sys

/-- One step. -/
def step (sys : MsgqSystem) : MsgqEvent → Option MsgqSystem
  | .take thread =>
    if thread ≠ 0 ∧ sys.pc thread = .idle then
      match sys.q.sem.take thread (2 ^ 64 - 1) with
      | (.returned true, sem) => some ({ sys with q := { sys.q with sem := sem } }.goto thread .taken)
      | (.returned false, sem) => some { sys with q := { sys.q with sem := sem } }
      | (.blocked, sem) => some ({ sys with q := { sys.q with sem := sem } }.goto thread .sleeping)
    else none
  | .resume thread =>
    if sys.pc thread = .awake then
      if sys.q.sem.waitingQueue.wakeupSuccessful thread then some (sys.goto thread .taken)
      else some (sys.goto thread .idle)
    else none
  | .copy thread =>
    if sys.pc thread = .taken then
      let (msg, q) := sys.q.copyOut
      some ({ sys with q := q, returned := sys.returned ++ [msg] }.goto thread .idle)
    else none
  | .write msg => if msg.length = sys.q.msgSize then some (sys.write msg) else none

/-- A new queue, which no thread uses. -/
def initial (size msgSize : Nat) : MsgqSystem where
  q := Msgq.initial size msgSize
  pc := fun _ => .idle
  accepted := []
  returned := []

variable {sys after : MsgqSystem} {msg : Message}

/-- A `take` gets a permit from the count, or finds none and blocks. -/
theorem step_take {thread : Nat} (hstep : sys.step (.take thread) = some after) :
    thread ≠ 0 ∧ sys.pc thread = .idle ∧
      ((sys.q.sem.count = 0 ∧ after = { sys with q := { sys.q with sem := { sys.q.sem with
          waitingQueue := sys.q.sem.waitingQueue.enqueue thread } } }.goto thread .sleeping) ∨
        (sys.q.sem.count ≠ 0 ∧ after = { sys with q := { sys.q with sem := { sys.q.sem with
          count := sys.q.sem.count - 1 } } }.goto thread .taken)) := by
  simp only [step, Option.ite_none_right_eq_some] at hstep
  obtain ⟨⟨hthread, hidle⟩, hstep⟩ := hstep
  refine ⟨hthread, hidle, ?_⟩
  unfold Semaphore.take at hstep
  by_cases hcount : sys.q.sem.count = 0
  · rw [if_pos hcount, if_pos (by decide), Option.some.injEq] at hstep
    exact Or.inl ⟨hcount, hstep.symm⟩
  · rw [if_neg hcount, Option.some.injEq] at hstep
    exact Or.inr ⟨hcount, hstep.symm⟩

theorem write_of_full (hfull : sys.q.writeP = sys.q.readP ∧ sys.q.sem.count ≠ 0) :
    sys.write msg = sys := by
  unfold write Msgq.write
  rw [if_pos hfull]

section

variable (hnotFull : ¬ (sys.q.writeP = sys.q.readP ∧ sys.q.sem.count ≠ 0))
include hnotFull

/-- A `write` whose permit is lost, because the count is at its maximum. -/
theorem write_of_max (hmax : sys.q.sem.count = sys.q.sem.maxCount) :
    sys.write msg = { sys with
      q := { sys.q with
        storage := Msgq.copyIn sys.q.storage sys.q.msgSize sys.q.writeP msg
        writeP := (sys.q.writeP + 1) % sys.q.size }
      accepted := sys.accepted ++ [msg] } := by
  unfold write Msgq.write
  rw [if_neg hnotFull, Semaphore.give_of_full hmax]

/-- A `write` while nobody waits: its permit goes into the count. -/
theorem write_of_idle (hqueue : sys.q.sem.waitingQueue.Holds [])
    (hbelow : sys.q.sem.count ≠ sys.q.sem.maxCount) :
    sys.write msg = { sys with
      q := { sys.q with
        storage := Msgq.copyIn sys.q.storage sys.q.msgSize sys.q.writeP msg
        writeP := (sys.q.writeP + 1) % sys.q.size
        sem := { sys.q.sem with count := sys.q.sem.count + 1 } }
      accepted := sys.accepted ++ [msg] } := by
  unfold write Msgq.write
  rw [if_neg hnotFull, Semaphore.give_of_idle hqueue hbelow]

/-- A `write` while a reader waits: the reader gets its permit. -/
theorem write_of_waiting {waiter : Nat} {queue : Waitq} (hempty : sys.q.sem.count = 0)
    (hbelow : sys.q.sem.count ≠ sys.q.sem.maxCount)
    (hdequeue : sys.q.sem.waitingQueue.dequeue = some (waiter, queue))
    (hsleeping : sys.pc waiter = .sleeping) :
    sys.write msg = { sys with
      q := { sys.q with
        storage := Msgq.copyIn sys.q.storage sys.q.msgSize sys.q.writeP msg
        writeP := (sys.q.writeP + 1) % sys.q.size
        sem := { sys.q.sem with waitingQueue := queue } }
      pc := update sys.pc waiter .awake
      accepted := sys.accepted ++ [msg] } := by
  unfold write Msgq.write
  rw [if_neg hnotFull, Semaphore.give_of_waiting hempty hbelow hdequeue]
  exact if_pos hsleeping

end

end MsgqSystem

/-! ## The permits -/

/-- Who sleeps in `take`, and who has a permit and has not copied its message. -/
structure Permits (sem : Semaphore) (pc : Nat → ReadPc) (waiting granted : List Nat) : Prop where
  mem_iff : ∀ thread, thread ∈ granted ↔ pc thread = .awake ∨ pc thread = .taken
  nodup : granted.Nodup
  waiters : Waiters sem.waitingQueue waiting pc .sleeping .awake
  waiting_nil : sem.count ≠ 0 → waiting = []
  nonneg : 0 ≤ sem.count

/-- What a step does to the ring and to the histories, with the permits that it adds. -/
inductive MsgqSystem.Turn (sys : MsgqSystem) (event : MsgqEvent) (after : MsgqSystem) :
    Int → Prop where
  /-- A reader moves on, or a message is refused. -/
  | still (sem : Semaphore) (pc : Nat → ReadPc)
      (hafter : after = { sys with q := { sys.q with sem := sem }, pc := pc })
      (hmax : sem.maxCount = sys.q.sem.maxCount) (hcount : sem.count ≤ sys.q.sem.count) :
      Turn sys event after 0
  /-- A reader copies a message out. -/
  | copied (pc : Nat → ReadPc)
      (hafter : after = { sys with
        q := sys.q.copyOut.2, returned := sys.returned ++ [sys.q.copyOut.1], pc := pc }) :
      Turn sys event after (-1)
  /-- A message is accepted. Its permit is lost if the count is at its maximum. -/
  | written (msg : Message) (sem : Semaphore) (pc : Nat → ReadPc)
      (hafter : after = { sys with
        q := { sys.q with
          storage := Msgq.copyIn sys.q.storage sys.q.msgSize sys.q.writeP msg
          writeP := (sys.q.writeP + 1) % sys.q.size
          sem := sem }
        pc := pc
        accepted := sys.accepted ++ [msg] })
      (hmax : sem.maxCount = sys.q.sem.maxCount) (hcount : sem.count ≤ sys.q.sem.count + 1)
      (hlength : msg.length = sys.q.msgSize)
      (hnotFull : ¬ (sys.q.writeP = sys.q.readP ∧ sys.q.sem.count ≠ 0))
      (hevent : event = .write msg) :
      Turn sys event after (if sys.q.sem.count = sys.q.sem.maxCount then 0 else 1)

namespace Permits

variable {sem : Semaphore} {pc : Nat → ReadPc} {waiting granted : List Nat} {thread : Nat}

section

variable (h : Permits sem pc waiting granted)
include h

/-- A thread moves, and the threads with a permit are as given. -/
theorem move {point : ReadPc} {waiting' granted' : List Nat} {sem' : Semaphore}
    (hwaiters : Waiters sem'.waitingQueue waiting' (update pc thread point) .sleeping .awake)
    (hself : thread ∈ granted' ↔ point = .awake ∨ point = .taken)
    (hothers : ∀ other, other ≠ thread → (other ∈ granted' ↔ other ∈ granted))
    (hnodup : granted'.Nodup) (hnil : sem'.count ≠ 0 → waiting' = []) (hnonneg : 0 ≤ sem'.count) :
    Permits sem' (update pc thread point) waiting' granted' :=
  ⟨mem_iff_update (P := fun pc : ReadPc => pc = .awake ∨ pc = .taken) h.mem_iff hself hothers,
    hnodup, hwaiters, hnil, hnonneg⟩

theorem take (hidle : pc thread = .idle) (hcount : sem.count ≠ 0) :
    Permits { sem with count := sem.count - 1 } (update pc thread .taken) waiting
      (thread :: granted) := by
  have hnot : thread ∉ granted := by
    rw [h.mem_iff, hidle]
    simp
  have hnonneg := h.nonneg
  refine h.move (h.waiters.outside (by rw [hidle]; simp) (by simp) (by simp)) (by simp)
    (fun other hne => ?_) (List.nodup_cons.mpr ⟨hnot, h.nodup⟩) (fun _ => h.waiting_nil hcount) ?_
  · rw [List.mem_cons, or_iff_right hne]
  · show 0 ≤ sem.count - 1
    omega

theorem wait (hthread : thread ≠ 0) (hidle : pc thread = .idle) (hcount : sem.count = 0) :
    Permits { sem with waitingQueue := sem.waitingQueue.enqueue thread }
      (update pc thread .sleeping) (thread :: waiting) granted := by
  have hnot : thread ∉ granted := by
    rw [h.mem_iff, hidle]
    simp
  exact h.move (h.waiters.enqueue hthread (by rw [hidle]; simp) (by simp)) (by simp [hnot])
    (fun _ _ => Iff.rfl) h.nodup (fun hne => absurd hcount hne) h.nonneg

theorem resume (hawake : pc thread = .awake) :
    Permits sem (update pc thread .taken) waiting granted := by
  have hmem : thread ∈ granted := (h.mem_iff thread).mpr (Or.inl hawake)
  exact h.move (h.waiters.outside (by rw [hawake]; simp) (by simp) (by simp)) (by simp [hmem])
    (fun _ _ => Iff.rfl) h.nodup h.waiting_nil h.nonneg

theorem copy (htaken : pc thread = .taken) :
    Permits sem (update pc thread .idle) waiting (granted.erase thread) := by
  refine h.move (h.waiters.outside (by rw [htaken]; simp) (by simp) (by simp)) ?_
    (fun other hne => ?_) (h.nodup.erase thread) h.waiting_nil h.nonneg
  · simp [h.nodup.mem_erase_iff]
  · rw [h.nodup.mem_erase_iff, and_iff_right hne]

end

theorem give (h : Permits sem pc [] granted) :
    Permits { sem with count := sem.count + 1 } pc [] granted :=
  ⟨h.mem_iff, h.nodup, h.waiters, fun _ => rfl, Int.le_add_one h.nonneg⟩

theorem pass {waiter : Nat} {rest : List Nat} (h : Permits sem pc (waiter :: rest) granted) :
    ∃ queue, sem.waitingQueue.dequeue = some (waiter, queue) ∧ sem.count = 0 ∧
      pc waiter = .sleeping ∧ Permits { sem with waitingQueue := queue }
        (update pc waiter .awake) rest (waiter :: granted) := by
  have hempty : sem.count = 0 := by
    by_contra hne
    cases h.waiting_nil hne
  have hsleeping : pc waiter = .sleeping := (h.waiters.mem_iff waiter).mp (by simp)
  have hnot : waiter ∉ granted := by
    rw [h.mem_iff, hsleeping]
    simp
  obtain ⟨queue, hdequeue, hwaiters⟩ := h.waiters.dequeue (by simp)
  refine ⟨queue, hdequeue, hempty, hsleeping, h.move hwaiters (by simp) (fun other hne => ?_)
    (List.nodup_cons.mpr ⟨hnot, h.nodup⟩) (fun hne => absurd hempty hne) h.nonneg⟩
  rw [List.mem_cons, or_iff_right hne]

/-- No thread is in `read` of a new queue. -/
theorem initial (size msgSize : Nat) :
    Permits (MsgqSystem.initial size msgSize).q.sem (MsgqSystem.initial size msgSize).pc [] [] :=
  ⟨by simp [MsgqSystem.initial], List.nodup_nil, ⟨Waitq.holds_initial,
    by simp [MsgqSystem.initial], by simp [MsgqSystem.initial]⟩, fun _ => rfl, Int.le_refl _⟩

end Permits

/-- What a step leaves behind: the permits, what it did to the ring, and the threads that are in
`read`. -/
structure MsgqSystem.Taken (sys : MsgqSystem) (event : MsgqEvent) (after : MsgqSystem)
    (granted waiting' granted' : List Nat) (change : Int) : Prop where
  permits : Permits after.q.sem after.pc waiting' granted'
  turn : sys.Turn event after change
  total : after.q.sem.count + granted'.length = sys.q.sem.count + granted.length + change
  busy : ∀ thread, after.pc thread ≠ .idle → sys.pc thread ≠ .idle ∨ event = .take thread

theorem busy_update {pc : Nat → ReadPc} {point : ReadPc} {thread : Nat} {comesIn : Nat → Prop}
    (hthread : pc thread ≠ .idle ∨ comesIn thread) (other : Nat)
    (hbusy : update pc thread point other ≠ .idle) : pc other ≠ .idle ∨ comesIn other := by
  by_cases heq : other = thread
  · rw [heq]
    exact hthread
  · rw [update_of_ne heq] at hbusy
    exact Or.inl hbusy

section

variable {sys after : MsgqSystem} {waiting granted : List Nat}

theorem Permits.write_step {msg : Message} (h : Permits sys.q.sem sys.pc waiting granted)
    (hlength : msg.length = sys.q.msgSize) :
    ∃ waiting' granted' change,
      sys.Taken (.write msg) (sys.write msg) granted waiting' granted' change := by
  by_cases hfull : sys.q.writeP = sys.q.readP ∧ sys.q.sem.count ≠ 0
  · rw [MsgqSystem.write_of_full hfull]
    exact ⟨waiting, granted, 0, h, .still _ _ rfl rfl (Int.le_refl _), (Int.add_zero _).symm,
      fun _ hbusy => Or.inl hbusy⟩
  by_cases hmax : sys.q.sem.count = sys.q.sem.maxCount
  · rw [MsgqSystem.write_of_max hfull hmax]
    refine ⟨waiting, granted, _, h, .written msg _ _ rfl rfl (Int.le_add_one (Int.le_refl _)) hlength
      hfull rfl, ?_, fun _ hbusy => Or.inl hbusy⟩
    rw [if_pos hmax, Int.add_zero]
  cases waiting with
  | nil =>
    rw [MsgqSystem.write_of_idle hfull h.waiters.queue hmax]
    refine ⟨[], granted, _, h.give, .written msg _ _ rfl rfl (Int.le_refl _) hlength hfull rfl, ?_,
      fun _ hbusy => Or.inl hbusy⟩
    rw [if_neg hmax]
    exact Int.add_right_comm _ _ _
  | cons waiter rest =>
    obtain ⟨queue, hdequeue, hempty, hsleeping, hpermits⟩ := h.pass
    rw [MsgqSystem.write_of_waiting hfull hempty hmax hdequeue hsleeping]
    refine ⟨rest, waiter :: granted, _, hpermits,
      .written msg _ _ rfl rfl (Int.le_add_one (Int.le_refl _)) hlength hfull rfl, ?_,
      busy_update (Or.inl (by rw [hsleeping]; simp))⟩
    rw [if_neg hmax, List.length_cons]
    show sys.q.sem.count + ((granted.length + 1 : Nat) : Int) = _
    omega

/-- What each step does to the permits of the semaphore. -/
theorem Permits.step {event : MsgqEvent} (h : Permits sys.q.sem sys.pc waiting granted)
    (hstep : sys.step event = some after) :
    ∃ waiting' granted' change, sys.Taken event after granted waiting' granted' change := by
  cases event with
  | take thread =>
    obtain ⟨hthread, hidle, ⟨hcount, rfl⟩ | ⟨hcount, rfl⟩⟩ := MsgqSystem.step_take hstep
    · exact ⟨_, _, 0, h.wait hthread hidle hcount, .still _ _ rfl rfl (Int.le_refl _),
        (Int.add_zero _).symm, busy_update (Or.inr rfl)⟩
    · refine ⟨_, _, 0, h.take hidle hcount, .still _ _ rfl rfl (Int.sub_le_self _ (by decide)), ?_,
        busy_update (Or.inr rfl)⟩
      rw [List.length_cons]
      show sys.q.sem.count - 1 + ((granted.length + 1 : Nat) : Int) = _
      omega
  | resume thread =>
    simp only [MsgqSystem.step, Option.ite_none_right_eq_some] at hstep
    obtain ⟨hawake, hstep⟩ := hstep
    rw [if_pos (h.waiters.notified thread hawake), Option.some.injEq] at hstep
    subst hstep
    exact ⟨_, _, 0, h.resume hawake, .still _ _ rfl rfl (Int.le_refl _), (Int.add_zero _).symm,
      busy_update (Or.inl (by rw [hawake]; simp))⟩
  | copy thread =>
    simp only [MsgqSystem.step, Option.ite_none_right_eq_some, Option.some.injEq] at hstep
    obtain ⟨htaken, rfl⟩ := hstep
    have hmem : thread ∈ granted := (h.mem_iff thread).mpr (Or.inr htaken)
    have hpos := List.length_pos_of_mem hmem
    refine ⟨_, _, -1, h.copy htaken, .copied _ rfl, ?_,
      busy_update (Or.inl (by rw [htaken]; simp))⟩
    rw [List.length_erase_of_mem hmem]
    show sys.q.sem.count + ((granted.length - 1 : Nat) : Int) = _
    omega
  | write msg =>
    simp only [MsgqSystem.step, Option.ite_none_right_eq_some, Option.some.injEq] at hstep
    obtain ⟨hlength, rfl⟩ := hstep
    exact h.write_step hlength

end

/-! ## One reader at a time -/

/-- A thread enters `read` only when no other thread is in it. -/
def OneReader (sys : MsgqSystem) : MsgqEvent → Prop
  | .take thread => ∀ other, other ≠ thread → sys.pc other = .idle
  | _ => True

/-- The ring holds the accepted messages that were not returned. -/
structure Stored (storage : Nat → UInt8) (msgSize size writeP readP : Nat)
    (accepted returned : List Message) : Prop where
  returned_eq : returned = accepted.take returned.length
  returned_le : returned.length ≤ accepted.length
  room : accepted.length ≤ returned.length + size
  write_p : writeP = accepted.length % size
  read_p : readP = returned.length % size
  window : Window (Msgq.slot storage msgSize) size accepted returned.length

/-- At most one thread is in `read`. -/
def SingleReader (pc : Nat → ReadPc) : Prop :=
  ∀ first second, pc first ≠ .idle → pc second ≠ .idle → first = second

/-- The invariant of a queue with one reader at a time. `waiting` are the threads that sleep in
`take`. -/
structure FifoSound (size : Nat) (sys : MsgqSystem) (waiting granted : List Nat) : Prop where
  size_ge : 2 ≤ size
  size_eq : sys.q.size = size
  max_eq : sys.q.sem.maxCount = sys.q.size
  stored : Stored sys.q.storage sys.q.msgSize sys.q.size sys.q.writeP sys.q.readP sys.accepted
    sys.returned
  readers : Permits sys.q.sem sys.pc waiting granted
  single : SingleReader sys.pc
  /-- Every message that was not copied out has a permit. -/
  permits : sys.q.sem.count + granted.length + sys.returned.length = sys.accepted.length

section

variable {storage : Nat → UInt8} {msgSize size writeP readP : Nat} {accepted returned : List Message}

theorem Stored.push (h : Stored storage msgSize size writeP readP accepted returned)
    (hroom : accepted.length < returned.length + size) {msg : Message}
    (hlength : msg.length = msgSize) :
    Stored (Msgq.copyIn storage msgSize writeP msg) msgSize size ((writeP + 1) % size) readP
      (accepted ++ [msg]) returned := by
  have haccepted : (accepted ++ [msg]).length = accepted.length + 1 := by simp
  refine ⟨?_, ?_, ?_, ?_, h.read_p, ?_⟩
  · rw [List.take_append_of_le_length h.returned_le]
    exact h.returned_eq
  · rw [haccepted]
    exact Nat.le_succ_of_le h.returned_le
  · rw [haccepted]
    exact hroom
  · rw [haccepted, h.write_p, Nat.mod_add_mod]
  · rw [Msgq.slot_copyIn storage writeP hlength, h.write_p]
    exact h.window.push hroom msg

theorem Stored.next_message (h : Stored storage msgSize size writeP readP accepted returned)
    (hlt : returned.length < accepted.length) :
    Msgq.slot storage msgSize readP = accepted[returned.length] := by
  rw [h.read_p]
  exact h.window _ _ (Nat.le_refl _) (List.getElem?_eq_getElem hlt)

theorem Stored.pop (h : Stored storage msgSize size writeP readP accepted returned)
    (hlt : returned.length < accepted.length) :
    Stored storage msgSize size writeP ((readP + 1) % size) accepted
      (returned ++ [Msgq.slot storage msgSize readP]) := by
  have hreturned : (returned ++ [Msgq.slot storage msgSize readP]).length =
      returned.length + 1 := by simp
  have hroom := h.room
  refine ⟨?_, ?_, ?_, h.write_p, ?_, ?_⟩
  · rw [hreturned, List.take_succ_eq_append_getElem hlt, ← h.returned_eq, h.next_message hlt]
  · rw [hreturned]
    exact hlt
  · rw [hreturned]
    omega
  · rw [hreturned, h.read_p, Nat.mod_add_mod]
  · rw [hreturned]
    exact h.window.advance

theorem Permits.length_le_one {sem : Semaphore} {pc : Nat → ReadPc} {waiting granted : List Nat}
    (h : Permits sem pc waiting granted) (hsingle : SingleReader pc) : granted.length ≤ 1 := by
  have hbusy : ∀ other ∈ granted, pc other ≠ .idle := by
    intro other hother hidle
    have hmem := (h.mem_iff other).mp hother
    rw [hidle] at hmem
    simp at hmem
  match granted, h.nodup, hbusy with
  | [], _, _ => simp
  | [_], _, _ => simp
  | first :: second :: rest, hnodup, hbusy =>
    have heq := hsingle first second (hbusy first (by simp)) (hbusy second (by simp))
    simp [heq] at hnodup

/-- A step keeps one reader, when a reader comes in only while no other is there. -/
theorem SingleReader.step {sys after : MsgqSystem} {event : MsgqEvent}
    (hsingle : SingleReader sys.pc) (hone : OneReader sys event)
    (hbusy : ∀ thread, after.pc thread ≠ .idle → sys.pc thread ≠ .idle ∨ event = .take thread) :
    SingleReader after.pc := by
  -- a thread that comes in is the only one
  have honly : ∀ thread other, event = .take thread → after.pc other ≠ .idle → other = thread := by
    rintro thread other rfl hother
    by_contra hne
    rcases hbusy other hother with hbefore | htake
    · exact hbefore (hone other hne)
    · exact hne (MsgqEvent.take.inj htake).symm
  intro first second hfirst hsecond
  rcases hbusy first hfirst with hbefore | htake
  · rcases hbusy second hsecond with hbefore' | htake'
    · exact hsingle first second hbefore hbefore'
    · exact honly second first htake' hfirst
  · exact (honly first second htake hsecond).symm

end

namespace FifoSound

variable {size : Nat} {sys after : MsgqSystem} {waiting granted : List Nat} {thread : Nat}

/-- A new queue is sound when the semaphore can hold its capacity. -/
theorem initial (msgSize : Nat) (hsize : 2 ≤ size) (hint : size < 2 ^ 31) :
    FifoSound size (MsgqSystem.initial size msgSize) [] [] where
  size_ge := hsize
  size_eq := rfl
  max_eq := toInt_of_lt hint
  stored := ⟨rfl, Nat.le_refl _, Nat.zero_le _, (Nat.zero_mod _).symm, (Nat.zero_mod _).symm,
    Window.nil⟩
  readers := .initial size msgSize
  single := fun _ _ hfirst => absurd rfl hfirst
  permits := rfl

/-- `write` takes the queue for full exactly when as many messages as it has slots were not copied
out. -/
theorem full_iff (h : FifoSound size sys waiting granted) :
    sys.q.writeP = sys.q.readP ∧ sys.q.sem.count ≠ 0 ↔
      sys.accepted.length = sys.returned.length + sys.q.size := by
  have hgranted := h.readers.length_le_one h.single
  have hpermits := h.permits
  have hle := h.stored.returned_le
  have hroom := h.stored.room
  have hsize : 2 ≤ sys.q.size := h.size_eq ▸ h.size_ge
  have hnonneg := h.readers.nonneg
  rw [h.stored.write_p, h.stored.read_p]
  constructor
  · rintro ⟨hindex, hcount⟩
    by_contra hne
    exact mod_ne_mod_of_lt (by omega) (by omega) hindex.symm
  · intro hfull
    refine ⟨?_, by omega⟩
    rw [hfull, Nat.add_mod_right]

/-- Every step keeps the queue sound, when a reader comes in only while no other is there. -/
theorem step {event : MsgqEvent} (h : FifoSound size sys waiting granted) (hone : OneReader sys event)
    (hstep : sys.step event = some after) :
    ∃ waiting granted, FifoSound size after waiting granted := by
  obtain ⟨waiting', granted', change, htaken⟩ := h.readers.step hstep
  have hreaders := htaken.permits
  have hsingle := h.single.step hone htaken.busy
  have hpermits := h.permits
  refine ⟨waiting', granted', ?_⟩
  cases htaken.turn with
  | still sem pc hafter hmax _ =>
    subst hafter
    have htotal : sem.count + granted'.length = sys.q.sem.count + granted.length + 0 := htaken.total
    refine ⟨h.size_ge, h.size_eq, hmax.trans h.max_eq, h.stored, hreaders, hsingle, ?_⟩
    show sem.count + granted'.length + sys.returned.length = sys.accepted.length
    omega
  | copied pc hafter =>
    subst hafter
    have htotal : sys.q.sem.count + granted'.length = sys.q.sem.count + granted.length + -1 :=
      htaken.total
    have hnonneg := h.readers.nonneg
    -- the permit of the reader stands for a message that is still in the ring
    refine ⟨h.size_ge, h.size_eq, h.max_eq, h.stored.pop (by omega), hreaders,
      hsingle, ?_⟩
    show sys.q.sem.count + granted'.length + ((sys.returned ++ [_]).length : Int) =
      sys.accepted.length
    rw [List.length_append, List.length_singleton]
    omega
  | written msg sem pc hafter hmax _ hlength hnotFull _ =>
    subst hafter
    have hroom : sys.accepted.length ≠ sys.returned.length + sys.q.size :=
      fun hfull => hnotFull (h.full_iff.mpr hfull)
    have hle := h.stored.room
    have hlimit := h.max_eq
    have htotal : sem.count + granted'.length = sys.q.sem.count + granted.length +
        if sys.q.sem.count = sys.q.sem.maxCount then 0 else 1 := htaken.total
    rw [if_neg (by omega)] at htotal
    refine ⟨h.size_ge, h.size_eq, hmax.trans h.max_eq, h.stored.push (by omega) hlength, hreaders,
      hsingle, ?_⟩
    show sem.count + granted'.length + sys.returned.length = ((sys.accepted ++ [msg]).length : Int)
    rw [List.length_append, List.length_singleton]
    omega

end FifoSound

/-! ## Whole runs -/

/-- What `read` has returned is the first part of what `write` has accepted, in order, and `write`
refuses a message exactly when `size` accepted messages were not copied out. -/
def BoundedFifo (size : Nat) (sys : MsgqSystem) : Prop :=
  sys.returned <+: sys.accepted ∧ ∀ msg, (sys.q.write msg).1 = false ↔
    sys.accepted.length = sys.returned.length + size

/-- A queue whose capacity is a positive `int` of at least two is a bounded FIFO in every run with
one reader at a time. -/
theorem msgq_bounded_fifo {size : Nat} (msgSize : Nat) (hsize : 2 ≤ size) (hint : size < 2 ^ 31)
    {events : List MsgqEvent} {final : MsgqSystem}
    (hone : Meets MsgqSystem.step OneReader (MsgqSystem.initial size msgSize) events)
    (hrun : run MsgqSystem.step (MsgqSystem.initial size msgSize) events = some final) :
    BoundedFifo size final := by
  obtain ⟨waiting, granted, h⟩ := run_invariant_of_meets
    (fun sys => ∃ waiting granted, FifoSound size sys waiting granted)
    (fun _ _ _ ⟨_, _, h⟩ hcondition hstep => h.step hcondition hstep)
    ⟨[], [], FifoSound.initial msgSize hsize hint⟩ hone hrun
  refine ⟨?_, fun msg => ?_⟩
  · rw [h.stored.returned_eq]
    exact List.take_prefix _ _
  · have hfull := h.full_iff
    rw [h.size_eq] at hfull
    rw [← hfull]
    exact final.q.write_eq_false_iff msg

/-- A reader is woken by the first of two messages, and the second one is written before the copy. -/
theorem msgq_bounded_fifo_two : ∃ final,
    run MsgqSystem.step (MsgqSystem.initial 2 1)
      [.take 7, .write [1], .write [2], .resume 7, .write [3], .copy 7] = some final ∧
    final.returned = [[1]] ∧ BoundedFifo 2 final := by
  refine exists_of_any (fun final => final.returned = [[1]]) (by decide +kernel) ?_
  intro final hrun hreturned
  refine ⟨hreturned, msgq_bounded_fifo 1 (by decide) (by decide) ?_ hrun⟩
  -- the only reader comes in first
  exact ⟨fun _ _ => rfl, fun _ _ => by simp [Meets, OneReader]⟩

/-- A semaphore whose maximum is zero never counts, so a queue with it accepts every message. -/
theorem write_without_permits (count : Nat) (sys : MsgqSystem) (hcount : sys.q.sem.count = 0)
    (hmax : sys.q.sem.maxCount = 0) (hbytes : sys.q.msgSize = 0) :
    ∃ after, run MsgqSystem.step sys (List.replicate count (.write [])) = some after ∧
      after.accepted.length = sys.accepted.length + count ∧ after.returned = sys.returned ∧
      after.q.sem.count = 0 := by
  induction count generalizing sys with
  | zero => exact ⟨sys, rfl, rfl, rfl, hcount⟩
  | succ count ih =>
    have hgive : sys.q.sem.give = (none, sys.q.sem) :=
      Semaphore.give_of_full (hcount.trans hmax.symm)
    have hwrite : sys.write [] = { sys with
        q := { sys.q with
          storage := Msgq.copyIn sys.q.storage sys.q.msgSize sys.q.writeP []
          writeP := (sys.q.writeP + 1) % sys.q.size }
        accepted := sys.accepted ++ [[]] } := by
      unfold MsgqSystem.write Msgq.write
      rw [if_neg fun hfull => hfull.2 hcount, hgive]
    obtain ⟨after, hrun, haccepted, hreturned, hafter⟩ := ih (sys.write [])
      (by rw [hwrite]; exact hcount) (by rw [hwrite]; exact hmax) (by rw [hwrite]; exact hbytes)
    refine ⟨after, ?_, ?_, ?_, hafter⟩
    · rw [List.replicate_succ]
      refine run_cons_eq_some.mpr ⟨sys.write [], ?_, hrun⟩
      exact if_pos hbytes.symm
    · rw [haccepted, hwrite]
      show (sys.accepted ++ [[]]).length + count = _
      rw [List.length_append, List.length_singleton]
      omega
    · rw [hreturned, hwrite]

/-- A queue of `2 ^ 32` messages without bytes gets a semaphore whose maximum is zero, and still
accepts a message when it is full. -/
theorem large_msgq_accepts_when_full : ∃ final,
    run MsgqSystem.step (MsgqSystem.initial (2 ^ 32) 0)
      (List.replicate (2 ^ 32) (.write [])) = some final ∧
    final.accepted.length = final.returned.length + 2 ^ 32 ∧
    (final.q.write []).1 = true := by
  obtain ⟨final, hrun, haccepted, hreturned, hcount⟩ :=
    write_without_permits (2 ^ 32) (MsgqSystem.initial (2 ^ 32) 0) rfl rfl rfl
  refine ⟨final, hrun, ?_, ?_⟩
  · rw [haccepted, hreturned]
    rfl
  · unfold Msgq.write
    rw [if_neg fun hfull => hfull.2 hcount]

end Otrix
