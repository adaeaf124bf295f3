import Otrix.Kernel.Waitq
import Otrix.Foundation.Run
import Mathlib.Algebra.Group.Nat.Defs
import Mathlib.Algebra.Group.Int.Defs

/-!
# Permits of `kernel/semaphore.cpp`

`take` keeps interrupts disabled from its test of the count until the thread
sleeps, so it is one step, and so is `give` up to the `schedule()` of `notify_one`.
Threads and interrupt handlers call both in any order.

A permit is in `count_`, or it was granted: to a `take` that has returned `true`, or
to a waiting thread that a `give` has released and that may not have run since.
`SemaphoreSound` says that none is lost or made.
-/

namespace Otrix

open Function

/-- `semaphore`. -/
structure Semaphore where
  waitingQueue : Waitq
  count : Int
  maxCount : Int

/-- How far a call of `take` gets in one step. -/
inductive TakeResult where
  | returned (successful : Bool)
  | blocked
  deriving DecidableEq

namespace Semaphore

/-- The constructor. -/
def initial (maxCount initialCount : Int) : Semaphore :=
  ⟨Waitq.initial, initialCount, maxCount⟩

/-- `take`, until it returns or the thread sleeps in the queue. -/
def take (sem : Semaphore) (thread timeoutMs : Nat) : TakeResult × Semaphore :=
  if sem.count = 0 then
    if 0 < timeoutMs then
      (.blocked, { sem with waitingQueue := sem.waitingQueue.enqueue thread })
    else (.returned false, sem)
  else (.returned true, { sem with count := sem.count - 1 })

/-- `give`, with the thread that it wakes. -/
def give (sem : Semaphore) : Option Nat × Semaphore :=
  if sem.count = sem.maxCount then (none, sem)
  else if sem.count = 0 ∧ sem.waitingQueue.isEmpty = false then
    match sem.waitingQueue.dequeue with
    | some (thread, queue) => (some thread, { sem with waitingQueue := queue })
    | none => (none, sem)
  else (none, { sem with count := sem.count + 1 })

variable {sem : Semaphore} {waiting rest : List Nat} {thread : Nat}

theorem give_of_full (hfull : sem.count = sem.maxCount) : sem.give = (none, sem) := by
  unfold give
  rw [if_pos hfull]

theorem give_of_waiting {queue : Waitq} (hempty : sem.count = 0) (hmax : sem.count ≠ sem.maxCount)
    (hdequeue : sem.waitingQueue.dequeue = some (thread, queue)) :
    sem.give = (some thread, { sem with waitingQueue := queue }) := by
  have hsome : sem.waitingQueue.isEmpty = false := by
    unfold Waitq.dequeue at hdequeue
    by_cases hnull : sem.waitingQueue.wq = 0
    · rw [if_pos hnull] at hdequeue
      cases hdequeue
    · simp [Waitq.isEmpty, hnull]
  unfold give
  rw [if_neg hmax, if_pos ⟨hempty, hsome⟩, hdequeue]

theorem give_of_idle (hqueue : sem.waitingQueue.Holds []) (hmax : sem.count ≠ sem.maxCount) :
    sem.give = (none, { sem with count := sem.count + 1 }) := by
  have hnone : sem.waitingQueue.isEmpty = true := by
    simp [Waitq.isEmpty, hqueue.wq_eq_zero_iff.mpr rfl]
  unfold give
  rw [if_neg hmax, if_neg (by simp [hnone])]

end Semaphore

/-- Where a thread is in `take` and `give`. -/
inductive SemaphorePc where
  /-- Outside. -/
  | idle
  /-- Blocked in `take`. -/
  | sleeping
  /-- Released, still in `take`. -/
  | awake
  /-- In the `schedule()` of `give`. -/
  | giving
  deriving DecidableEq

/-- A semaphore and its threads, with the history: the number of `take` calls that returned `true`,
the threads that were released and have not returned, and the number of `give` calls that found
the count below its maximum. -/
structure SemaphoreSystem where
  sem : Semaphore
  pc : Nat → SemaphorePc
  taken : Nat
  released : List Nat
  gives : Nat

/-- The steps: `take` without a timeout and with timeout `0`, the return of a released thread, and
`give`. An interrupt handler cannot wait, but it can call `take(0)` and `give`. -/
inductive SemaphoreEvent where
  | take (thread : Nat)
  | tryTake (thread : Nat)
  | tryTakeFromIrq
  | resume (thread : Nat)
  | give (thread : Nat)
  | giveReturn (thread : Nat)
  | giveFromIrq
  deriving DecidableEq

namespace SemaphoreSystem

/-- A thread moves on. -/
def goto (sys : SemaphoreSystem) (thread : Nat) (pc : SemaphorePc) : SemaphoreSystem :=
  { sys with pc := Function.update sys.pc thread pc }

/-- A call of `take` by a thread. -/
def take (sys : SemaphoreSystem) (thread timeoutMs : Nat) : SemaphoreSystem :=
  match sys.sem.take thread timeoutMs with
  | (.returned true, sem) => { sys with sem := sem, taken := sys.taken + 1 }
  | (.returned false, sem) => { sys with sem := sem }
  | (.blocked, sem) => { sys with sem := sem }.goto thread .sleeping

/-- A call of `give`. `wake` refuses a thread that is not blocked. -/
def give (sys : SemaphoreSystem) : SemaphoreSystem :=
  let counted :=
    { sys with gives := if sys.sem.count < sys.sem.maxCount then sys.gives + 1 else sys.gives }
  match sys.sem.give with
  | (some thread, sem) =>
    if sys.pc thread = .sleeping then
      { counted with sem := sem, released := thread :: sys.released }.goto thread .awake
    else { counted with sem := sem }
  | (none, sem) => { counted with sem := sem }

/-- One step. `2 ^ 64 - 1` is the timeout of `take` without one. -/
def step (sys : SemaphoreSystem) : SemaphoreEvent → Option SemaphoreSystem
  | .take thread =>
    if thread ≠ 0 ∧ sys.pc thread = .idle then some (sys.take thread (2 ^ 64 - 1)) else none
  | .tryTake thread =>
    if thread ≠ 0 ∧ sys.pc thread = .idle then some (sys.take thread 0) else none
  | .tryTakeFromIrq => some (sys.take 0 0)
  | .resume thread =>
    if sys.pc thread = .awake then
      let returned := { sys with released := sys.released.erase thread }.goto thread .idle
      if sys.sem.waitingQueue.wakeupSuccessful thread then
        some { returned with taken := sys.taken + 1 }
      else some returned
    else none
  | .give thread =>
    if thread ≠ 0 ∧ sys.pc thread = .idle then some (sys.give.goto thread .giving) else none
  | .giveReturn thread =>
    if sys.pc thread = .giving then some (sys.goto thread .idle) else none
  | .giveFromIrq => some sys.give

/-- A new semaphore, which no thread uses. -/
def initial (maxCount initialCount : Int) : SemaphoreSystem where
  sem := Semaphore.initial maxCount initialCount
  pc := fun _ => .idle
  taken := 0
  released := []
  gives := 0

end SemaphoreSystem

/-- The invariant of a semaphore with these waiting threads. -/
structure SemaphoreSound (maxCount initialCount : Int) (sys : SemaphoreSystem)
    (waiting : List Nat) : Prop where
  waiters : Waiters sys.sem.waitingQueue waiting sys.pc .sleeping .awake
  null_idle : sys.pc 0 = .idle
  released : ∀ thread, thread ∈ sys.released ↔ sys.pc thread = .awake
  nodup : sys.released.Nodup
  nonneg : 0 ≤ sys.sem.count
  le_max : sys.sem.count ≤ maxCount
  max_eq : sys.sem.maxCount = maxCount
  /-- A permit is in the count only when nobody waits. -/
  waiting_nil : 0 < sys.sem.count → waiting = []
  /-- Granted and available permits are the initial ones and the given ones. -/
  balance : (sys.taken : Int) + sys.released.length + sys.sem.count = initialCount + sys.gives

namespace SemaphoreSound

variable {maxCount initialCount : Int} {sys after : SemaphoreSystem} {waiting : List Nat} {thread : Nat}

theorem initial (hnonneg : 0 ≤ initialCount) (hle : initialCount ≤ maxCount) :
    SemaphoreSound maxCount initialCount (SemaphoreSystem.initial maxCount initialCount) [] where
  waiters := ⟨Waitq.holds_initial, by simp [SemaphoreSystem.initial],
    by simp [SemaphoreSystem.initial]⟩
  null_idle := rfl
  released := by simp [SemaphoreSystem.initial]
  nodup := List.nodup_nil
  nonneg := hnonneg
  le_max := hle
  max_eq := rfl
  waiting_nil := fun _ => rfl
  balance := by simp [SemaphoreSystem.initial, Semaphore.initial]

section

variable (h : SemaphoreSound maxCount initialCount sys waiting)
include h

theorem goto (hthread : thread ≠ 0) {pc : SemaphorePc} (hpc : pc = .idle ∨ pc = .giving)
    (hold : sys.pc thread ≠ .sleeping ∧ sys.pc thread ≠ .awake) :
    SemaphoreSound maxCount initialCount (sys.goto thread pc) waiting := by
  have hawake : pc ≠ .awake := by rcases hpc with rfl | rfl <;> simp
  have hsleeping : pc ≠ .sleeping := by rcases hpc with rfl | rfl <;> simp
  refine ⟨h.waiters.outside hold.1 hsleeping hawake, ?_,
    mem_iff_update (P := (· = SemaphorePc.awake)) h.released ?_ fun _ _ => Iff.rfl, h.nodup,
    h.nonneg, h.le_max, h.max_eq, h.waiting_nil, h.balance⟩
  · show update sys.pc thread pc 0 = .idle
    rw [update_of_ne (Ne.symm hthread)]
    exact h.null_idle
  · show thread ∈ sys.released ↔ pc = .awake
    rw [h.released]
    exact iff_of_false hold.2 hawake

theorem take_permit (hcount : sys.sem.count ≠ 0) (thread timeoutMs : Nat) :
    SemaphoreSound maxCount initialCount (sys.take thread timeoutMs) waiting := by
  have heq : sys.take thread timeoutMs =
      { sys with sem := { sys.sem with count := sys.sem.count - 1 }, taken := sys.taken + 1 } := by
    unfold SemaphoreSystem.take Semaphore.take
    rw [if_neg hcount]
  have hnonneg := h.nonneg
  have hle := h.le_max
  have hbalance := h.balance
  rw [heq]
  refine ⟨h.waiters, h.null_idle, h.released, h.nodup, ?_, ?_, h.max_eq, ?_, ?_⟩
  · show 0 ≤ sys.sem.count - 1
    omega
  · show sys.sem.count - 1 ≤ maxCount
    omega
  · intro _
    exact h.waiting_nil (by omega)
  · show ((sys.taken + 1 : Nat) : Int) + sys.released.length + (sys.sem.count - 1) =
      initialCount + sys.gives
    omega

theorem try_take (thread : Nat) :
    SemaphoreSound maxCount initialCount (sys.take thread 0) waiting := by
  by_cases hcount : sys.sem.count = 0
  · have heq : sys.take thread 0 = sys := by
      unfold SemaphoreSystem.take Semaphore.take
      rw [if_pos hcount, if_neg (Nat.lt_irrefl 0)]
    rw [heq]
    exact h
  · exact h.take_permit hcount thread 0

theorem take_wait (hthread : thread ≠ 0)
    (hidle : sys.pc thread = .idle) (hcount : sys.sem.count = 0) {timeoutMs : Nat}
    (htimeout : 0 < timeoutMs) :
    SemaphoreSound maxCount initialCount (sys.take thread timeoutMs) (thread :: waiting) := by
  unfold SemaphoreSystem.take Semaphore.take
  rw [if_pos hcount, if_pos htimeout]
  refine ⟨?_, ?_, mem_iff_update (P := (· = SemaphorePc.awake)) h.released ?_ fun _ _ => Iff.rfl,
    h.nodup, h.nonneg, h.le_max, h.max_eq, ?_, h.balance⟩
  · exact h.waiters.enqueue hthread (by rw [hidle]; simp) (by simp)
  · show update sys.pc thread .sleeping 0 = .idle
    rw [update_of_ne (Ne.symm hthread)]
    exact h.null_idle
  · show thread ∈ sys.released ↔ SemaphorePc.sleeping = .awake
    rw [h.released, hidle]
    simp
  · intro hpositive
    exact absurd hcount (Int.ne_of_gt hpositive)

theorem resume (hawake : sys.pc thread = .awake) :
    SemaphoreSound maxCount initialCount { { sys with released := sys.released.erase thread }.goto thread
      .idle with taken := sys.taken + 1 } waiting := by
  have hmem : thread ∈ sys.released := (h.released thread).mpr hawake
  refine ⟨h.waiters.outside (by rw [hawake]; simp) (by simp) (by simp), ?_,
    mem_iff_update (P := (· = SemaphorePc.awake)) h.released ?_ fun other hother => ?_,
    h.nodup.erase thread, h.nonneg, h.le_max, h.max_eq, h.waiting_nil, ?_⟩
  · show update sys.pc thread .idle 0 = .idle
    rw [update_apply]
    split
    · rfl
    · exact h.null_idle
  · show thread ∈ sys.released.erase thread ↔ SemaphorePc.idle = .awake
    simp [h.nodup.mem_erase_iff]
  · exact List.mem_erase_of_ne hother
  · have hbalance := h.balance
    have hlength := List.length_erase_of_mem hmem
    have hpos := List.length_pos_of_mem hmem
    show ((sys.taken + 1 : Nat) : Int) + (sys.released.erase thread).length + sys.sem.count =
      initialCount + sys.gives
    rw [hlength]
    omega

end

theorem give_idle (h : SemaphoreSound maxCount initialCount sys [])
    (hbelow : sys.sem.count < sys.sem.maxCount) :
    SemaphoreSound maxCount initialCount sys.give [] ∧ sys.give.pc = sys.pc := by
  have hnonneg := h.nonneg
  have hbalance := h.balance
  have hmax := h.max_eq
  have heq : sys.give = { sys with
      sem := { sys.sem with count := sys.sem.count + 1 }, gives := sys.gives + 1 } := by
    unfold SemaphoreSystem.give
    rw [Semaphore.give_of_idle h.waiters.queue (Int.ne_of_lt hbelow), if_pos hbelow]
  rw [heq]
  refine ⟨⟨h.waiters, h.null_idle, h.released, h.nodup, ?_, ?_, hmax, fun _ => rfl, ?_⟩, rfl⟩
  · show 0 ≤ sys.sem.count + 1
    omega
  · show sys.sem.count + 1 ≤ maxCount
    omega
  · show (sys.taken : Int) + sys.released.length + (sys.sem.count + 1) =
      initialCount + (sys.gives + 1 : Nat)
    omega

/-- A call of `give` while threads wait releases the first of them. -/
theorem give_waiting {waiter : Nat} {rest : List Nat}
    (h : SemaphoreSound maxCount initialCount sys (waiter :: rest))
    (hbelow : sys.sem.count < sys.sem.maxCount) :
    SemaphoreSound maxCount initialCount sys.give rest ∧
      sys.give.pc = update sys.pc waiter .awake := by
  have hnonneg := h.nonneg
  have hbalance := h.balance
  have hempty : sys.sem.count = 0 := by
    by_contra hne
    cases h.waiting_nil (by omega)
  have hsleeping : sys.pc waiter = .sleeping := (h.waiters.mem_iff waiter).mp (by simp)
  obtain ⟨queue, hdequeue, hwaiters⟩ := h.waiters.dequeue (by simp)
  have heq : sys.give = { sys with
      sem := { sys.sem with waitingQueue := queue }
      pc := update sys.pc waiter .awake
      released := waiter :: sys.released
      gives := sys.gives + 1 } := by
    unfold SemaphoreSystem.give
    rw [Semaphore.give_of_waiting hempty (Int.ne_of_lt hbelow) hdequeue, if_pos hbelow]
    exact if_pos hsleeping
  rw [heq]
  refine ⟨⟨hwaiters, ?_, mem_iff_update (P := (· = SemaphorePc.awake)) h.released
    (iff_of_true List.mem_cons_self rfl) fun other hother => ?_, ?_, hnonneg, h.le_max, h.max_eq,
    ?_, ?_⟩, rfl⟩
  · show update sys.pc waiter .awake 0 = .idle
    rw [update_of_ne (Ne.symm (h.waiters.ne_zero hsleeping))]
    exact h.null_idle
  · rw [List.mem_cons, or_iff_right hother]
  · refine List.nodup_cons.mpr ⟨fun hmem => ?_, h.nodup⟩
    rw [h.released, hsleeping] at hmem
    cases hmem
  · intro hpositive
    exact absurd hempty (Int.ne_of_gt hpositive)
  · show (sys.taken : Int) + (waiter :: sys.released).length + sys.sem.count =
      initialCount + (sys.gives + 1 : Nat)
    rw [List.length_cons]
    omega

/-- A call of `give`: it is lost on a full semaphore, it releases the first waiting thread, or it
adds to the count. -/
theorem give (h : SemaphoreSound maxCount initialCount sys waiting) :
    ∃ waiting', SemaphoreSound maxCount initialCount sys.give waiting' ∧
      ∀ thread, sys.pc thread ≠ .sleeping → sys.give.pc thread = sys.pc thread := by
  have hle := h.le_max
  have hmax := h.max_eq
  by_cases hfull : sys.sem.count = sys.sem.maxCount
  · have heq : sys.give = sys := by
      unfold SemaphoreSystem.give
      rw [Semaphore.give_of_full hfull, if_neg (by omega)]
    rw [heq]
    exact ⟨waiting, h, fun _ _ => rfl⟩
  · have hbelow : sys.sem.count < sys.sem.maxCount := by omega
    cases waiting with
    | nil =>
      obtain ⟨hgive, hpc⟩ := h.give_idle hbelow
      exact ⟨[], hgive, fun thread _ => by rw [hpc]⟩
    | cons waiter rest =>
      obtain ⟨hgive, hpc⟩ := h.give_waiting hbelow
      refine ⟨rest, hgive, fun thread hawake => ?_⟩
      have hsleeping : sys.pc waiter = .sleeping := (h.waiters.mem_iff waiter).mp (by simp)
      have hne : thread ≠ waiter := fun heq => hawake (heq ▸ hsleeping)
      rw [hpc, update_of_ne hne]

/-- Every step keeps the invariant. -/
theorem step {event : SemaphoreEvent} (h : SemaphoreSound maxCount initialCount sys waiting)
    (hstep : sys.step event = some after) :
    ∃ waiting', SemaphoreSound maxCount initialCount after waiting' := by
  cases event with
  | take thread =>
    simp only [SemaphoreSystem.step, Option.ite_none_right_eq_some, Option.some.injEq] at hstep
    obtain ⟨⟨hthread, hidle⟩, rfl⟩ := hstep
    by_cases hcount : sys.sem.count = 0
    · exact ⟨_, h.take_wait hthread hidle hcount (by decide)⟩
    · exact ⟨waiting, h.take_permit hcount _ _⟩
  | tryTake thread =>
    simp only [SemaphoreSystem.step, Option.ite_none_right_eq_some, Option.some.injEq] at hstep
    obtain ⟨_, rfl⟩ := hstep
    exact ⟨waiting, h.try_take thread⟩
  | tryTakeFromIrq =>
    obtain rfl := Option.some.inj hstep
    exact ⟨waiting, h.try_take 0⟩
  | resume thread =>
    simp only [SemaphoreSystem.step, Option.ite_none_right_eq_some] at hstep
    obtain ⟨hawake, hstep⟩ := hstep
    rw [if_pos (h.waiters.notified thread hawake), Option.some.injEq] at hstep
    exact ⟨waiting, hstep ▸ h.resume hawake⟩
  | give thread =>
    simp only [SemaphoreSystem.step, Option.ite_none_right_eq_some, Option.some.injEq] at hstep
    obtain ⟨⟨hthread, hidle⟩, rfl⟩ := hstep
    obtain ⟨waiting', hgive, hpc⟩ := h.give
    refine ⟨waiting', hgive.goto hthread (Or.inr rfl) ?_⟩
    rw [hpc thread (by rw [hidle]; simp), hidle]
    simp
  | giveReturn thread =>
    simp only [SemaphoreSystem.step, Option.ite_none_right_eq_some, Option.some.injEq] at hstep
    obtain ⟨hgiving, rfl⟩ := hstep
    have hthread : thread ≠ 0 := by
      rintro rfl
      rw [h.null_idle] at hgiving
      cases hgiving
    exact ⟨waiting, h.goto hthread (Or.inl rfl) (by rw [hgiving]; simp)⟩
  | giveFromIrq =>
    obtain rfl := Option.some.inj hstep
    obtain ⟨waiting', hgive, _⟩ := h.give
    exact ⟨waiting', hgive⟩

end SemaphoreSound

/-! ## Whole runs -/

/-- No permit is lost or made: the count stays in its bounds, nobody waits while there is a permit,
granted and available permits balance, and `take(0)` succeeds exactly on a positive count. -/
structure PermitsConserved (maxCount initialCount : Int) (sys : SemaphoreSystem) : Prop where
  bounds : 0 ≤ sys.sem.count ∧ sys.sem.count ≤ maxCount
  waiting : 0 < sys.sem.count →
    sys.sem.waitingQueue.wq = 0 ∧ ∀ thread, sys.pc thread ≠ .sleeping
  balance : (sys.taken : Int) + sys.released.length + sys.sem.count = initialCount + sys.gives
  /-- The released threads are those that were woken in `take` and have not returned. -/
  released : sys.released.Nodup ∧ ∀ thread, thread ∈ sys.released ↔ sys.pc thread = .awake
  tryTake : ∀ thread, (sys.sem.take thread 0).1 = .returned (decide (0 < sys.sem.count))

/-- In every reachable state of a semaphore that starts within its bounds, permits are conserved. -/
theorem semaphore_permits_conserved {maxCount initialCount : Int} (hnonneg : 0 ≤ initialCount)
    (hle : initialCount ≤ maxCount) {sys : SemaphoreSystem}
    (hreach : Machine.Reachable SemaphoreSystem.step
      (SemaphoreSystem.initial maxCount initialCount) sys) :
    PermitsConserved maxCount initialCount sys := by
  obtain ⟨waiting, h⟩ := hreach.invariant
    (fun sys => ∃ waiting, SemaphoreSound maxCount initialCount sys waiting)
    ⟨[], SemaphoreSound.initial hnonneg hle⟩ (fun _ _ _ ⟨_, h⟩ hstep => h.step hstep)
  have hcount := h.nonneg
  refine ⟨⟨hcount, h.le_max⟩, fun hpositive => ?_, h.balance, ⟨h.nodup, h.released⟩, fun thread => ?_⟩
  · have hnil := h.waiting_nil hpositive
    refine ⟨h.waiters.queue.wq_eq_zero_iff.mpr hnil, fun thread hsleeping => ?_⟩
    have hmem := (h.waiters.mem_iff thread).mpr hsleeping
    rw [hnil] at hmem
    cases hmem
  · unfold Semaphore.take
    by_cases hzero : sys.sem.count = 0
    · rw [if_pos hzero, if_neg (Nat.lt_irrefl 0), hzero]
      rfl
    · rw [if_neg hzero, decide_eq_true (by omega)]

/-- Two threads wait for a semaphore with one permit, one is released and has not run yet. -/
theorem semaphore_permits_conserved_handover : ∃ sys,
    Machine.run SemaphoreSystem.step (SemaphoreSystem.initial 2 1)
      [.take 1, .take 2, .take 3, .giveFromIrq, .tryTake 4, .give 1] = some sys ∧
    sys.released = [2, 3] ∧ PermitsConserved 2 1 sys := by
  refine Machine.exists_of_any (fun sys => sys.released = [2, 3]) (by decide +kernel) ?_
  intro sys hrun hreleased
  exact ⟨hreleased, semaphore_permits_conserved (by decide) (by decide) ⟨_, hrun⟩⟩

end Otrix
