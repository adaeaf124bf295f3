import Otrix.Kernel.Waitq
import Otrix.Foundation.Run

/-!
# Mutual exclusion and lost wake-ups of `kernel/mutex.cpp`

Any number of threads call `lock()` without a timeout and `unlock()`. Each region
with interrupts disabled is one step, and between its steps a thread can be
preempted for as long as one likes: after the check in `lock`, after it was woken,
before it stores `owner_`, and in the `schedule()` of `notify_one`. A thread may
call either function whenever it is in neither, also when it holds the mutex.

The right to hold the mutex is a token: it is with the holder, or with one thread
that was notified and has not stored `owner_` yet, or with nobody, and then
`owner_` is null. That gives mutual exclusion, as long as only the holder unlocks.
It does not give that no thread waits for a mutex that is free:
`no_waiter_iff_owned` says that this depends on `owner_` when the thread enters the
queue, which is not when `lock` has checked it.
-/

namespace Otrix

open Function Machine

/-- Where a thread is in `lock` and `unlock`. -/
inductive MutexPc where
  /-- Outside. -/
  | idle
  /-- In `lock`, after the check has found an owner. -/
  | checked
  /-- Blocked in `wait`. -/
  | sleeping
  /-- Woken, still in `wait`. -/
  | awake
  /-- In `lock`, after `wait` has returned. -/
  | returned (successful : Bool)
  /-- In the `schedule()` of `unlock`. -/
  | unlocking
  deriving DecidableEq

/-- `mutex` and the threads that use it. A thread `holds` the mutex from a `lock` that returns
`true` to its next `unlock`. -/
structure MutexSystem where
  owner : Nat
  waitingQueue : Waitq
  pc : Nat → MutexPc
  holds : Nat → Bool

/-- The steps of a thread. -/
inductive MutexEvent where
  | lock (thread : Nat)
  | wait (thread : Nat)
  | resume (thread : Nat)
  | finish (thread : Nat)
  | unlock (thread : Nat)
  | unlockReturn (thread : Nat)
  deriving DecidableEq

namespace MutexSystem

/-- A thread moves on. -/
def goto (sys : MutexSystem) (thread : Nat) (pc : MutexPc) : MutexSystem :=
  { sys with pc := Function.update sys.pc thread pc }

/-- The end of a successful `lock`. -/
def hold (sys : MutexSystem) (thread : Nat) : MutexSystem :=
  { sys with owner := thread, holds := Function.update sys.holds thread true }

/-- `scheduler::wake`, which refuses a thread that is not blocked. -/
def wake (sys : MutexSystem) (thread : Nat) : MutexSystem :=
  if sys.pc thread = .sleeping then sys.goto thread .awake else sys

/-- The part of `unlock` behind the check of the owner. -/
def passOn (sys : MutexSystem) (thread : Nat) : MutexSystem :=
  match sys.waitingQueue.dequeue with
  | some (waiter, queue) => ({ sys with waitingQueue := queue }.wake waiter).goto thread .unlocking
  | none => { sys with owner := 0 }

/-- `unlock`, which does nothing when another thread is the owner. -/
def unlock (sys : MutexSystem) (thread : Nat) : MutexSystem :=
  let released := { sys with holds := Function.update sys.holds thread false }
  if sys.owner = thread then released.passOn thread else released

/-- One step of a thread. -/
def step (sys : MutexSystem) : MutexEvent → Option MutexSystem
  | .lock thread =>
    if thread ≠ 0 ∧ sys.pc thread = .idle then
      if sys.owner = 0 then some (sys.hold thread) else some (sys.goto thread .checked)
    else none
  | .wait thread =>
    if sys.pc thread = .checked then
      some ({ sys with waitingQueue := sys.waitingQueue.enqueue thread }.goto thread .sleeping)
    else none
  | .resume thread =>
    if sys.pc thread = .awake then
      some (sys.goto thread (.returned (sys.waitingQueue.wakeupSuccessful thread)))
    else none
  | .finish thread =>
    match sys.pc thread with
    | .returned true => some ((sys.hold thread).goto thread .idle)
    | .returned false => some (sys.goto thread .idle)
    | _ => none
  | .unlock thread =>
    if thread ≠ 0 ∧ sys.pc thread = .idle then some (sys.unlock thread) else none
  | .unlockReturn thread =>
    if sys.pc thread = .unlocking then some (sys.goto thread .idle) else none

/-- The steps, with what each of them has checked. -/
inductive Steps (sys : MutexSystem) : MutexEvent → MutexSystem → Prop
  | lockFree {thread : Nat} (hthread : thread ≠ 0) (hidle : sys.pc thread = .idle)
      (hfree : sys.owner = 0) : Steps sys (.lock thread) (sys.hold thread)
  | lockOwned {thread : Nat} (hthread : thread ≠ 0) (hidle : sys.pc thread = .idle)
      (howned : sys.owner ≠ 0) : Steps sys (.lock thread) (sys.goto thread .checked)
  | wait {thread : Nat} (hchecked : sys.pc thread = .checked) : Steps sys (.wait thread)
      ({ sys with waitingQueue := sys.waitingQueue.enqueue thread }.goto thread .sleeping)
  | resume {thread : Nat} (hawake : sys.pc thread = .awake) : Steps sys (.resume thread)
      (sys.goto thread (.returned (sys.waitingQueue.wakeupSuccessful thread)))
  | finish {thread : Nat} (hreturned : sys.pc thread = .returned true) :
      Steps sys (.finish thread) ((sys.hold thread).goto thread .idle)
  | finishFailed {thread : Nat} (hfailed : sys.pc thread = .returned false) :
      Steps sys (.finish thread) (sys.goto thread .idle)
  | unlock {thread : Nat} (hthread : thread ≠ 0) (hidle : sys.pc thread = .idle) :
      Steps sys (.unlock thread) (sys.unlock thread)
  | unlockReturn {thread : Nat} (hunlocking : sys.pc thread = .unlocking) :
      Steps sys (.unlockReturn thread) (sys.goto thread .idle)

/-- Every step is one of these. -/
theorem step_cases {sys after : MutexSystem} {event : MutexEvent}
    (hstep : sys.step event = some after) : sys.Steps event after := by
  cases event with
  | lock thread =>
    obtain ⟨⟨hthread, hidle⟩, hstep⟩ := Option.ite_none_right_eq_some.mp hstep
    split at hstep
    next hfree => exact Option.some.inj hstep ▸ .lockFree hthread hidle hfree
    next howned => exact Option.some.inj hstep ▸ .lockOwned hthread hidle howned
  | wait thread =>
    obtain ⟨hchecked, hafter⟩ := Option.ite_none_right_eq_some.mp hstep
    exact Option.some.inj hafter ▸ .wait hchecked
  | resume thread =>
    obtain ⟨hawake, hafter⟩ := Option.ite_none_right_eq_some.mp hstep
    exact Option.some.inj hafter ▸ .resume hawake
  | finish thread =>
    simp only [step] at hstep
    split at hstep
    next hreturned => exact Option.some.inj hstep ▸ .finish hreturned
    next hfailed => exact Option.some.inj hstep ▸ .finishFailed hfailed
    · cases hstep
  | unlock thread =>
    obtain ⟨⟨hthread, hidle⟩, hafter⟩ := Option.ite_none_right_eq_some.mp hstep
    exact Option.some.inj hafter ▸ .unlock hthread hidle
  | unlockReturn thread =>
    obtain ⟨hunlocking, hafter⟩ := Option.ite_none_right_eq_some.mp hstep
    exact Option.some.inj hafter ▸ .unlockReturn hunlocking

/-- A new mutex, which no thread uses. -/
def initial : MutexSystem where
  owner := 0
  waitingQueue := Waitq.initial
  pc := fun _ => .idle
  holds := fun _ => false

/-- The thread has the token: it holds the mutex, or it was notified and will. -/
def HasToken (sys : MutexSystem) (thread : Nat) : Prop :=
  sys.holds thread = true ∨ sys.pc thread = .awake ∨
    ∃ successful, sys.pc thread = .returned successful

end MutexSystem

/-! ## The queue -/

/-- The queue of a mutex with these waiting threads. This holds however the mutex is used. -/
structure MutexLinked (sys : MutexSystem) (waiting : List Nat) : Prop where
  waiters : Waiters sys.waitingQueue waiting sys.pc .sleeping .awake
  null_idle : sys.pc 0 = .idle
  successful : ∀ thread, sys.pc thread ≠ .returned false

namespace MutexLinked

variable {sys after : MutexSystem} {waiting rest : List Nat} {thread waiter : Nat} {pc : MutexPc}

theorem initial : MutexLinked MutexSystem.initial [] where
  waiters := ⟨Waitq.holds_initial, by simp [MutexSystem.initial], by simp [MutexSystem.initial]⟩
  null_idle := rfl
  successful := by simp [MutexSystem.initial]

theorem ne_zero (h : MutexLinked sys waiting) (hpc : sys.pc thread ≠ .idle) : thread ≠ 0 := by
  rintro rfl
  exact hpc h.null_idle

/-- What has to be checked when one thread moves. -/
theorem move (h : MutexLinked sys waiting) {queue : Waitq} {waiting' : List Nat} (owner : Nat)
    (holds : Nat → Bool) (hthread : thread ≠ 0)
    (hwaiters : Waiters queue waiting' (update sys.pc thread pc) .sleeping .awake)
    (hsuccessful : pc ≠ .returned false) :
    MutexLinked ⟨owner, queue, update sys.pc thread pc, holds⟩ waiting' := by
  refine ⟨hwaiters, ?_, (forall_update_iff sys.pc fun _ point => point ≠ .returned false).mpr
    ⟨hsuccessful, fun other _ => h.successful other⟩⟩
  show update sys.pc thread pc 0 = .idle
  rw [update_of_ne (Ne.symm hthread)]
  exact h.null_idle

theorem outside (h : MutexLinked sys waiting) (owner : Nat) (holds : Nat → Bool)
    (hthread : thread ≠ 0) (hawake : sys.pc thread ≠ .sleeping)
    (hpc : pc = .idle ∨ pc = .checked ∨ pc = .unlocking ∨ pc = .returned true) :
    MutexLinked ⟨owner, sys.waitingQueue, update sys.pc thread pc, holds⟩ waiting := by
  refine h.move owner holds hthread (h.waiters.outside hawake ?_ ?_) ?_
  all_goals rcases hpc with rfl | rfl | rfl | rfl <;> simp

theorem wait (h : MutexLinked sys waiting) (hchecked : sys.pc thread = .checked) :
    MutexLinked ({ sys with waitingQueue := sys.waitingQueue.enqueue thread }.goto thread .sleeping)
      (thread :: waiting) := by
  have hthread : thread ≠ 0 := h.ne_zero (by rw [hchecked]; simp)
  exact h.move _ _ hthread (h.waiters.enqueue hthread (by rw [hchecked]; simp) (by simp)) (by simp)

theorem passOn_nil (h : MutexLinked sys []) : sys.passOn thread = { sys with owner := 0 } := by
  unfold MutexSystem.passOn
  rw [h.waiters.queue.dequeue_nil]

/-- The first waiting thread is woken, and the owner stays for now. -/
theorem passOn_cons (h : MutexLinked sys (waiter :: rest)) (hthread : thread ≠ 0)
    (hawake : sys.pc thread ≠ .sleeping) :
    ∃ queue, sys.passOn thread = ⟨sys.owner, queue,
        update (update sys.pc waiter .awake) thread .unlocking, sys.holds⟩ ∧
      MutexLinked (sys.passOn thread) rest := by
  have hsleeping : sys.pc waiter = .sleeping := (h.waiters.mem_iff waiter).mp (by simp)
  have hwaiter : waiter ≠ 0 := h.ne_zero (by rw [hsleeping]; simp)
  obtain ⟨queue, hdequeue, hwaiters⟩ := h.waiters.dequeue (by simp)
  have heq : sys.passOn thread = ⟨sys.owner, queue,
      update (update sys.pc waiter .awake) thread .unlocking, sys.holds⟩ := by
    unfold MutexSystem.passOn MutexSystem.wake
    rw [hdequeue]
    show (if sys.pc waiter = .sleeping then _ else _ : MutexSystem).goto thread .unlocking = _
    rw [if_pos hsleeping]
    rfl
  have hwoken : MutexLinked ⟨sys.owner, queue, update sys.pc waiter .awake, sys.holds⟩ rest :=
    h.move _ _ hwaiter hwaiters (by simp)
  have hne : thread ≠ waiter := fun hsame => hawake (hsame ▸ hsleeping)
  refine ⟨queue, heq, heq ▸ hwoken.outside _ _ hthread ?_ (Or.inr (Or.inr (Or.inl rfl)))⟩
  show update sys.pc waiter .awake thread ≠ .sleeping
  rw [update_of_ne hne]
  exact hawake

/-- A call of `unlock` leaves no waiting thread on a free mutex, unless there was one. -/
theorem unlock (h : MutexLinked sys waiting) (hthread : thread ≠ 0) (hidle : sys.pc thread = .idle) :
    ∃ waiting', MutexLinked (sys.unlock thread) waiting' ∧
      ((sys.unlock thread).owner = 0 → waiting' ≠ [] → sys.owner = 0 ∧ waiting ≠ []) := by
  have hreleased : MutexLinked { sys with holds := update sys.holds thread false } waiting :=
    ⟨h.waiters, h.null_idle, h.successful⟩
  unfold MutexSystem.unlock
  by_cases howner : sys.owner = thread
  · rw [if_pos howner]
    cases waiting with
    | nil =>
      rw [hreleased.passOn_nil]
      exact ⟨[], ⟨h.waiters, h.null_idle, h.successful⟩, fun _ hne => absurd rfl hne⟩
    | cons waiter rest =>
      have hawake : sys.pc thread ≠ .sleeping := by
        rw [hidle]
        simp
      obtain ⟨queue, heq, hpassed⟩ := hreleased.passOn_cons hthread hawake
      refine ⟨rest, hpassed, fun hnull => absurd hnull ?_⟩
      rw [heq]
      show sys.owner ≠ 0
      rw [howner]
      exact hthread
  · rw [if_neg howner]
    exact ⟨waiting, hreleased, fun hnull hne => ⟨hnull, hne⟩⟩

/-- Every step keeps the queue. A thread waits for a free mutex afterwards only when one did before,
or when it has just entered the queue of a free mutex. -/
theorem step {event : MutexEvent} (h : MutexLinked sys waiting)
    (hstep : sys.step event = some after) :
    ∃ waiting', MutexLinked after waiting' ∧ (after.owner = 0 → waiting' ≠ [] →
      sys.owner = 0 ∧ (waiting ≠ [] ∨ ∃ thread, event = .wait thread)) := by
  cases MutexSystem.step_cases hstep with
  | lockFree hthread =>
    exact ⟨waiting, ⟨h.waiters, h.null_idle, h.successful⟩, fun hnull => absurd hnull hthread⟩
  | lockOwned hthread hidle howned =>
    exact ⟨waiting, h.outside _ _ hthread (by rw [hidle]; simp) (Or.inr (Or.inl rfl)),
      fun hnull => absurd hnull howned⟩
  | wait hchecked =>
    exact ⟨_, h.wait hchecked, fun hnull _ => ⟨hnull, Or.inr ⟨_, rfl⟩⟩⟩
  | resume hawake =>
    rw [h.waiters.notified _ hawake]
    exact ⟨waiting, h.outside _ _ (h.ne_zero (by rw [hawake]; simp)) (by rw [hawake]; simp)
      (Or.inr (Or.inr (Or.inr rfl))), fun hnull hne => ⟨hnull, Or.inl hne⟩⟩
  | finish hreturned =>
    have hthread := h.ne_zero (by rw [hreturned]; simp)
    exact ⟨waiting, h.outside _ _ hthread (by rw [hreturned]; simp) (Or.inl rfl),
      fun hnull => absurd hnull hthread⟩
  | finishFailed hfailed => exact absurd hfailed (h.successful _)
  | unlock hthread hidle =>
    obtain ⟨waiting', hlinked, hfree⟩ := h.unlock hthread hidle
    exact ⟨waiting', hlinked, fun hnull hne =>
      ⟨(hfree hnull hne).1, Or.inl (hfree hnull hne).2⟩⟩
  | unlockReturn hunlocking =>
    exact ⟨waiting, h.outside _ _ (h.ne_zero (by rw [hunlocking]; simp))
      (by rw [hunlocking]; simp) (Or.inl rfl), fun hnull hne => ⟨hnull, Or.inl hne⟩⟩

end MutexLinked

/-! ## The token -/

/-- At most one thread has the token, the mutex then has an owner, and a thread that holds the mutex
is the owner. -/
structure TokenSound (sys : MutexSystem) : Prop where
  single : ∀ first second, sys.HasToken first → sys.HasToken second → first = second
  owned : ∀ thread, sys.HasToken thread → sys.owner ≠ 0
  holder : ∀ thread, sys.holds thread = true → sys.owner = thread

/-- Only a thread that holds the mutex unlocks it. -/
def UnlocksHeld (sys : MutexSystem) : MutexEvent → Prop
  | .unlock thread => sys.holds thread = true
  | _ => True

instance (sys : MutexSystem) : (event : MutexEvent) → Decidable (UnlocksHeld sys event)
  | .unlock _ => inferInstanceAs (Decidable (_ = _))
  | .lock _ => inferInstanceAs (Decidable True)
  | .wait _ => inferInstanceAs (Decidable True)
  | .resume _ => inferInstanceAs (Decidable True)
  | .finish _ => inferInstanceAs (Decidable True)
  | .unlockReturn _ => inferInstanceAs (Decidable True)

namespace TokenSound

variable {sys after : MutexSystem} {waiting : List Nat} {thread : Nat} {pc : MutexPc}

theorem initial : TokenSound MutexSystem.initial := by
  have hnone : ∀ thread, ¬ MutexSystem.initial.HasToken thread := by
    intro thread
    simp [MutexSystem.HasToken, MutexSystem.initial]
  exact ⟨fun first _ hfirst => absurd hfirst (hnone first),
    fun thread hhas => absurd hhas (hnone thread),
    fun thread hholds => absurd (Or.inl hholds) (hnone thread)⟩

theorem of_imp (h : TokenSound sys) (htoken : ∀ thread, after.HasToken thread → sys.HasToken thread)
    (howner : after.owner = sys.owner) (hholds : after.holds = sys.holds) : TokenSound after := by
  refine ⟨fun first second hfirst hsecond => ?_, fun thread hhas => ?_, fun thread hholding => ?_⟩
  · exact h.single first second (htoken first hfirst) (htoken second hsecond)
  · rw [howner]
    exact h.owned thread (htoken thread hhas)
  · rw [howner]
    exact h.holder thread (hholds ▸ hholding)

theorem of_only (thread : Nat)
    (honly : ∀ other, after.HasToken other → other = thread ∧ after.owner ≠ 0)
    (hholder : ∀ other, after.holds other = true → after.owner = other) : TokenSound after := by
  refine ⟨fun first second hfirst hsecond => ?_, fun other hhas => (honly other hhas).2, hholder⟩
  exact (honly first hfirst).1.trans (honly second hsecond).1.symm

/-- A thread moves to a point where it has no more of a token than before. -/
theorem goto (h : TokenSound sys) {queue : Waitq}
    (hpc : (pc = .awake ∨ ∃ successful, pc = .returned successful) → sys.HasToken thread) :
    TokenSound ({ sys with waitingQueue := queue }.goto thread pc) := by
  refine h.of_imp (fun other hhas => ?_) rfl rfl
  by_cases heq : other = thread
  · subst heq
    rcases hhas with hholds | hpoint
    · exact Or.inl hholds
    · refine hpc ?_
      simpa only [MutexSystem.goto, update_self] using hpoint
  · simpa only [MutexSystem.HasToken, MutexSystem.goto, update_of_ne heq] using hhas

/-- A thread becomes the holder when no other thread has the token. -/
theorem hold (hthread : thread ≠ 0) (honly : ∀ other, sys.HasToken other → other = thread) :
    TokenSound (sys.hold thread) := by
  have hholds : ∀ other, (sys.hold thread).holds other = true → other = thread := by
    intro other hholding
    by_contra hne
    have hbefore : update sys.holds thread true other = true := hholding
    rw [update_of_ne hne] at hbefore
    exact hne (honly other (Or.inl hbefore))
  refine of_only thread (fun other hhas => ⟨?_, hthread⟩)
    fun other hholding => (hholds other hholding).symm
  rcases hhas with hholding | hpoint
  · exact hholds other hholding
  · exact honly other (Or.inr hpoint)

/-- The holder passes the token to the first thread of the queue, or gives it back. -/
theorem unlock (h : TokenSound sys) (hlinked : MutexLinked sys waiting) (hthread : thread ≠ 0)
    (hidle : sys.pc thread = .idle) (hholding : sys.holds thread = true) :
    TokenSound (sys.unlock thread) := by
  have howner := h.holder thread hholding
  have honly : ∀ other, sys.HasToken other → other = thread :=
    fun other hother => h.single other thread hother (Or.inl hholding)
  -- nobody holds the mutex any more
  have hreleased : ∀ other, update sys.holds thread false other ≠ true :=
    (forall_update_iff sys.holds fun _ held => held ≠ true).mpr
      ⟨nofun, fun other hne hother => hne (honly other (Or.inl hother))⟩
  -- and nobody was notified before
  have hpoint : ∀ other,
      ¬ (sys.pc other = .awake ∨ ∃ successful, sys.pc other = .returned successful) := by
    intro other hother
    have heq := honly other (Or.inr hother)
    rw [heq, hidle] at hother
    simp at hother
  have hreleasedLinked :
      MutexLinked { sys with holds := update sys.holds thread false } waiting :=
    ⟨hlinked.waiters, hlinked.null_idle, hlinked.successful⟩
  unfold MutexSystem.unlock
  rw [if_pos howner]
  cases waiting with
  | nil =>
    rw [hreleasedLinked.passOn_nil]
    refine of_only thread (fun other hhas => ?_)
      fun other hother => absurd hother (hreleased other)
    rcases hhas with hother | hother
    · exact absurd hother (hreleased other)
    · exact absurd hother (hpoint other)
  | cons waiter rest =>
    obtain ⟨queue, heq, _⟩ := hreleasedLinked.passOn_cons hthread (by rw [hidle]; simp)
    rw [heq]
    refine of_only waiter (fun other hhas => ⟨?_, ?_⟩)
      fun other hother => absurd hother (hreleased other)
    · rcases hhas with hother | hother
      · exact absurd hother (hreleased other)
      · by_contra hne
        by_cases hself : other = thread
        · simp only [hself, update_self, reduceCtorEq, exists_false, or_self] at hother
        · simp only [update_of_ne hself, update_of_ne hne] at hother
          exact hpoint other hother
    · show sys.owner ≠ 0
      rw [howner]
      exact hthread

/-- Every step keeps the token with one thread, when only the holder unlocks. -/
theorem step {event : MutexEvent} (h : TokenSound sys) (hlinked : MutexLinked sys waiting)
    (hheld : UnlocksHeld sys event) (hstep : sys.step event = some after) : TokenSound after := by
  cases MutexSystem.step_cases hstep with
  | lockFree hthread _ hfree => exact hold hthread fun other hhas => absurd hfree (h.owned other hhas)
  | lockOwned => exact h.goto (by simp)
  | wait => exact h.goto (by simp)
  | resume hawake => exact h.goto fun _ => Or.inr (Or.inl hawake)
  | finish hreturned =>
    have hholds : TokenSound (sys.hold _) :=
      hold (hlinked.ne_zero (by rw [hreturned]; simp))
        fun other hother => h.single other _ hother (Or.inr (Or.inr ⟨true, hreturned⟩))
    exact hholds.goto (by simp)
  | finishFailed hfailed => exact absurd hfailed (hlinked.successful _)
  | unlock hthread hidle => exact h.unlock hlinked hthread hidle hheld
  | unlockReturn => exact h.goto (by simp)

end TokenSound

/-! ## Whole runs -/

/-- At most one thread is between a `lock()` that returned `true` and its `unlock()`, and the check
of the owner succeeds when that thread calls `unlock()`. -/
def MutuallyExclusive (sys : MutexSystem) : Prop :=
  (∀ first second, sys.holds first = true → sys.holds second = true → first = second) ∧
    ∀ thread, sys.holds thread = true → sys.owner = thread

/-- In every run in which only holders unlock, the mutex excludes all threads but its holder. -/
theorem mutex_mutual_exclusion {events : List MutexEvent} {final : MutexSystem}
    (hheld : Meets MutexSystem.step UnlocksHeld MutexSystem.initial events)
    (hrun : run MutexSystem.step MutexSystem.initial events = some final) :
    MutuallyExclusive final := by
  obtain ⟨waiting, _, h⟩ := run_invariant_of_meets
    (fun sys => ∃ waiting, MutexLinked sys waiting ∧ TokenSound sys)
    (fun _ _ _ ⟨_, hlinked, h⟩ hcondition hstep =>
      let ⟨waiting, hafter, _⟩ := hlinked.step hstep
      ⟨waiting, hafter, h.step hlinked hcondition hstep⟩)
    ⟨[], MutexLinked.initial, TokenSound.initial⟩ hheld hrun
  refine ⟨fun first second hfirst hsecond => ?_, h.holder⟩
  exact h.single first second (Or.inl hfirst) (Or.inl hsecond)

/-- Three threads contend, and the second one gets the mutex from the first while the first tries
to lock it again. -/
theorem mutex_mutual_exclusion_handover : ∃ sys,
    run MutexSystem.step MutexSystem.initial
      [.lock 1, .lock 2, .wait 2, .lock 3, .unlock 1, .wait 3, .unlockReturn 1, .lock 1, .resume 2,
        .wait 1, .finish 2] = some sys ∧
    sys.holds 2 = true ∧ MutuallyExclusive sys := by
  refine exists_of_any (fun sys => sys.holds 2 = true) (by decide +kernel) ?_
  intro sys hrun hholding
  exact ⟨hholding, mutex_mutual_exclusion (by decide +kernel) hrun⟩

/-- A thread enters the queue only while the mutex has an owner. -/
def WaitsOwned (sys : MutexSystem) : MutexEvent → Prop
  | .wait _ => sys.owner ≠ 0
  | _ => True

instance (sys : MutexSystem) : (event : MutexEvent) → Decidable (WaitsOwned sys event)
  | .wait _ => inferInstanceAs (Decidable (_ ≠ _))
  | .lock _ => inferInstanceAs (Decidable True)
  | .resume _ => inferInstanceAs (Decidable True)
  | .finish _ => inferInstanceAs (Decidable True)
  | .unlock _ => inferInstanceAs (Decidable True)
  | .unlockReturn _ => inferInstanceAs (Decidable True)

/-- The mutex has an owner or nobody waits for it. -/
def NoWaiterOnFree (sys : MutexSystem) : Prop :=
  ¬ (sys.owner = 0 ∧ sys.waitingQueue.wq ≠ 0)

/-- A run never has a waiter on a free mutex exactly when every thread enters the queue while the
mutex has an owner. -/
theorem no_waiter_iff_owned {events : List MutexEvent} {final : MutexSystem}
    (hrun : run MutexSystem.step MutexSystem.initial events = some final) :
    Always MutexSystem.step NoWaiterOnFree MutexSystem.initial events ↔
      Meets MutexSystem.step WaitsOwned MutexSystem.initial events := by
  refine always_iff_meets
    (fun sys => ∃ waiting, MutexLinked sys waiting ∧ (sys.owner = 0 → waiting = []))
    ?_ ?_ ?_ ⟨[], MutexLinked.initial, fun _ => rfl⟩ hrun
  · rintro sys ⟨waiting, h, hempty⟩ ⟨hfree, hwaiter⟩
    exact hwaiter (h.waiters.queue.wq_eq_zero_iff.mpr (hempty hfree))
  · rintro sys event after ⟨waiting, h, hempty⟩ howned hstep
    obtain ⟨waiting', h', hnew⟩ := h.step hstep
    refine ⟨waiting', h', fun hfree => ?_⟩
    by_contra hne
    obtain ⟨hbefore, hwaiting | ⟨thread, rfl⟩⟩ := hnew hfree hne
    · exact hwaiting (hempty hbefore)
    · exact howned hbefore
  · rintro sys event after ⟨waiting, h, _⟩ hunowned hstep
    cases event with
    | wait thread =>
      have hfree : sys.owner = 0 := not_not.mp hunowned
      cases MutexSystem.step_cases hstep with
      | wait hchecked =>
        have hwaiter := (h.wait hchecked).waiters.queue.wq_eq_zero_iff
        exact fun hnone => hnone ⟨hfree, fun hnull => by simpa using hwaiter.mp hnull⟩
    | _ => exact absurd trivial hunowned

/-- Two threads contend, and the second one is in the queue before the first unlocks. -/
theorem no_waiter_two_threads :
    Always MutexSystem.step NoWaiterOnFree MutexSystem.initial
      [.lock 1, .lock 2, .wait 2, .unlock 1, .resume 2, .finish 2, .unlock 2] := by
  refine (no_waiter_iff_owned (Option.some_get ?_).symm).mpr ?_ <;> decide +kernel

/-- The first thread unlocks between the check and the `wait` of the second one, which then waits
for a mutex that nobody holds. -/
theorem lost_wakeup : ∃ sys,
    run MutexSystem.step MutexSystem.initial [.lock 1, .lock 2, .unlock 1, .wait 2] =
      some sys ∧
    sys.owner = 0 ∧ sys.waitingQueue.wq = 2 ∧ sys.pc 2 = .sleeping ∧ ¬ NoWaiterOnFree sys := by
  refine ⟨_, rfl, by decide +kernel, by decide +kernel, by decide +kernel, fun h => h ⟨?_, ?_⟩⟩
  · decide +kernel
  · decide +kernel

end Otrix
