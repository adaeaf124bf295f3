import Otrix.Kernel.Scheduler.Partition
import Otrix.Kernel.Waitq

/-!
# Waiting with a timeout

A wait queue together with the scheduler that its threads sleep in. `wait` puts
the item of the current thread into the queue and calls `sleep`; the interrupt
flag is cleared until the next thread runs, so this is one step. The thread is
inside `wait` from then until it runs again and returns. `notify_all` is a loop
of `notify_one`, and each turn of it is a step of its own, because `notify_one`
ends with a call of `schedule`.

A thread whose timeout expires is woken by `handle_timer_irq`, which knows
nothing of wait queues, and `wait` does not remove the item either. Up to the
first expired timeout the items in the queue are those of the waiting threads.
-/

namespace Otrix

open Linked Machine

/-- A wait queue, the scheduler, and the threads that are inside `wait`. -/
structure WaitSystem where
  kernel : Kernel
  waitq : Waitq
  inWait : Nat → Bool

/-- What can happen around a wait queue. -/
inductive WaitEvent where
  /-- A call that does not come from the queue: the timer interrupt, `schedule`, a new thread, or
  threads that sleep and wake elsewhere. -/
  | kernel (event : KernelEvent)
  /-- The current thread calls `wait` while the time stamp counter reads `tsc`. -/
  | wait (timeoutMs tsc : Nat)
  /-- The current thread returns from `wait`. -/
  | waitReturns
  /-- `notify_one`, up to its call of `schedule`. -/
  | notifyOne

namespace WaitSystem

/-- A call from elsewhere does not come from a thread inside `wait`, and does not wake one by
name. -/
def Outside (sys : WaitSystem) : KernelEvent → Bool
  | .sleep _ _ => !sys.inWait sys.kernel.scheduler.currentThread
  | .sleepUntil _ => !sys.inWait sys.kernel.scheduler.currentThread
  | .wake thread => !sys.inWait thread
  | .addThread _ => true
  | .schedule => true
  | .timerIrq _ => true

section

variable (priority : Nat → Priority) (idle : Nat) (nsToTsc : Nat → Nat)

/-- One event. -/
def step (sys : WaitSystem) : WaitEvent → Option WaitSystem
  | .kernel event =>
    if sys.Outside event then do
      let kernel ← sys.kernel.step priority idle nsToTsc event
      some { sys with kernel := kernel }
    else none
  | .wait timeoutMs tsc =>
    let thread := sys.kernel.scheduler.currentThread
    if sys.inWait thread then none
    else do
      let kernel ← sys.kernel.step priority idle nsToTsc (.sleep timeoutMs tsc)
      some
        { kernel := kernel
          waitq := sys.waitq.enqueue thread
          inWait := Function.update sys.inWait thread true }
  | .waitReturns =>
    let thread := sys.kernel.scheduler.currentThread
    if sys.inWait thread then
      some { sys with inWait := Function.update sys.inWait thread false }
    else none
  | .notifyOne =>
    match sys.waitq.dequeue with
    | none => some sys
    | some (thread, waitq) => do
      let kernel ← sys.kernel.step priority idle nsToTsc (.wake thread)
      some { sys with kernel := kernel, waitq := waitq }

/-- A new queue, on a scheduler that has only the idle thread. -/
def initial : WaitSystem where
  kernel := Kernel.initial priority idle
  waitq := Waitq.initial
  inWait := fun _ => false

end

/-- The thread is blocked inside `wait`. -/
def Waiting (sys : WaitSystem) (thread : Nat) : Prop :=
  sys.inWait thread = true ∧ sys.kernel.scheduler.state thread = .blocked
  deriving Decidable

end WaitSystem

open WaitSystem

/-- The items in the queue are those of the given threads, which are the waiting ones. -/
structure ItemsAreWaiters (sys : WaitSystem) (threads : List Nat) : Prop where
  items : sys.waitq.Holds threads
  waiting : ∀ thread, thread ∈ threads ↔ sys.Waiting thread

/-- While a thread waits, `notify_one` returns, and ends the wait of a waiting thread, which it
tells so. -/
def NotifyWakesWaiter (priority : Nat → Priority) (idle : Nat) (nsToTsc : Nat → Nat)
    (sys : WaitSystem) : Prop :=
  (∃ thread, sys.Waiting thread) →
    ∃ woken after, sys.step priority idle nsToTsc .notifyOne = some after ∧ sys.Waiting woken ∧
      after.kernel.scheduler.state woken ≠ .blocked ∧ after.waitq.wakeupSuccessful woken = true

/-- The step lets no timeout of a waiting thread expire, and does not put a thread to sleep in a
way that breaks the ring of blocked threads. -/
def NoTimeout (priority : Nat → Priority) (nsToTsc : Nat → Nat) (sys : WaitSystem) :
    WaitEvent → Prop
  | .kernel (.timerIrq tsc) =>
    ∀ thread, sys.Waiting thread →
      ∀ reading, tsc reading ≤ sys.kernel.scheduler.tscDeadline thread
  | .kernel event => FewBlocked priority nsToTsc sys.kernel event
  | .wait timeoutMs tsc => FewBlocked priority nsToTsc sys.kernel (.sleep timeoutMs tsc)
  | .waitReturns => True
  | .notifyOne => True

variable {priority : Nat → Priority} {idle : Nat} {nsToTsc : Nat → Nat} {sys after : WaitSystem}
  {threads : List Nat} {event : KernelEvent}

theorem NoTimeout.few_blocked (h : NoTimeout priority nsToTsc sys (.kernel event)) :
    FewBlocked priority nsToTsc sys.kernel event := by
  cases event with
  | timerIrq tsc =>
    intro tscDeadline hdeadline
    cases hdeadline
  | _ => exact h

theorem NoTimeout.not_may_wake {thread : Nat} (h : NoTimeout priority nsToTsc sys (.kernel event))
    (houtside : sys.Outside event = true) (hwaiting : sys.Waiting thread) :
    ¬ event.MayWake sys.kernel thread := by
  cases event with
  | wake woken =>
    rintro rfl
    have hin : sys.inWait thread = true := hwaiting.1
    simp [Outside, hin] at houtside
  | timerIrq tsc =>
    rintro ⟨reading, hbehind⟩
    exact absurd (h thread hwaiting reading) (Nat.not_le.mpr hbehind)
  | _ => exact id

/-- The sound states: the scheduler's queues are sound, and the items are those of the waiting
threads. -/
structure WaitSound (priority : Nat → Priority) (idle : Nat) (sys : WaitSystem)
    (threads : List Nat) : Prop extends ItemsAreWaiters sys threads where
  kernel : sys.kernel.Sound priority idle

theorem WaitSound.current_not_waiting (h : WaitSound priority idle sys threads) :
    ¬ sys.Waiting sys.kernel.scheduler.currentThread := by
  obtain ⟨_, hsound⟩ := h.kernel
  exact fun hwaiting => hsound.current.2 hwaiting.2

theorem wait_sound_initial (priority : Nat → Priority) (hidle : idle ≠ 0) :
    WaitSound priority idle (WaitSystem.initial priority idle) [] := by
  refine ⟨⟨Waitq.holds_initial, fun thread => ?_⟩, sound_initial priority hidle⟩
  exact iff_of_false (by simp) fun hwaiting => Bool.false_ne_true hwaiting.1

/-! ## Steps -/

/-- A call from elsewhere changes neither the queue nor who waits. -/
theorem WaitSound.kernel_step (h : WaitSound priority idle sys threads)
    (hcondition : NoTimeout priority nsToTsc sys (.kernel event))
    (hstep : sys.step priority idle nsToTsc (.kernel event) = some after) :
    WaitSound priority idle after threads := by
  simp only [WaitSystem.step, Option.ite_none_right_eq_some] at hstep
  obtain ⟨houtside, hstep⟩ := hstep
  obtain ⟨kernel, hkernel, hafter⟩ := Option.bind_eq_some_iff.mp hstep
  obtain rfl := Option.some.inj hafter
  obtain ⟨hsound, heffect⟩ := h.kernel.step hcondition.few_blocked hkernel
  refine ⟨⟨h.items, fun thread => (h.waiting thread).trans ⟨fun hwaiting => ?_, ?_⟩⟩, hsound⟩
  · exact ⟨hwaiting.1,
      heffect.kept thread hwaiting.2 (hcondition.not_may_wake houtside hwaiting)⟩
  · rintro ⟨hin, hblocked⟩
    refine ⟨hin, ?_⟩
    rcases heffect.blocked thread hblocked with hbefore | ⟨hsleeps, rfl⟩
    · exact hbefore
    · -- the thread went to sleep elsewhere, so it is not inside this `wait`
      have hinside : sys.inWait sys.kernel.scheduler.currentThread = true := hin
      cases event with
      | sleep blockTimeMs tsc => simp [Outside, hinside] at houtside
      | sleepUntil tscDeadline => simp [Outside, hinside] at houtside
      | _ => cases hsleeps

/-- The current thread puts its item into the queue and goes to sleep. -/
theorem WaitSound.wait_step {timeoutMs tsc : Nat} (h : WaitSound priority idle sys threads)
    (hcondition : NoTimeout priority nsToTsc sys (.wait timeoutMs tsc))
    (hstep : sys.step priority idle nsToTsc (.wait timeoutMs tsc) = some after) :
    WaitSound priority idle after (sys.kernel.scheduler.currentThread :: threads) := by
  simp only [WaitSystem.step, Option.ite_none_left_eq_some] at hstep
  obtain ⟨kernel, hkernel, hafter⟩ := Option.bind_eq_some_iff.mp hstep.2
  obtain rfl := Option.some.inj hafter
  obtain ⟨hsound, heffect⟩ := h.kernel.step hcondition hkernel
  have hthread : sys.kernel.scheduler.currentThread ≠ 0 := by
    obtain ⟨_, hbefore⟩ := h.kernel
    exact fun heq => hbefore.nonnull (heq ▸ hbefore.current.1)
  have hnew : sys.kernel.scheduler.currentThread ∉ threads :=
    fun hin => h.current_not_waiting ((h.waiting _).mp hin)
  refine ⟨⟨h.items.enqueue hthread hnew, fun thread => ?_⟩, hsound⟩
  show thread ∈ _ :: threads ↔
    Function.update sys.inWait _ true thread = true ∧ kernel.scheduler.state thread = .blocked
  by_cases heq : thread = sys.kernel.scheduler.currentThread
  · subst heq
    rw [Function.update_self]
    exact iff_of_true List.mem_cons_self ⟨rfl, heffect.asleep rfl⟩
  · rw [Function.update_of_ne heq, List.mem_cons, or_iff_right heq, h.waiting]
    refine and_congr_right fun _ => ⟨fun hbefore => heffect.kept thread hbefore id, ?_⟩
    intro hblocked
    rcases heffect.blocked thread hblocked with hbefore | ⟨_, hcurrent⟩
    · exact hbefore
    · exact absurd hcurrent heq

/-- The current thread returns, and its item is not in the queue. -/
theorem WaitSound.wait_returns_step (h : WaitSound priority idle sys threads)
    (hstep : sys.step priority idle nsToTsc .waitReturns = some after) :
    WaitSound priority idle after threads := by
  simp only [WaitSystem.step, Option.ite_none_right_eq_some, Option.some.injEq] at hstep
  obtain ⟨_, rfl⟩ := hstep
  refine ⟨⟨h.items, fun thread => ?_⟩, h.kernel⟩
  show thread ∈ threads ↔ Function.update sys.inWait _ false thread = true ∧ _
  by_cases heq : thread = sys.kernel.scheduler.currentThread
  · subst heq
    rw [h.waiting, Function.update_self]
    exact iff_of_false h.current_not_waiting fun hin => Bool.false_ne_true hin.1
  · rw [Function.update_of_ne heq]
    exact h.waiting thread

/-- `notify_one` on a queue with items: the first thread leaves the queue and is woken. -/
theorem WaitSound.notify_cons {woken : Nat} {rest : List Nat}
    (h : WaitSound priority idle sys (woken :: rest)) :
    ∃ after, sys.step priority idle nsToTsc .notifyOne = some after ∧
      WaitSound priority idle after rest ∧ after.kernel.scheduler.state woken ≠ .blocked ∧
      after.waitq.wakeupSuccessful woken = true := by
  obtain ⟨waitq, hdequeue, hitems, hflags⟩ := h.items.dequeue_cons
  have hfew : FewBlocked priority nsToTsc sys.kernel (.wake woken) := by
    intro tscDeadline hdeadline
    cases hdeadline
  obtain ⟨kernel, hkernel, hsound, heffect⟩ :=
    h.kernel.returns (fun hrefused : KernelEvent.Refused idle sys.kernel (.wake woken) =>
      hrefused) hfew
  have hrest : woken ∉ rest := (List.nodup_cons.mp h.items.nodup).1
  refine ⟨{ sys with kernel := kernel, waitq := waitq }, ?_, ⟨⟨hitems, fun thread => ?_⟩, hsound⟩,
    heffect.awake woken rfl, ?_⟩
  · simp only [WaitSystem.step, hdequeue, hkernel, Option.bind_eq_bind, Option.bind_some]
  · show thread ∈ rest ↔ sys.inWait thread = true ∧ kernel.scheduler.state thread = .blocked
    by_cases heq : thread = woken
    · subst heq
      exact iff_of_false hrest fun hin => heffect.awake thread rfl hin.2
    · have hmem : thread ∈ rest ↔ sys.Waiting thread := by
        rw [← h.waiting, List.mem_cons, or_iff_right heq]
      rw [hmem]
      refine and_congr_right fun _ => ⟨fun hbefore => heffect.kept thread hbefore heq, ?_⟩
      intro hblocked
      rcases heffect.blocked thread hblocked with hbefore | ⟨hsleeps, _⟩
      · exact hbefore
      · cases hsleeps
  · show waitq.wakeupSuccessful woken = true
    rw [hflags, Function.update_self]

theorem WaitSound.notify_step (h : WaitSound priority idle sys threads)
    (hstep : sys.step priority idle nsToTsc .notifyOne = some after) :
    ∃ threads, WaitSound priority idle after threads := by
  cases threads with
  | nil =>
    simp only [WaitSystem.step, h.items.dequeue_nil, Option.some.injEq] at hstep
    exact ⟨[], hstep ▸ h⟩
  | cons woken rest =>
    obtain ⟨other, hother, hsound, _⟩ := h.notify_cons
    rw [hother, Option.some.injEq] at hstep
    exact ⟨rest, hstep ▸ hsound⟩

/-- Every step without a timeout keeps the items those of the waiting threads. -/
theorem WaitSound.step {event : WaitEvent} (h : WaitSound priority idle sys threads)
    (hcondition : NoTimeout priority nsToTsc sys event)
    (hstep : sys.step priority idle nsToTsc event = some after) :
    ∃ threads, WaitSound priority idle after threads := by
  cases event with
  | kernel event => exact ⟨threads, h.kernel_step hcondition hstep⟩
  | wait timeoutMs tsc => exact ⟨_, h.wait_step hcondition hstep⟩
  | waitReturns => exact ⟨threads, h.wait_returns_step hstep⟩
  | notifyOne => exact h.notify_step hstep

/-- When the items are those of the waiting threads, `notify_one` finds one. -/
theorem WaitSound.notify_wakes (h : WaitSound priority idle sys threads) :
    NotifyWakesWaiter priority idle nsToTsc sys := by
  rintro ⟨thread, hwaiting⟩
  have hmem := (h.waiting thread).mpr hwaiting
  cases threads with
  | nil => cases hmem
  | cons woken rest =>
    obtain ⟨after, hstep, _, hstate, hflag⟩ := h.notify_cons
    exact ⟨woken, after, hstep, (h.waiting woken).mp List.mem_cons_self, hstate, hflag⟩

/-! ## Runs -/

/-- In every run in which no timeout of a waiting thread expires, the items in the queue are those
of the threads that are blocked inside `wait`, and `notify_one` wakes one of them. -/
theorem items_are_waiters_without_timeout (priority : Nat → Priority) (nsToTsc : Nat → Nat)
    (hidle : idle ≠ 0) {events : List WaitEvent} {final : WaitSystem}
    (hmeets : Meets (WaitSystem.step priority idle nsToTsc) (NoTimeout priority nsToTsc)
      (WaitSystem.initial priority idle) events)
    (hrun : run (WaitSystem.step priority idle nsToTsc) (WaitSystem.initial priority idle)
      events = some final) :
    (∃ threads, ItemsAreWaiters final threads) ∧
      NotifyWakesWaiter priority idle nsToTsc final := by
  obtain ⟨threads, h⟩ := run_invariant_of_meets
    (fun sys => ∃ threads, WaitSound priority idle sys threads)
    (fun _ _ _ ⟨_, h⟩ hcondition hstep => h.step hcondition hstep)
    ⟨[], wait_sound_initial priority hidle⟩ hmeets hrun
  exact ⟨⟨threads, h.toItemsAreWaiters⟩, h.notify_wakes⟩

/-- A thread that is the first one to wait, while nothing that follows lets a timeout expire. -/
theorem no_timeout_first_wait {events : List WaitEvent} (hrest : ∀ sys,
      Meets (WaitSystem.step (fun _ => 4) 1 id) (NoTimeout (fun _ => 4) id) sys events) :
    Meets (WaitSystem.step (fun _ => 4) 1 id) (NoTimeout (fun _ => 4) id)
      (WaitSystem.initial (fun _ => 4) 1)
      (.kernel (.addThread 2) :: .kernel .schedule :: .wait 1 0 :: events) := by
  have hwait : ∀ sys ∈ run (WaitSystem.step (fun _ => 4) 1 id)
      (WaitSystem.initial (fun _ => 4) 1) [.kernel (.addThread 2), .kernel .schedule],
      FewBlocked (fun _ => 4) id sys.kernel (.sleep 1 0) := by
    decide +kernel
  refine ⟨nofun, fun added hadd => ⟨nofun, fun running hschedule => ⟨?_, fun sys _ => hrest sys⟩⟩⟩
  exact hwait running (by simp [run, hadd, hschedule])

/-- A thread waits with a timeout, is notified ahead of its deadline, and returns. -/
theorem items_are_waiters_notified_in_time : ∃ final,
    run (WaitSystem.step (fun _ => 4) 1 id) (WaitSystem.initial (fun _ => 4) 1)
      [.kernel (.addThread 2), .kernel .schedule, .wait 1 0, .kernel (.timerIrq fun _ => 0),
        .notifyOne, .kernel .schedule, .waitReturns] = some final ∧
    ∃ threads, ItemsAreWaiters final threads := by
  refine exists_of_isSome (by decide +kernel) fun final hrun => ?_
  refine (items_are_waiters_without_timeout _ _ (by decide) (no_timeout_first_wait fun _ => ?_) hrun).1
  exact ⟨fun _ _ _ => Nat.zero_le _, fun _ _ => ⟨trivial, fun _ _ => ⟨nofun, fun _ _ =>
    ⟨trivial, fun _ _ => trivial⟩⟩⟩⟩

/-- Thread 3 waits without a timeout, then thread 2 waits for a millisecond. The interrupt wakes
thread 2, which returns from `wait` with its item still in the queue. The next `notify_one` takes
that item, and thread 3 goes on waiting. -/
theorem timeout_leaves_item : ∃ final after,
    run (WaitSystem.step (fun thread => if thread = 2 then 5 else 4) 1 id)
      (WaitSystem.initial (fun thread => if thread = 2 then 5 else 4) 1)
      [.kernel (.addThread 3), .kernel .schedule, .wait infinite 0, .kernel (.addThread 2),
        .kernel .schedule, .wait 1 0, .kernel (.timerIrq fun _ => 2000000), .waitReturns] =
      some final ∧
    final.step (fun thread => if thread = 2 then 5 else 4) 1 id .notifyOne = some after ∧
    final.inWait 2 = false ∧ (¬ ∃ threads, ItemsAreWaiters final threads) ∧
    final.Waiting 3 ∧ after.Waiting 3 := by
  have hresult : (run (WaitSystem.step (fun thread => if thread = 2 then 5 else 4) 1 id)
      (WaitSystem.initial (fun thread => if thread = 2 then 5 else 4) 1)
      [.kernel (.addThread 3), .kernel .schedule, .wait infinite 0, .kernel (.addThread 2),
        .kernel .schedule, .wait 1 0, .kernel (.timerIrq fun _ => 2000000), .waitReturns]).any
      (fun final => decide (final.inWait 2 = false ∧ final.waitq.wq = 2 ∧ final.Waiting 3) &&
        (final.step (fun thread => if thread = 2 then 5 else 4) 1 id .notifyOne).any
          fun after => decide (after.Waiting 3)) = true := by
    decide +kernel
  obtain ⟨final, hrun, hfinal⟩ := (Option.any_eq_true _ _).mp hresult
  obtain ⟨hstate, hnotify⟩ := Bool.and_eq_true_iff.mp hfinal
  obtain ⟨hreturned, hitem, hwaiting⟩ := of_decide_eq_true hstate
  obtain ⟨after, hstep, hstill⟩ := (Option.any_eq_true _ _).mp hnotify
  refine ⟨final, after, hrun, hstep, hreturned, ?_, hwaiting, of_decide_eq_true hstill⟩
  rintro ⟨threads, hitems, hwaiters⟩
  -- the queue starts with the item of thread 2, which is not inside `wait`
  cases threads with
  | nil => exact absurd (hitems.wq_eq_zero_iff.mpr rfl) (by rw [hitem]; decide)
  | cons first rest =>
    have hfirst : final.waitq.wq = first := hitems.head_eq
    obtain ⟨hinside, _⟩ := (hwaiters first).mp List.mem_cons_self
    rw [← hfirst, hitem, hreturned] at hinside
    cases hinside

end Otrix
