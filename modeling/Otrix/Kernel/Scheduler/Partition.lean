import Otrix.Kernel.Scheduler.Queues
import Otrix.Foundation.Run
import Mathlib.Data.List.Nodup

/-!
# The partition of the threads

Every added thread is in exactly one queue, the queue of its own priority that
matches its state, and the current thread can run. This holds throughout a run
exactly as long as no thread goes to sleep with a deadline while two threads of
its priority are blocked already: `intrusive_list_insert_sorted` breaks a ring of
two or more nodes.
-/

namespace Otrix

open Function Linked Machine

variable {priority : Nat → Priority} {idle : Nat} {nsToTsc : Nat → Nat} {kernel after : Kernel}
  {s : Scheduler} {added : List Nat} {lists : KthreadQueue → List Nat} {thread : Nat}

/-- The queues hold the added threads, and the current thread and the idle thread can run. -/
structure Sound (priority : Nat → Priority) (idle : Nat) (added : List Nat) (s : Scheduler)
    (lists : KthreadQueue → List Nat) : Prop extends Filing priority (· ∈ added) s lists where
  blocked_added : ∀ thread, s.state thread = .blocked → thread ∈ added
  current : s.currentThread ∈ added ∧ s.state s.currentThread ≠ .blocked
  idle_runnable : idle ∈ added ∧ s.state idle ≠ .blocked
  preempt : s.preemptDisable = 0

/-- The queues hold the added threads, whichever thread runs: the current thread may have been taken
out of the scheduler, and preemption may be disabled. -/
structure Settled (priority : Nat → Priority) (idle : Nat) (added : List Nat) (s : Scheduler)
    (lists : KthreadQueue → List Nat) : Prop extends Filing priority (· ∈ added) s lists where
  blocked_added : ∀ thread, s.state thread = .blocked → thread ∈ added
  awake : s.state s.currentThread ≠ .blocked
  idle_runnable : idle ∈ added ∧ s.state idle ≠ .blocked

theorem Sound.settled (h : Sound priority idle added s lists) :
    Settled priority idle added s lists :=
  ⟨h.toFiling, h.blocked_added, h.current.2, h.idle_runnable⟩

/-- Settled queues are sound while an added thread runs that can be preempted. -/
theorem Settled.sound (h : Settled priority idle added s lists) (hcurrent : s.currentThread ∈ added)
    (hpreempt : s.preemptDisable = 0) : Sound priority idle added s lists :=
  ⟨h.toFiling, h.blocked_added, ⟨hcurrent, h.awake⟩, h.idle_runnable, hpreempt⟩

/-- The constructor leaves the idle thread in its queue. -/
theorem sound_initial (priority : Nat → Priority) (hidle : idle ≠ 0) :
    ∃ lists, Sound priority idle [idle] (Scheduler.initial priority idle) lists := by
  have hempty : Filing priority (fun _ => False) Scheduler.empty (fun _ => []) := by
    refine ⟨⟨?_, by simp⟩, fun queue x => by simp, id⟩
    intro queue
    have hhead : headsOf Scheduler.empty.runnableQueues Scheduler.empty.blockedQueues queue = 0 := by
      cases queue <;> rfl
    rw [hhead]
    exact Queue.nil
  have hadded := (add_thread_filing hempty id hidle).congr_members (· ∈ [idle]) (by simp)
  have hstate : (Scheduler.empty.addThread priority idle).state =
      update (fun _ => KthreadState.zombie) idle .runnable := by
    simp [Scheduler.addThread, hidle, Scheduler.empty]
  have hidleState : (Scheduler.empty.addThread priority idle).state idle ≠ .blocked := by
    simp [hstate]
  unfold Scheduler.initial
  refine ⟨_, ⟨hadded.rings, hadded.filed, hadded.nonnull⟩, ?_, ⟨by simp, hidleState⟩,
    ⟨by simp, hidleState⟩, ?_⟩
  · intro thread hblocked
    by_cases heq : thread = idle
    · simp [heq]
    · simp [hstate, heq] at hblocked
  · simp [Scheduler.addThread, hidle, Scheduler.empty]

/-! ## What each call preserves -/

/-- A new thread is runnable, and blocks no other. -/
theorem Settled.add (h : Settled priority idle added s lists) (hnew : thread ∉ added)
    (hthread : thread ≠ 0) :
    (∃ lists', Settled priority idle (thread :: added) (s.addThread priority thread) lists' ∧
      ∀ prio, lists' (.blocked prio) = lists (.blocked prio)) ∧
      ((s.addThread priority thread).currentThread = s.currentThread ∧
        (s.addThread priority thread).preemptDisable = s.preemptDisable) ∧
      ∀ other, (s.addThread priority thread).state other = .blocked ↔
        s.state other = .blocked := by
  have hfiled := (add_thread_filing h.toFiling hnew hthread).congr_members
    (· ∈ thread :: added) (by simp)
  have hstate : (s.addThread priority thread).state =
      update s.state thread .runnable := by
    simp [Scheduler.addThread, hthread]
  have hrest : (s.addThread priority thread).currentThread = s.currentThread ∧
      (s.addThread priority thread).preemptDisable = s.preemptDisable := by
    simp [Scheduler.addThread, hthread]
  -- a thread that was not added yet was not blocked
  have hsame : ∀ other, (s.addThread priority thread).state other = .blocked ↔
      s.state other = .blocked := by
    intro other
    rw [hstate]
    by_cases heq : other = thread
    · subst heq
      rw [update_self]
      exact iff_of_false (by simp) fun hin => hnew (h.blocked_added other hin)
    · rw [update_of_ne heq]
  refine ⟨⟨_, ⟨hfiled, ?_, ?_, ?_⟩, fun _ => update_of_ne (by simp) ..⟩, hrest, hsame⟩
  · intro other hblocked
    exact List.mem_cons_of_mem _ (h.blocked_added other ((hsame other).mp hblocked))
  · rw [hrest.1]
    exact fun hin => h.awake ((hsame _).mp hin)
  · exact ⟨List.mem_cons_of_mem _ h.idle_runnable.1,
      fun hin => h.idle_runnable.2 ((hsame _).mp hin)⟩

theorem Sound.add (h : Sound priority idle added s lists) (hnew : thread ∉ added)
    (hthread : thread ≠ 0) :
    (∃ lists', Sound priority idle (thread :: added) (s.addThread priority thread) lists' ∧
      ∀ prio, lists' (.blocked prio) = lists (.blocked prio)) ∧
      ∀ other, (s.addThread priority thread).state other = .blocked ↔
        s.state other = .blocked := by
  obtain ⟨⟨lists', hsettled, hlists⟩, ⟨hcurrent, hpreempt⟩, hsame⟩ := h.settled.add hnew hthread
  refine ⟨⟨lists', hsettled.sound ?_ (hpreempt.trans h.preempt), hlists⟩, hsame⟩
  rw [hcurrent]
  exact List.mem_cons_of_mem _ h.current.1

/-- A filing with a runnable idle thread can be scheduled. The states change only between runnable
and active. -/
theorem Filing.schedule_sound (h : Filing priority (· ∈ added) s lists)
    (hblocked : ∀ thread, s.state thread = .blocked → thread ∈ added)
    (hidle : idle ∈ added ∧ s.state idle ≠ .blocked) (hpreempt : s.preemptDisable = 0) :
    ∃ after lists', s.schedule = some after ∧ Sound priority idle added after lists' ∧
      (∀ prio, lists' (.blocked prio) = lists (.blocked prio)) ∧
      after.tscDeadline = s.tscDeadline ∧ after.timer = s.timer ∧
      ∀ thread, after.state thread = .blocked ↔ s.state thread = .blocked := by
  obtain ⟨prio, head, rest, hlist, hschedule, hfiling⟩ :=
    schedule_filing h hpreempt hidle.1 hidle.2
  have hhead : head ∈ lists (.runnable prio) := by
    rw [hlist]
    exact List.mem_cons_self
  obtain ⟨hmember, hstate, _⟩ := h.runnable_mem hhead
  have hsame : ∀ thread, update s.state head .active thread = .blocked ↔
      s.state thread = .blocked := by
    intro thread
    by_cases heq : thread = head
    · subst heq
      simp [hstate]
    · rw [update_of_ne heq]
  exact ⟨_, _, hschedule, ⟨hfiling, fun thread hin => hblocked thread ((hsame thread).mp hin),
    ⟨hmember, fun hin => hstate ((hsame head).mp hin)⟩,
    ⟨hidle.1, fun hin => hidle.2 ((hsame idle).mp hin)⟩, hpreempt⟩,
    fun _ => update_of_ne (by simp) .., rfl, rfl, hsame⟩

/-- `schedule` settles the queues again. While preemption is disabled it does nothing. -/
theorem Settled.schedule (h : Settled priority idle added s lists) :
    ∃ after lists', s.schedule = some after ∧ Settled priority idle added after lists' ∧
      (∀ prio, lists' (.blocked prio) = lists (.blocked prio)) ∧
      after.tscDeadline = s.tscDeadline ∧ after.preemptDisable = s.preemptDisable ∧
      (s.currentThread ∈ added → after.currentThread ∈ added) ∧
      ∀ thread, after.state thread = .blocked ↔ s.state thread = .blocked := by
  by_cases hpreempt : s.preemptDisable = 0
  · obtain ⟨after, lists', hschedule, hsound, hlists, hdeadline, _, hsame⟩ :=
      h.toFiling.schedule_sound h.blocked_added h.idle_runnable hpreempt
    exact ⟨after, lists', hschedule, hsound.settled, hlists, hdeadline,
      hsound.preempt.trans hpreempt.symm, fun _ => hsound.current.1, hsame⟩
  · exact ⟨s, lists, by rw [Scheduler.schedule, if_pos (Nat.pos_of_ne_zero hpreempt)], h,
      fun _ => rfl, rfl, rfl, id, fun _ => Iff.rfl⟩

/-- A wake-up settles the queues, and unblocks the thread and no other. -/
theorem Settled.wake (h : Settled priority idle added s lists) (thread : Nat) :
    (∃ lists', Settled priority idle added (s.wake priority thread) lists' ∧
      ∀ prio, List.Sublist (lists' (.blocked prio)) (lists (.blocked prio))) ∧
      ((s.wake priority thread).tscDeadline = s.tscDeadline ∧
        (s.wake priority thread).currentThread = s.currentThread ∧
        (s.wake priority thread).preemptDisable = s.preemptDisable) ∧
      ∀ other, (s.wake priority thread).state other = .blocked ↔
        s.state other = .blocked ∧ other ≠ thread := by
  by_cases hblocked : s.state thread = .blocked
  · have hmember := h.blocked_added thread hblocked
    have hthread : thread ≠ 0 := fun heq => h.nonnull (heq ▸ hmember)
    have hfiling := wake_filing h.toFiling hmember hblocked
    obtain ⟨_, _, _, _, _, _, hwake⟩ := wake_eq priority hblocked hthread
    rw [hwake] at hfiling ⊢
    have hwho : ∀ other, update s.state thread .runnable other = .blocked ↔
        s.state other = .blocked ∧ other ≠ thread := by
      intro other
      by_cases heq : other = thread
      · simp [heq]
      · simp [heq]
    refine ⟨⟨_, ⟨hfiling, fun other hin => h.blocked_added other ((hwho other).mp hin).1,
      fun hin => h.awake ((hwho _).mp hin).1,
      ⟨h.idle_runnable.1, fun hin => h.idle_runnable.2 ((hwho _).mp hin).1⟩⟩, ?_⟩,
      ⟨rfl, rfl, rfl⟩, hwho⟩
    intro prio
    rw [update_of_ne (by simp)]
    by_cases heq : prio = priority thread
    · rw [heq, update_self]
      exact List.erase_sublist
    · rw [update_of_ne (by simp [heq])]
  · -- the wake-up is refused
    rw [Scheduler.wake, if_pos hblocked]
    refine ⟨⟨lists, h, fun _ => List.Sublist.refl _⟩, ⟨rfl, rfl, rfl⟩,
      fun other => ⟨fun hin => ⟨hin, ?_⟩, And.left⟩⟩
    rintro rfl
    exact hblocked hin

theorem Sound.wake (h : Sound priority idle added s lists) (thread : Nat) :
    (∃ lists', Sound priority idle added (s.wake priority thread) lists' ∧
      ∀ prio, List.Sublist (lists' (.blocked prio)) (lists (.blocked prio))) ∧
      (s.wake priority thread).tscDeadline = s.tscDeadline ∧
      ∀ other, (s.wake priority thread).state other = .blocked ↔
        s.state other = .blocked ∧ other ≠ thread := by
  obtain ⟨⟨lists', hsettled, hlists⟩, ⟨hdeadline, hcurrent, hpreempt⟩, hwho⟩ :=
    h.settled.wake thread
  refine ⟨⟨lists', hsettled.sound ?_ (hpreempt.trans h.preempt), hlists⟩, hdeadline, hwho⟩
  rw [hcurrent]
  exact h.current.1

/-- Until it calls `schedule`, `sleep_until` moves the current thread from its runnable queue to its
blocked queue. -/
theorem Sound.block_current (h : Sound priority idle added s lists) {fuel tscDeadline : Nat}
    (hfuel : fuel ≠ 0)
    (hfew : tscDeadline ≠ infinite → s.AtMostOneBlocked (priority s.currentThread)) :
    ∃ asleep lists', s.sleepUntil priority fuel tscDeadline = asleep.schedule ∧
      Filing priority (· ∈ added) asleep lists' ∧
      (∀ prio, lists' (.runnable prio) = (lists (.runnable prio)).erase s.currentThread) ∧
      (∀ prio, prio ≠ priority s.currentThread → lists' (.blocked prio) = lists (.blocked prio)) ∧
      Enqueued s.tscDeadline s.currentThread tscDeadline
        (lists (.blocked (priority s.currentThread)))
        (lists' (.blocked (priority s.currentThread))) ∧
      asleep.state = update s.state s.currentThread .blocked ∧
      asleep.tscDeadline = update s.tscDeadline s.currentThread tscDeadline ∧
      asleep.preemptDisable = 0 := by
  obtain ⟨fuel, rfl⟩ := Nat.exists_eq_succ_of_ne_zero hfuel
  have hthread : s.currentThread ≠ 0 := fun heq => h.nonnull (heq ▸ h.current.1)
  have hremoved := remove_thread_filing h.toFiling h.current.1 h.current.2
  generalize hs : s.removeThread priority s.currentThread = removed at hremoved
  obtain ⟨hstate, hdeadline, hpreempt⟩ :
      removed.state = update s.state s.currentThread .zombie ∧
      removed.tscDeadline = s.tscDeadline ∧ removed.preemptDisable = s.preemptDisable := by
    rw [← hs, Scheduler.removeThread, if_neg hthread]
    exact ⟨rfl, rfl, rfl⟩
  -- the blocked queues are the same as before the removal
  have hfew' : tscDeadline = infinite ∨ removed.AtMostOneBlocked (priority s.currentThread) := by
    by_cases hinfinite : tscDeadline = infinite
    · exact Or.inl hinfinite
    · right
      rw [hremoved.at_most_one_iff, update_of_ne (by simp)]
      exact (h.at_most_one_iff _).mp (hfew hinfinite)
  obtain ⟨links, head, nearest, nodes, hblock, hblocked, henqueued⟩ :=
    block_filing fuel hremoved (fun hin => hin.1 rfl) hthread hfew'
  rw [hdeadline, update_of_ne (by simp)] at henqueued
  have hmembers : ∀ x, x ∈ added ↔ x = s.currentThread ∨ x ≠ s.currentThread ∧ x ∈ added := by
    intro x
    by_cases heq : x = s.currentThread
    · simp [heq, h.current.1]
    · simp [heq]
  have hfiling := hblocked.congr_members (· ∈ added) hmembers
  have hsleep : s.sleepUntil priority (fuel + 1) tscDeadline =
      (removed.withBlocked priority s.currentThread tscDeadline links head
        nearest).startTimer.schedule := by
    simp only [Scheduler.sleepUntil, hs, hblock, Option.bind_eq_bind, Option.bind_some]
  rw [hsleep, start_timer_eq]
  refine ⟨_, _, rfl, ⟨hfiling.rings, hfiling.filed, hfiling.nonnull⟩, ?_, ?_, ?_, ?_, ?_, ?_⟩
  · intro prio
    rw [update_of_ne (by simp)]
    by_cases heq : prio = priority s.currentThread
    · rw [heq, update_self]
    · have hnot : s.currentThread ∉ lists (.runnable prio) := fun hin =>
        heq (h.runnable_mem hin).2.2.symm
      rw [update_of_ne (by simp [heq]), List.erase_of_not_mem hnot]
  · intro prio hne
    rw [update_of_ne (by simp [hne]), update_of_ne (by simp)]
  · rw [update_self]
    exact henqueued
  · show update removed.state s.currentThread .blocked = _
    rw [hstate, update_idem]
  · show update removed.tscDeadline s.currentThread tscDeadline = _
    rw [hdeadline]
  · show removed.preemptDisable = 0
    rw [hpreempt, h.preempt]

/-- The current thread blocks, and another is scheduled. -/
theorem Sound.sleep_until (h : Sound priority idle added s lists) (hcurrent : s.currentThread ≠ idle)
    {fuel tscDeadline : Nat} (hfuel : fuel ≠ 0)
    (hfew : tscDeadline ≠ infinite → s.AtMostOneBlocked (priority s.currentThread)) :
    ∃ after lists', s.sleepUntil priority fuel tscDeadline = some after ∧
      Sound priority idle added after lists' ∧
      (∀ prio, prio ≠ priority s.currentThread → lists' (.blocked prio) = lists (.blocked prio)) ∧
      Enqueued s.tscDeadline s.currentThread tscDeadline
        (lists (.blocked (priority s.currentThread)))
        (lists' (.blocked (priority s.currentThread))) ∧
      after.tscDeadline = update s.tscDeadline s.currentThread tscDeadline ∧
      ∀ thread, after.state thread = .blocked ↔
        thread = s.currentThread ∨ s.state thread = .blocked := by
  obtain ⟨asleep, lists', hsleep, hfiling, _, hothers, henqueued, hstate, hdeadline, hpreempt⟩ :=
    h.block_current hfuel hfew
  have hwho : ∀ thread, asleep.state thread = .blocked ↔
      thread = s.currentThread ∨ s.state thread = .blocked := by
    intro thread
    rw [hstate]
    by_cases heq : thread = s.currentThread
    · simp [heq]
    · simp [heq]
  have hblocked : ∀ thread, asleep.state thread = .blocked → thread ∈ added := by
    intro thread hin
    rcases (hwho thread).mp hin with rfl | hin
    · exact h.current.1
    · exact h.blocked_added thread hin
  have hidle : asleep.state idle ≠ .blocked := by
    intro hin
    rcases (hwho idle).mp hin with heq | hin
    · exact hcurrent heq.symm
    · exact h.idle_runnable.2 hin
  rw [hsleep]
  obtain ⟨after, lists'', hschedule, hsound, hlists, hsame, _, hkept⟩ :=
    hfiling.schedule_sound hblocked ⟨h.idle_runnable.1, hidle⟩ hpreempt
  refine ⟨after, lists'', hschedule, hsound, fun prio hne => ?_, ?_, hsame.trans hdeadline,
    fun thread => (hkept thread).trans (hwho thread)⟩
  · rw [hlists, hothers prio hne]
  · rw [hlists]
    exact henqueued

/-- The timer interrupt settles the queues, and wakes no thread whose deadline is ahead of every
reading. -/
theorem Settled.timer_irq (h : Settled priority idle added s lists) (tsc : Nat → Nat) :
    ∃ after lists', s.handleTimerIrq priority (added.length + 1) tsc = some after ∧
      Settled priority idle added after lists' ∧
      (∀ prio, List.Sublist (lists' (.blocked prio)) (lists (.blocked prio))) ∧
      (after.tscDeadline = s.tscDeadline ∧ after.preemptDisable = s.preemptDisable ∧
        (s.currentThread ∈ added → after.currentThread ∈ added)) ∧
      (∀ thread, after.state thread = .blocked → s.state thread = .blocked) ∧
      ∀ thread, s.state thread = .blocked → (∀ reading, tsc reading ≤ s.tscDeadline thread) →
        after.state thread = .blocked := by
  obtain ⟨woken, lists', hirq, hfiling, hexpiry, hexpires, _⟩ := h.toFiling.expire_all tsc
  have hsublist : ∀ prio, List.Sublist (lists' (.blocked prio)) (lists (.blocked prio)) := by
    intro prio
    obtain ⟨front, hnodes, _⟩ := hexpires prio
    rw [hnodes]
    exact List.sublist_append_right ..
  have hstate : ∀ thread, woken.state thread = .blocked → s.state thread = .blocked := by
    intro thread hin
    rcases hexpiry.state thread with hsame | ⟨_, hrunnable, _⟩
    · exact hsame ▸ hin
    · rw [hrunnable] at hin
      cases hin
  have hkept : ∀ thread, s.state thread = .blocked →
      (∀ reading, tsc reading ≤ s.tscDeadline thread) → woken.state thread = .blocked := by
    intro thread hin hahead
    rcases hexpiry.state thread with hsame | ⟨_, _, reading, hexpired⟩
    · exact hsame.trans hin
    · exact absurd hexpired (Nat.not_lt.mpr (hahead reading))
  have hcurrent : s.currentThread ∈ added → woken.currentThread ∈ added := by
    rw [hexpiry.currentThread]
    exact id
  have hsettled : Settled priority idle added woken lists' := by
    refine ⟨hfiling, fun thread hin => h.blocked_added thread (hstate thread hin), ?_,
      ⟨h.idle_runnable.1, fun hin => h.idle_runnable.2 (hstate idle hin)⟩⟩
    rw [hexpiry.currentThread]
    exact fun hin => h.awake (hstate _ hin)
  rw [hirq]
  by_cases hresched : woken.needResched = true
  · rw [if_pos hresched]
    obtain ⟨after, lists'', hschedule, hafter, hlists, hdeadline, hpreempt, hrun, hsame⟩ :=
      hsettled.schedule
    exact ⟨after, lists'', hschedule, hafter, fun prio => hlists prio ▸ hsublist prio,
      ⟨hdeadline.trans hexpiry.tscDeadline, hpreempt.trans hexpiry.preemptDisable,
        fun hin => hrun (hcurrent hin)⟩,
      fun thread hin => hstate thread ((hsame thread).mp hin),
      fun thread hin hahead => (hsame thread).mpr (hkept thread hin hahead)⟩
  · rw [if_neg hresched]
    exact ⟨_, lists', rfl, hsettled, hsublist,
      ⟨hexpiry.tscDeadline, hexpiry.preemptDisable, hcurrent⟩, hstate, hkept⟩

theorem Sound.timer_irq (h : Sound priority idle added s lists) (tsc : Nat → Nat) :
    ∃ after lists', s.handleTimerIrq priority (added.length + 1) tsc = some after ∧
      Sound priority idle added after lists' ∧
      (∀ prio, List.Sublist (lists' (.blocked prio)) (lists (.blocked prio))) ∧
      after.tscDeadline = s.tscDeadline ∧
      (∀ thread, after.state thread = .blocked → s.state thread = .blocked) ∧
      ∀ thread, s.state thread = .blocked → (∀ reading, tsc reading ≤ s.tscDeadline thread) →
        after.state thread = .blocked := by
  obtain ⟨after, lists', hirq, hsettled, hsublist, ⟨hdeadline, hpreempt, hrun⟩, hstate, hkept⟩ :=
    h.settled.timer_irq tsc
  exact ⟨after, lists', hirq, hsettled.sound (hrun h.current.1) (hpreempt.trans h.preempt), hsublist,
    hdeadline, hstate, hkept⟩

/-! ## The broken ring -/

theorem schedule_links {after : Scheduler} (h : s.schedule = some after) :
    after.links = s.links := by
  unfold Scheduler.schedule at h
  split at h
  · exact Option.some.inj h ▸ rfl
  · obtain ⟨prio, _, hafter⟩ := Option.bind_eq_some_iff.mp h
    exact Option.some.inj hafter ▸ rfl

/-- Going to sleep with a deadline while two threads of the priority are blocked leaves the node of
the sleeping thread without a predecessor that points to it. -/
theorem Sound.sleep_until_broken (h : Sound priority idle added s lists) {tscDeadline fuel : Nat}
    {after : Scheduler} (hfinite : tscDeadline ≠ infinite)
    (hmany : ¬ s.AtMostOneBlocked (priority s.currentThread))
    (hsleep : s.sleepUntil priority fuel tscDeadline = some after) :
    next after.links (prev after.links s.currentThread) ≠ s.currentThread := by
  have hremoved := remove_thread_filing h.toFiling h.current.1 h.current.2
  rw [h.at_most_one_iff] at hmany
  simp only [Scheduler.sleepUntil] at hsleep
  generalize s.removeThread priority s.currentThread = removed at hremoved hsleep
  obtain ⟨asleep, hblock, hschedule⟩ := Option.bind_eq_some_iff.mp hsleep
  have hlinks : after.links = asleep.links := by
    rw [schedule_links hschedule, start_timer_eq]
  have hring := (hremoved.rings.queue (.blocked (priority s.currentThread))).ring
  have hhead := (hremoved.rings.queue (.blocked (priority s.currentThread))).head_eq
  have hapart := hremoved.apart (fun hin => hin.1 rfl) (.blocked (priority s.currentThread))
  rw [update_of_ne (by simp)] at hring hhead hapart
  match hlist : lists (.blocked (priority s.currentThread)) with
  | [] => simp [hlist] at hmany
  | [_] => simp [hlist] at hmany
  | first :: second :: rest =>
    rw [hlist] at hring hhead hapart
    have hfirst : removed.blockedQueues (priority s.currentThread) = first := hhead
    have hnonnull : first ≠ 0 := hring.nonnull first (by simp)
    simp only [Scheduler.block, if_neg hfinite, hfirst, ne_eq, hnonnull, not_false_eq_true,
      if_true] at hblock
    obtain ⟨⟨links, head⟩, hinsert, hasleep⟩ := Option.bind_eq_some_iff.mp hblock
    rw [hlinks, ← Option.some.inj hasleep]
    exact intrusive_list_insert_sorted_broken hring hapart hinsert

/-! ## Whole runs -/

/-- The priority that a queue is for. -/
def KthreadQueue.prio : KthreadQueue → Priority
  | .runnable prio => prio
  | .blocked prio => prio

/-- The queues, read from the links as these lists, partition the added threads. -/
structure Partitioned (priority : Nat → Priority) (added : List Nat) (s : Scheduler)
    (lists : KthreadQueue → List Nat) : Prop where
  /-- Every queue is null or a circular doubly linked list. -/
  queues : ∀ queue, Queue s.links (headsOf s.runnableQueues s.blockedQueues queue) (lists queue)
  /-- Every added thread is once in one queue, which has its priority. -/
  once : ∀ thread ∈ added, ∃ queue, (lists queue).count thread = 1 ∧
    (∀ other, thread ∈ lists other → other = queue) ∧ queue.prio = priority thread
  /-- The blocked queues hold the threads that are blocked. -/
  blocked : ∀ thread ∈ added,
    (∃ prio, thread ∈ lists (.blocked prio)) ↔ s.state thread = .blocked
  /-- The current thread is in a runnable queue. -/
  current : ∃ prio, s.currentThread ∈ lists (.runnable prio)

theorem Sound.partitioned (h : Sound priority idle added s lists) :
    Partitioned priority added s lists := by
  refine ⟨h.rings.queue, ?_, ?_, ?_⟩
  · intro thread hmember
    refine ⟨queueOf priority s.state thread, ?_, ?_, ?_⟩
    · exact List.count_eq_one_of_mem (h.rings.queue _).ring.nodup (h.mem hmember)
    · intro other hin
      exact ((h.filed other thread).mp hin).2.symm
    · unfold queueOf queueFor
      split
      · rfl
      · rfl
  · intro thread hmember
    refine ⟨fun ⟨prio, hin⟩ => (h.blocked_mem hin).2.1, fun hblocked => ⟨priority thread, ?_⟩⟩
    have hmem := h.mem hmember
    rwa [queueOf, queueFor, if_pos hblocked] at hmem
  · have hmem := h.mem h.current.1
    rw [queueOf, queueFor, if_neg h.current.2] at hmem
    exact ⟨_, hmem⟩

/-- In partitioned queues the predecessor of an added thread points to it. -/
theorem Partitioned.next_prev (h : Partitioned priority added s lists) (hmember : thread ∈ added) :
    next s.links (prev s.links thread) = thread := by
  obtain ⟨queue, hcount, _⟩ := h.once thread hmember
  have hin : thread ∈ lists queue := List.count_pos_iff.mp (by omega)
  exact ((h.queues queue).ring.next_prev hin).2

/-- The deadline of an event that puts the current thread to sleep. -/
def KernelEvent.deadline? (nsToTsc : Nat → Nat) : KernelEvent → Option Nat
  | .sleep blockTimeMs tsc => some (Scheduler.sleepDeadline nsToTsc blockTimeMs tsc)
  | .sleepUntil tscDeadline => some tscDeadline
  | _ => none

/-- The event does not put a thread to sleep with a deadline while two threads of its priority are
blocked. -/
def FewBlocked (priority : Nat → Priority) (nsToTsc : Nat → Nat) (kernel : Kernel)
    (event : KernelEvent) : Prop :=
  ∀ tscDeadline ∈ event.deadline? nsToTsc, tscDeadline ≠ infinite →
    kernel.scheduler.AtMostOneBlocked (priority kernel.scheduler.currentThread)
  deriving Decidable

/-- The queues of the kernel are sound for some lists. -/
def Kernel.Sound (priority : Nat → Priority) (idle : Nat) (kernel : Kernel) : Prop :=
  ∃ lists, Otrix.Sound priority idle kernel.added kernel.scheduler lists

/-- The calls that no caller makes: a thread is not added twice, and the idle thread does not
sleep. -/
def KernelEvent.Refused (idle : Nat) (kernel : Kernel) : KernelEvent → Prop
  | .addThread thread => thread = 0 ∨ thread ∈ kernel.added
  | .sleep _ _ => kernel.scheduler.currentThread = idle
  | .sleepUntil _ => kernel.scheduler.currentThread = idle
  | _ => False

instance (idle : Nat) (kernel : Kernel) : (event : KernelEvent) →
    Decidable (event.Refused idle kernel)
  | .addThread _ => inferInstanceAs (Decidable (_ ∨ _))
  | .sleep _ _ => inferInstanceAs (Decidable (_ = _))
  | .sleepUntil _ => inferInstanceAs (Decidable (_ = _))
  | .schedule => inferInstanceAs (Decidable False)
  | .wake _ => inferInstanceAs (Decidable False)
  | .timerIrq _ => inferInstanceAs (Decidable False)

/-- The event may wake the thread: it is a wake-up of the thread, or an interrupt that reads a time
behind the thread's deadline. -/
def KernelEvent.MayWake (kernel : Kernel) (thread : Nat) : KernelEvent → Prop
  | .wake woken => thread = woken
  | .timerIrq tsc => ∃ reading, kernel.scheduler.tscDeadline thread < tsc reading
  | _ => False

/-- What a call does to the blocked threads. -/
structure KernelEvent.Effect (nsToTsc : Nat → Nat) (event : KernelEvent) (kernel after : Kernel) :
    Prop where
  /-- A call that puts a thread to sleep blocks the current thread. -/
  asleep : (event.deadline? nsToTsc).isSome →
    after.scheduler.state kernel.scheduler.currentThread = .blocked
  /-- No other thread becomes blocked. -/
  blocked : ∀ thread, after.scheduler.state thread = .blocked →
    kernel.scheduler.state thread = .blocked ∨
      (event.deadline? nsToTsc).isSome ∧ thread = kernel.scheduler.currentThread
  /-- Threads stay blocked unless the call wakes them. -/
  kept : ∀ thread, kernel.scheduler.state thread = .blocked → ¬ event.MayWake kernel thread →
    after.scheduler.state thread = .blocked
  /-- A thread that is woken by name is not blocked. -/
  awake : ∀ thread, event = .wake thread → after.scheduler.state thread ≠ .blocked

variable {event : KernelEvent}

/-- The effect of a call that puts the current thread to sleep. -/
theorem KernelEvent.Effect.of_sleep
    (hsleeps : (event.deadline? nsToTsc).isSome)
    (hwho : ∀ thread, after.scheduler.state thread = .blocked ↔
      thread = kernel.scheduler.currentThread ∨ kernel.scheduler.state thread = .blocked) :
    event.Effect nsToTsc kernel after := by
  refine ⟨fun _ => (hwho _).mpr (Or.inl rfl), ?_, fun thread hin _ => (hwho thread).mpr (Or.inr hin),
    ?_⟩
  · intro thread hin
    rcases (hwho thread).mp hin with hcurrent | hbefore
    · exact Or.inr ⟨hsleeps, hcurrent⟩
    · exact Or.inl hbefore
  · rintro thread rfl
    cases hsleeps

/-- The effect of a call that blocks and wakes no thread. -/
theorem KernelEvent.Effect.of_same (hsleeps : event.deadline? nsToTsc = none)
    (hwake : ∀ thread, event ≠ .wake thread)
    (hsame : ∀ thread, after.scheduler.state thread = .blocked ↔
      kernel.scheduler.state thread = .blocked) :
    event.Effect nsToTsc kernel after := by
  refine ⟨fun hin => ?_, fun thread hin => Or.inl ((hsame thread).mp hin),
    fun thread hin _ => (hsame thread).mpr hin, fun thread heq => absurd heq (hwake thread)⟩
  rw [hsleeps] at hin
  cases hin

/-- What a call does to the deadlines and to the order of the blocked queues. -/
structure KernelEvent.Reorders (priority : Nat → Priority) (nsToTsc : Nat → Nat)
    (event : KernelEvent) (s after : Scheduler) (lists lists' : KthreadQueue → List Nat) :
    Prop where
  /-- Threads that leave the queues do not change the order of the others. -/
  kept : event.deadline? nsToTsc = none → after.tscDeadline = s.tscDeadline ∧
    ∀ prio, List.Sublist (lists' (.blocked prio)) (lists (.blocked prio))
  /-- A thread that goes to sleep joins the queue of its priority. -/
  asleep : ∀ tscDeadline ∈ event.deadline? nsToTsc,
    after.tscDeadline = Function.update s.tscDeadline s.currentThread tscDeadline ∧
    (∀ prio, prio ≠ priority s.currentThread → lists' (.blocked prio) = lists (.blocked prio)) ∧
    Enqueued s.tscDeadline s.currentThread tscDeadline (lists (.blocked (priority s.currentThread)))
      (lists' (.blocked (priority s.currentThread)))

theorem KernelEvent.Reorders.of_sublist {s' : Scheduler}
    {lists' : KthreadQueue → List Nat} (hsleeps : event.deadline? nsToTsc = none)
    (hdeadline : s'.tscDeadline = s.tscDeadline)
    (hlists : ∀ prio, List.Sublist (lists' (.blocked prio)) (lists (.blocked prio))) :
    event.Reorders priority nsToTsc s s' lists lists' := by
  refine ⟨fun _ => ⟨hdeadline, hlists⟩, fun tscDeadline hin => ?_⟩
  rw [hsleeps] at hin
  cases hin

/-- The order after a call that puts the current thread to sleep. -/
theorem KernelEvent.Reorders.of_sleep {s' : Scheduler} {tscDeadline : Nat}
    {lists' : KthreadQueue → List Nat} (hsleeps : event.deadline? nsToTsc = some tscDeadline)
    (hdeadline : s'.tscDeadline = update s.tscDeadline s.currentThread tscDeadline)
    (hothers : ∀ prio, prio ≠ priority s.currentThread →
      lists' (.blocked prio) = lists (.blocked prio))
    (henqueued : Enqueued s.tscDeadline s.currentThread tscDeadline
      (lists (.blocked (priority s.currentThread))) (lists' (.blocked (priority s.currentThread)))) :
    event.Reorders priority nsToTsc s s' lists lists' := by
  refine ⟨fun hnone => ?_, fun other hin => ?_⟩
  · rw [hsleeps] at hnone
    cases hnone
  · rw [hsleeps] at hin
    exact Option.some.inj hin ▸ ⟨hdeadline, hothers, henqueued⟩

/-- A call that the condition allows returns, with sound queues, the effect of its event on the
threads and its effect on the order of the queues. -/
theorem Sound.call
    (h : Sound priority idle kernel.added kernel.scheduler lists)
    (hallowed : ¬ event.Refused idle kernel) (hfew : FewBlocked priority nsToTsc kernel event) :
    ∃ after lists', kernel.step priority idle nsToTsc event = some after ∧
      Sound priority idle after.added after.scheduler lists' ∧
      event.Effect nsToTsc kernel after ∧
      event.Reorders priority nsToTsc kernel.scheduler after.scheduler lists lists' := by
  cases event with
  | addThread thread =>
    obtain ⟨hthread, hnew⟩ := not_or.mp hallowed
    obtain ⟨⟨lists', hsound, hlists⟩, hsame⟩ := h.add hnew hthread
    refine ⟨_, lists', if_pos ⟨hthread, hnew⟩, hsound, .of_same rfl (fun _ => by simp) hsame,
      .of_sublist rfl ?_ fun prio => hlists prio ▸ List.Sublist.refl _⟩
    show (kernel.scheduler.addThread priority thread).tscDeadline = _
    rw [Scheduler.addThread, if_neg hthread]
  | schedule =>
    obtain ⟨s, lists', hschedule, hsound, hlists, hdeadline, _, hsame⟩ :=
      h.toFiling.schedule_sound h.blocked_added h.idle_runnable h.preempt
    refine ⟨{ kernel with scheduler := s }, lists', ?_, hsound,
      .of_same rfl (fun _ => by simp) hsame,
      .of_sublist rfl hdeadline fun prio => hlists prio ▸ List.Sublist.refl _⟩
    simp only [Kernel.step, Kernel.perform, hschedule, Option.bind_eq_bind, Option.bind_some]
  | sleep _ _ | sleepUntil _ =>
    obtain ⟨s, lists', hsleep, hsound, hothers, henqueued, hdeadline, hwho⟩ :=
      h.sleep_until hallowed (Nat.succ_ne_zero kernel.added.length) (hfew _ rfl)
    refine ⟨{ kernel with scheduler := s }, lists', ?_, hsound, .of_sleep rfl hwho,
      .of_sleep rfl hdeadline hothers henqueued⟩
    have hcurrent : kernel.scheduler.currentThread ≠ idle := hallowed
    simp only [Kernel.step, Kernel.perform, if_pos hcurrent, Scheduler.sleep, hsleep,
      Option.bind_eq_bind, Option.bind_some]
  | wake woken =>
    obtain ⟨⟨lists', hsound, hlists⟩, hdeadline, hwho⟩ := h.wake woken
    refine ⟨_, lists', rfl, hsound, ⟨fun hsleeps => ?_,
      fun thread hin => Or.inl ((hwho thread).mp hin).1,
      fun thread hin hnot => (hwho thread).mpr ⟨hin, hnot⟩, ?_⟩,
      .of_sublist rfl hdeadline hlists⟩
    · cases hsleeps
    · rintro thread heq hin
      cases heq
      exact ((hwho woken).mp hin).2 rfl
  | timerIrq tsc =>
    obtain ⟨s, lists', hirq, hsound, hlists, hdeadline, hblocked, hkept⟩ := h.timer_irq tsc
    refine ⟨{ kernel with scheduler := s }, lists', ?_, hsound, ⟨fun hsleeps => ?_,
      fun thread hin => Or.inl (hblocked thread hin), fun thread hin hnot => ?_,
      fun thread heq => ?_⟩, .of_sublist rfl hdeadline hlists⟩
    rotate_left
    · cases hsleeps
    · exact hkept thread hin fun reading => Nat.not_lt.mp fun hbehind => hnot ⟨reading, hbehind⟩
    · cases heq
    simp only [Kernel.step, Kernel.perform, hirq, Option.bind_eq_bind, Option.bind_some]

/-- A call that the condition allows returns, with sound queues and the effect of its event. -/
theorem Kernel.Sound.returns (h : kernel.Sound priority idle)
    (hallowed : ¬ event.Refused idle kernel) (hfew : FewBlocked priority nsToTsc kernel event) :
    ∃ after, kernel.step priority idle nsToTsc event = some after ∧ after.Sound priority idle ∧
      event.Effect nsToTsc kernel after := by
  obtain ⟨lists, h⟩ := h
  obtain ⟨after, lists', hstep, hsound, heffect, _⟩ := h.call hallowed hfew
  exact ⟨after, hstep, ⟨lists', hsound⟩, heffect⟩

theorem KernelEvent.Refused.step_eq_none (h : event.Refused idle kernel) :
    kernel.step priority idle nsToTsc event = none := by
  cases event with
  | addThread thread =>
    show (if thread ≠ 0 ∧ thread ∉ kernel.added then _ else none) = none
    exact if_neg fun hguard => h.elim hguard.1 hguard.2
  | schedule => cases h
  | sleep blockTimeMs tsc => exact if_neg fun hguard => hguard h
  | sleepUntil tscDeadline => exact if_neg fun hguard => hguard h
  | wake thread => cases h
  | timerIrq tsc => cases h

/-- A step that the condition allows is a call that returns. -/
theorem Sound.step
    (h : Sound priority idle kernel.added kernel.scheduler lists)
    (hfew : FewBlocked priority nsToTsc kernel event)
    (hstep : kernel.step priority idle nsToTsc event = some after) :
    ∃ lists', Sound priority idle after.added after.scheduler lists' ∧
      event.Effect nsToTsc kernel after ∧
      event.Reorders priority nsToTsc kernel.scheduler after.scheduler lists lists' := by
  by_cases hrefused : event.Refused idle kernel
  · rw [hrefused.step_eq_none] at hstep
    cases hstep
  · obtain ⟨other, lists', hother, hresult⟩ := h.call hrefused hfew
    rw [hother, Option.some.injEq] at hstep
    exact ⟨lists', hstep ▸ hresult⟩

/-- A step that the condition allows keeps the queues sound, and has the effect of its event. -/
theorem Kernel.Sound.step (h : kernel.Sound priority idle)
    (hfew : FewBlocked priority nsToTsc kernel event)
    (hstep : kernel.step priority idle nsToTsc event = some after) :
    after.Sound priority idle ∧ event.Effect nsToTsc kernel after := by
  obtain ⟨lists, h⟩ := h
  obtain ⟨lists', hsound, heffect, _⟩ := h.step hfew hstep
  exact ⟨⟨lists', hsound⟩, heffect⟩

/-- A call that the condition excludes destroys the partition. -/
theorem Kernel.Sound.step_broken (h : kernel.Sound priority idle)
    (hmany : ¬ FewBlocked priority nsToTsc kernel event)
    (hstep : kernel.step priority idle nsToTsc event = some after) :
    ¬ ∃ lists, Partitioned priority after.added after.scheduler lists := by
  obtain ⟨lists, h⟩ := h
  rintro ⟨lists', hpartitioned⟩
  simp only [FewBlocked, not_forall] at hmany
  obtain ⟨tscDeadline, hdeadline, hfinite, hmany⟩ := hmany
  have hsleep : after.added = kernel.added ∧
      kernel.scheduler.sleepUntil priority (kernel.added.length + 1) tscDeadline =
        some after.scheduler := by
    cases event with
    | sleep blockTimeMs tsc =>
      obtain rfl := Option.some.inj hdeadline
      simp only [Kernel.step, Kernel.perform, Option.ite_none_right_eq_some] at hstep
      obtain ⟨s, hsleep, hafter⟩ := Option.bind_eq_some_iff.mp hstep.2
      exact Option.some.inj hafter ▸ ⟨rfl, hsleep⟩
    | sleepUntil deadline =>
      obtain rfl := Option.some.inj hdeadline
      simp only [Kernel.step, Kernel.perform, Option.ite_none_right_eq_some] at hstep
      obtain ⟨s, hsleep, hafter⟩ := Option.bind_eq_some_iff.mp hstep.2
      exact Option.some.inj hafter ▸ ⟨rfl, hsleep⟩
    | _ => cases hdeadline
  have hbroken := h.sleep_until_broken hfinite hmany hsleep.2
  exact hbroken (hpartitioned.next_prev (hsleep.1 ▸ h.current.1))

/-- A sequence of calls returns and keeps the threads partitioned throughout exactly when no thread
goes to sleep with a deadline while two threads of its priority are blocked. -/
theorem partitioned_iff_few_blocked (priority : Nat → Priority) (nsToTsc : Nat → Nat)
    (hidle : idle ≠ 0) {events : List KernelEvent}
    (hallowed : Meets (Kernel.step priority idle nsToTsc)
      (fun kernel event => ¬ event.Refused idle kernel) (Kernel.initial priority idle) events) :
    ((∃ final, run (Kernel.step priority idle nsToTsc) (Kernel.initial priority idle)
        events = some final) ∧
      Always (Kernel.step priority idle nsToTsc)
        (fun kernel => ∃ lists, Partitioned priority kernel.added kernel.scheduler lists)
        (Kernel.initial priority idle) events) ↔
      Meets (Kernel.step priority idle nsToTsc) (FewBlocked priority nsToTsc)
        (Kernel.initial priority idle) events := by
  have hinitial : (Kernel.initial priority idle).Sound priority idle := sound_initial priority hidle
  have hiff : ∀ {final}, run (Kernel.step priority idle nsToTsc)
      (Kernel.initial priority idle) events = some final → _ :=
    fun hrun => always_iff_meets (Kernel.Sound priority idle)
      (fun _ ⟨lists, h⟩ => ⟨lists, h.partitioned⟩)
      (fun _ _ _ h hfew hstep => (h.step hfew hstep).1)
      (fun _ _ _ h hmany hstep => h.step_broken hmany hstep) hinitial hrun
  constructor
  · rintro ⟨⟨final, hrun⟩, halways⟩
    exact (hiff hrun).mp halways
  · intro hmeets
    obtain ⟨final, hrun, _⟩ := run_eq_some_of_meets (Kernel.Sound priority idle)
      (fun _ _ h hcondition =>
        let ⟨next, hstep, hsound, _⟩ := h.returns hcondition.1 hcondition.2
        ⟨next, hstep, hsound⟩) hinitial
      (meets_and hallowed hmeets)
    exact ⟨⟨final, hrun⟩, (hiff hrun).mpr hmeets⟩

/-- A thread sleeps until a deadline behind another thread of its priority, and both come back. -/
theorem partitioned_two_sleepers :
    Always (Kernel.step (fun _ => 4) 1 id)
      (fun kernel => ∃ lists, Partitioned (fun _ => 4) kernel.added kernel.scheduler lists)
      (Kernel.initial (fun _ => 4) 1)
      [.addThread 2, .addThread 3, .schedule, .sleepUntil infinite, .sleepUntil 5,
        .timerIrq fun _ => 6, .wake 3] :=
  ((partitioned_iff_few_blocked (fun _ => 4) id (by decide) (by decide +kernel)).mpr
    (by decide +kernel)).2

/-- Three threads of one priority go to sleep, the last one with a deadline. The sorted insertion
then leaves a node that its predecessor does not point to, and no lists partition the threads. -/
theorem third_sleeper_breaks_queue : ∃ final,
    run (Kernel.step (fun _ => 4) 1 id) (Kernel.initial (fun _ => 4) 1)
      [.addThread 2, .addThread 3, .addThread 4, .schedule, .sleepUntil infinite,
        .sleepUntil infinite, .sleepUntil 5] = some final ∧
    ¬ ∃ lists, Partitioned (fun _ => 4) final.added final.scheduler lists := by
  refine exists_of_any (fun final =>
      ∃ thread ∈ final.added,
        next final.scheduler.links (prev final.scheduler.links thread) ≠ thread)
    (by decide +kernel) ?_
  rintro final hrun ⟨thread, hmember, hne⟩ ⟨lists, hpartitioned⟩
  exact hne (hpartitioned.next_prev hmember)

end Otrix
