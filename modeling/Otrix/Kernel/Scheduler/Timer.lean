import Otrix.Kernel.Scheduler.Partition

/-!
# The timer interrupt and the sleeping threads

`handle_timer_irq` looks only at the heads of the blocked queues, so it wakes all the
threads whose deadlines are over exactly when every blocked queue is in the order of the
deadlines. The sorted insertion keeps this order, as far as it keeps the ring at all. A
thread that sleeps without a deadline is pushed back, which makes it the head of the queue,
and hides every thread of its priority that has a deadline.
-/

namespace Otrix

open Function Linked Machine

variable {priority : Nat → Priority} {idle : Nat} {nsToTsc : Nat → Nat} {kernel after : Kernel}
  {s : Scheduler} {added : List Nat} {lists : KthreadQueue → List Nat} {thread : Nat}

/-- What the timer interrupt is for, when the time stamp counter reads `now`. -/
structure WakesExpired (now : Nat) (before after : Scheduler) : Prop where
  /-- A thread whose deadline is over can run. -/
  expired : ∀ thread, before.state thread = .blocked → before.tscDeadline thread < now →
    after.state thread = .runnable ∨ after.state thread = .active
  /-- A thread without a deadline, or with one that is not over, sleeps on. -/
  asleep : ∀ thread, before.state thread = .blocked →
    before.tscDeadline thread = infinite ∨ now ≤ before.tscDeadline thread →
    after.state thread = .blocked
  /-- The timer was started for a time that is not beyond the deadline of a sleeping thread. -/
  timer : ∀ thread, after.state thread = .blocked → after.tscDeadline thread < infinite →
    ∃ deadline ∈ after.timer, deadline ≤ after.tscDeadline thread

/-- An interrupt that comes now wakes the threads that it should, at whatever time it comes, and
whether or not preemption is disabled. -/
def TimerWakesExpired (priority : Nat → Priority) (kernel : Kernel) : Prop :=
  ∀ now < 2 ^ 64, ∀ disabled, ∃ after,
    { kernel.scheduler with preemptDisable := disabled }.handleTimerIrq priority
      (kernel.added.length + 1) (fun _ => now) = some after ∧
    WakesExpired now kernel.scheduler after

/-- A thread goes to sleep without a deadline only while no thread of its priority sleeps with
one. -/
def NoneWithDeadline (priority : Nat → Priority) (nsToTsc : Nat → Nat) (kernel : Kernel)
    (event : KernelEvent) : Prop :=
  event.deadline? nsToTsc = some infinite → ∀ thread ∈ kernel.added,
    kernel.scheduler.state thread = .blocked →
    priority thread = priority kernel.scheduler.currentThread →
    infinite ≤ kernel.scheduler.tscDeadline thread
  deriving Decidable

/-- The threads are in the order of their deadlines. -/
def ByDeadline (deadline : Nat → Nat) (nodes : List Nat) : Prop :=
  nodes.Pairwise fun first second => deadline first ≤ deadline second

/-- The queues are sound and in order. -/
structure Ordered (priority : Nat → Priority) (idle : Nat) (kernel : Kernel)
    (lists : KthreadQueue → List Nat) : Prop where
  sound : Sound priority idle kernel.added kernel.scheduler lists
  sorted : ∀ prio, ByDeadline kernel.scheduler.tscDeadline (lists (.blocked prio))

/-! ## One interrupt -/

/-- Of an ordered queue, the threads whose deadlines are not over are left. -/
theorem Expires.mem_iff {now : Nat} {deadline : Nat → Nat} {nodes rest : List Nat}
    (h : Expires (fun _ => now) deadline nodes rest) (hsorted : ByDeadline deadline nodes) :
    thread ∈ rest ↔ thread ∈ nodes ∧ now ≤ deadline thread := by
  obtain ⟨woken, rfl, hwoken, hrest⟩ := h
  constructor
  · intro hin
    refine ⟨List.mem_append_right _ hin, ?_⟩
    have hsuffix := (List.pairwise_append.mp hsorted).2.1
    match rest with
    | first :: others =>
      obtain ⟨_, hfirst⟩ := hrest first rfl
      rcases List.mem_cons.mp hin with rfl | hin
      · exact hfirst
      · exact Nat.le_trans hfirst ((List.pairwise_cons.mp hsuffix).1 thread hin)
  · rintro ⟨hin, hahead⟩
    refine (List.mem_append.mp hin).resolve_left fun hgone => ?_
    obtain ⟨_, hexpired⟩ := hwoken thread hgone
    exact Nat.not_lt.mpr hahead hexpired

/-- `schedule` changes only states, and only to active. -/
theorem schedule_eq {after : Scheduler} (h : s.schedule = some after) :
    after.tscDeadline = s.tscDeadline ∧ after.timer = s.timer ∧
      ∀ thread, after.state thread = s.state thread ∨ after.state thread = .active := by
  unfold Scheduler.schedule at h
  split at h
  · cases h
    exact ⟨rfl, rfl, fun _ => Or.inl rfl⟩
  · obtain ⟨prio, _, hafter⟩ := Option.bind_eq_some_iff.mp h
    cases hafter
    refine ⟨rfl, rfl, fun thread => ?_⟩
    by_cases heq : thread = s.runnableQueues prio
    · exact Or.inr (heq ▸ update_self ..)
    · exact Or.inl (update_of_ne heq ..)

/-- What an interrupt does to sound queues: the blocked threads are the ones that are left in the
blocked queues, and the timer is started for the heads of these. -/
theorem Sound.timer_irq_at (h : Sound priority idle added s lists) (now disabled : Nat) :
    ∃ after, ∃ lists' : KthreadQueue → List Nat,
      { s with preemptDisable := disabled }.handleTimerIrq priority (added.length + 1)
        (fun _ => now) = some after ∧
      after.tscDeadline = s.tscDeadline ∧
      (∀ thread, after.state thread = .blocked ↔ ∃ prio, thread ∈ lists' (.blocked prio)) ∧
      (∀ thread, s.state thread = .blocked → after.state thread = .blocked ∨
        after.state thread = .runnable ∨ after.state thread = .active) ∧
      (∀ prio, Expires (fun _ => now) s.tscDeadline (lists (.blocked prio))
        (lists' (.blocked prio))) ∧
      ∀ prio, ∀ x ∈ (lists' (.blocked prio)).head?, s.tscDeadline x < infinite →
        ∃ deadline ∈ after.timer, deadline ≤ s.tscDeadline x := by
  have hfiling : Filing priority (· ∈ added) { s with preemptDisable := disabled } lists :=
    ⟨h.rings, h.filed, h.nonnull⟩
  obtain ⟨woken, lists', hirq, hwoken, hexpiry, hexpires, htimer⟩ :=
    hfiling.expire_all fun _ => now
  have hbefore : ∀ thread, woken.state thread = .blocked → s.state thread = .blocked := by
    intro thread hin
    rcases hexpiry.state thread with hsame | ⟨hblocked, _, _⟩
    · exact hsame ▸ hin
    · exact hblocked
  have hlists : ∀ thread, woken.state thread = .blocked ↔
      ∃ prio, thread ∈ lists' (.blocked prio) := by
    intro thread
    refine ⟨fun hin => ⟨priority thread, ?_⟩, fun ⟨_, hin⟩ => (hwoken.blocked_mem hin).2.1⟩
    have hmem := hwoken.mem (h.blocked_added thread (hbefore thread hin))
    rwa [queueOf, queueFor, if_pos hin] at hmem
  have hstates : ∀ thread, s.state thread = .blocked → woken.state thread = .blocked ∨
      woken.state thread = .runnable := by
    intro thread hin
    rcases hexpiry.state thread with hsame | ⟨_, hrunnable, _⟩
    · exact Or.inl (hsame.trans hin)
    · exact Or.inr hrunnable
  -- the rest of the interrupt at most makes a runnable thread active
  suffices hrest : ∃ after, (if woken.needResched then woken.schedule else some woken) = some after ∧
      (∀ thread, after.state thread = .blocked ↔ woken.state thread = .blocked) ∧
      after.tscDeadline = woken.tscDeadline ∧ after.timer = woken.timer ∧
      ∀ thread, after.state thread = woken.state thread ∨ after.state thread = .active by
    obtain ⟨after, hafter, hsame, hdeadline, hlast, hactive⟩ := hrest
    refine ⟨after, lists', hirq.trans hafter, hdeadline.trans hexpiry.tscDeadline,
      fun thread => (hsame thread).trans (hlists thread), fun thread hin => ?_, hexpires, ?_⟩
    · rcases hactive thread with hkept | hactive
      · rw [hkept]
        exact (hstates thread hin).imp_right Or.inl
      · exact Or.inr (Or.inr hactive)
    · rw [hlast]
      exact htimer
  by_cases hresched : woken.needResched = true
  · rw [if_pos hresched]
    by_cases hdisabled : woken.preemptDisable = 0
    · have hidle : idle ∈ added ∧ woken.state idle ≠ .blocked :=
        ⟨h.idle_runnable.1, fun hin => h.idle_runnable.2 (hbefore idle hin)⟩
      obtain ⟨after, _, hschedule, _, _, _, _, hsame⟩ := hwoken.schedule_sound
        (fun thread hin => h.blocked_added thread (hbefore thread hin)) hidle hdisabled
      exact ⟨after, hschedule, hsame, schedule_eq hschedule⟩
    · have hschedule : woken.schedule = some woken := if_pos (Nat.pos_of_ne_zero hdisabled)
      exact ⟨woken, hschedule, fun _ => Iff.rfl, schedule_eq hschedule⟩
  · rw [if_neg hresched]
    exact ⟨woken, rfl, fun _ => Iff.rfl, rfl, rfl, fun _ => Or.inl rfl⟩

/-- With ordered queues, an interrupt wakes the threads that it should. -/
theorem Ordered.timer_wakes_expired (h : Ordered priority idle kernel lists) :
    TimerWakesExpired priority kernel := by
  intro now hnow disabled
  obtain ⟨after, lists', hirq, hdeadline, hblocked, hstates, hexpires, htimer⟩ :=
    h.sound.timer_irq_at now disabled
  have hleft : ∀ prio thread, thread ∈ lists' (.blocked prio) ↔ thread ∈ lists (.blocked prio) ∧
      now ≤ kernel.scheduler.tscDeadline thread :=
    fun prio thread => (hexpires prio).mem_iff (h.sorted prio)
  refine ⟨after, hirq, fun thread hin hexpired => ?_, fun thread hin hahead => ?_,
    fun thread hin hfinite => ?_⟩
  · refine (hstates thread hin).resolve_left fun hstill => ?_
    obtain ⟨prio, hmem⟩ := (hblocked thread).mp hstill
    have hahead := ((hleft prio thread).mp hmem).2
    omega
  · have hmem := h.sound.mem (h.sound.blocked_added thread hin)
    rw [queueOf, queueFor, if_pos hin] at hmem
    refine (hblocked thread).mpr ⟨_, (hleft _ thread).mpr ⟨hmem, ?_⟩⟩
    rcases hahead with hinfinite | hahead
    · rw [hinfinite]
      exact Nat.le_sub_one_of_lt hnow
    · exact hahead
  · rw [hdeadline] at hfinite ⊢
    obtain ⟨prio, hmem⟩ := (hblocked thread).mp hin
    obtain ⟨woken, hnodes, _⟩ := hexpires prio
    have hsuffix : ByDeadline kernel.scheduler.tscDeadline (lists' (.blocked prio)) := by
      have hsorted := h.sorted prio
      rw [hnodes] at hsorted
      exact (List.pairwise_append.mp hsorted).2.1
    cases hlist : lists' (.blocked prio) with
    | nil =>
      rw [hlist] at hmem
      cases hmem
    | cons first rest =>
      rw [hlist] at hmem hsuffix
      have hfirst : kernel.scheduler.tscDeadline first ≤ kernel.scheduler.tscDeadline thread := by
        rcases List.mem_cons.mp hmem with rfl | hmem
        · exact Nat.le_refl _
        · exact (List.pairwise_cons.mp hsuffix).1 thread hmem
      obtain ⟨deadline, hstarted, hle⟩ :=
        htimer prio first (by rw [hlist]; rfl) (Nat.lt_of_le_of_lt hfirst hfinite)
      exact ⟨deadline, hstarted, Nat.le_trans hle hfirst⟩

/-! ## Keeping the order -/

theorem ByDeadline.congr {deadline deadline' : Nat → Nat} {nodes : List Nat}
    (h : ByDeadline deadline nodes) (hsame : ∀ x ∈ nodes, deadline' x = deadline x) :
    ByDeadline deadline' nodes := by
  refine List.Pairwise.imp_of_mem ?_ h
  intro first second hfirst hsecond hle
  rw [hsame first hfirst, hsame second hsecond]
  exact hle

/-- A thread that goes to sleep finds its place, if no deadline comes after a thread without one. -/
theorem ByDeadline.enqueued {deadline : Nat → Nat} {tscDeadline : Nat} {nodes after : List Nat}
    (h : ByDeadline deadline nodes) (hnew : thread ∉ nodes)
    (henqueued : Enqueued deadline thread tscDeadline nodes after)
    (hlast : tscDeadline = infinite → ∀ x ∈ nodes, infinite ≤ deadline x) :
    ByDeadline (update deadline thread tscDeadline) after := by
  have hothers : ∀ x ∈ nodes, update deadline thread tscDeadline x = deadline x := by
    intro x hx
    have hne : x ≠ thread := fun heq => hnew (heq ▸ hx)
    exact update_of_ne hne ..
  rcases henqueued with ⟨hfirst, rfl⟩ | ⟨_, other, rfl, rfl⟩
  · refine List.pairwise_cons.mpr ⟨fun x hx => ?_, h.congr hothers⟩
    rw [update_self, hothers x hx]
    rcases hfirst with hinfinite | hnil
    · rw [hinfinite]
      exact hlast hinfinite x hx
    · rw [hnil] at hx
      cases hx
  · have hother := hothers other List.mem_cons_self
    split
    · refine List.pairwise_pair.mpr ?_
      rw [update_self, hother]
      omega
    · refine List.pairwise_pair.mpr ?_
      rw [update_self, hother]
      omega

theorem Sound.current_not_mem (h : Sound priority idle added s lists) (prio : Priority) :
    s.currentThread ∉ lists (.blocked prio) :=
  fun hin => h.current.2 (h.blocked_mem hin).2.1

theorem Ordered.step {event : KernelEvent} (h : Ordered priority idle kernel lists)
    (hfew : FewBlocked priority nsToTsc kernel event)
    (hnone : NoneWithDeadline priority nsToTsc kernel event)
    (hstep : kernel.step priority idle nsToTsc event = some after) :
    ∃ lists', Ordered priority idle after lists' := by
  obtain ⟨lists', hsound, _, horder⟩ := h.sound.step hfew hstep
  refine ⟨lists', hsound, fun prio => ?_⟩
  cases hsleeps : event.deadline? nsToTsc with
  | none =>
    obtain ⟨hdeadline, hlists⟩ := horder.kept hsleeps
    rw [hdeadline]
    exact (h.sorted prio).sublist (hlists prio)
  | some tscDeadline =>
    obtain ⟨hdeadline, hothers, henqueued⟩ := horder.asleep tscDeadline hsleeps
    rw [hdeadline]
    by_cases hprio : prio = priority kernel.scheduler.currentThread
    · rw [hprio]
      refine (h.sorted _).enqueued (h.sound.current_not_mem _) henqueued fun hinfinite x hx => ?_
      obtain ⟨hmember, hblocked, hsame⟩ := h.sound.blocked_mem hx
      exact hnone (hinfinite ▸ hsleeps) x hmember hblocked hsame
    · rw [hothers prio hprio]
      refine (h.sorted prio).congr fun x hx => update_of_ne (fun heq => ?_) ..
      exact h.sound.current_not_mem prio (heq ▸ hx)

/-- A thread that goes to sleep without a deadline hides one that has a deadline: the interrupt
that comes right after that deadline does not wake it. -/
theorem Ordered.step_hides {event : KernelEvent} (h : Ordered priority idle kernel lists)
    (hfew : FewBlocked priority nsToTsc kernel event)
    (hsome : ¬ NoneWithDeadline priority nsToTsc kernel event)
    (hstep : kernel.step priority idle nsToTsc event = some after) :
    ¬ TimerWakesExpired priority after := by
  obtain ⟨lists', hsound, _, horder⟩ := h.sound.step hfew hstep
  simp only [NoneWithDeadline, not_forall, Nat.not_le] at hsome
  obtain ⟨hsleeps, thread, hmember, hblocked, hprio, hfinite⟩ := hsome
  obtain ⟨hdeadline, _, henqueued⟩ := horder.asleep infinite hsleeps
  have hmem := h.sound.mem hmember
  rw [queueOf, queueFor, if_pos hblocked, hprio] at hmem
  have hne : thread ≠ kernel.scheduler.currentThread := fun heq =>
    h.sound.current_not_mem _ (heq ▸ hmem)
  have hqueue : lists' (.blocked (priority kernel.scheduler.currentThread)) =
      kernel.scheduler.currentThread ::
        lists (.blocked (priority kernel.scheduler.currentThread)) := by
    rcases henqueued with ⟨_, hqueue⟩ | ⟨habsurd, _⟩
    · exact hqueue
    · exact absurd rfl habsurd
  have hmem' : thread ∈ lists' (.blocked (priority kernel.scheduler.currentThread)) := by
    rw [hqueue]
    exact List.mem_cons_of_mem _ hmem
  have hkept : after.scheduler.tscDeadline thread = kernel.scheduler.tscDeadline thread := by
    rw [hdeadline, update_of_ne hne]
  have hfirst : after.scheduler.tscDeadline kernel.scheduler.currentThread = infinite := by
    rw [hdeadline, update_self]
  intro hwakes
  -- the interrupt comes one tick after the deadline
  have hnow : kernel.scheduler.tscDeadline thread + 1 < 2 ^ 64 := by
    unfold infinite at hfinite
    omega
  obtain ⟨final, hirq, hexpired, _⟩ := hwakes _ hnow 0
  obtain ⟨other, lists'', hother, _, hleft, _, hexpires, _⟩ :=
    hsound.timer_irq_at (kernel.scheduler.tscDeadline thread + 1) 0
  rw [hother, Option.some.injEq] at hirq
  subst hirq
  have hawake := hexpired thread (hsound.blocked_mem hmem').2.1 (by rw [hkept]; omega)
  have hstill : other.state thread = .blocked := by
    refine (hleft thread).mpr ⟨priority kernel.scheduler.currentThread, ?_⟩
    obtain ⟨woken, hnodes, hwoken, _⟩ := hexpires (priority kernel.scheduler.currentThread)
    cases woken with
    | nil =>
      rw [List.nil_append] at hnodes
      rw [← hnodes]
      exact hmem'
    | cons first rest =>
      rw [hqueue, List.cons_append, List.cons.injEq] at hnodes
      obtain ⟨_, hbehind⟩ := hwoken first List.mem_cons_self
      rw [← hnodes.1, hfirst] at hbehind
      exact absurd (Nat.lt_of_lt_of_le hbehind hfinite) (Nat.lt_irrefl _)
  rw [hstill] at hawake
  simp at hawake

/-! ## Whole runs -/

/-- Let no thread of a run go to sleep with a deadline while two threads of its priority are
blocked. Then a timer interrupt would wake the threads that it should in every state of the run
exactly when no thread goes to sleep without a deadline while one of its priority has a deadline. -/
theorem timer_wakes_expired_iff_none_with_deadline (priority : Nat → Priority)
    (nsToTsc : Nat → Nat) (hidle : idle ≠ 0) {events : List KernelEvent} {final : Kernel}
    (hfew : Meets (Kernel.step priority idle nsToTsc) (FewBlocked priority nsToTsc)
      (Kernel.initial priority idle) events)
    (hrun : run (Kernel.step priority idle nsToTsc) (Kernel.initial priority idle) events =
      some final) :
    Always (Kernel.step priority idle nsToTsc) (TimerWakesExpired priority)
        (Kernel.initial priority idle) events ↔
      Meets (Kernel.step priority idle nsToTsc) (NoneWithDeadline priority nsToTsc)
        (Kernel.initial priority idle) events := by
  obtain ⟨lists, hsound⟩ := sound_initial priority hidle
  have hinitial : Ordered priority idle (Kernel.initial priority idle) lists := by
    refine ⟨hsound, fun prio => ?_⟩
    have hnil : lists (.blocked prio) = [] := by
      refine List.eq_nil_iff_forall_not_mem.mpr fun x hx => ?_
      obtain ⟨hmember, hblocked, _⟩ := hsound.blocked_mem hx
      obtain rfl : x = idle := by simpa using hmember
      exact hsound.idle_runnable.2 hblocked
    rw [hnil]
    exact List.Pairwise.nil
  refine always_iff_meets_of_allowed (fun kernel => ∃ lists, Ordered priority idle kernel lists)
    ?_ ?_ ?_ ⟨lists, hinitial⟩ hfew hrun
  · rintro kernel ⟨lists, h⟩
    exact h.timer_wakes_expired
  · rintro kernel event after ⟨lists, h⟩ hfew hnone hstep
    exact h.step hfew hnone hstep
  · rintro kernel event after ⟨lists, h⟩ hfew hsome hstep
    exact h.step_hides hfew hsome hstep

/-- A thread sleeps without a deadline, then one of its priority and one of another with deadlines,
and the interrupt wakes the one that is over. -/
theorem timer_wakes_expired_sleepers :
    Always (Kernel.step (fun thread => if thread = 4 then 5 else 4) 1 id)
      (TimerWakesExpired fun thread => if thread = 4 then 5 else 4)
      (Kernel.initial (fun thread => if thread = 4 then 5 else 4) 1)
      [.addThread 2, .addThread 3, .addThread 4, .schedule, .sleepUntil 9, .sleepUntil infinite,
        .sleepUntil 5, .timerIrq fun _ => 7] := by
  have hrun : (run (Kernel.step (fun thread => if thread = 4 then 5 else 4) 1 id)
      (Kernel.initial (fun thread => if thread = 4 then 5 else 4) 1)
      [.addThread 2, .addThread 3, .addThread 4, .schedule, .sleepUntil 9, .sleepUntil infinite,
        .sleepUntil 5, .timerIrq fun _ => 7]).isSome = true := by
    decide +kernel
  obtain ⟨final, hrun⟩ := Option.isSome_iff_exists.mp hrun
  exact (timer_wakes_expired_iff_none_with_deadline _ id (by decide) (by decide +kernel) hrun).mpr
    (by decide +kernel)

/-- A thread sleeps until `5`, and one of its priority then sleeps without a deadline and becomes
the head of the queue. The interrupt at time `6` leaves the first thread blocked, and starts no
timer for it. -/
theorem sleeper_without_deadline_hides_expired : ∃ kernel,
    run (Kernel.step (fun _ => 4) 1 id) (Kernel.initial (fun _ => 4) 1)
      [.addThread 2, .addThread 3, .schedule, .sleepUntil 5, .sleepUntil infinite] = some kernel ∧
    kernel.scheduler.state 3 = .blocked ∧ kernel.scheduler.tscDeadline 3 = 5 ∧
    (kernel.scheduler.handleTimerIrq (fun _ => 4) 4 fun _ => 6).any
      (fun after => after.state 3 = .blocked) = true ∧
    ¬ TimerWakesExpired (fun _ => 4) kernel := by
  refine exists_of_any (fun kernel => kernel.scheduler.state 3 = .blocked ∧
      kernel.scheduler.tscDeadline 3 = 5 ∧ kernel.scheduler.preemptDisable = 0 ∧
      kernel.added.length = 3 ∧
      (kernel.scheduler.handleTimerIrq (fun _ => 4) 4 fun _ => 6).any
        (fun after => after.state 3 = .blocked) = true) (by decide +kernel) ?_
  rintro kernel hrun ⟨hblocked, hdeadline, hpreempt, hadded, hafter⟩
  refine ⟨hblocked, hdeadline, hafter, fun hwakes => ?_⟩
  obtain ⟨after, hirq, hexpired, _⟩ := hwakes 6 (by decide) 0
  rw [hadded, ← hpreempt] at hirq
  rw [show kernel.scheduler.handleTimerIrq (fun _ => 4) 4 (fun _ => 6) = some after from hirq]
    at hafter
  have hstill : after.state 3 = .blocked := by simpa using hafter
  have hawake := hexpired 3 hblocked (by rw [hdeadline]; decide)
  rw [hstill] at hawake
  simp at hawake

end Otrix
