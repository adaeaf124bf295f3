import Otrix.Kernel.Scheduler.Partition
import Otrix.Kernel.Scheduler.Preemption

/-!
# Threads that are taken out of the scheduler

`~kthread` calls `remove_thread`, which deletes the node from the runnable queue of its priority
in whatever queue the node is. The node of a blocked thread is unlinked from its ring all the
same, but the head of the blocked queue is not written: if it names the removed thread, it still
does afterwards. `wake` refuses this thread, since it is a zombie, so that the timer interrupt
looks at it for ever once its deadline is over.
-/

namespace Otrix

open Function Linked Machine

variable {priority : Nat → Priority} {idle thread : Nat} {nsToTsc : Nat → Nat} {s after : Scheduler}
  {added : List Nat} {lists : KthreadQueue → List Nat} {members : Nat → Prop}

/-! ## Removal from the queues -/

/-- `remove_thread` unlinks the node of any thread that is not the head of the runnable queue. -/
theorem remove_thread_eq (hthread : thread ≠ 0)
    (hhead : s.runnableQueues (priority thread) ≠ thread) :
    s.removeThread priority thread = { s with
      links := intrusiveListUnlinkNode s.links thread
      state := update s.state thread .zombie } := by
  simp only [Scheduler.removeThread, if_neg hthread, intrusive_list_delete_of_ne _ hhead.symm,
    update_eq_self]

/-- A zombie that is no member is filed nowhere. -/
theorem Filed.update_zombie (h : Filed lists members (queueOf priority s.state))
    (hout : ¬ members thread) :
    Filed lists members (queueOf priority (update s.state thread .zombie)) := by
  intro queue x
  rw [h queue x, queueOf_update]
  by_cases heq : x = thread
  · subst heq
    simp [hout]
  · rw [update_of_ne heq]

theorem Filing.head_mem (h : Filing priority members s lists) (queue : KthreadQueue)
    (hhead : headsOf s.runnableQueues s.blockedQueues queue = thread) (hthread : thread ≠ 0) :
    thread ∈ lists queue :=
  hhead ▸ (h.rings.queue queue).head_mem (hhead ▸ hthread)

/-- `remove_thread` takes a blocked thread out of its queue, unless it is the head. -/
theorem remove_blocked_filing (h : Filing priority members s lists) (hmember : members thread)
    (hblocked : s.state thread = .blocked) (hhead : s.blockedQueues (priority thread) ≠ thread) :
    Filing priority (fun x => x ≠ thread ∧ members x) (s.removeThread priority thread)
      (update lists (.blocked (priority thread))
        ((lists (.blocked (priority thread))).erase thread)) := by
  have hthread : thread ≠ 0 := fun heq => h.nonnull (heq ▸ hmember)
  have hplace : queueOf priority s.state thread = .blocked (priority thread) := if_pos hblocked
  have hmem := h.mem hmember
  rw [hplace] at hmem
  have hrunnable : s.runnableQueues (priority thread) ≠ thread := fun heq =>
    (h.runnable_mem (h.head_mem (.runnable (priority thread)) heq hthread)).2.1 hblocked
  rw [remove_thread_eq hthread hrunnable]
  refine ⟨?_, ?_, fun hnull => h.nonnull hnull.2⟩
  · -- a deletion from the blocked queue would not move its head either
    have hdeleted := h.rings.delete hmem
    simp only [headsOf, intrusive_list_delete_of_ne _ hhead.symm] at hdeleted
    rw [← headsOf_update_blocked, update_eq_self] at hdeleted
    exact hdeleted
  · have herased := h.filed.erase (h.rings.queue _).ring.nodup hplace
    exact herased.update_zombie fun hin => hin.1 rfl

/-- `remove_thread` does nothing to the queues when the node is a ring of its own. -/
theorem remove_fresh_filing (h : Filing priority members s lists) (hout : ¬ members thread)
    (hthread : thread ≠ 0) (hnext : next s.links thread = thread)
    (hprev : prev s.links thread = thread) :
    Filing priority members (s.removeThread priority thread) lists := by
  have hrunnable : s.runnableQueues (priority thread) ≠ thread := fun heq =>
    hout (h.runnable_mem (h.head_mem (.runnable (priority thread)) heq hthread)).1
  have hlinks : intrusiveListUnlinkNode s.links thread = s.links :=
    intrusive_list_unlink_node_self hthread hnext hprev
  rw [remove_thread_eq hthread hrunnable, hlinks]
  exact ⟨h.rings, h.filed.update_zombie hout, h.nonnull⟩

/-! ## Threads that were never added -/

/-- The thread is in no queue, and its node is a ring of its own that no other node points to. -/
structure Spared (thread : Nat) (s : Scheduler) : Prop where
  nonnull : thread ≠ 0
  graded : Graded s.links (· = thread)
  runnable : ∀ prio, s.runnableQueues prio ≠ thread
  blocked : ∀ prio, s.blockedQueues prio ≠ thread
  current : s.currentThread ≠ thread
  awake : s.state thread ≠ .blocked

theorem grade_eq_of_ne {first second : Nat} (hfirst : first ≠ thread) (hsecond : second ≠ thread) :
    (first = thread) = (second = thread) :=
  propext (iff_of_false hfirst hsecond)

namespace Spared

variable {other fuel : Nat}

theorem links_self (h : Spared thread s) :
    next s.links thread = thread ∧ prev s.links thread = thread :=
  ⟨(h.graded thread).1.mpr rfl, (h.graded thread).2.mpr rfl⟩

theorem heads_update {heads : Priority → Nat} {prio : Priority} {head : Nat}
    (h : ∀ other, heads other ≠ thread) (hhead : head ≠ thread) :
    ∀ other, update heads prio head other ≠ thread :=
  forall_update_iff _ (fun _ value => value ≠ thread) |>.mpr
    ⟨hhead, fun other _ => h other⟩

theorem delete_head (h : Spared thread s) {head : Nat} (hother : other ≠ thread)
    (hhead : head ≠ thread) :
    (intrusiveListDelete s.links head other).2 ≠ thread := by
  intro heq
  have hgrade := (h.graded.delete fun _ => grade_eq_of_ne hhead hother).2
  rw [heq] at hgrade
  exact hother ((hgrade h.nonnull).2.mp rfl)

theorem state_update (h : Spared thread s) (hother : other ≠ thread) (value : KthreadState) :
    update s.state other value thread ≠ .blocked := by
  rw [update_of_ne hother.symm]
  exact h.awake

theorem add_thread (h : Spared thread s) (priority : Nat → Priority) (hother : other ≠ thread) :
    Spared thread (s.addThread priority other) := by
  unfold Scheduler.addThread
  split
  · exact h
  · refine ⟨h.nonnull, h.graded.push_back fun _ => grade_eq_of_ne (h.runnable _) hother,
      heads_update h.runnable ?_, h.blocked, h.current, h.state_update hother _⟩
    rw [intrusive_list_push_back_snd]
    exact hother

/-- The constructor of the scheduler adds the idle thread only. -/
theorem initial (hthread : thread ≠ 0) (hidle : idle ≠ thread) :
    Spared thread (Scheduler.initial priority idle) := by
  have hempty : Spared thread Scheduler.empty :=
    ⟨hthread, fun _ => ⟨rfl, rfl⟩, fun _ => hthread.symm, fun _ => hthread.symm, hthread.symm,
      by simp [Scheduler.empty]⟩
  have hadded := hempty.add_thread priority hidle
  exact ⟨hthread, hadded.graded, hadded.runnable, hadded.blocked, hidle, hadded.awake⟩

theorem remove_thread (h : Spared thread s) (hother : other ≠ thread) :
    Spared thread (s.removeThread priority other) := by
  unfold Scheduler.removeThread
  split
  · exact h
  · exact ⟨h.nonnull, (h.graded.delete fun _ => grade_eq_of_ne (h.runnable _) hother).1,
      heads_update h.runnable (h.delete_head hother (h.runnable _)), h.blocked, h.current,
      h.state_update hother _⟩

theorem start_timer (h : Spared thread s) : Spared thread s.startTimer := by
  rw [start_timer_eq]
  exact ⟨h.nonnull, h.graded, h.runnable, h.blocked, h.current, h.awake⟩

theorem schedule (h : Spared thread s) (hschedule : s.schedule = some after) :
    Spared thread after := by
  unfold Scheduler.schedule at hschedule
  split at hschedule
  · exact Option.some.inj hschedule ▸ h
  · obtain ⟨prio, _, hafter⟩ := Option.bind_eq_some_iff.mp hschedule
    rw [← Option.some.inj hafter]
    have hhead := h.runnable prio
    exact ⟨h.nonnull, h.graded, heads_update h.runnable fun heq => hhead ((h.graded _).1.mp heq),
      h.blocked, hhead, h.state_update hhead _⟩

theorem wake (h : Spared thread s) (other : Nat) : Spared thread (s.wake priority other) := by
  unfold Scheduler.wake
  split
  · exact h
  · next hblocked =>
    have hother : other ≠ thread := fun heq => h.awake (heq ▸ not_not.mp hblocked)
    have hdeleted : Spared thread { s with
        links := (intrusiveListDelete s.links (s.blockedQueues (priority other)) other).1
        blockedQueues := update s.blockedQueues (priority other)
          (intrusiveListDelete s.links (s.blockedQueues (priority other)) other).2 } :=
      ⟨h.nonnull, (h.graded.delete fun _ => grade_eq_of_ne (h.blocked _) hother).1, h.runnable,
        heads_update h.blocked (h.delete_head hother (h.blocked _)), h.current, h.awake⟩
    have hadded := hdeleted.add_thread priority hother
    exact start_timer ⟨hadded.nonnull, hadded.graded, hadded.runnable, hadded.blocked,
      hadded.current, hadded.awake⟩

theorem block {tscDeadline : Nat} (h : Spared thread s) (hother : other ≠ thread)
    (hblock : s.block priority fuel other tscDeadline = some after) : Spared thread after := by
  have hpushed := h.graded.push_back fun _ =>
    grade_eq_of_ne (h.blocked (priority other)) hother
  have htail : (intrusiveListPushBack s.links (s.blockedQueues (priority other)) other).2 ≠
      thread := by
    rw [intrusive_list_push_back_snd]
    exact hother
  have hawake := h.state_update hother .blocked
  unfold Scheduler.block at hblock
  simp only at hblock
  split at hblock
  · cases hblock
    exact ⟨h.nonnull, hpushed, h.runnable, heads_update h.blocked htail, h.current, hawake⟩
  · split at hblock
    · obtain ⟨⟨links, first⟩, hinsert, heq⟩ := Option.bind_eq_some_iff.mp hblock
      cases heq
      obtain ⟨hgraded, hfirst⟩ :=
        h.graded.insert_sorted (grade_eq_of_ne (h.blocked _) hother) hinsert
      exact ⟨h.nonnull, hgraded, h.runnable,
        heads_update h.blocked fun heq => hother (hfirst.mp heq), h.current, hawake⟩
    · cases hblock
      exact ⟨h.nonnull, hpushed, h.runnable, heads_update h.blocked htail, h.current, hawake⟩

theorem sleep_until {tscDeadline : Nat} (h : Spared thread s)
    (hsleep : s.sleepUntil priority fuel tscDeadline = some after) : Spared thread after := by
  obtain ⟨asleep, hblock, hschedule⟩ := Option.bind_eq_some_iff.mp hsleep
  exact ((h.remove_thread h.current).block h.current hblock).start_timer.schedule hschedule

/-- No call touches the thread but those that add or remove it. -/
theorem call {kernel next : Kernel} {event : SchedulerCall} (h : Spared thread kernel.scheduler)
    (hcall : kernel.call priority idle nsToTsc fuel event = some next)
    (hadd : event ≠ .kernel (.addThread thread)) (hremove : event ≠ .removeThread thread) :
    Spared thread next.scheduler := by
  have hcount : ∀ (s : Scheduler) count, Spared thread s →
      Spared thread { s with preemptDisable := count } := fun _ _ hs =>
    ⟨hs.nonnull, hs.graded, hs.runnable, hs.blocked, hs.current, hs.awake⟩
  refine Kernel.call_invariant (fun _ _ hevent hs => hs.add_thread priority ?_)
    (fun _ _ hevent hs => hs.remove_thread ?_) (fun _ _ hs => hs.schedule)
    (fun _ _ _ hs => hs.sleep_until) (fun _ _ hs => hs.wake _) hcount
    (fun _ _ _ hs => ?_) h hcall
  · exact fun heq => hadd (heq ▸ hevent)
  · exact fun heq => hremove (heq ▸ hevent)
  · exact handle_timer_irq_invariant (Spared thread) (fun _ _ _ hs => hs.wake _)
      (fun _ _ hs => ⟨hs.nonnull, hs.graded, hs.runnable, hs.blocked, hs.current, hs.awake⟩)
      (fun _ hs => hs.start_timer) (fun _ _ hs => hs.schedule) hs

end Spared

/-! ## A head that dangles -/

/-- The head of a blocked queue is a thread that is not blocked. -/
structure Dangling (priority : Nat → Priority) (thread : Nat) (s : Scheduler) : Prop where
  nonnull : thread ≠ 0
  head : s.blockedQueues (priority thread) = thread
  zombie : s.state thread ≠ .blocked

/-- `remove_thread` of the head of a blocked queue leaves it there. -/
theorem remove_head_dangling (hthread : thread ≠ 0)
    (hhead : s.blockedQueues (priority thread) = thread) :
    Dangling priority thread (s.removeThread priority thread) ∧
      (s.removeThread priority thread).tscDeadline = s.tscDeadline := by
  unfold Scheduler.removeThread
  rw [if_neg hthread]
  exact ⟨⟨hthread, hhead, by simp⟩, rfl⟩

namespace Dangling

/-- `wake` refuses the thread, and leaves it at the head when it wakes another one. -/
theorem wake (h : Dangling priority thread s) {other : Nat} (hnull : other ≠ 0) :
    Dangling priority thread (s.wake priority other) ∧
      (s.wake priority other).tscDeadline = s.tscDeadline := by
  by_cases hblocked : s.state other = .blocked
  · have hother : other ≠ thread := fun heq => h.zombie (heq ▸ hblocked)
    simp only [Scheduler.wake, hblocked, ne_eq, not_true_eq_false, if_false, Scheduler.addThread,
      if_neg hnull, Scheduler.setupTimer, start_timer_eq]
    refine ⟨⟨h.nonnull, ?_, ?_⟩, trivial⟩
    · show update s.blockedQueues (priority other) _ (priority thread) = thread
      by_cases hprio : priority thread = priority other
      · -- the queue of both threads keeps its head, which is not the one that is woken
        have hhead : s.blockedQueues (priority other) = thread := hprio ▸ h.head
        rw [hprio, update_self, hhead, intrusive_list_delete_of_ne _ hother]
      · rw [update_of_ne hprio]
        exact h.head
    · show update s.state other .runnable thread ≠ .blocked
      rw [update_of_ne hother.symm]
      exact h.zombie
  · rw [Scheduler.wake, if_pos hblocked]
    exact ⟨h, rfl⟩

section

variable (h : Dangling priority thread s) {tsc : Nat → Nat}
  (hexpired : ∀ reading, s.tscDeadline thread < tsc reading) (fuel : Nat)
include h hexpired

/-- The inner loop of the timer interrupt does not get past the thread. -/
theorem wake_expired (reading : Nat) :
    Scheduler.wakeExpired priority tsc (priority thread) fuel s reading = none := by
  have hrefused : s.wake priority thread = s := by
    rw [Scheduler.wake, if_pos h.zombie]
  induction fuel generalizing reading with
  | zero => rfl
  | succ fuel ih =>
    simp only [Scheduler.wakeExpired, h.head, h.nonnull, if_false, hexpired reading, if_true,
      hrefused, ih (reading + 1)]

/-- The outer loop of the timer interrupt does not come to an end. -/
theorem expire_priorities (reading : Nat) {prios : List Priority} (hvisited : priority thread ∈ prios) :
    prios.foldlM (fun (s, reading) prio =>
      Scheduler.expirePriority priority fuel tsc s reading prio) (s, reading) = none := by
  induction prios generalizing s reading with
  | nil => cases hvisited
  | cons prio prios ih =>
    rw [List.foldlM_cons]
    cases hloop : Scheduler.wakeExpired priority tsc prio fuel s reading with
    | none => simp only [Scheduler.expirePriority, hloop, Option.bind_eq_bind, Option.bind_none]
    | some result =>
      obtain ⟨woken, readings⟩ := result
      -- another queue was visited, and its wake-ups did not move this head
      have hprio : priority thread ≠ prio := by
        rintro rfl
        rw [h.wake_expired hexpired] at hloop
        cases hloop
      obtain ⟨hwoken, hdeadline⟩ := wake_expired_invariant
        (fun woken => Dangling priority thread woken ∧ woken.tscDeadline = s.tscDeadline)
        (fun _ _ hnull hs => ⟨(hs.1.wake hnull).1, (hs.1.wake hnull).2.trans hs.2⟩) ⟨h, rfl⟩
        hloop
      have hturn : Scheduler.expirePriority priority fuel tsc s reading prio =
          some ({ woken with nearestTscDeadline := woken.nearest woken.nearestTscDeadline prio },
            readings) := by
        simp only [Scheduler.expirePriority, hloop, Option.bind_eq_bind, Option.bind_some]
      have hlater : Dangling priority thread
          { woken with nearestTscDeadline := woken.nearest woken.nearestTscDeadline prio } :=
        ⟨hwoken.nonnull, hwoken.head, hwoken.zombie⟩
      rw [← hdeadline] at hexpired
      exact Option.bind_eq_none_iff.mpr fun result hresult =>
        Option.some.inj (hturn.symm.trans hresult) ▸
          ih hlater hexpired readings ((List.mem_cons.mp hvisited).resolve_left hprio)

/-- The timer interrupt never ends once the deadline of the thread is over. -/
theorem handle_timer_irq : s.handleTimerIrq priority fuel tsc = none := by
  have hstart : Dangling priority thread { s with nearestTscDeadline := infinite } :=
    ⟨h.nonnull, h.head, h.zombie⟩
  simp only [Scheduler.handleTimerIrq,
    hstart.expire_priorities hexpired fuel 0 (mem_priorities (priority thread)),
    Option.bind_eq_bind, Option.bind_none]

end

end Dangling

/-! ## What a call preserves -/

/-- The thread is gone from the queues, which are rings as before and hold the other threads at the
same places, and a timer interrupt comes to an end. -/
structure Gone (priority : Nat → Priority) (thread : Nat) (before after : Scheduler) : Prop where
  queues : ∃ lists lists' : KthreadQueue → List Nat,
    (∀ queue, Queue before.links (headsOf before.runnableQueues before.blockedQueues queue)
      (lists queue)) ∧
    (∀ queue, Queue after.links (headsOf after.runnableQueues after.blockedQueues queue)
      (lists' queue)) ∧
    ∀ queue, thread ∉ lists' queue ∧ ∀ other, other ≠ thread →
      (other ∈ lists' queue ↔ other ∈ lists queue)
  irq : ∀ tsc, ∃ fuel result, after.handleTimerIrq priority fuel tsc = some result

theorem remove_thread_rest (priority : Nat → Priority) (s : Scheduler) (hthread : thread ≠ 0) :
    (s.removeThread priority thread).state = update s.state thread .zombie ∧
      (s.removeThread priority thread).currentThread = s.currentThread := by
  rw [Scheduler.removeThread, if_neg hthread]
  exact ⟨rfl, rfl⟩

/-- A thread is removed that is not the head of a blocked queue. -/
theorem Settled.remove (h : Settled priority idle added s lists) (hnodup : added.Nodup)
    (hthread : thread ≠ 0) (hidle : thread ≠ idle) (hfresh : thread ∉ added → Spared thread s)
    (hhead : s.state thread = .blocked → s.blockedQueues (priority thread) ≠ thread) :
    ∃ lists', Settled priority idle (added.erase thread) (s.removeThread priority thread) lists' ∧
      ∀ queue, thread ∉ lists' queue ∧ ∀ other, other ≠ thread →
        (other ∈ lists' queue ↔ other ∈ lists queue) := by
  obtain ⟨lists', hfiling⟩ : ∃ lists', Filing priority (fun x => x ≠ thread ∧ x ∈ added)
      (s.removeThread priority thread) lists' := by
    by_cases hmember : thread ∈ added
    · by_cases hblocked : s.state thread = .blocked
      · exact ⟨_, remove_blocked_filing h.toFiling hmember hblocked (hhead hblocked)⟩
      · exact ⟨_, remove_thread_filing h.toFiling hmember hblocked⟩
    · obtain ⟨hnext, hprev⟩ := (hfresh hmember).links_self
      refine ⟨lists, (remove_fresh_filing h.toFiling hmember hthread hnext hprev).congr_members _ ?_⟩
      exact fun x => and_iff_right_of_imp fun hin heq => hmember (heq ▸ hin)
  obtain ⟨hstate, hcurrent⟩ := remove_thread_rest priority s hthread
  have hwho : ∀ other, (s.removeThread priority thread).state other = .blocked →
      other ≠ thread ∧ s.state other = .blocked := by
    intro other hin
    rw [hstate] at hin
    by_cases heq : other = thread
    · simp [heq] at hin
    · rw [update_of_ne heq] at hin
      exact ⟨heq, hin⟩
  refine ⟨lists', ⟨hfiling.congr_members _ fun x => hnodup.mem_erase_iff, ?_, ?_, ?_⟩, ?_⟩
  · intro other hin
    exact hnodup.mem_erase_iff.mpr ⟨(hwho other hin).1, h.blocked_added other (hwho other hin).2⟩
  · rw [hcurrent]
    exact fun hin => h.awake (hwho _ hin).2
  · exact ⟨hnodup.mem_erase_iff.mpr ⟨hidle.symm, h.idle_runnable.1⟩,
      fun hin => h.idle_runnable.2 (hwho idle hin).2⟩
  · intro queue
    refine ⟨fun hin => ((hfiling.filed queue thread).mp hin).1.1 rfl, fun other hne => ?_⟩
    rw [hfiling.filed queue other, h.filed queue other, hstate, queueOf_update,
      update_of_ne hne]
    exact and_congr_left fun _ => and_iff_right hne

theorem Settled.set_preempt (h : Settled priority idle added s lists) (count : Nat) :
    Settled priority idle added { s with preemptDisable := count } lists :=
  ⟨⟨h.rings, h.filed, h.nonnull⟩, h.blocked_added, h.awake, h.idle_runnable⟩

theorem Settled.preempt_enable (h : Settled priority idle added s lists) {reschedule : Bool}
    (henable : s.preemptEnable reschedule = some after) :
    ∃ lists', Settled priority idle added after lists' := by
  have hlower := h.set_preempt (s.preemptDisable - 1)
  unfold Scheduler.preemptEnable at henable
  simp only at henable
  split at henable
  · split at henable
    · obtain ⟨result, lists', hresult, hsettled, _⟩ := hlower.schedule
      exact ⟨lists', Option.some.inj (hresult.symm.trans henable) ▸ hsettled⟩
    · exact ⟨lists, Option.some.inj henable ▸ hlower⟩
  · exact ⟨lists, Option.some.inj henable ▸ h⟩

theorem Settled.sleep_until (h : Settled priority idle added s lists) {fuel tscDeadline : Nat}
    (hcurrent : s.currentThread ∈ added ∧ s.preemptDisable = 0) (hidle : s.currentThread ≠ idle)
    (hfuel : fuel ≠ 0)
    (hfew : tscDeadline ≠ infinite → s.AtMostOneBlocked (priority s.currentThread))
    (hsleep : s.sleepUntil priority fuel tscDeadline = some after) :
    ∃ lists', Settled priority idle added after lists' := by
  obtain ⟨result, lists', hresult, hsound, _⟩ :=
    (h.sound hcurrent.1 hcurrent.2).sleep_until hidle hfuel hfew
  exact ⟨lists', Option.some.inj (hresult.symm.trans hsleep) ▸ hsound.settled⟩

/-- A scheduler in use, with the threads that were removed from it and not added again. -/
structure Registry where
  kernel : Kernel
  removed : List Nat

namespace Registry

/-- The calls that are made. A thread is not removed a second time, and the thread that goes to sleep
is one that was not removed, while preemption is enabled. -/
def Makes (registry : Registry) : SchedulerCall → Prop
  | .removeThread thread => thread ≠ 0 ∧ thread ∉ registry.removed
  | .kernel (.sleep _ _) => registry.kernel.scheduler.currentThread ∈ registry.kernel.added ∧
      registry.kernel.scheduler.preemptDisable = 0
  | .kernel (.sleepUntil _) => registry.kernel.scheduler.currentThread ∈ registry.kernel.added ∧
      registry.kernel.scheduler.preemptDisable = 0
  | _ => True

instance (registry : Registry) : (event : SchedulerCall) → Decidable (registry.Makes event)
  | .removeThread _ => inferInstanceAs (Decidable (_ ∧ _))
  | .kernel (.sleep _ _) => inferInstanceAs (Decidable (_ ∧ _))
  | .kernel (.sleepUntil _) => inferInstanceAs (Decidable (_ ∧ _))
  | .kernel (.addThread _) => inferInstanceAs (Decidable True)
  | .kernel .schedule => inferInstanceAs (Decidable True)
  | .kernel (.wake _) => inferInstanceAs (Decidable True)
  | .kernel (.timerIrq _) => inferInstanceAs (Decidable True)
  | .preemptDisable => inferInstanceAs (Decidable True)
  | .preemptEnable _ => inferInstanceAs (Decidable True)

/-- The threads of the scheduler after a call. -/
def addedAfter (registry : Registry) : SchedulerCall → List Nat
  | .kernel (.addThread thread) => thread :: registry.kernel.added
  | .removeThread thread => registry.kernel.added.erase thread
  | _ => registry.kernel.added

/-- The removed threads after a call. -/
def removedAfter (registry : Registry) : SchedulerCall → List Nat
  | .kernel (.addThread thread) => registry.removed.filter (· ≠ thread)
  | .removeThread thread => thread :: registry.removed
  | _ => registry.removed

section

variable (priority : Nat → Priority) (idle : Nat) (nsToTsc : Nat → Nat)

/-- One call. -/
def step (registry : Registry) (event : SchedulerCall) : Option Registry :=
  if registry.Makes event then do
    let kernel ← registry.kernel.call priority idle nsToTsc (registry.kernel.added.length + 1) event
    some ⟨kernel, registry.removedAfter event⟩
  else none

/-- The scheduler after its constructor. -/
def initial : Registry :=
  ⟨Kernel.initial priority idle, []⟩

/-- The call does not put a thread to sleep with a deadline while two threads of its priority are
blocked. -/
def FewBlocked (registry : Registry) : SchedulerCall → Prop
  | .kernel event => Otrix.FewBlocked priority nsToTsc registry.kernel event
  | _ => True

/-- A call that removes a thread leaves no trace of it. -/
def Removes (registry : Registry) (event : SchedulerCall) : Prop :=
  ∀ after ∈ registry.step priority idle nsToTsc event, ∀ thread, event = .removeThread thread →
    Gone priority thread registry.kernel.scheduler after.kernel.scheduler

/-- A call that removes a blocked thread removes one that is not the head of its queue. -/
def SparesHead (registry : Registry) : SchedulerCall → Prop
  | .removeThread thread => registry.kernel.scheduler.state thread = .blocked →
      registry.kernel.scheduler.blockedQueues (priority thread) ≠ thread
  | _ => True

instance (registry : Registry) : (event : SchedulerCall) →
    Decidable (registry.FewBlocked priority nsToTsc event)
  | .kernel event =>
    inferInstanceAs (Decidable (Otrix.FewBlocked priority nsToTsc registry.kernel event))
  | .removeThread _ => inferInstanceAs (Decidable True)
  | .preemptDisable => inferInstanceAs (Decidable True)
  | .preemptEnable _ => inferInstanceAs (Decidable True)

instance (registry : Registry) : (event : SchedulerCall) →
    Decidable (registry.SparesHead priority event)
  | .removeThread _ => inferInstanceAs (Decidable (_ → _))
  | .kernel _ => inferInstanceAs (Decidable True)
  | .preemptDisable => inferInstanceAs (Decidable True)
  | .preemptEnable _ => inferInstanceAs (Decidable True)

/-- The queues are settled, and a thread that was neither added nor removed is in none of them. -/
structure Settled (registry : Registry) (lists : KthreadQueue → List Nat) : Prop
    extends Otrix.Settled priority idle registry.kernel.added registry.kernel.scheduler lists where
  nodup : registry.kernel.added.Nodup
  apart : ∀ thread ∈ registry.removed, thread ∉ registry.kernel.added
  fresh : ∀ thread, thread ≠ 0 → thread ∉ registry.kernel.added → thread ∉ registry.removed →
    Spared thread registry.kernel.scheduler

end

variable {registry after : Registry} {event : SchedulerCall}

theorem step_eq_some (hstep : registry.step priority idle nsToTsc event = some after) :
    registry.Makes event ∧ after.removed = registry.removedAfter event ∧
      registry.kernel.call priority idle nsToTsc (registry.kernel.added.length + 1) event =
        some after.kernel := by
  obtain ⟨hmakes, hcall⟩ := Option.ite_none_right_eq_some.mp hstep
  obtain ⟨kernel, hkernel, hafter⟩ := Option.bind_eq_some_iff.mp hcall
  obtain rfl := Option.some.inj hafter
  exact ⟨hmakes, rfl, hkernel⟩

namespace Settled

variable (h : registry.Settled priority idle lists)
include h

/-- The removal of a thread that is not the head of a blocked queue. -/
theorem remove (hstep : registry.step priority idle nsToTsc (.removeThread thread) = some after)
    (hspares : registry.SparesHead priority (.removeThread thread)) :
    (after.kernel.added = registry.addedAfter (.removeThread thread) ∧
      ∃ lists', Otrix.Settled priority idle after.kernel.added after.kernel.scheduler lists') ∧
      Gone priority thread registry.kernel.scheduler after.kernel.scheduler := by
  obtain ⟨⟨hthread, hout⟩, _, hcall⟩ := step_eq_some hstep
  obtain ⟨hidle, hafter⟩ := Option.ite_none_right_eq_some.mp hcall
  obtain ⟨lists', hsettled, hgone⟩ := h.toSettled.remove h.nodup hthread hidle
    (fun hnot => h.fresh thread hthread hnot hout) hspares
  rw [← Option.some.inj hafter]
  refine ⟨⟨rfl, lists', hsettled⟩, ⟨lists, lists', h.rings.queue, hsettled.rings.queue, hgone⟩,
    fun tsc => ?_⟩
  obtain ⟨result, _, hirq, _⟩ := hsettled.timer_irq tsc
  exact ⟨_, result, hirq⟩

theorem call (hfew : registry.FewBlocked priority nsToTsc event)
    (hspares : registry.SparesHead priority event)
    (hstep : registry.step priority idle nsToTsc event = some after) :
    after.kernel.added = registry.addedAfter event ∧
      ∃ lists', Otrix.Settled priority idle after.kernel.added after.kernel.scheduler lists' := by
  obtain ⟨hmakes, _, hcall⟩ := step_eq_some hstep
  cases event with
  | kernel event =>
    cases event with
    | addThread thread =>
      obtain ⟨⟨hthread, hnew⟩, hafter⟩ := Option.ite_none_right_eq_some.mp hcall
      obtain ⟨⟨lists', hsettled, _⟩, _⟩ := h.toSettled.add hnew hthread
      exact Option.some.inj hafter ▸ ⟨rfl, lists', hsettled⟩
    | schedule =>
      obtain ⟨s, hschedule, hafter⟩ := Option.bind_eq_some_iff.mp hcall
      obtain ⟨result, lists', hresult, hsettled, _⟩ := h.toSettled.schedule
      obtain rfl : result = s := Option.some.inj (hresult.symm.trans hschedule)
      exact Option.some.inj hafter ▸ ⟨rfl, lists', hsettled⟩
    | sleep _ _ | sleepUntil _ =>
      obtain ⟨hidle, hsleep⟩ := Option.ite_none_right_eq_some.mp hcall
      obtain ⟨s, hsleep, hafter⟩ := Option.bind_eq_some_iff.mp hsleep
      exact Option.some.inj hafter ▸ ⟨rfl, h.toSettled.sleep_until hmakes hidle
        (Nat.succ_ne_zero _) (hfew _ rfl) hsleep⟩
    | wake thread =>
      obtain ⟨⟨lists', hsettled, _⟩, _⟩ := h.toSettled.wake thread
      exact Option.some.inj hcall ▸ ⟨rfl, lists', hsettled⟩
    | timerIrq tsc =>
      obtain ⟨s, hirq, hafter⟩ := Option.bind_eq_some_iff.mp hcall
      obtain ⟨result, lists', hresult, hsettled, _⟩ := h.toSettled.timer_irq tsc
      obtain rfl : result = s := Option.some.inj (hresult.symm.trans hirq)
      exact Option.some.inj hafter ▸ ⟨rfl, lists', hsettled⟩
  | removeThread thread => exact (h.remove hstep hspares).1
  | preemptDisable =>
    exact Option.some.inj hcall ▸ ⟨rfl, lists, h.toSettled.set_preempt _⟩
  | preemptEnable reschedule =>
    obtain ⟨s, henable, hafter⟩ := Option.bind_eq_some_iff.mp hcall
    exact Option.some.inj hafter ▸ ⟨rfl, h.toSettled.preempt_enable henable⟩

/-- The books stay in order: a thread that is in neither of them was in neither before, and was not
added or removed by the call. -/
theorem books
    (hnew : ∀ thread, event = .kernel (.addThread thread) → thread ∉ registry.kernel.added) :
    (registry.addedAfter event).Nodup ∧
      (∀ thread ∈ registry.removedAfter event, thread ∉ registry.addedAfter event) ∧
      ∀ thread, thread ∉ registry.addedAfter event → thread ∉ registry.removedAfter event →
        (event ≠ .kernel (.addThread thread) ∧ event ≠ .removeThread thread) ∧
          thread ∉ registry.kernel.added ∧ thread ∉ registry.removed := by
  cases event with
  | kernel event =>
    cases event with
    | addThread added =>
      refine ⟨List.nodup_cons.mpr ⟨hnew added rfl, h.nodup⟩, ?_, ?_⟩
      · intro thread hin
        obtain ⟨hremoved, hother⟩ := List.mem_filter.mp hin
        have hne : thread ≠ added := by simpa using hother
        exact fun hmem => (List.mem_cons.mp hmem).elim hne (h.apart thread hremoved)
      · intro thread hadded hremoved
        obtain ⟨hne, hout⟩ := not_or.mp (mt List.mem_cons.mpr hadded)
        refine ⟨⟨by simpa using Ne.symm hne, by simp⟩, hout, ?_⟩
        exact fun hin => hremoved (List.mem_filter.mpr ⟨hin, by simpa using hne⟩)
    | _ => exact ⟨h.nodup, h.apart, fun thread hadded hremoved => ⟨by simp, hadded, hremoved⟩⟩
  | removeThread removed =>
    refine ⟨h.nodup.erase _, ?_, ?_⟩
    · intro thread hin hmem
      obtain ⟨hne, hadded⟩ := h.nodup.mem_erase_iff.mp hmem
      exact (List.mem_cons.mp hin).elim hne fun hremoved => h.apart thread hremoved hadded
    · intro thread hadded hremoved
      obtain ⟨hne, hout⟩ := not_or.mp (mt List.mem_cons.mpr hremoved)
      refine ⟨⟨by simp, fun heq => hne (SchedulerCall.removeThread.inj heq).symm⟩, ?_, hout⟩
      exact fun hin => hadded (h.nodup.mem_erase_iff.mpr ⟨hne, hin⟩)
  | _ => exact ⟨h.nodup, h.apart, fun thread hadded hremoved => ⟨by simp, hadded, hremoved⟩⟩

theorem step (hfew : registry.FewBlocked priority nsToTsc event)
    (hspares : registry.SparesHead priority event)
    (hstep : registry.step priority idle nsToTsc event = some after) :
    ∃ lists', after.Settled priority idle lists' := by
  obtain ⟨_, hremoved, hcall⟩ := step_eq_some hstep
  obtain ⟨hadded, lists', hsettled⟩ := h.call hfew hspares hstep
  have hnew : ∀ thread, event = .kernel (.addThread thread) → thread ∉ registry.kernel.added := by
    rintro thread rfl
    exact (Option.ite_none_right_eq_some.mp hcall).1.2
  obtain ⟨hnodup, hapart, hbooks⟩ := h.books hnew
  rw [← hadded] at hnodup
  rw [← hadded, ← hremoved] at hapart hbooks
  refine ⟨lists', hsettled, hnodup, hapart, fun thread hthread hout hnot => ?_⟩
  obtain ⟨⟨hadd, hremove⟩, hout', hnot'⟩ := hbooks thread hout hnot
  exact (h.fresh thread hthread hout' hnot').call hcall hadd hremove

/-- The removal of the head of a blocked queue leaves a trace. -/
theorem remove_head (hblocked : registry.kernel.scheduler.state thread = .blocked)
    (hhead : registry.kernel.scheduler.blockedQueues (priority thread) = thread) :
    ¬ registry.Removes priority idle nsToTsc (.removeThread thread) := by
  have hmember := h.blocked_added thread hblocked
  have hthread : thread ≠ 0 := fun heq => h.nonnull (heq ▸ hmember)
  have hmakes : registry.Makes (.removeThread thread) :=
    ⟨hthread, fun hremoved => h.apart thread hremoved hmember⟩
  have hidle : thread ≠ idle := fun heq => h.idle_runnable.2 (heq ▸ hblocked)
  have hstep : registry.step priority idle nsToTsc (.removeThread thread) =
      some ⟨⟨registry.kernel.scheduler.removeThread priority thread,
        registry.kernel.added.erase thread⟩, registry.removedAfter (.removeThread thread)⟩ := by
    rw [Registry.step, if_pos hmakes]
    exact Option.bind_eq_some_iff.mpr ⟨_, if_pos hidle, rfl⟩
  intro hremoves
  obtain ⟨_, lists', _, hqueues, hgone⟩ := (hremoves _ hstep thread rfl).queues
  have hdangling : Dangling priority thread
      (registry.kernel.scheduler.removeThread priority thread) :=
    (remove_head_dangling hthread hhead).1
  have hqueue := hqueues (.blocked (priority thread))
  rw [show headsOf _ _ (.blocked (priority thread)) = thread from hdangling.head] at hqueue
  exact (hgone (.blocked (priority thread))).1 (hqueue.head_mem hthread)

/-- A removal leaves no trace exactly when the thread is not the head of a blocked queue. -/
theorem removes_iff (event : SchedulerCall) :
    registry.Removes priority idle nsToTsc event ↔ registry.SparesHead priority event := by
  constructor
  · intro hremoves
    cases event with
    | removeThread thread => exact fun hblocked hhead => h.remove_head hblocked hhead hremoves
    | _ => trivial
  · rintro hspares after hstep thread rfl
    exact (h.remove hstep hspares).2

end Settled

end Registry

/-- As long as no thread goes to sleep with a deadline while two threads of its priority are blocked,
every thread that is removed is gone exactly when none of them is removed while it is the head of a
blocked queue. If the deadline of such a thread is over, the next timer interrupt does not end. -/
theorem removed_threads_gone_iff (priority : Nat → Priority) (nsToTsc : Nat → Nat)
    (hidle : idle ≠ 0) {events : List SchedulerCall}
    (hfew : Meets (Registry.step priority idle nsToTsc)
      (Registry.FewBlocked priority nsToTsc) (Registry.initial priority idle) events) :
    (Meets (Registry.step priority idle nsToTsc)
        (Registry.Removes priority idle nsToTsc) (Registry.initial priority idle) events ↔
      Meets (Registry.step priority idle nsToTsc)
        (Registry.SparesHead priority) (Registry.initial priority idle) events) ∧
    ∀ (s : Scheduler) (thread : Nat), thread ≠ 0 → s.blockedQueues (priority thread) = thread →
      ∀ tsc : Nat → Nat, (∀ reading, s.tscDeadline thread < tsc reading) →
        ∀ fuel, (s.removeThread priority thread).handleTimerIrq priority fuel tsc = none := by
  obtain ⟨lists, hsound⟩ := sound_initial priority hidle
  have hinitial : ∃ lists, (Registry.initial priority idle).Settled priority idle lists := by
    refine ⟨lists, hsound.settled, by simp [Registry.initial, Kernel.initial], ?_, ?_⟩
    · intro thread hin
      cases hin
    · exact fun thread hthread hout _ => .initial hthread fun heq => hout (heq ▸ List.mem_cons_self)
  refine ⟨meets_iff_meets_of_allowed
    (fun registry => ∃ lists, registry.Settled priority idle lists)
    (fun _ event ⟨_, h⟩ => h.removes_iff event)
    (fun _ _ _ ⟨_, h⟩ hfew hspares hstep => h.step hfew hspares hstep) hinitial hfew, ?_⟩
  intro s thread hthread hhead tsc hexpired fuel
  obtain ⟨hdangling, hdeadline⟩ := remove_head_dangling hthread hhead
  rw [← hdeadline] at hexpired
  exact hdangling.handle_timer_irq hexpired fuel

/-- A thread behind the head of a blocked queue, the current thread and a thread that was never added
are removed. -/
theorem removed_threads_gone_three :
    Meets (Registry.step (fun _ => 4) 1 id) (Registry.Removes (fun _ => 4) 1 id)
      (Registry.initial (fun _ => 4) 1)
      [.kernel (.addThread 2), .kernel (.addThread 3), .kernel (.addThread 4), .kernel .schedule,
        .kernel (.sleepUntil infinite), .kernel (.sleepUntil 5), .removeThread 4, .removeThread 2,
        .removeThread 7, .kernel (.timerIrq fun _ => 6)] :=
  (removed_threads_gone_iff (fun _ => 4) id (by decide) (by decide +kernel)).1.mpr
    (by decide +kernel)

/-- A thread sleeps until a deadline, alone in its queue, and is destroyed. It stays the head of the
queue, and the timer interrupt at its deadline does not end. -/
theorem removed_sleeper_stays_head : ∃ before after,
    run (Registry.step (fun _ => 4) 1 id) (Registry.initial (fun _ => 4) 1)
      [.kernel (.addThread 2), .kernel .schedule, .kernel (.sleepUntil 5)] = some before ∧
    before.step (fun _ => 4) 1 id (.removeThread 2) = some after ∧
    after.kernel.scheduler.blockedQueues 4 = 2 ∧
    (∀ fuel, after.kernel.scheduler.handleTimerIrq (fun _ => 4) fuel (fun _ => 6) = none) ∧
    ¬ Gone (fun _ => 4) 2 before.kernel.scheduler after.kernel.scheduler := by
  have hresult : ((run (Registry.step (fun _ => 4) 1 id) (Registry.initial (fun _ => 4) 1)
      [.kernel (.addThread 2), .kernel .schedule, .kernel (.sleepUntil 5)]).any fun before =>
        (before.step (fun _ => 4) 1 id (.removeThread 2)).any fun after =>
          decide (after.kernel.scheduler.blockedQueues 4 = 2 ∧
            after.kernel.scheduler.state 2 ≠ .blocked ∧
            after.kernel.scheduler.tscDeadline 2 = 5)) = true := by
    decide +kernel
  obtain ⟨before, hrun, hbefore⟩ := (Option.any_eq_true _ _).mp hresult
  obtain ⟨after, hstep, hafter⟩ := (Option.any_eq_true _ _).mp hbefore
  obtain ⟨hhead, hstate, hdeadline⟩ := of_decide_eq_true hafter
  have hdangling : Dangling (fun _ => 4) 2 after.kernel.scheduler := ⟨by decide, hhead, hstate⟩
  have hstuck : ∀ fuel,
      after.kernel.scheduler.handleTimerIrq (fun _ => 4) fuel (fun _ => 6) = none := by
    refine hdangling.handle_timer_irq fun _ => ?_
    rw [hdeadline]
    decide
  refine ⟨before, after, hrun, hstep, hhead, hstuck, fun hgone => ?_⟩
  obtain ⟨fuel, result, hirq⟩ := hgone.irq fun _ => 6
  rw [hstuck fuel] at hirq
  cases hirq

end Otrix
