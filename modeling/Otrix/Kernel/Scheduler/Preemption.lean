import Otrix.Kernel.Scheduler.Queues
import Otrix.Foundation.Run

/-!
# Preemption that is pending

`need_resched_` is set when a thread with a higher priority than the current one becomes
runnable, and cleared when `schedule` picks a thread. `schedule` does nothing while
preemption is disabled, so that the flag has to remember the wake-ups of this time until
`preempt_enable` looks at it.

The flag is right in every run, also in runs that have broken a ring of threads. What it
takes is that the heads of the queues have the priority of their queue, and for this it is
enough that the links of a thread lead to threads of the same priority (`Graded`), in a ring
or not.
-/

namespace Otrix

open Function Linked Machine

/-! ## The calls -/

namespace Scheduler

/-- `preempt_disable`. -/
def preemptDisableCall (s : Scheduler) : Scheduler :=
  { s with preemptDisable := s.preemptDisable + 1 }

/-- `preempt_enable`. -/
def preemptEnable (s : Scheduler) (reschedule : Bool) : Option Scheduler :=
  if 0 < s.preemptDisable then
    let s := { s with preemptDisable := s.preemptDisable - 1 }
    if s.preemptDisable = 0 ∧ reschedule ∧ s.needResched then s.schedule else some s
  else some s

end Scheduler

/-- All the calls that reach the scheduler: those of the other modules, and those that remove a
thread or switch preemption. -/
inductive SchedulerCall where
  | kernel (event : KernelEvent)
  | removeThread (thread : Nat)
  | preemptDisable
  | preemptEnable (reschedule : Bool)

section

variable (priority : Nat → Priority) (idle : Nat) (nsToTsc : Nat → Nat) (fuel : Nat)

/-- One call, whose loops end within the fuel. A thread is added when it was not added before, or
was removed since, and the idle thread neither sleeps nor is removed. -/
def Kernel.call (kernel : Kernel) : SchedulerCall → Option Kernel
  | .kernel event => kernel.perform priority idle nsToTsc fuel event
  | .removeThread thread =>
    if thread ≠ idle then
      some ⟨kernel.scheduler.removeThread priority thread, kernel.added.erase thread⟩
    else none
  | .preemptDisable => some { kernel with scheduler := kernel.scheduler.preemptDisableCall }
  | .preemptEnable reschedule => do
    let s ← kernel.scheduler.preemptEnable reschedule
    some { kernel with scheduler := s }

end

/-- A predicate that the functions of the scheduler keep is kept by every call, where the threads
that are added and removed are those of the call. -/
theorem Kernel.call_invariant {priority : Nat → Priority} {idle fuel : Nat} {nsToTsc : Nat → Nat}
    {kernel after : Kernel} {event : SchedulerCall} {P : Scheduler → Prop}
    (hadd : ∀ s thread, event = .kernel (.addThread thread) → P s → P (s.addThread priority thread))
    (hremove : ∀ s thread, event = .removeThread thread → P s → P (s.removeThread priority thread))
    (hschedule : ∀ s s', P s → s.schedule = some s' → P s')
    (hsleep : ∀ s s' tscDeadline, P s → s.sleepUntil priority fuel tscDeadline = some s' → P s')
    (hwake : ∀ s thread, P s → P (s.wake priority thread))
    (hcount : ∀ s count, P s → P { s with preemptDisable := count })
    (hirq : ∀ s s' tsc, P s → s.handleTimerIrq priority fuel tsc = some s' → P s')
    (h : P kernel.scheduler) (hcall : kernel.call priority idle nsToTsc fuel event = some after) :
    P after.scheduler := by
  cases event with
  | kernel event =>
    cases event with
    | addThread thread =>
      obtain ⟨_, hafter⟩ := Option.ite_none_right_eq_some.mp hcall
      exact Option.some.inj hafter ▸ hadd _ thread rfl h
    | schedule =>
      obtain ⟨s, hnext, hafter⟩ := Option.bind_eq_some_iff.mp hcall
      exact Option.some.inj hafter ▸ hschedule _ s h hnext
    | sleep _ _ | sleepUntil _ =>
      obtain ⟨_, hblock⟩ := Option.ite_none_right_eq_some.mp hcall
      obtain ⟨s, hnext, hafter⟩ := Option.bind_eq_some_iff.mp hblock
      exact Option.some.inj hafter ▸ hsleep _ s _ h hnext
    | wake thread => exact Option.some.inj hcall ▸ hwake _ thread h
    | timerIrq tsc =>
      obtain ⟨s, hnext, hafter⟩ := Option.bind_eq_some_iff.mp hcall
      exact Option.some.inj hafter ▸ hirq _ s tsc h hnext
  | removeThread thread =>
    obtain ⟨_, hafter⟩ := Option.ite_none_right_eq_some.mp hcall
    exact Option.some.inj hafter ▸ hremove _ thread rfl h
  | preemptDisable => exact Option.some.inj hcall ▸ hcount _ _ h
  | preemptEnable reschedule =>
    obtain ⟨s, henable, hafter⟩ := Option.bind_eq_some_iff.mp hcall
    rw [← Option.some.inj hafter]
    have hlower := hcount _ (kernel.scheduler.preemptDisable - 1) h
    unfold Scheduler.preemptEnable at henable
    simp only at henable
    split at henable
    · split at henable
      · exact hschedule _ s hlower henable
      · exact Option.some.inj henable ▸ hlower
    · exact Option.some.inj henable ▸ h

/-! ## Links within a priority -/

/-- Every link leads to a node of the same grade. -/
def Graded {γ : Type*} (links : Links) (grade : Nat → γ) : Prop :=
  ∀ node, grade (next links node) = grade node ∧ grade (prev links node) = grade node

namespace Graded

variable {γ : Type*} {links : Links} {grade : Nat → γ} {head node value : Nat}

variable (h : Graded links grade)
include h

theorem set_next (hsame : grade value = grade node) :
    Graded (setNext links node value) grade := fun other =>
  ⟨(forall_update_iff links.next fun other target => grade target = grade other).mpr
    ⟨hsame, fun other _ => (h other).1⟩ other, (h other).2⟩

theorem set_prev (hsame : grade value = grade node) :
    Graded (setPrev links node value) grade := fun other =>
  ⟨(h other).1, (forall_update_iff links.prev fun other target =>
    grade target = grade other).mpr ⟨hsame, fun other _ => (h other).2⟩ other⟩

/-- `intrusive_list_push_back` to a list of the same grade. -/
theorem push_back (hhead : head ≠ 0 → grade head = grade node) :
    Graded (intrusiveListPushBack links head node).1 grade := by
  unfold intrusiveListPushBack
  by_cases hnull : head = null Links
  · rw [if_pos hnull]
    exact (h.set_prev rfl).set_next rfl
  · have hsame := hhead hnull
    have hlast : grade (prev links head) = grade node := (h head).2.trans hsame
    rw [if_neg hnull]
    exact (((h.set_next hlast.symm).set_prev hlast).set_next hsame).set_prev hsame.symm

theorem unlink_node :
    Graded (intrusiveListUnlinkNode links node) grade := by
  unfold intrusiveListUnlinkNode
  split
  · exact h
  · have hfirst : Graded (setNext links (prev links node) (next links node)) grade :=
      h.set_next ((h node).1.trans (h node).2.symm)
    exact hfirst.set_prev ((hfirst node).2.trans (hfirst node).1.symm)

/-- `intrusive_list_delete` leaves a head of the same grade, and an empty list empty. -/
theorem delete (hhead : head ≠ 0 → grade head = grade node) :
    Graded (intrusiveListDelete links head node).1 grade ∧
      ((intrusiveListDelete links head node).2 ≠ 0 →
        (node ≠ 0 → head ≠ 0) ∧ grade (intrusiveListDelete links head node).2 = grade node) := by
  unfold intrusiveListDelete
  by_cases heq : node = head
  · rw [if_pos heq]
    split
    · exact ⟨h, fun hne => absurd rfl hne⟩
    · exact ⟨h.unlink_node, fun _ => ⟨fun hnode => heq ▸ hnode, (h node).1⟩⟩
  · rw [if_neg heq]
    exact ⟨h.unlink_node, fun hne => ⟨fun _ => hne, hhead hne⟩⟩

theorem scan {compare : Nat → Nat → Bool} {fuel start current : Nat}
    (hscan : insertSortedScan links head node compare fuel start = some current) :
    grade current = grade start := by
  induction fuel generalizing start with
  | zero => cases hscan
  | succ fuel ih =>
    unfold insertSortedScan at hscan
    split at hscan
    · exact (ih hscan).trans (h start).1
    · exact congrArg grade (Option.some.inj hscan).symm

/-- The writes of a sorted insertion in front of a node of the same grade. -/
theorem link_before {current : Nat} (hsame : grade current = grade node) :
    Graded
      (let s := setNext links node current
       let s := setPrev s node (prev s current)
       let s := setPrev s current node
       if next s current = current then setNext s current node else s) grade := by
  have hfirst : Graded (setNext links node current) grade := h.set_next hsame
  have hsecond := (hfirst.set_prev ((hfirst current).2.trans hsame)).set_prev hsame.symm
  simp only
  split
  · exact hsecond.set_next hsame.symm
  · exact hsecond

/-- `intrusive_list_insert_sorted` into a list of the same grade. -/
theorem insert_sorted {compare : Nat → Nat → Bool} {fuel first : Nat} {after : Links}
    (hsame : grade head = grade node)
    (hinsert : intrusiveListInsertSorted fuel links head node compare = some (after, first)) :
    Graded after grade ∧ grade first = grade node := by
  unfold intrusiveListInsertSorted at hinsert
  split at hinsert
  · cases hinsert
    exact ⟨h, rfl⟩
  · split at hinsert
    · cases hinsert
      exact ⟨h.link_before hsame, rfl⟩
    · obtain ⟨current, hscan, heq⟩ := Option.bind_eq_some_iff.mp hinsert
      cases heq
      have hcurrent : grade current = grade node := (h.scan hscan).trans ((h head).1.trans hsame)
      exact ⟨h.link_before hcurrent, hsame⟩

end Graded

/-! ## The flag -/

/-- If a thread with a higher priority than the current one is in a runnable queue, then
`need_resched_` is set. -/
def PreemptionPending (priority : Nat → Priority) (s : Scheduler) : Prop :=
  ∀ prio, priority s.currentThread < prio → s.runnableQueues prio ≠ 0 → s.needResched = true

/-- No runnable queue above the priority of the current thread has a thread. -/
def RunsHighest (priority : Nat → Priority) (s : Scheduler) : Prop :=
  ∀ prio, s.runnableQueues prio ≠ 0 → prio ≤ priority s.currentThread

/-- The invariant: the queues have heads of their priority, and preemption is not forgotten. -/
structure Flagged (priority : Nat → Priority) (s : Scheduler) : Prop where
  graded : Graded s.links priority
  runnable : ∀ prio, s.runnableQueues prio ≠ 0 → priority (s.runnableQueues prio) = prio
  blocked : ∀ prio, s.blockedQueues prio ≠ 0 → priority (s.blockedQueues prio) = prio
  current : s.currentThread ≠ 0
  pending : PreemptionPending priority s

theorem heads_update {priority : Nat → Priority} {heads : Priority → Nat} {prio : Priority}
    {head : Nat} (h : ∀ other, heads other ≠ 0 → priority (heads other) = other)
    (hhead : head ≠ 0 → priority head = prio) :
    ∀ other, update heads prio head other ≠ 0 →
      priority (update heads prio head other) = other :=
  (forall_update_iff heads fun other head => head ≠ 0 → priority head = other).mpr
    ⟨hhead, fun other _ => h other⟩

namespace Flagged

variable {priority : Nat → Priority} {idle fuel thread : Nat} {nsToTsc : Nat → Nat}
  {s after : Scheduler}

theorem initial (priority : Nat → Priority) (hidle : idle ≠ 0) :
    Flagged priority (Scheduler.initial priority idle) := by
  have hgraded : Graded Scheduler.empty.links priority := fun _ => ⟨rfl, rfl⟩
  have hqueues : (Scheduler.empty.addThread priority idle).runnableQueues =
      update (fun _ => 0) (priority idle) idle := by
    rw [Scheduler.addThread, if_neg hidle]
    rfl
  refine ⟨?_, ?_, fun _ hne => ?_, hidle, fun prio hlt hne => ?_⟩
  · show Graded (Scheduler.empty.addThread priority idle).links priority
    rw [Scheduler.addThread, if_neg hidle]
    exact hgraded.push_back fun hne => absurd rfl hne
  · show ∀ prio, (Scheduler.empty.addThread priority idle).runnableQueues prio ≠ 0 →
      priority ((Scheduler.empty.addThread priority idle).runnableQueues prio) = prio
    rw [hqueues]
    exact heads_update (fun _ hne => absurd rfl hne) fun _ => rfl
  · rw [Scheduler.initial, Scheduler.addThread, if_neg hidle] at hne
    exact absurd rfl hne
  · have hother : (Scheduler.empty.addThread priority idle).runnableQueues prio ≠ 0 := hne
    have hlt' : priority idle < prio := hlt
    rw [hqueues, update_of_ne (Fin.ne_of_gt hlt')] at hother
    exact absurd rfl hother

theorem add_thread (h : Flagged priority s) (thread : Nat) :
    Flagged priority (s.addThread priority thread) := by
  unfold Scheduler.addThread
  by_cases hnull : thread = 0
  · rw [if_pos hnull]
    exact h
  · rw [if_neg hnull]
    have hhead : s.runnableQueues (priority thread) ≠ 0 →
        priority (s.runnableQueues (priority thread)) = priority thread :=
      h.runnable (priority thread)
    refine ⟨h.graded.push_back hhead,
      heads_update h.runnable fun _ => by rw [intrusive_list_push_back_snd], h.blocked, h.current,
      fun prio hlt hne => ?_⟩
    show (s.needResched || decide (s.currentThread ≠ 0 ∧
      priority s.currentThread < priority thread)) = true
    by_cases heq : prio = priority thread
    · -- this call has to set the flag
      have hhigher : s.currentThread ≠ 0 ∧ priority s.currentThread < priority thread :=
        ⟨h.current, heq ▸ hlt⟩
      rw [decide_eq_true hhigher, Bool.or_true]
    · have hold : s.runnableQueues prio ≠ 0 := by
        have hupdated : update s.runnableQueues (priority thread) _ prio ≠ 0 := hne
        rwa [update_of_ne heq] at hupdated
      rw [h.pending prio hlt hold, Bool.true_or]

theorem remove_thread (h : Flagged priority s) (thread : Nat) :
    Flagged priority (s.removeThread priority thread) := by
  unfold Scheduler.removeThread
  by_cases hnull : thread = 0
  · rw [if_pos hnull]
    exact h
  · rw [if_neg hnull]
    obtain ⟨hgraded, hhead⟩ := h.graded.delete (h.runnable (priority thread))
    refine ⟨hgraded, heads_update h.runnable fun hne => (hhead hne).2, h.blocked, h.current,
      fun prio hlt hne => h.pending prio hlt ?_⟩
    have hupdated : update s.runnableQueues (priority thread) _ prio ≠ 0 := hne
    by_cases heq : prio = priority thread
    · rw [heq, update_self] at hupdated
      rw [heq]
      exact (hhead hupdated).1 hnull
    · rwa [update_of_ne heq] at hupdated

/-- The loop of `schedule` finds the highest queue that has a thread. -/
theorem find_highest {prio : Priority} {heads : Priority → Nat}
    (h : priorities.find? (fun prio => heads prio ≠ 0) = some prio) :
    heads prio ≠ 0 ∧ ∀ other, prio < other → heads other = 0 := by
  obtain ⟨hfound, before, behind, hsplit, hempty⟩ := List.find?_eq_some_iff_append.mp h
  refine ⟨by simpa using hfound, fun other hlt => ?_⟩
  have hsorted : priorities.Pairwise (· > ·) := by decide
  have hmem := mem_priorities other
  rw [hsplit] at hsorted hmem
  rcases List.mem_append.mp hmem with hbefore | hbehind
  · simpa using hempty other hbefore
  · rcases List.mem_cons.mp hbehind with heq | hbehind
    · exact absurd hlt (heq ▸ Fin.lt_irrefl _)
    · have hgt := (List.pairwise_cons.mp (List.pairwise_append.mp hsorted).2.1).1 other hbehind
      exact absurd hlt (Fin.lt_asymm hgt)

section

variable (h : Flagged priority s)
include h

/-- `schedule`, which runs a thread of the highest priority unless preemption is disabled. -/
theorem schedule (hschedule : s.schedule = some after) :
    Flagged priority after ∧ after.preemptDisable = s.preemptDisable ∧
      (s.preemptDisable = 0 → RunsHighest priority after) := by
  unfold Scheduler.schedule at hschedule
  by_cases hdisabled : 0 < s.preemptDisable
  · rw [if_pos hdisabled] at hschedule
    cases hschedule
    exact ⟨h, rfl, fun hzero => absurd hzero hdisabled.ne'⟩
  · rw [if_neg hdisabled] at hschedule
    obtain ⟨prio, hfind, heq⟩ := Option.bind_eq_some_iff.mp hschedule
    cases heq
    obtain ⟨hhead, hhigher⟩ := find_highest hfind
    have hprio := h.runnable prio hhead
    have hnone : ∀ other, priority (s.runnableQueues prio) < other →
        update s.runnableQueues prio (next s.links (s.runnableQueues prio)) other = 0 := by
      intro other hlt
      rw [hprio] at hlt
      rw [update_of_ne (Fin.ne_of_gt hlt)]
      exact hhigher other hlt
    refine ⟨⟨h.graded, heads_update h.runnable fun _ => (h.graded _).1.trans hprio, h.blocked, hhead,
      fun other hlt hne => absurd (hnone other hlt) hne⟩, rfl, fun _ other hne => ?_⟩
    exact Fin.not_lt.mp fun hlt => hne (hnone other hlt)

theorem start_timer : Flagged priority s.startTimer := by
  rw [start_timer_eq]
  exact ⟨h.graded, h.runnable, h.blocked, h.current, h.pending⟩

theorem wake (thread : Nat) : Flagged priority (s.wake priority thread) := by
  unfold Scheduler.wake
  split
  · exact h
  · obtain ⟨hgraded, hhead⟩ := h.graded.delete (h.blocked (priority thread))
    have hdeleted : Flagged priority { s with
        links := (intrusiveListDelete s.links (s.blockedQueues (priority thread)) thread).1
        blockedQueues := update s.blockedQueues (priority thread)
          (intrusiveListDelete s.links (s.blockedQueues (priority thread)) thread).2 } :=
      ⟨hgraded, h.runnable, heads_update h.blocked fun hne => (hhead hne).2, h.current, h.pending⟩
    have hadded := hdeleted.add_thread thread
    exact start_timer ⟨hadded.graded, hadded.runnable, hadded.blocked, hadded.current,
      hadded.pending⟩

theorem block {tscDeadline : Nat}
    (hblock : s.block priority fuel thread tscDeadline = some after) : Flagged priority after := by
  have hpushed := h.graded.push_back (h.blocked (priority thread))
  have htail : (intrusiveListPushBack s.links (s.blockedQueues (priority thread)) thread).2 ≠ 0 →
      priority (intrusiveListPushBack s.links (s.blockedQueues (priority thread)) thread).2 =
        priority thread := by
    rw [intrusive_list_push_back_snd]
    exact fun _ => rfl
  unfold Scheduler.block at hblock
  simp only at hblock
  split at hblock
  · cases hblock
    exact ⟨hpushed, h.runnable, heads_update h.blocked htail, h.current, h.pending⟩
  · split at hblock
    · next hhead =>
      obtain ⟨⟨links, first⟩, hinsert, heq⟩ := Option.bind_eq_some_iff.mp hblock
      cases heq
      obtain ⟨hgraded, hfirst⟩ := h.graded.insert_sorted (h.blocked _ hhead) hinsert
      exact ⟨hgraded, h.runnable, heads_update h.blocked fun _ => hfirst, h.current, h.pending⟩
    · cases hblock
      exact ⟨hpushed, h.runnable, heads_update h.blocked htail, h.current, h.pending⟩

theorem sleep_until {tscDeadline : Nat}
    (hsleep : s.sleepUntil priority fuel tscDeadline = some after) : Flagged priority after := by
  obtain ⟨asleep, hblock, hschedule⟩ := Option.bind_eq_some_iff.mp hsleep
  exact (((h.remove_thread _).block hblock).start_timer.schedule hschedule).1

theorem handle_timer_irq {tsc : Nat → Nat}
    (hirq : s.handleTimerIrq priority fuel tsc = some after) : Flagged priority after :=
  handle_timer_irq_invariant (Flagged priority) (fun _ _ _ hs => hs.wake _)
    (fun _ _ hs => ⟨hs.graded, hs.runnable, hs.blocked, hs.current, hs.pending⟩)
    (fun _ hs => hs.start_timer) (fun _ _ hs hschedule => (hs.schedule hschedule).1) h hirq

/-- `preempt_enable`. When it enables preemption again and was asked to reschedule, a thread of the
highest priority runs. -/
theorem preempt_enable {reschedule : Bool} (henable : s.preemptEnable reschedule = some after) :
    Flagged priority after ∧ (s.preemptDisable = 1 → reschedule = true →
      after.preemptDisable = 0 ∧ RunsHighest priority after) := by
  unfold Scheduler.preemptEnable at henable
  by_cases hdisabled : 0 < s.preemptDisable
  · rw [if_pos hdisabled] at henable
    have hlower : Flagged priority { s with preemptDisable := s.preemptDisable - 1 } :=
      ⟨h.graded, h.runnable, h.blocked, h.current, h.pending⟩
    simp only at henable
    split at henable
    · next hresched =>
      obtain ⟨hflagged, hsame, hhighest⟩ := hlower.schedule henable
      exact ⟨hflagged, fun _ _ => ⟨hsame.trans hresched.1, hhighest hresched.1⟩⟩
    · next hkept =>
      cases henable
      refine ⟨hlower, fun hone htrue => ⟨?_, fun prio hne => ?_⟩⟩
      · show s.preemptDisable - 1 = 0
        omega
      · -- the flag is not set, so no higher queue has a thread
        refine Fin.not_lt.mp fun hlt => hkept ⟨?_, htrue, h.pending prio hlt hne⟩
        show s.preemptDisable - 1 = 0
        omega
  · rw [if_neg hdisabled] at henable
    cases henable
    exact ⟨h, fun hone => absurd hone (by omega)⟩

end

theorem call {kernel next : Kernel} {event : SchedulerCall} (h : Flagged priority kernel.scheduler)
    (hcall : kernel.call priority idle nsToTsc fuel event = some next) :
    Flagged priority next.scheduler :=
  Kernel.call_invariant (fun _ _ _ hs => hs.add_thread _) (fun _ _ _ hs => hs.remove_thread _)
    (fun _ _ hs hschedule => (hs.schedule hschedule).1) (fun _ _ _ hs => hs.sleep_until)
    (fun _ _ hs => hs.wake _)
    (fun _ _ hs => ⟨hs.graded, hs.runnable, hs.blocked, hs.current, hs.pending⟩)
    (fun _ _ _ hs => hs.handle_timer_irq) h hcall

end Flagged

/-! ## Whole runs -/

/-- In every state that a run of calls reaches, a thread with a higher priority than the current one
that is in a runnable queue has set `need_resched_`, and a `preempt_enable(true)` that enables
preemption again leaves a thread running that has the highest priority of all runnable queues. -/
theorem preemption_is_not_forgotten (priority : Nat → Priority) {idle : Nat} (nsToTsc : Nat → Nat)
    (fuel : Nat) (hidle : idle ≠ 0) {calls : List SchedulerCall} {kernel : Kernel}
    (hrun : run (Kernel.call priority idle nsToTsc fuel) (Kernel.initial priority idle)
      calls = some kernel) :
    PreemptionPending priority kernel.scheduler ∧
      ∀ after, kernel.scheduler.preemptDisable = 1 →
        kernel.call priority idle nsToTsc fuel (.preemptEnable true) = some after →
        after.scheduler.preemptDisable = 0 ∧ RunsHighest priority after.scheduler := by
  have hflagged : Flagged priority kernel.scheduler :=
    run_invariant (fun kernel : Kernel => Flagged priority kernel.scheduler)
      (fun _ _ _ h hcall => h.call hcall) (Flagged.initial priority hidle) hrun
  refine ⟨hflagged.pending, fun after hone hcall => ?_⟩
  obtain ⟨s, henable, heq⟩ := Option.bind_eq_some_iff.mp hcall
  cases heq
  exact (hflagged.preempt_enable henable).2 hone rfl

/-- In an interrupt, a timer wakes a thread of a higher priority, and the thread runs when the
interrupt is over. -/
theorem preemption_after_interrupt : ∃ kernel,
    run (Kernel.call (fun thread => if thread = 2 then 5 else 4) 1 id 5)
      (Kernel.initial (fun thread => if thread = 2 then 5 else 4) 1)
      [.kernel (.addThread 2), .kernel (.addThread 3), .kernel .schedule, .kernel (.sleepUntil 9),
        .preemptDisable, .kernel (.timerIrq fun _ => 10)] = some kernel ∧
    kernel.scheduler.currentThread ≠ 2 ∧ kernel.scheduler.preemptDisable = 1 ∧
    ∀ after, kernel.call (fun thread => if thread = 2 then 5 else 4) 1 id 5 (.preemptEnable true) =
        some after → after.scheduler.preemptDisable = 0 ∧
      RunsHighest (fun thread => if thread = 2 then 5 else 4) after.scheduler := by
  refine exists_of_any (fun kernel => kernel.scheduler.currentThread ≠ 2 ∧
      kernel.scheduler.preemptDisable = 1) (by decide +kernel) ?_
  rintro kernel hrun ⟨hcurrent, hdisabled⟩
  exact ⟨hcurrent, hdisabled, fun after hcall =>
    (preemption_is_not_forgotten _ id 5 (by decide) hrun).2 after hdisabled hcall⟩

end Otrix
