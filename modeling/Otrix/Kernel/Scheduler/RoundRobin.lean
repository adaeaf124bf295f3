import Otrix.Kernel.Scheduler.Partition
import Otrix.Kernel.Scheduler.Preemption

/-!
# Turns within a priority

`schedule` runs the head of the highest queue and moves the queue on, so that a thread that
was selected is behind all the others. A thread that sleeps leaves the queue, and a thread that
is woken is put at its head, in front of threads that have waited longer. As long as no thread
that was selected is woken, a thread that waits is passed by each of the others at most once.
-/

namespace Otrix

open Function Linked Machine

/-! ## The threads in front of a waiting one -/

section

variable {α : Type*} [DecidableEq α] {target x : α} {nodes rest since : List α}

/-- The nodes of a queue in front of the target. -/
def inFront (target : α) (nodes : List α) : List α :=
  nodes.takeWhile (· ≠ target)

theorem mem_in_front_cons {y : α} (h : y ∈ inFront target (x :: nodes)) :
    y = x ∨ y ∈ inFront target nodes := by
  unfold inFront at h
  rw [List.takeWhile_cons] at h
  split at h
  · exact List.mem_cons.mp h
  · cases h

/-- Taking out another node puts no node in front of the target. -/
theorem mem_in_front_erase {y : α} (hne : x ≠ target) (h : y ∈ inFront target (nodes.erase x)) :
    y ∈ inFront target nodes := by
  induction nodes with
  | nil => exact h
  | cons first nodes ih =>
    by_cases heq : first = x
    · subst heq
      rw [List.erase_cons_head] at h
      rw [inFront, List.takeWhile_cons, if_pos (by simpa using hne)]
      exact List.mem_cons_of_mem _ h
    · rw [List.erase_cons_tail (by simpa using heq)] at h
      rw [inFront, List.takeWhile_cons] at h ⊢
      split at h
      · next hother =>
        rw [if_pos hother]
        rcases List.mem_cons.mp h with rfl | h
        · exact List.mem_cons_self
        · exact List.mem_cons_of_mem _ (ih h)
      · cases h

/-- A node behind the target is not in front of it. -/
theorem in_front_append (hmem : target ∈ nodes) :
    inFront target (nodes ++ rest) = inFront target nodes := by
  induction nodes with
  | nil => cases hmem
  | cons first nodes ih =>
    rw [List.cons_append, inFront, inFront, List.takeWhile_cons, List.takeWhile_cons]
    split
    · next hne =>
      have hmem' : target ∈ nodes :=
        (List.mem_cons.mp hmem).resolve_left fun heq => of_decide_eq_true hne heq.symm
      exact congrArg _ (ih hmem')
    · rfl

/-- No node in front of the target had a turn since. -/
def NoneAgain (target : α) (nodes since : List α) : Prop :=
  ∀ y ∈ inFront target nodes, y ∉ since

theorem NoneAgain.push (h : NoneAgain target nodes since) (hnew : x ∉ since) :
    NoneAgain target (x :: nodes) since := by
  intro y hy
  rcases mem_in_front_cons hy with rfl | hy
  · exact hnew
  · exact h y hy

/-- The first node has its turn and goes behind the others. -/
theorem NoneAgain.turn (h : NoneAgain target (x :: rest) since) (hne : x ≠ target)
    (hmem : target ∈ x :: rest) (hnodup : (x :: rest).Nodup) :
    NoneAgain target (rest ++ [x]) (x :: since) := by
  have hrest : target ∈ rest := (List.mem_cons.mp hmem).resolve_left (Ne.symm hne)
  intro y hy hsince
  rw [in_front_append hrest] at hy
  have hyx : y ≠ x := by
    rintro rfl
    exact (List.nodup_cons.mp hnodup).1 ((List.takeWhile_sublist _).subset hy)
  have hfront : y ∈ inFront target (x :: rest) := by
    rw [inFront, List.takeWhile_cons, if_pos (by simpa using hne)]
    exact List.mem_cons_of_mem _ hy
  exact h y hfront ((List.mem_cons.mp hsince).resolve_left hyx)

end

/-! ## Selections -/

variable {priority : Nat → Priority} {idle target thread : Nat} {nsToTsc : Nat → Nat}
  {kernel after : Kernel} {s : Scheduler} {members : Nat → Prop} {added : List Nat}
  {lists : KthreadQueue → List Nat}

theorem Filing.unique {others : Nat → Prop} {lists' : KthreadQueue → List Nat}
    (h : Filing priority members s lists) (h' : Filing priority others s lists') : lists = lists' :=
  funext fun queue => (h.rings.queue queue).unique (h'.rings.queue queue)

/-- `schedule` runs the first thread of the highest queue that is not empty, and puts it behind the
others. -/
theorem Filing.select {after : Scheduler} (h : Filing priority members s lists)
    (hidle : members idle ∧ s.state idle ≠ .blocked) (hpreempt : s.preemptDisable = 0)
    (hschedule : s.schedule = some after) :
    ∃ prio rest, lists (.runnable prio) = after.currentThread :: rest ∧
      (∀ other, prio < other → lists (.runnable other) = []) ∧
      Filing priority members after
        (update lists (.runnable prio) (rest ++ [after.currentThread])) := by
  obtain ⟨prio, head, rest, hlist, hresult, hfiling⟩ :=
    schedule_filing h hpreempt hidle.1 hidle.2
  rw [hresult] at hschedule
  obtain rfl := Option.some.inj hschedule
  refine ⟨prio, rest, hlist, ?_, hfiling⟩
  -- the queue that the loop finds is the queue of its first thread
  have hloop : ∃ found, priorities.find? (fun prio => s.runnableQueues prio ≠ 0) = some found ∧
      s.runnableQueues found = head := by
    rw [Scheduler.schedule, hpreempt, if_neg (by decide)] at hresult
    obtain ⟨found, hfound, heq⟩ := Option.bind_eq_some_iff.mp hresult
    exact ⟨found, hfound, congrArg Scheduler.currentThread (Option.some.inj heq)⟩
  obtain ⟨found, hfind, hhead⟩ := hloop
  obtain ⟨hnonempty, hhigher⟩ := Flagged.find_highest hfind
  obtain ⟨rest', hfound⟩ : ∃ rest', lists (.runnable found) = s.runnableQueues found :: rest' :=
    (h.rings.queue (.runnable found)).exists_cons hnonempty
  have hprio : priority head = prio := (h.runnable_mem (hlist ▸ List.mem_cons_self)).2.2
  have hsame : priority head = found := by
    rw [hhead] at hfound
    exact (h.runnable_mem (hfound ▸ List.mem_cons_self)).2.2
  obtain rfl : prio = found := hprio.symm.trans hsame
  exact fun other hlt => (h.head_eq_zero_iff (.runnable other)).mp (hhigher other hlt)

/-- The first thread of a queue is selected when the higher queues are empty, and leaves them
empty. -/
theorem Filing.select_first {after : Scheduler} {prio : Priority} {first : Nat} {rest : List Nat}
    (h : Filing priority members s lists) (hidle : members idle ∧ s.state idle ≠ .blocked)
    (hpreempt : s.preemptDisable = 0) (hschedule : s.schedule = some after)
    (hlist : lists (.runnable prio) = first :: rest)
    (hempty : ∀ other, prio < other → lists (.runnable other) = []) :
    after.currentThread = first ∧ ∀ other, prio < other → after.runnableQueues other = 0 := by
  obtain ⟨found, rest', hfound, hhigher, hfiling⟩ := h.select hidle hpreempt hschedule
  have hprio : found = prio := by
    rcases Nat.lt_trichotomy found.val prio.val with hlt | heq | hgt
    · rw [hhigher prio hlt] at hlist
      cases hlist
    · exact Fin.ext heq
    · rw [hempty found hgt] at hfound
      cases hfound
  subst hprio
  rw [hlist] at hfound
  refine ⟨(List.cons.inj hfound).1.symm, fun other hlt => ?_⟩
  refine (hfiling.head_eq_zero_iff (.runnable other)).mpr ?_
  rw [update_of_ne (by simp [Fin.ne_of_gt hlt]), hempty other hlt]

/-! ## Watching a thread -/

/-- The calls that move threads between the queues, without deadlines. -/
inductive RoundEvent where
  | addThread (thread : Nat)
  | wake (thread : Nat)
  | sleep
  | schedule
  deriving DecidableEq

/-- The call of the event. A thread that sleeps without a timeout has an infinite deadline. -/
def RoundEvent.call : RoundEvent → KernelEvent
  | .addThread thread => .addThread thread
  | .wake thread => .wake thread
  | .sleep => .sleepUntil infinite
  | .schedule => .schedule

/-- The event ends in `schedule`. -/
def RoundEvent.Selects : RoundEvent → Prop
  | .addThread _ => False
  | .wake _ => False
  | .sleep => True
  | .schedule => True

instance : (event : RoundEvent) → Decidable event.Selects
  | .addThread _ => inferInstanceAs (Decidable False)
  | .wake _ => inferInstanceAs (Decidable False)
  | .sleep => inferInstanceAs (Decidable True)
  | .schedule => inferInstanceAs (Decidable True)

/-- The target is in the runnable queue of its priority, and the higher queues are empty. -/
def Kernel.Waits (priority : Nat → Priority) (target : Nat) (kernel : Kernel) : Prop :=
  target ∈ kernel.added ∧ kernel.scheduler.state target ≠ .blocked ∧
    ∀ prio, priority target < prio → kernel.scheduler.runnableQueues prio = 0
  deriving Decidable

/-- A kernel in which a thread is watched, with the threads that were selected since it was selected
itself or began to wait. -/
structure Watch where
  kernel : Kernel
  since : List Nat

/-- The notes after a call, if the target waits. -/
def Watch.record (target : Nat) (watch : Watch) (after : Kernel) (event : RoundEvent) : Watch :=
  if event.Selects then
    let selected := after.scheduler.currentThread
    if selected = target then ⟨after, []⟩ else ⟨after, selected :: watch.since⟩
  else { watch with kernel := after }

/-- The notes are about the kernel after the call. -/
theorem Watch.record_kernel (target : Nat) (watch : Watch) (after : Kernel) (event : RoundEvent) :
    (watch.record target after event).kernel = after := by
  simp only [Watch.record, apply_ite Watch.kernel, ite_self]

section

variable (priority : Nat → Priority) (idle : Nat) (nsToTsc : Nat → Nat) (target : Nat)

/-- One call. -/
def Watch.step (watch : Watch) (event : RoundEvent) : Option Watch := do
  let after ← watch.kernel.step priority idle nsToTsc event.call
  if after.Waits priority target then some (watch.record target after event)
  else some ⟨after, []⟩

/-- The scheduler after its constructor. -/
def Watch.initial : Watch :=
  ⟨Kernel.initial priority idle, []⟩

/-- The thread that the event selects while the target waits, unless it is the target, was not
selected since. -/
def Watch.SelectsNone (watch : Watch) (event : RoundEvent) : Prop :=
  ∀ after ∈ watch.step priority idle nsToTsc target event, event.Selects →
    after.kernel.Waits priority target → after.kernel.scheduler.currentThread ≠ target →
      after.kernel.scheduler.currentThread ∉ watch.since

/-- The event wakes no sleeping thread that was selected while the target waits. -/
def Watch.WakesNone (watch : Watch) (event : RoundEvent) : Prop :=
  ∀ thread ∈ watch.since, watch.kernel.scheduler.state thread = .blocked →
    event ≠ .wake thread

end

variable {event : RoundEvent}

theorem Watch.step_of_waits {watch : Watch}
    (hstep : watch.kernel.step priority idle nsToTsc event.call = some after)
    (hwaits : after.Waits priority target) :
    watch.step priority idle nsToTsc target event = some (watch.record target after event) :=
  Option.bind_eq_some_iff.mpr ⟨after, hstep, if_pos hwaits⟩

instance (watch : Watch) (event : RoundEvent) :
    Decidable (watch.SelectsNone priority idle nsToTsc target event) :=
  inferInstanceAs (Decidable (∀ after ∈ watch.step priority idle nsToTsc target event, _))

instance (watch : Watch) (event : RoundEvent) : Decidable (watch.WakesNone event) :=
  inferInstanceAs (Decidable (∀ thread ∈ watch.since, _))

/-! ## What a call does to the queue of the target -/

/-- A selection while the target waits is made from its queue. -/
theorem Filing.select_waiting (h : Filing priority (· ∈ added) s lists)
    (hidle : idle ∈ added ∧ s.state idle ≠ .blocked) (hpreempt : s.preemptDisable = 0)
    (hschedule : s.schedule = some after.scheduler) (hadded : after.added = added)
    (hwaits : after.Waits priority target) :
    ∃ rest, lists (.runnable (priority target)) = after.scheduler.currentThread :: rest ∧
      target ∈ after.scheduler.currentThread :: rest ∧
      Filing priority (· ∈ added) after.scheduler
        (update lists (.runnable (priority target))
          (rest ++ [after.scheduler.currentThread])) := by
  obtain ⟨hmember, hrunnable, hhigher⟩ := hwaits
  obtain ⟨prio, rest, hlist, hempty, hfiling⟩ := h.select hidle hpreempt hschedule
  have hin := hfiling.mem (hadded ▸ hmember)
  rw [queueOf, queueFor, if_neg hrunnable] at hin
  have hprio : prio = priority target := by
    rcases Nat.lt_trichotomy prio.val (priority target).val with hlt | heq | hgt
    · -- the queue of the target was empty and still is
      have hne : priority target ≠ prio := Fin.ne_of_gt hlt
      rw [update_of_ne (by simp [hne]), hempty _ hlt] at hin
      cases hin
    · exact Fin.ext heq
    · have hnil := (hfiling.head_eq_zero_iff (.runnable prio)).mp (hhigher prio hgt)
      simp at hnil
  subst hprio
  rw [update_self] at hin
  refine ⟨rest, hlist, ?_, hfiling⟩
  simpa [or_comm] using hin

/-- What a call does to the queue of the target, which waits after the call. -/
inductive QueueTurn (target : Nat) (kernel after : Kernel) :
    RoundEvent → List Nat → List Nat → Prop where
  | same {event : RoundEvent} {nodes : List Nat} (hselects : ¬ event.Selects) :
      QueueTurn target kernel after event nodes nodes
  | added {thread : Nat} {nodes : List Nat} (hnew : thread ∉ kernel.added) :
      QueueTurn target kernel after (.addThread thread) nodes (thread :: nodes)
  | woken {thread : Nat} {nodes : List Nat}
      (hblocked : kernel.scheduler.state thread = .blocked) :
      QueueTurn target kernel after (.wake thread) nodes (thread :: nodes)
  | scheduled {nodes rest : List Nat} (hnodes : nodes = after.scheduler.currentThread :: rest)
      (hmem : target ∈ after.scheduler.currentThread :: rest) :
      QueueTurn target kernel after .schedule nodes (rest ++ [after.scheduler.currentThread])
  | slept {nodes rest : List Nat} (hother : kernel.scheduler.currentThread ≠ target)
      (hnodes : nodes.erase kernel.scheduler.currentThread =
        after.scheduler.currentThread :: rest)
      (hmem : target ∈ after.scheduler.currentThread :: rest) :
      QueueTurn target kernel after .sleep nodes (rest ++ [after.scheduler.currentThread])

/-- The thread that is selected instead of a waiting target was in front of it. The queue that it
is taken from is the queue of before, without the thread that goes to sleep. -/
theorem QueueTurn.selected {nodes nodes' : List Nat}
    (h : QueueTurn target kernel after event nodes nodes') (hselects : event.Selects) :
    ∃ left rest, left = after.scheduler.currentThread :: rest ∧
      target ∈ after.scheduler.currentThread :: rest ∧
      nodes' = rest ++ [after.scheduler.currentThread] ∧
      ∀ x ∈ inFront target left, x ∈ inFront target nodes := by
  cases h with
  | same hnot => exact absurd hselects hnot
  | added hnew => cases hselects
  | woken hblocked => cases hselects
  | scheduled hnodes hmem => exact ⟨_, _, hnodes, hmem, rfl, fun x hx => hx⟩
  | slept hother hnodes hmem => exact ⟨_, _, hnodes, hmem, rfl, fun x => mem_in_front_erase hother⟩

theorem RoundEvent.few_blocked (event : RoundEvent) :
    FewBlocked priority nsToTsc kernel event.call := by
  intro tscDeadline hdeadline hfinite
  cases event with
  | sleep => exact absurd (Option.some.inj hdeadline).symm hfinite
  | addThread thread => cases hdeadline
  | wake thread => cases hdeadline
  | schedule => cases hdeadline

theorem RoundEvent.added_subset
    (hstep : kernel.step priority idle nsToTsc event.call = some after) :
    ∀ thread ∈ kernel.added, thread ∈ after.added := by
  cases event with
  | addThread thread =>
    obtain ⟨_, hafter⟩ := Option.ite_none_right_eq_some.mp hstep
    exact Option.some.inj hafter ▸ fun _ => List.mem_cons_of_mem _
  | wake thread => exact Option.some.inj hstep ▸ fun _ => id
  | schedule =>
    obtain ⟨s, _, hafter⟩ := Option.bind_eq_some_iff.mp hstep
    exact Option.some.inj hafter ▸ fun _ => id
  | sleep =>
    obtain ⟨_, hcall⟩ := Option.ite_none_right_eq_some.mp hstep
    obtain ⟨s, _, hafter⟩ := Option.bind_eq_some_iff.mp hcall
    exact Option.some.inj hafter ▸ fun _ => id

/-- What one event does to the queue in which the target waits. -/
theorem Sound.round_step
    (h : Sound priority idle kernel.added kernel.scheduler lists) (target : Nat)
    (hstep : kernel.step priority idle nsToTsc event.call = some after) :
    ∃ lists', Sound priority idle after.added after.scheduler lists' ∧
      (after.Waits priority target →
        QueueTurn target kernel after event (lists (.runnable (priority target)))
          (lists' (.runnable (priority target)))) := by
  obtain ⟨lists', hsound, heffect, _⟩ := h.step event.few_blocked hstep
  refine ⟨lists', hsound, fun hwaits => ?_⟩
  cases event with
  | addThread thread =>
    obtain ⟨⟨hthread, hnew⟩, hafter⟩ := Option.ite_none_right_eq_some.mp hstep
    obtain rfl := Option.some.inj hafter
    rw [hsound.toFiling.unique (add_thread_filing h.toFiling hnew hthread)]
    by_cases hprio : priority target = priority thread
    · rw [hprio, update_self]
      exact .added hnew
    · rw [update_of_ne (by simp [hprio])]
      exact .same id
  | wake thread =>
    obtain rfl := Option.some.inj hstep
    by_cases hblocked : kernel.scheduler.state thread = .blocked
    · rw [hsound.toFiling.unique
        (wake_filing h.toFiling (h.blocked_added thread hblocked) hblocked)]
      by_cases hprio : priority target = priority thread
      · rw [hprio, update_self]
        exact .woken hblocked
      · rw [update_of_ne (by simp [hprio]), update_of_ne (by simp)]
        exact .same id
    · have hrefused : kernel.scheduler.wake priority thread = kernel.scheduler := by
        rw [Scheduler.wake, if_pos hblocked]
      have hfiling := hsound.toFiling
      rw [hrefused] at hfiling
      rw [hfiling.unique h.toFiling]
      exact .same id
  | schedule =>
    obtain ⟨s, hschedule, hafter⟩ := Option.bind_eq_some_iff.mp hstep
    obtain rfl := Option.some.inj hafter
    obtain ⟨rest, hnodes, hmem, hfiling⟩ :=
      @Filing.select_waiting _ _ _ ⟨s, kernel.added⟩ _ _ _ h.toFiling h.idle_runnable h.preempt
        hschedule rfl hwaits
    rw [hsound.toFiling.unique hfiling, update_self]
    exact .scheduled hnodes hmem
  | sleep =>
    obtain ⟨hcurrent, hcall⟩ := Option.ite_none_right_eq_some.mp hstep
    obtain ⟨s, hsleep, hafter⟩ := Option.bind_eq_some_iff.mp hcall
    obtain rfl := Option.some.inj hafter
    obtain ⟨asleep, lists'', hblock, hasleep, hrunnable, _, _, hstate, _, hpreempt⟩ :=
      h.block_current (Nat.succ_ne_zero _) fun hfinite => absurd rfl hfinite
    replace hsleep : asleep.schedule = some s := hblock.symm.trans hsleep
    have hidle : asleep.state idle ≠ .blocked := by
      rw [hstate, update_of_ne (Ne.symm hcurrent)]
      exact h.idle_runnable.2
    obtain ⟨rest, hnodes, hmem, hfiling⟩ :=
      @Filing.select_waiting _ _ _ ⟨s, kernel.added⟩ _ _ _ hasleep ⟨h.idle_runnable.1, hidle⟩
        hpreempt hsleep rfl hwaits
    rw [hsound.toFiling.unique hfiling, update_self]
    rw [hrunnable] at hnodes
    refine .slept ?_ hnodes hmem
    -- a target that goes to sleep does not wait any more
    exact fun heq => hwaits.2.1 (heq ▸ heffect.asleep rfl)

/-! ## Whole runs -/

/-- The queues are sound, and the threads that were selected have the priority of the target, which
waits. -/
structure Watch.Ordered (priority : Nat → Priority) (idle target : Nat) (watch : Watch)
    (lists : KthreadQueue → List Nat) : Prop
    extends Sound priority idle watch.kernel.added watch.kernel.scheduler lists where
  waits : watch.since ≠ [] → watch.kernel.Waits priority target
  since : ∀ thread ∈ watch.since, thread ∈ watch.kernel.added ∧ priority thread = priority target

/-- No thread in front of the target was selected since. -/
def Watch.Fair (priority : Nat → Priority) (target : Nat) (watch : Watch)
    (lists : KthreadQueue → List Nat) : Prop :=
  NoneAgain target (lists (.runnable (priority target))) watch.since

namespace Watch.Ordered

variable {watch after : Watch} {event : RoundEvent}

theorem fresh (hsound : Sound priority idle kernel.added kernel.scheduler lists) :
    (⟨kernel, []⟩ : Watch).Ordered priority idle target lists :=
  ⟨hsound, fun hne => absurd rfl hne, by simp⟩

section

variable (h : watch.Ordered priority idle target lists)
include h

theorem record {kernel : Kernel} {lists' : KthreadQueue → List Nat}
    (hsound : Sound priority idle kernel.added kernel.scheduler lists')
    (hadded : ∀ thread ∈ watch.kernel.added, thread ∈ kernel.added)
    (hwaits : kernel.Waits priority target)
    (hturn : QueueTurn target watch.kernel kernel event (lists (.runnable (priority target)))
      (lists' (.runnable (priority target)))) :
    (watch.record target kernel event).Ordered priority idle target lists' := by
  have hsince : ∀ thread ∈ watch.since,
      thread ∈ kernel.added ∧ priority thread = priority target :=
    fun thread hin => ⟨hadded thread (h.since thread hin).1, (h.since thread hin).2⟩
  unfold Watch.record
  split
  · next hselects =>
    simp only
    split
    · exact fresh hsound
    · refine ⟨hsound, fun _ => hwaits, fun thread hin => ?_⟩
      rcases List.mem_cons.mp hin with rfl | hin
      · obtain ⟨_, rest, _, _, hlist, _⟩ := hturn.selected hselects
        obtain ⟨hmember, _, hprio⟩ := hsound.runnable_mem (hlist ▸ List.mem_concat_self)
        exact ⟨hmember, hprio⟩
      · exact hsince thread hin
  · exact ⟨hsound, fun _ => hwaits, hsince⟩

/-- The threads in front of the target are still none that were selected, unless one of these is
woken. -/
theorem fair_record {kernel : Kernel} {lists' : KthreadQueue → List Nat}
    (hfair : watch.Fair priority target lists) (hnone : watch.WakesNone event)
    (hsound : Sound priority idle kernel.added kernel.scheduler lists')
    (hturn : QueueTurn target watch.kernel kernel event (lists (.runnable (priority target)))
      (lists' (.runnable (priority target)))) :
    (watch.record target kernel event).Fair priority target lists' := by
  unfold Watch.record
  split
  · next hselects =>
    simp only
    split
    · exact fun _ _ => List.not_mem_nil
    · next hne =>
      obtain ⟨left, rest, hleft, hmem, hlist, hfront⟩ := hturn.selected hselects
      have hnodup : (kernel.scheduler.currentThread :: rest).Nodup := by
        have hring := (hsound.rings.queue (.runnable (priority target))).ring.nodup
        rw [hlist] at hring
        exact (List.perm_append_singleton _ _).nodup_iff.mp hring
      have hbefore : NoneAgain target (kernel.scheduler.currentThread :: rest) watch.since :=
        hleft ▸ fun y hy => hfair y (hfront y hy)
      unfold Watch.Fair
      rw [hlist]
      exact hbefore.turn hne hmem hnodup
  · next hselects =>
    unfold Watch.Fair at hfair ⊢
    revert hturn
    generalize lists' (.runnable (priority target)) = nodes
    intro hturn
    cases hturn with
    | same _ => exact hfair
    | added hnew => exact hfair.push fun hin => hnew (h.since _ hin).1
    | woken hblocked => exact hfair.push fun hin => hnone _ hin hblocked rfl
    | scheduled hnodes hmem => exact absurd trivial hselects
    | slept hother hnodes hmem => exact absurd trivial hselects

/-- A call keeps the order. If it wakes no thread that was selected, and none of these is in front of
the target, then it selects none of them, and none comes in front. -/
theorem step (hstep : watch.step priority idle nsToTsc target event = some after) :
    ∃ lists', after.Ordered priority idle target lists' ∧
      (watch.Fair priority target lists → watch.WakesNone event →
        after.Fair priority target lists' ∧
          watch.SelectsNone priority idle nsToTsc target event) := by
  obtain ⟨kernel, hkernel, hafter⟩ := Option.bind_eq_some_iff.mp hstep
  obtain ⟨lists', hsound, hturn⟩ := h.toSound.round_step target hkernel
  have hadded : ∀ thread ∈ watch.kernel.added, thread ∈ kernel.added :=
    RoundEvent.added_subset hkernel
  refine ⟨lists', ?_, fun hfair hnone => ⟨?_, ?_⟩⟩
  · by_cases hwaits : kernel.Waits priority target
    · rw [if_pos hwaits] at hafter
      exact Option.some.inj hafter ▸ h.record hsound hadded hwaits (hturn hwaits)
    · rw [if_neg hwaits] at hafter
      exact Option.some.inj hafter ▸ fresh hsound
  · by_cases hwaits : kernel.Waits priority target
    · rw [if_pos hwaits] at hafter
      exact Option.some.inj hafter ▸ h.fair_record hfair hnone hsound (hturn hwaits)
    · rw [if_neg hwaits] at hafter
      exact Option.some.inj hafter ▸ fun _ _ => List.not_mem_nil
  · intro final hfinal hselects hwaits hne
    obtain rfl : after = final := Option.some.inj (hstep.symm.trans hfinal)
    have hsame : after.kernel = kernel := by
      split at hafter
      · rw [← Option.some.inj hafter, record_kernel]
      · exact Option.some.inj hafter ▸ rfl
    rw [hsame] at hwaits hne ⊢
    -- the selected thread was in front of the target
    obtain ⟨left, rest, hleft, _, _, hfront⟩ := (hturn hwaits).selected hselects
    refine hfair _ (hfront _ ?_)
    rw [hleft, inFront, List.takeWhile_cons, if_pos (by simpa using hne)]
    exact List.mem_cons_self

end

/-- A thread that was selected before is selected again when it is woken and the scheduler runs. -/
theorem woken_first (h : watch.Ordered priority idle target lists) (hsince : thread ∈ watch.since)
    (hblocked : watch.kernel.scheduler.state thread = .blocked) :
    ¬ Meets (Watch.step priority idle nsToTsc target)
      (Watch.SelectsNone priority idle nsToTsc target) watch [.wake thread, .schedule] := by
  obtain ⟨hmember, hrunnable, hhigher⟩ := h.waits (List.ne_nil_of_mem hsince)
  have hprio := (h.since thread hsince).2
  have hne : thread ≠ target := fun heq => hrunnable (heq ▸ hblocked)
  generalize hs : watch.kernel.scheduler.wake priority thread = woken
  -- the thread is pushed to the head of the queue of the target
  obtain ⟨⟨lists', hsound, _⟩, _, hwho⟩ := h.toSound.wake thread
  have hlists := hsound.toFiling.unique
    (wake_filing h.toFiling (h.since thread hsince).1 hblocked)
  rw [hs] at hsound hwho
  have hfirst : lists' (.runnable (priority target)) =
      thread :: lists (.runnable (priority target)) := by
    rw [hlists, hprio, update_self]
  have hempty : ∀ other, priority target < other → lists' (.runnable other) = [] := by
    intro other hlt
    rw [hlists, hprio, update_of_ne (by simp [Fin.ne_of_gt hlt]),
      update_of_ne (by simp)]
    exact (h.head_eq_zero_iff (.runnable other)).mp (hhigher other hlt)
  have hawake : woken.state target ≠ .blocked := fun hin => hrunnable ((hwho target).mp hin).1
  have hwaits : Kernel.Waits priority target ⟨woken, watch.kernel.added⟩ :=
    ⟨hmember, hawake, fun other hlt =>
      (hsound.head_eq_zero_iff (.runnable other)).mpr (hempty other hlt)⟩
  obtain ⟨after, _, hschedule, _, _, _, _, hsame⟩ :=
    hsound.schedule_sound hsound.blocked_added hsound.idle_runnable hsound.preempt
  obtain ⟨hcurrent, hstill⟩ := hsound.select_first hsound.idle_runnable hsound.preempt hschedule
    hfirst hempty
  have hwaits' : Kernel.Waits priority target ⟨after, watch.kernel.added⟩ :=
    ⟨hmember, fun hin => hawake ((hsame target).mp hin), hstill⟩
  intro hmeets
  generalize hrecord : watch.record target ⟨woken, watch.kernel.added⟩ (.wake thread) = second
  have hkernel : second.kernel = ⟨woken, watch.kernel.added⟩ := by
    rw [← hrecord, Watch.record_kernel]
  have hnotes : second.since = watch.since := hrecord ▸ rfl
  have hwake : watch.step priority idle nsToTsc target (.wake thread) = some second := by
    rw [← hrecord, ← hs]
    exact Watch.step_of_waits rfl (hs ▸ hwaits)
  have hselect : second.step priority idle nsToTsc target .schedule =
      some (second.record target ⟨after, watch.kernel.added⟩ .schedule) := by
    refine Watch.step_of_waits ?_ hwaits'
    rw [hkernel]
    exact Option.bind_eq_some_iff.mpr ⟨after, hschedule, rfl⟩
  have hagain := (hmeets.2 second hwake).1 _ hselect trivial
  rw [Watch.record_kernel, hnotes] at hagain
  exact hagain hwaits' (hcurrent ▸ hne) (hcurrent ▸ hsince)

end Watch.Ordered

/-- While a thread waits in the highest queue that is not empty, the others of its priority are
selected at most once each until it is selected, if no thread is woken that was selected since. A
thread that is woken is selected a second time if `schedule` follows. -/
theorem round_robin_of_wakes_none (priority : Nat → Priority) (nsToTsc : Nat → Nat) (target : Nat)
    (hidle : idle ≠ 0) {events : List RoundEvent} {final : Watch}
    (hrun : run (Watch.step priority idle nsToTsc target) (Watch.initial priority idle)
      events = some final) :
    (Meets (Watch.step priority idle nsToTsc target) Watch.WakesNone
        (Watch.initial priority idle) events →
      Meets (Watch.step priority idle nsToTsc target)
        (Watch.SelectsNone priority idle nsToTsc target) (Watch.initial priority idle) events) ∧
    ∀ thread ∈ final.since, final.kernel.scheduler.state thread = .blocked →
      ¬ Meets (Watch.step priority idle nsToTsc target)
        (Watch.SelectsNone priority idle nsToTsc target) final [.wake thread, .schedule] := by
  obtain ⟨lists, hsound⟩ := sound_initial priority hidle
  have hinitial : (Watch.initial priority idle).Ordered priority idle target lists :=
    Watch.Ordered.fresh hsound
  constructor
  · refine Meets.imp (fun watch => ∃ lists, watch.Ordered priority idle target lists ∧
      watch.Fair priority target lists) ?_ ?_ ⟨lists, hinitial, fun _ _ => List.not_mem_nil⟩
    · rintro watch event ⟨lists, h, hfair⟩ hnone after hstep
      obtain ⟨_, _, hkept⟩ := h.step hstep
      exact (hkept hfair hnone).2 after hstep
    · rintro watch event after ⟨lists, h, hfair⟩ hnone hstep
      obtain ⟨lists', hafter, hkept⟩ := h.step hstep
      exact ⟨lists', hafter, (hkept hfair hnone).1⟩
  · obtain ⟨lists', h⟩ := run_invariant
      (fun watch => ∃ lists, watch.Ordered priority idle target lists)
      (fun _ _ _ ⟨_, h⟩ hstep => (h.step hstep).imp fun _ hnext => hnext.1) ⟨lists, hinitial⟩ hrun
    exact fun thread => h.woken_first

/-- Three threads of priority four above the idle thread. -/
def threePriorities (thread : Nat) : Priority :=
  if thread = 1 then ⟨0, by decide⟩ else ⟨4, by decide⟩

/-- The thread that sleeps is woken when all others had their turn. -/
theorem round_robin_three_threads :
    Meets (Watch.step threePriorities 1 id 2)
      (Watch.SelectsNone threePriorities 1 id 2) (Watch.initial threePriorities 1)
      [.addThread 2, .addThread 3, .addThread 4, .schedule, .sleep, .schedule, .wake 4,
        .schedule] := by
  have hresult : (run (Watch.step threePriorities 1 id 2) (Watch.initial threePriorities 1)
      [.addThread 2, .addThread 3, .addThread 4, .schedule, .sleep, .schedule, .wake 4,
        .schedule]).isSome := by
    decide +kernel
  obtain ⟨final, hrun⟩ := Option.isSome_iff_exists.mp hresult
  exact (round_robin_of_wakes_none threePriorities id 2 (by decide) hrun).1 (by decide +kernel)

/-- Thread 4 runs and sleeps, thread 3 runs and wakes it, and thread 4 runs a second time while
thread 2 has waited at the end of the queue all the time. -/
theorem woken_thread_runs_twice : ∃ final,
    run (Watch.step threePriorities 1 id 2) (Watch.initial threePriorities 1)
      [.addThread 2, .addThread 3, .addThread 4, .schedule, .sleep, .wake 4, .schedule] =
        some final ∧
      final.since = [4, 3, 4] ∧
      ¬ Meets (Watch.step threePriorities 1 id 2)
        (Watch.SelectsNone threePriorities 1 id 2) (Watch.initial threePriorities 1)
        [.addThread 2, .addThread 3, .addThread 4, .schedule, .sleep, .wake 4, .schedule] := by
  refine exists_of_any (fun final => final.since = [4, 3, 4]) (by decide +kernel) ?_
  intro final hrun hsince
  exact ⟨hsince, by decide +kernel⟩

end Otrix
