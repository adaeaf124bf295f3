import Otrix.Kernel.Scheduler.Model
import Otrix.Common.Rings
import Mathlib.Data.List.Perm.Subperm

/-!
# The queues of the scheduler as lists

`Filing` relates a scheduler to the twenty lists of its queues: every queue is a
ring, and every member thread is in the list that its state and priority name.
Each function of the scheduler has one lemma that says what it does to these
lists.
-/

namespace Otrix

open Linked Function

/-- The queues of the scheduler. -/
inductive KthreadQueue where
  | runnable (prio : Priority)
  | blocked (prio : Priority)
  deriving DecidableEq

/-- The heads of two families of queues as one family. -/
def headsOf (runnable blocked : Priority → Nat) : KthreadQueue → Nat
  | .runnable prio => runnable prio
  | .blocked prio => blocked prio

theorem headsOf_update_runnable (runnable blocked : Priority → Nat) (prio : Priority) (head : Nat) :
    headsOf (update runnable prio head) blocked =
      update (headsOf runnable blocked) (.runnable prio) head := by
  funext queue
  cases queue with
  | runnable other =>
    by_cases heq : other = prio
    · subst heq
      simp [headsOf]
    · simp [headsOf, heq]
  | blocked other => simp [headsOf]

theorem headsOf_update_blocked (runnable blocked : Priority → Nat) (prio : Priority) (head : Nat) :
    headsOf runnable (update blocked prio head) =
      update (headsOf runnable blocked) (.blocked prio) head := by
  funext queue
  cases queue with
  | runnable other => simp [headsOf]
  | blocked other =>
    by_cases heq : other = prio
    · subst heq
      simp [headsOf]
    · simp [headsOf, heq]

/-- The queue for a thread of this state and priority. -/
def queueFor (state : KthreadState) (prio : Priority) : KthreadQueue :=
  if state = .blocked then .blocked prio else .runnable prio

section

variable (priority : Nat → Priority)

/-- The queue that a thread belongs to. -/
def queueOf (state : Nat → KthreadState) (thread : Nat) : KthreadQueue :=
  queueFor (state thread) (priority thread)

theorem queueOf_update (state : Nat → KthreadState) (thread : Nat) (value : KthreadState) :
    queueOf priority (update state thread value) =
      update (queueOf priority state) thread (queueFor value (priority thread)) := by
  funext other
  by_cases heq : other = thread
  · subst heq
    simp [queueOf]
  · simp [queueOf, heq]

/-- The queues are rings that hold the member threads at their places. -/
structure Filing (members : Nat → Prop) (s : Scheduler) (lists : KthreadQueue → List Nat) :
    Prop where
  rings : Rings s.links (headsOf s.runnableQueues s.blockedQueues) lists
  filed : Filed lists members (queueOf priority s.state)
  nonnull : ¬ members 0

end

variable {priority : Nat → Priority} {members : Nat → Prop} {s : Scheduler}
  {lists : KthreadQueue → List Nat} {thread : Nat}

namespace Filing

theorem congr_members (h : Filing priority members s lists) (others : Nat → Prop)
    (hmembers : ∀ x, others x ↔ members x) : Filing priority others s lists :=
  ⟨h.rings, h.filed.congr hmembers, fun hnull => h.nonnull ((hmembers 0).mp hnull)⟩

theorem apart (h : Filing priority members s lists) (hnew : ¬ members thread) :
    ∀ queue, ∀ x ∈ lists queue, Apart Links thread x := by
  intro queue x hx heq
  subst heq
  exact hnew ((h.filed queue thread).mp hx).1

theorem mem (h : Filing priority members s lists) (hmember : members thread) :
    thread ∈ lists (queueOf priority s.state thread) :=
  (h.filed _ thread).mpr ⟨hmember, rfl⟩

theorem head_eq_zero_iff (h : Filing priority members s lists) (queue : KthreadQueue) :
    headsOf s.runnableQueues s.blockedQueues queue = 0 ↔ lists queue = [] :=
  (h.rings.queue queue).head_eq_null_iff

end Filing

/-- `add_thread` pushes a thread that is in no queue to the runnable queue of its priority. -/
theorem add_thread_filing (h : Filing priority members s lists) (hnew : ¬ members thread)
    (hthread : thread ≠ 0) :
    Filing priority (fun x => x = thread ∨ members x) (s.addThread priority thread)
      (update lists (.runnable (priority thread))
        (thread :: lists (.runnable (priority thread)))) := by
  unfold Scheduler.addThread
  rw [if_neg hthread]
  refine ⟨?_, ?_, ?_⟩
  · have hpushed := h.rings.push_back (.runnable (priority thread)) thread trivial hthread
      (h.apart hnew)
    rw [← headsOf_update_runnable] at hpushed
    exact hpushed
  · have hpushed := h.filed.push (k := .runnable (priority thread)) hnew
    rw [show KthreadQueue.runnable (priority thread) = queueFor .runnable (priority thread) from rfl]
      at hpushed ⊢
    rw [← queueOf_update] at hpushed
    exact hpushed
  · rintro (hnull | hnull)
    · exact hthread hnull.symm
    · exact h.nonnull hnull

/-- `remove_thread` takes a runnable thread out of its queue. -/
theorem remove_thread_filing (h : Filing priority members s lists) (hmember : members thread)
    (hrunnable : s.state thread ≠ .blocked) :
    Filing priority (fun x => x ≠ thread ∧ members x) (s.removeThread priority thread)
      (update lists (.runnable (priority thread))
        ((lists (.runnable (priority thread))).erase thread)) := by
  have hthread : thread ≠ 0 := fun heq => h.nonnull (heq ▸ hmember)
  have hplace : queueOf priority s.state thread = .runnable (priority thread) := if_neg hrunnable
  have hmem := h.mem hmember
  rw [hplace] at hmem
  unfold Scheduler.removeThread
  rw [if_neg hthread]
  refine ⟨?_, ?_, fun hnull => h.nonnull hnull.2⟩
  · have hdeleted := h.rings.delete hmem
    rw [← headsOf_update_runnable] at hdeleted
    exact hdeleted
  · have herased := h.filed.erase (h.rings.queue _).ring.nodup hplace
    rw [queueOf_update]
    intro queue x
    rw [herased queue x]
    by_cases heq : x = thread
    · simp [heq]
    · rw [update_of_ne heq]

/-- At most one thread of the priority is blocked: the head of the queue is null or its own
successor. The sorted insertion into a blocked queue is right under this condition. -/
def Scheduler.AtMostOneBlocked (s : Scheduler) (prio : Priority) : Prop :=
  s.blockedQueues prio = 0 ∨ next s.links (s.blockedQueues prio) = s.blockedQueues prio
  deriving Decidable

/-- The links show whether at most one thread is blocked. -/
theorem Filing.at_most_one_iff (h : Filing priority members s lists) (prio : Priority) :
    s.AtMostOneBlocked prio ↔ (lists (.blocked prio)).length ≤ 1 := by
  have hqueue := h.rings.queue (.blocked prio)
  have hhead := hqueue.head_eq
  have hring := hqueue.ring
  simp only [headsOf] at hhead
  unfold Scheduler.AtMostOneBlocked
  cases hlist : lists (.blocked prio) with
  | nil => simp [hhead, hlist]
  | cons first rest =>
    rw [hlist] at hhead hring
    have hfirst : s.blockedQueues prio = first := hhead
    have hnonnull : first ≠ 0 := hring.nonnull first (by simp)
    rw [hfirst]
    cases rest with
    | nil => simp [hring.link_self.1]
    | cons second rest =>
      have hne : second ≠ first := by
        rintro rfl
        exact (List.nodup_cons.mp hring.nodup).1 List.mem_cons_self
      simp [hring.link_head.1, hnonnull, hne]

/-- The scheduler with a thread in the blocked queue of its priority, given the new links and the
new head of that queue. -/
def Scheduler.withBlocked (priority : Nat → Priority) (s : Scheduler) (thread tscDeadline : Nat)
    (links : Links) (head nearestTscDeadline : Nat) : Scheduler :=
  { s with
    links := links
    state := Function.update s.state thread .blocked
    tscDeadline := Function.update s.tscDeadline thread tscDeadline
    blockedQueues := Function.update s.blockedQueues (priority thread) head
    nearestTscDeadline := nearestTscDeadline }

/-- A blocked queue that got the thread, at whatever place, files it. -/
theorem Filing.of_blocked (h : Filing priority members s lists) (hnew : ¬ members thread)
    (hthread : thread ≠ 0) {links : Links} {head tscDeadline nearest : Nat} {nodes : List Nat}
    (hrings : Rings links
      (update (headsOf s.runnableQueues s.blockedQueues) (.blocked (priority thread)) head)
      (update lists (.blocked (priority thread)) nodes))
    (hnodes : ∀ x, x ∈ nodes ↔ x ∈ thread :: lists (.blocked (priority thread))) :
    Filing priority (fun x => x = thread ∨ members x)
      (s.withBlocked priority thread tscDeadline links head nearest)
      (update lists (.blocked (priority thread)) nodes) := by
  refine ⟨?_, ?_, ?_⟩
  · rw [← headsOf_update_blocked] at hrings
    exact hrings
  · have hpushed := h.filed.push (k := .blocked (priority thread)) hnew
    have hordered := hpushed.reorder (.blocked (priority thread)) nodes (by
      intro x
      rw [update_self]
      exact hnodes x)
    rw [update_idem] at hordered
    show Filed _ _ (queueOf priority (update s.state thread .blocked))
    rw [queueOf_update]
    exact hordered
  · rintro (hnull | hnull)
    · exact hthread hnull.symm
    · exact h.nonnull hnull

/-- The order of a blocked queue after a thread went to sleep in it: without a deadline, or in an
empty queue, the thread comes first, and two threads are ordered by their deadlines. -/
def Enqueued (deadline : Nat → Nat) (thread tscDeadline : Nat) (nodes after : List Nat) : Prop :=
  (tscDeadline = infinite ∨ nodes = []) ∧ after = thread :: nodes ∨
    tscDeadline ≠ infinite ∧ ∃ other, nodes = [other] ∧
      after = if tscDeadline < deadline other then [thread, other] else [other, thread]

/-- A thread that is in no queue is put into the blocked queue of its priority, provided that it
sleeps without a deadline or that at most one other thread is blocked there. -/
theorem block_filing {tscDeadline : Nat} (fuel : Nat) (h : Filing priority members s lists)
    (hnew : ¬ members thread) (hthread : thread ≠ 0)
    (hfew : tscDeadline = infinite ∨ s.AtMostOneBlocked (priority thread)) :
    ∃ links head nearest nodes,
      s.block priority (fuel + 1) thread tscDeadline =
        some (s.withBlocked priority thread tscDeadline links head nearest) ∧
      Filing priority (fun x => x = thread ∨ members x)
        (s.withBlocked priority thread tscDeadline links head nearest)
        (update lists (.blocked (priority thread)) nodes) ∧
      Enqueued s.tscDeadline thread tscDeadline (lists (.blocked (priority thread))) nodes := by
  have hpushed := h.rings.push_back (.blocked (priority thread)) thread trivial hthread
    (h.apart hnew)
  by_cases hinfinite : tscDeadline = infinite
  · refine ⟨_, _, s.nearestTscDeadline, _, ?_, h.of_blocked hnew hthread hpushed
      (fun _ => Iff.rfl), Or.inl ⟨Or.inl hinfinite, rfl⟩⟩
    simp only [Scheduler.block, if_pos hinfinite]
    rfl
  · by_cases hempty : s.blockedQueues (priority thread) = 0
    · have hnil := (h.head_eq_zero_iff (.blocked (priority thread))).mp hempty
      refine ⟨_, _, min s.nearestTscDeadline tscDeadline, _, ?_,
        h.of_blocked hnew hthread hpushed (fun _ => Iff.rfl), Or.inl ⟨Or.inr hnil, rfl⟩⟩
      simp only [Scheduler.block, if_neg hinfinite, hempty, ne_eq, not_true_eq_false, if_false]
      rw [← hempty]
      rfl
    · -- one thread is blocked, and its node is a ring of its own
      have hlength := (h.at_most_one_iff _).mp (hfew.resolve_left hinfinite)
      have hsingle : lists (.blocked (priority thread)) = [s.blockedQueues (priority thread)] := by
        obtain ⟨rest, hlist⟩ := (h.rings.queue (.blocked (priority thread))).exists_cons hempty
        rw [hlist] at hlength ⊢
        have hrest : rest = [] := by simpa using hlength
        rw [hrest]
        rfl
      let later := fun a b =>
        decide (update s.tscDeadline thread tscDeadline b <
          update s.tscDeadline thread tscDeadline a)
      obtain ⟨links, first, hinsert, hrings⟩ := h.rings.insert_sorted_singleton later fuel hsingle
        trivial hthread (h.apart hnew)
      have hne : s.blockedQueues (priority thread) ≠ thread := fun heq =>
        h.apart hnew (.blocked (priority thread)) _ (by rw [hsingle]; exact List.mem_cons_self)
          heq.symm
      refine ⟨links, first, min s.nearestTscDeadline tscDeadline, _, ?_,
        h.of_blocked hnew hthread hrings ?_, Or.inr ⟨hinfinite, _, hsingle, ?_⟩⟩
      · simp only [Scheduler.block, if_neg hinfinite, ne_eq, hempty, not_false_eq_true, if_true]
        rw [hinsert]
        rfl
      · intro x
        rw [hsingle]
        split
        · rfl
        · simp [or_comm]
      · simp only [later, update_self, update_of_ne hne, decide_eq_true_eq]

theorem mem_priorities (prio : Priority) : prio ∈ priorities := by
  revert prio
  decide

variable {prio : Priority}

theorem Filing.runnable_mem (h : Filing priority members s lists)
    (hmem : thread ∈ lists (.runnable prio)) :
    members thread ∧ s.state thread ≠ .blocked ∧ priority thread = prio := by
  obtain ⟨hmember, hplace⟩ := (h.filed _ _).mp hmem
  unfold queueOf queueFor at hplace
  split at hplace
  · cases hplace
  · next hstate => exact ⟨hmember, hstate, KthreadQueue.runnable.inj hplace⟩

theorem Filing.blocked_mem (h : Filing priority members s lists)
    (hmem : thread ∈ lists (.blocked prio)) :
    members thread ∧ s.state thread = .blocked ∧ priority thread = prio := by
  obtain ⟨hmember, hplace⟩ := (h.filed _ _).mp hmem
  unfold queueOf queueFor at hplace
  split at hplace
  · next hstate => exact ⟨hmember, hstate, KthreadQueue.blocked.inj hplace⟩
  · cases hplace

/-- `schedule` picks the head of a runnable queue and moves the queue on, as long as there is a
thread that can run. -/
theorem schedule_filing (h : Filing priority members s lists) (hpreempt : s.preemptDisable = 0)
    {idle : Nat} (hidle : members idle) (hrunnable : s.state idle ≠ .blocked) :
    ∃ prio head rest, lists (.runnable prio) = head :: rest ∧
      s.schedule = some { s with
        needResched := false
        currentThread := head
        state := update s.state head .active
        runnableQueues := update s.runnableQueues prio (next s.links head) } ∧
      Filing priority members
        { s with
          needResched := false
          currentThread := head
          state := update s.state head .active
          runnableQueues := update s.runnableQueues prio (next s.links head) }
        (update lists (.runnable prio) (rest ++ [head])) := by
  have hnonempty : s.runnableQueues (priority idle) ≠ 0 := by
    intro hnull
    have hnil := (h.head_eq_zero_iff (.runnable (priority idle))).mp hnull
    have hmem := h.mem hidle
    rw [queueOf, queueFor, if_neg hrunnable, hnil] at hmem
    cases hmem
  cases hfind : priorities.find? fun prio => s.runnableQueues prio ≠ 0 with
  | none =>
    have hall := List.find?_eq_none.mp hfind (priority idle) (mem_priorities _)
    exact absurd hnonempty (by simpa using hall)
  | some prio =>
    have hprio : s.runnableQueues prio ≠ 0 := by simpa using List.find?_some hfind
    obtain ⟨rest, hlist⟩ : ∃ rest, lists (.runnable prio) = s.runnableQueues prio :: rest :=
      (h.rings.queue (.runnable prio)).exists_cons hprio
    have hhead : s.runnableQueues prio ∈ lists (.runnable prio) :=
      (h.rings.queue (.runnable prio)).head_mem hprio
    obtain ⟨_, hstate, hpriority⟩ := h.runnable_mem hhead
    refine ⟨prio, s.runnableQueues prio, rest, hlist, ?_, ?_, ?_, h.nonnull⟩
    · simp only [Scheduler.schedule, hpreempt, Nat.lt_irrefl, if_false, hfind,
        Option.bind_eq_bind, Option.bind_some]
    · have hadvanced := h.rings.advance hlist
      rw [← headsOf_update_runnable] at hadvanced
      exact hadvanced
    · have hplace : queueOf priority (update s.state (s.runnableQueues prio) .active) =
          queueOf priority s.state := by
        rw [queueOf_update]
        refine update_eq_self_iff.mpr ?_
        rw [queueOf, queueFor, queueFor, if_neg hstate]
        rfl
      show Filed _ _ (queueOf priority (update s.state (s.runnableQueues prio) .active))
      rw [hplace]
      refine h.filed.reorder _ _ ?_
      intro x
      rw [hlist]
      simp [or_comm]

/-! ## Waking -/

theorem start_timer_eq (s : Scheduler) :
    s.startTimer = { s with
      timer := if s.nearestTscDeadline ≠ infinite then some s.nearestTscDeadline else s.timer } := by
  unfold Scheduler.startTimer
  split
  · rfl
  · rfl

/-- What `wake` does to a blocked thread, apart from the links and the heads of its queues. -/
theorem wake_eq (priority : Nat → Priority) (hblocked : s.state thread = .blocked) (hthread : thread ≠ 0) :
    ∃ links runnableQueues blockedQueues needResched nearestTscDeadline timer,
      s.wake priority thread = { s with
        links := links
        runnableQueues := runnableQueues
        blockedQueues := blockedQueues
        needResched := needResched
        nearestTscDeadline := nearestTscDeadline
        timer := timer
        state := update s.state thread .runnable } := by
  simp only [Scheduler.wake, hblocked, ne_eq, not_true_eq_false, if_false, Scheduler.addThread,
    if_neg hthread, Scheduler.setupTimer, start_timer_eq]
  exact ⟨_, _, _, _, _, _, rfl⟩

/-- `wake` moves a blocked thread to the runnable queue of its priority. -/
theorem wake_filing (h : Filing priority members s lists) (hmember : members thread)
    (hblocked : s.state thread = .blocked) :
    Filing priority members (s.wake priority thread)
      (update
        (update lists (.blocked (priority thread))
          ((lists (.blocked (priority thread))).erase thread))
        (.runnable (priority thread)) (thread :: lists (.runnable (priority thread)))) := by
  have hthread : thread ≠ 0 := fun heq => h.nonnull (heq ▸ hmember)
  have hplace : queueOf priority s.state thread = .blocked (priority thread) := if_pos hblocked
  have hmem := h.mem hmember
  rw [hplace] at hmem
  -- the thread leaves the blocked queue, and is then added like a new one
  have hdeleted := h.rings.delete hmem
  rw [← headsOf_update_blocked] at hdeleted
  let unblocked : Scheduler := { s with
    links := (intrusiveListDelete s.links (s.blockedQueues (priority thread)) thread).1
    blockedQueues := update s.blockedQueues (priority thread)
      (intrusiveListDelete s.links (s.blockedQueues (priority thread)) thread).2 }
  have hunblocked : Filing priority (fun x => x ≠ thread ∧ members x) unblocked
      (update lists (.blocked (priority thread))
        ((lists (.blocked (priority thread))).erase thread)) :=
    ⟨hdeleted, h.filed.erase (h.rings.queue _).ring.nodup hplace, fun hnull => h.nonnull hnull.2⟩
  have hadded := add_thread_filing hunblocked (fun hin => hin.1 rfl) hthread
  rw [update_of_ne (by simp)] at hadded
  have hmembers : ∀ x, members x ↔ x = thread ∨ x ≠ thread ∧ members x := by
    intro x
    by_cases heq : x = thread
    · simp [heq, hmember]
    · simp [heq]
  have hsame := hadded.congr_members members hmembers
  have hwake : s.wake priority thread = (unblocked.addThread priority thread).setupTimer := by
    unfold Scheduler.wake
    rw [if_neg (not_not.mpr hblocked)]
  rw [hwake, Scheduler.setupTimer, start_timer_eq]
  exact ⟨hsame.rings, hsame.filed, hsame.nonnull⟩

/-! ## The timer interrupt -/

section

variable {tsc : Nat → Nat} {fuel reading readings : Nat} {after : Scheduler}

variable (invariant : Scheduler → Prop)
  (hwake : ∀ s thread, thread ≠ 0 → invariant s → invariant (s.wake priority thread))
include hwake

/-- What every wake-up keeps, the inner loop of the timer interrupt keeps. -/
theorem wake_expired_invariant {prio : Priority} (h : invariant s)
    (hloop : Scheduler.wakeExpired priority tsc prio fuel s reading = some (after, readings)) :
    invariant after := by
  induction fuel generalizing s reading with
  | zero => cases hloop
  | succ fuel ih =>
    unfold Scheduler.wakeExpired at hloop
    simp only at hloop
    split at hloop
    · cases hloop
      exact h
    · next hhead =>
      split at hloop
      · exact ih (hwake s _ hhead h) hloop
      · cases hloop
        exact h

/-- What every wake-up and every choice of the nearest deadline keep, the outer loop of the timer
interrupt keeps. -/
theorem expire_priorities_invariant
    (hnearest : ∀ s deadline, invariant s → invariant { s with nearestTscDeadline := deadline })
    (prios : List Priority) (h : invariant s)
    (hloop : prios.foldlM (fun (s, reading) prio =>
      Scheduler.expirePriority priority fuel tsc s reading prio) (s, reading) =
        some (after, readings)) : invariant after := by
  induction prios generalizing s reading with
  | nil =>
    cases hloop
    exact h
  | cons prio prios ih =>
    rw [List.foldlM_cons] at hloop
    obtain ⟨⟨turn, count⟩, hturn, hrest⟩ := Option.bind_eq_some_iff.mp hloop
    obtain ⟨⟨woken, count'⟩, hwoken, heq⟩ := Option.bind_eq_some_iff.mp hturn
    cases heq
    exact ih (hnearest woken _ (wake_expired_invariant invariant hwake h hwoken)) hrest

/-- An invariant of `wake`, of the assignments to the timer and of `schedule` is one of
`handle_timer_irq`. -/
theorem handle_timer_irq_invariant
    (hnearest : ∀ s deadline, invariant s → invariant { s with nearestTscDeadline := deadline })
    (htimer : ∀ s, invariant s → invariant s.startTimer)
    (hschedule : ∀ s after, invariant s → s.schedule = some after → invariant after)
    (h : invariant s) (hirq : s.handleTimerIrq priority fuel tsc = some after) :
    invariant after := by
  obtain ⟨⟨woken, readings⟩, hloop, hlast⟩ := Option.bind_eq_some_iff.mp hirq
  have hwoken := htimer woken (expire_priorities_invariant invariant hwake hnearest priorities
    (hnearest s infinite h) hloop)
  simp only at hlast
  split at hlast
  · exact hschedule _ _ hwoken hlast
  · cases hlast
    exact hwoken

end

/-- What the loops of the timer interrupt may change: blocked threads whose deadline is behind some
reading of the time stamp counter become runnable. -/
structure Expiry (tsc : Nat → Nat) (before after : Scheduler) : Prop where
  tscDeadline : after.tscDeadline = before.tscDeadline
  currentThread : after.currentThread = before.currentThread
  preemptDisable : after.preemptDisable = before.preemptDisable
  state : ∀ thread, after.state thread = before.state thread ∨
    before.state thread = .blocked ∧ after.state thread = .runnable ∧
      ∃ reading, before.tscDeadline thread < tsc reading

namespace Expiry

variable {tsc : Nat → Nat} {first second third : Scheduler}

theorem refl (s : Scheduler) : Expiry tsc s s :=
  ⟨rfl, rfl, rfl, fun _ => Or.inl rfl⟩

theorem trans (h : Expiry tsc first second) (h' : Expiry tsc second third) :
    Expiry tsc first third := by
  refine ⟨h'.tscDeadline.trans h.tscDeadline, h'.currentThread.trans h.currentThread,
    h'.preemptDisable.trans h.preemptDisable, ?_⟩
  intro thread
  rcases h.state thread with hsame | ⟨hblocked, hrunnable, hexpired⟩
  · rcases h'.state thread with hsame' | ⟨hblocked', hrunnable', hexpired'⟩
    · exact Or.inl (hsame'.trans hsame)
    · rw [h.tscDeadline] at hexpired'
      exact Or.inr ⟨hsame ▸ hblocked', hrunnable', hexpired'⟩
  · rcases h'.state thread with hsame' | ⟨hblocked', _, _⟩
    · exact Or.inr ⟨hblocked, hsame'.trans hrunnable, hexpired⟩
    · rw [hrunnable] at hblocked'
      cases hblocked'

theorem wake (hblocked : s.state thread = .blocked) (hthread : thread ≠ 0) {reading : Nat}
    (hexpired : s.tscDeadline thread < tsc reading) : Expiry tsc s (s.wake priority thread) := by
  obtain ⟨_, _, _, _, _, _, hwake⟩ := wake_eq priority hblocked hthread
  rw [hwake]
  refine ⟨rfl, rfl, rfl, ?_⟩
  intro other
  by_cases heq : other = thread
  · subst heq
    exact Or.inr ⟨hblocked, update_self .., reading, hexpired⟩
  · exact Or.inl (update_of_ne heq ..)

end Expiry

variable {added : List Nat}

theorem Filing.length_le (h : Filing priority members s lists)
    (hadded : ∀ x, members x → x ∈ added) (queue : KthreadQueue) :
    (lists queue).length ≤ added.length := by
  have hsubset : lists queue ⊆ added := fun x hx => hadded x ((h.filed queue x).mp hx).1
  exact (List.subperm_of_subset (h.rings.queue queue).ring.nodup hsubset).length_le

/-- What an interrupt leaves of a blocked queue: threads at its front whose deadlines are behind
some reading are gone, and the first one that is left has a deadline that a reading is not beyond. -/
def Expires (tsc deadline : Nat → Nat) (nodes rest : List Nat) : Prop :=
  ∃ woken, nodes = woken ++ rest ∧ (∀ x ∈ woken, ∃ reading, deadline x < tsc reading) ∧
    ∀ x ∈ rest.head?, ∃ reading, tsc reading ≤ deadline x

/-- A woken thread comes before the others that are gone. -/
theorem Expires.cons {tsc deadline : Nat → Nat} {nodes rest : List Nat} {reading : Nat}
    (h : Expires tsc deadline nodes rest) (hexpired : deadline thread < tsc reading) :
    Expires tsc deadline (thread :: nodes) rest := by
  obtain ⟨woken, hnodes, hwoken, hrest⟩ := h
  refine ⟨thread :: woken, by rw [hnodes, List.cons_append], ?_, hrest⟩
  intro x hx
  rcases List.mem_cons.mp hx with rfl | hx
  · exact ⟨reading, hexpired⟩
  · exact hwoken x hx

theorem Expires.trans {tsc deadline : Nat → Nat} {nodes middle rest : List Nat}
    (h : Expires tsc deadline nodes middle) (h' : Expires tsc deadline middle rest) :
    Expires tsc deadline nodes rest := by
  obtain ⟨first, hnodes, hfirst, _⟩ := h
  obtain ⟨second, hmiddle, hsecond, hrest⟩ := h'
  refine ⟨first ++ second, by rw [hnodes, hmiddle, List.append_assoc], ?_, hrest⟩
  intro x hx
  exact (List.mem_append.mp hx).elim (hfirst x) (hsecond x)

/-- The inner loop of the timer interrupt ends, and wakes only expired threads. -/
theorem wake_expired_filing (tsc : Nat → Nat) {fuel : Nat} (reading : Nat)
    (h : Filing priority members s lists) (hfuel : (lists (.blocked prio)).length < fuel) :
    ∃ after afterLists readings,
      Scheduler.wakeExpired priority tsc prio fuel s reading = some (after, readings) ∧
      Filing priority members after afterLists ∧ Expiry tsc s after ∧
      Expires tsc s.tscDeadline (lists (.blocked prio)) (afterLists (.blocked prio)) ∧
      ∀ other, other ≠ prio → afterLists (.blocked other) = lists (.blocked other) := by
  induction fuel generalizing s lists reading with
  | zero => omega
  | succ fuel ih =>
    unfold Scheduler.wakeExpired
    by_cases hnull : s.blockedQueues prio = 0
    · have hnil : lists (.blocked prio) = [] := (h.head_eq_zero_iff (.blocked prio)).mp hnull
      refine ⟨s, lists, reading, by simp [hnull], h, Expiry.refl s, ?_, fun _ _ => rfl⟩
      rw [hnil]
      exact ⟨[], rfl, by simp, by simp⟩
    · obtain ⟨rest, hlist⟩ : ∃ rest, lists (.blocked prio) = s.blockedQueues prio :: rest :=
        (h.rings.queue (.blocked prio)).exists_cons hnull
      by_cases hexpired : s.tscDeadline (s.blockedQueues prio) < tsc reading
      · have hhead : s.blockedQueues prio ∈ lists (.blocked prio) :=
          (h.rings.queue (.blocked prio)).head_mem hnull
        obtain ⟨hmember, hblocked, hprio⟩ := h.blocked_mem hhead
        have hwoken := wake_filing h hmember hblocked
        have hlength : rest.length < fuel := by
          rw [hlist, List.length_cons] at hfuel
          omega
        rw [hprio, hlist, List.erase_cons_head] at hwoken
        have hexpiry : Expiry tsc s (s.wake priority (s.blockedQueues prio)) :=
          Expiry.wake hblocked hnull hexpired
        obtain ⟨after, afterLists, readings, hloop, hafter, hexpiry', hexpires, hothers⟩ :=
          ih (reading + 1) hwoken (by simpa using hlength)
        refine ⟨after, afterLists, readings, ?_, hafter, hexpiry.trans hexpiry', ?_, ?_⟩
        · simp only [hnull, if_false, hexpired, if_true, hloop]
        · rw [hexpiry.tscDeadline, update_of_ne (by simp), update_self]
            at hexpires
          rw [hlist]
          exact hexpires.cons hexpired
        · intro other hne
          rw [hothers other hne, update_of_ne (by simp), update_of_ne (by simp [hne])]
      · refine ⟨s, lists, reading + 1, by simp [hnull, hexpired], h, Expiry.refl s, ?_,
          fun _ _ => rfl⟩
        refine ⟨[], rfl, by simp, ?_⟩
        rw [hlist]
        intro x hx
        obtain rfl : s.blockedQueues prio = x := by simpa using hx
        exact ⟨reading, Nat.not_lt.mp hexpired⟩

/-- The outer loop of the timer interrupt ends, and wakes only expired threads. -/
theorem expire_priorities_filing (tsc : Nat → Nat) (reading : Nat)
    (prios : List Priority) (h : Filing priority members s lists)
    (hadded : ∀ x, members x → x ∈ added) :
    ∃ after afterLists readings,
      prios.foldlM (fun (s, reading) prio =>
        Scheduler.expirePriority priority (added.length + 1) tsc s reading prio) (s, reading) =
          some (after, readings) ∧
      Filing priority members after afterLists ∧ Expiry tsc s after ∧
      (∀ prio ∈ prios,
        Expires tsc s.tscDeadline (lists (.blocked prio)) (afterLists (.blocked prio))) ∧
      ∀ prio, prio ∉ prios → afterLists (.blocked prio) = lists (.blocked prio) := by
  induction prios generalizing s lists reading with
  | nil => exact ⟨s, lists, reading, rfl, h, Expiry.refl s, by simp, fun _ _ => rfl⟩
  | cons prio prios ih =>
    obtain ⟨woken, wokenLists, readings, hloop, hwoken, hexpiry, hexpires, hothers⟩ :=
      wake_expired_filing tsc reading h
        (Nat.lt_succ_of_le (h.length_le hadded (.blocked prio)))
    have htimed : Filing priority members
        { woken with nearestTscDeadline := woken.nearest woken.nearestTscDeadline prio }
        wokenLists := ⟨hwoken.rings, hwoken.filed, hwoken.nonnull⟩
    obtain ⟨after, afterLists, last, hrest, hafter, hexpiry', hvisited, hkept⟩ := ih readings htimed
    have hvisited' : ∀ other ∈ prios, Expires tsc s.tscDeadline (wokenLists (.blocked other))
        (afterLists (.blocked other)) := by
      intro other hmem
      have hother := hvisited other hmem
      rwa [show ({ woken with nearestTscDeadline := _ } : Scheduler).tscDeadline = s.tscDeadline from
        hexpiry.tscDeadline] at hother
    refine ⟨after, afterLists, last, ?_, hafter, hexpiry.trans ?_, ?_, ?_⟩
    · simp only [List.foldlM_cons, Scheduler.expirePriority, hloop, Option.bind_eq_bind,
        Option.bind_some]
      exact hrest
    · exact ⟨hexpiry'.tscDeadline, hexpiry'.currentThread, hexpiry'.preemptDisable,
        hexpiry'.state⟩
    · intro other hmem
      by_cases heq : other = prio
      · subst heq
        by_cases hagain : other ∈ prios
        · exact hexpires.trans (hvisited' other hagain)
        · rw [hkept other hagain]
          exact hexpires
      · rw [← hothers other heq]
        exact hvisited' other ((List.mem_cons.mp hmem).resolve_left heq)
    · intro other hnot
      obtain ⟨hne, hnot⟩ := not_or.mp (mt List.mem_cons.mpr hnot)
      rw [hkept other hnot, hothers other hne]

/-! ## The next interrupt -/

/-- The nearest deadline is not behind the one at the head of the blocked queue. -/
def Scheduler.Covers (s : Scheduler) (prio : Priority) : Prop :=
  s.blockedQueues prio ≠ 0 → s.nearestTscDeadline ≤ s.tscDeadline (s.blockedQueues prio)

/-- Looking at one more queue gives a deadline that is no later, and covers the queue. -/
theorem nearest_le (s : Scheduler) (deadline : Nat) (prio : Priority) :
    s.nearest deadline prio ≤ deadline ∧
      (s.blockedQueues prio ≠ 0 → s.nearest deadline prio ≤ s.tscDeadline (s.blockedQueues prio)) := by
  unfold Scheduler.nearest
  by_cases hempty : s.blockedQueues prio ≠ 0
  · rw [if_pos hempty]
    exact ⟨Nat.min_le_right .., fun _ => Nat.min_le_left ..⟩
  · rw [if_neg hempty]
    exact ⟨Nat.le_refl _, fun hne => absurd hne hempty⟩

/-- The loop of `setup_timer` covers all queues that it looks at. -/
theorem nearest_foldl_le (s : Scheduler) (deadline : Nat) (prios : List Priority) :
    prios.foldl s.nearest deadline ≤ deadline ∧ ∀ prio ∈ prios, s.blockedQueues prio ≠ 0 →
      prios.foldl s.nearest deadline ≤ s.tscDeadline (s.blockedQueues prio) := by
  induction prios generalizing deadline with
  | nil => exact ⟨Nat.le_refl _, by simp⟩
  | cons prio prios ih =>
    obtain ⟨hle, hcovers⟩ := ih (s.nearest deadline prio)
    obtain ⟨hfirst, hself⟩ := nearest_le s deadline prio
    refine ⟨Nat.le_trans hle hfirst, fun other hother hne => ?_⟩
    rcases List.mem_cons.mp hother with rfl | hother
    · exact Nat.le_trans hle (hself hne)
    · exact hcovers other hother hne

theorem setup_timer_covers (s : Scheduler) (prio : Priority) : s.setupTimer.Covers prio := by
  rw [Scheduler.setupTimer, start_timer_eq]
  exact (nearest_foldl_le s infinite priorities).2 prio (mem_priorities prio)

theorem Scheduler.Covers.wake (h : s.Covers prio) (priority : Nat → Priority)
    (thread : Nat) : (s.wake priority thread).Covers prio := by
  unfold Scheduler.wake
  split
  · exact h
  · exact setup_timer_covers _ prio

/-- The outer loop of the timer interrupt covers the queues that it visits. -/
theorem expire_priorities_covers {tsc : Nat → Nat} {fuel reading readings : Nat}
    {after : Scheduler} (prios : List Priority) (h : prio ∈ prios ∨ s.Covers prio)
    (hloop : prios.foldlM (fun (s, reading) prio =>
      Scheduler.expirePriority priority fuel tsc s reading prio) (s, reading) =
        some (after, readings)) : after.Covers prio := by
  induction prios generalizing s reading with
  | nil =>
    cases hloop
    exact h.resolve_left (by simp)
  | cons visited prios ih =>
    rw [List.foldlM_cons] at hloop
    obtain ⟨⟨turn, count⟩, hturn, hrest⟩ := Option.bind_eq_some_iff.mp hloop
    obtain ⟨⟨woken, count'⟩, hwoken, heq⟩ := Option.bind_eq_some_iff.mp hturn
    cases heq
    refine ih ?_ hrest
    by_cases hlater : prio ∈ prios
    · exact Or.inl hlater
    · -- the turn covers its own queue, and the nearest deadline gets no later for the others
      right
      obtain ⟨hle, hself⟩ := nearest_le woken woken.nearestTscDeadline visited
      intro hne
      rcases h with hmem | hcovers
      · obtain rfl := (List.mem_cons.mp hmem).resolve_right hlater
        exact hself hne
      · exact Nat.le_trans hle (wake_expired_invariant (Scheduler.Covers · prio)
          (fun _ thread _ hcovers => hcovers.wake priority thread) hcovers hwoken hne)

/-- The loops of the timer interrupt end. They wake the expired threads at the front of each blocked
queue, and the timer is started for the heads that are left. -/
theorem Filing.expire_all (h : Filing priority (· ∈ added) s lists)
    (tsc : Nat → Nat) :
    ∃ woken lists', s.handleTimerIrq priority (added.length + 1) tsc =
        (if woken.needResched then woken.schedule else some woken) ∧
      Filing priority (· ∈ added) woken lists' ∧ Expiry tsc s woken ∧
      (∀ prio, Expires tsc s.tscDeadline (lists (.blocked prio)) (lists' (.blocked prio))) ∧
      ∀ prio, ∀ x ∈ (lists' (.blocked prio)).head?, s.tscDeadline x < infinite →
        ∃ deadline ∈ woken.timer, deadline ≤ s.tscDeadline x := by
  have hstart : Filing priority (· ∈ added) { s with nearestTscDeadline := infinite } lists :=
    ⟨h.rings, h.filed, h.nonnull⟩
  obtain ⟨woken, lists', _, hloop, hfiling, hexpiry, hexpires, _⟩ :=
    expire_priorities_filing tsc 0 priorities hstart (fun _ => id)
  have hcovers : ∀ prio, woken.Covers prio := fun prio =>
    expire_priorities_covers priorities (Or.inl (mem_priorities prio)) hloop
  have htimed : Filing priority (· ∈ added) woken.startTimer lists' := by
    rw [start_timer_eq]
    exact ⟨hfiling.rings, hfiling.filed, hfiling.nonnull⟩
  have hirq : s.handleTimerIrq priority (added.length + 1) tsc =
      if woken.startTimer.needResched then woken.startTimer.schedule
      else some woken.startTimer := by
    simp only [Scheduler.handleTimerIrq, hloop, Option.bind_eq_bind, Option.bind_some]
  refine ⟨woken.startTimer, lists', hirq, htimed, ?_,
    fun prio => hexpires prio (mem_priorities prio), ?_⟩
  · rw [start_timer_eq]
    exact ⟨hexpiry.tscDeadline, hexpiry.currentThread, hexpiry.preemptDisable, hexpiry.state⟩
  · intro prio x hx hfinite
    obtain ⟨rest, hlist⟩ : ∃ rest, lists' (.blocked prio) = x :: rest := by
      cases hlist : lists' (.blocked prio) with
      | nil =>
        rw [hlist] at hx
        cases hx
      | cons first rest =>
        rw [hlist] at hx
        exact ⟨rest, by rw [Option.some.inj hx]⟩
    have hqueue := hfiling.rings.queue (.blocked prio)
    rw [hlist] at hqueue
    have hhead : woken.blockedQueues prio = x := hqueue.head_eq
    have hnonnull : woken.blockedQueues prio ≠ 0 := by
      rw [hhead]
      exact hqueue.ring.nonnull x List.mem_cons_self
    have hle : woken.nearestTscDeadline ≤ s.tscDeadline x := by
      have hcover := hcovers prio hnonnull
      rwa [hhead, hexpiry.tscDeadline] at hcover
    have hnear : woken.nearestTscDeadline ≠ infinite := by omega
    refine ⟨woken.nearestTscDeadline, ?_, hle⟩
    rw [start_timer_eq, if_pos hnear]
    exact rfl

end Otrix
