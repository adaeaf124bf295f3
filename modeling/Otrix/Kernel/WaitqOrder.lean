import Otrix.Kernel.WaitTimeout

/-!
# The order of a wait queue

A wait queue with the order in which threads started to wait and the order in which
`notify_one` released them. `wait` puts the item of the thread in front of the others,
because `intrusive_list_push_back` returns the new node as the head, and `notify_one`
takes the item in front. As long as the releases follow the order of the waits, the
queue holds the threads that are left, the last one first.
-/

namespace Otrix

open Machine

/-- A wait queue, the threads inside `wait`, and what happened: who started to wait and who was
released, in this order. -/
structure WaitqHistory where
  waitq : Waitq
  inWait : Nat → Bool
  started : List Nat
  released : List Nat

/-- The calls: a thread waits without a timeout, or a thread is released. -/
inductive WaitqEvent where
  | wait (thread : Nat)
  | notifyOne
  deriving DecidableEq

namespace WaitqHistory

/-- One call. A thread does not wait twice at a time. -/
def step (history : WaitqHistory) : WaitqEvent → Option WaitqHistory
  | .wait thread =>
    if thread ≠ 0 ∧ history.inWait thread = false then
      some
        { waitq := history.waitq.enqueue thread
          inWait := Function.update history.inWait thread true
          started := history.started ++ [thread]
          released := history.released }
    else none
  | .notifyOne =>
    match history.waitq.dequeue with
    | none => some history
    | some (thread, waitq) =>
      some
        { waitq := waitq
          inWait := Function.update history.inWait thread false
          started := history.started
          released := history.released ++ [thread] }

/-- A new wait queue. -/
def initial : WaitqHistory where
  waitq := Waitq.initial
  inWait := fun _ => false
  started := []
  released := []

/-- The releases follow the order of the waits. -/
def InOrder (history : WaitqHistory) : Prop :=
  history.released <+: history.started
  deriving Decidable

/-- A thread is released only while no other thread waits. -/
def OneWaits (history : WaitqHistory) : WaitqEvent → Prop
  | .wait _ => True
  | .notifyOne => history.started.length ≤ history.released.length + 1

instance (history : WaitqHistory) : (event : WaitqEvent) → Decidable (history.OneWaits event)
  | .wait _ => isTrue trivial
  | .notifyOne => inferInstanceAs (Decidable (_ ≤ _))

end WaitqHistory

open WaitqHistory

/-- The queue holds the given threads, which are those inside `wait`. While the releases are in
order, these are the threads that were not released, the last one first. -/
structure Recorded (history : WaitqHistory) (threads : List Nat) : Prop where
  queue : history.waitq.Holds threads
  mem_iff : ∀ thread, thread ∈ threads ↔ history.inWait thread = true
  length_add : history.released.length + threads.length = history.started.length
  reversed : history.InOrder → history.started = history.released ++ threads.reverse

variable {history next : WaitqHistory} {threads : List Nat} {thread : Nat}

theorem recorded_initial : Recorded initial [] where
  queue := Waitq.holds_initial
  mem_iff := fun _ => iff_of_false List.not_mem_nil nofun
  length_add := rfl
  reversed := fun _ => rfl

/-- A thread that starts to wait changes nothing about the releases so far. -/
theorem in_order_append_iff (hle : history.released.length ≤ history.started.length) :
    history.released <+: history.started ++ [thread] ↔ history.InOrder := by
  constructor
  · intro h
    exact List.prefix_of_prefix_length_le h (List.prefix_append _ _) hle
  · intro h
    exact h.trans (List.prefix_append _ _)

theorem Recorded.wait (h : Recorded history threads)
    (hstep : history.step (.wait thread) = some next) :
    Recorded next (thread :: threads) ∧ (next.InOrder ↔ history.InOrder) := by
  obtain ⟨⟨hthread, hfree⟩, hnext⟩ := Option.ite_none_right_eq_some.mp hstep
  obtain rfl := Option.some.inj hnext
  have hnew : thread ∉ threads := fun hmem => by
    rw [h.mem_iff, hfree] at hmem
    cases hmem
  have hlength := h.length_add
  have horder : history.released <+: history.started ++ [thread] ↔ history.InOrder :=
    in_order_append_iff (by omega)
  refine ⟨⟨h.queue.enqueue hthread hnew, ?_, ?_, fun hnow => ?_⟩, horder⟩
  · refine mem_iff_update (P := (· = true)) h.mem_iff (iff_of_true List.mem_cons_self rfl) ?_
    intro other hother
    rw [List.mem_cons, or_iff_right hother]
  · show history.released.length + (thread :: threads).length = (history.started ++ [thread]).length
    rw [List.length_cons, List.length_append, List.length_singleton]
    omega
  · rw [h.reversed (horder.mp hnow), List.reverse_cons, List.append_assoc]

/-- A list does not start with its last element, unless it has no other. -/
theorem singleton_prefix_reverse_iff {rest : List Nat} (hnew : thread ∉ rest) :
    [thread] <+: (thread :: rest).reverse ↔ rest = [] := by
  constructor
  · intro h
    rw [List.reverse_cons] at h
    cases hreverse : rest.reverse with
    | nil => exact List.reverse_eq_nil_iff.mp hreverse
    | cons first others =>
      rw [hreverse, List.cons_append, List.cons_prefix_cons] at h
      have hmem : first ∈ rest := List.mem_reverse.mp (hreverse ▸ List.mem_cons_self)
      exact absurd (h.1 ▸ hmem) hnew
  · rintro rfl
    exact List.prefix_rfl

theorem notify_one_eq {waitq : Waitq} (hdequeue : history.waitq.dequeue = some (thread, waitq)) :
    history.step .notifyOne = some
      { waitq := waitq
        inWait := Function.update history.inWait thread false
        started := history.started
        released := history.released ++ [thread] } := by
  simp only [WaitqHistory.step, hdequeue]

/-- The thread in front is released. This is in order exactly if it is the only one. -/
theorem Recorded.release {rest : List Nat} (h : Recorded history (thread :: rest))
    (hstep : history.step .notifyOne = some next) :
    Recorded next rest ∧ (next.InOrder ↔ history.InOrder ∧ rest = []) := by
  obtain ⟨waitq, hdequeue, hholds, _⟩ := h.queue.dequeue_cons
  obtain rfl := Option.some.inj ((notify_one_eq hdequeue).symm.trans hstep)
  have hnew : thread ∉ rest := (List.nodup_cons.mp h.queue.nodup).1
  have horder : history.released ++ [thread] <+: history.started ↔
      history.InOrder ∧ rest = [] := by
    constructor
    · intro hnow
      have hbefore : history.InOrder := (List.prefix_append _ _).trans hnow
      rw [h.reversed hbefore, List.prefix_append_right_inj] at hnow
      exact ⟨hbefore, (singleton_prefix_reverse_iff hnew).mp hnow⟩
    · rintro ⟨hbefore, hrest⟩
      rw [h.reversed hbefore, List.prefix_append_right_inj]
      exact (singleton_prefix_reverse_iff hnew).mpr hrest
  refine ⟨⟨hholds, ?_, ?_, fun hnow => ?_⟩, horder⟩
  · refine mem_iff_update (P := (· = true)) h.mem_iff (iff_of_false hnew nofun) ?_
    intro other hother
    rw [List.mem_cons, or_iff_right hother]
  · have hlength := h.length_add
    show (history.released ++ [thread]).length + rest.length = history.started.length
    rw [List.length_cons] at hlength
    rw [List.length_append, List.length_singleton]
    omega
  · obtain ⟨hbefore, rfl⟩ := horder.mp hnow
    show history.started = history.released ++ [thread] ++ []
    rw [List.append_nil]
    exact h.reversed hbefore

/-- One call keeps the record, and keeps the order exactly if it releases no thread while another
one waits. -/
theorem Recorded.step {event : WaitqEvent} (h : Recorded history threads)
    (hstep : history.step event = some next) :
    (∃ threads, Recorded next threads) ∧
      (next.InOrder ↔ history.InOrder ∧ history.OneWaits event) := by
  cases event with
  | wait thread =>
    obtain ⟨hnext, horder⟩ := h.wait hstep
    exact ⟨⟨_, hnext⟩, horder.trans (and_iff_left trivial).symm⟩
  | notifyOne =>
    have hlength := h.length_add
    cases threads with
    | nil =>
      simp only [WaitqHistory.step, h.queue.dequeue_nil] at hstep
      obtain rfl := Option.some.inj hstep
      refine ⟨⟨[], h⟩, (and_iff_left ?_).symm⟩
      show history.started.length ≤ history.released.length + 1
      rw [List.length_nil] at hlength
      omega
    | cons thread rest =>
      obtain ⟨hnext, horder⟩ := h.release hstep
      refine ⟨⟨rest, hnext⟩, horder.trans (and_congr_right fun _ => ?_)⟩
      show rest = [] ↔ history.started.length ≤ history.released.length + 1
      rw [List.length_cons] at hlength
      rw [← List.length_eq_zero_iff]
      omega

/-- Threads are released in the order in which they started to wait exactly when each of them was
the only waiting thread at its release. -/
theorem released_in_order_iff {events : List WaitqEvent} {final : WaitqHistory}
    (hrun : run WaitqHistory.step initial events = some final) :
    final.released <+: final.started ↔
      Meets WaitqHistory.step OneWaits initial events := by
  have hiff := holds_iff_meets (fun history => ∃ threads, Recorded history threads)
    (fun _ _ _ ⟨_, h⟩ hstep => (h.step hstep).1)
    (fun _ _ _ ⟨_, h⟩ hstep => (h.step hstep).2) ⟨[], recorded_initial⟩ hrun
  exact hiff.trans (and_iff_right (List.prefix_refl []))

/-- Two threads that wait one after the other. -/
theorem released_in_order_one_at_a_time : ∃ final,
    run WaitqHistory.step initial [.wait 1, .notifyOne, .wait 2, .notifyOne] = some final ∧
    final.released = [1, 2] ∧ final.released <+: final.started := by
  refine exists_of_any (fun final => final.released = [1, 2]) (by decide) ?_
  intro final hrun hreleased
  exact ⟨hreleased, (released_in_order_iff hrun).mpr (by decide)⟩

/-- Two threads wait, and the second one is released first. -/
theorem last_waiter_is_released_first : ∃ final,
    run WaitqHistory.step initial [.wait 1, .wait 2, .notifyOne] = some final ∧
    final.started = [1, 2] ∧ final.released = [2] ∧ ¬ final.released <+: final.started := by
  exact exists_of_any _ (by decide) fun _ _ htest => htest

/-! ## The queue of a running system -/

/-- The calls of a step of the system with the scheduler, as seen by the queue. -/
def WaitSystem.waitqEvents (sys : WaitSystem) : WaitEvent → List WaitqEvent
  | .wait _ _ => [.wait sys.kernel.scheduler.currentThread]
  | .notifyOne => [.notifyOne]
  | .kernel _ => []
  | .waitReturns => []

/-- A step of the system in which no timeout expires is one of these calls, or none. -/
theorem wait_system_simulates {priority : Nat → Priority} {idle : Nat} {nsToTsc : Nat → Nat}
    {sys after : WaitSystem} {event : WaitEvent} (h : WaitSound priority idle sys threads)
    (hrecorded : Recorded history threads) (hwaitq : history.waitq = sys.waitq)
    (hcondition : NoTimeout priority nsToTsc sys event)
    (hstep : sys.step priority idle nsToTsc event = some after) :
    ∃ next threads', run WaitqHistory.step history (sys.waitqEvents event) = some next ∧
      next.waitq = after.waitq ∧ WaitSound priority idle after threads' ∧
      Recorded next threads' := by
  cases event with
  | kernel event =>
    have hafter := h.kernel_step hcondition hstep
    simp only [WaitSystem.step, Option.ite_none_right_eq_some] at hstep
    obtain ⟨kernel, _, hnext⟩ := Option.bind_eq_some_iff.mp hstep.2
    obtain rfl := Option.some.inj hnext
    exact ⟨history, threads, rfl, hwaitq, hafter, hrecorded⟩
  | wait timeoutMs tsc =>
    have hafter := h.wait_step hcondition hstep
    simp only [WaitSystem.step, Option.ite_none_left_eq_some] at hstep
    obtain ⟨kernel, _, hnext⟩ := Option.bind_eq_some_iff.mp hstep.2
    obtain rfl := Option.some.inj hnext
    -- the thread has an item now, and had none before
    have hthread := hafter.items.ring.nonnull _ List.mem_cons_self
    have hnew := (List.nodup_cons.mp hafter.items.nodup).1
    have hfree : history.inWait sys.kernel.scheduler.currentThread = false :=
      Bool.eq_false_iff.mpr fun hin => hnew ((hrecorded.mem_iff _).mpr hin)
    have hcall : history.step (.wait sys.kernel.scheduler.currentThread) = some _ :=
      if_pos ⟨hthread, hfree⟩
    refine ⟨_, _, run_cons_eq_some.mpr ⟨_, hcall, rfl⟩, ?_, hafter,
      (hrecorded.wait hcall).1⟩
    show history.waitq.enqueue _ = sys.waitq.enqueue _
    rw [hwaitq]
  | waitReturns =>
    have hafter := h.wait_returns_step hstep
    simp only [WaitSystem.step, Option.ite_none_right_eq_some, Option.some.injEq] at hstep
    obtain ⟨_, rfl⟩ := hstep
    exact ⟨history, threads, rfl, hwaitq, hafter, hrecorded⟩
  | notifyOne =>
    cases threads with
    | nil =>
      simp only [WaitSystem.step, h.items.dequeue_nil, Option.some.injEq] at hstep
      have hcall : history.step .notifyOne = some history := by
        simp only [WaitqHistory.step, hrecorded.queue.dequeue_nil]
      subst hstep
      exact ⟨history, [], run_cons_eq_some.mpr ⟨_, hcall, rfl⟩, hwaitq, h, hrecorded⟩
    | cons woken rest =>
      obtain ⟨other, hother, hafter, _⟩ := h.notify_cons
      obtain rfl := Option.some.inj (hother.symm.trans hstep)
      obtain ⟨waitq, hdequeue, _, _⟩ := h.items.dequeue_cons
      simp only [WaitSystem.step, hdequeue] at hstep
      obtain ⟨kernel, _, hnext⟩ := Option.bind_eq_some_iff.mp hstep
      obtain rfl := Option.some.inj hnext
      have hcall := notify_one_eq (hwaitq ▸ hdequeue)
      exact ⟨_, rest, run_cons_eq_some.mpr ⟨_, hcall, rfl⟩, rfl, hafter,
        (hrecorded.release hcall).1⟩

/-- The calls of `wait` and `notify_one` that a run makes. -/
def WaitSystem.waitqCalls (priority : Nat → Priority) (idle : Nat) (nsToTsc : Nat → Nat) :
    WaitSystem → List WaitEvent → List WaitqEvent
  | _, [] => []
  | sys, event :: events => sys.waitqEvents event ++
      ((sys.step priority idle nsToTsc event).map (waitqCalls priority idle nsToTsc · events)).getD []

theorem wait_run_simulates {priority : Nat → Priority} {idle : Nat} {nsToTsc : Nat → Nat}
    {events : List WaitEvent} {sys final : WaitSystem} (h : WaitSound priority idle sys threads)
    (hrecorded : Recorded history threads) (hwaitq : history.waitq = sys.waitq)
    (hmeets : Meets (WaitSystem.step priority idle nsToTsc) (NoTimeout priority nsToTsc)
      sys events)
    (hrun : run (WaitSystem.step priority idle nsToTsc) sys events = some final) :
    ∃ next threads', run WaitqHistory.step history
        (sys.waitqCalls priority idle nsToTsc events) = some next ∧
      next.waitq = final.waitq ∧ WaitSound priority idle final threads' ∧ Recorded next threads' := by
  induction events generalizing sys history threads with
  | nil =>
    obtain rfl := Option.some.inj hrun
    exact ⟨history, threads, rfl, hwaitq, h, hrecorded⟩
  | cons event events ih =>
    obtain ⟨after, hstep, hrest⟩ := run_cons_eq_some.mp hrun
    obtain ⟨middle, left, hcalls, hqueue, hafter, hrecord⟩ :=
      wait_system_simulates h hrecorded hwaitq hmeets.1 hstep
    simp only [WaitSystem.waitqCalls, hstep, Option.map_some, Option.getD_some, run_append,
      hcalls]
    exact ih hafter hrecord hqueue (hmeets.2 after hstep) hrest

end Otrix
