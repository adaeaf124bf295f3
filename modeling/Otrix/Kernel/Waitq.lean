import Otrix.Common.List

/-!
# Wait queues

The list side of `kernel/waitq.cpp`: what `wait` does before it goes to sleep and
what `notify_one` does before it wakes the thread. The item of a waiting thread is
on the stack of `wait`, so a thread has at most one item, and the item is named by
its thread. `Holds` reads the links as the list of waiting threads, from `wq_` on.
-/

namespace Otrix

open Linked Function

/-- `waitq`, with the items of the threads. -/
structure Waitq where
  links : Links
  wq : Nat
  wakeupSuccessful : Nat → Bool

namespace Waitq

/-- A wait queue after its constructor. -/
def initial : Waitq where
  links := ⟨id, id⟩
  wq := 0
  wakeupSuccessful := fun _ => false

/-- `empty`. -/
def isEmpty (q : Waitq) : Bool :=
  q.wq = 0

/-- `wait`, up to the call of `sleep`: the thread puts its item into the queue. -/
def enqueue (q : Waitq) (thread : Nat) : Waitq :=
  let links := intrusiveListInit q.links thread
  let pushed := intrusiveListPushBack links q.wq thread
  { links := pushed.1
    wq := pushed.2
    wakeupSuccessful := Function.update q.wakeupSuccessful thread false }

/-- `notify_one`, up to the call of `wake`: the thread of the first item, which leaves the queue. -/
def dequeue (q : Waitq) : Option (Nat × Waitq) :=
  if q.wq = 0 then none
  else
    let thread := q.wq
    let deleted := intrusiveListDelete q.links q.wq thread
    some (thread,
      { links := deleted.1
        wq := deleted.2
        wakeupSuccessful := Function.update q.wakeupSuccessful thread true })

/-- The items in the queue are those of the given threads, in this order. -/
def Holds (q : Waitq) (threads : List Nat) : Prop :=
  Queue q.links q.wq threads

variable {q : Waitq} {threads : List Nat} {thread : Nat}

theorem holds_initial : initial.Holds [] :=
  Queue.nil

theorem Holds.wq_eq_zero_iff (h : q.Holds threads) : q.wq = 0 ↔ threads = [] :=
  h.head_eq_null_iff

theorem Holds.nodup (h : q.Holds threads) : threads.Nodup :=
  h.ring.nodup

theorem Holds.enqueue (h : q.Holds threads) (hthread : thread ≠ 0) (hnew : thread ∉ threads) :
    (q.enqueue thread).Holds (thread :: threads) := by
  have hapart : ∀ other ∈ threads, Apart Links thread other :=
    fun other hother heq => hnew (heq ▸ hother)
  exact intrusive_list_init_push_back_queue h trivial hthread hapart

theorem Holds.dequeue_nil (h : q.Holds []) : q.dequeue = none := by
  unfold dequeue
  rw [if_pos (h.wq_eq_zero_iff.mpr rfl)]

/-- The first thread is taken from a queue, and told that it was. -/
theorem Holds.dequeue_cons {rest : List Nat} (h : q.Holds (thread :: rest)) :
    ∃ after, q.dequeue = some (thread, after) ∧ after.Holds rest ∧
      after.wakeupSuccessful = update q.wakeupSuccessful thread true := by
  have hhead : q.wq = thread := h.head_eq
  have hne : q.wq ≠ 0 := fun hnull => by simpa using h.wq_eq_zero_iff.mp hnull
  have hsplit : Queue q.links q.wq ([] ++ thread :: rest) := h
  have hdelete := intrusive_list_delete_queue hsplit
  unfold dequeue
  rw [if_neg hne, hhead]
  exact ⟨_, rfl, by rw [← hhead] at hdelete ⊢; exact hdelete, rfl⟩

end Waitq

/-- A list of the threads whose control point has a property, after one thread moved. -/
theorem mem_iff_update {π : Type*} {P : π → Prop} {pc : Nat → π} {point : π} {thread : Nat}
    {members members' : List Nat} (h : ∀ other, other ∈ members ↔ P (pc other))
    (hself : thread ∈ members' ↔ P point)
    (hothers : ∀ other, other ≠ thread → (other ∈ members' ↔ other ∈ members)) (other : Nat) :
    other ∈ members' ↔ P (update pc thread point other) := by
  by_cases heq : other = thread
  · rw [heq, update_self]
    exact hself
  · rw [update_of_ne heq, hothers other heq]
    exact h other

/-- A wait queue and the control points of the threads around it: the queue has the items of these
threads, which are the ones that are `asleep` in `wait`, and a thread that is `awake` in `wait` was
notified. -/
structure Waiters {π : Type*} (q : Waitq) (threads : List Nat) (pc : Nat → π) (asleep awake : π) :
    Prop where
  queue : q.Holds threads
  mem_iff : ∀ thread, thread ∈ threads ↔ pc thread = asleep
  notified : ∀ thread, pc thread = awake → q.wakeupSuccessful thread = true

namespace Waiters

variable {π : Type*} {q : Waitq} {threads rest : List Nat} {thread : Nat} {pc : Nat → π}
  {asleep awake point : π}

theorem ne_zero (h : Waiters q threads pc asleep awake) (hasleep : pc thread = asleep) :
    thread ≠ 0 :=
  h.queue.ring.nonnull thread ((h.mem_iff thread).mpr hasleep)

/-- A thread that does not sleep moves to a point outside `wait`. -/
theorem outside (h : Waiters q threads pc asleep awake) (hnot : pc thread ≠ asleep)
    (hasleep : point ≠ asleep) (hawake : point ≠ awake) :
    Waiters q threads (update pc thread point) asleep awake := by
  refine ⟨h.queue, mem_iff_update (P := (· = asleep)) h.mem_iff ?_ fun _ _ => Iff.rfl,
    fun other hother => ?_⟩
  · rw [h.mem_iff]
    exact iff_of_false hnot hasleep
  · by_cases heq : other = thread
    · rw [heq, update_self] at hother
      exact absurd hother hawake
    · rw [update_of_ne heq] at hother
      exact h.notified other hother

theorem enqueue (h : Waiters q threads pc asleep awake) (hthread : thread ≠ 0)
    (hnot : pc thread ≠ asleep) (hne : asleep ≠ awake) :
    Waiters (q.enqueue thread) (thread :: threads) (update pc thread asleep)
      asleep awake := by
  have hnew : thread ∉ threads := fun hmem => hnot ((h.mem_iff thread).mp hmem)
  refine ⟨h.queue.enqueue hthread hnew, mem_iff_update (P := (· = asleep)) h.mem_iff
    (iff_of_true List.mem_cons_self rfl) fun other hother => ?_, fun other hother => ?_⟩
  · rw [List.mem_cons, or_iff_right hother]
  · by_cases heq : other = thread
    · rw [heq, update_self] at hother
      exact absurd hother hne
    · rw [update_of_ne heq] at hother
      show update q.wakeupSuccessful thread false other = true
      rw [update_of_ne heq]
      exact h.notified other hother

theorem dequeue (h : Waiters q (thread :: rest) pc asleep awake) (hne : asleep ≠ awake) :
    ∃ after, q.dequeue = some (thread, after) ∧
      Waiters after rest (update pc thread awake) asleep awake := by
  obtain ⟨after, hdequeue, hafter, hflags⟩ := h.queue.dequeue_cons
  have hrest : thread ∉ rest := (List.nodup_cons.mp h.queue.nodup).1
  refine ⟨after, hdequeue, hafter, mem_iff_update (P := (· = asleep)) h.mem_iff
    (iff_of_false hrest (Ne.symm hne)) fun other hother => ?_, fun other hother => ?_⟩
  · rw [List.mem_cons, or_iff_right hother]
  · rw [hflags]
    by_cases heq : other = thread
    · rw [heq, update_self]
    · rw [update_of_ne heq] at hother ⊢
      exact h.notified other hother

end Waiters

end Otrix
