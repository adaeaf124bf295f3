import Otrix.Common.HashMap
import Otrix.Common.SortedInsert
import Otrix.Common.Word
import Otrix.Foundation.Run

/-!
# The timer service

`kernel/timer_service.cpp`. Descriptors move between the ring of the pool and the ring of the pending
tasks. The regions under the mutex are single steps. The test of the pool in `add_task` is in front of
the lock, and the service runs the callbacks without it.

`Contract` is what the service promises. It does not survive the first task: the descriptor that comes
out of the pool still has its links into the pool, and `intrusive_list_insert_sorted` leaves them as
they are when no other task is pending. Apart from that, the service does not get past its first
callback. It clears the pointer to the descriptor in place of the descriptor, and the assertion in
`intrusive_list_push_back` then spins on the null pointer, with the mutex locked.
-/

namespace Otrix

open Linked Machine

/-- `TASK_POOL_SIZE`. -/
def taskPoolSize : Nat := 32

/-- `task_desc_t`, without its list node. -/
structure TaskDesc where
  cb : Nat
  ctx : Nat
  deadlineTsc : Nat
  deriving DecidableEq

/-- `timer_service`, with the links and the contents of the descriptors. -/
structure TimerService where
  links : Links
  descs : Nat → TaskDesc
  pendingTasks : Nat
  taskPool : Nat

namespace TimerService

/-- The constructor, on memory that holds anything. -/
def initial (links : Links) (descs : Nat → TaskDesc) : TimerService where
  links := (PooledHashMap.linkPool links taskPoolSize).1
  descs := descs
  pendingTasks := 0
  taskPool := (PooledHashMap.linkPool links taskPoolSize).2

/-- The part of `add_task` under the mutex, for a reading of the time stamp counter. `none` is a scan
of the pending tasks that does not end. -/
def addTask (nsToTsc : Nat → Nat) (service : TimerService) (cb ctx timeoutMs tsc : Nat) :
    Option TimerService := do
  let task := service.taskPool
  let (links, taskPool) := intrusiveListDelete service.links service.taskPool task
  let deadlineTsc := u64 (tsc + nsToTsc (u64 (timeoutMs * 1000 * 1000)))
  let descs := Function.update service.descs task ⟨cb, ctx, deadlineTsc⟩
  let (links, pendingTasks) ← intrusiveListInsertSorted taskPoolSize links service.pendingTasks task
    (keyGreater fun node => (descs node).deadlineTsc)
  some ⟨links, descs, pendingTasks, taskPool⟩

/-- `remove_task`. -/
def removeTask (service : TimerService) (task : Nat) : TimerService :=
  if task = 0 then service
  else
    let (links, pendingTasks) := intrusiveListDelete service.links service.pendingTasks task
    let (links, taskPool) := intrusiveListPushBack links service.taskPool task
    { service with links := links, pendingTasks := pendingTasks, taskPool := taskPool }

/-- The service takes the first task out of the pending ones. -/
def takeTask (service : TimerService) : TimerService :=
  let (links, pendingTasks) :=
    intrusiveListDelete service.links service.pendingTasks service.pendingTasks
  { service with links := links, pendingTasks := pendingTasks }

end TimerService

/-- A call of `add_task` that has found the pool not empty and waits for the mutex. -/
structure AddCall where
  cb : Nat
  ctx : Nat
  timeoutMs : Nat

/-- A task in a descriptor. -/
structure TimerTask where
  node : Nat
  desc : TaskDesc
  deriving DecidableEq

/-- The point that the service thread has reached. -/
inductive ServicePoint where
  /-- In front of the first lock. -/
  | loop
  /-- In `sleep_until`. -/
  | sleeping (deadlineTsc : Nat)
  /-- A task is out of the list, at this reading of the time stamp counter. -/
  | taken (task : TimerTask) (tsc : Nat)
  /-- The callback has returned. -/
  | executed (node : Nat)
  /-- In the assertion of `intrusive_list_push_back`, with the mutex locked. -/
  | stuck
  deriving DecidableEq

/-- A callback that was run, with the reading of the time stamp counter that found the task due, and
the tasks that were pending at that time. -/
structure TimerRun where
  task : TimerTask
  tsc : Nat
  others : List TimerTask

/-- The service with the calls that wait for the mutex and its history: the tasks that were added, those
removed, those pending, the callbacks that were run, and for every time the service went to sleep
the reading of the time stamp counter with the tasks pending then. -/
structure TimerSystem where
  service : TimerService
  waiting : List AddCall
  point : ServicePoint
  added : List TimerTask
  removed : List TimerTask
  pending : List TimerTask
  runs : List TimerRun
  sleeps : List (Nat × List TimerTask)

/-- What can happen: `add_task` is called, a call gets the mutex, `remove_task` is called, and the
service thread looks for a due task, runs its callback, tries to return the descriptor, and is
woken. -/
inductive TimerEvent where
  | call (cb ctx timeoutMs : Nat)
  | enter (index tsc : Nat)
  | remove (node : Nat)
  | poll (tsc : Nat)
  | execute
  | putBack
  | wake

namespace TimerSystem

/-- The system before the first call. -/
def initial (links : Links) (descs : Nat → TaskDesc) : TimerSystem where
  service := TimerService.initial links descs
  waiting := []
  point := .loop
  added := []
  removed := []
  pending := []
  runs := []
  sleeps := []

/-- The task in a descriptor. -/
def task (system : TimerSystem) (node : Nat) : TimerTask :=
  ⟨node, system.service.descs node⟩

/-- The service goes to sleep. -/
def sleep (system : TimerSystem) (deadlineTsc tsc : Nat) : TimerSystem :=
  { system with
    point := .sleeping deadlineTsc
    sleeps := (tsc, system.pending) :: system.sleeps }

/-- The first region of the loop of `run`. -/
def poll (system : TimerSystem) (tsc : Nat) : TimerSystem :=
  let node := system.service.pendingTasks
  if node = 0 then system.sleep (2 ^ 64 - 1) tsc
  else if tsc < (system.service.descs node).deadlineTsc then
    system.sleep (system.service.descs node).deadlineTsc tsc
  else
    { system with
      service := system.service.takeTask
      pending := system.pending.erase (system.task node)
      point := .taken (system.task node) tsc }

/-- One event. -/
def step (nsToTsc : Nat → Nat) (system : TimerSystem) : TimerEvent → Option TimerSystem
  | .call cb ctx timeoutMs =>
    -- the test of `add_task` is not under the mutex
    if cb = 0 ∨ system.service.taskPool = 0 then some system
    else some { system with waiting := ⟨cb, ctx, timeoutMs⟩ :: system.waiting }
  | .enter index tsc => do
    let call ← system.waiting[index]?
    if system.point = .stuck then none
    else
      let node := system.service.taskPool
      let service ← system.service.addTask nsToTsc call.cb call.ctx call.timeoutMs tsc
      some { system with
        service := service
        waiting := system.waiting.eraseIdx index
        added := ⟨node, service.descs node⟩ :: system.added
        pending := ⟨node, service.descs node⟩ :: system.pending }
  | .remove node =>
    if system.point = .stuck then none
    else
      some { system with
        service := system.service.removeTask node
        removed := system.task node :: system.removed
        pending := system.pending.erase (system.task node) }
  | .poll tsc => if system.point = .loop then some (system.poll tsc) else none
  | .execute =>
    match system.point with
    | .taken task tsc =>
      some { system with
        point := .executed task.node
        runs := ⟨task, tsc, system.pending⟩ :: system.runs }
    | _ => none
  | .putBack =>
    match system.point with
    | .executed _ => some { system with point := .stuck }
    | _ => none
  | .wake =>
    match system.point with
    | .sleeping _ => some { system with point := .loop }
    | _ => none

/-- Only pending tasks are removed. -/
def Allowed (system : TimerSystem) : TimerEvent → Prop
  | .remove node => node ∈ system.pending.map TimerTask.node
  | _ => True

/-- The descriptor that the service thread has in its hands. -/
def inHand (system : TimerSystem) : List Nat :=
  match system.point with
  | .taken task _ => [task.node]
  | .executed node => [node]
  | _ => []

/-- The task whose callback is about to be run. -/
def due (system : TimerSystem) : List TimerTask :=
  match system.point with
  | .taken task _ => [task]
  | _ => []

/-- What the service promises. -/
structure Contract (system : TimerSystem) : Prop where
  /-- Every descriptor is in the pool, pending or in the hands of the service. Pool and pending tasks
  are rings, and the pending ones are in the order of their deadlines. -/
  places : ∃ pool pending, Queue system.service.links system.service.taskPool pool ∧
    Queue system.service.links system.service.pendingTasks pending ∧
    (pool ++ pending ++ system.inHand).Perm (List.range' 1 taskPoolSize) ∧
    (pending.map system.task).Perm system.pending ∧
    pending.Pairwise fun first second =>
      (system.service.descs first).deadlineTsc ≤ (system.service.descs second).deadlineTsc
  /-- Every task that was added is pending, was removed, or has its callback run once. -/
  once : system.added.Perm
    (system.pending ++ system.removed ++ system.due ++ system.runs.map TimerRun.task)
  /-- No callback was run before its deadline, or before that of a task with an earlier one. -/
  order : ∀ run ∈ system.runs, run.task.desc.deadlineTsc ≤ run.tsc ∧
    ∀ other ∈ run.others, run.task.desc.deadlineTsc ≤ other.desc.deadlineTsc
  /-- The service sleeps only while no task is due. -/
  prompt : ∀ sleep ∈ system.sleeps, ∀ task ∈ sleep.2, sleep.1 < task.desc.deadlineTsc

/-- No task is added. -/
def NothingAdded (_system : TimerSystem) : TimerEvent → Prop
  | .enter _ _ => False
  | _ => True

/-- The invariant while no task was added. -/
structure Untouched (system : TimerSystem) : Prop where
  pool : Queue system.service.links system.service.taskPool (List.range' 1 taskPoolSize).reverse
  none : system.service.pendingTasks = 0
  added : system.added = []
  removed : system.removed = []
  pending : system.pending = []
  runs : system.runs = []
  sleeps : ∀ sleep ∈ system.sleeps, sleep.2 = []
  idle : system.point = .loop ∨ ∃ deadlineTsc, system.point = .sleeping deadlineTsc

theorem untouched_initial (links : Links) (descs : Nat → TaskDesc) :
    (initial links descs).Untouched := by
  refine ⟨?_, rfl, rfl, rfl, rfl, rfl, nofun, Or.inl rfl⟩
  simp only [initial, TimerService.initial]
  exact PooledHashMap.link_pool_queue links taskPoolSize

section

variable {nsToTsc : Nat → Nat} {system next : TimerSystem} {event : TimerEvent}

/-- With all descriptors in the pool, the promise is kept. -/
theorem Untouched.contract (h : system.Untouched) : system.Contract := by
  have hhand : system.inHand = [] := by
    unfold inHand
    rcases h.idle with hpoint | ⟨_, hpoint⟩ <;> rw [hpoint]
  have hdue : system.due = [] := by
    unfold due
    rcases h.idle with hpoint | ⟨_, hpoint⟩ <;> rw [hpoint]
  refine ⟨⟨_, [], h.pool, ?_, ?_, ?_, List.Pairwise.nil⟩, ?_, ?_, ?_⟩
  · rw [h.none]
    exact Queue.nil
  · rw [hhand, List.append_nil, List.append_nil]
    exact List.reverse_perm _
  · rw [h.pending]
    exact List.Perm.nil
  · rw [h.added, h.pending, h.removed, h.runs, hdue]
    exact List.Perm.nil
  · intro run hrun
    rw [h.runs] at hrun
    exact absurd hrun List.not_mem_nil
  · intro sleep hsleep task htask
    rw [h.sleeps sleep hsleep] at htask
    exact absurd htask List.not_mem_nil

theorem Untouched.poll (h : system.Untouched) (tsc : Nat) : (system.poll tsc).Untouched := by
  rw [TimerSystem.poll, if_pos h.none]
  refine ⟨h.pool, h.none, h.added, h.removed, h.pending, h.runs, fun sleep hsleep => ?_,
    Or.inr ⟨_, rfl⟩⟩
  rcases List.mem_cons.mp hsleep with rfl | hold
  · exact h.pending
  · exact h.sleeps sleep hold

/-- Every event but a task that enters leaves the descriptors in the pool. -/
theorem Untouched.step (h : system.Untouched) (hallowed : system.Allowed event)
    (hnothing : system.NothingAdded event) (hstep : system.step nsToTsc event = some next) :
    next.Untouched := by
  cases event with
  | call cb ctx timeoutMs =>
    simp only [TimerSystem.step] at hstep
    split at hstep
    · exact Option.some.inj hstep ▸ h
    · cases hstep
      exact ⟨h.pool, h.none, h.added, h.removed, h.pending, h.runs, h.sleeps, h.idle⟩
  | enter index tsc => exact absurd hnothing id
  | remove node =>
    have hnone : node ∈ ([] : List TimerTask).map TimerTask.node := h.pending ▸ hallowed
    exact absurd hnone List.not_mem_nil
  | poll tsc =>
    simp only [TimerSystem.step, Option.ite_none_right_eq_some, Option.some.injEq] at hstep
    exact hstep.2 ▸ h.poll tsc
  | execute =>
    rcases h.idle with hpoint | ⟨_, hpoint⟩ <;> simp [TimerSystem.step, hpoint] at hstep
  | putBack =>
    rcases h.idle with hpoint | ⟨_, hpoint⟩ <;> simp [TimerSystem.step, hpoint] at hstep
  | wake =>
    rcases h.idle with hpoint | ⟨_, hpoint⟩
    · simp [TimerSystem.step, hpoint] at hstep
    · simp only [TimerSystem.step, hpoint, Option.some.injEq] at hstep
      exact hstep ▸ ⟨h.pool, h.none, h.added, h.removed, h.pending, h.runs, h.sleeps, Or.inl rfl⟩

end

end TimerSystem

/-- A node that was deleted from the front of a longer list still points into the list, where nothing
points back. -/
theorem prev_next_deleted {links : Links} {head second : Nat} {rest : List Nat}
    (h : Queue links head (head :: second :: rest)) :
    prev (intrusiveListDelete links head head).1 (next (intrusiveListDelete links head head).1 head) ≠
      head := by
  have hnull : head ≠ 0 := h.ring.nonnull head List.mem_cons_self
  have hne : head ≠ next links head := by
    intro heq
    exact absurd (h.ring.rest_eq_nil heq.symm) (List.cons_ne_nil _ _)
  have hprev : prev links head ≠ head := by
    intro heq
    have hmem := h.ring.prev_mem_rest (List.cons_ne_nil _ _)
    rw [heq] at hmem
    exact (List.nodup_cons.mp h.ring.nodup).1 hmem
  have hdelete : (intrusiveListDelete links head head).1 =
      ⟨Function.update links.next (links.prev head) (links.next head),
        Function.update links.prev (links.next head) (links.prev head)⟩ := by
    rw [intrusiveListDelete, if_pos rfl, if_neg hne]
    exact intrusive_list_unlink_node_links links hnull
  rw [hdelete]
  show Function.update links.prev (links.next head) (links.prev head)
    (Function.update links.next (links.prev head) (links.next head) head) ≠ head
  have hstale : Function.update links.next (links.prev head) (links.next head) head =
      links.next head := Function.update_of_ne (Ne.symm hprev) _ _
  rw [hstale, Function.update_self]
  exact hprev

namespace TimerSystem

variable {nsToTsc : Nat → Nat} {system next : TimerSystem} {event : TimerEvent}

/-- The first task that enters breaks the promise. -/
theorem Untouched.not_contract (h : system.Untouched) {index tsc : Nat}
    (hstep : system.step nsToTsc (.enter index tsc) = some next) : ¬ next.Contract := by
  obtain ⟨call, _, hrest⟩ := Option.bind_eq_some_iff.mp hstep
  split at hrest
  · cases hrest
  · obtain ⟨service, hadd, hnext⟩ := Option.bind_eq_some_iff.mp hrest
    cases hnext
    -- the pool has its thirty-two descriptors, and no task is pending
    have hpool := h.pool
    rw [show (List.range' 1 taskPoolSize).reverse = 32 :: 31 :: (List.range' 1 30).reverse from rfl]
      at hpool
    have hhead : system.service.taskPool = 32 := hpool.head_eq
    have hservice : service.pendingTasks = 32 ∧
        service.links = (intrusiveListDelete system.service.links 32 32).1 := by
      simp only [TimerService.addTask, h.none, intrusiveListInsertSorted, hhead] at hadd
      cases hadd
      exact ⟨rfl, rfl⟩
    rintro ⟨⟨pool, pending, _, hpending, _⟩, _⟩
    rw [show _ = (32 : Nat) from hservice.1] at hpending
    obtain ⟨rest, rfl⟩ := hpending.exists_cons (by decide)
    rw [hhead] at hpool
    refine prev_next_deleted hpool ?_
    rw [← hservice.2]
    exact (hpending.ring.prev_next List.mem_cons_self).2

/-- The service thread does not come back from the callback that it has run: it stays behind the
callback, or it is stuck. -/
theorem not_back_from_callback {node : Nat} {events : List TimerEvent}
    (hpoint : system.point = .executed node)
    (hrun : run (step nsToTsc) system events = some next) :
    next.point = .executed node ∨ next.point = .stuck := by
  refine run_invariant
    (fun system : TimerSystem => system.point = .executed node ∨ system.point = .stuck) ?_
    (Or.inl hpoint) hrun
  intro system event next hbehind hstep
  cases event with
  | call cb ctx timeoutMs =>
    simp only [step] at hstep
    split at hstep
    · exact Option.some.inj hstep ▸ hbehind
    · exact Option.some.inj hstep ▸ hbehind
  | enter index tsc =>
    obtain ⟨call, _, hrest⟩ := Option.bind_eq_some_iff.mp hstep
    split at hrest
    · cases hrest
    · obtain ⟨service, _, hnext⟩ := Option.bind_eq_some_iff.mp hrest
      exact Option.some.inj hnext ▸ hbehind
  | remove task =>
    simp only [step] at hstep
    split at hstep
    · cases hstep
    · exact Option.some.inj hstep ▸ hbehind
  | putBack =>
    rcases hbehind with hpoint | hpoint
    · simp only [step, hpoint, Option.some.injEq] at hstep
      exact Or.inr (hstep ▸ rfl)
    · simp [step, hpoint] at hstep
  | _ => rcases hbehind with hpoint | hpoint <;> simp [step, hpoint] at hstep

/-- The service keeps its promise in every state exactly when no task is added. Whenever it has run a
callback, it does not get back to its loop. -/
theorem timer_contract_iff_nothing_added (nsToTsc : Nat → Nat) (links : Links)
    (descs : Nat → TaskDesc) {events : List TimerEvent} {final : TimerSystem}
    (hallowed : Meets (step nsToTsc) Allowed (initial links descs) events)
    (hrun : run (step nsToTsc) (initial links descs) events = some final) :
    (Always (step nsToTsc) Contract (initial links descs) events ↔
      Meets (step nsToTsc) NothingAdded (initial links descs) events) ∧
    ∀ node later last, final.point = .executed node →
      run (step nsToTsc) final later = some last →
      last.point = .executed node ∨ last.point = .stuck := by
  refine ⟨always_iff_meets_of_allowed Untouched (fun _ h => h.contract)
    (fun _ _ _ h hallowed hnothing hstep => h.step hallowed hnothing hstep) ?_
    (untouched_initial links descs) hallowed hrun,
    fun node later last hpoint hlater => not_back_from_callback hpoint hlater⟩
  intro system event next h _ hadded hstep
  cases event with
  | enter index tsc => exact h.not_contract hstep
  | _ => exact absurd trivial hadded

/-- Memory for the service. -/
def exampleTimers : TimerSystem :=
  initial ⟨fun _ => 0, fun _ => 0⟩ fun _ => ⟨0, 0, 0⟩

/-- A call without a callback, and the service that goes to sleep and is woken. -/
theorem timer_contract_without_callback :
    Always (step id) Contract exampleTimers [.call 0 0 10, .poll 5, .wake] := by
  obtain ⟨final, hrun⟩ : ∃ final, run (step id) exampleTimers
      [.call 0 0 10, .poll 5, .wake] = some final := ⟨_, rfl⟩
  refine ((timer_contract_iff_nothing_added id _ _ ?_ hrun).1).mpr ?_
  · exact ⟨trivial, fun _ _ => ⟨trivial, fun _ _ => ⟨trivial, fun _ _ => trivial⟩⟩⟩
  · exact ⟨trivial, fun _ _ => ⟨trivial, fun _ _ => ⟨trivial, fun _ _ => trivial⟩⟩⟩

/-- One task is added. It is pending, with a link into the pool, where the link back leads elsewhere.
When the task is taken, the next pending task is the first descriptor of the pool. The service is
stuck behind the callback. -/
theorem first_task_breaks_contract :
    (run (step id) exampleTimers [.call 1 0 0, .enter 0 5]).map (fun system =>
        (system.service.pendingTasks, system.service.taskPool, system.service.links.next 32,
          system.service.links.prev 31)) = some (32, 31, 31, 1) ∧
    (run (step id) exampleTimers [.call 1 0 0, .enter 0 5, .poll 9, .execute, .putBack]).map
        (fun system => (system.service.pendingTasks, system.service.taskPool, system.point)) =
      some (31, 31, .stuck) := by
  decide +kernel

end TimerSystem

end Otrix
