import Otrix.Common.List
import Otrix.Common.Word

/-!
# The scheduler of `kernel/kthread.cpp`

Threads are named by the address of their list node, and a thread has one node
for all queues. `priority` is the constant `priority_` of each thread, in the
range that indexes the queues. Context switches have no effect on the state of
the scheduler beyond the assignment of `current_thread_`.

`none` stands for a step that does not come to an end with a result: the use of
a null thread, or a scan that is still going when the fuel runs out.
-/

namespace Otrix

open Linked

/-- An index of the queues: `0` to `NUM_PRIORITIES - 1`. -/
abbrev Priority := Fin 10

/-- The priorities in the order of the source's loops, from the highest to the lowest. -/
def priorities : List Priority := [9, 8, 7, 6, 5, 4, 3, 2, 1, 0]

/-- `enum kthread_state`. -/
inductive KthreadState where
  | zombie
  | active
  | runnable
  | blocked
  deriving DecidableEq

/-- The deadline `static_cast<uint64_t>(-1)` of a thread that sleeps without a timeout. -/
def infinite : Nat := 2 ^ 64 - 1

/-- The members of `scheduler` and the nodes of the threads. `timer` is the last deadline that was
given to `start_timer`. -/
structure Scheduler where
  links : Links
  state : Nat → KthreadState
  tscDeadline : Nat → Nat
  runnableQueues : Priority → Nat
  blockedQueues : Priority → Nat
  currentThread : Nat
  needResched : Bool
  nearestTscDeadline : Nat
  preemptDisable : Nat
  timer : Option Nat

namespace Scheduler

variable (priority : Nat → Priority)

/-- `add_thread`. A null thread is refused with `E_INVAL`. -/
def addThread (s : Scheduler) (thread : Nat) : Scheduler :=
  if thread = 0 then s
  else
    let prio := priority thread
    let (links, head) := intrusiveListPushBack s.links (s.runnableQueues prio) thread
    { s with
      links := links
      state := Function.update s.state thread .runnable
      runnableQueues := Function.update s.runnableQueues prio head
      needResched := s.needResched ||
        decide (s.currentThread ≠ 0 ∧ priority s.currentThread < prio) }

/-- `remove_thread`. A null thread is refused with `E_INVAL`. -/
def removeThread (s : Scheduler) (thread : Nat) : Scheduler :=
  if thread = 0 then s
  else
    let prio := priority thread
    let (links, head) := intrusiveListDelete s.links (s.runnableQueues prio) thread
    { s with
      links := links
      state := Function.update s.state thread .zombie
      runnableQueues := Function.update s.runnableQueues prio head }

/-- `schedule`: the head of the highest queue that is not empty runs, and its queue moves on. -/
def schedule (s : Scheduler) : Option Scheduler :=
  if 0 < s.preemptDisable then some s
  else do
    let prio ← priorities.find? fun prio => s.runnableQueues prio ≠ 0
    let thread := s.runnableQueues prio
    some { s with
      needResched := false
      currentThread := thread
      state := Function.update s.state thread .active
      runnableQueues := Function.update s.runnableQueues prio (next s.links thread) }

/-- `start_timer`, unless no deadline is left. -/
def startTimer (s : Scheduler) : Scheduler :=
  if s.nearestTscDeadline ≠ infinite then { s with timer := some s.nearestTscDeadline } else s

/-- The nearer of a deadline and the deadline at the head of a blocked queue. -/
def nearest (s : Scheduler) (deadline : Nat) (prio : Priority) : Nat :=
  if s.blockedQueues prio ≠ 0 then min (s.tscDeadline (s.blockedQueues prio)) deadline else deadline

/-- `setup_timer`. -/
def setupTimer (s : Scheduler) : Scheduler :=
  startTimer { s with nearestTscDeadline := priorities.foldl s.nearest infinite }

/-- Put the current thread into the blocked queue of its priority: behind the others in the ring
without a deadline, else by deadline. -/
def block (fuel : Nat) (s : Scheduler) (thread tscDeadline : Nat) : Option Scheduler :=
  let prio := priority thread
  let s := { s with
    state := Function.update s.state thread .blocked
    tscDeadline := Function.update s.tscDeadline thread tscDeadline }
  if tscDeadline = infinite then
    let (links, head) := intrusiveListPushBack s.links (s.blockedQueues prio) thread
    some { s with links := links, blockedQueues := Function.update s.blockedQueues prio head }
  else
    let s := { s with nearestTscDeadline := min s.nearestTscDeadline tscDeadline }
    if s.blockedQueues prio ≠ 0 then do
      let later := fun a b => decide (s.tscDeadline b < s.tscDeadline a)
      let (links, head) ←
        intrusiveListInsertSorted fuel s.links (s.blockedQueues prio) thread later
      some { s with links := links, blockedQueues := Function.update s.blockedQueues prio head }
    else
      let (links, head) := intrusiveListPushBack s.links (s.blockedQueues prio) thread
      some { s with links := links, blockedQueues := Function.update s.blockedQueues prio head }

/-- `sleep_until`, by the current thread. -/
def sleepUntil (fuel : Nat) (s : Scheduler) (tscDeadline : Nat) : Option Scheduler := do
  let thread := s.currentThread
  let s := s.removeThread priority thread
  let s ← s.block priority fuel thread tscDeadline
  s.startTimer.schedule

/-- The deadline that `sleep` computes from the timeout, the time stamp counter and the clock. -/
def sleepDeadline (nsToTsc : Nat → Nat) (blockTimeMs tsc : Nat) : Nat :=
  if blockTimeMs = infinite then infinite
  else u64 (tsc + nsToTsc (u64 (blockTimeMs * 1000 * 1000)))

/-- `sleep`, by the current thread. -/
def sleep (nsToTsc : Nat → Nat) (fuel : Nat) (s : Scheduler) (blockTimeMs tsc : Nat) :
    Option Scheduler :=
  s.sleepUntil priority fuel (sleepDeadline nsToTsc blockTimeMs tsc)

/-- `wake`. A thread that is not blocked is refused with `E_INVAL`. -/
def wake (s : Scheduler) (thread : Nat) : Scheduler :=
  if s.state thread ≠ .blocked then s
  else
    let prio := priority thread
    let (links, head) := intrusiveListDelete s.links (s.blockedQueues prio) thread
    let s := { s with
      links := links, blockedQueues := Function.update s.blockedQueues prio head }
    (s.addThread priority thread).setupTimer

/-- The inner loop of `handle_timer_irq`: wake the head of the queue while its deadline is behind
the time stamp counter. `tsc i` is the reading number `i` of the interrupt, and the result has the
number of readings made so far. -/
def wakeExpired (tsc : Nat → Nat) (prio : Priority) : Nat → Scheduler → Nat →
    Option (Scheduler × Nat)
  | 0, _, _ => none
  | fuel + 1, s, reading =>
    let head := s.blockedQueues prio
    if head = 0 then some (s, reading)
    else if s.tscDeadline head < tsc reading then
      wakeExpired tsc prio fuel (s.wake priority head) (reading + 1)
    else some (s, reading + 1)

/-- One turn of the outer loop of `handle_timer_irq`. -/
def expirePriority (fuel : Nat) (tsc : Nat → Nat) (s : Scheduler) (reading : Nat)
    (prio : Priority) : Option (Scheduler × Nat) := do
  let (s, reading) ← wakeExpired priority tsc prio fuel s reading
  some ({ s with nearestTscDeadline := s.nearest s.nearestTscDeadline prio }, reading)

/-- `handle_timer_irq`. -/
def handleTimerIrq (fuel : Nat) (tsc : Nat → Nat) (s : Scheduler) : Option Scheduler := do
  let s := { s with nearestTscDeadline := infinite }
  let (s, _) ← priorities.foldlM
    (fun (s, reading) prio => expirePriority priority fuel tsc s reading prio) (s, 0)
  let s := s.startTimer
  if s.needResched then s.schedule else some s

/-- A scheduler without threads. The nodes of threads are initialised by the constructor of
`kthread::node_t`. -/
def empty : Scheduler where
  links := ⟨id, id⟩
  state := fun _ => .zombie
  tscDeadline := fun _ => 0
  runnableQueues := fun _ => 0
  blockedQueues := fun _ => 0
  currentThread := 0
  needResched := false
  nearestTscDeadline := infinite
  preemptDisable := 0
  timer := none

/-- The state that the constructor of `scheduler` leaves: only the idle thread, which runs. -/
def initial (idle : Nat) : Scheduler :=
  { empty.addThread priority idle with currentThread := idle }

end Scheduler

/-! ## The scheduler and its callers -/

/-- A scheduler in use, with the threads that were added to it. -/
structure Kernel where
  scheduler : Scheduler
  added : List Nat

/-- The calls that reach the scheduler. `tsc` is what the time stamp counter reads. -/
inductive KernelEvent where
  | addThread (thread : Nat)
  | schedule
  | sleep (blockTimeMs tsc : Nat)
  | sleepUntil (tscDeadline : Nat)
  | wake (thread : Nat)
  | timerIrq (tsc : Nat → Nat)

section

variable (priority : Nat → Priority) (idle : Nat) (nsToTsc : Nat → Nat)

/-- One call, whose loops end within the fuel. A thread is not added twice, and the idle thread does
not sleep. -/
def Kernel.perform (fuel : Nat) (kernel : Kernel) : KernelEvent → Option Kernel
  | .addThread thread =>
    if thread ≠ 0 ∧ thread ∉ kernel.added then
      some ⟨kernel.scheduler.addThread priority thread, thread :: kernel.added⟩
    else none
  | .schedule => do
    let s ← kernel.scheduler.schedule
    some { kernel with scheduler := s }
  | .sleep blockTimeMs tsc =>
    if kernel.scheduler.currentThread ≠ idle then do
      let s ← kernel.scheduler.sleep priority nsToTsc fuel blockTimeMs tsc
      some { kernel with scheduler := s }
    else none
  | .sleepUntil tscDeadline =>
    if kernel.scheduler.currentThread ≠ idle then do
      let s ← kernel.scheduler.sleepUntil priority fuel tscDeadline
      some { kernel with scheduler := s }
    else none
  | .wake thread => some { kernel with scheduler := kernel.scheduler.wake priority thread }
  | .timerIrq tsc => do
    let s ← kernel.scheduler.handleTimerIrq priority fuel tsc
    some { kernel with scheduler := s }

/-- One call, with fuel for a loop over all the threads. -/
def Kernel.step (kernel : Kernel) (event : KernelEvent) : Option Kernel :=
  kernel.perform priority idle nsToTsc (kernel.added.length + 1) event

/-- The scheduler after its constructor. -/
def Kernel.initial : Kernel :=
  ⟨Scheduler.initial priority idle, [idle]⟩

end

end Otrix
