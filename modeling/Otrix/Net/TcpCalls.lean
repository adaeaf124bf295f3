import Otrix.Kernel.MutexUse
import Otrix.Net.TcpSend

/-!
# The mutexes of `recv` and `send`

Any number of threads call `recv` and `send` of one connection. `recv` locks `recv_mutex_` and `send`
locks `send_mutex_`, and both ignore the result of `lock()`. Every way out of the loops leads to the
`unlock()` at the end of the function. The test of the state in `recv` does not: it returns with
`recv_mutex_` locked, and every later `recv` of every thread stays in `lock()`.
-/

namespace Otrix.Net

open Function Machine

/-- Where a thread is in `recv` and `send`. -/
inductive CallPoint where
  | outside
  /-- In `recv_mutex_.lock()`. -/
  | recvLock (dataSize : Nat)
  /-- In `recv`, before the test of the state. -/
  | recvStart (dataSize : Nat)
  /-- In the loop of `recv`, or behind it. -/
  | recvLoop
  /-- In `recv_mutex_.unlock()`. -/
  | recvUnlock
  /-- In `send_mutex_.lock()`. -/
  | sendLock (data : List UInt8)
  /-- In `send`, before the loop. -/
  | sendStart (data : List UInt8)
  /-- In the loop of `send`, or behind it. -/
  | sendLoop
  /-- In `send_mutex_.unlock()`. -/
  | sendUnlock
  deriving DecidableEq

/-- A connection with its two mutexes and the threads that use it. -/
structure SocketCalls where
  sending : Sending
  recvMutex : MutexSystem
  sendMutex : MutexSystem
  point : Nat → CallPoint

/-- The steps of `lock()` behind its check. -/
inductive LockStep where
  | wait
  | resume
  | finish
  deriving DecidableEq

/-- The step for a thread. -/
def LockStep.event (thread : Nat) : LockStep → MutexEvent
  | .wait => .wait thread
  | .resume => .resume thread
  | .finish => .finish thread

/-- What can happen: a packet arrives, a thread calls `recv` or `send`, goes on in `lock()`, starts
with what the function does under the mutex, goes on in the loop, or unlocks. -/
inductive CallEvent where
  | packet (copy : Nat) (data : Segment) (ackNumber : UInt32)
  | recv (thread dataSize : Nat)
  | send (thread : Nat) (data : List UInt8)
  | lock (thread : Nat) (step : LockStep)
  | start (thread : Nat)
  | advance (thread : Nat) (result : Kerror)
  | unlock (thread : Nat)
  | unlockReturn (thread : Nat)

namespace SocketCalls

/-- The state of the connection. -/
def state (calls : SocketCalls) : TcpState :=
  calls.sending.stream.socket.state

/-- A thread moves on. -/
def goto (calls : SocketCalls) (thread : Nat) (point : CallPoint) : SocketCalls :=
  { calls with point := Function.update calls.point thread point }

/-- A step of `recv_mutex_.lock()`. -/
def recvLocks (calls : SocketCalls) (thread dataSize : Nat) (event : MutexEvent) :
    Option SocketCalls := do
  let mutex ← calls.recvMutex.step event
  let point := if mutex.pc thread = .idle then .recvStart dataSize else .recvLock dataSize
  some ({ calls with recvMutex := mutex }.goto thread point)

/-- A step of `send_mutex_.lock()`. -/
def sendLocks (calls : SocketCalls) (thread : Nat) (data : List UInt8) (event : MutexEvent) :
    Option SocketCalls := do
  let mutex ← calls.sendMutex.step event
  let point := if mutex.pc thread = .idle then .sendStart data else .sendLock data
  some ({ calls with sendMutex := mutex }.goto thread point)

/-- `recv` tests the state. A call that is refused returns 0. -/
def startRecv (calls : SocketCalls) (thread dataSize : Nat) : SocketCalls :=
  if calls.state.Receives then
    { calls with sending.stream.socket.reader := .loop dataSize [] }.goto thread .recvLoop
  else
    { calls with sending.stream.returned := calls.sending.stream.returned ++ [[]] }.goto thread
      .outside

/-- One event. -/
def step (calls : SocketCalls) : CallEvent → Option SocketCalls
  | .packet copy data ackNumber => do
    let sending ← calls.sending.step (.packet copy data ackNumber)
    some { calls with sending := sending }
  | .recv thread dataSize =>
    if calls.point thread = .outside ∧ dataSize < 2 ^ 64 then
      calls.recvLocks thread dataSize (.lock thread)
    else none
  | .send thread data =>
    if calls.point thread = .outside ∧ data.length < 2 ^ 64 then
      calls.sendLocks thread data (.lock thread)
    else none
  | .lock thread step =>
    match calls.point thread with
    | .recvLock dataSize => calls.recvLocks thread dataSize (step.event thread)
    | .sendLock data => calls.sendLocks thread data (step.event thread)
    | _ => none
  | .start thread =>
    match calls.point thread with
    | .recvStart dataSize => some (calls.startRecv thread dataSize)
    | .sendStart data =>
      some ({ calls with sending.sender := .loop data 0 }.goto thread .sendLoop)
    | _ => none
  | .advance thread result =>
    match calls.point thread with
    | .recvLoop => do
      let sending ← calls.sending.step .read
      some { calls with sending := sending }
    | .sendLoop => do
      let sending ← calls.sending.step (.advance result)
      some { calls with sending := sending }
    | _ => none
  | .unlock thread =>
    match calls.point thread with
    | .recvLoop =>
      if calls.sending.stream.socket.reader = .idle then do
        let mutex ← calls.recvMutex.step (.unlock thread)
        let point := if mutex.pc thread = .idle then .outside else .recvUnlock
        some ({ calls with recvMutex := mutex }.goto thread point)
      else none
    | .sendLoop =>
      if calls.sending.sender = .idle then do
        let mutex ← calls.sendMutex.step (.unlock thread)
        let point := if mutex.pc thread = .idle then .outside else .sendUnlock
        some ({ calls with sendMutex := mutex }.goto thread point)
      else none
    | _ => none
  | .unlockReturn thread =>
    match calls.point thread with
    | .recvUnlock => do
      let mutex ← calls.recvMutex.step (.unlockReturn thread)
      some ({ calls with recvMutex := mutex }.goto thread .outside)
    | .sendUnlock => do
      let mutex ← calls.sendMutex.step (.unlockReturn thread)
      some ({ calls with sendMutex := mutex }.goto thread .outside)
    | _ => none

/-- A connection that no thread uses yet. -/
def initial (sending : Sending) : SocketCalls where
  sending := sending
  recvMutex := MutexSystem.initial
  sendMutex := MutexSystem.initial
  point := fun _ => .outside

/-- A thread that is in neither function holds neither mutex. -/
def Released (calls : SocketCalls) : Prop :=
  ∀ thread, calls.point thread = .outside →
    calls.recvMutex.holds thread = false ∧ calls.sendMutex.holds thread = false

/-- No `recv` is refused. -/
def Admitted (calls : SocketCalls) : CallEvent → Prop
  | .start thread =>
    match calls.point thread with
    | .recvStart _ => calls.state.Receives
    | _ => True
  | _ => True

instance (calls : SocketCalls) (event : CallEvent) : Decidable (calls.Admitted event) := by
  unfold Admitted
  split
  · split <;> infer_instance
  · infer_instance

end SocketCalls

/-! ## The two mutexes -/

/-- Where a thread is with respect to `recv_mutex_`. -/
def CallPoint.recvUse : CallPoint → MutexUse
  | .recvLock _ => .locking
  | .recvStart _ => .inside
  | .recvLoop => .inside
  | .recvUnlock => .unlocking
  | _ => .outside

/-- Where a thread is with respect to `send_mutex_`. -/
def CallPoint.sendUse : CallPoint → MutexUse
  | .sendLock _ => .locking
  | .sendStart _ => .inside
  | .sendLoop => .inside
  | .sendUnlock => .unlocking
  | _ => .outside

namespace SocketCalls

/-- The places of the threads with respect to `recv_mutex_`. -/
def recvUses (calls : SocketCalls) (thread : Nat) : MutexUse :=
  (calls.point thread).recvUse

/-- The places of the threads with respect to `send_mutex_`. -/
def sendUses (calls : SocketCalls) (thread : Nat) : MutexUse :=
  (calls.point thread).sendUse

theorem goto_recv_uses (calls : SocketCalls) (thread : Nat) (point : CallPoint) :
    (calls.goto thread point).recvUses = update calls.recvUses thread point.recvUse :=
  funext fun other => apply_update (fun _ => CallPoint.recvUse) calls.point thread point other

theorem goto_send_uses (calls : SocketCalls) (thread : Nat) (point : CallPoint) :
    (calls.goto thread point).sendUses = update calls.sendUses thread point.sendUse :=
  funext fun other => apply_update (fun _ => CallPoint.sendUse) calls.point thread point other

end SocketCalls

/-- What an event does to the two mutexes and the places of the threads. -/
inductive CallStep (calls after : SocketCalls) : CallEvent → Prop
  /-- Only the connection changes, or a thread moves on under its mutex. -/
  | same {event : CallEvent} (hadmitted : calls.Admitted event)
      (hrecv : after.recvMutex = calls.recvMutex) (hsend : after.sendMutex = calls.sendMutex)
      (hrecvUses : after.recvUses = calls.recvUses) (hsendUses : after.sendUses = calls.sendUses) :
      CallStep calls after event
  | recv {event : CallEvent} (thread : Nat) (use : MutexUse) (mutexEvent : MutexEvent)
      (hadmitted : calls.Admitted event)
      (hstep : calls.recvMutex.step mutexEvent = some after.recvMutex)
      (hmove : UseStep after.recvMutex thread mutexEvent (calls.recvUses thread) use)
      (hrecvUses : after.recvUses = Function.update calls.recvUses thread use)
      (hsend : after.sendMutex = calls.sendMutex) (hsendUses : after.sendUses = calls.sendUses) :
      CallStep calls after event
  | send {event : CallEvent} (thread : Nat) (use : MutexUse) (mutexEvent : MutexEvent)
      (hadmitted : calls.Admitted event)
      (hstep : calls.sendMutex.step mutexEvent = some after.sendMutex)
      (hmove : UseStep after.sendMutex thread mutexEvent (calls.sendUses thread) use)
      (hsendUses : after.sendUses = Function.update calls.sendUses thread use)
      (hrecv : after.recvMutex = calls.recvMutex) (hrecvUses : after.recvUses = calls.recvUses) :
      CallStep calls after event
  /-- The test of the state refuses a `recv`. -/
  | refused (thread : Nat) (hrefused : ¬ calls.Admitted (.start thread))
      (hinside : calls.recvUses thread = .inside) (hreturned : after.point thread = .outside)
      (hrecv : after.recvMutex = calls.recvMutex) (hsend : after.sendMutex = calls.sendMutex)
      (hrecvUses : after.recvUses = Function.update calls.recvUses thread .outside)
      (hsendUses : after.sendUses = calls.sendUses) :
      CallStep calls after (.start thread)

open SocketCalls

section Steps

variable {calls after : SocketCalls} {event : CallEvent} {mutexEvent : MutexEvent} {thread : Nat}

theorem recv_mutex_step {mutex : MutexSystem} {point : CallPoint} (hadmitted : calls.Admitted event)
    (hmutex : calls.recvMutex.step mutexEvent = some mutex)
    (hmove : UseStep mutex thread mutexEvent (calls.point thread).recvUse point.recvUse)
    (hsend : (calls.point thread).sendUse = point.sendUse) :
    CallStep calls ({ calls with recvMutex := mutex }.goto thread point) event := by
  refine .recv thread point.recvUse mutexEvent hadmitted hmutex hmove (goto_recv_uses ..) rfl ?_
  rw [goto_send_uses, ← hsend]
  exact update_eq_self thread calls.sendUses

theorem send_mutex_step {mutex : MutexSystem} {point : CallPoint} (hadmitted : calls.Admitted event)
    (hmutex : calls.sendMutex.step mutexEvent = some mutex)
    (hmove : UseStep mutex thread mutexEvent (calls.point thread).sendUse point.sendUse)
    (hrecv : (calls.point thread).recvUse = point.recvUse) :
    CallStep calls ({ calls with sendMutex := mutex }.goto thread point) event := by
  refine .send thread point.sendUse mutexEvent hadmitted hmutex hmove (goto_send_uses ..) rfl ?_
  rw [goto_recv_uses, ← hrecv]
  exact update_eq_self thread calls.recvUses

theorem recv_locks_step {dataSize : Nat} (hadmitted : calls.Admitted event)
    (hsend : (calls.point thread).sendUse = .outside)
    (hmove : ∀ mutex : MutexSystem, UseStep mutex thread mutexEvent (calls.point thread).recvUse
      (mutex.locked thread))
    (hstep : calls.recvLocks thread dataSize mutexEvent = some after) :
    CallStep calls after event := by
  obtain ⟨mutex, hmutex, hafter⟩ := Option.bind_eq_some_iff.mp hstep
  obtain rfl := Option.some.inj hafter
  refine recv_mutex_step hadmitted hmutex ?_ ?_
  · rw [apply_ite CallPoint.recvUse]
    exact hmove mutex
  · rw [apply_ite CallPoint.sendUse, hsend]
    exact (ite_self _).symm

theorem send_locks_step {data : List UInt8} (hadmitted : calls.Admitted event)
    (hrecv : (calls.point thread).recvUse = .outside)
    (hmove : ∀ mutex : MutexSystem, UseStep mutex thread mutexEvent (calls.point thread).sendUse
      (mutex.locked thread))
    (hstep : calls.sendLocks thread data mutexEvent = some after) :
    CallStep calls after event := by
  obtain ⟨mutex, hmutex, hafter⟩ := Option.bind_eq_some_iff.mp hstep
  obtain rfl := Option.some.inj hafter
  refine send_mutex_step hadmitted hmutex ?_ ?_
  · rw [apply_ite CallPoint.sendUse]
    exact hmove mutex
  · rw [apply_ite CallPoint.recvUse, hrecv]
    exact (ite_self _).symm

theorem lock_step_use (mutex : MutexSystem) (thread : Nat) (step : LockStep) :
    UseStep mutex thread (step.event thread) .locking (mutex.locked thread) := by
  cases step with
  | wait => exact .wait
  | resume => exact .resume
  | finish => exact .finish

theorem same_step (hadmitted : calls.Admitted event) {sending : Sending} {point : CallPoint}
    (hrecv : (calls.point thread).recvUse = point.recvUse)
    (hsend : (calls.point thread).sendUse = point.sendUse) :
    CallStep calls ({ calls with sending := sending }.goto thread point) event := by
  refine .same hadmitted rfl rfl ?_ ?_
  · rw [goto_recv_uses, ← hrecv]
    exact update_eq_self thread calls.recvUses
  · rw [goto_send_uses, ← hsend]
    exact update_eq_self thread calls.sendUses

theorem start_recv_step {dataSize : Nat} (hpoint : calls.point thread = .recvStart dataSize) :
    CallStep calls (calls.startRecv thread dataSize) (.start thread) := by
  unfold SocketCalls.startRecv
  split
  next hreceives =>
    refine same_step ?_ ?_ ?_
    · simp only [SocketCalls.Admitted, hpoint]
      exact hreceives
    · rw [hpoint]
      rfl
    · rw [hpoint]
      rfl
  next hreceives =>
    refine .refused thread ?_ ?_ (update_self ..) rfl rfl (goto_recv_uses ..) ?_
    · simp only [SocketCalls.Admitted, hpoint]
      exact hreceives
    · show (calls.point thread).recvUse = .inside
      rw [hpoint]
      rfl
    · rw [goto_send_uses]
      have hsend : calls.sendUses thread = CallPoint.outside.sendUse := by
        show (calls.point thread).sendUse = _
        rw [hpoint]
        rfl
      rw [← hsend]
      exact update_eq_self thread calls.sendUses

theorem lock_call_step {step : LockStep} (hstep : calls.step (.lock thread step) = some after) :
    CallStep calls after (.lock thread step) := by
  cases hpoint : calls.point thread with
  | recvLock dataSize =>
    simp only [SocketCalls.step, hpoint] at hstep
    refine recv_locks_step trivial ?_ (fun mutex => ?_) hstep
    · rw [hpoint]
      rfl
    · rw [hpoint]
      exact lock_step_use mutex thread step
  | sendLock data =>
    simp only [SocketCalls.step, hpoint] at hstep
    refine send_locks_step trivial ?_ (fun mutex => ?_) hstep
    · rw [hpoint]
      rfl
    · rw [hpoint]
      exact lock_step_use mutex thread step
  | _ => simp [SocketCalls.step, hpoint] at hstep

/-- A thread has its mutex and makes the first step under it. -/
theorem start_call_step (hstep : calls.step (.start thread) = some after) :
    CallStep calls after (.start thread) := by
  cases hpoint : calls.point thread with
  | recvStart dataSize =>
    simp only [SocketCalls.step, hpoint, Option.some.injEq] at hstep
    exact hstep ▸ start_recv_step hpoint
  | sendStart data =>
    simp only [SocketCalls.step, hpoint, Option.some.injEq] at hstep
    subst hstep
    refine same_step ?_ ?_ ?_
    · simp [SocketCalls.Admitted, hpoint]
    · rw [hpoint]
      rfl
    · rw [hpoint]
      rfl
  | _ => simp [SocketCalls.step, hpoint] at hstep

theorem connection_step (hadmitted : calls.Admitted event) {sending : Option Sending}
    (hstep : (sending.bind fun sending => some { calls with sending := sending }) = some after) :
    CallStep calls after event := by
  obtain ⟨_, _, hafter⟩ := Option.bind_eq_some_iff.mp hstep
  obtain rfl := Option.some.inj hafter
  exact .same hadmitted rfl rfl rfl rfl

/-- A thread calls `unlock()` at the end of its call. -/
theorem unlock_call_step (hstep : calls.step (.unlock thread) = some after) :
    CallStep calls after (.unlock thread) := by
  cases hpoint : calls.point thread with
  | recvLoop =>
    simp only [SocketCalls.step, hpoint, Option.ite_none_right_eq_some] at hstep
    obtain ⟨mutex, hmutex, hafter⟩ := Option.bind_eq_some_iff.mp hstep.2
    obtain rfl := Option.some.inj hafter
    refine recv_mutex_step trivial hmutex ?_ ?_
    · rw [apply_ite CallPoint.recvUse, hpoint]
      exact .unlock
    · rw [apply_ite CallPoint.sendUse, hpoint]
      exact (ite_self _).symm
  | sendLoop =>
    simp only [SocketCalls.step, hpoint, Option.ite_none_right_eq_some] at hstep
    obtain ⟨mutex, hmutex, hafter⟩ := Option.bind_eq_some_iff.mp hstep.2
    obtain rfl := Option.some.inj hafter
    refine send_mutex_step trivial hmutex ?_ ?_
    · rw [apply_ite CallPoint.sendUse, hpoint]
      exact .unlock
    · rw [apply_ite CallPoint.recvUse, hpoint]
      exact (ite_self _).symm
  | _ => simp [SocketCalls.step, hpoint] at hstep

/-- A thread returns from `unlock()`, behind the hand-over. -/
theorem unlock_return_call_step (hstep : calls.step (.unlockReturn thread) = some after) :
    CallStep calls after (.unlockReturn thread) := by
  cases hpoint : calls.point thread with
  | recvUnlock =>
    simp only [SocketCalls.step, hpoint] at hstep
    obtain ⟨mutex, hmutex, hafter⟩ := Option.bind_eq_some_iff.mp hstep
    obtain rfl := Option.some.inj hafter
    refine recv_mutex_step trivial hmutex ?_ ?_
    · rw [hpoint]
      exact .unlockReturn
    · rw [hpoint]
      rfl
  | sendUnlock =>
    simp only [SocketCalls.step, hpoint] at hstep
    obtain ⟨mutex, hmutex, hafter⟩ := Option.bind_eq_some_iff.mp hstep
    obtain rfl := Option.some.inj hafter
    refine send_mutex_step trivial hmutex ?_ ?_
    · rw [hpoint]
      exact .unlockReturn
    · rw [hpoint]
      rfl
  | _ => simp [SocketCalls.step, hpoint] at hstep

theorem call_step (hstep : calls.step event = some after) : CallStep calls after event := by
  cases event with
  | packet copy data ackNumber => exact connection_step trivial hstep
  | recv thread dataSize =>
    simp only [SocketCalls.step, Option.ite_none_right_eq_some] at hstep
    obtain ⟨⟨houtside, _⟩, hstep⟩ := hstep
    refine recv_locks_step trivial ?_ (fun mutex => ?_) hstep
    · rw [houtside]
      rfl
    · rw [houtside]
      exact .lock
  | send thread data =>
    simp only [SocketCalls.step, Option.ite_none_right_eq_some] at hstep
    obtain ⟨⟨houtside, _⟩, hstep⟩ := hstep
    refine send_locks_step trivial ?_ (fun mutex => ?_) hstep
    · rw [houtside]
      rfl
    · rw [houtside]
      exact .lock
  | lock thread step => exact lock_call_step hstep
  | start thread => exact start_call_step hstep
  | advance thread result =>
    cases hpoint : calls.point thread with
    | recvLoop =>
      simp only [SocketCalls.step, hpoint] at hstep
      exact connection_step trivial hstep
    | sendLoop =>
      simp only [SocketCalls.step, hpoint] at hstep
      exact connection_step trivial hstep
    | _ => simp [SocketCalls.step, hpoint] at hstep
  | unlock thread => exact unlock_call_step hstep
  | unlockReturn thread => exact unlock_return_call_step hstep

end Steps

/-! ## Whole runs -/

namespace SocketCalls

variable {calls after : SocketCalls} {event : CallEvent} {gone : Nat}

/-- `send_mutex_` is used in brackets, whatever becomes of `recv_mutex_`. -/
theorem placed_send (h : Placed calls.sendMutex calls.sendUses)
    (hstep : calls.step event = some after) : Placed after.sendMutex after.sendUses := by
  cases call_step hstep with
  | same _ _ hsend _ hsendUses => rwa [hsend, hsendUses]
  | recv _ _ _ _ _ _ _ hsend hsendUses => rwa [hsend, hsendUses]
  | send thread use mutexEvent _ hmutex hmove hsendUses _ _ =>
    rw [hsendUses]
    exact h.step hmutex hmove
  | refused _ _ _ _ _ hsend _ hsendUses => rwa [hsend, hsendUses]

/-- `recv_mutex_` is used in brackets as long as no call is refused. -/
theorem placed_recv (h : Placed calls.recvMutex calls.recvUses) (hadmitted : calls.Admitted event)
    (hstep : calls.step event = some after) : Placed after.recvMutex after.recvUses := by
  cases call_step hstep with
  | same _ hrecv _ hrecvUses _ => rwa [hrecv, hrecvUses]
  | recv thread use mutexEvent _ hmutex hmove hrecvUses _ _ =>
    rw [hrecvUses]
    exact h.step hmutex hmove
  | send _ _ _ _ _ _ _ hrecv hrecvUses => rwa [hrecv, hrecvUses]
  | refused _ hrefused _ _ _ _ _ _ => exact absurd hadmitted hrefused

/-- The call that is refused leaves with `recv_mutex_`. -/
theorem refused_shut (h : Placed calls.recvMutex calls.recvUses)
    (hrefused : ¬ calls.Admitted event) (hstep : calls.step event = some after) :
    ∃ thread, event = .start thread ∧ after.point thread = .outside ∧
      Shut after.recvMutex after.recvUses thread := by
  cases call_step hstep with
  | same hadmitted _ _ _ _ => exact absurd hadmitted hrefused
  | recv _ _ _ hadmitted _ _ _ _ _ => exact absurd hadmitted hrefused
  | send _ _ _ hadmitted _ _ _ _ _ => exact absurd hadmitted hrefused
  | refused thread _ hinside hreturned hrecv _ hrecvUses _ =>
    refine ⟨thread, rfl, hreturned, ?_⟩
    rw [hrecv, hrecvUses]
    exact h.leave hinside

/-- From then on no call gets past `recv_mutex_.lock()`. -/
theorem shut_step (h : Shut calls.recvMutex calls.recvUses gone)
    (hstep : calls.step event = some after) : Shut after.recvMutex after.recvUses gone := by
  cases call_step hstep with
  | same _ hrecv _ hrecvUses _ => rwa [hrecv, hrecvUses]
  | recv thread use mutexEvent _ hmutex hmove hrecvUses _ _ =>
    rw [hrecvUses]
    exact h.step hmutex hmove
  | send _ _ _ _ _ _ _ hrecv hrecvUses => rwa [hrecv, hrecvUses]
  | refused thread _ hinside _ _ _ _ _ => exact absurd hinside (h.empty thread)

theorem placed_initial (sending : Sending) :
    Placed (initial sending).recvMutex (initial sending).recvUses ∧
      Placed (initial sending).sendMutex (initial sending).sendUses :=
  ⟨⟨BracketSound.initial, fun _ => rfl⟩, ⟨BracketSound.initial, fun _ => rfl⟩⟩

/-- A thread that is in neither function does not hold a mutex that is used in brackets. -/
theorem holds_of_outside {mutex : MutexSystem} {use : Nat → MutexUse} {thread : Nat}
    (h : Placed mutex use) (houtside : use thread = .outside) : mutex.holds thread = false :=
  (use_eq_outside_iff.mp ((h.places thread).symm.trans houtside)).2

/-- In every state, `send_mutex_` is used in brackets, and so is `recv_mutex_`, unless a thread has
left with it. -/
theorem placed_or_shut {sending : Sending} {events : List CallEvent} {final : SocketCalls}
    (hrun : run SocketCalls.step (initial sending) events = some final) :
    Placed final.sendMutex final.sendUses ∧ (Placed final.recvMutex final.recvUses ∨
      ∃ gone, Shut final.recvMutex final.recvUses gone) := by
  refine run_invariant (fun calls : SocketCalls => Placed calls.sendMutex calls.sendUses ∧
    (Placed calls.recvMutex calls.recvUses ∨ ∃ gone, Shut calls.recvMutex calls.recvUses gone)) ?_
    ⟨(placed_initial sending).2, Or.inl (placed_initial sending).1⟩ hrun
  rintro calls event after ⟨hsend, hrecv | ⟨gone, hshut⟩⟩ hstep
  · refine ⟨placed_send hsend hstep, ?_⟩
    by_cases hadmitted : calls.Admitted event
    · exact Or.inl (placed_recv hrecv hadmitted hstep)
    · obtain ⟨thread, _, _, hshut⟩ := refused_shut hrecv hadmitted hstep
      exact Or.inr ⟨thread, hshut⟩
  · exact ⟨placed_send hsend hstep, Or.inr ⟨gone, shut_step hshut hstep⟩⟩

end SocketCalls

/-- No thread outside `recv` and `send` holds a mutex of the connection exactly when no `recv` is
refused in the run. `send_mutex_` is never held outside, and in a run without a refused `recv` a
thread outside is named by `owner_` of a mutex only while a notified thread is about to take it over.
A thread whose `recv` is refused has `recv_mutex_` for good, and no later `recv` gets past
`lock()`. -/
theorem mutexes_released_iff (sending : Sending) {events : List CallEvent} {final : SocketCalls}
    (hrun : run SocketCalls.step (initial sending) events = some final) :
    (Always SocketCalls.step Released (initial sending) events ↔
      Meets SocketCalls.step Admitted (initial sending) events) ∧
    (∀ thread, final.point thread = .outside → final.sendMutex.holds thread = false) ∧
    (Meets SocketCalls.step Admitted (initial sending) events →
      ∀ thread, thread ≠ 0 → final.point thread = .outside →
        (final.recvMutex.owner = thread → final.recvMutex.HandedOn thread) ∧
        (final.sendMutex.owner = thread → final.sendMutex.HandedOn thread)) ∧
    ∀ (thread dataSize : Nat) (more : List CallEvent) (later : SocketCalls),
      final.point thread = .recvStart dataSize → ¬ final.state.Receives →
      run SocketCalls.step final (.start thread :: more) = some later →
      later.recvMutex.holds thread = true ∧
        ∀ other, later.point other ≠ .recvLoop ∧ ∀ size, later.point other ≠ .recvStart size := by
  have hplaced := placed_or_shut hrun
  have hsend := hplaced.1
  refine ⟨?_, ?_, ?_, ?_⟩
  · refine always_iff_meets (fun calls : SocketCalls =>
      Placed calls.recvMutex calls.recvUses ∧ Placed calls.sendMutex calls.sendUses) ?_ ?_ ?_
      (placed_initial sending) hrun
    · rintro calls ⟨hrecv, hsend⟩ thread houtside
      refine ⟨holds_of_outside hrecv ?_, holds_of_outside hsend ?_⟩
      · exact congrArg CallPoint.recvUse houtside
      · exact congrArg CallPoint.sendUse houtside
    · rintro calls event after ⟨hrecv, hsend⟩ hadmitted hstep
      exact ⟨placed_recv hrecv hadmitted hstep, placed_send hsend hstep⟩
    · rintro calls event after ⟨hrecv, _⟩ hrefused hstep hreleased
      obtain ⟨thread, _, houtside, hshut⟩ := refused_shut hrecv hrefused hstep
      have hholds := (hreleased thread houtside).1
      rw [hshut.abandoned.holding] at hholds
      cases hholds
  · intro thread houtside
    exact holds_of_outside hsend (congrArg CallPoint.sendUse houtside)
  · intro hmeets thread hthread houtside
    have hrecv : Placed final.recvMutex final.recvUses :=
      run_invariant_of_meets
        (fun calls : SocketCalls => Placed calls.recvMutex calls.recvUses)
        (fun _ _ _ h hadmitted hstep => placed_recv h hadmitted hstep) (placed_initial sending).1
        hmeets hrun
    refine ⟨fun howner => hrecv.sound.handed_on hthread howner ?_,
      fun howner => hsend.sound.handed_on hthread howner ?_⟩
    · exact (hrecv.places thread).symm.trans (congrArg CallPoint.recvUse houtside)
    · exact (hsend.places thread).symm.trans (congrArg CallPoint.sendUse houtside)
  · intro thread dataSize more later hpoint hstate hmore
    obtain ⟨next, hstep, hrest⟩ := run_cons_eq_some.mp hmore
    have hinside : final.recvUses thread = .inside := congrArg CallPoint.recvUse hpoint
    have hrefused : ¬ final.Admitted (.start thread) := by
      simp only [SocketCalls.Admitted, hpoint]
      exact hstate
    have hrecv : Placed final.recvMutex final.recvUses := by
      rcases hplaced.2 with hrecv | ⟨gone, hshut⟩
      · exact hrecv
      · exact absurd hinside (hshut.empty thread)
    obtain ⟨_, hevent, _, hshut⟩ := refused_shut hrecv hrefused hstep
    cases hevent
    have hlater := run_invariant
      (fun calls : SocketCalls => Shut calls.recvMutex calls.recvUses thread)
      (fun _ _ _ h hstep => shut_step h hstep) hshut hrest
    refine ⟨hlater.abandoned.holding, fun other => ⟨fun hloop => ?_, fun size hstart => ?_⟩⟩
    · exact hlater.empty other (congrArg CallPoint.recvUse hloop)
    · exact hlater.empty other (congrArg CallPoint.recvUse hstart)

/-- A connection that no thread uses yet. -/
def exampleCalls : SocketCalls :=
  initial (Sending.exampleSending 2000)

/-- Two threads call `recv`, and the first one hands the mutex on after it has read a byte. -/
def handoverEvents : List CallEvent :=
  [.recv 1 1, .start 1, .recv 2 1, .lock 2 .wait, .packet 16 (dataSegment 101 [97]) 1,
    .advance 1 .ok, .advance 1 .ok, .advance 1 .ok, .unlock 1, .unlockReturn 1, .lock 2 .resume,
    .lock 2 .finish, .start 2]

/-- The run with the hand-over. -/
theorem mutexes_released_handover :
    Always SocketCalls.step Released exampleCalls handoverEvents ∧
    ∃ final, run SocketCalls.step exampleCalls handoverEvents = some final ∧
      final.point 1 = .outside ∧ final.sendMutex.holds 1 = false := by
  have hresult : (run SocketCalls.step exampleCalls handoverEvents).any
      (fun final => final.point 1 = .outside) = true := by
    decide +kernel
  obtain ⟨final, hrun, houtside⟩ := (Option.any_eq_true _ _).mp hresult
  have h := mutexes_released_iff (Sending.exampleSending 2000) hrun
  exact ⟨h.1.mpr (by decide +kernel), final, hrun, of_decide_eq_true houtside,
    h.2.1 1 (of_decide_eq_true houtside)⟩

/-- The peer closes, thread 1 calls `recv` and gets 0, and `recv` of thread 2 and the next `recv` of
thread 1 block on the mutex that thread 1 has kept. -/
theorem refused_recv_keeps_mutex : ∃ refused final,
    run SocketCalls.step exampleCalls
      [.packet 16 (finSegment 101 []) 1, .recv 1 9, .start 1] = some refused ∧
    refused.point 1 = .outside ∧ refused.recvMutex.holds 1 = true ∧ ¬ refused.Released ∧
    refused.sending.stream.returned = [[]] ∧
    run SocketCalls.step refused [.recv 2 9, .lock 2 .wait, .recv 1 9, .lock 1 .wait] =
      some final ∧
    final.recvMutex.pc 2 = .sleeping ∧ final.recvMutex.pc 1 = .sleeping := by
  have hresult : (run SocketCalls.step exampleCalls
      [.packet 16 (finSegment 101 []) 1, .recv 1 9, .start 1]).any
      (fun refused => refused.point 1 = .outside ∧ refused.recvMutex.holds 1 = true ∧
        refused.sending.stream.returned = [[]] ∧
        (run SocketCalls.step refused
          [.recv 2 9, .lock 2 .wait, .recv 1 9, .lock 1 .wait]).any
          (fun final => final.recvMutex.pc 2 = .sleeping ∧ final.recvMutex.pc 1 = .sleeping)) =
      true := by
    decide +kernel
  obtain ⟨refused, hrun, h⟩ := (Option.any_eq_true _ _).mp hresult
  obtain ⟨houtside, hholds, hreturned, hlater⟩ := of_decide_eq_true h
  obtain ⟨final, hblocked, hsleeping⟩ := (Option.any_eq_true _ _).mp hlater
  refine ⟨refused, final, hrun, houtside, hholds, fun hreleased => ?_, hreturned, hblocked,
    of_decide_eq_true hsleeping⟩
  have hnone := (hreleased 1 houtside).1
  rw [hholds] at hnone
  cases hnone

end Otrix.Net
