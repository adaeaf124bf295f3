import Otrix.Kernel.Mutex

/-!
# Threads that lock, use and unlock a mutex

A function that locks a mutex, works and unlocks it brings a thread through four places: outside,
in `lock()`, inside, in `unlock()`. While every thread keeps to that order, the place of each thread
can be read off the mutex (`BracketSound`).

A thread that leaves from the inside without `unlock()` takes the mutex with it for good: nobody is
inside any more, so nobody unlocks, and nobody in `lock()` is ever notified (`Abandoned`).
-/

namespace Otrix

open Function

/-- The place of a thread. -/
inductive MutexUse where
  | outside
  | locking
  | inside
  | unlocking
  deriving DecidableEq

/-- The thread that takes the step. -/
def MutexEvent.thread : MutexEvent → Nat
  | .lock thread => thread
  | .wait thread => thread
  | .resume thread => thread
  | .finish thread => thread
  | .unlock thread => thread
  | .unlockReturn thread => thread

namespace MutexSystem

/-- The place of a thread, read off the mutex. -/
def use (mutex : MutexSystem) (thread : Nat) : MutexUse :=
  match mutex.pc thread with
  | .idle => if mutex.holds thread then .inside else .outside
  | .unlocking => .unlocking
  | _ => .locking

/-- The place of a thread after a step of `lock()`. -/
def locked (mutex : MutexSystem) (thread : Nat) : MutexUse :=
  if mutex.pc thread = .idle then .inside else .locking

/-- The place of a thread after the first step of `unlock()`. -/
def unlocked (mutex : MutexSystem) (thread : Nat) : MutexUse :=
  if mutex.pc thread = .idle then .outside else .unlocking

/-- A thread other than this one was notified and is about to become the owner. -/
def HandedOn (mutex : MutexSystem) (thread : Nat) : Prop :=
  ∃ other, other ≠ thread ∧ (mutex.pc other = .awake ∨ mutex.pc other = .returned true)

end MutexSystem

/-- The steps of a thread that keeps to the order, with its place before and after. -/
inductive UseStep (after : MutexSystem) (thread : Nat) : MutexEvent → MutexUse → MutexUse → Prop
  | lock : UseStep after thread (.lock thread) .outside (after.locked thread)
  | wait : UseStep after thread (.wait thread) .locking (after.locked thread)
  | resume : UseStep after thread (.resume thread) .locking (after.locked thread)
  | finish : UseStep after thread (.finish thread) .locking (after.locked thread)
  | unlock : UseStep after thread (.unlock thread) .inside (after.unlocked thread)
  | unlockReturn : UseStep after thread (.unlockReturn thread) .unlocking .outside

theorem UseStep.event_thread {after : MutexSystem} {thread : Nat} {event : MutexEvent}
    {before next : MutexUse} (hmove : UseStep after thread event before next) :
    event.thread = thread := by
  cases hmove <;> rfl

/-- The mutex of threads that keep to the order. -/
structure BracketSound (mutex : MutexSystem) : Prop where
  linked : ∃ waiting, MutexLinked mutex waiting
  token : TokenSound mutex
  taken : mutex.owner ≠ 0 → ∃ thread, mutex.HasToken thread
  settled : ∀ thread, mutex.holds thread = true → mutex.pc thread = .idle

/-- A thread has left with the mutex. -/
structure Abandoned (mutex : MutexSystem) (thread : Nat) : Prop where
  owned : mutex.owner ≠ 0
  holding : mutex.holds thread = true
  quiet : ∀ other, mutex.pc other ≠ .awake ∧ ∀ successful, mutex.pc other ≠ .returned successful

/-! ## Places -/

section Places

variable {mutex after : MutexSystem} {thread other : Nat} {event : MutexEvent}
  {before next : MutexUse}

theorem use_congr (hpc : after.pc other = mutex.pc other)
    (hholds : after.holds other = mutex.holds other) : after.use other = mutex.use other := by
  unfold MutexSystem.use
  rw [hpc, hholds]

theorem use_eq_outside_iff : mutex.use thread = .outside ↔
    mutex.pc thread = .idle ∧ mutex.holds thread = false := by
  unfold MutexSystem.use
  cases mutex.pc thread with
  | idle => cases mutex.holds thread <;> simp
  | _ => simp

theorem use_eq_inside_iff : mutex.use thread = .inside ↔
    mutex.pc thread = .idle ∧ mutex.holds thread = true := by
  unfold MutexSystem.use
  cases mutex.pc thread with
  | idle => cases mutex.holds thread <;> simp
  | _ => simp

/-- A notification leaves the other threads where they are, and the notified one in `lock()`. -/
theorem wake_use (mutex : MutexSystem) (waiter other : Nat) :
    (mutex.wake waiter).use other = mutex.use other := by
  unfold MutexSystem.wake
  split
  next hsleeping =>
    by_cases heq : other = waiter
    · subst heq
      simp [MutexSystem.use, MutexSystem.goto, hsleeping]
    · exact use_congr (update_of_ne heq _ _) rfl
  · rfl

/-- The end of `unlock()` leaves the other threads where they are. -/
theorem pass_on_use (hother : other ≠ thread) :
    (mutex.passOn thread).use other = mutex.use other := by
  unfold MutexSystem.passOn
  split
  next waiter queue _ =>
    have hwoken : ({ mutex with waitingQueue := queue }.wake waiter).use other = mutex.use other :=
      wake_use { mutex with waitingQueue := queue } waiter other
    rw [← hwoken]
    exact use_congr (update_of_ne hother _ _) rfl
  · rfl

theorem use_of_ne (hstep : mutex.step event = some after) (hother : other ≠ event.thread) :
    after.use other = mutex.use other := by
  have hpc : ∀ (sys : MutexSystem) (pc : MutexPc), (sys.goto event.thread pc).use other =
      sys.use other := fun sys pc => use_congr (update_of_ne hother _ _) rfl
  have hhold : ∀ sys : MutexSystem, (sys.hold event.thread).use other = sys.use other :=
    fun sys => use_congr rfl (update_of_ne hother _ _)
  cases MutexSystem.step_cases hstep with
  | lockFree => exact hhold mutex
  | lockOwned => exact hpc mutex _
  | wait => exact hpc _ _
  | resume => exact hpc _ _
  | finish => exact (hpc _ _).trans (hhold mutex)
  | finishFailed => exact hpc _ _
  | @unlock thread =>
    have hreleased : ({ mutex with holds := update mutex.holds thread false } :
        MutexSystem).use other = mutex.use other :=
      use_congr rfl (update_of_ne hother _ _)
    unfold MutexSystem.unlock
    split
    · exact (pass_on_use hother).trans hreleased
    · exact hreleased
  | unlockReturn => exact hpc _ _

end Places

namespace BracketSound

variable {mutex after : MutexSystem} {thread : Nat} {event : MutexEvent} {before next : MutexUse}

theorem initial : BracketSound MutexSystem.initial :=
  ⟨⟨[], MutexLinked.initial⟩, TokenSound.initial, fun hne => absurd rfl hne,
    fun _ hholds => by cases hholds⟩

theorem unlocks_held (hmove : UseStep after thread event before next)
    (hbefore : mutex.use thread = before) : UnlocksHeld mutex event := by
  cases hmove with
  | unlock => exact (use_eq_inside_iff.mp hbefore).2
  | _ => trivial

variable (h : BracketSound mutex)
include h

theorem holds_eq_false (hpc : mutex.pc thread ≠ .idle) :
    mutex.holds thread = false := by
  cases hholds : mutex.holds thread with
  | false => rfl
  | true => exact absurd (h.settled thread hholds) hpc

theorem of_step (hheld : UnlocksHeld mutex event) (hstep : mutex.step event = some after)
    (htaken : after.owner ≠ 0 → ∃ thread, after.HasToken thread)
    (hsettled : ∀ thread, after.holds thread = true → after.pc thread = .idle) :
    BracketSound after := by
  obtain ⟨waiting, hlinked⟩ := h.linked
  obtain ⟨waiting', hlinked', _⟩ := hlinked.step hstep
  exact ⟨⟨waiting', hlinked'⟩, h.token.step hlinked hheld hstep, htaken, hsettled⟩

/-- A thread moves that does not hold the mutex, and keeps what it has of the token. -/
theorem move {queue : Waitq} {pc : MutexPc} (hheld : UnlocksHeld mutex event)
    (hstep : mutex.step event =
      some ⟨mutex.owner, queue, update mutex.pc thread pc, mutex.holds⟩)
    (hfree : mutex.holds thread = false)
    (hkeeps : (mutex.pc thread = .awake ∨ ∃ successful, mutex.pc thread = .returned successful) →
      pc = .awake ∨ ∃ successful, pc = .returned successful) :
    BracketSound ⟨mutex.owner, queue, update mutex.pc thread pc, mutex.holds⟩ := by
  refine h.of_step hheld hstep (fun howned => ?_) <|
    (forall_update_iff mutex.pc fun other point => mutex.holds other = true → point = .idle).mpr
      ⟨fun hholds => by simp [hfree] at hholds, fun other _ => h.settled other⟩
  obtain ⟨holder, hholder⟩ := h.taken howned
  refine ⟨holder, hholder.imp id fun hpoint => ?_⟩
  show update mutex.pc thread pc holder = .awake ∨
    ∃ successful, update mutex.pc thread pc holder = .returned successful
  by_cases heq : holder = thread
  · subst heq
    rw [update_self]
    exact hkeeps hpoint
  · rw [update_of_ne heq]
    exact hpoint

theorem hold (hheld : UnlocksHeld mutex event)
    (hstep : mutex.step event = some ((mutex.hold thread).goto thread .idle)) :
    BracketSound ((mutex.hold thread).goto thread .idle) := by
  refine h.of_step hheld hstep (fun _ => ⟨thread, Or.inl (update_self ..)⟩) fun other hholds => ?_
  show update mutex.pc thread .idle other = .idle
  by_cases heq : other = thread
  · rw [heq, update_self]
  · have hbefore : update mutex.holds thread true other = true := hholds
    rw [update_of_ne heq] at hbefore ⊢
    exact h.settled other hbefore

/-- What `unlock()` of a thread that is inside does: the mutex is free, or the first waiting thread
is notified. -/
theorem unlock_cases (hinside : mutex.use thread = .inside)
    (hstep : mutex.step (.unlock thread) = some after) :
    after = { mutex with owner := 0, holds := update mutex.holds thread false } ∨
    ∃ waiter queue, waiter ≠ thread ∧ after = ⟨mutex.owner, queue,
      update (update mutex.pc waiter .awake) thread .unlocking,
      update mutex.holds thread false⟩ := by
  obtain ⟨hidle, hholding⟩ := use_eq_inside_iff.mp hinside
  obtain ⟨waiting, hlinked⟩ := h.linked
  obtain ⟨⟨hthread, _⟩, hafter⟩ := Option.ite_none_right_eq_some.mp hstep
  obtain rfl := Option.some.inj hafter
  have hreleased : MutexLinked { mutex with holds := update mutex.holds thread false }
      waiting := ⟨hlinked.waiters, hlinked.null_idle, hlinked.successful⟩
  have hunlock : mutex.unlock thread =
      ({ mutex with holds := update mutex.holds thread false } : MutexSystem).passOn
        thread := if_pos (h.token.holder thread hholding)
  cases waiting with
  | nil => exact Or.inl (hunlock.trans hreleased.passOn_nil)
  | cons waiter rest =>
    obtain ⟨queue, hpassed, _⟩ := hreleased.passOn_cons hthread (by rw [hidle]; simp)
    have hsleeping : mutex.pc waiter = .sleeping :=
      (hlinked.waiters.mem_iff waiter).mp List.mem_cons_self
    refine Or.inr ⟨waiter, queue, ?_, hunlock.trans hpassed⟩
    rintro rfl
    rw [hidle] at hsleeping
    cases hsleeping

theorem unlock (hinside : mutex.use thread = .inside)
    (hstep : mutex.step (.unlock thread) = some after) : BracketSound after := by
  have hholding := (use_eq_inside_iff.mp hinside).2
  have hheld : UnlocksHeld mutex (.unlock thread) := hholding
  have hnobody : ∀ other, update mutex.holds thread false other ≠ true :=
    (forall_update_iff mutex.holds fun _ held => held ≠ true).mpr ⟨nofun,
      fun other hne hother => hne (h.token.single other thread (Or.inl hother) (Or.inl hholding))⟩
  rcases h.unlock_cases hinside hstep with rfl | ⟨waiter, queue, hne, rfl⟩
  · exact h.of_step hheld hstep (fun howned => absurd rfl howned)
      fun other hholds => absurd hholds (hnobody other)
  · refine h.of_step hheld hstep (fun _ => ⟨waiter, Or.inr (Or.inl ?_)⟩)
      fun other hholds => absurd hholds (hnobody other)
    show update (update mutex.pc waiter .awake) thread .unlocking waiter = .awake
    rw [update_of_ne hne, update_self]

/-- Every step of a thread that keeps to the order keeps the mutex sound. -/
theorem step (hmove : UseStep after thread event before next)
    (hbefore : mutex.use thread = before) (hstep : mutex.step event = some after) :
    BracketSound after := by
  have hheld := unlocks_held hmove hbefore
  cases MutexSystem.step_cases hstep with
  | @lockFree thread _ hidle =>
    cases hmove
    have hsame : mutex.hold thread = (mutex.hold thread).goto thread .idle := by
      unfold MutexSystem.goto MutexSystem.hold
      rw [← hidle, update_eq_self]
    rw [hsame] at hstep ⊢
    exact h.hold hheld hstep
  | lockOwned _ hidle =>
    cases hmove
    exact h.move hheld hstep (use_eq_outside_iff.mp hbefore).2 (by simp [hidle])
  | wait hpc => exact h.move hheld hstep (h.holds_eq_false (by simp [hpc])) (by simp [hpc])
  | resume hpc => exact h.move hheld hstep (h.holds_eq_false (by simp [hpc])) fun _ => Or.inr ⟨_, rfl⟩
  | finish => exact h.hold hheld hstep
  | finishFailed hpc =>
    obtain ⟨waiting, hlinked⟩ := h.linked
    exact absurd hpc (hlinked.successful _)
  | unlock =>
    cases hmove
    exact h.unlock hbefore hstep
  | unlockReturn hpc => exact h.move hheld hstep (h.holds_eq_false (by simp [hpc])) (by simp [hpc])

/-- A step of a thread that keeps to the order brings it to the next place. -/
theorem use_eq (hmove : UseStep after thread event before next)
    (hbefore : mutex.use thread = before) (hstep : mutex.step event = some after) :
    after.use thread = next := by
  cases hmove with
  | unlock =>
    have hidle := (use_eq_inside_iff.mp hbefore).1
    rcases h.unlock_cases hbefore hstep with rfl | ⟨waiter, queue, _, rfl⟩
    · simp [MutexSystem.use, MutexSystem.unlocked, hidle]
    · simp [MutexSystem.use, MutexSystem.unlocked]
  | unlockReturn =>
    cases MutexSystem.step_cases hstep with
    | unlockReturn hpc =>
      have hfree := h.holds_eq_false (show mutex.pc thread ≠ .idle by simp [hpc])
      simp [MutexSystem.use, MutexSystem.goto, hfree]
  | lock =>
    cases MutexSystem.step_cases hstep with
    | lockFree _ hidle => simp [MutexSystem.use, MutexSystem.locked, MutexSystem.hold, hidle]
    | lockOwned => simp [MutexSystem.use, MutexSystem.locked, MutexSystem.goto]
  | wait =>
    cases MutexSystem.step_cases hstep
    simp [MutexSystem.use, MutexSystem.locked, MutexSystem.goto]
  | resume =>
    cases MutexSystem.step_cases hstep
    simp [MutexSystem.use, MutexSystem.locked, MutexSystem.goto]
  | finish =>
    obtain ⟨waiting, hlinked⟩ := h.linked
    cases MutexSystem.step_cases hstep with
    | finish => simp [MutexSystem.use, MutexSystem.locked, MutexSystem.goto, MutexSystem.hold]
    | finishFailed hfailed => exact absurd hfailed (hlinked.successful thread)

/-- A thread that is not inside and is still named by `owner_` has handed the mutex on. -/
theorem handed_on (hthread : thread ≠ 0) (howner : mutex.owner = thread)
    (houtside : mutex.use thread = .outside) : mutex.HandedOn thread := by
  obtain ⟨hidle, hfree⟩ := use_eq_outside_iff.mp houtside
  obtain ⟨waiting, hlinked⟩ := h.linked
  obtain ⟨other, hother⟩ := h.taken (howner ▸ hthread)
  have hne : other ≠ thread := by
    rintro rfl
    rcases hother with hholds | hpoint
    · rw [hfree] at hholds
      cases hholds
    · simp [hidle] at hpoint
  refine ⟨other, hne, ?_⟩
  rcases hother with hholds | hawake | ⟨successful, hreturned⟩
  · exact absurd ((h.token.holder other hholds).symm.trans howner) hne
  · exact Or.inl hawake
  · cases successful with
    | false => exact absurd hreturned (hlinked.successful other)
    | true => exact Or.inr hreturned

/-- A thread that is inside may take the mutex with it. -/
theorem abandoned (hinside : mutex.use thread = .inside) :
    Abandoned mutex thread := by
  obtain ⟨hidle, hholding⟩ := use_eq_inside_iff.mp hinside
  have honly : ∀ other, ¬ (mutex.pc other = .awake ∨
      ∃ successful, mutex.pc other = .returned successful) := by
    intro other hpoint
    have heq := h.token.single other thread (Or.inr hpoint) (Or.inl hholding)
    rw [heq, hidle] at hpoint
    simp at hpoint
  exact ⟨h.token.owned thread (Or.inl hholding), hholding,
    fun other => ⟨fun hawake => honly other (Or.inl hawake),
      fun successful hreturned => honly other (Or.inr ⟨successful, hreturned⟩)⟩⟩

end BracketSound

/-- Once a thread has left with the mutex, no thread gets inside again. -/
theorem Abandoned.step {mutex after : MutexSystem} {thread gone : Nat} {event : MutexEvent}
    {before next : MutexUse} (h : Abandoned mutex gone)
    (hmove : UseStep after thread event before next) (houtside : before ≠ .inside)
    (hstep : mutex.step event = some after) : Abandoned after gone ∧ next ≠ .inside := by
  have hmoved : ∀ (queue : Waitq) (pc : MutexPc), pc ≠ .awake →
      (∀ successful, pc ≠ .returned successful) →
      Abandoned ⟨mutex.owner, queue, update mutex.pc thread pc, mutex.holds⟩ gone := by
    intro queue pc hawake hreturned
    exact ⟨h.owned, h.holding, (forall_update_iff mutex.pc fun _ point =>
      point ≠ .awake ∧ ∀ successful, point ≠ .returned successful).mpr
        ⟨⟨hawake, hreturned⟩, fun other _ => h.quiet other⟩⟩
  cases MutexSystem.step_cases hstep with
  | lockFree _ _ hfree => exact absurd hfree h.owned
  | lockOwned =>
    cases hmove
    exact ⟨hmoved _ _ (by simp) (by simp), by simp [MutexSystem.locked, MutexSystem.goto]⟩
  | wait =>
    cases hmove
    exact ⟨hmoved _ _ (by simp) (by simp), by simp [MutexSystem.locked, MutexSystem.goto]⟩
  | resume hawake => exact absurd hawake (h.quiet _).1
  | finish hreturned => exact absurd hreturned ((h.quiet _).2 true)
  | finishFailed hfailed => exact absurd hfailed ((h.quiet _).2 false)
  | unlock =>
    cases hmove
    exact absurd rfl houtside
  | unlockReturn =>
    cases hmove
    exact ⟨hmoved _ _ (by simp) (by simp), by simp⟩

/-! ## Threads with a place each -/

/-- Every thread is where the mutex has it. -/
structure Placed (mutex : MutexSystem) (use : Nat → MutexUse) : Prop where
  sound : BracketSound mutex
  places : ∀ thread, use thread = mutex.use thread

/-- A thread has left with the mutex, and no thread is inside. -/
structure Shut (mutex : MutexSystem) (use : Nat → MutexUse) (gone : Nat) : Prop where
  abandoned : Abandoned mutex gone
  empty : ∀ thread, use thread ≠ .inside

section Uses

variable {mutex after : MutexSystem} {use : Nat → MutexUse} {next : MutexUse} {thread gone : Nat}
  {event : MutexEvent}

theorem Placed.step (h : Placed mutex use) (hstep : mutex.step event = some after)
    (hmove : UseStep after thread event (use thread) next) :
    Placed after (update use thread next) := by
  have hbefore := (h.places thread).symm
  refine ⟨h.sound.step hmove hbefore hstep, fun other => ?_⟩
  by_cases heq : other = thread
  · rw [heq, update_self]
    exact (h.sound.use_eq hmove hbefore hstep).symm
  · rw [update_of_ne heq, h.places other, use_of_ne hstep (hmove.event_thread ▸ heq)]

theorem Shut.step (h : Shut mutex use gone) (hstep : mutex.step event = some after)
    (hmove : UseStep after thread event (use thread) next) :
    Shut after (update use thread next) gone := by
  obtain ⟨hafter, hnext⟩ := h.abandoned.step hmove (h.empty thread) hstep
  exact ⟨hafter, (forall_update_iff use fun _ place => place ≠ .inside).mpr
    ⟨hnext, fun other _ => h.empty other⟩⟩

theorem Placed.leave (h : Placed mutex use) (hinside : use thread = .inside) :
    Shut mutex (update use thread .outside) thread := by
  have hthread := (h.places thread).symm.trans hinside
  refine ⟨h.sound.abandoned hthread, fun other => ?_⟩
  by_cases heq : other = thread
  · rw [heq, update_self]
    exact nofun
  · rw [update_of_ne heq, h.places other]
    intro hother
    have hholds := (use_eq_inside_iff.mp hother).2
    exact heq (h.sound.token.single other thread (Or.inl hholds)
      (Or.inl (use_eq_inside_iff.mp hthread).2))

end Uses

end Otrix
