import Mathlib.Data.List.Basic

/-!
# Runs of event-driven machines

A machine is a step function that consumes one event and may refuse it. `run`
executes a list of events, `Meets` says that every step of a run satisfies a
condition on the state before the step, and `Always` says that a predicate
holds in every state a run visits. `run_invariant` and `run_invariant_of_meets`
are the two induction rules from which whole-run results are derived, and
`counted_invariant` is the rule for a loop over `0, 1, …` in a single step.
-/

namespace Machine

variable {σ ε : Type*} {step : σ → ε → Option σ}

/-- Execute the events in order. An event that is not enabled stops the run. -/
def run (step : σ → ε → Option σ) : σ → List ε → Option σ
  | state, [] => some state
  | state, event :: events => step state event >>= fun next => run step next events

/-- Every step of the run meets the condition on its event and the state before it. -/
def Meets (step : σ → ε → Option σ) (condition : σ → ε → Prop) : σ → List ε → Prop
  | _, [] => True
  | state, event :: events =>
    condition state event ∧ ∀ next, step state event = some next →
      Meets step condition next events

/-- The predicate holds in every state that the run visits, the first one included. -/
def Always (step : σ → ε → Option σ) (holds : σ → Prop) : σ → List ε → Prop
  | state, [] => holds state
  | state, event :: events =>
    holds state ∧ ∀ next, step state event = some next → Always step holds next events

attribute [local simp] run Meets Always

/-- A decidable condition can be evaluated along a run. -/
instance decidableMeets (condition : σ → ε → Prop) [∀ state event, Decidable (condition state event)] :
    ∀ state events, Decidable (Meets step condition state events)
  | _, [] => isTrue trivial
  | state, event :: events =>
    match hstep : step state event with
    | none => decidable_of_iff (condition state event) (by simp [Meets, hstep])
    | some next =>
      have := decidableMeets condition next events
      decidable_of_iff (condition state event ∧ Meets step condition next events)
        (by simp [Meets, hstep])

/-- A state is reachable when some run from the initial state ends in it. -/
def Reachable (step : σ → ε → Option σ) (initial state : σ) : Prop :=
  ∃ events, run step initial events = some state

variable {holds : σ → Prop}

/-- A result that is there when it is evaluated has what follows from being the result. -/
theorem exists_of_isSome {result : Option σ} (hsome : result.isSome)
    (hholds : ∀ state, result = some state → holds state) :
    ∃ state, result = some state ∧ holds state := by
  obtain ⟨state, hstate⟩ := Option.isSome_iff_exists.mp hsome
  exact ⟨state, hstate, hholds state hstate⟩

/-- A result that passes an evaluated test has what follows from the test. -/
theorem exists_of_any {result : Option σ} (test : σ → Prop) [DecidablePred test]
    (hany : result.any (fun state => decide (test state)) = true)
    (hholds : ∀ state, result = some state → test state → holds state) :
    ∃ state, result = some state ∧ holds state := by
  obtain ⟨state, hstate, htest⟩ := (Option.any_eq_true _ _).mp hany
  exact ⟨state, hstate, hholds state hstate (of_decide_eq_true htest)⟩

variable {events : List ε} {state final : σ}

/-- A step that is taken determines the next state. -/
theorem forall_next {event : ε} {next : σ} (hstep : step state event = some next) :
    (∀ other, step state event = some other → holds other) ↔ holds next := by
  simp [hstep]

theorem Always.first (h : Always step holds state events) : holds state := by
  cases events with
  | nil => exact h
  | cons event events => exact h.1

theorem run_cons_eq_some {event : ε} :
    run step state (event :: events) = some final ↔
      ∃ next, step state event = some next ∧ run step next events = some final := by
  simp [run, Option.bind_eq_some_iff]

/-- Running two event lists one after the other is running their concatenation. -/
theorem run_append (state : σ) (first second : List ε) :
    run step state (first ++ second) =
      (run step state first >>= fun next => run step next second) := by
  induction first generalizing state with
  | nil => simp [run]
  | cons event first ih =>
    cases hstep : step state event with
    | none => simp [run, hstep]
    | some next => simpa [run, hstep] using ih next

variable {condition : σ → ε → Prop}

/-- A predicate that every step meeting the condition preserves holds at the end of every run
whose steps all meet the condition. -/
theorem run_invariant_of_meets (invariant : σ → Prop)
    (hpreserve : ∀ state event next, invariant state → condition state event →
      step state event = some next → invariant next) (hinitial : invariant state)
    (hmeets : Meets step condition state events)
    (hrun : run step state events = some final) : invariant final := by
  induction events generalizing state with
  | nil => simpa [run] using Option.some.inj hrun ▸ hinitial
  | cons event events ih =>
    obtain ⟨next, hstep, hrest⟩ := run_cons_eq_some.mp hrun
    exact ih (hpreserve state event next hinitial hmeets.1 hstep) (hmeets.2 next hstep) hrest

theorem meets_true (state : σ) (events : List ε) :
    Meets step (fun _ _ => True) state events := by
  induction events generalizing state with
  | nil => trivial
  | cons event events ih => exact ⟨trivial, fun next _ => ih next⟩

/-- A predicate that every enabled step preserves holds at the end of every run. -/
theorem run_invariant (invariant : σ → Prop)
    (hpreserve : ∀ state event next, invariant state → step state event = some next →
      invariant next) (hinitial : invariant state)
    (hrun : run step state events = some final) : invariant final :=
  run_invariant_of_meets invariant (fun state event next h _ => hpreserve state event next h) hinitial
    (meets_true state events) hrun

/-- A relation between the events so far and the state, when every step extends it. -/
theorem run_history (related : List ε → σ → Prop)
    (hextend : ∀ done state event next, related done state → step state event = some next →
      related (done ++ [event]) next)
    {done : List ε} (hinitial : related done state)
    (hrun : run step state events = some final) : related (done ++ events) final := by
  induction events generalizing done state with
  | nil =>
    obtain rfl := Option.some.inj hrun
    rwa [List.append_nil]
  | cons event events ih =>
    obtain ⟨next, hstep, hrest⟩ := run_cons_eq_some.mp hrun
    have hlater := ih (hextend done state event next hinitial hstep) hrest
    rwa [List.append_assoc] at hlater

variable {first second : σ → ε → Prop}

theorem meets_and {state : σ}
    (hfirst : Meets step first state events) (hsecond : Meets step second state events) :
    Meets step (fun state event => first state event ∧ second state event) state events := by
  induction events generalizing state with
  | nil => trivial
  | cons event events ih =>
    exact ⟨⟨hfirst.1, hsecond.1⟩, fun next hstep => ih (hfirst.2 next hstep) (hsecond.2 next hstep)⟩

/-- A condition that implies another one wherever an invariant holds, which the steps that meet the
condition keep. -/
theorem Meets.imp (invariant : σ → Prop)
    (himp : ∀ state event, invariant state → first state event → second state event)
    (hpreserve : ∀ state event next, invariant state → first state event →
      step state event = some next → invariant next)
    {state : σ} (hinitial : invariant state)
    (hmeets : Meets step first state events) : Meets step second state events := by
  induction events generalizing state with
  | nil => trivial
  | cons event events ih =>
    obtain ⟨hfirst, hlater⟩ := hmeets
    exact ⟨himp state event hinitial hfirst, fun next hstep =>
      ih (hpreserve state event next hinitial hfirst hstep) (hlater next hstep)⟩

/-- When two conditions agree wherever an invariant holds, and the steps that are allowed and meet
the second one keep the invariant, a sequence of allowed events meets the one exactly when it meets
the other. -/
theorem meets_iff_meets_of_allowed (invariant : σ → Prop) {allowed first second : σ → ε → Prop}
    (hagree : ∀ state event, invariant state → (first state event ↔ second state event))
    (hpreserve : ∀ state event next, invariant state → allowed state event →
      second state event → step state event = some next → invariant next)
    {state : σ} (hinitial : invariant state)
    (hallowed : Meets step allowed state events) :
    Meets step first state events ↔ Meets step second state events := by
  induction events generalizing state with
  | nil => exact Iff.rfl
  | cons event events ih =>
    obtain ⟨hfirst, hlater⟩ := hallowed
    unfold Meets
    rw [hagree state event hinitial]
    refine and_congr_right fun hsecond => forall₂_congr fun next hstep => ?_
    exact ih (hpreserve state event next hinitial hfirst hsecond hstep) (hlater next hstep)

/-- The rule for machines all of whose steps are allowed. -/
theorem meets_iff_meets (invariant : σ → Prop)
    (hagree : ∀ state event, invariant state → (first state event ↔ second state event))
    (hpreserve : ∀ state event next, invariant state → second state event →
      step state event = some next → invariant next)
    {state : σ} (hinitial : invariant state) :
    Meets step first state events ↔ Meets step second state events :=
  meets_iff_meets_of_allowed invariant hagree (fun state event next h _ => hpreserve state event next h)
    hinitial (meets_true state events)

/-- When two conditions agree on the steps that are taken where an invariant holds, and every step
keeps the invariant, a run meets the one exactly when it meets the other. -/
theorem meets_iff_meets_of_run (invariant : σ → Prop)
    (hagree : ∀ state event next, invariant state → step state event = some next →
      (first state event ↔ second state event))
    (hpreserve : ∀ state event next, invariant state → step state event = some next →
      invariant next) (hinitial : invariant state)
    (hrun : run step state events = some final) :
    Meets step first state events ↔ Meets step second state events := by
  induction events generalizing state with
  | nil => exact Iff.rfl
  | cons event events ih =>
    obtain ⟨next, hstep, hrest⟩ := run_cons_eq_some.mp hrun
    simp only [Meets, forall_next hstep, hagree state event next hinitial hstep]
    exact and_congr_right fun _ => ih (hpreserve state event next hinitial hstep) hrest

/-- When every step that meets the condition is enabled and keeps an invariant, a run whose steps
all meet it goes through to its last event, where the invariant still holds. -/
theorem run_eq_some_of_meets (invariant : σ → Prop)
    (henabled : ∀ state event, invariant state → condition state event →
      ∃ next, step state event = some next ∧ invariant next)
    {state : σ} (hinitial : invariant state)
    (hmeets : Meets step condition state events) :
    ∃ final, run step state events = some final ∧ invariant final := by
  induction events generalizing state with
  | nil => exact ⟨state, rfl, hinitial⟩
  | cons event events ih =>
    obtain ⟨next, hstep, hnext⟩ := henabled state event hinitial hmeets.1
    obtain ⟨final, hrun, hfinal⟩ := ih hnext (hmeets.2 next hstep)
    exact ⟨final, run_cons_eq_some.mpr ⟨next, hstep, hrun⟩, hfinal⟩

/-- An invariant that every step meeting the condition preserves holds in every state that a run of such
steps visits. -/
theorem always_of_meets (invariant : σ → Prop)
    (hpreserve : ∀ state event next, invariant state → condition state event →
      step state event = some next → invariant next)
    {state : σ} (hinitial : invariant state)
    (hmeets : Meets step condition state events) : Always step invariant state events := by
  induction events generalizing state with
  | nil => exact hinitial
  | cons event events ih =>
    exact ⟨hinitial, fun next hstep =>
      ih (hpreserve state event next hinitial hmeets.1 hstep) (hmeets.2 next hstep)⟩

theorem Always.imp {first second : σ → Prop} (himp : ∀ state, first state → second state)
    {state : σ} (h : Always step first state events) : Always step second state events := by
  induction events generalizing state with
  | nil => exact himp state h
  | cons event events ih => exact ⟨himp state h.1, fun next hstep => ih (h.2 next hstep)⟩

/-- Among the steps that are allowed, let those that meet the condition keep an invariant that
implies the predicate, and those that do not meet it falsify the predicate at once. Then a run of
allowed steps satisfies the predicate throughout exactly when all its steps meet the condition. -/
theorem always_iff_meets_of_allowed (invariant : σ → Prop)
    {allowed condition : σ → ε → Prop} (himplies : ∀ state, invariant state → holds state)
    (hpreserve : ∀ state event next, invariant state → allowed state event →
      condition state event → step state event = some next → invariant next)
    (hfalsify : ∀ state event next, invariant state → allowed state event →
      ¬ condition state event → step state event = some next → ¬ holds next) (hinitial : invariant state)
    (hallowed : Meets step allowed state events) (hrun : run step state events = some final) :
    Always step holds state events ↔ Meets step condition state events := by
  induction events generalizing state with
  | nil => exact iff_of_true (himplies state hinitial) trivial
  | cons event events ih =>
    obtain ⟨next, hstep, hrest⟩ := run_cons_eq_some.mp hrun
    obtain ⟨hfirst, hlater⟩ := hallowed
    simp only [Always, Meets, forall_next hstep, himplies state hinitial, true_and]
    by_cases hcondition : condition state event
    · simp only [hcondition, true_and]
      exact ih (hpreserve state event next hinitial hfirst hcondition hstep) (hlater next hstep)
        hrest
    · simp only [hcondition, false_and, iff_false]
      exact fun h => hfalsify state event next hinitial hfirst hcondition hstep h.first

/-- The rule for machines all of whose steps are allowed. -/
theorem always_iff_meets (invariant : σ → Prop)
    (himplies : ∀ state, invariant state → holds state)
    (hpreserve : ∀ state event next, invariant state → condition state event →
      step state event = some next → invariant next)
    (hfalsify : ∀ state event next, invariant state → ¬ condition state event →
      step state event = some next → ¬ holds next) (hinitial : invariant state)
    (hrun : run step state events = some final) :
    Always step holds state events ↔ Meets step condition state events :=
  always_iff_meets_of_allowed invariant himplies (fun state event next h _ => hpreserve state event next h)
    (fun state event next h _ => hfalsify state event next h) hinitial (meets_true state events) hrun

/-- A predicate that survives exactly the steps that meet a condition, and that no step regains,
holds at the end of a run exactly when it holds at the start and the run meets the condition. -/
theorem holds_iff_meets (invariant : σ → Prop)
    (hpreserve : ∀ state event next, invariant state → step state event = some next →
      invariant next)
    (hsurvive : ∀ state event next, invariant state → step state event = some next →
      (holds next ↔ holds state ∧ condition state event)) (hinitial : invariant state)
    (hrun : run step state events = some final) :
    holds final ↔ holds state ∧ Meets step condition state events := by
  induction events generalizing state with
  | nil =>
    obtain rfl := Option.some.inj hrun
    exact (and_iff_left trivial).symm
  | cons event events ih =>
    obtain ⟨next, hstep, hrest⟩ := run_cons_eq_some.mp hrun
    rw [ih (hpreserve state event next hinitial hstep) hrest,
      hsurvive state event next hinitial hstep, and_assoc, Meets, forall_next hstep]

/-- A counted loop keeps an invariant that speaks about the number of its turns. -/
theorem counted_invariant (invariant : Nat → σ → Prop) (body : σ → Nat → σ) {state : σ}
    (hinitial : invariant 0 state) (count : Nat)
    (hpreserve : ∀ turn < count, ∀ before, invariant turn before → invariant (turn + 1) (body before turn)) :
    invariant count ((List.range count).foldl body state) := by
  induction count with
  | zero => exact hinitial
  | succ count ih =>
    rw [List.range_succ, List.foldl_append]
    exact hpreserve count (Nat.lt_succ_self count) _
      (ih fun turn hturn => hpreserve turn (Nat.lt_succ_of_lt hturn))

theorem Reachable.invariant {initial state : σ} (h : Reachable step initial state)
    (invariant : σ → Prop) (hinitial : invariant initial)
    (hpreserve : ∀ state event next, invariant state → step state event = some next →
      invariant next) : invariant state := by
  obtain ⟨events, hrun⟩ := h
  exact run_invariant invariant hpreserve hinitial hrun

end Machine
