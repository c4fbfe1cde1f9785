import Mathlib.Data.List.Induction

/-!
# Runs of a partial step function

A system is a function from a state and an event to the next state, undefined
where the event is not enabled. Facts about every reachable state are proved
here once, from what one step preserves, and are used by name afterwards.
-/

namespace RestfulWebserver.Library

variable {State Event : Type}

/-- The state after a list of events, undefined as soon as one is not enabled. -/
def run (step : State → Event → Option State) : State → List Event → Option State
  | state, [] => some state
  | state, event :: events =>
      match step state event with
      | none => none
      | some next => run step next events

section Runs

variable {step : State → Event → Option State}

@[simp] theorem run_nil (state : State) : run step state [] = some state := rfl

theorem run_cons_of_step {state next : State} {event : Event} (events : List Event)
    (stepped : step state event = some next) :
    run step state (event :: events) = run step next events := by
  simp only [run, stepped]

theorem run_cons_eq_some {state last : State} {event : Event} {events : List Event}
    (ran : run step state (event :: events) = some last) :
    ∃ next, step state event = some next ∧ run step next events = some last := by
  simp only [run] at ran
  split at ran
  · cases ran
  · rename_i next stepped
    exact ⟨next, stepped, ran⟩

theorem run_append (state : State) (before after : List Event) :
    run step state (before ++ after) =
      (run step state before).bind fun middle => run step middle after := by
  induction before generalizing state with
  | nil => rfl
  | cons event before ih =>
      simp only [List.cons_append, run]
      cases step state event with
      | none => rfl
      | some next => exact ih next

theorem run_snoc_eq_some {state last : State} {events : List Event} {event : Event}
    (ran : run step state (events ++ [event]) = some last) :
    ∃ middle, run step state events = some middle ∧ step middle event = some last := by
  rw [run_append] at ran
  obtain ⟨middle, reached, rest⟩ := Option.bind_eq_some_iff.mp ran
  obtain ⟨next, stepped, done⟩ := run_cons_eq_some rest
  cases done
  exact ⟨middle, reached, stepped⟩

theorem run_snoc_of_step {state middle last : State} {events : List Event} {event : Event}
    (reached : run step state events = some middle) (stepped : step middle event = some last) :
    run step state (events ++ [event]) = some last := by
  rw [run_append, reached]
  simp only [Option.bind_some, run, stepped]

def Throughout (step : State → Event → Option State) (property : State → Prop)
    (state : State) (events : List Event) : Prop :=
  ∀ before after middle, events = before ++ after →
    run step state before = some middle → property middle

/-- Every step that a run takes satisfies `condition` on the state before it
and the event. -/
def EachStep (step : State → Event → Option State) (condition : State → Event → Prop)
    (state : State) (events : List Event) : Prop :=
  ∀ before event after middle next, events = before ++ event :: after →
    run step state before = some middle → step middle event = some next →
    condition middle event

theorem each_step_nil {condition : State → Event → Prop} (state : State) :
    EachStep step condition state [] := by
  intro before event after middle next split
  simp at split

/-- The condition, checked along the run. -/
theorem each_step_cons {condition : State → Event → Prop} {state : State} {event : Event}
    {events : List Event} (first : condition state event)
    (later : ∀ next, step state event = some next → EachStep step condition next events) :
    EachStep step condition state (event :: events) := by
  intro before other after middle next split reached stepped
  cases before with
  | nil =>
      cases split
      cases reached
      exact first
  | cons early before =>
      cases split
      rcases run_cons_eq_some reached with ⟨second, firstStep, reachedLater⟩
      exact later second firstStep before other after middle next rfl reachedLater stepped

def stepsMeet (step : State → Event → Option State) (check : State → Event → Bool) :
    State → List Event → Bool
  | _, [] => true
  | state, event :: events =>
      check state event &&
        match step state event with
        | none => true
        | some next => stepsMeet step check next events

theorem each_step_of_check {condition : State → Event → Prop} {check : State → Event → Bool}
    (sound : ∀ state event, check state event = true → condition state event) {state : State}
    {events : List Event} (met : stepsMeet step check state events = true) :
    EachStep step condition state events := by
  induction events generalizing state with
  | nil => exact each_step_nil state
  | cons event events ih =>
      rw [stepsMeet, Bool.and_eq_true] at met
      apply each_step_cons (sound state event met.1)
      intro next stepped
      apply ih
      simpa only [stepped] using met.2

theorem each_step_before {condition : State → Event → Prop} {state : State}
    {before after : List Event} (each : EachStep step condition state (before ++ after)) :
    EachStep step condition state before := by
  intro early event late middle next split reached stepped
  refine each early event (late ++ after) middle next ?_ reached stepped
  rw [split, List.append_assoc, List.cons_append]

theorem each_step_after {condition : State → Event → Prop} {state middle : State}
    {before after : List Event} (each : EachStep step condition state (before ++ after))
    (reached : run step state before = some middle) : EachStep step condition middle after := by
  intro early event late inner next split arrived stepped
  apply each (before ++ early) event late inner next _ _ stepped
  · rw [split, List.append_assoc]
  · rw [run_append, reached]
    exact arrived

theorem each_step_last {condition : State → Event → Prop} {state middle last : State}
    {events : List Event} {event : Event}
    (each : EachStep step condition state (events ++ [event]))
    (reached : run step state events = some middle) (stepped : step middle event = some last) :
    condition middle event :=
  each events event [] middle last rfl reached stepped

/-- The invariant rule: what holds at the start and is kept by every step that
meets the condition holds in the last state of every run whose steps meet it. -/
theorem invariant_of_each_step {condition : State → Event → Prop} {invariant : State → Prop}
    {start : State} (initial : invariant start)
    (preserved : ∀ state event next, invariant state → condition state event →
      step state event = some next → invariant next)
    (events : List Event) (each : EachStep step condition start events)
    {last : State} (ran : run step start events = some last) : invariant last := by
  induction events using List.reverseRecOn generalizing last with
  | nil => cases ran; exact initial
  | append_singleton events event ih =>
      obtain ⟨middle, reached, stepped⟩ := run_snoc_eq_some ran
      exact preserved middle event last (ih (each_step_before each) reached)
        (each_step_last each reached stepped) stepped

/-- The unconditional invariant rule. -/
theorem invariant_of_run {invariant : State → Prop} {start : State} (initial : invariant start)
    (preserved : ∀ state event next, invariant state → step state event = some next →
      invariant next)
    {events : List Event} {last : State} (ran : run step start events = some last) :
    invariant last := by
  have each : EachStep step (fun _ _ => True) start events := by
    intro before event after middle next split reached stepped
    trivial
  apply invariant_of_each_step initial _ events each ran
  intro state event next holds _ stepped
  exact preserved state event next holds stepped

theorem throughout_of_each_step {condition : State → Event → Prop} {invariant : State → Prop}
    {start : State} (initial : invariant start)
    (preserved : ∀ state event next, invariant state → condition state event →
      step state event = some next → invariant next)
    {events : List Event} (each : EachStep step condition start events) :
    Throughout step invariant start events := by
  intro before after middle split reached
  subst split
  exact invariant_of_each_step initial preserved before (each_step_before each) reached

/-- A step out of a run's prefix leads to a state of the run. -/
theorem throughout_after_step {property : State → Prop} {state middle next : State}
    {before after : List Event} {event : Event}
    (throughout : Throughout step property state (before ++ event :: after))
    (reached : run step state before = some middle) (stepped : step middle event = some next) :
    property next := by
  refine throughout (before ++ [event]) after next ?_ (run_snoc_of_step reached stepped)
  rw [List.append_assoc, List.singleton_append]

theorem throughout_before_step {property : State → Prop} {state middle : State}
    {before after : List Event} {event : Event}
    (throughout : Throughout step property state (before ++ event :: after))
    (reached : run step state before = some middle) : property middle :=
  throughout before (event :: after) middle rfl reached

end Runs

end RestfulWebserver.Library
