import Mathlib.Order.WellFounded
import RestfulWebserver.Library.Run

/-!
# Runs that come to an end

If every step goes down in a well-founded order there is no endless run; if
besides a state that is not final always has a step, every run can be carried on
to a final state. For a family of parties of which one moves at a time it is
enough that each of them goes down.
-/

namespace RestfulWebserver.Library

section Descending

variable {State Event : Type} {step : State → Event → Option State} {invariant : State → Prop}
  {below : State → State → Prop}

def Descends (step : State → Event → Option State) (invariant : State → Prop)
    (below : State → State → Prop) : Prop :=
  ∀ state event next, invariant state → step state event = some next →
    invariant next ∧ below next state

theorem no_endless_run (descends : Descends step invariant below) (wellFounded : WellFounded below)
    (states : Nat → State) (initial : invariant (states 0)) :
    ¬ ∀ time, ∃ event, step (states time) event = some (states (time + 1)) := by
  intro steps
  have holds : ∀ time, invariant (states time) := by
    intro time
    induction time with
    | zero => exact initial
    | succ time ih =>
        obtain ⟨event, stepped⟩ := steps time
        exact (descends _ _ _ ih stepped).1
  have falls : ∀ time, below (states (time + 1)) (states time) := by
    intro time
    obtain ⟨event, stepped⟩ := steps time
    exact (descends _ _ _ (holds time) stepped).2
  -- no state of the sequence is accessible, by induction on one that would be
  have unreachable : ∀ state, ∀ time, states time ≠ state := by
    intro state
    induction state using wellFounded.induction with
    | _ state ih =>
        rintro time rfl
        exact ih _ (falls time) (time + 1) rfl
  exact unreachable _ 0 rfl

def NeverStuck (step : State → Event → Option State) (invariant final : State → Prop) : Prop :=
  ∀ state, invariant state → ¬ final state → ∃ event next, step state event = some next

theorem run_completes {final : State → Prop} (descends : Descends step invariant below)
    (wellFounded : WellFounded below) (neverStuck : NeverStuck step invariant final)
    {state : State} (initial : invariant state) :
    ∃ events last, run step state events = some last ∧ final last := by
  induction state using wellFounded.induction with
  | _ state ih =>
      by_cases done : final state
      · exact ⟨[], state, rfl, done⟩
      · obtain ⟨event, next, stepped⟩ := neverStuck state initial done
        obtain ⟨keeps, lower⟩ := descends state event next initial stepped
        obtain ⟨events, last, ran, reached⟩ := ih next lower keeps
        exact ⟨event :: events, last, by rw [run_cons_of_step events stepped, ran], reached⟩

def Fewer (measure : State → Nat) (next state : State) : Prop := measure next < measure state

theorem fewer_well_founded (measure : State → Nat) : WellFounded (Fewer measure) :=
  InvImage.wf measure Nat.lt_wfRel.wf

theorem run_descends {measure : State → Nat} (descends : Descends step invariant (Fewer measure))
    {state last : State} (initial : invariant state) {events : List Event}
    (ran : run step state events = some last) :
    invariant last ∧ events.length + measure last ≤ measure state := by
  induction events generalizing state with
  | nil =>
      cases ran
      exact ⟨initial, by simp⟩
  | cons event events ih =>
      obtain ⟨next, stepped, later⟩ := run_cons_eq_some ran
      obtain ⟨keeps, lower⟩ := descends state event next initial stepped
      obtain ⟨holds, bound⟩ := ih keeps later
      refine ⟨holds, ?_⟩
      rw [List.length_cons]
      unfold Fewer at lower
      omega

end Descending

section Parties

variable {Party : Type} {below : Party → Party → Prop}

/-- One party of a list has gone down, and the others are where they were. -/
inductive OneBelow (below : Party → Party → Prop) : List Party → List Party → Prop
  | here {next party : Party} {others : List Party} (lower : below next party) :
      OneBelow below (next :: others) (party :: others)
  | there {party : Party} {next others : List Party} (lower : OneBelow below next others) :
      OneBelow below (party :: next) (party :: others)

theorem one_below_set {parties : List Party} {index : Nat} {party : Party}
    (placed : parties[index]? = some party) {next : Party} (lower : below next party) :
    OneBelow below (parties.set index next) parties := by
  induction parties generalizing index with
  | nil => cases placed
  | cons first parties ih =>
      cases index with
      | zero =>
          cases placed
          exact .here lower
      | succ index => exact .there (ih placed)

theorem one_below_accessible {parties : List Party} (each : ∀ party ∈ parties, Acc below party) :
    Acc (OneBelow below) parties := by
  induction parties with
  | nil =>
      constructor
      intro next lower
      cases lower
  | cons party parties ih =>
      obtain ⟨first, rest⟩ := List.forall_mem_cons.mp each
      have others := ih rest
      clear ih rest each
      -- the first party goes down, or one of the others while the first stays
      induction first generalizing parties with
      | intro party _ ihParty =>
          induction others with
          | intro parties accessible ihParties =>
              constructor
              intro next lower
              cases lower with
              | here lower => exact ihParty _ lower _ (Acc.intro parties accessible)
              | there lower => exact ihParties _ lower

theorem one_below_well_founded (wellFounded : WellFounded below) :
    WellFounded (OneBelow below) :=
  ⟨fun _ => one_below_accessible fun party _ => wellFounded.apply party⟩

end Parties

end RestfulWebserver.Library
