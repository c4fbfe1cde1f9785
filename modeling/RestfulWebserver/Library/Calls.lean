import Mathlib.Control.Basic

/-!
# Programs that call their environment

A program is what it does between calls; what the environment answers is left
open. The same program can be asked which calls it may make, be run against an
environment in one go, or be taken one call at a time among others.
-/

namespace RestfulWebserver.Library

inductive Program (Call : Type) (Answer : Call → Type) (Result : Type) where
  | done (result : Result)
  | ask (call : Call) (next : Answer call → Program Call Answer Result)

namespace Program

variable {Call : Type} {Answer : Call → Type} {Result Other : Type}

def bind : Program Call Answer Result → (Result → Program Call Answer Other) →
    Program Call Answer Other
  | .done result, onward => onward result
  | .ask call next, onward => .ask call fun answer => (next answer).bind onward

instance : Monad (Program Call Answer) where
  pure := .done
  bind := .bind

instance : LawfulMonad (Program Call Answer) := LawfulMonad.mk' _
  (fun program => by
    induction program with
    | done result => rfl
    | ask call next ih => exact congrArg (Program.ask call) (funext ih))
  (fun result onward => rfl)
  (fun program onward later => by
    induction program with
    | done result => rfl
    | ask call next ih => exact congrArg (Program.ask call) (funext ih))

/-! ## The calls a program may make -/

def AllCalls (allowed : Call → Prop) : Program Call Answer Result → Prop
  | .done _ => True
  | .ask call next => allowed call ∧ ∀ answer, AllCalls allowed (next answer)

section AllCalls

variable {allowed : Call → Prop}

theorem all_calls_bind {program : Program Call Answer Result}
    {onward : Result → Program Call Answer Other} (first : AllCalls allowed program)
    (later : ∀ result, AllCalls allowed (onward result)) :
    AllCalls allowed (program >>= onward) := by
  induction program with
  | done result => exact later result
  | ask call next ih => exact ⟨first.1, fun answer => ih answer (first.2 answer)⟩

theorem all_calls_any (every : ∀ call, allowed call) {program : Program Call Answer Result} :
    AllCalls allowed program := by
  induction program with
  | done result => trivial
  | ask call next ih => exact ⟨every call, ih⟩

theorem all_calls_of_bind {program : Program Call Answer Result}
    {onward : Result → Program Call Answer Other}
    (both : AllCalls allowed (program >>= onward)) : AllCalls allowed program := by
  induction program with
  | done result => trivial
  | ask call next ih => exact ⟨both.1, fun answer => ih answer (both.2 answer)⟩

end AllCalls

/-! ## The results a program may have -/

inductive Returns : Program Call Answer Result → Result → Prop
  | done (result : Result) : Returns (.done result) result
  | ask {call : Call} {next : Answer call → Program Call Answer Result} (answer : Answer call)
      {result : Result} (later : Returns (next answer) result) : Returns (.ask call next) result

theorem returns_bind {program : Program Call Answer Result}
    {onward : Result → Program Call Answer Other} {other : Other}
    (returns : Returns (program >>= onward) other) :
    ∃ result, Returns program result ∧ Returns (onward result) other := by
  induction program with
  | done result => exact ⟨result, .done result, returns⟩
  | ask call next ih =>
      cases returns with
      | ask answer later =>
          obtain ⟨result, first, rest⟩ := ih answer later
          exact ⟨result, .ask answer first, rest⟩

section Throwing

variable {Error : Type} {good : Result → Prop}

def AllValues (good : Result → Prop) (program : ExceptT Error (Program Call Answer) Result) :
    Prop :=
  ∀ value, Returns program.run (.ok value) → good value

theorem all_values_pure {value : Result} (isGood : good value) :
    AllValues good (pure value : ExceptT Error (Program Call Answer) Result) := by
  intro other returns
  cases returns
  exact isGood

theorem all_values_throw (error : Error) :
    AllValues good (throw error : ExceptT Error (Program Call Answer) Result) := by
  intro other returns
  cases returns

theorem all_values_bind {First : Type} {program : ExceptT Error (Program Call Answer) First}
    {onward : First → ExceptT Error (Program Call Answer) Result}
    (later : ∀ value, AllValues good (onward value)) : AllValues good (program >>= onward) := by
  intro other returns
  obtain ⟨result, _, rest⟩ := @returns_bind _ _ _ _ program.run _ _ returns
  cases result with
  | error error => cases rest
  | ok value => exact later value other rest

theorem all_values_lift {program : Program Call Answer Result}
    (all : ∀ value, Returns program value → good value) :
    AllValues good (ExceptT.lift program : ExceptT Error (Program Call Answer) Result) := by
  intro value returns
  have mapped : Returns (program >>= fun result =>
      (.done (.ok result) : Program Call Answer (Except Error Result))) (.ok value) := returns
  obtain ⟨result, first, same⟩ := returns_bind mapped
  cases same
  exact all value first

end Throwing

/-! ## Runs -/

section Runs

variable {World : Type} (perform : (call : Call) → World → Answer call × World)

def exec : Program Call Answer Result → World → Result × World
  | .done result, world => (result, world)
  | .ask call next, world => exec (next (perform call world).1) (perform call world).2

theorem exec_bind (program : Program Call Answer Result)
    (onward : Result → Program Call Answer Other) (world : World) :
    exec perform (program >>= onward) world =
      exec perform (onward (exec perform program world).1) (exec perform program world).2 := by
  induction program generalizing world with
  | done result => rfl
  | ask call next ih => exact ih _ _

/-- What every allowed call keeps holds when a program that makes no others has run. -/
theorem exec_keeps {perform : (call : Call) → World → Answer call × World}
    {allowed : Call → Prop} {invariant : World → Prop}
    (preserved : ∀ call world, allowed call → invariant world → invariant (perform call world).2)
    {program : Program Call Answer Result} (calls : AllCalls allowed program) {world : World}
    (start : invariant world) : invariant (exec perform program world).2 := by
  induction program generalizing world with
  | done result => exact start
  | ask call next ih => exact ih _ (calls.2 _) (preserved call world calls.1 start)

theorem exec_invariant {perform : (call : Call) → World → Answer call × World}
    {invariant : World → Prop}
    (preserved : ∀ call world, invariant world → invariant (perform call world).2)
    (program : Program Call Answer Result) {world : World} (start : invariant world) :
    invariant (exec perform program world).2 :=
  exec_keeps (fun call world _ => preserved call world) (all_calls_any fun _ => trivial) start

def Answered (good : (call : Call) → Answer call → Prop) :
    Program Call Answer Result → World → Prop
  | .done _, _ => True
  | .ask call next, world =>
      good call (perform call world).1 ∧
        Answered good (next (perform call world).1) (perform call world).2

instance decidableAnswered (good : (call : Call) → Answer call → Prop)
    [answerDecidable : ∀ call answer, Decidable (good call answer)] :
    (program : Program Call Answer Result) → (world : World) →
      Decidable (Answered perform good program world)
  | .done _, _ => inferInstanceAs (Decidable True)
  | .ask call next, world =>
      haveI := decidableAnswered good (next (perform call world).1) (perform call world).2
      inferInstanceAs (Decidable (_ ∧ _))

theorem answered_bind (good : (call : Call) → Answer call → Prop)
    (program : Program Call Answer Result) (onward : Result → Program Call Answer Other)
    (world : World) :
    Answered perform good (program >>= onward) world ↔
      Answered perform good program world ∧
        Answered perform good (onward (exec perform program world).1)
          (exec perform program world).2 := by
  induction program generalizing world with
  | done result => exact (and_iff_right trivial).symm
  | ask call next ih =>
      constructor
      · intro ⟨first, rest⟩
        obtain ⟨before, after⟩ := (ih _ _).mp rest
        exact ⟨⟨first, before⟩, after⟩
      · intro ⟨⟨first, before⟩, after⟩
        exact ⟨first, (ih _ _).mpr ⟨before, after⟩⟩

/-- Run programs one after another. -/
def inTurn : List (Program Call Answer Result) → World → List Result × World
  | [], world => ([], world)
  | program :: later, world =>
      let (result, next) := exec perform program world
      let (results, last) := inTurn later next
      (result :: results, last)

theorem in_turn_snoc (programs : List (Program Call Answer Result))
    (program : Program Call Answer Result) (world : World) :
    inTurn perform (programs ++ [program]) world =
      ((inTurn perform programs world).1 ++
          [(exec perform program (inTurn perform programs world).2).1],
        (exec perform program (inTurn perform programs world).2).2) := by
  induction programs generalizing world with
  | nil => rfl
  | cons first programs ih => simp only [List.cons_append, inTurn, ih]

theorem in_turn_length (programs : List (Program Call Answer Result)) (world : World) :
    (inTurn perform programs world).1.length = programs.length := by
  induction programs generalizing world with
  | nil => rfl
  | cons program programs ih => simp only [inTurn, List.length_cons, ih]

theorem in_turn_keeps {perform : (call : Call) → World → Answer call × World}
    {allowed : Call → Prop} {invariant : World → Prop}
    (preserved : ∀ call world, allowed call → invariant world → invariant (perform call world).2)
    {programs : List (Program Call Answer Result)}
    (calls : ∀ program ∈ programs, AllCalls allowed program) {world : World}
    (start : invariant world) : invariant (inTurn perform programs world).2 := by
  induction programs generalizing world with
  | nil => exact start
  | cons program programs ih =>
      obtain ⟨first, later⟩ := List.forall_mem_cons.mp calls
      exact ih later (exec_keeps preserved first start)

theorem in_turn_invariant {perform : (call : Call) → World → Answer call × World}
    {invariant : World → Prop}
    (preserved : ∀ call world, invariant world → invariant (perform call world).2)
    (programs : List (Program Call Answer Result)) {world : World} (start : invariant world) :
    invariant (inTurn perform programs world).2 :=
  in_turn_keeps (fun call world _ => preserved call world)
    (fun _ _ => all_calls_any fun _ => trivial) start

/-- `programs` have run one after another, and `program` has come to `rest`. -/
def Taking (first : World) (programs : List (Program Call Answer Result))
    (results : List Result) (program rest : Program Call Answer Result) (world : World) : Prop :=
  ∃ before, inTurn perform programs first = (results, before) ∧
    exec perform program before = exec perform rest world

theorem taking_call {perform : (call : Call) → World → Answer call × World} {first world : World}
    {programs : List (Program Call Answer Result)} {results : List Result}
    {program : Program Call Answer Result} {call : Call}
    {next : Answer call → Program Call Answer Result}
    (taking : Taking perform first programs results program (.ask call next) world) :
    Taking perform first programs results program (next (perform call world).1)
      (perform call world).2 := taking

theorem taking_done {perform : (call : Call) → World → Answer call × World} {first world : World}
    {programs : List (Program Call Answer Result)} {results : List Result} {result : Result}
    {program : Program Call Answer Result}
    (taking : Taking perform first programs results program (.done result) world) :
    inTurn perform (programs ++ [program]) first = (results ++ [result], world) := by
  obtain ⟨before, taken, last⟩ := taking
  rw [in_turn_snoc, taken, last]
  rfl

/-- Programs that all end alike and change nothing. -/
theorem in_turn_constant {programs : List (Program Call Answer Result)} {result : Result}
    {world : World}
    (constant : ∀ program ∈ programs, exec perform program world = (result, world)) :
    inTurn perform programs world = (programs.map fun _ => result, world) := by
  induction programs with
  | nil => rfl
  | cons first programs ih =>
      have later := ih fun program member => constant program (List.mem_cons_of_mem _ member)
      simp only [inTurn, constant first List.mem_cons_self, later, List.map_cons]

end Runs

/-! ## Programs that follow another machine -/

section Following

variable {World State Event : Type} {perform : (call : Call) → World → Answer call × World}

/-- Labelled steps one after another. -/
inductive Steps {Label : Type} (step : State → Label → State → Prop) :
    State → List Label → State → Prop
  | done (state : State) : Steps step state [] state
  | next {state middle last : State} {label : Label} {labels : List Label}
      (first : step state label middle) (rest : Steps step middle labels last) :
      Steps step state (label :: labels) last

theorem steps_append {Label : Type} {step : State → Label → State → Prop} {state last : State}
    {early late : List Label} (steps : Steps step state (early ++ late) last) :
    ∃ middle, Steps step state early middle ∧ Steps step middle late last := by
  induction early generalizing state with
  | nil => exact ⟨state, Steps.done state, steps⟩
  | cons label early ih =>
      cases steps with
      | next first rest =>
          obtain ⟨middle, before, behind⟩ := ih rest
          exact ⟨middle, Steps.next first before, behind⟩

/-- If each program follows a step from related states to related states, so do
programs run one after another, each with its result. -/
theorem in_turn_follows {program : Event → Program Call Answer Result}
    {related : World → State → Prop} {step : State → Event × Result → State → Prop}
    (follows : ∀ event world state, related world state → ∃ after,
      step state (event, (exec perform (program event) world).1) after ∧
        related (exec perform (program event) world).2 after)
    (events : List Event) {world : World} {state : State} (start : related world state) :
    ∃ last,
      Steps step state (events.zip (inTurn perform (events.map program) world).1) last ∧
        related (inTurn perform (events.map program) world).2 last := by
  induction events generalizing world state with
  | nil => exact ⟨state, Steps.done state, start⟩
  | cons event events ih =>
      obtain ⟨middle, first, stillRelated⟩ := follows event world state start
      obtain ⟨last, rest, ends⟩ := ih stillRelated
      exact ⟨last, Steps.next first rest, ends⟩

end Following

end Program

end RestfulWebserver.Library
