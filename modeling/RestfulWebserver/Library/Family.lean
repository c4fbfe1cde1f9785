import Mathlib.Algebra.BigOperators.Group.List.Basic
import Mathlib.Algebra.Ring.Nat
import RestfulWebserver.Library.Run

/-!
# A family of machines

Members join one after another, and the events of all of them come in one
sequence. A member sees of the sequence only the events that name it, and
nothing else decides where it gets.
-/

namespace RestfulWebserver.Library

inductive FamilyEvent (Event : Type) where
  /-- A new member, numbered by those before it. -/
  | join
  | act (index : Nat) (event : Event)

section Family

variable {Member Event : Type}

def familyStep (fresh : Member) (step : Nat → Member → Event → Option Member)
    (family : List Member) : FamilyEvent Event → Option (List Member)
  | .join => some (family ++ [fresh])
  | .act index event =>
      match family[index]? with
      | none => none
      | some member => (step index member event).map (family.set index)

def eventsOf (index : Nat) : List (FamilyEvent Event) → List Event
  | [] => []
  | .join :: later => eventsOf index later
  | .act other event :: later =>
      if other = index then event :: eventsOf index later else eventsOf index later

def joins : List (FamilyEvent Event) → Nat
  | [] => 0
  | .join :: later => joins later + 1
  | .act _ _ :: later => joins later

/-- No event names a member before it has joined. -/
def Timely : Nat → List (FamilyEvent Event) → Prop
  | _, [] => True
  | present, .join :: later => Timely (present + 1) later
  | present, .act index _ :: later => index < present ∧ Timely present later

theorem events_of_append (index : Nat) (before after : List (FamilyEvent Event)) :
    eventsOf index (before ++ after) = eventsOf index before ++ eventsOf index after := by
  induction before with
  | nil => rfl
  | cons event before ih =>
      cases event with
      | join => exact ih
      | act other event =>
          simp only [List.cons_append, eventsOf, ih]
          split_ifs <;> rfl

theorem joins_append (before after : List (FamilyEvent Event)) :
    joins (before ++ after) = joins before + joins after := by
  induction before with
  | nil => simp [joins]
  | cons event before ih =>
      cases event with
      | join =>
          simp only [List.cons_append, joins, ih]
          omega
      | act index event => exact ih

section Steps

variable {fresh : Member} {step : Nat → Member → Event → Option Member}
  {family last : List Member}

theorem family_act {index : Nat} {member next : Member} {event : Event}
    (placed : family[index]? = some member) (stepped : step index member event = some next) :
    familyStep fresh step family (.act index event) = some (family.set index next) := by
  simp only [familyStep, placed, stepped, Option.map_some]

theorem family_act_some {index : Nat} {event : Event}
    (stepped : familyStep fresh step family (.act index event) = some last) :
    ∃ member next, family[index]? = some member ∧ step index member event = some next ∧
      last = family.set index next := by
  simp only [familyStep] at stepped
  split at stepped
  · cases stepped
  · rename_i member placed
    obtain ⟨next, moved, rfl⟩ := Option.map_eq_some_iff.mp stepped
    exact ⟨member, next, placed, moved, rfl⟩

/-- Where a member starts: a member that is still to join starts fresh. -/
def memberAt (fresh : Member) (family : List Member) (index : Nat) : Member :=
  family[index]?.getD fresh

theorem member_at_join (index : Nat) :
    memberAt fresh (family ++ [fresh]) index = memberAt fresh family index := by
  rcases Nat.lt_trichotomy index family.length with before | here | beyond
  · rw [memberAt, memberAt, List.getElem?_append_left before]
  · subst here
    simp [memberAt]
  · have outside : (family ++ [fresh]).length ≤ index := by
      rw [List.length_append, List.length_singleton]
      omega
    rw [memberAt, memberAt, List.getElem?_eq_none outside, List.getElem?_eq_none (Nat.le_of_lt beyond)]

theorem member_at_set_self {index : Nat} (inside : index < family.length) (member : Member) :
    memberAt fresh (family.set index member) index = member := by
  rw [memberAt, List.getElem?_set_self inside]
  rfl

theorem member_at_set_other {index other : Nat} (apart : index ≠ other) (member : Member) :
    memberAt fresh (family.set index member) other = memberAt fresh family other := by
  rw [memberAt, memberAt, List.getElem?_set_ne apart]

/-- What a sequence of events leaves of the family: each member where its own
events take it. -/
structure Composed (fresh : Member) (step : Nat → Member → Event → Option Member)
    (family : List Member) (events : List (FamilyEvent Event)) (last : List Member) : Prop where
  timely : Timely family.length events
  size : last.length = family.length + joins events
  each : ∀ index member, last[index]? = some member →
    run (step index) (memberAt fresh family index) (eventsOf index events) = some member

theorem composed_nil (family : List Member) : Composed fresh step family [] family where
  timely := trivial
  size := rfl
  each := by
    intro index member placed
    rw [memberAt, placed]
    rfl

theorem composed_join {events : List (FamilyEvent Event)} :
    Composed fresh step family (.join :: events) last ↔
      Composed fresh step (family ++ [fresh]) events last := by
  have length : (family ++ [fresh]).length = family.length + 1 := by simp
  constructor
  · rintro ⟨timely, size, each⟩
    constructor
    · rw [length]
      exact timely
    · rw [length, size, joins]
      omega
    · intro index member placed
      rw [member_at_join]
      exact each index member placed
  · rintro ⟨timely, size, each⟩
    rw [length] at timely size
    constructor
    · exact timely
    · rw [size, joins]
      omega
    · intro index member placed
      rw [← member_at_join]
      exact each index member placed

theorem composed_act {index : Nat} {member next : Member} {event : Event}
    {events : List (FamilyEvent Event)} (placed : family[index]? = some member)
    (stepped : step index member event = some next) :
    Composed fresh step family (.act index event :: events) last ↔
      Composed fresh step (family.set index next) events last := by
  obtain ⟨inside, _⟩ := List.getElem?_eq_some_iff.mp placed
  have length : (family.set index next).length = family.length := List.length_set
  have same : ∀ other, run (step other) (memberAt fresh family other)
      (eventsOf other (.act index event :: events)) =
        run (step other) (memberAt fresh (family.set index next) other) (eventsOf other events) := by
    intro other
    rw [eventsOf]
    split_ifs with names
    · subst names
      have here : memberAt fresh family index = member := by
        rw [memberAt, placed]
        rfl
      rw [here, run_cons_of_step _ stepped, member_at_set_self inside]
    · rw [member_at_set_other names]
  constructor
  · rintro ⟨timely, size, each⟩
    constructor
    · rw [length]
      exact timely.2
    · rw [length]
      exact size
    · intro other found stored
      rw [← same]
      exact each other found stored
  · rintro ⟨timely, size, each⟩
    rw [length] at timely size
    constructor
    · exact ⟨inside, timely⟩
    · exact size
    · intro other found stored
      rw [same]
      exact each other found stored

/-- A family runs exactly when each of its members runs. -/
theorem family_run_iff {events : List (FamilyEvent Event)} :
    run (familyStep fresh step) family events = some last ↔
      Composed fresh step family events last := by
  induction events generalizing family with
  | nil =>
      constructor
      · intro ran
        cases ran
        exact composed_nil last
      · rintro ⟨_, size, each⟩
        rw [run_nil]
        congr 1
        apply List.ext_getElem?
        intro index
        cases stored : last[index]? with
        | none =>
            have outside := List.getElem?_eq_none_iff.mp stored
            rw [size, joins, Nat.add_zero] at outside
            exact List.getElem?_eq_none outside
        | some member =>
            have stays := each index member stored
            obtain ⟨inside, _⟩ := List.getElem?_eq_some_iff.mp stored
            rw [size, joins, Nat.add_zero] at inside
            cases stays
            rw [memberAt, List.getElem?_eq_getElem inside]
            rfl
  | cons event events ih =>
      cases event with
      | join => rw [run_cons_of_step events rfl, ih, composed_join]
      | act index event =>
          constructor
          · intro ran
            obtain ⟨next, stepped, later⟩ := run_cons_eq_some ran
            obtain ⟨member, moved, placed, memberStepped, rfl⟩ := family_act_some stepped
            exact (composed_act placed memberStepped).mpr (ih.mp later)
          · intro composed
            have inside : index < family.length := composed.timely.1
            have stays : index < last.length := by
              rw [composed.size]
              omega
            have own := composed.each index _ (List.getElem?_eq_getElem stays)
            rw [eventsOf, if_pos rfl, memberAt, List.getElem?_eq_getElem inside,
              Option.getD_some] at own
            obtain ⟨moved, memberStepped, _⟩ := run_cons_eq_some own
            have placed := List.getElem?_eq_getElem inside
            rw [run_cons_of_step events (family_act placed memberStepped), ih]
            exact (composed_act placed memberStepped).mp composed

end Steps

end Family

theorem total_set {Member : Type} (count : Member → Nat) {family : List Member} {index : Nat}
    {member : Member} (placed : family[index]? = some member) (next : Member) :
    ((family.set index next).map count).sum + count member =
      (family.map count).sum + count next := by
  induction family generalizing index with
  | nil => cases placed
  | cons first family ih =>
      cases index with
      | zero =>
          cases placed
          simp only [List.set_cons_zero, List.map_cons, List.sum_cons]
          omega
      | succ index =>
          have onward := ih (by simpa using placed)
          simp only [List.set_cons_succ, List.map_cons, List.sum_cons]
          omega

end RestfulWebserver.Library
