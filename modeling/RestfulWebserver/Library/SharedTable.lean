import Mathlib.Data.List.Infix
import Mathlib.Logic.Function.Basic

/-!
# Tables of shared objects

A table lends out one object under each key. The object is made for the first
user of a key and dropped with the last one, and a key without users is refused.
What the operations of such a table may answer is a relation here; how objects
are made and what a refusal looks like is left open.
-/

namespace RestfulWebserver.Library

structure Shared (Object : Type) where
  object : Object
  users : Nat
  used : 0 < users

namespace Shared

variable {Object : Type}

def first (object : Object) : Shared Object := ⟨object, 1, Nat.one_pos⟩

def join (shared : Shared Object) : Shared Object :=
  ⟨shared.object, shared.users + 1, Nat.succ_pos shared.users⟩

/-- The last user takes the object along. -/
def leave (shared : Shared Object) : Option (Shared Object) :=
  if others : 0 < shared.users - 1 then some ⟨shared.object, shared.users - 1, others⟩ else none

theorem leave_users (shared : Shared Object) :
    shared.leave.elim 0 Shared.users = shared.users - 1 := by
  unfold leave
  split_ifs with others
  · rfl
  · exact (Nat.eq_zero_of_not_pos others).symm

end Shared

abbrev SharedTable (Key Object : Type) := Key → Option (Shared Object)

namespace SharedTable

variable {Key Object Error : Type}

inductive Operation (Key : Type) where
  | insert (key : Key)
  | request (key : Key)
  | erase (key : Key)
  deriving DecidableEq

def Operation.key : Operation Key → Key
  | .insert key => key
  | .request key => key
  | .erase key => key

/-- An insertion makes what is missing; the others refuse. -/
def Operation.needsKey : Operation Key → Bool
  | .insert _ => false
  | .request _ => true
  | .erase _ => true

/-- Operations with their answers, in order. A request is answered by an object. -/
abbrev History (Key Object Error : Type) := List (Operation Key × Except Error (Option Object))

def empty : SharedTable Key Object := fun _ => none

def users (table : SharedTable Key Object) (key : Key) : Nat := (table key).elim 0 Shared.users

theorem users_pos_iff {table : SharedTable Key Object} {key : Key} :
    0 < table.users key ↔ ∃ shared, table key = some shared := by
  unfold users
  cases found : table key with
  | none => simp
  | some shared => simp [shared.used]

theorem users_absent {table : SharedTable Key Object} {key : Key} (absent : table key = none) :
    table.users key = 0 := by
  rw [users, absent]
  rfl

variable [DecidableEq Key]

@[simp] theorem users_update (table : SharedTable Key Object) (key : Key)
    (entry : Option (Shared Object)) :
    users (Function.update table key entry) key = entry.elim 0 Shared.users := by
  rw [users, Function.update_self]

def successes (operation : Operation Key) (history : History Key Object Error) : Nat :=
  history.countP fun entry => decide (entry.1 = operation) && entry.2.isOk

theorem successes_append (operation : Operation Key) (before after : History Key Object Error) :
    successes operation (before ++ after) =
      successes operation before + successes operation after :=
  List.countP_append

theorem successes_le_length (operation : Operation Key) (history : History Key Object Error) :
    successes operation history ≤ history.length :=
  List.countP_le_length

theorem successes_cons (operation : Operation Key)
    (entry : Operation Key × Except Error (Option Object)) (history : History Key Object Error) :
    successes operation (entry :: history) =
      successes operation [entry] + successes operation history :=
  successes_append operation [entry] history

@[simp] theorem successes_ok (operation other : Operation Key) (value : Option Object) :
    successes operation [(other, (.ok value : Except Error (Option Object)))] =
      if other = operation then 1 else 0 := by
  simp [successes, Except.isOk, Except.toBool]

@[simp] theorem successes_error (operation other : Operation Key) (error : Error) :
    successes operation [(other, (.error error : Except Error (Option Object)))] = 0 := by
  simp [successes, Except.isOk, Except.toBool]

variable (missing : Key → Error)

inductive Step (table : SharedTable Key Object) :
    Operation Key → Except Error (Option Object) → SharedTable Key Object → Prop
  | make (key : Key) (object : Object) (absent : table key = none)
      (fresh : ∀ other shared, table other = some shared → shared.object ≠ object) :
      Step table (.insert key) (.ok none) (Function.update table key (some (.first object)))
  | join (key : Key) (shared : Shared Object) (present : table key = some shared) :
      Step table (.insert key) (.ok none) (Function.update table key (some shared.join))
  | lend (key : Key) (shared : Shared Object) (present : table key = some shared) :
      Step table (.request key) (.ok (some shared.object)) table
  | leave (key : Key) (shared : Shared Object) (present : table key = some shared) :
      Step table (.erase key) (.ok none) (Function.update table key shared.leave)
  | refuse (operation : Operation Key) (needs : operation.needsKey = true)
      (absent : table operation.key = none) :
      Step table operation (.error (missing operation.key)) table

def Leads : SharedTable Key Object → History Key Object Error → SharedTable Key Object → Prop
  | table, [], last => last = table
  | table, entry :: history, last =>
      ∃ next, Step missing table entry.1 entry.2 next ∧ Leads next history last

variable {missing}

theorem leads_append {table last : SharedTable Key Object}
    {before after : History Key Object Error} :
    Leads missing table (before ++ after) last ↔
      ∃ middle, Leads missing table before middle ∧ Leads missing middle after last := by
  induction before generalizing table with
  | nil => simp [Leads]
  | cons entry before ih =>
      simp only [List.cons_append, Leads, ih]
      constructor
      · intro ⟨next, step, middle, first, later⟩
        exact ⟨middle, ⟨next, step, first⟩, later⟩
      · intro ⟨middle, ⟨next, step, first⟩, later⟩
        exact ⟨next, step, middle, first, later⟩

/-! ## Steps -/

section Steps

variable {table next : SharedTable Key Object} {operation : Operation Key}
  {answer : Except Error (Option Object)}

theorem step_elsewhere (step : Step missing table operation answer next) {other : Key}
    (elsewhere : other ≠ operation.key) : next other = table other := by
  cases step with
  | make key object absent fresh => exact Function.update_of_ne elsewhere _ _
  | join key shared present => exact Function.update_of_ne elsewhere _ _
  | lend key shared present => rfl
  | leave key shared present => exact Function.update_of_ne elsewhere _ _
  | refuse operation needs absent => rfl

theorem step_error (step : Step missing table operation answer next) {error : Error}
    (refused : answer = .error error) :
    operation.needsKey = true ∧ table operation.key = none ∧ error = missing operation.key := by
  cases step with
  | make key object absent fresh => cases refused
  | join key shared present => cases refused
  | lend key shared present => cases refused
  | leave key shared present => cases refused
  | refuse operation needs absent =>
      cases refused
      exact ⟨needs, absent, rfl⟩

theorem step_balance (step : Step missing table operation answer next) (key : Key) :
    next.users key + successes (.erase key) [(operation, answer)] =
      table.users key + successes (.insert key) [(operation, answer)] := by
  by_cases here : key = operation.key
  · subst here
    cases step with
    | make key object absent fresh =>
        simp [Operation.key, users_absent absent, Shared.first]
    | join key shared present => simp [Operation.key, users, present, Shared.join]
    | lend key shared present => simp
    | leave key shared present =>
        have used := users_pos_iff.mpr ⟨shared, present⟩
        have held : table.users key = shared.users := by rw [users, present]; rfl
        simp only [Operation.key, users_update, Shared.leave_users, successes_ok, if_true,
          reduceCtorEq, if_false]
        omega
    | refuse operation needs absent => simp
  · have same : next.users key = table.users key := by
      rw [users, users, step_elsewhere step here]
    have notInsert : operation ≠ .insert key := fun equal => here (by rw [equal]; rfl)
    have notErase : operation ≠ .erase key := fun equal => here (by rw [equal]; rfl)
    cases answer with
    | ok value => simp [same, notInsert, notErase]
    | error error => simp [same]

theorem step_keeps_object (step : Step missing table operation answer next) {key : Key}
    {shared later : Shared Object} (before : table key = some shared)
    (after : next key = some later) : later.object = shared.object := by
  by_cases here : operation.key = key
  · subst here
    cases step with
    | make key object absent fresh => simp [Operation.key, absent] at before
    | join key found present =>
        simp only [Operation.key, present, Option.some.injEq, Function.update_self] at before after
        rw [← before, ← after]
        rfl
    | lend key found present =>
        rw [Option.some.inj (after.symm.trans before)]
    | leave key found present =>
        simp only [Operation.key, present, Option.some.injEq, Function.update_self,
          Shared.leave] at before after
        split_ifs at after
        rw [← before, ← Option.some.inj after]
    | refuse operation needs absent => simp [absent] at before
  · rw [step_elsewhere step (Ne.symm here), before] at after
    rw [Option.some.inj after]

/-- No object is lent out under two keys. -/
def Apart (table : SharedTable Key Object) : Prop :=
  ∀ key other shared found, table key = some shared → table other = some found →
    shared.object = found.object → key = other

theorem step_lends {key : Key} {shared : Shared Object}
    (step : Step missing table (.request key) answer next) (present : table key = some shared) :
    answer = .ok (some shared.object) := by
  cases step with
  | lend key found lent => rw [Option.some.inj (present.symm.trans lent)]
  | refuse operation needs absent => cases present.symm.trans absent

/-- What is lent out under a key has been before, or is made for the key. -/
theorem step_object (step : Step missing table operation answer next) {key : Key}
    {later : Shared Object} (after : next key = some later) :
    (∃ shared, table key = some shared ∧ shared.object = later.object) ∨
      key = operation.key ∧
        ∀ other shared, table other = some shared → shared.object ≠ later.object := by
  cases before : table key with
  | some shared => exact Or.inl ⟨shared, rfl, (step_keeps_object step before after).symm⟩
  | none =>
      apply Or.inr
      have here : key = operation.key := by
        by_contra elsewhere
        rw [step_elsewhere step elsewhere, before] at after
        cases after
      rw [here] at before after
      apply And.intro here
      cases step with
      | make made object absent fresh =>
          rw [Operation.key, Function.update_self] at after
          rw [← Option.some.inj after]
          exact fresh
      | join made shared present => cases before.symm.trans present
      | lend made shared present => cases before.symm.trans present
      | leave made shared present => cases before.symm.trans present
      | refuse operation needs absent => cases before.symm.trans after

omit [DecidableEq Key] in
theorem empty_apart : (empty : SharedTable Key Object).Apart := by
  intro key other shared found lent
  cases lent

theorem step_apart (step : Step missing table operation answer next) (apart : table.Apart) :
    next.Apart := by
  intro key other shared found lent lentOther same
  rcases step_object step lent with ⟨old, was, object⟩ | ⟨here, fresh⟩
  · rcases step_object step lentOther with ⟨oldOther, wasOther, objectOther⟩ | ⟨_, freshOther⟩
    · exact apart key other old oldOther was wasOther ((object.trans same).trans objectOther.symm)
    · exact absurd (object.trans same) (freshOther key old was)
  · rcases step_object step lentOther with ⟨oldOther, wasOther, objectOther⟩ | ⟨hereOther, _⟩
    · exact absurd (objectOther.trans same.symm) (fresh other oldOther wasOther)
    · exact here.trans hereOther.symm

end Steps

/-! ## Histories -/

section Histories

variable {table last : SharedTable Key Object} {history : History Key Object Error}

theorem leads_balance (leads : Leads missing table history last) (key : Key) :
    last.users key + successes (.erase key) history =
      table.users key + successes (.insert key) history := by
  induction history generalizing table with
  | nil =>
      have same : last = table := leads
      rw [same]
      rfl
  | cons entry history ih =>
      obtain ⟨operation, answer⟩ := entry
      obtain ⟨next, (step : Step missing table operation answer next), later⟩ := leads
      have balanced := step_balance step key
      have balancedLater := ih later
      rw [successes_cons, successes_cons (.insert key)]
      omega

theorem leads_apart (leads : Leads missing table history last) (apart : table.Apart) :
    last.Apart := by
  induction history generalizing table with
  | nil =>
      have same : last = table := leads
      rwa [same]
  | cons entry history ih =>
      obtain ⟨next, step, later⟩ := leads
      exact ih later (step_apart step apart)

/-- While a key is lent out every request for it is answered by the same object. -/
theorem leads_same_object (leads : Leads missing table history last) {key : Key}
    {shared : Shared Object} (lent : table key = some shared)
    (stays : ∀ early middle, early <+: history → Leads missing table early middle →
      ∃ later, middle key = some later) :
    ∀ answer, (.request key, answer) ∈ history → answer = .ok (some shared.object) := by
  induction history generalizing table shared with
  | nil =>
      intro answer member
      cases member
  | cons entry history ih =>
      obtain ⟨next, step, later⟩ := leads
      have front : Leads missing table [entry] next := ⟨next, step, rfl⟩
      obtain ⟨after, still⟩ := stays [entry] next (List.prefix_append [entry] history) front
      have same := step_keeps_object step lent still
      have staysLater : ∀ early middle, early <+: history → Leads missing next early middle →
          ∃ later, middle key = some later := by
        intro early middle starts reached
        exact stays (entry :: early) middle (List.prefix_cons_inj entry |>.mpr starts)
          ⟨next, step, reached⟩
      intro answer member
      rcases List.mem_cons.mp member with here | there
      · subst here
        exact step_lends step lent
      · rw [← same]
        exact ih later still staysLater answer there

theorem users_of_history (leads : Leads missing empty history table) (key : Key) :
    table.users key + successes (.erase key) history = successes (.insert key) history := by
  have balanced := leads_balance leads key
  have none : (empty : SharedTable Key Object).users key = 0 := rfl
  omega

/-- The object stays from any point on after which the key always has a user left. -/
theorem same_object_of_history {before during after : History Key Object Error}
    (leads : Leads missing empty (before ++ during ++ after) table) {key : Key}
    (stays : ∀ early, early <+: during →
      successes (.erase key) (before ++ early) < successes (.insert key) (before ++ early)) :
    ∃ object, ∀ answer, (.request key, answer) ∈ during → answer = .ok (some object) := by
  obtain ⟨reached, whole, _⟩ := leads_append.mp leads
  obtain ⟨middle, first, later⟩ := leads_append.mp whole
  have used : ∀ early reached, early <+: during → Leads missing middle early reached →
      ∃ shared, reached key = some shared := by
    intro early reached starts onward
    have balanced := users_of_history (leads_append.mpr ⟨middle, first, onward⟩) key
    have more := stays early starts
    apply users_pos_iff.mp
    omega
  obtain ⟨shared, lent⟩ := used [] middle (List.nil_prefix) rfl
  exact ⟨shared.object, leads_same_object later lent used⟩

end Histories

end SharedTable

end RestfulWebserver.Library
