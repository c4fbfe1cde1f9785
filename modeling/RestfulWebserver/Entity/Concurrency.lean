import RestfulWebserver.Entity.EntityHandler
import RestfulWebserver.Entity.MutexPool
import RestfulWebserver.Library.Run

/-!
# Requests on one root

A session builds a handler for each request and destroys it with the answer.
Sessions run side by side, so any number of handlers of one root may be at any
of their steps. An operation of the pool is one step, and so is a call to the
file system; a handler that waits for a held mutex has no step.
-/

namespace RestfulWebserver.Entity

open RestfulWebserver.Library RestfulWebserver.Http

inductive Phase where
  | constructed
  /-- `RealFilesystem` is made and its root created. -/
  | ready
  | waiting (mutex : Nat)
  /-- Between lock and unlock, with what is left to do. -/
  | running (mutex : Nat) (rest : Program FileCall FileCall.Answer HttpResponse)
  /-- `handle_request` has returned or thrown. -/
  | answered (outcome : Except Thrown HttpResponse)
  | destroyed (outcome : Except Thrown HttpResponse)
  /-- An operation of the pool threw. -/
  | failed (thrown : PoolError Bytes)

def Phase.alive : Phase → Bool
  | .destroyed _ => false
  | .failed _ => false
  | _ => true

def Phase.outcome? : Phase → Option (Except Thrown HttpResponse)
  | .answered outcome => some outcome
  | .destroyed outcome => some outcome
  | _ => none

structure Handler where
  request : HttpRequest
  phase : Phase

structure State (Disk : Type) where
  pool : MutexPool Bytes
  holder : Nat → Option Nat
  disk : Disk
  /-- The handlers in the order of their construction. -/
  handlers : List Handler
  /-- The handlers that have taken the lock, in the order they took it. -/
  order : List Nat

/-- The events of a handler name it by its place in the order of construction. -/
inductive Event where
  | construct (request : HttpRequest)
  | create (index : Nat)
  | request (index : Nat)
  | lock (index : Nat)
  | call (index : Nat)
  | unlock (index : Nat)
  | destroy (index : Nat)

section Steps

variable {Disk : Type}

def start (disk : Disk) : State Disk := ⟨MutexPool.empty, fun _ => none, disk, [], []⟩

def State.place (state : State Disk) (index : Nat) (request : HttpRequest) (phase : Phase) :
    State Disk :=
  { state with handlers := state.handlers.set index ⟨request, phase⟩ }

def Phase.afterCreate : Except Thrown Unit → Phase
  | .ok () => .ready
  | .error thrown => .answered (.error thrown)

variable (perform : (call : FileCall) → Disk → call.Answer × Disk) (baseDir : Bytes)

def createRoot (disk : Disk) : Except Thrown Unit × Disk :=
  Program.exec perform (RealFilesystem.create baseDir).run disk

def step (state : State Disk) : Event → Option (State Disk)
  | .construct request =>
      match state.pool.insert baseDir with
      | .ok pool =>
          some { state with pool, handlers := state.handlers ++ [⟨request, .constructed⟩] }
      | .error thrown =>
          some { state with handlers := state.handlers ++ [⟨request, .failed thrown⟩] }
  | .create index =>
      match state.handlers[index]? with
      | some ⟨request, .constructed⟩ =>
          let (created, disk) := createRoot perform baseDir state.disk
          some ({ state with disk }.place index request (.afterCreate created))
      | _ => none
  | .request index =>
      match state.handlers[index]? with
      | some ⟨request, .ready⟩ =>
          match state.pool.request baseDir with
          | .ok mutex => some (state.place index request (.waiting mutex))
          | .error thrown => some (state.place index request (.failed thrown))
      | _ => none
  | .lock index =>
      match state.handlers[index]? with
      | some ⟨request, .waiting mutex⟩ =>
          if state.holder mutex = none then
            some ({ state with
              holder := Function.update state.holder mutex (some index)
              order := state.order ++ [index] }.place index request
                (.running mutex (EntityHandler.locked baseDir request)))
          else none
      | _ => none
  | .call index =>
      match state.handlers[index]? with
      | some ⟨request, .running mutex (.ask call next)⟩ =>
          let (answer, disk) := perform call state.disk
          some ({ state with disk }.place index request (.running mutex (next answer)))
      | _ => none
  | .unlock index =>
      match state.handlers[index]? with
      | some ⟨request, .running mutex (.done response)⟩ =>
          some ({ state with holder := Function.update state.holder mutex none }.place index
            request (.answered (.ok response)))
      | _ => none
  | .destroy index =>
      match state.handlers[index]? with
      | some ⟨request, .answered outcome⟩ =>
          if baseDir ≠ [] then
            match state.pool.erase baseDir with
            | .ok pool => some ({ state with pool }.place index request (.destroyed outcome))
            | .error thrown => some (state.place index request (.failed thrown))
          else some (state.place index request (.destroyed outcome))
      | _ => none

inductive Move (state : State Disk) : Event → State Disk → Prop
  | construct (request : HttpRequest) (pool : MutexPool Bytes)
      (inserted : state.pool.insert baseDir = .ok pool) :
      Move state (.construct request)
        { state with pool, handlers := state.handlers ++ [⟨request, .constructed⟩] }
  | create (index : Nat) (request : HttpRequest)
      (placed : state.handlers[index]? = some ⟨request, .constructed⟩) :
      Move state (.create index)
        ({ state with disk := (createRoot perform baseDir state.disk).2 }.place index request
          (.afterCreate (createRoot perform baseDir state.disk).1))
  | request (index : Nat) (request : HttpRequest) (mutex : Nat)
      (placed : state.handlers[index]? = some ⟨request, .ready⟩)
      (stored : state.pool.mutexPool.find? baseDir = some mutex) :
      Move state (.request index) (state.place index request (.waiting mutex))
  | lock (index : Nat) (request : HttpRequest) (mutex : Nat)
      (placed : state.handlers[index]? = some ⟨request, .waiting mutex⟩)
      (free : state.holder mutex = none) :
      Move state (.lock index)
        ({ state with
          holder := Function.update state.holder mutex (some index)
          order := state.order ++ [index] }.place index request
            (.running mutex (EntityHandler.locked baseDir request)))
  | call (index : Nat) (request : HttpRequest) (mutex : Nat) (call : FileCall)
      (next : call.Answer → Program FileCall FileCall.Answer HttpResponse)
      (placed : state.handlers[index]? = some ⟨request, .running mutex (.ask call next)⟩) :
      Move state (.call index)
        ({ state with disk := (perform call state.disk).2 }.place index request
          (.running mutex (next (perform call state.disk).1)))
  | unlock (index : Nat) (request : HttpRequest) (mutex : Nat) (response : HttpResponse)
      (placed : state.handlers[index]? = some ⟨request, .running mutex (.done response)⟩) :
      Move state (.unlock index)
        ({ state with holder := Function.update state.holder mutex none }.place index request
          (.answered (.ok response)))
  | destroy (index : Nat) (request : HttpRequest) (outcome : Except Thrown HttpResponse)
      (pool : MutexPool Bytes)
      (placed : state.handlers[index]? = some ⟨request, .answered outcome⟩)
      (erased : state.pool.erase baseDir = .ok pool) :
      Move state (.destroy index) ({ state with pool }.place index request (.destroyed outcome))

end Steps

/-! ## What the pool, the mutexes and the handlers know of each other -/

def Phase.Uses (stored : Option Nat) : Phase → Prop
  | .waiting mutex => stored = some mutex
  | .running mutex _ => stored = some mutex
  | .failed _ => False
  | _ => True

def Phase.Outside : Phase → Prop
  | .running _ _ => False
  | _ => True

def users (handlers : List Handler) : Nat := handlers.countP fun handler => handler.phase.alive

def Held (holder : Nat → Option Nat) (handlers : List Handler) : Prop :=
  ∀ mutex index, holder mutex = some index ↔
    ∃ request rest, handlers[index]? = some ⟨request, .running mutex rest⟩

structure Coherent {Disk : Type} (baseDir : Bytes) (state : State Disk) : Prop where
  tracked : state.pool.Tracks baseDir (users state.handlers)
  uses : ∀ handler ∈ state.handlers, handler.phase.Uses (state.pool.mutexPool.find? baseDir)
  held : Held state.holder state.handlers

section Handlers

variable {handlers : List Handler} {index : Nat} {old : Handler}

theorem handler_after_set (placed : handlers[index]? = some old) (new : Handler) (other : Nat) :
    (handlers.set index new)[other]? = if index = other then some new else handlers[other]? := by
  obtain ⟨inside, _⟩ := List.getElem?_eq_some_iff.mp placed
  rw [List.getElem?_set]
  by_cases same : index = other
  · subst same
    simp [inside]
  · simp [same]

theorem users_set (placed : handlers[index]? = some old) (new : Handler) :
    users (handlers.set index new) + (if old.phase.alive then 1 else 0) =
      users handlers + (if new.phase.alive then 1 else 0) := by
  obtain ⟨inside, found⟩ := List.getElem?_eq_some_iff.mp placed
  have counted : (if old.phase.alive then 1 else 0) ≤ users handlers := by
    split_ifs with alive
    · exact List.countP_pos_iff.mpr ⟨old, List.mem_of_getElem? placed, alive⟩
    · exact Nat.zero_le _
  simp only [users, List.countP_set inside, found] at counted ⊢
  omega

theorem users_pos (placed : handlers[index]? = some old) (alive : old.phase.alive = true) :
    0 < users handlers :=
  List.countP_pos_iff.mpr ⟨old, List.mem_of_getElem? placed, alive⟩

/-- The pool may only store another mutex when no handler is alive. -/
theorem uses_of_same_mutex {stored later : Option Nat}
    (uses : ∀ handler ∈ handlers, handler.phase.Uses stored)
    (same : 0 < users handlers → later = stored) :
    ∀ handler ∈ handlers, handler.phase.Uses later := by
  intro handler member
  have before := uses handler member
  by_cases used : 0 < users handlers
  · rw [same used]
    exact before
  · have dead : handler.phase.alive = false := by
      by_contra alive
      exact used (List.countP_pos_iff.mpr ⟨handler, member, by simpa using alive⟩)
    cases phase : handler.phase with
    | destroyed outcome => trivial
    | failed thrown => rw [phase] at before; exact before.elim
    | _ => rw [phase] at dead; cases dead

theorem uses_set {stored : Option Nat} {new : Handler}
    (uses : ∀ handler ∈ handlers, handler.phase.Uses stored) (fits : new.phase.Uses stored) :
    ∀ handler ∈ handlers.set index new, handler.phase.Uses stored := by
  intro handler member
  rcases List.mem_or_eq_of_mem_set member with kept | rfl
  · exact uses handler kept
  · exact fits

theorem held_set {holder later : Nat → Option Nat} (held : Held holder handlers)
    (placed : handlers[index]? = some old) {new : Handler}
    (own : ∀ mutex, later mutex = some index ↔ ∃ rest, new.phase = .running mutex rest)
    (others : ∀ mutex other, index ≠ other →
      (later mutex = some other ↔ holder mutex = some other)) :
    Held later (handlers.set index new) := by
  intro mutex other
  rw [handler_after_set placed]
  by_cases same : index = other
  · subst same
    rw [if_pos rfl, own mutex]
    obtain ⟨request, phase⟩ := new
    simp
  · rw [if_neg same, others mutex other same]
    exact held mutex other

theorem not_holding {holder : Nat → Option Nat} (held : Held holder handlers)
    (placed : handlers[index]? = some old) (outside : old.phase.Outside) (mutex : Nat) :
    holder mutex ≠ some index := by
  intro holds
  obtain ⟨request, rest, running⟩ := (held mutex index).mp holds
  cases placed.symm.trans running
  exact outside

theorem held_set_idle {holder : Nat → Option Nat} (held : Held holder handlers)
    (placed : handlers[index]? = some old) {new : Handler}
    (outside : old.phase.Outside) (stays : new.phase.Outside) :
    Held holder (handlers.set index new) := by
  apply held_set held placed
  · intro mutex
    constructor
    · intro holds
      exact absurd holds (not_holding held placed outside mutex)
    · rintro ⟨rest, running⟩
      rw [running] at stays
      exact stays.elim
  · intro mutex other _
    rfl

theorem held_set_lock {holder : Nat → Option Nat} (held : Held holder handlers)
    (placed : handlers[index]? = some old) (outside : old.phase.Outside) {mutex : Nat} (free : holder mutex = none) {request : HttpRequest}
    {rest : Program FileCall FileCall.Answer HttpResponse} :
    Held (Function.update holder mutex (some index))
      (handlers.set index ⟨request, .running mutex rest⟩) := by
  apply held_set held placed
  · intro other
    by_cases same : other = mutex
    · subst same
      simp
    · simp [same, not_holding held placed outside, Ne.symm same]
  · intro other third apart
    by_cases same : other = mutex
    · subst same
      simp [free, apart]
    · simp [same]

theorem held_set_unlock {holder : Nat → Option Nat} (held : Held holder handlers) {mutex : Nat}
    {request : HttpRequest} {rest : Program FileCall FileCall.Answer HttpResponse}
    (placed : handlers[index]? = some ⟨request, .running mutex rest⟩) {new : Handler}
    (stays : new.phase.Outside) :
    Held (Function.update holder mutex none) (handlers.set index new) := by
  have holds := (held mutex index).mpr ⟨request, rest, placed⟩
  apply held_set held placed
  · intro other
    have idle : ¬ ∃ rest, new.phase = .running other rest := by
      rintro ⟨program, running⟩
      rw [running] at stays
      exact stays
    by_cases same : other = mutex
    · subst same
      simp [idle]
    · have apart : holder other ≠ some index := by
        intro holdsOther
        obtain ⟨_, _, running⟩ := (held other index).mp holdsOther
        cases placed.symm.trans running
        exact same rfl
      simp [same, apart, idle]
  · intro other third apart
    by_cases same : other = mutex
    · subst same
      simp [holds, apart]
    · simp [same]

theorem held_append {holder : Nat → Option Nat} (held : Held holder handlers) (new : Handler)
    (stays : new.phase.Outside) : Held holder (handlers ++ [new]) := by
  intro mutex other
  rw [held mutex other]
  constructor
  · rintro ⟨request, rest, running⟩
    obtain ⟨inside, _⟩ := List.getElem?_eq_some_iff.mp running
    exact ⟨request, rest, by rw [List.getElem?_append_left inside, running]⟩
  · rintro ⟨request, rest, running⟩
    rcases Nat.lt_or_ge other handlers.length with inside | beyond
    · exact ⟨request, rest, by rwa [List.getElem?_append_left inside] at running⟩
    · rw [List.getElem?_append_right beyond] at running
      have last := List.mem_of_getElem? running
      rw [List.mem_singleton] at last
      rw [← last] at stays
      exact stays.elim

end Handlers

section Coherence

variable {Disk : Type} {perform : (call : FileCall) → Disk → call.Answer × Disk}
  {baseDir : Bytes} {state next : State Disk} {event : Event}

/-- While the pool counts its users, none of its operations throws. -/
theorem move_of_step (nonempty : baseDir ≠ []) (coherent : Coherent baseDir state)
    (stepped : step perform baseDir state event = some next) :
    Move perform baseDir state event next := by
  cases event with
  | construct request =>
      obtain ⟨pool, inserted, _⟩ := MutexPool.insert_tracks coherent.tracked
      simp only [step, inserted, Option.some.injEq] at stepped
      subst stepped
      exact .construct request pool inserted
  | create index =>
      simp only [step] at stepped
      split at stepped
      · rename_i request placed
        cases stepped
        exact .create index request placed
      · cases stepped
  | request index =>
      simp only [step] at stepped
      split at stepped
      · rename_i request placed
        obtain ⟨mutex, requested, stored⟩ :=
          MutexPool.request_tracks coherent.tracked (users_pos placed rfl)
        simp only [requested, Option.some.injEq] at stepped
        subst stepped
        exact .request index request mutex placed stored
      · cases stepped
  | lock index =>
      simp only [step] at stepped
      split at stepped
      · rename_i request mutex placed
        split_ifs at stepped with free
        cases stepped
        exact .lock index request mutex placed free
      · cases stepped
  | call index =>
      simp only [step] at stepped
      split at stepped
      · rename_i request mutex call next placed
        cases stepped
        exact .call index request mutex call next placed
      · cases stepped
  | unlock index =>
      simp only [step] at stepped
      split at stepped
      · rename_i request mutex response placed
        cases stepped
        exact .unlock index request mutex response placed
      · cases stepped
  | destroy index =>
      simp only [step, if_pos nonempty] at stepped
      split at stepped
      · rename_i request outcome placed
        have positive : 0 < users state.handlers := users_pos placed rfl
        have tracked := coherent.tracked
        rw [← Nat.sub_add_cancel positive] at tracked
        obtain ⟨pool, erased, _⟩ := MutexPool.erase_tracks tracked
        simp only [erased, Option.some.injEq] at stepped
        subst stepped
        exact .destroy index request outcome pool placed erased
      · cases stepped

theorem coherent_place (coherent : Coherent baseDir state) {index : Nat} {old new : Handler}
    (placed : state.handlers[index]? = some old) (before : old.phase.alive = true)
    (after : new.phase.alive = true)
    (fits : new.phase.Uses (state.pool.mutexPool.find? baseDir)) {holder : Nat → Option Nat}
    (held : Held holder (state.handlers.set index new)) (disk : Disk) (order : List Nat) :
    Coherent baseDir ⟨state.pool, holder, disk, state.handlers.set index new, order⟩ where
  tracked := by
    have counted := users_set placed new
    rw [if_pos before, if_pos after] at counted
    rw [Nat.add_right_cancel counted]
    exact coherent.tracked
  uses := uses_set coherent.uses fits
  held := held

theorem coherent_move (coherent : Coherent baseDir state)
    (move : Move perform baseDir state event next) : Coherent baseDir next := by
  have held := coherent.held
  cases move with
  | construct request pool inserted =>
      obtain ⟨_, inserted', tracked, same⟩ := MutexPool.insert_tracks coherent.tracked
      cases inserted.symm.trans inserted'
      refine ⟨?_, ?_, held_append held _ trivial⟩
      · simpa [users, Phase.alive] using tracked
      · intro handler member
        rcases List.mem_append.mp member with old | new
        · exact uses_of_same_mutex coherent.uses same handler old
        · rw [List.mem_singleton.mp new]
          trivial
  | create index request placed =>
      generalize createRoot perform baseDir state.disk = created
      obtain ⟨outcome, disk⟩ := created
      have stays : (Phase.afterCreate outcome).Outside := by
        cases outcome <;> trivial
      apply coherent_place coherent placed rfl
      · cases outcome <;> rfl
      · cases outcome <;> trivial
      · exact held_set_idle held placed trivial stays
  | request index request mutex placed stored =>
      apply coherent_place coherent placed rfl
      · rfl
      · exact stored
      · exact held_set_idle held placed trivial trivial
  | lock index request mutex placed free =>
      have stored := coherent.uses _ (List.mem_of_getElem? placed)
      apply coherent_place coherent placed rfl
      · rfl
      · exact stored
      · exact held_set_lock held placed trivial free
  | call index request mutex call onward placed =>
      have stored := coherent.uses _ (List.mem_of_getElem? placed)
      apply coherent_place coherent placed rfl
      · rfl
      · exact stored
      · apply held_set held placed
        · intro other
          rw [held other index, placed]
          simp
        · intro other third _
          rfl
  | unlock index request mutex response placed =>
      apply coherent_place coherent placed rfl
      · rfl
      · trivial
      · exact held_set_unlock held placed trivial
  | destroy index request outcome pool placed erased =>
      have counted := users_set placed ⟨request, .destroyed outcome⟩
      have fewer : users state.handlers =
          users (state.handlers.set index ⟨request, .destroyed outcome⟩) + 1 := counted.symm
      have tracked := coherent.tracked
      rw [fewer] at tracked
      obtain ⟨_, erased', tracked', same⟩ := MutexPool.erase_tracks tracked
      cases erased.symm.trans erased'
      refine ⟨tracked', ?_, held_set_idle held placed trivial trivial⟩
      exact uses_of_same_mutex (uses_set coherent.uses trivial) same

theorem coherent_start (disk : Disk) : Coherent baseDir (start disk) where
  tracked := MutexPool.empty_tracks
  uses := by simp [start]
  held := by simp [Held, start]

theorem coherent_run (nonempty : baseDir ≠ []) {disk : Disk} {events : List Event}
    (ran : run (step perform baseDir) (start disk) events = some state) :
    Coherent baseDir state := by
  apply invariant_of_run (coherent_start disk) _ ran
  intro state event next coherent stepped
  exact coherent_move coherent (move_of_step nonempty coherent stepped)

def State.Inside (state : State Disk) (index : Nat) : Prop :=
  ∃ request mutex rest, state.handlers[index]? = some ⟨request, .running mutex rest⟩

theorem one_inside (coherent : Coherent baseDir state) {first second : Nat}
    (firstInside : state.Inside first) (secondInside : state.Inside second) : first = second := by
  obtain ⟨_, mutex, _, running⟩ := firstInside
  obtain ⟨_, mutex', _, running'⟩ := secondInside
  have stored : _ = some mutex := coherent.uses _ (List.mem_of_getElem? running)
  have stored' : _ = some mutex' := coherent.uses _ (List.mem_of_getElem? running')
  cases stored.symm.trans stored'
  have holds := (coherent.held mutex first).mpr ⟨_, _, running⟩
  have holds' := (coherent.held mutex second).mpr ⟨_, _, running'⟩
  exact Option.some.inj (holds.symm.trans holds')

end Coherence

end RestfulWebserver.Entity
