import RestfulWebserver.Entity.Concurrency
import RestfulWebserver.Entity.Resolution
import RestfulWebserver.Library.Family

/-!
# Requests on many roots

The pool is a static member of the class: the handlers of all locations share
it, each under its own root. The steps of a handler are those of one root; what
is new is that the keys of the pool have to be told apart.
-/

namespace RestfulWebserver.Entity.Roots

open RestfulWebserver.Library RestfulWebserver.Http

structure RootedHandler where
  root : Bytes
  handler : Handler

structure State (Disk : Type) where
  pool : MutexPool Bytes
  holder : Nat → Option Nat
  disk : Disk
  handlers : List RootedHandler

inductive Event where
  | construct (root : Bytes) (request : HttpRequest)
  | create (index : Nat)
  | request (index : Nat)
  | lock (index : Nat)
  | call (index : Nat)
  | unlock (index : Nat)
  | destroy (index : Nat)

section Steps

variable {Disk : Type}

def start (disk : Disk) : State Disk := ⟨MutexPool.empty, fun _ => none, disk, []⟩

def State.place (state : State Disk) (index : Nat) (root : Bytes) (request : HttpRequest)
    (phase : Phase) : State Disk :=
  { state with handlers := state.handlers.set index ⟨root, request, phase⟩ }

variable (perform : (call : FileCall) → Disk → call.Answer × Disk)

def step (state : State Disk) : Event → Option (State Disk)
  | .construct root request =>
      match state.pool.insert root with
      | .ok pool =>
          some { state with pool, handlers := state.handlers ++ [⟨root, request, .constructed⟩] }
      | .error thrown =>
          some { state with handlers := state.handlers ++ [⟨root, request, .failed thrown⟩] }
  | .create index =>
      match state.handlers[index]? with
      | some ⟨root, request, .constructed⟩ =>
          let (created, disk) := createRoot perform root state.disk
          some ({ state with disk }.place index root request (.afterCreate created))
      | _ => none
  | .request index =>
      match state.handlers[index]? with
      | some ⟨root, request, .ready⟩ =>
          match state.pool.request root with
          | .ok mutex => some (state.place index root request (.waiting mutex))
          | .error thrown => some (state.place index root request (.failed thrown))
      | _ => none
  | .lock index =>
      match state.handlers[index]? with
      | some ⟨root, request, .waiting mutex⟩ =>
          if state.holder mutex = none then
            some ({ state with holder := Function.update state.holder mutex (some index) }.place
              index root request (.running mutex (EntityHandler.locked root request)))
          else none
      | _ => none
  | .call index =>
      match state.handlers[index]? with
      | some ⟨root, request, .running mutex (.ask call next)⟩ =>
          let (answer, disk) := perform call state.disk
          some ({ state with disk }.place index root request (.running mutex (next answer)))
      | _ => none
  | .unlock index =>
      match state.handlers[index]? with
      | some ⟨root, request, .running mutex (.done response)⟩ =>
          some ({ state with holder := Function.update state.holder mutex none }.place index root
            request (.answered (.ok response)))
      | _ => none
  | .destroy index =>
      match state.handlers[index]? with
      | some ⟨root, request, .answered outcome⟩ =>
          if root ≠ [] then
            match state.pool.erase root with
            | .ok pool => some ({ state with pool }.place index root request (.destroyed outcome))
            | .error thrown => some (state.place index root request (.failed thrown))
          else some (state.place index root request (.destroyed outcome))
      | _ => none

/-- The steps in which the pool does not throw. -/
inductive Move (state : State Disk) : Event → State Disk → Prop
  | construct (root : Bytes) (request : HttpRequest) (pool : MutexPool Bytes)
      (inserted : state.pool.insert root = .ok pool) :
      Move state (.construct root request)
        { state with pool, handlers := state.handlers ++ [⟨root, request, .constructed⟩] }
  | create (index : Nat) (root : Bytes) (request : HttpRequest)
      (placed : state.handlers[index]? = some ⟨root, request, .constructed⟩) :
      Move state (.create index)
        ({ state with disk := (createRoot perform root state.disk).2 }.place index root request
          (.afterCreate (createRoot perform root state.disk).1))
  | request (index : Nat) (root : Bytes) (request : HttpRequest) (mutex : Nat)
      (placed : state.handlers[index]? = some ⟨root, request, .ready⟩)
      (stored : state.pool.mutexPool.find? root = some mutex) :
      Move state (.request index) (state.place index root request (.waiting mutex))
  | lock (index : Nat) (root : Bytes) (request : HttpRequest) (mutex : Nat)
      (placed : state.handlers[index]? = some ⟨root, request, .waiting mutex⟩)
      (free : state.holder mutex = none) :
      Move state (.lock index)
        ({ state with holder := Function.update state.holder mutex (some index) }.place index root
          request (.running mutex (EntityHandler.locked root request)))
  | call (index : Nat) (root : Bytes) (request : HttpRequest) (mutex : Nat) (call : FileCall)
      (next : call.Answer → Program FileCall FileCall.Answer HttpResponse)
      (placed : state.handlers[index]? = some ⟨root, request, .running mutex (.ask call next)⟩) :
      Move state (.call index)
        ({ state with disk := (perform call state.disk).2 }.place index root request
          (.running mutex (next (perform call state.disk).1)))
  | unlock (index : Nat) (root : Bytes) (request : HttpRequest) (mutex : Nat)
      (response : HttpResponse)
      (placed : state.handlers[index]? = some ⟨root, request, .running mutex (.done response)⟩) :
      Move state (.unlock index)
        ({ state with holder := Function.update state.holder mutex none }.place index root request
          (.answered (.ok response)))
  | destroy (index : Nat) (root : Bytes) (request : HttpRequest)
      (outcome : Except Thrown HttpResponse) (pool : MutexPool Bytes)
      (placed : state.handlers[index]? = some ⟨root, request, .answered outcome⟩)
      (nonempty : root ≠ []) (erased : state.pool.erase root = .ok pool) :
      Move state (.destroy index)
        ({ state with pool }.place index root request (.destroyed outcome))
  | abandon (index : Nat) (request : HttpRequest) (outcome : Except Thrown HttpResponse)
      (placed : state.handlers[index]? = some ⟨[], request, .answered outcome⟩) :
      Move state (.destroy index) (state.place index [] request (.destroyed outcome))

end Steps

/-! ## The keys of the pool -/

/-- Each key is there while it has users and counts them, and the mutexes, which
are numbered as they are made, are stored under one key each. -/
structure PoolOf (pool : MutexPool Bytes) (users : Bytes → Nat) : Prop where
  tracks : ∀ root, pool.Tracks root (users root)
  made : ∀ root mutex, pool.mutexPool.find? root = some mutex → mutex < pool.made
  apart : ∀ root other mutex, pool.mutexPool.find? root = some mutex →
    pool.mutexPool.find? other = some mutex → root = other

section Keys

variable {pool next : MutexPool Bytes} {users : Bytes → Nat} {root : Bytes}

theorem tracks_same {other : Bytes} {count : Nat} (tracks : pool.Tracks other count)
    (sameMutex : next.mutexPool.find? other = pool.mutexPool.find? other)
    (sameCount : next.mutexCount.find? other = pool.mutexCount.find? other) :
    next.Tracks other count := by
  constructor
  · rw [OrderedMap.contains, sameMutex]
    exact tracks.present
  · rw [sameCount]
    exact tracks.counted

theorem pool_of_empty : PoolOf (MutexPool.empty : MutexPool Bytes) (fun _ => 0) where
  tracks := fun _ => MutexPool.empty_tracks
  made := by simp [MutexPool.empty]
  apart := by simp [MutexPool.empty]

theorem pool_update {count : Nat} (tracked : next.Tracks root count)
    (others : ∀ other, root ≠ other → next.Tracks other (users other)) :
    ∀ other, next.Tracks other (Function.update users root count other) := by
  intro other
  by_cases same : root = other
  · subst same
    rw [Function.update_self]
    exact tracked
  · rw [Function.update_of_ne (Ne.symm same)]
    exact others other same

/-- A key that had users keeps its mutex; the key of the new handler has one. -/
theorem insert_pool (poolOf : PoolOf pool users) (root : Bytes) :
    ∃ next, pool.insert root = .ok next ∧
      PoolOf next (Function.update users root (users root + 1)) ∧
      ∀ other, 0 < users other → next.mutexPool.find? other = pool.mutexPool.find? other := by
  obtain ⟨next, inserted, tracked, keeps⟩ := MutexPool.insert_tracks (poolOf.tracks root)
  by_cases used : 0 < users root
  · have present := (poolOf.tracks root).present.mpr used
    have counted := (poolOf.tracks root).counted
    rw [if_neg (Nat.ne_of_gt used)] at counted
    have known := MutexPool.insert_present present counted
    cases inserted.symm.trans known
    refine ⟨_, inserted, ⟨pool_update tracked ?_, poolOf.made, poolOf.apart⟩, fun _ _ => rfl⟩
    intro other apart
    refine tracks_same (poolOf.tracks other) rfl ?_
    rw [OrderedMap.find_assign, if_neg apart]
  · have absent : pool.mutexPool.contains root = false := by
      simpa using mt (poolOf.tracks root).present.mp used
    have unknown := MutexPool.insert_absent absent
    cases inserted.symm.trans unknown
    have stored := fun other => OrderedMap.find_insert_absent absent other pool.made
    refine ⟨_, inserted, ⟨pool_update tracked ?_, ?_, ?_⟩, ?_⟩
    · intro other apart
      refine tracks_same (poolOf.tracks other) ?_ ?_
      · rw [stored, if_neg apart]
      · rw [OrderedMap.find_insert, if_neg apart]
    · intro other mutex found
      rw [stored] at found
      split_ifs at found
      · cases found
        exact Nat.lt_succ_self _
      · exact Nat.lt_succ_of_lt (poolOf.made other mutex found)
    · intro first second mutex foundFirst foundSecond
      rw [stored] at foundFirst foundSecond
      split_ifs at foundFirst with isFirst <;> split_ifs at foundSecond with isSecond
      · exact isFirst.symm.trans isSecond
      · cases foundFirst
        exact absurd (poolOf.made second _ foundSecond) (Nat.lt_irrefl _)
      · cases foundSecond
        exact absurd (poolOf.made first _ foundFirst) (Nat.lt_irrefl _)
      · exact poolOf.apart first second mutex foundFirst foundSecond
    · intro other usedOther
      have apart : root ≠ other := by
        rintro rfl
        exact used usedOther
      rw [stored, if_neg apart]

theorem erase_pool (poolOf : PoolOf pool users) {count : Nat} (used : users root = count + 1) :
    ∃ next, pool.erase root = .ok next ∧ PoolOf next (Function.update users root count) ∧
      ∀ other, 0 < Function.update users root count other →
        next.mutexPool.find? other = pool.mutexPool.find? other := by
  have tracks := poolOf.tracks root
  rw [used] at tracks
  obtain ⟨next, erased, tracked, keeps⟩ := MutexPool.erase_tracks tracks
  have present := tracks.present.mpr (Nat.succ_pos count)
  have counted := tracks.counted
  rw [if_neg (Nat.succ_ne_zero count)] at counted
  have known := MutexPool.erase_present present counted
  have left : ((count + 1 : Nat) : Int) - 1 = count := by omega
  rw [left] at known
  have keepsRoot : ∀ other, 0 < Function.update users root count other → root = other →
      0 < count := by
    rintro other users rfl
    rwa [Function.update_self] at users
  split_ifs at known with last
  · cases erased.symm.trans known
    have stored := fun other => OrderedMap.find_erase pool.mutexPool root other
    refine ⟨_, erased, ⟨pool_update tracked ?_, ?_, ?_⟩, ?_⟩
    · intro other apart
      refine tracks_same (poolOf.tracks other) ?_ ?_
      · rw [stored, if_neg apart]
      · rw [OrderedMap.find_erase, if_neg apart, OrderedMap.find_assign, if_neg apart]
    · intro other mutex found
      rw [stored] at found
      split_ifs at found
      exact poolOf.made other mutex found
    · intro first second mutex foundFirst foundSecond
      rw [stored] at foundFirst foundSecond
      split_ifs at foundFirst foundSecond
      exact poolOf.apart first second mutex foundFirst foundSecond
    · intro other usersLeft
      have apart : root ≠ other := by
        intro same
        have more := keepsRoot other usersLeft same
        omega
      rw [stored, if_neg apart]
  · cases erased.symm.trans known
    refine ⟨_, erased, ⟨pool_update tracked ?_, poolOf.made, poolOf.apart⟩, fun _ _ => rfl⟩
    intro other apart
    refine tracks_same (poolOf.tracks other) rfl ?_
    rw [OrderedMap.find_assign, if_neg apart]

end Keys

/-! ## What the pool, the mutexes and the handlers know of each other -/

/-- A handler counts for its root until it is destroyed; an empty root is never
erased from the pool. -/
def RootedHandler.counts (rooted : RootedHandler) : Bool :=
  match rooted.handler.phase with
  | .failed _ => false
  | .destroyed _ => rooted.root.isEmpty
  | _ => true

def users (handlers : List RootedHandler) (root : Bytes) : Nat :=
  handlers.countP fun rooted => rooted.root = root && rooted.counts

structure Coherent {Disk : Type} (state : State Disk) : Prop where
  poolOf : PoolOf state.pool (users state.handlers)
  uses : ∀ rooted ∈ state.handlers,
    rooted.handler.phase.Uses (state.pool.mutexPool.find? rooted.root)
  held : Held state.holder (state.handlers.map RootedHandler.handler)

section Coherence

variable {Disk : Type} {perform : (call : FileCall) → Disk → call.Answer × Disk}
  {state next : State Disk} {event : Event} {handlers : List RootedHandler} {index : Nat}
  {old : RootedHandler}

theorem users_set_other (placed : handlers[index]? = some old) (new : RootedHandler) {root : Bytes}
    (same : (decide (new.root = root) && new.counts) = (decide (old.root = root) && old.counts)) :
    users (handlers.set index new) root = users handlers root := by
  obtain ⟨inside, found⟩ := List.getElem?_eq_some_iff.mp placed
  have counted : (if (decide (old.root = root) && old.counts) = true then 1 else 0) ≤
      users handlers root := by
    split_ifs with counts
    · exact List.countP_pos_iff.mpr ⟨old, List.mem_of_getElem? placed, counts⟩
    · exact Nat.zero_le _
  simp only [users, List.countP_set inside, found, same] at counted ⊢
  omega

theorem users_set (placed : handlers[index]? = some old) {new : RootedHandler}
    (sameRoot : new.root = old.root) (sameCount : new.counts = old.counts) :
    users (handlers.set index new) = users handlers := by
  funext root
  exact users_set_other placed new (by rw [sameRoot, sameCount])

theorem users_leave (placed : handlers[index]? = some old) (new : RootedHandler)
    (sameRoot : new.root = old.root) (counted : old.counts = true) (left : new.counts = false) :
    ∃ count, users handlers old.root = count + 1 ∧
      users (handlers.set index new) = Function.update (users handlers) old.root count := by
  obtain ⟨inside, found⟩ := List.getElem?_eq_some_iff.mp placed
  have positive : 0 < users handlers old.root :=
    List.countP_pos_iff.mpr ⟨old, List.mem_of_getElem? placed, by simp [counted]⟩
  refine ⟨users handlers old.root - 1, by omega, ?_⟩
  funext root
  by_cases same : root = old.root
  · subst same
    rw [Function.update_self]
    simp [users, List.countP_set inside, found, counted, left]
  · rw [Function.update_of_ne same]
    exact users_set_other placed new (by simp [sameRoot, left, Ne.symm same])

theorem users_append (handlers : List RootedHandler) {new : RootedHandler}
    (counts : new.counts = true) :
    users (handlers ++ [new]) =
      Function.update (users handlers) new.root (users handlers new.root + 1) := by
  funext root
  by_cases same : root = new.root
  · subst same
    simp [users, counts]
  · rw [Function.update_of_ne same]
    simp [users, Ne.symm same]

theorem users_pos (placed : handlers[index]? = some old) (counts : old.counts = true) :
    0 < users handlers old.root :=
  List.countP_pos_iff.mpr ⟨old, List.mem_of_getElem? placed, by simp [counts]⟩

/-- A pool that keeps what has users serves the same handlers. -/
theorem uses_kept {stored later : Bytes → Option Nat}
    (uses : ∀ rooted ∈ handlers, rooted.handler.phase.Uses (stored rooted.root))
    (keeps : ∀ root, 0 < users handlers root → later root = stored root) :
    ∀ rooted ∈ handlers, rooted.handler.phase.Uses (later rooted.root) := by
  intro rooted member
  have before := uses rooted member
  by_cases counts : rooted.counts = true
  · obtain ⟨index, placed⟩ := List.mem_iff_getElem?.mp member
    rw [keeps rooted.root (users_pos placed counts)]
    exact before
  · cases phase : rooted.handler.phase with
    | destroyed outcome => trivial
    | failed thrown => rw [phase] at before; exact before.elim
    | _ => simp [RootedHandler.counts, phase] at counts

theorem uses_set {stored : Bytes → Option Nat} {new : RootedHandler}
    (uses : ∀ rooted ∈ handlers, rooted.handler.phase.Uses (stored rooted.root))
    (fits : new.handler.phase.Uses (stored new.root)) :
    ∀ rooted ∈ handlers.set index new, rooted.handler.phase.Uses (stored rooted.root) := by
  intro rooted member
  rcases List.mem_or_eq_of_mem_set member with kept | rfl
  · exact uses rooted kept
  · exact fits

theorem handler_placed (placed : handlers[index]? = some old) :
    (handlers.map RootedHandler.handler)[index]? = some old.handler := by
  rw [List.getElem?_map, placed]
  rfl

theorem coherent_place (coherent : Coherent state) (placed : state.handlers[index]? = some old)
    (new : RootedHandler) (sameRoot : new.root = old.root) (sameCount : new.counts = old.counts)
    (fits : new.handler.phase.Uses (state.pool.mutexPool.find? new.root))
    {holder : Nat → Option Nat}
    (held : Held holder ((state.handlers.map RootedHandler.handler).set index new.handler))
    (disk : Disk) : Coherent ⟨state.pool, holder, disk, state.handlers.set index new⟩ where
  poolOf := by
    rw [users_set placed sameRoot sameCount]
    exact coherent.poolOf
  uses := uses_set coherent.uses fits
  held := by
    rw [List.map_set]
    exact held

/-- While the pool counts the users of each root, none of its operations throws. -/
theorem move_of_step (coherent : Coherent state) (stepped : step perform state event = some next) :
    Move perform state event next := by
  cases event with
  | construct root request =>
      obtain ⟨pool, inserted, _⟩ := insert_pool coherent.poolOf root
      simp only [step, inserted, Option.some.injEq] at stepped
      subst stepped
      exact .construct root request pool inserted
  | create index =>
      simp only [step] at stepped
      split at stepped
      · rename_i root request placed
        cases stepped
        exact .create index root request placed
      · cases stepped
  | request index =>
      simp only [step] at stepped
      split at stepped
      · rename_i root request placed
        obtain ⟨mutex, requested, stored⟩ :=
          MutexPool.request_tracks (coherent.poolOf.tracks root) (users_pos placed rfl)
        simp only [requested, Option.some.injEq] at stepped
        subst stepped
        exact .request index root request mutex placed stored
      · cases stepped
  | lock index =>
      simp only [step] at stepped
      split at stepped
      · rename_i root request mutex placed
        split_ifs at stepped with free
        cases stepped
        exact .lock index root request mutex placed free
      · cases stepped
  | call index =>
      simp only [step] at stepped
      split at stepped
      · rename_i root request mutex call next placed
        cases stepped
        exact .call index root request mutex call next placed
      · cases stepped
  | unlock index =>
      simp only [step] at stepped
      split at stepped
      · rename_i root request mutex response placed
        cases stepped
        exact .unlock index root request mutex response placed
      · cases stepped
  | destroy index =>
      simp only [step] at stepped
      split at stepped
      · rename_i root request outcome placed
        split_ifs at stepped with nonempty
        · have positive : 0 < users state.handlers root := users_pos placed rfl
          have more : users state.handlers root = users state.handlers root - 1 + 1 := by omega
          obtain ⟨pool, erased, _⟩ := erase_pool coherent.poolOf more
          simp only [erased, Option.some.injEq] at stepped
          subst stepped
          exact .destroy index root request outcome pool placed nonempty erased
        · cases stepped
          have empty : root = [] := by simpa using nonempty
          subst empty
          exact .abandon index request outcome placed
      · cases stepped

theorem step_of_move (move : Move perform state event next) :
    step perform state event = some next := by
  cases move with
  | construct root request pool inserted => simp only [step, inserted]
  | create index root request placed => simp only [step, placed]
  | request index root request mutex placed stored =>
      simp only [step, placed, MutexPool.request_present stored]
  | lock index root request mutex placed free => simp only [step, placed, free, if_true]
  | call index root request mutex call onward placed => simp only [step, placed]
  | unlock index root request mutex response placed => simp only [step, placed]
  | destroy index root request outcome pool placed nonempty erased =>
      simp only [step, placed, if_pos nonempty, erased]
  | abandon index request outcome placed =>
      simp only [step, placed, ne_eq, not_true_eq_false, if_false]

theorem coherent_move (coherent : Coherent state) (move : Move perform state event next) :
    Coherent next := by
  have held := coherent.held
  cases move with
  | construct root request pool inserted =>
      obtain ⟨_, inserted', poolOf, keeps⟩ := insert_pool coherent.poolOf root
      cases inserted.symm.trans inserted'
      constructor
      · rw [users_append _ rfl]
        exact poolOf
      · intro rooted member
        rcases List.mem_append.mp member with before | new
        · exact uses_kept coherent.uses keeps rooted before
        · rw [List.mem_singleton.mp new]
          trivial
      · rw [List.map_append]
        exact held_append held _ trivial
  | create index root request placed =>
      generalize createRoot perform root state.disk = created
      obtain ⟨outcome, disk⟩ := created
      have stays : (Phase.afterCreate outcome).Outside := by cases outcome <;> trivial
      apply coherent_place coherent placed ⟨root, request, .afterCreate outcome⟩ rfl
      · cases outcome <;> rfl
      · cases outcome <;> trivial
      · exact held_set_idle held (handler_placed placed) trivial stays
  | request index root request mutex placed stored =>
      apply coherent_place coherent placed ⟨root, request, .waiting mutex⟩ rfl rfl
      · exact stored
      · exact held_set_idle held (handler_placed placed) trivial trivial
  | lock index root request mutex placed free =>
      have stored := coherent.uses _ (List.mem_of_getElem? placed)
      apply coherent_place coherent placed
        ⟨root, request, .running mutex (EntityHandler.locked root request)⟩ rfl rfl
      · exact stored
      · exact held_set_lock held (handler_placed placed) trivial free
  | call index root request mutex call onward placed =>
      have stored := coherent.uses _ (List.mem_of_getElem? placed)
      have here := handler_placed placed
      apply coherent_place coherent placed
        ⟨root, request, .running mutex (onward (perform call state.disk).1)⟩ rfl rfl
      · exact stored
      · apply held_set held here
        · intro other
          rw [held other index, here]
          simp
        · intro other third _
          rfl
  | unlock index root request mutex response placed =>
      apply coherent_place coherent placed ⟨root, request, .answered (.ok response)⟩ rfl rfl
      · trivial
      · exact held_set_unlock held (handler_placed placed) trivial
  | destroy index root request outcome pool placed nonempty erased =>
      have leaves : (⟨root, request, .destroyed outcome⟩ : RootedHandler).counts = false := by
        simpa [RootedHandler.counts] using nonempty
      obtain ⟨count, used, fewer⟩ :=
        users_leave placed ⟨root, request, .destroyed outcome⟩ rfl rfl leaves
      obtain ⟨_, erased', poolOf, keeps⟩ := erase_pool coherent.poolOf used
      cases erased.symm.trans erased'
      rw [← fewer] at keeps
      constructor
      · rw [← fewer] at poolOf
        exact poolOf
      · exact uses_kept (uses_set coherent.uses trivial) keeps
      · rw [State.place, List.map_set]
        exact held_set_idle held (handler_placed placed) trivial trivial
  | abandon index request outcome placed =>
      apply coherent_place coherent placed ⟨[], request, .destroyed outcome⟩ rfl rfl trivial
      exact held_set_idle held (handler_placed placed) trivial trivial

theorem coherent_start (disk : Disk) : Coherent (start disk) where
  poolOf := pool_of_empty
  uses := by simp [start]
  held := by simp [Held, start]

theorem coherent_run {disk : Disk} {events : List Event}
    (ran : run (step perform) (start disk) events = some state) : Coherent state := by
  apply invariant_of_run (coherent_start disk) _ ran
  intro state event next coherent stepped
  exact coherent_move coherent (move_of_step coherent stepped)

end Coherence

/-! ## What separates the roots -/

section Apart

variable {Disk : Type} {perform : (call : FileCall) → Disk → call.Answer × Disk}
  {state : State Disk}

def State.Inside (state : State Disk) (index : Nat) (root : Bytes) (mutex : Nat) : Prop :=
  ∃ request rest, state.handlers[index]? = some ⟨root, request, .running mutex rest⟩

def State.Awaits (state : State Disk) (index : Nat) (root : Bytes) (mutex : Nat) : Prop :=
  ∃ request, state.handlers[index]? = some ⟨root, request, .waiting mutex⟩

theorem holder_of_inside (coherent : Coherent state) {index : Nat} {root : Bytes} {mutex : Nat}
    (inside : state.Inside index root mutex) : state.holder mutex = some index := by
  obtain ⟨request, rest, placed⟩ := inside
  exact (coherent.held mutex index).mpr ⟨request, rest, handler_placed placed⟩

theorem inside_of_holder (coherent : Coherent state) {mutex index : Nat}
    (holds : state.holder mutex = some index) : ∃ root, state.Inside index root mutex := by
  obtain ⟨request, rest, placed⟩ := (coherent.held mutex index).mp holds
  rw [List.getElem?_map] at placed
  obtain ⟨⟨root, handler⟩, found, rfl⟩ := Option.map_eq_some_iff.mp placed
  exact ⟨root, request, rest, found⟩

theorem stored_of_inside (coherent : Coherent state) {index : Nat} {root : Bytes} {mutex : Nat}
    (inside : state.Inside index root mutex) : state.pool.mutexPool.find? root = some mutex := by
  obtain ⟨request, rest, placed⟩ := inside
  exact coherent.uses _ (List.mem_of_getElem? placed)

theorem stored_of_awaits (coherent : Coherent state) {index : Nat} {root : Bytes} {mutex : Nat}
    (awaits : state.Awaits index root mutex) : state.pool.mutexPool.find? root = some mutex := by
  obtain ⟨request, placed⟩ := awaits
  exact coherent.uses _ (List.mem_of_getElem? placed)

theorem one_inside_root (coherent : Coherent state) {first second : Nat} {root other : Bytes}
    {mutex mutex' : Nat} (firstInside : state.Inside first root mutex)
    (secondInside : state.Inside second other mutex') : first = second ↔ root = other := by
  constructor
  · rintro rfl
    obtain ⟨_, _, placed⟩ := firstInside
    obtain ⟨_, _, placed'⟩ := secondInside
    cases placed.symm.trans placed'
    rfl
  · rintro rfl
    have stored := stored_of_inside coherent firstInside
    cases stored.symm.trans (stored_of_inside coherent secondInside)
    have holds := holder_of_inside coherent firstInside
    exact Option.some.inj (holds.symm.trans (holder_of_inside coherent secondInside))

theorem awaited_inside (coherent : Coherent state) {index other : Nat} {root : Bytes} {mutex : Nat}
    (awaits : state.Awaits index root mutex) (held : state.holder mutex = some other) :
    state.Inside other root mutex := by
  obtain ⟨holderRoot, inside⟩ := inside_of_holder coherent held
  have same := coherent.poolOf.apart holderRoot root mutex (stored_of_inside coherent inside)
    (stored_of_awaits coherent awaits)
  subst same
  exact inside

/-- In every state that any number of handlers on any roots reach, no operation
of the pool has thrown; of the handlers between lock and unlock no two are on
one root; a handler that waits is kept waiting by one on its own root only; and
the pool counts for each root the handlers that have not given it back. -/
theorem roots_kept_apart {disk : Disk} {events : List Event}
    (ran : run (step perform) (start disk) events = some state) :
    (∀ rooted ∈ state.handlers, ∀ thrown, rooted.handler.phase ≠ .failed thrown) ∧
      (∀ first second root other mutex mutex', state.Inside first root mutex →
        state.Inside second other mutex' → (first = second ↔ root = other)) ∧
      (∀ index root mutex other, state.Awaits index root mutex →
        state.holder mutex = some other → state.Inside other root mutex) ∧
      ∀ root, state.pool.Tracks root (users state.handlers root) := by
  have coherent := coherent_run ran
  refine ⟨?_, ?_, ?_, coherent.poolOf.tracks⟩
  · intro rooted member thrown failed
    have uses := coherent.uses rooted member
    rw [failed] at uses
    exact uses
  · intro first second root other mutex mutex' firstInside secondInside
    exact one_inside_root coherent firstInside secondInside
  · intro index root mutex other awaits held
    exact awaited_inside coherent awaits held

def notesRoot : Bytes := "/notes".toList

def usersRoot : Bytes := "/users".toList

def getNotes : HttpRequest :=
  ⟨"GET".toList, "/api/notes".toList, "HTTP/1.1".toList, OrderedMap.empty, []⟩

/-- Two handlers inside on two roots, and a third that waits for the first. -/
def twoRoots : List Event :=
  [.construct notesRoot getNotes, .construct usersRoot getNotes, .construct notesRoot getNotes,
    .create 0, .create 1, .create 2, .request 0, .request 1, .request 2, .lock 0, .lock 1]

theorem roots_kept_apart_two :
    ∃ state, run (step Tree.perform) (start []) twoRoots = some state ∧
      state.pool.Tracks notesRoot 2 ∧ state.pool.Tracks usersRoot 1 := by
  have possible : (run (step Tree.perform) (start []) twoRoots).isSome = true := by
    decide +kernel
  have counts : ∀ state ∈ run (step Tree.perform) (start []) twoRoots,
      users state.handlers notesRoot = 2 ∧ users state.handlers usersRoot = 1 := by
    decide +kernel
  obtain ⟨state, ran⟩ := Option.isSome_iff_exists.mp possible
  obtain ⟨notes, others⟩ := counts state ran
  obtain ⟨_, _, _, tracks⟩ := roots_kept_apart ran
  refine ⟨state, ran, ?_, ?_⟩
  · rw [← notes]
    exact tracks notesRoot
  · rw [← others]
    exact tracks usersRoot

end Apart

end RestfulWebserver.Entity.Roots
