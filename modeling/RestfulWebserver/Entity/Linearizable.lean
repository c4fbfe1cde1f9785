import Mathlib.Data.Set.List
import RestfulWebserver.Entity.Refinement
import RestfulWebserver.Entity.Serializable

/-!
# A store that is asked at once

Handlers of one root run side by side on a disk. What they answer, at any moment
of any run, is what a store answers to one request after the other, in an order
that puts no request before one that had its answer before it arrived.
-/

namespace RestfulWebserver.Entity

open RestfulWebserver.Library RestfulWebserver.Http

section Precedence

variable {Disk : Type}

def State.Answered (state : State Disk) (index : Nat) : Prop :=
  ∃ handler outcome, state.handlers[index]? = some handler ∧
    handler.phase.outcome? = some outcome

/-- In the run the first handler had its answer before the second was built. -/
def Precedes (perform : (call : FileCall) → Disk → call.Answer × Disk) (baseDir : Bytes)
    (disk : Disk) (events : List Event) (first second : Nat) : Prop :=
  ∃ before after middle, events = before ++ after ∧
    run (step perform baseDir) (start disk) before = some middle ∧
    middle.Answered first ∧ middle.handlers.length ≤ second

def Phase.Past : Phase → Prop
  | .constructed => False
  | .ready => False
  | .waiting _ => False
  | _ => True

/-- Every handler that has taken the lock stands in the order, once. -/
structure Turns (state : State Disk) : Prop where
  once : state.order.Nodup
  past : ∀ index ∈ state.order, ∃ handler, state.handlers[index]? = some handler ∧
    handler.phase.Past

/-- What is left of an earlier state: the answers, and no handler that had one
has taken the lock again. -/
structure Since (middle state : State Disk) : Prop where
  answered : ∀ index, middle.Answered index → state.Answered index
  later : ∃ added, state.order = middle.order ++ added ∧
    ∀ index ∈ added, ¬ middle.Answered index

end Precedence

section Orders

variable {Disk : Type} {perform : (call : FileCall) → Disk → call.Answer × Disk}
  {baseDir : Bytes} {state next : State Disk} {event : Event}

theorem past_set {handlers : List Handler} {index : Nat} {old new : Handler}
    (placed : handlers[index]? = some old) (keeps : old.phase.Past → new.phase.Past)
    {other : Nat} (past : ∃ handler, handlers[other]? = some handler ∧ handler.phase.Past) :
    ∃ handler, (handlers.set index new)[other]? = some handler ∧ handler.phase.Past := by
  obtain ⟨handler, found, isPast⟩ := past
  rw [handler_after_set placed]
  split_ifs with same
  · subst same
    cases placed.symm.trans found
    exact ⟨new, rfl, keeps isPast⟩
  · exact ⟨handler, found, isPast⟩

theorem turns_place (turns : Turns state) {index : Nat} {old new : Handler}
    (placed : state.handlers[index]? = some old) (keeps : old.phase.Past → new.phase.Past)
    (pool : MutexPool Bytes) (holder : Nat → Option Nat) (disk : Disk) :
    Turns ⟨pool, holder, disk, state.handlers.set index new, state.order⟩ where
  once := turns.once
  past := fun other member => past_set placed keeps (turns.past other member)

theorem turns_move (turns : Turns state) (move : Move perform baseDir state event next) :
    Turns next := by
  cases move with
  | construct request pool inserted =>
      refine ⟨turns.once, fun index member => ?_⟩
      obtain ⟨handler, found, isPast⟩ := turns.past index member
      exact ⟨handler, getElem_append_of_some found _, isPast⟩
  | create index request placed => exact turns_place turns placed False.elim _ _ _
  | request index request mutex placed stored =>
      exact turns_place turns placed False.elim _ _ _
  | lock index request mutex placed free =>
      have absent : index ∉ state.order := by
        intro member
        obtain ⟨handler, found, isPast⟩ := turns.past index member
        cases placed.symm.trans found
        exact isPast
      constructor
      · refine List.nodup_append.mpr ⟨turns.once, List.nodup_singleton index, ?_⟩
        intro other member last inLast
        rw [List.mem_singleton.mp inLast]
        rintro rfl
        exact absent member
      · intro other member
        rcases List.mem_append.mp member with old | new
        · exact past_set placed False.elim (turns.past other old)
        · rw [List.mem_singleton.mp new]
          refine ⟨⟨request, .running mutex (EntityHandler.locked baseDir request)⟩, ?_, trivial⟩
          rw [State.place, handler_after_set placed, if_pos rfl]
  | call index request mutex call onward placed =>
      refine turns_place turns placed ?_ _ _ _
      exact fun _ => trivial
  | unlock index request mutex response placed =>
      refine turns_place turns placed ?_ _ _ _
      exact fun _ => trivial
  | destroy index request outcome pool placed erased =>
      refine turns_place turns placed ?_ _ _ _
      exact fun _ => trivial

theorem answered_set {index : Nat} {old new : Handler}
    (placed : state.handlers[index]? = some old)
    (keeps : ∀ outcome, old.phase.outcome? = some outcome → new.phase.outcome? = some outcome)
    {pool : MutexPool Bytes} {holder : Nat → Option Nat} {disk : Disk} {order : List Nat}
    {other : Nat} (answered : state.Answered other) :
    State.Answered ⟨pool, holder, disk, state.handlers.set index new, order⟩ other := by
  obtain ⟨handler, outcome, found, holds⟩ := answered
  simp only [State.Answered, handler_after_set placed]
  split_ifs with same
  · subst same
    cases placed.symm.trans found
    exact ⟨new, outcome, rfl, keeps outcome holds⟩
  · exact ⟨handler, outcome, found, holds⟩

theorem not_answered {index : Nat} {handler : Handler}
    (placed : state.handlers[index]? = some handler) (pending : handler.phase.outcome? = none) :
    ¬ state.Answered index := by
  rintro ⟨other, outcome, found, holds⟩
  cases placed.symm.trans found
  cases pending.symm.trans holds

theorem answered_move (move : Move perform baseDir state event next) {index : Nat}
    (answered : state.Answered index) : next.Answered index := by
  cases move with
  | construct request pool inserted =>
      obtain ⟨handler, outcome, found, holds⟩ := answered
      exact ⟨handler, outcome, getElem_append_of_some found _, holds⟩
  | destroy index request outcome pool placed erased =>
      refine answered_set placed ?_ answered
      exact fun _ holds => holds
  | create index request placed | request index request mutex placed
  | lock index request mutex placed | call index request mutex call onward placed
  | unlock index request mutex response placed =>
      exact answered_set placed (fun _ holds => by cases holds) answered

theorem since_move {middle : State Disk} (since : Since middle state)
    (move : Move perform baseDir state event next) : Since middle next := by
  have answered := fun index before => answered_move move (since.answered index before)
  obtain ⟨added, ordered, unanswered⟩ := since.later
  cases move with
  | lock index request mutex placed free =>
      refine ⟨answered, added ++ [index], ?_, fun other member => ?_⟩
      · simp only [State.place, ordered, List.append_assoc]
      · rcases List.mem_append.mp member with old | new
        · exact unanswered other old
        · rw [List.mem_singleton.mp new]
          exact fun before => not_answered placed rfl (since.answered index before)
  | _ => exact ⟨answered, added, ordered, unanswered⟩

theorem since_run (nonempty : baseDir ≠ []) {middle : State Disk}
    (coherent : Coherent baseDir middle) {events : List Event}
    (ran : run (step perform baseDir) middle events = some state) : Since middle state := by
  have both : Coherent baseDir state ∧ Since middle state := by
    apply invariant_of_run _ _ ran
    · exact ⟨coherent, fun _ answered => answered, [], by simp⟩
    · intro state event next holds stepped
      obtain ⟨coherent, since⟩ := holds
      have move := move_of_step nonempty coherent stepped
      exact ⟨coherent_move coherent move, since_move since move⟩
  exact both.2

theorem turns_run (nonempty : baseDir ≠ []) {disk : Disk} {events : List Event}
    (ran : run (step perform baseDir) (start disk) events = some state) : Turns state := by
  have both : Coherent baseDir state ∧ Turns state := by
    apply invariant_of_run _ _ ran
    · exact ⟨coherent_start disk, List.nodup_nil, by simp [start]⟩
    · intro state event next holds stepped
      obtain ⟨coherent, turns⟩ := holds
      have move := move_of_step nonempty coherent stepped
      exact ⟨coherent_move coherent move, turns_move turns move⟩
  exact both.2

/-- The lock is never taken by a handler before one that had its answer before the
first was built. -/
theorem order_in_time (nonempty : baseDir ≠ []) {disk : Disk} {events : List Event}
    (ran : run (step perform baseDir) (start disk) events = some state) :
    state.order.Pairwise fun first second =>
      ¬ Precedes perform baseDir disk events second first := by
  rw [List.pairwise_iff_forall_sublist]
  intro first second inOrder precedes
  obtain ⟨before, after, middle, split, reached, answered, notBuilt⟩ := precedes
  rw [split, run_append, reached] at ran
  obtain ⟨_, added, ordered, unanswered⟩ := since_run nonempty (coherent_run nonempty reached) ran
  rw [ordered] at inOrder
  obtain ⟨early, late, parts, inEarly, inLate⟩ := List.sublist_append_iff.mp inOrder
  cases early with
  | nil =>
      rw [List.nil_append] at parts
      have lockedLate : second ∈ added := inLate.subset (by rw [← parts]; simp)
      exact unanswered second lockedLate answered
  | cons other early =>
      obtain ⟨same, _⟩ := List.cons_eq_cons.mp parts
      have locked : first ∈ middle.order := inEarly.subset (by rw [same]; simp)
      obtain ⟨handler, found, _⟩ := (turns_run nonempty reached).past first locked
      obtain ⟨built, _⟩ := List.getElem?_eq_some_iff.mp found
      omega

end Orders

/-! ## At any moment of a run -/

section Moments

variable {Disk : Type} {perform : (call : FileCall) → Disk → call.Answer × Disk}
  {baseDir : Bytes} {disk root : Disk} {state : State Disk} {log : List Entry}

/-- The handlers with an answer are those that are through, where the root has
been there from the start. -/
theorem answered_iff_logged (there : createRoot perform baseDir disk = (.ok (), disk))
    (serial : Serial perform baseDir disk state log root) (index : Nat) :
    index ∈ log.map Entry.index ↔ state.Answered index := by
  constructor
  · intro member
    obtain ⟨entry, logged, rfl⟩ := List.mem_map.mp member
    obtain ⟨phase, found, answered⟩ := serial.recorded entry logged
    exact ⟨_, _, found, answered⟩
  · rintro ⟨handler, outcome, found, answered⟩
    have taken : index ∈ state.order := by
      by_contra absent
      have unserved := serial.unserved index handler found absent
      rw [there] at unserved
      cases phase : handler.phase with
      | answered _ | destroyed _ =>
          rw [phase] at unserved
          obtain ⟨thrown, failed, _⟩ := unserved
          cases failed
      | _ =>
          rw [phase] at answered
          cases answered
    rcases serial.turn with ⟨ordered, _⟩ | ⟨inside, request, mutex, rest, running, ordered, _⟩
    · rwa [ordered] at taken
    · rw [ordered] at taken
      rcases List.mem_append.mp taken with old | new
      · exact old
      · rw [List.mem_singleton.mp new] at found
        cases running.symm.trans found
        cases answered

theorem logged_prefix (serial : Serial perform baseDir disk state log root) :
    log.map Entry.index <+: state.order := by
  rcases serial.turn with ⟨ordered, _⟩ | ⟨inside, request, mutex, rest, running, ordered, _⟩
  · rw [ordered]
  · rw [ordered]
    exact List.prefix_append _ _

/-- The answers so far are those of the handlers one after the other, and so is
the disk unless a handler is inside. -/
theorem moment_in_turn (there : createRoot perform baseDir disk = (.ok (), disk))
    (serial : Serial perform baseDir disk state log root) :
    (Program.inTurn perform (log.map (Entry.program baseDir)) disk).1 = log.map Entry.outcome ∧
      ((∀ index, ¬ state.Inside index) →
        (Program.inTurn perform (log.map (Entry.program baseDir)) disk).2 = state.disk) := by
  have turn := serial.turn
  rw [there] at turn
  rcases turn with ⟨ordered, taken⟩ | ⟨inside, request, mutex, rest, running, _, _, taking⟩
  · refine ⟨congrArg Prod.fst taken, fun _ => ?_⟩
    rcases serial.begun with ⟨_, same⟩ | ⟨same, untouched⟩
    · rw [taken, same]
    · cases log with
      | nil => exact same.symm
      | cons entry log =>
          obtain ⟨phase, found, answered⟩ := serial.recorded entry List.mem_cons_self
          have built : phase = .constructed := untouched _ (List.mem_of_getElem? found)
          rw [built] at answered
          cases answered
  · obtain ⟨before, taken, _⟩ := taking
    exact ⟨congrArg Prod.fst taken, fun nobody => absurd ⟨_, _, _, running⟩ (nobody inside)⟩

end Moments

/-! ## On a disk -/

/-- The call removes no directory that the path of the root asks for. -/
def FileCall.Spares (baseDir : Bytes) (call : FileCall) : Prop :=
  ∀ path, call = .remove path → Tree.placeAt path ∉ Tree.way baseDir

def Phase.Spares (baseDir : Bytes) : Phase → Prop
  | .running _ rest => Program.AllCalls (FileCall.Spares baseDir) rest
  | _ => True

def Named (request : HttpRequest) : Prop := ∃ event : EntityRequest, event.request = request

def Event.Named : Event → Prop
  | .construct arrived => Entity.Named arrived
  | _ => True

/-- No file of an entity lies on the way to the root, as in `data/x/1/../..`. -/
structure Apart (baseDir : Bytes) : Prop where
  noNull : '\x00' ∉ baseDir
  offWay : ∀ name id : FileName, Tree.placeAt baseDir ++ [name.name, id.name] ∉ Tree.way baseDir

structure Rooted (baseDir : Bytes) (state : State Disk) : Prop where
  apart : Apart baseDir
  there : state.disk.tree.stat baseDir = .ok none
  named : ∀ handler ∈ state.handlers, Entity.Named handler.request
  spares : ∀ handler ∈ state.handlers, handler.phase.Spares baseDir

section Roots

variable {baseDir : Bytes} {disk : Disk} {state next : State Disk} {event : Event}

theorem create_there (there : disk.tree.stat baseDir = .ok none) :
    createRoot Disk.perform baseDir disk = (.ok (), disk) := Disk.run_create_there there

theorem tree_keeps_directory {tree : Tree} {place : List Bytes} {call : FileCall}
    (directory : tree.lookup place = some none)
    (spares : ∀ path, call = .remove path → Tree.placeAt path ≠ place) :
    (Tree.perform call tree).2.lookup place = some none := by
  have change := Tree.perform_changes call tree
  generalize (Tree.perform call tree).2 = next at change ⊢
  cases change with
  | nothing => exact directory
  | made path => exact Tree.make_directories_keeps directory _
  | written path data written resolved free =>
      have apart : written ≠ place := by
        rintro rfl
        exact free directory
      rw [Tree.lookup_put tree (Tree.inner_of_free free), if_neg apart, directory]
  | removed path inner last =>
      rw [Tree.lookup_discard tree inner, if_neg (spares path rfl), directory]

theorem tree_keeps_root {tree : Tree} (there : tree.stat baseDir = .ok none) {call : FileCall}
    (spares : call.Spares baseDir) : (Tree.perform call tree).2.stat baseDir = .ok none := by
  obtain ⟨cut, directories⟩ := Tree.directory_iff.mp there
  refine Tree.directory_iff.mpr ⟨cut, fun station onWay => ?_⟩
  apply tree_keeps_directory (directories station onWay)
  rintro path removes rfl
  exact spares path removes onWay

theorem perform_keeps_root (there : disk.tree.stat baseDir = .ok none) {call : FileCall}
    (spares : call.Spares baseDir) : (Disk.perform call disk).2.tree.stat baseDir = .ok none := by
  have kept := tree_keeps_root there spares
  cases call <;> first | exact kept | exact there

theorem spares_no_remove {call : FileCall} (other : ∀ path, call ≠ .remove path) :
    call.Spares baseDir := fun path same => absurd same (other path)

/-- Only a file of an entity is removed, and it lies below the root. -/
theorem serve_spares (apart : Apart baseDir) (event : EntityRequest) :
    Program.AllCalls (FileCall.Spares baseDir) (EntityHandler.locked baseDir event.request) := by
  rw [locked_calls_iff]
  have listing : ∀ name, Program.AllCalls (FileCall.Spares baseDir)
      (RealFilesystem.listIds ⟨baseDir, name⟩).run := by
    intro name
    apply list_ids_calls
    · exact spares_no_remove (by simp)
    · exact spares_no_remove (by simp)
    · exact fun _ => spares_no_remove (by simp)
  have writing : ∀ name id data, Program.AllCalls (FileCall.Spares baseDir)
      (RealFilesystem.write ⟨baseDir, name⟩ id data).run := by
    intro name id data
    rw [write_calls_iff]
    exact fun _ => ⟨spares_no_remove (by simp), spares_no_remove (by simp)⟩
  have parts := parts_of_request event
  unfold EntityHandler.serve
  rw [parts]
  simp only
  split_ifs with post get noId put noId delete noId
  · exact post_calls (listing _) fun value => writing _ _ _
  · rw [all_calls_done_iff]
    exact listing _
  · rw [all_calls_done_iff, read_calls_iff]
    exact ⟨spares_no_remove (by simp), spares_no_remove (by simp)⟩
  · trivial
  · rw [all_calls_done_iff]
    exact writing _ _ _
  · trivial
  · rw [all_calls_done_iff, remove_calls_iff]
    cases isId : event.id with
    | none => simp [isId] at noId
    | some id =>
        rintro path same onWay
        cases same
        rw [Option.map_some, Option.getD_some,
          Disk.place_to (make_path_no_null apart.noNull event.nameNoNull) (id_no_null isId),
          place_of_id apart.noNull event.nameNoNull] at onWay
        exact apart.offWay event.name id onWay
  · trivial

theorem rooted_place (rooted : Rooted baseDir state) {index : Nat} {old : Handler}
    (placed : state.handlers[index]? = some old) (phase : Phase)
    (spares : phase.Spares baseDir) {after : Disk} (there : after.tree.stat baseDir = .ok none)
    (pool : MutexPool Bytes) (holder : Nat → Option Nat) (order : List Nat) :
    Rooted baseDir ⟨pool, holder, after, state.handlers.set index ⟨old.request, phase⟩, order⟩ where
  apart := rooted.apart
  there := there
  named := by
    intro handler member
    rcases List.mem_or_eq_of_mem_set member with kept | rfl
    · exact rooted.named handler kept
    · exact rooted.named old (List.mem_of_getElem? placed)
  spares := by
    intro handler member
    rcases List.mem_or_eq_of_mem_set member with kept | rfl
    · exact rooted.spares handler kept
    · exact spares

theorem rooted_move (rooted : Rooted baseDir state) (named : event.Named)
    (move : Move Disk.perform baseDir state event next) : Rooted baseDir next := by
  have there := rooted.there
  cases move with
  | construct arrived pool inserted =>
      refine ⟨rooted.apart, there, fun handler member => ?_, fun handler member => ?_⟩
      · rcases List.mem_append.mp member with old | new
        · exact rooted.named handler old
        · rw [List.mem_singleton.mp new]
          exact named
      · rcases List.mem_append.mp member with old | new
        · exact rooted.spares handler old
        · rw [List.mem_singleton.mp new]
          trivial
  | create index request placed =>
      rw [create_there there]
      exact rooted_place rooted placed .ready trivial there _ _ _
  | request index request mutex placed stored =>
      exact rooted_place rooted placed (.waiting mutex) trivial there _ _ _
  | lock index request mutex placed free =>
      obtain ⟨asked, same⟩ := rooted.named _ (List.mem_of_getElem? placed)
      have spares := serve_spares rooted.apart asked
      rw [same] at spares
      exact rooted_place rooted placed (.running mutex _) spares there _ _ _
  | call index request mutex call onward placed =>
      have spares := rooted.spares _ (List.mem_of_getElem? placed)
      exact rooted_place rooted placed (.running mutex _) (spares.2 _)
        (perform_keeps_root there spares.1) _ _ _
  | unlock index request mutex response placed =>
      exact rooted_place rooted placed (.answered _) trivial there _ _ _
  | destroy index request outcome pool placed erased =>
      exact rooted_place rooted placed (.destroyed _) trivial there _ _ _

theorem named_steps {step : State Disk → Event → Option (State Disk)} {state : State Disk}
    {events : List Event} (named : ∀ event ∈ events, event.Named) :
    EachStep step (fun _ event => event.Named) state events := by
  rintro before event after middle next rfl _ _
  exact named event (by simp)

theorem rooted_run (nonempty : baseDir ≠ []) (apart : Apart baseDir)
    (there : disk.tree.stat baseDir = .ok none)
    {events : List Event} (named : ∀ event ∈ events, event.Named)
    (ran : run (step Disk.perform baseDir) (start disk) events = some state) :
    Rooted baseDir state := by
  have both : Coherent baseDir state ∧ Rooted baseDir state := by
    apply invariant_of_each_step _ _ events (named_steps named) ran
    · exact ⟨coherent_start disk, apart, there, by simp [start], by simp [start]⟩
    · intro state event next holds named stepped
      obtain ⟨coherent, rooted⟩ := holds
      have move := move_of_step nonempty coherent stepped
      exact ⟨coherent_move coherent move, rooted_move rooted named move⟩
  exact both.2

theorem keeps_root_run (nonempty : baseDir ≠ []) (apart : Apart baseDir)
    (there : disk.tree.stat baseDir = .ok none)
    {events : List Event} (named : ∀ event ∈ events, event.Named) :
    EachStep (step Disk.perform baseDir) (KeepsRoot Disk.perform baseDir) (start disk) events := by
  intro before event after middle next split reached stepped
  have early : ∀ other ∈ before, other.Named := fun other member =>
    named other (split ▸ List.mem_append_left _ member)
  have here : event.Named := named event (by simp [split])
  cases event with
  | call index =>
      intro later called _
      have move := move_of_step nonempty (coherent_run nonempty reached) (Option.mem_def.mp called)
      have rooted := rooted_run nonempty apart there early reached
      exact create_there (rooted_move rooted here move).there
  | _ => trivial

end Roots

/-! ## The store -/

section Stores

variable {baseDir : Bytes} {disk : Disk} {state : State Disk} {store : Store} {log : List Entry}

theorem apart_of_store (represents : Represents baseDir disk.tree store) : Apart baseDir where
  noNull := represents.noNull
  offWay := fun name id onWay => represents.free name id (represents.way_there _ onWay)

theorem entities_of_log (rooted : Rooted baseDir state)
    (recorded : ∀ entry ∈ log, Recorded state.handlers entry) :
    ∃ requests : List EntityRequest,
      requests.map EntityRequest.request = log.map Entry.request := by
  have named : log.map Entry.request ∈ Set.range (List.map EntityRequest.request) := by
    rw [Set.range_list_map]
    intro request member
    obtain ⟨entry, logged, rfl⟩ := List.mem_map.mp member
    obtain ⟨phase, found, _⟩ := recorded entry logged
    exact rooted.named _ (List.mem_of_getElem? found)
  exact named

theorem answered_lengths {Disk : Type} {state : State Disk} {arrangement : List Nat}
    (answered : ∀ index ∈ arrangement, state.Answered index) :
    (state.requestsOf arrangement).length = arrangement.length ∧
      (state.outcomesOf arrangement).length = arrangement.length := by
  induction arrangement with
  | nil => exact ⟨rfl, rfl⟩
  | cons index arrangement ih =>
      obtain ⟨here, later⟩ := List.forall_mem_cons.mp answered
      obtain ⟨handler, outcome, found, ended⟩ := here
      obtain ⟨requests, outcomes⟩ := ih later
      rw [State.requestsOf] at requests ⊢
      rw [State.outcomesOf] at outcomes ⊢
      simp only [List.filterMap_cons, found, ended, Option.map_some, Option.bind_some,
        List.length_cons, requests, outcomes, and_self]

/-- The answers of a state are those of the store, to the requests in this
arrangement, and so are the files. -/
structure Linearizes (baseDir : Bytes) (disk : Disk) (events : List Event) (store : Store)
    (state : State Disk) (arrangement : List Nat) (requests : List EntityRequest)
    (after : Store) : Prop where
  once : arrangement.Nodup
  answered : ∀ index, index ∈ arrangement ↔ state.Answered index
  inTime : arrangement.Pairwise fun first second =>
    ¬ Precedes Disk.perform baseDir disk events second first
  asked : requests.map EntityRequest.request = state.requestsOf arrangement
  steps : Program.Steps (StoreStep baseDir) store
    (requests.zip (state.outcomesOf arrangement)) after
  files : (∀ index, ¬ state.Inside index) → Represents baseDir state.disk.tree after

theorem linearized (nonempty : baseDir ≠ [])
    (represents : Represents baseDir disk.tree store) {events : List Event}
    (named : ∀ event ∈ events, event.Named)
    (ran : run (step Disk.perform baseDir) (start disk) events = some state) :
    ∃ arrangement requests after,
      Linearizes baseDir disk events store state arrangement requests after := by
  have there := represents.root
  have apart := apart_of_store represents
  have created := create_there there
  have settles : RootSettles Disk.perform baseDir disk := by
    rw [RootSettles, created, created]
  obtain ⟨log, root, serial⟩ :=
    serial_run nonempty settles (keeps_root_run nonempty apart there named) ran
  obtain ⟨requests, asked⟩ :=
    entities_of_log (rooted_run nonempty apart there named ran) serial.recorded
  obtain ⟨answers, files⟩ := moment_in_turn created serial
  have within := logged_prefix serial
  obtain ⟨after, steps, holds⟩ := Program.in_turn_follows handled_by_store requests represents
  have programs : requests.map (fun event =>
      (EntityHandler.handleRequest baseDir event.request).run) =
        log.map (Entry.program baseDir) := by
    have both := congrArg (List.map fun request =>
      (EntityHandler.handleRequest baseDir request).run) asked
    rwa [List.map_map, List.map_map] at both
  rw [programs] at steps holds
  refine ⟨log.map Entry.index, requests, after, ?_, answered_iff_logged created serial, ?_, ?_, ?_,
    ?_⟩
  · exact within.sublist.nodup (turns_run nonempty ran).once
  · exact (order_in_time nonempty ran).sublist within.sublist
  · rw [requests_of_log serial.recorded, asked]
  · rw [outcomes_of_log serial.recorded, ← answers]
    exact steps
  · intro nobody
    rw [← files nobody]
    exact holds

/-- At every moment of a run of requests for entities, the answers so far are
those of the store to one request after the other: every handler that has its
answer comes once, and none comes before one whose answer was there before it
was built. The files are those of the store whenever nobody is inside. -/
theorem entity_storage_linearizable (baseDir : Bytes) (nonempty : baseDir ≠ []) (disk : Disk)
    (store : Store) (represents : Represents baseDir disk.tree store)
    (events : List Event) (named : ∀ event ∈ events, event.Named) (state : State Disk)
    (ran : run (step Disk.perform baseDir) (start disk) events = some state) :
    ∃ (arrangement : List Nat) (requests : List EntityRequest) (after : Store),
      arrangement.Nodup ∧ (∀ index, index ∈ arrangement ↔ state.Answered index) ∧
      (arrangement.Pairwise fun first second =>
        ¬ Precedes Disk.perform baseDir disk events second first) ∧
      requests.map EntityRequest.request = state.requestsOf arrangement ∧
      requests.length = arrangement.length ∧
      (state.outcomesOf arrangement).length = arrangement.length ∧
      Program.Steps (StoreStep baseDir) store (requests.zip (state.outcomesOf arrangement)) after ∧
      ((∀ index, ¬ state.Inside index) →
        Represents baseDir state.disk.tree after) := by
  obtain ⟨arrangement, requests, after, linearizes⟩ :=
    linearized nonempty represents named ran
  obtain ⟨asked, ended⟩ := answered_lengths fun index => (linearizes.answered index).mp
  rw [← linearizes.asked, List.length_map] at asked
  exact ⟨arrangement, requests, after, linearizes.once, linearizes.answered, linearizes.inTime,
    linearizes.asked, asked, ended, linearizes.steps, linearizes.files⟩

def postBesideList : List Event :=
  [.construct (itemMessage "POST".toList "a".toList none), .create 0,
    .construct (itemMessage "GET".toList [] none), .create 1, .request 1, .request 0,
    .lock 1, .call 1, .unlock 1]

theorem entity_storage_linearizable_list :
    ∃ state, run (step Disk.perform "/data".toList) (start (emptyDisk "data".toList))
        postBesideList = some state ∧
      ∃ (arrangement : List Nat) (requests : List EntityRequest) (after : Store),
        (∀ index, index ∈ arrangement ↔ state.Answered index) ∧
        requests.map EntityRequest.request = state.requestsOf arrangement ∧
        Program.Steps (StoreStep "/data".toList) Store.empty
          (requests.zip (state.outcomesOf arrangement)) after := by
  have possible : (run (step Disk.perform "/data".toList) (start (emptyDisk "data".toList))
      postBesideList).isSome = true := by decide +kernel
  obtain ⟨state, ran⟩ := Option.isSome_iff_exists.mp possible
  have named : ∀ event ∈ postBesideList, event.Named := by
    simp only [postBesideList, List.forall_mem_cons, List.not_mem_nil, false_implies,
      implies_true, and_true]
    exact ⟨⟨collectionRequest "POST".toList "a".toList, rfl⟩, trivial,
      ⟨collectionRequest "GET".toList [], rfl⟩, trivial, trivial, trivial, trivial, trivial,
      trivial⟩
  obtain ⟨arrangement, requests, after, _, answered, _, asked, _, _, steps, _⟩ :=
    entity_storage_linearizable "/data".toList (by decide) (emptyDisk "data".toList) Store.empty
      (empty_represents (by decide) empty_disk_base) postBesideList named state ran
  exact ⟨state, ran, arrangement, requests, after, answered, asked, steps⟩

end Stores

end RestfulWebserver.Entity
