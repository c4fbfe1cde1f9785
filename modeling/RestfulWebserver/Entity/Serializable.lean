import RestfulWebserver.Entity.Concurrency
import RestfulWebserver.Entity.Resolution

/-!
# Requests on one root take turns

Between lock and unlock a handler works as if it were alone. What it does
before, the creation of the root, is not covered by the lock: it changes nothing
as long as the root stays once it has been created.
-/

namespace RestfulWebserver.Entity

open RestfulWebserver.Library RestfulWebserver.Http

section Serial

variable {Disk : Type} (perform : (call : FileCall) → Disk → call.Answer × Disk)
  (baseDir : Bytes)

def serveInTurn (requests : List HttpRequest) (disk : Disk) :
    List (Except Thrown HttpResponse) × Disk :=
  Program.inTurn perform
    (requests.map fun request => (EntityHandler.handleRequest baseDir request).run) disk

def State.requestsOf (state : State Disk) (indices : List Nat) : List HttpRequest :=
  indices.filterMap fun index => state.handlers[index]?.map Handler.request

def State.outcomesOf (state : State Disk) (indices : List Nat) :
    List (Except Thrown HttpResponse) :=
  indices.filterMap fun index => state.handlers[index]?.bind fun handler => handler.phase.outcome?

def State.Finished (state : State Disk) : Prop :=
  ∀ handler ∈ state.handlers, ∃ outcome, handler.phase = .destroyed outcome

/-- Creating the root again at once ends alike and changes nothing. -/
def RootSettles (disk : Disk) : Prop :=
  createRoot perform baseDir (createRoot perform baseDir disk).2 =
    createRoot perform baseDir disk

/-- No call that a handler makes under the lock takes the root away. -/
def KeepsRoot (state : State Disk) : Event → Prop
  | .call index => ∀ next ∈ step perform baseDir state (.call index),
      createRoot perform baseDir state.disk = (.ok (), state.disk) →
      createRoot perform baseDir next.disk = (.ok (), next.disk)
  | _ => True

/-- A handler that has not taken the lock, by what creating the root gave. -/
def Phase.Unserved (created : Except Thrown Unit) : Phase → Prop
  | .constructed => True
  | .ready => created = .ok ()
  | .waiting _ => created = .ok ()
  | .answered outcome => ∃ thrown, created = .error thrown ∧ outcome = .error thrown
  | .destroyed outcome => ∃ thrown, created = .error thrown ∧ outcome = .error thrown
  | _ => False

structure Entry where
  index : Nat
  request : HttpRequest
  response : HttpResponse

def Entry.program (entry : Entry) :
    Program FileCall FileCall.Answer (Except Thrown HttpResponse) :=
  (EntityHandler.handleRequest baseDir entry.request).run

def Entry.outcome (entry : Entry) : Except Thrown HttpResponse := .ok entry.response

def Recorded (handlers : List Handler) (entry : Entry) : Prop :=
  ∃ phase, handlers[entry.index]? = some ⟨entry.request, phase⟩ ∧
    phase.outcome? = some entry.outcome

inductive Turn (first : Except Thrown Unit × Disk) (handlers : List Handler) (order : List Nat)
    (log : List Entry) (root : Disk) : Prop
  | idle (ordered : order = log.map Entry.index)
      (taken : Program.inTurn perform (log.map (Entry.program baseDir)) first.2 =
        (log.map Entry.outcome, root))
  | busy (index : Nat) (request : HttpRequest) (mutex : Nat)
      (rest : Program FileCall FileCall.Answer HttpResponse)
      (placed : handlers[index]? = some ⟨request, .running mutex rest⟩)
      (ordered : order = log.map Entry.index ++ [index]) (rooted : first.1 = .ok ())
      (taking : Program.Taking perform first.2 (log.map (Entry.program baseDir))
        (log.map Entry.outcome) (EntityHandler.handleRequest baseDir request).run
        (Except.ok <$> rest) root)

/-- `root` is the disk with its root created, which is the disk itself as soon as
one handler has done that; `log` is what the handlers that are through did. -/
structure Serial (disk : Disk) (state : State Disk) (log : List Entry) (root : Disk) : Prop where
  created : createRoot perform baseDir state.disk = ((createRoot perform baseDir disk).1, root)
  settled : createRoot perform baseDir root = ((createRoot perform baseDir disk).1, root)
  begun : state.handlers ≠ [] ∧ state.disk = root ∨
    state.disk = disk ∧ ∀ handler ∈ state.handlers, handler.phase = .constructed
  recorded : ∀ entry ∈ log, Recorded state.handlers entry
  turn : Turn perform baseDir (createRoot perform baseDir disk) state.handlers state.order log root
  unserved : ∀ index handler, state.handlers[index]? = some handler → index ∉ state.order →
    handler.phase.Unserved (createRoot perform baseDir disk).1

end Serial

section Alone

variable {Disk : Type} {perform : (call : FileCall) → Disk → call.Answer × Disk}
  {baseDir : Bytes}

theorem handle_alone (request : HttpRequest) (disk : Disk) :
    Program.exec perform (EntityHandler.handleRequest baseDir request).run disk =
      match createRoot perform baseDir disk with
      | (.ok (), root) =>
          Program.exec perform (Except.ok <$> EntityHandler.locked baseDir request) root
      | (.error thrown, root) => (.error thrown, root) := by
  rw [EntityHandler.handleRequest, ExceptT.run_bind, Program.exec_bind]
  unfold createRoot
  rcases Program.exec perform (RealFilesystem.create baseDir).run disk with ⟨created, root⟩
  cases created with
  | ok created => rfl
  | error thrown => rfl

end Alone

section Moves

variable {Disk : Type} {perform : (call : FileCall) → Disk → call.Answer × Disk}
  {baseDir : Bytes} {disk root : Disk} {state next : State Disk} {log : List Entry}
  {event : Event}

theorem recorded_set {handlers : List Handler} {index : Nat} {old new : Handler} {entry : Entry}
    (placed : handlers[index]? = some old) (sameRequest : new.request = old.request)
    (keeps : ∀ outcome, old.phase.outcome? = some outcome → new.phase.outcome? = some outcome)
    (recorded : Recorded handlers entry) : Recorded (handlers.set index new) entry := by
  obtain ⟨phase, found, answered⟩ := recorded
  by_cases same : index = entry.index
  · subst same
    cases placed.symm.trans found
    have named : new.request = entry.request := sameRequest
    refine ⟨new.phase, ?_, keeps _ answered⟩
    rw [handler_after_set placed, if_pos rfl, ← named]
  · refine ⟨phase, ?_, answered⟩
    rw [handler_after_set placed, if_neg same, found]

theorem recorded_set_pending {handlers : List Handler} {index : Nat} {old new : Handler}
    {entry : Entry} (placed : handlers[index]? = some old) (sameRequest : new.request = old.request)
    (pending : old.phase.outcome? = none) (recorded : Recorded handlers entry) :
    Recorded (handlers.set index new) entry := by
  apply recorded_set placed sameRequest _ recorded
  intro outcome answered
  cases pending.symm.trans answered

theorem not_logged {handlers : List Handler} {index : Nat} {old : Handler}
    (placed : handlers[index]? = some old) (pending : old.phase.outcome? = none)
    (recorded : ∀ entry ∈ log, Recorded handlers entry) : index ∉ log.map Entry.index := by
  intro member
  obtain ⟨entry, logged, rfl⟩ := List.mem_map.mp member
  obtain ⟨phase, found, answered⟩ := recorded entry logged
  cases placed.symm.trans found
  cases pending.symm.trans answered

theorem unserved_set {handlers : List Handler} {index : Nat} {old new : Handler}
    {order later : List Nat} {created : Except Thrown Unit}
    (placed : handlers[index]? = some old)
    (unserved : ∀ index handler, handlers[index]? = some handler → index ∉ order →
      handler.phase.Unserved created)
    (kept : order ⊆ later) (own : index ∉ later → new.phase.Unserved created) :
    ∀ other handler, (handlers.set index new)[other]? = some handler → other ∉ later →
      handler.phase.Unserved created := by
  intro other handler found waits
  rw [handler_after_set placed] at found
  split_ifs at found with same
  · subst same
    cases found
    exact own waits
  · exact unserved other handler found fun taken => waits (kept taken)

theorem set_nonempty {handlers : List Handler} {index : Nat} {old : Handler}
    (placed : handlers[index]? = some old) (new : Handler) : handlers.set index new ≠ [] := by
  intro empty
  rw [List.set_eq_nil_iff] at empty
  rw [empty] at placed
  cases placed

theorem root_of_begun (serial : Serial perform baseDir disk state log root) {index : Nat}
    {handler : Handler} (placed : state.handlers[index]? = some handler)
    (moved : handler.phase ≠ .constructed) : state.disk = root := by
  rcases serial.begun with ⟨_, same⟩ | ⟨_, untouched⟩
  · exact same
  · exact absurd (untouched handler (List.mem_of_getElem? placed)) moved

/-- A step of a handler that is not inside. -/
theorem serial_place (serial : Serial perform baseDir disk state log root) {index : Nat}
    {old new : Handler} (placed : state.handlers[index]? = some old)
    (outside : old.phase.Outside)
    (sameRequest : new.request = old.request)
    (keeps : ∀ outcome, old.phase.outcome? = some outcome → new.phase.outcome? = some outcome)
    (unserved : old.phase.Unserved (createRoot perform baseDir disk).1 →
      new.phase.Unserved (createRoot perform baseDir disk).1)
    (pool : MutexPool Bytes) (holder : Nat → Option Nat) :
    Serial perform baseDir disk ⟨pool, holder, root, state.handlers.set index new, state.order⟩
      log root where
  created := serial.settled
  settled := serial.settled
  begun := Or.inl ⟨set_nonempty placed new, rfl⟩
  recorded := fun entry logged =>
    recorded_set placed sameRequest keeps (serial.recorded entry logged)
  turn := by
    rcases serial.turn with ⟨ordered, taken⟩ | ⟨inside, request, mutex, rest, running, ordered,
      rooted, taking⟩
    · exact .idle ordered taken
    · have apart : index ≠ inside := by
        rintro rfl
        cases placed.symm.trans running
        exact outside
      refine .busy inside request mutex rest ?_ ordered rooted taking
      rw [handler_after_set placed, if_neg apart, running]
  unserved := unserved_set placed serial.unserved (List.Subset.refl _) fun waits =>
    unserved (serial.unserved index old placed waits)

theorem getElem_append_of_some {handlers : List Handler} {index : Nat} {handler : Handler}
    (placed : handlers[index]? = some handler) (new : List Handler) :
    (handlers ++ new)[index]? = some handler := by
  obtain ⟨inside, _⟩ := List.getElem?_eq_some_iff.mp placed
  rw [List.getElem?_append_left inside, placed]

theorem serial_construct (serial : Serial perform baseDir disk state log root)
    (pool : MutexPool Bytes) (request : HttpRequest) :
    Serial perform baseDir disk
      { state with pool, handlers := state.handlers ++ [⟨request, .constructed⟩] } log root where
  created := serial.created
  settled := serial.settled
  begun := by
    rcases serial.begun with ⟨_, same⟩ | ⟨same, untouched⟩
    · exact Or.inl ⟨by simp, same⟩
    · refine Or.inr ⟨same, ?_⟩
      intro handler member
      rcases List.mem_append.mp member with old | new
      · exact untouched handler old
      · rw [List.mem_singleton.mp new]
  recorded := by
    intro entry logged
    obtain ⟨phase, found, answered⟩ := serial.recorded entry logged
    exact ⟨phase, getElem_append_of_some found _, answered⟩
  turn := by
    rcases serial.turn with ⟨ordered, taken⟩ | ⟨inside, other, mutex, rest, running, ordered,
      rooted, taking⟩
    · exact .idle ordered taken
    · exact .busy inside other mutex rest (getElem_append_of_some running _) ordered rooted taking
  unserved := by
    intro index handler found waits
    rcases Nat.lt_or_ge index state.handlers.length with inside | beyond
    · rw [List.getElem?_append_left inside] at found
      exact serial.unserved index handler found waits
    · rw [List.getElem?_append_right beyond] at found
      rw [List.mem_singleton.mp (List.mem_of_getElem? found)]
      trivial

/-- The lock is free only when every handler that took it has given it back. -/
theorem serial_lock (coherent : Coherent baseDir state)
    (serial : Serial perform baseDir disk state log root) {index : Nat} {request : HttpRequest}
    {mutex : Nat} (placed : state.handlers[index]? = some ⟨request, .waiting mutex⟩)
    (free : state.holder mutex = none) (holder : Nat → Option Nat) :
    Serial perform baseDir disk
      ({ state with holder, order := state.order ++ [index] }.place index request
        (.running mutex (EntityHandler.locked baseDir request))) log root := by
  have same := root_of_begun serial placed fun differ => by cases differ
  rcases serial.turn with ⟨ordered, taken⟩ | ⟨inside, other, held, rest, running, _⟩
  · have absent : index ∉ state.order := by
      rw [ordered]
      exact not_logged placed rfl serial.recorded
    have rooted : (createRoot perform baseDir disk).1 = .ok () :=
      serial.unserved index _ placed absent
    have settled := serial.settled
    rw [rooted] at settled
    constructor
    · exact serial.created
    · exact serial.settled
    · exact Or.inl ⟨set_nonempty placed _, same⟩
    · intro entry logged
      exact recorded_set_pending placed rfl rfl (serial.recorded entry logged)
    · refine .busy index request mutex (EntityHandler.locked baseDir request) ?_ ?_ rooted
        ⟨root, taken, ?_⟩
      · simp only [State.place, handler_after_set placed, if_pos]
      · simp only [State.place, ordered]
      · rw [handle_alone, settled]
    · apply unserved_set placed serial.unserved (List.subset_append_left _ _)
      intro waits
      exact absurd (List.mem_append_right _ List.mem_cons_self) waits
  · -- A handler inside holds the mutex that this one waits for, but it is free.
    have waiting : _ = some mutex := coherent.uses _ (List.mem_of_getElem? placed)
    have stored : _ = some held := coherent.uses _ (List.mem_of_getElem? running)
    cases waiting.symm.trans stored
    have holds := (coherent.held mutex inside).mpr ⟨_, _, running⟩
    cases free.symm.trans holds

theorem turn_of_inside (coherent : Coherent baseDir state)
    (serial : Serial perform baseDir disk state log root) {index : Nat} {request : HttpRequest}
    {mutex : Nat} {rest : Program FileCall FileCall.Answer HttpResponse}
    (placed : state.handlers[index]? = some ⟨request, .running mutex rest⟩) :
    state.order = log.map Entry.index ++ [index] ∧ (createRoot perform baseDir disk).1 = .ok () ∧
      Program.Taking perform (createRoot perform baseDir disk).2
        (log.map (Entry.program baseDir)) (log.map Entry.outcome)
        (EntityHandler.handleRequest baseDir request).run (Except.ok <$> rest) root := by
  rcases serial.turn with ⟨ordered, taken⟩ | ⟨inside, other, held, left, running, ordered,
    rooted, taking⟩
  · have absent : index ∉ state.order := by
      rw [ordered]
      exact not_logged placed rfl serial.recorded
    exact (serial.unserved index _ placed absent).elim
  · have same : index = inside :=
      one_inside coherent ⟨_, _, _, placed⟩ ⟨_, _, _, running⟩
    subst same
    cases placed.symm.trans running
    exact ⟨ordered, rooted, taking⟩

theorem serial_call (coherent : Coherent baseDir state)
    (serial : Serial perform baseDir disk state log root) {index : Nat} {request : HttpRequest}
    {mutex : Nat} {call : FileCall}
    {onward : call.Answer → Program FileCall FileCall.Answer HttpResponse}
    (placed : state.handlers[index]? = some ⟨request, .running mutex (.ask call onward)⟩)
    (keeps : createRoot perform baseDir state.disk = (.ok (), state.disk) →
      createRoot perform baseDir (perform call state.disk).2 =
        (.ok (), (perform call state.disk).2)) :
    Serial perform baseDir disk
      ({ state with disk := (perform call state.disk).2 }.place index request
        (.running mutex (onward (perform call state.disk).1))) log
      (perform call state.disk).2 := by
  have same := root_of_begun serial placed fun differ => by cases differ
  obtain ⟨ordered, rooted, taking⟩ := turn_of_inside coherent serial placed
  have settled := serial.settled
  rw [← same, rooted] at settled
  have later := keeps settled
  rw [← rooted] at later
  constructor
  · exact later
  · exact later
  · exact Or.inl ⟨set_nonempty placed _, rfl⟩
  · intro entry logged
    exact recorded_set_pending placed rfl rfl (serial.recorded entry logged)
  · refine .busy index request mutex (onward (perform call state.disk).1) ?_ ordered rooted ?_
    · simp only [State.place, handler_after_set placed, if_pos]
    · rw [← same] at taking
      exact Program.taking_call taking
  · apply unserved_set placed serial.unserved (List.Subset.refl _)
    intro waits
    rw [ordered] at waits
    exact absurd (List.mem_append_right _ List.mem_cons_self) waits

theorem serial_unlock (coherent : Coherent baseDir state)
    (serial : Serial perform baseDir disk state log root) {index : Nat} {request : HttpRequest}
    {mutex : Nat} {response : HttpResponse}
    (placed : state.handlers[index]? = some ⟨request, .running mutex (.done response)⟩)
    (holder : Nat → Option Nat) :
    Serial perform baseDir disk
      ({ state with holder }.place index request (.answered (.ok response)))
      (log ++ [⟨index, request, response⟩]) root := by
  have same := root_of_begun serial placed fun differ => by cases differ
  obtain ⟨ordered, rooted, taking⟩ := turn_of_inside coherent serial placed
  constructor
  · exact serial.created
  · exact serial.settled
  · exact Or.inl ⟨set_nonempty placed _, same⟩
  · intro entry logged
    rcases List.mem_append.mp logged with old | new
    · exact recorded_set_pending placed rfl rfl (serial.recorded entry old)
    · rw [List.mem_singleton.mp new]
      refine ⟨.answered (.ok response), ?_, rfl⟩
      simp only [State.place, handler_after_set placed, if_pos]
  · apply Turn.idle
    · simp only [State.place, ordered, List.map_append, List.map_cons, List.map_nil]
    · rw [List.map_append, List.map_append]
      exact Program.taking_done taking
  · apply unserved_set placed serial.unserved (List.Subset.refl _)
    intro waits
    rw [ordered] at waits
    exact absurd (List.mem_append_right _ List.mem_cons_self) waits

theorem serial_move (coherent : Coherent baseDir state)
    (serial : Serial perform baseDir disk state log root)
    (move : Move perform baseDir state event next) (keeps : KeepsRoot perform baseDir state event)
    (stepped : step perform baseDir state event = some next) :
    ∃ log root, Serial perform baseDir disk next log root := by
  cases move with
  | construct request pool inserted => exact ⟨log, root, serial_construct serial pool request⟩
  | create index request placed =>
      refine ⟨log, root, ?_⟩
      rw [serial.created]
      refine serial_place serial placed trivial ?_
        (fun _ differ => by cases differ) ?_ _ _
      · rfl
      · intro _
        cases (createRoot perform baseDir disk).1 with
        | ok => rfl
        | error thrown => exact ⟨thrown, rfl, rfl⟩
  | request index request mutex placed stored =>
      have same := root_of_begun serial placed fun differ => by cases differ
      refine ⟨log, root, ?_⟩
      subst same
      refine serial_place serial placed trivial ?_
        (fun _ differ => by cases differ) ?_ _ _
      · rfl
      · exact fun created => created
  | lock index request mutex placed free =>
      exact ⟨log, root, serial_lock coherent serial placed free _⟩
  | call index request mutex call onward placed =>
      exact ⟨log, _, serial_call coherent serial placed (keeps _ stepped)⟩
  | unlock index request mutex response placed =>
      exact ⟨_, root, serial_unlock coherent serial placed _⟩
  | destroy index request outcome pool placed erased =>
      have same := root_of_begun serial placed fun differ => by cases differ
      refine ⟨log, root, ?_⟩
      subst same
      refine serial_place serial placed trivial ?_ ?_ ?_ _ _
      · rfl
      · exact fun _ answered => answered
      · exact fun unserved => unserved

theorem serial_start (settles : RootSettles perform baseDir disk) :
    Serial perform baseDir disk (start disk) [] (createRoot perform baseDir disk).2 where
  created := rfl
  settled := settles
  begun := Or.inr ⟨rfl, by simp [start]⟩
  recorded := by simp
  turn := .idle rfl rfl
  unserved := by simp [start]

theorem serial_run (nonempty : baseDir ≠ []) (settles : RootSettles perform baseDir disk)
    {events : List Event}
    (each : EachStep (step perform baseDir) (KeepsRoot perform baseDir) (start disk) events)
    (ran : run (step perform baseDir) (start disk) events = some state) :
    ∃ log root, Serial perform baseDir disk state log root := by
  have both : Coherent baseDir state ∧ ∃ log root, Serial perform baseDir disk state log root := by
    apply invariant_of_each_step _ _ events each ran
    · exact ⟨coherent_start disk, [], _, serial_start settles⟩
    · intro state event next holds keeps stepped
      obtain ⟨coherent, log, root, serial⟩ := holds
      have move := move_of_step nonempty coherent stepped
      exact ⟨coherent_move coherent move, serial_move coherent serial move keeps stepped⟩
  exact both.2

end Moves

/-! ## When every handler is done -/

section Finished

variable {Disk : Type} {perform : (call : FileCall) → Disk → call.Answer × Disk}
  {baseDir : Bytes} {disk root : Disk} {state : State Disk} {log : List Entry}

theorem requests_of_log (recorded : ∀ entry ∈ log, Recorded state.handlers entry) :
    state.requestsOf (log.map Entry.index) = log.map Entry.request := by
  induction log with
  | nil => rfl
  | cons entry log ih =>
      obtain ⟨phase, found, _⟩ := recorded entry List.mem_cons_self
      have later := ih fun other member => recorded other (List.mem_cons_of_mem _ member)
      simp only [State.requestsOf] at later ⊢
      simp only [List.map_cons, List.filterMap_cons, found, Option.map_some, later]

theorem outcomes_of_log (recorded : ∀ entry ∈ log, Recorded state.handlers entry) :
    state.outcomesOf (log.map Entry.index) = log.map Entry.outcome := by
  induction log with
  | nil => rfl
  | cons entry log ih =>
      obtain ⟨phase, found, answered⟩ := recorded entry List.mem_cons_self
      have later := ih fun other member => recorded other (List.mem_cons_of_mem _ member)
      simp only [State.outcomesOf] at later ⊢
      simp only [List.map_cons, List.filterMap_cons, found, Option.bind_some, answered, later]

theorem outcomes_of_same {outcome : Except Thrown HttpResponse}
    (same : ∀ handler ∈ state.handlers, handler.phase.outcome? = some outcome)
    (indices : List Nat) :
    state.outcomesOf indices = (state.requestsOf indices).map fun _ => outcome := by
  simp only [State.requestsOf, State.outcomesOf, List.map_filterMap]
  apply congrArg (fun part => indices.filterMap part)
  funext index
  cases found : state.handlers[index]? with
  | none => rfl
  | some handler => simp [same handler (List.mem_of_getElem? found)]

theorem requests_of_nonempty {arrangement : List Nat} (some : state.handlers ≠ [])
    (all : arrangement.Perm (List.range state.handlers.length)) :
    state.requestsOf arrangement ≠ [] := by
  have inside : 0 < state.handlers.length := List.length_pos_iff.mpr some
  have member : 0 ∈ arrangement := all.mem_iff.mpr (List.mem_range.mpr inside)
  have found := List.getElem?_eq_getElem inside
  have listed : state.handlers[0].request ∈ state.requestsOf arrangement :=
    List.mem_filterMap.mpr ⟨0, member, by rw [found]; rfl⟩
  exact List.ne_nil_of_mem listed

theorem serve_from_root (settles : RootSettles perform baseDir disk) {requests : List HttpRequest}
    (some : requests ≠ []) :
    serveInTurn perform baseDir requests disk =
      serveInTurn perform baseDir requests (createRoot perform baseDir disk).2 := by
  cases requests with
  | nil => exact absurd rfl some
  | cons request requests =>
      have same : Program.exec perform (EntityHandler.handleRequest baseDir request).run disk =
          Program.exec perform (EntityHandler.handleRequest baseDir request).run
            (createRoot perform baseDir disk).2 := by
        rw [handle_alone, handle_alone, settles]
      simp only [serveInTurn, List.map_cons, Program.inTurn, same]

/-- Once all are done, every handler has taken the lock, unless the root could not
be created. -/
theorem order_complete (serial : Serial perform baseDir disk state log root)
    (finished : state.Finished) (rooted : (createRoot perform baseDir disk).1 = .ok ())
    {arrangement : List Nat} (all : arrangement.Perm (List.range state.handlers.length))
    (keeps : state.order.Sublist arrangement) : state.order = arrangement := by
  have taken : List.range state.handlers.length ⊆ state.order := by
    intro index inside
    by_contra absent
    -- A handler that ends without the lock has failed to create the root.
    have found := List.getElem?_eq_getElem (List.mem_range.mp inside)
    have unserved := serial.unserved index _ found absent
    obtain ⟨outcome, gone⟩ := finished _ (List.getElem_mem (List.mem_range.mp inside))
    rw [gone] at unserved
    obtain ⟨thrown, failed, _⟩ := unserved
    cases rooted.symm.trans failed
  apply keeps.eq_of_length_le
  rw [all.length_eq]
  exact List.Nodup.length_le_of_subset List.nodup_range taken

theorem idle_when_finished (serial : Serial perform baseDir disk state log root)
    (finished : state.Finished) :
    state.order = log.map Entry.index ∧
      serveInTurn perform baseDir (log.map Entry.request) (createRoot perform baseDir disk).2 =
        (log.map Entry.outcome, root) := by
  rcases serial.turn with ⟨ordered, taken⟩ | ⟨index, request, mutex, rest, running, _⟩
  · refine ⟨ordered, ?_⟩
    rw [serveInTurn, List.map_map]
    exact taken
  · obtain ⟨outcome, gone⟩ := finished _ (List.mem_of_getElem? running)
    cases gone

theorem all_failed (settles : RootSettles perform baseDir disk)
    (serial : Serial perform baseDir disk state log root) (finished : state.Finished)
    {thrown : Thrown} (failed : (createRoot perform baseDir disk).1 = .error thrown)
    (indices : List Nat) :
    serveInTurn perform baseDir (state.requestsOf indices) (createRoot perform baseDir disk).2 =
      (state.outcomesOf indices, root) := by
  obtain ⟨ordered, taken⟩ := idle_when_finished serial finished
  have alone : ∀ request, Program.exec perform
      (EntityHandler.handleRequest baseDir request).run (createRoot perform baseDir disk).2 =
        (.error thrown, (createRoot perform baseDir disk).2) := by
    intro request
    have failing : createRoot perform baseDir disk =
        (.error thrown, (createRoot perform baseDir disk).2) := Prod.ext failed rfl
    rw [handle_alone, settles, failing]
  have constant : ∀ requests, serveInTurn perform baseDir requests
      (createRoot perform baseDir disk).2 =
        (requests.map fun _ => .error thrown, (createRoot perform baseDir disk).2) := by
    intro requests
    rw [serveInTurn, Program.in_turn_constant, List.map_map]
    · rfl
    · intro program member
      obtain ⟨request, _, rfl⟩ := List.mem_map.mp member
      exact alone request
  rw [constant] at taken
  have unlogged : log = [] := by
    cases log with
    | nil => rfl
    | cons entry log => cases (Prod.ext_iff.mp taken).1
  have unchanged : (createRoot perform baseDir disk).2 = root := (Prod.ext_iff.mp taken).2
  have ends : ∀ handler ∈ state.handlers, handler.phase.outcome? = some (.error thrown) := by
    intro handler member
    obtain ⟨index, found⟩ := List.mem_iff_getElem?.mp member
    have absent : index ∉ state.order := by
      rw [ordered, unlogged]
      exact List.not_mem_nil
    have unserved := serial.unserved index handler found absent
    obtain ⟨outcome, gone⟩ := finished handler member
    rw [gone] at unserved ⊢
    obtain ⟨other, failed', ended⟩ := unserved
    cases failed.symm.trans failed'
    exact congrArg some ended
  rw [constant, unchanged, outcomes_of_same ends]

theorem finished_in_turn (settles : RootSettles perform baseDir disk)
    (serial : Serial perform baseDir disk state log root) (finished : state.Finished)
    {arrangement : List Nat} (all : arrangement.Perm (List.range state.handlers.length))
    (keeps : state.order.Sublist arrangement) :
    serveInTurn perform baseDir (state.requestsOf arrangement) disk =
      (state.outcomesOf arrangement, state.disk) := by
  obtain ⟨ordered, taken⟩ := idle_when_finished serial finished
  rcases serial.begun with ⟨some, same⟩ | ⟨same, untouched⟩
  · rw [serve_from_root settles (requests_of_nonempty some all), same]
    cases created : (createRoot perform baseDir disk).1 with
    | ok =>
        rw [← order_complete serial finished created all keeps, ordered,
          requests_of_log serial.recorded, outcomes_of_log serial.recorded]
        exact taken
    | error thrown => exact all_failed settles serial finished created arrangement
  · have none : state.handlers = [] := by
      apply List.eq_nil_iff_forall_not_mem.mpr
      intro handler member
      obtain ⟨outcome, gone⟩ := finished handler member
      cases gone.symm.trans (untouched handler member)
    rw [none] at all
    rw [List.perm_nil.mp all, same]
    rfl

/-- Whatever the interleaving, the pool never throws and at most one handler is
inside. When all are done, the disk and the answers are those of the handlers one
after the other in the order they took the lock, provided that no call under the
lock takes away the root, which is created outside of it. -/
theorem entity_requests_serializable (perform : (call : FileCall) → Disk → call.Answer × Disk)
    (baseDir : Bytes) (nonempty : baseDir ≠ []) (disk : Disk) (events : List Event)
    (state : State Disk) (ran : run (step perform baseDir) (start disk) events = some state) :
    (∀ handler ∈ state.handlers, ∀ thrown, handler.phase ≠ .failed thrown) ∧
    (∀ first second, state.Inside first → state.Inside second → first = second) ∧
    (RootSettles perform baseDir disk →
      EachStep (step perform baseDir) (KeepsRoot perform baseDir) (start disk) events →
      state.Finished →
      ∀ arrangement : List Nat, arrangement.Perm (List.range state.handlers.length) →
        state.order.Sublist arrangement →
        serveInTurn perform baseDir (state.requestsOf arrangement) disk =
          (state.outcomesOf arrangement, state.disk)) := by
  have coherent := coherent_run nonempty ran
  refine ⟨?_, ?_, ?_⟩
  · intro handler member thrown failed
    have uses := coherent.uses handler member
    rw [failed] at uses
    exact uses
  · intro first second firstInside secondInside
    exact one_inside coherent firstInside secondInside
  · intro settles each finished arrangement all keeps
    obtain ⟨log, root, serial⟩ := serial_run nonempty settles each ran
    exact finished_in_turn settles serial finished all keeps

end Finished

/-! ## On a disk -/

theorem tree_root_settles (baseDir : Bytes) (tree : Tree) :
    RootSettles Tree.perform baseDir tree := by
  have created : ∀ tree : Tree, createRoot Tree.perform baseDir tree =
      ((tree.createDirectories baseDir).1.mapError .other,
        (tree.createDirectories baseDir).2) := fun tree => rfl
  rw [RootSettles, created, created]
  simp only [Tree.create_again]

def checkKeepsRoot (baseDir : Bytes) (state : State Tree) : Event → Bool
  | .call index =>
      match step Tree.perform baseDir state (.call index) with
      | none => true
      | some next => createRoot Tree.perform baseDir next.disk = (.ok (), next.disk)
  | _ => true

theorem keeps_root_of_check (baseDir : Bytes) (state : State Tree) (event : Event)
    (checked : checkKeepsRoot baseDir state event = true) :
    KeepsRoot Tree.perform baseDir state event := by
  cases event with
  | call index =>
      intro next stepped _
      simp only [checkKeepsRoot, Option.mem_def.mp stepped, decide_eq_true_eq] at checked
      exact checked
  | _ => trivial

def Phase.isDestroyed : Phase → Bool
  | .destroyed _ => true
  | _ => false

instance (state : State Tree) : Decidable state.Finished :=
  decidable_of_iff (∀ handler ∈ state.handlers, handler.phase.isDestroyed = true)
    (forall₂_congr fun handler _ => by
      cases handler.phase <;> simp [Phase.isDestroyed])

def bodies (outcomes : List (Except Thrown HttpResponse)) : List (Option Bytes) :=
  outcomes.map fun outcome => outcome.toOption.map HttpResponse.body

def entityRequest (method path body : String) : HttpRequest where
  method := method.toList
  path := path.toList
  version := "HTTP/1.1".toList
  headers := OrderedMap.empty
  body := body.toList

def dataRoot : Bytes := "/data".toList

def twoPosts : List Event :=
  [.construct (entityRequest "POST" "/api/notes" "late"), .create 0,
    .construct (entityRequest "POST" "/api/notes" "early"), .create 1, .request 0, .request 1,
    .lock 1, .call 1, .call 1, .call 1, .unlock 1, .lock 0, .call 0, .call 0, .call 0, .destroy 1,
    .call 0, .call 0, .unlock 0, .destroy 0]

theorem entity_requests_serializable_posts :
    ∃ state, run (step Tree.perform dataRoot) (start []) twoPosts = some state ∧
      bodies (state.outcomesOf [1, 0]) =
        ["\x7b\"id\": \"1\"\x7d".toList, "\x7b\"id\": \"2\"\x7d".toList].map some ∧
      serveInTurn Tree.perform dataRoot (state.requestsOf [1, 0]) [] =
        (state.outcomesOf [1, 0], state.disk) := by
  have possible : (run (step Tree.perform dataRoot) (start []) twoPosts).isSome = true := by
    decide +kernel
  have facts : ∀ state ∈ run (step Tree.perform dataRoot) (start []) twoPosts,
      state.Finished ∧ state.handlers.length = 2 ∧ state.order = [1, 0] ∧
        bodies (state.outcomesOf [1, 0]) =
          ["\x7b\"id\": \"1\"\x7d".toList, "\x7b\"id\": \"2\"\x7d".toList].map some := by
    decide +kernel
  have each : EachStep (step Tree.perform dataRoot) (KeepsRoot Tree.perform dataRoot) (start [])
      twoPosts :=
    each_step_of_check (keeps_root_of_check dataRoot) (by decide +kernel)
  obtain ⟨state, ran⟩ := Option.isSome_iff_exists.mp possible
  obtain ⟨finished, two, order, answers⟩ := facts state ran
  refine ⟨state, ran, answers, ?_⟩
  apply (entity_requests_serializable Tree.perform dataRoot (by decide) [] twoPosts state ran).2.2
    (tree_root_settles dataRoot []) each finished
  · rw [two]
    decide
  · rw [order]

/-- Two handlers that take away the empty root, both created before. -/
def twoDeletes : List Event :=
  [.construct (entityRequest "DELETE" "/api///" ""), .create 0,
    .construct (entityRequest "DELETE" "/api///" ""), .create 1, .request 0, .request 1,
    .lock 0, .call 0, .unlock 0, .lock 1, .call 1, .unlock 1, .destroy 0, .destroy 1]

/-- One after the other, each handler finds the root that it has created itself. -/
theorem root_deletions_not_serializable :
    ¬ ∀ (baseDir : Bytes) (tree : Tree) (events : List Event) (state : State Tree),
      baseDir ≠ [] → run (step Tree.perform baseDir) (start tree) events = some state →
      state.Finished →
      serveInTurn Tree.perform baseDir (state.requestsOf state.order) tree =
        (state.outcomesOf state.order, state.disk) := by
  intro serializable
  have possible : (run (step Tree.perform dataRoot) (start []) twoDeletes).isSome = true := by
    decide +kernel
  have facts : ∀ state ∈ run (step Tree.perform dataRoot) (start []) twoDeletes,
      state.Finished ∧
        bodies (serveInTurn Tree.perform dataRoot (state.requestsOf state.order) []).1 ≠
          bodies (state.outcomesOf state.order) := by
    decide +kernel
  obtain ⟨state, ran⟩ := Option.isSome_iff_exists.mp possible
  obtain ⟨finished, differ⟩ := facts state ran
  apply differ
  rw [serializable dataRoot [] twoDeletes state (by decide) ran finished]

end RestfulWebserver.Entity
