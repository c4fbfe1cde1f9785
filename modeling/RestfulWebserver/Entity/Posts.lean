import RestfulWebserver.Entity.Fresh
import RestfulWebserver.Entity.Addressing
import RestfulWebserver.Entity.Linearizable

/-!
# Entities that are created at once

Each `POST` looks for the largest id and writes one above it, in two calls of the
file system. However many run side by side, no two of them create the same entity
and none is lost, where nobody deletes or replaces one.
-/

namespace RestfulWebserver.Entity

open RestfulWebserver.Library RestfulWebserver.Http

/-- The request neither replaces nor deletes an entity. -/
def Adds (request : HttpRequest) : Prop :=
  request.method ≠ "PUT".toList ∧ request.method ≠ "DELETE".toList

def Event.Adds : Event → Prop
  | .construct arrived => Entity.Adds arrived
  | _ => True

def State.Created {Disk : Type} (state : State Disk) (index : Nat) (event : EntityRequest)
    (id : FileName) : Prop :=
  event.request.method = "POST".toList ∧ ∃ handler, state.handlers[index]? = some handler ∧
    handler.request = event.request ∧
    handler.phase.outcome? = some (.ok (idResponse id.name))

/-! ## On the store -/

def Store.Grows (store after : Store) : Prop :=
  ∀ key contents, store key = some contents → after key = some contents

section Growing

variable {baseDir : Bytes} {store after : Store} {event : EntityRequest} {id : FileName}

theorem new_id_absent {ids : List FileName} (lists : store.Lists event.name ids)
    (valid : ValidId (Store.newId ids).name) : store (event.name, Store.newId ids) = none := by
  have fresh := Store.next_number_absent ((new_id_valid_iff ids).mp valid)
  cases stored : store (event.name, Store.newId ids) with
  | none => rfl
  | some contents =>
      have listed : Store.newId ids ∈ ids := (lists.complete _).mpr (by rw [stored]; rfl)
      exact absurd (List.mem_map_of_mem listed) fresh

theorem serves_grows {response : HttpResponse} (adds : Adds event.request)
    (serves : Serves baseDir event store response after) : store.Grows after := by
  intro key contents stored
  cases serves with
  | posted post lists valid =>
      rw [Store.set_other]
      · exact stored
      · rintro rfl
        rw [new_id_absent lists valid] at stored
        cases stored
  | put put => exact absurd put adds.1
  | deleted delete => exact absurd delete adds.2
  | _ => exact stored

theorem serves_created (post : event.request.method = "POST".toList)
    (serves : Serves baseDir event store (idResponse id.name) after) :
    store (event.name, id) = none ∧ after (event.name, id) = some event.request.body := by
  generalize same : idResponse id.name = response at serves
  cases serves with
  | posted _ lists valid =>
      have named : id = Store.newId _ := file_name_inj (id_response_inj same)
      rw [named]
      exact ⟨new_id_absent lists valid, Store.set_here _ _ _ _⟩
  | postRefused =>
      have status := congrArg HttpResponse.status same
      cases status
  | listed get | got get | notGot get =>
      rw [post] at get
      cases get
  | put put | putRefused put | putNowhere put =>
      rw [post] at put
      cases put
  | deleted delete | notDeleted delete | deletedNowhere delete =>
      rw [post] at delete
      cases delete
  | unsupported noPost => exact absurd post noPost

theorem steps_grow {labels : List (EntityRequest × Except Thrown HttpResponse)}
    (adds : ∀ label ∈ labels, Adds label.1.request)
    (steps : Program.Steps (StoreStep baseDir) store labels after) : store.Grows after := by
  induction steps with
  | done store => exact fun _ _ stored => stored
  | next first rest ih =>
      obtain ⟨here, later⟩ := List.forall_mem_cons.mp adds
      obtain ⟨response, _, serves, _⟩ := first
      intro key contents stored
      exact ih later key contents (serves_grows here serves key contents stored)

theorem created_in_steps (post : event.request.method = "POST".toList)
    {early late : List (EntityRequest × Except Thrown HttpResponse)}
    (adds : ∀ label ∈ late, Adds label.1.request)
    (steps : Program.Steps (StoreStep baseDir) store
      (early ++ (event, .ok (idResponse id.name)) :: late) after) :
    after (event.name, id) = some event.request.body ∧
      ∃ before, Program.Steps (StoreStep baseDir) store early before ∧
        before (event.name, id) = none := by
  obtain ⟨before, first, rest⟩ := Program.steps_append steps
  cases rest with
  | next here rest =>
      obtain ⟨response, same, serves, _⟩ := here
      cases same
      obtain ⟨free, stored⟩ := serves_created post serves
      exact ⟨steps_grow adds rest _ _ stored, before, first, free⟩

/-- An id that one `POST` has taken is not free for another. -/
theorem created_once {other : EntityRequest} (post : event.request.method = "POST".toList)
    (otherPost : other.request.method = "POST".toList) (same : event.name = other.name)
    {early between late : List (EntityRequest × Except Thrown HttpResponse)}
    (adds : ∀ label ∈ between, Adds label.1.request)
    (lateAdds : ∀ label ∈ late, Adds label.1.request)
    (steps : Program.Steps (StoreStep baseDir) store
      ((early ++ (event, .ok (idResponse id.name)) :: between) ++
        (other, .ok (idResponse id.name)) :: late) after) : False := by
  obtain ⟨_, before, first, free⟩ := created_in_steps otherPost lateAdds steps
  obtain ⟨stored, _⟩ := created_in_steps post adds first
  rw [same, free] at stored
  cases stored

end Growing

/-! ## Handlers and their labels -/

section Labels

variable {Disk : Type} {state : State Disk}

theorem label_of_handler {front back : List Nat} {index : Nat} {handler : Handler}
    {outcome : Except Thrown HttpResponse} (answered : ∀ other ∈ front, state.Answered other)
    (found : state.handlers[index]? = some handler)
    (ended : handler.phase.outcome? = some outcome) {requests : List EntityRequest}
    (asked : requests.map EntityRequest.request = state.requestsOf (front ++ index :: back)) :
    ∃ (early : List EntityRequest) (event : EntityRequest) (late : List EntityRequest),
      event.request = handler.request ∧
      early.map EntityRequest.request = state.requestsOf front ∧
      late.map EntityRequest.request = state.requestsOf back ∧
      requests.zip (state.outcomesOf (front ++ index :: back)) =
        early.zip (state.outcomesOf front) ++ (event, outcome) ::
          late.zip (state.outcomesOf back) := by
  have parts : state.requestsOf (front ++ index :: back) =
      state.requestsOf front ++ handler.request :: state.requestsOf back := by
    simp only [State.requestsOf, List.filterMap_append, List.filterMap_cons, found,
      Option.map_some]
  have ends : state.outcomesOf (front ++ index :: back) =
      state.outcomesOf front ++ outcome :: state.outcomesOf back := by
    simp only [State.outcomesOf, List.filterMap_append, List.filterMap_cons, found,
      Option.bind_some, ended]
  rw [parts] at asked
  obtain ⟨early, rest, rfl, inFront, behind⟩ := List.map_eq_append_iff.mp asked
  obtain ⟨event, late, rfl, same, inBack⟩ := List.map_eq_cons_iff.mp behind
  have lengths := (answered_lengths answered).1.trans (answered_lengths answered).2.symm
  rw [← inFront, List.length_map] at lengths
  refine ⟨early, event, late, same, inFront, inBack, ?_⟩
  rw [ends, List.zip_append lengths, List.zip_cons_cons]

theorem labels_add (adds : ∀ handler ∈ state.handlers, Adds handler.request)
    {arrangement : List Nat} {requests : List EntityRequest}
    {outcomes : List (Except Thrown HttpResponse)}
    (asked : requests.map EntityRequest.request = state.requestsOf arrangement) :
    ∀ label ∈ requests.zip outcomes, Adds label.1.request := by
  intro label member
  have inRequests : label.1.request ∈ requests.map EntityRequest.request :=
    List.mem_map_of_mem (List.of_mem_zip member).1
  rw [asked] at inRequests
  obtain ⟨index, _, found⟩ := List.mem_filterMap.mp inRequests
  obtain ⟨handler, placed, same⟩ := Option.map_eq_some_iff.mp found
  rw [← same]
  exact adds handler (List.mem_of_getElem? placed)

variable {perform : (call : FileCall) → Disk → call.Answer × Disk} {baseDir : Bytes}
  {disk : Disk} {next : State Disk} {event : Event}

theorem adds_set (adds : ∀ handler ∈ state.handlers, Adds handler.request) {index : Nat}
    {old : Handler} (placed : state.handlers[index]? = some old) (phase : Phase) :
    ∀ handler ∈ state.handlers.set index ⟨old.request, phase⟩, Adds handler.request := by
  intro handler member
  rcases List.mem_or_eq_of_mem_set member with kept | rfl
  · exact adds handler kept
  · exact adds old (List.mem_of_getElem? placed)

theorem adds_move (adds : ∀ handler ∈ state.handlers, Adds handler.request)
    (here : event.Adds) (move : Move perform baseDir state event next) :
    ∀ handler ∈ next.handlers, Adds handler.request := by
  cases move with
  | construct arrived pool inserted =>
      intro handler member
      rcases List.mem_append.mp member with old | new
      · exact adds handler old
      · rw [List.mem_singleton.mp new]
        exact here
  | create index request placed => exact adds_set adds placed _
  | request index request mutex placed stored => exact adds_set adds placed _
  | lock index request mutex placed free => exact adds_set adds placed _
  | call index request mutex call onward placed => exact adds_set adds placed _
  | unlock index request mutex response placed => exact adds_set adds placed _
  | destroy index request outcome pool placed erased => exact adds_set adds placed _

theorem adds_run (nonempty : baseDir ≠ []) {events : List Event}
    (adds : ∀ event ∈ events, event.Adds)
    (ran : run (step perform baseDir) (start disk) events = some state) :
    ∀ handler ∈ state.handlers, Adds handler.request := by
  have each : EachStep (step perform baseDir) (fun _ event => event.Adds) (start disk) events := by
    rintro before event after middle next rfl _ _
    exact adds event (by simp)
  have both : Coherent baseDir state ∧ ∀ handler ∈ state.handlers, Adds handler.request := by
    apply invariant_of_each_step _ _ events each ran
    · exact ⟨coherent_start disk, by simp [start]⟩
    · intro state event next holds here stepped
      obtain ⟨coherent, adds⟩ := holds
      have move := move_of_step nonempty coherent stepped
      exact ⟨coherent_move coherent move, adds_move adds here move⟩
  exact both.2

end Labels

/-! ## Any number of them -/

section Posting

variable {baseDir : Bytes} {disk : Disk} {events : List Event} {store : Store}
  {state : State Disk} {arrangement : List Nat} {requests : List EntityRequest} {after : Store}

theorem event_names {event other : EntityRequest} (same : event.request = other.request) :
    event.name = other.name := by
  have parts := parts_of_request event
  rw [same, parts_of_request other] at parts
  exact file_name_inj (Prod.mk.inj parts).1.symm

theorem created_stored
    (linearizes : Linearizes baseDir disk events store state arrangement requests after)
    (adds : ∀ handler ∈ state.handlers, Adds handler.request) {index : Nat}
    {event : EntityRequest} {id : FileName} (created : state.Created index event id) :
    after (event.name, id) = some event.request.body := by
  obtain ⟨post, handler, found, isRequest, ended⟩ := created
  have taken := (linearizes.answered index).mpr ⟨handler, _, found, ended⟩
  obtain ⟨front, back, rfl⟩ := List.append_of_mem taken
  have answered : ∀ other ∈ front, state.Answered other := fun other member =>
    (linearizes.answered other).mp (List.mem_append_left _ member)
  obtain ⟨early, other, late, same, _, inBack, labels⟩ :=
    label_of_handler answered found ended linearizes.asked
  have steps := linearizes.steps
  rw [labels] at steps
  have sameRequest : other.request = event.request := same.trans isRequest
  rw [← sameRequest] at post
  have stored := (created_in_steps post (labels_add adds inBack) steps).1
  rwa [event_names sameRequest, sameRequest] at stored

theorem created_in_order {front back : List Nat} {first second : Nat}
    (linearizes : Linearizes baseDir disk events store state (front ++ first :: back)
      requests after)
    (adds : ∀ handler ∈ state.handlers, Adds handler.request) (behind : second ∈ back)
    {event other : EntityRequest} {id : FileName} (created : state.Created first event id)
    (otherCreated : state.Created second other id) : event.name ≠ other.name := by
  intro sameName
  obtain ⟨post, handler, found, isRequest, ended⟩ := created
  obtain ⟨otherPost, otherHandler, otherFound, otherIsRequest, otherEnded⟩ := otherCreated
  obtain ⟨between, rest, rfl⟩ := List.append_of_mem behind
  have answered : ∀ index ∈ front ++ first :: (between ++ second :: rest),
      state.Answered index := fun index => (linearizes.answered index).mp
  obtain ⟨early, one, late, same, _, inBack, labels⟩ :=
    label_of_handler (fun index member => answered index (by simp [member])) found ended
      linearizes.asked
  obtain ⟨middle, two, last, otherSame, inBetween, inRest, others⟩ :=
    label_of_handler (fun index member => answered index (by simp [member])) otherFound otherEnded
      inBack
  have steps := linearizes.steps
  rw [labels, others, ← List.cons_append, ← List.append_assoc] at steps
  have sameRequest : one.request = event.request := same.trans isRequest
  have otherSameRequest : two.request = other.request := otherSame.trans otherIsRequest
  rw [← sameRequest] at post
  rw [← otherSameRequest] at otherPost
  rw [← event_names sameRequest, ← event_names otherSameRequest] at sameName
  exact created_once post otherPost sameName (labels_add adds inBetween) (labels_add adds inRest)
    steps

theorem created_apart
    (linearizes : Linearizes baseDir disk events store state arrangement requests after)
    (adds : ∀ handler ∈ state.handlers, Adds handler.request) {index other : Nat}
    {event another : EntityRequest} {id : FileName} (created : state.Created index event id)
    (otherCreated : state.Created other another id) (same : event.name = another.name) :
    index = other := by
  by_contra different
  have taken : index ∈ arrangement := by
    obtain ⟨_, handler, found, _, ended⟩ := created
    exact (linearizes.answered index).mpr ⟨handler, _, found, ended⟩
  have otherTaken : other ∈ arrangement := by
    obtain ⟨_, handler, found, _, ended⟩ := otherCreated
    exact (linearizes.answered other).mpr ⟨handler, _, found, ended⟩
  obtain ⟨front, back, rfl⟩ := List.append_of_mem taken
  rcases List.mem_append.mp otherTaken with before | behind
  · obtain ⟨start, between, rfl⟩ := List.append_of_mem before
    rw [List.append_assoc, List.cons_append] at linearizes
    exact created_in_order linearizes adds (by simp) otherCreated created same.symm
  · rcases List.mem_cons.mp behind with here | behind
    · exact different here.symm
    · exact created_in_order linearizes adds behind created otherCreated same

end Posting

/-- However the handlers of a root run side by side, two `POST` requests for one entity
never create the same id. When none is inside, each body is in a file under the id of
its answer, and every file of the store is as it was. -/
theorem posts_not_lost (baseDir : Bytes) (nonempty : baseDir ≠ []) (disk : Disk) (store : Store)
    (represents : Represents baseDir disk.tree store) (events : List Event)
    (named : ∀ event ∈ events, event.Named) (adds : ∀ event ∈ events, event.Adds)
    (state : State Disk)
    (ran : run (step Disk.perform baseDir) (start disk) events = some state) :
    (∀ index other event another id, state.Created index event id →
      state.Created other another id → event.name = another.name → index = other) ∧
    ((∀ index, ¬ state.Inside index) →
      (∀ index event id, state.Created index event id →
        state.disk.tree.lookup (Tree.placeAt baseDir ++ [event.name.name, id.name]) =
          some (some event.request.body)) ∧
      ∀ below contents, disk.tree.lookup (Tree.placeAt baseDir ++ below) = some (some contents) →
        state.disk.tree.lookup (Tree.placeAt baseDir ++ below) = some (some contents)) := by
  obtain ⟨arrangement, requests, after, linearizes⟩ := linearized nonempty represents named ran
  have allAdd := adds_run nonempty adds ran
  refine ⟨fun _ _ _ _ _ => created_apart linearizes allAdd, fun nobody => ?_⟩
  have holds := linearizes.files nobody
  constructor
  · intro index event id created
    have stored := created_stored linearizes allAdd created
    exact (holds.files _ _).mpr ⟨event.name, id, rfl, stored⟩
  · intro below contents before
    obtain ⟨name, id, place, stored⟩ := (represents.files below contents).mp before
    have grows := steps_grow (labels_add allAdd linearizes.asked) linearizes.steps
    exact (holds.files below contents).mpr ⟨name, id, place, grows _ _ stored⟩

def firstPost : EntityRequest := collectionRequest "POST".toList "a".toList

def secondPost : EntityRequest := collectionRequest "POST".toList "b".toList

def postBesidePost : List Event :=
  [.construct firstPost.request, .construct secondPost.request, .create 0, .create 1, .request 1,
    .request 0, .lock 1, .call 1, .call 1, .call 1, .unlock 1, .lock 0, .call 0, .call 0, .call 0,
    .call 0, .call 0, .unlock 0]

theorem posts_not_lost_two :
    ∃ state, run (step Disk.perform "/data".toList) (start (emptyDisk "data".toList))
        postBesidePost = some state ∧
      ∀ index other event another id, state.Created index event id →
        state.Created other another id → event.name = another.name → index = other := by
  have possible : (run (step Disk.perform "/data".toList) (start (emptyDisk "data".toList))
      postBesidePost).isSome = true := by decide +kernel
  obtain ⟨state, ran⟩ := Option.isSome_iff_exists.mp possible
  have built : ∀ arrived, Event.construct arrived ∈ postBesidePost →
      arrived = firstPost.request ∨ arrived = secondPost.request := by
    intro arrived member
    simpa only [postBesidePost, List.mem_cons, Event.construct.injEq, reduceCtorEq, or_false,
      List.not_mem_nil] using member
  have named : ∀ event ∈ postBesidePost, event.Named := by
    intro event member
    cases event with
    | construct arrived =>
        rcases built arrived member with rfl | rfl
        · exact ⟨firstPost, rfl⟩
        · exact ⟨secondPost, rfl⟩
    | _ => trivial
  have adds : ∀ event ∈ postBesidePost, event.Adds := by
    intro event member
    cases event with
    | construct arrived =>
        rcases built arrived member with rfl | rfl
        · exact ⟨by decide, by decide⟩
        · exact ⟨by decide, by decide⟩
    | _ => trivial
  exact ⟨state, ran, (posts_not_lost "/data".toList (by decide) (emptyDisk "data".toList) Store.empty
    (empty_represents (by decide) empty_disk_base) postBesidePost named adds state ran).1⟩

end RestfulWebserver.Entity
