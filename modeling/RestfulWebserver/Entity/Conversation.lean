import RestfulWebserver.Entity.Refinement
import RestfulWebserver.Session.World
import RestfulWebserver.Startup.Answers

/-!
# From bytes to the store and back

A client that waits writes requests for entities on one connection. Between the
bytes it writes and those on the wire to it are the framing, the parser, the routing,
the handler and the file system; what is on the wire are the answers of a store.
-/

namespace RestfulWebserver.Entity

open RestfulWebserver.Library RestfulWebserver.Http
open RestfulWebserver.Session (Lockstep Response Server WorldServer allBytes answersTo bestPrefix
  cutAll keptResponses setConnection)

structure ClientCall where
  request : KeepAliveRequest
  route : FileName
  name : FileName
  id : Option FileName
  target : request.target = entityPath route name id
  nameNoNull : '\x00' ∉ name.name
  idNoNull : '\x00' ∉ (id.map FileName.name).getD []

def ClientCall.asked (call : ClientCall) : EntityRequest where
  request := parseRequest call.request.bytes
  route := call.route
  name := call.name
  id := call.id
  path := by rw [parse_request_bytes, call.target]
  nameNoNull := call.nameNoNull
  idNoNull := call.idNoNull

/-- The entity handler on the disk; what stands at the other routes is left open. -/
def diskServer (routes : Session.RoutingMap)
    (others : Bytes → Session.RoutingPayload → HttpRequest → Disk → HttpResponse × Disk) :
    WorldServer Disk where
  routes := routes
  handle := fun best payload request disk =>
    match Startup.construct Startup.registry best payload with
    | .ok (.entity _ baseDir) =>
        match Program.exec Disk.perform (EntityHandler.handleRequest baseDir request).run disk with
        | (.ok response, next) => (response, next)
        -- the root could not be made: not reached where it is there
        | (.error _, next) => (Session.notFoundResponse, next)
    | _ => others best payload request disk

def printedAnswer (answer : HttpResponse) : Bytes := (setConnection answer false).toString

open EntityHandler in
theorem serves_measured {baseDir : Bytes} {event : EntityRequest} {store after : Store}
    {response : HttpResponse} (serves : Serves baseDir event store response after) :
    Session.Measured response := by
  cases serves with
  | posted | listed | got | put | deleted => exact Startup.measured_json _
  | postRefused | putRefused => exact Startup.measured_caught _
  | notGot | putNowhere | notDeleted | deletedNowhere | unsupported =>
      exact Startup.measured_bare _ _

section Conversation

variable {baseDir pathPrefix : Bytes} {routes : Session.RoutingMap}
  {others : Bytes → Session.RoutingPayload → HttpRequest → Disk → HttpResponse × Disk}
  {payload : Session.RoutingPayload} {disk : Disk} {store : Store}

theorem dispatch_entity (stored : routes.find? pathPrefix = some payload)
    (built : Startup.construct Startup.registry pathPrefix payload =
      .ok (.entity pathPrefix baseDir)) {request : HttpRequest}
    (routed : bestPrefix routes request.path = some pathPrefix) {response : HttpResponse}
    {next : Disk} (handled : Program.exec Disk.perform
      (EntityHandler.handleRequest baseDir request).run disk = (.ok response, next)) :
    (diskServer routes others).dispatch request disk = (response, next) := by
  simp only [WorldServer.dispatch, diskServer, routed, stored, built, handled]

/-- The responses to calls, where each handler finds what those before it left, are
answers of the store, and what the handlers leave is the store after them. -/
theorem kept_follow_store (stored : routes.find? pathPrefix = some payload)
    (built : Startup.construct Startup.registry pathPrefix payload =
      .ok (.entity pathPrefix baseDir)) {calls : List ClientCall}
    (routed : ∀ call ∈ calls, bestPrefix routes call.request.target = some pathPrefix)
    (represents : Represents baseDir disk.tree store) {worlds : Nat → Disk} {count : Nat}
    {responses : List Response}
    (kept : responses = keptResponses ((diskServer routes others).finding worlds) count
      (allBytes (calls.map ClientCall.request)))
    (follows : (diskServer routes others).Follows worlds count disk responses) :
    ∃ (answers : List HttpResponse) (after : Store),
      responses.map Response.text = answers.map printedAnswer ∧
      answers.length = calls.length ∧ (∀ answer ∈ answers, Session.Measured answer) ∧
      Program.Steps (StoreStep baseDir) store
        ((calls.map ClientCall.asked).zip (answers.map .ok)) after ∧
      Represents baseDir ((diskServer routes others).leaves disk responses).tree after := by
  induction calls generalizing disk store count responses with
  | nil =>
      cases kept
      exact ⟨[], store, rfl, rfl, by simp, .done store, represents⟩
  | cons call calls ih =>
      obtain ⟨here, later⟩ := List.forall_mem_cons.mp routed
      subst kept
      obtain ⟨middle, step, stillRepresents⟩ := handled_by_store call.asked disk store represents
      obtain ⟨answer, answered, serves, frame⟩ := step
      have routedHere : bestPrefix routes (parseRequest call.request.bytes).path =
          some pathPrefix := by
        rw [parse_request_bytes]
        exact here
      have dispatched := @dispatch_entity _ _ routes others _ disk stored built _ routedHere
        answer _ (Prod.ext answered rfl)
      have found : worlds count = disk := follows 0 (by simp [allBytes, keptResponses])
      have text : (Session.keptResponse ((diskServer routes others).finding worlds) count
          call.request.bytes).text = printedAnswer answer := by
        simp only [Session.keptResponse, WorldServer.dispatch_finding, found, dispatched,
          printedAnswer]
      have left : (diskServer routes others).leaves disk
          [Session.keptResponse ((diskServer routes others).finding worlds) count
            call.request.bytes] =
          (Program.exec Disk.perform (EntityHandler.handleRequest baseDir
            call.asked.request).run disk).2 := congrArg Prod.snd dispatched
      have onward := WorldServer.follows_tail follows
      rw [left] at onward
      obtain ⟨answers, after, texts, long, measured, steps, files⟩ :=
        ih later stillRepresents rfl onward
      refine ⟨answer :: answers, after, ?_, ?_, ?_, ?_, ?_⟩
      · rw [@List.map_cons _ _ printedAnswer, ← texts, ← text]
        rfl
      · rw [List.length_cons, List.length_cons, long]
      · exact List.forall_mem_cons.mpr ⟨serves_measured serves, measured⟩
      · exact .next ⟨answer, rfl, serves, frame⟩ steps
      · rw [← left] at files
        exact files

/-- A client writes requests for entities and waits for the response to each. On the
wire are, at any moment, the first of the answers of a store to the first of the calls,
which are cut apart again; all answers are there but the last one, and the disk holds
the store. When nothing can go on every call is answered on the wire, and that is so
after so many steps. -/
theorem conversation_follows_store (baseDir : Bytes) (disk : Disk) (store : Store)
    (represents : Represents baseDir disk.tree store) (routes : Session.RoutingMap)
    (others : Bytes → Session.RoutingPayload → HttpRequest → Disk → HttpResponse × Disk)
    (pathPrefix : Bytes) (payload : Session.RoutingPayload)
    (stored : routes.find? pathPrefix = some payload)
    (built : Startup.construct Startup.registry pathPrefix payload =
      .ok (.entity pathPrefix baseDir))
    (calls : List ClientCall)
    (routed : ∀ call ∈ calls, bestPrefix routes call.request.target = some pathPrefix)
    (small : ∀ call ∈ calls, call.request.bytes.length ≤ Session.maxRequestSize)
    (events : List Lockstep.Event) (waiting : Lockstep) (left : Disk)
    (ran : run (diskServer routes others).lockstep
      (Lockstep.start (calls.map ClientCall.request), disk) events = some (waiting, left)) :
    ∃ (answers : List HttpResponse) (after : Store),
      waiting.session.wire <+: answers.map printedAnswer ∧
      answers.length ≤ waiting.session.wire.length + 1 ∧
      cutAll waiting.session.wire.flatten = some waiting.session.wire ∧
      answers.length ≤ calls.length ∧
      Program.Steps (StoreStep baseDir) store
        (((calls.take answers.length).map ClientCall.asked).zip (answers.map .ok)) after ∧
      Represents baseDir left.tree after ∧
      events.length ≤ 2 * (allBytes (calls.map ClientCall.request)).flatten.length +
        3 * calls.length ∧
      ((∀ event, (diskServer routes others).lockstep (waiting, left) event = none) →
        waiting.session.wire = answers.map printedAnswer ∧ answers.length = calls.length) := by
  have smallRequests : ∀ request ∈ calls.map ClientCall.request,
      request.bytes.length ≤ Session.maxRequestSize := List.forall_mem_map.mpr small
  obtain ⟨isLeft, replayed⟩ := WorldServer.waiting_replayed ran
  obtain ⟨inStep, bound⟩ := Lockstep.in_step_run smallRequests replayed
  obtain ⟨heard, few⟩ := Lockstep.heard_in_step inStep
  obtain ⟨within, answered⟩ := Lockstep.answered_in_step inStep
  rw [← List.map_take] at answered
  have routedTaken : ∀ call ∈ calls.take waiting.session.responses.length,
      bestPrefix routes call.request.target = some pathPrefix := fun call member =>
    routed call (List.mem_of_mem_take member)
  obtain ⟨answers, after, texts, long, measured, steps, files⟩ :=
    kept_follow_store stored built routedTaken represents answered
      (WorldServer.follows_of_start _ disk waiting.session.responses)
  have count : answers.length = waiting.session.responses.length := by
    have lengths := congrArg List.length texts
    rw [List.length_map, List.length_map] at lengths
    exact lengths.symm
  rw [Session.texts, texts] at heard
  rw [List.length_map] at within
  refine ⟨answers, after, heard, ?_, ?_, ?_, ?_, ?_, ?_, ?_⟩
  · rw [count]
    exact few
  · apply Session.cut_all_delimited
    intro text member
    obtain ⟨answer, inAnswers, rfl⟩ := List.mem_map.mp (heard.subset member)
    exact Session.measured_delimited
      (Session.measured_set_connection (measured answer inAnswers) false)
  · rw [count]
    exact within
  · rw [count]
    exact steps
  · rw [isLeft]
    exact files
  · rw [List.length_map] at bound
    exact bound
  · intro stuck
    have finished := Lockstep.finished_of_stuck inStep fun event =>
      WorldServer.lockstep_enabled _ (stuck event)
    obtain ⟨everything, _⟩ := Lockstep.finished_in_step inStep finished
    have whole := congrArg List.length everything
    rw [List.length_map, Session.answers_to_length, List.length_map] at whole
    have same := heard.length_le
    rw [List.length_map] at same
    refine ⟨heard.eq_of_length ?_, ?_⟩
    · rw [List.length_map]
      omega
    · omega

end Conversation

/-! ## A number and a listing -/

def lengthOne : Field :=
  { Session.lengthField with
    value := " 1".toList
    valueInLine := forall_of_all (by decide) }

def postCall : ClientCall where
  request :=
    { Session.postRequest with
      target := "/api/x".toList
      fields := [lengthOne]
      body := "a".toList
      targetSome := by decide
      targetToken := forall_of_all (by decide)
      lengthsCorrect := by
        intro field member _
        rw [List.mem_singleton.mp member]
        exact ⟨" ".toList, "1".toList, [], rfl, by decide, by decide, by decide, by decide,
          by decide⟩
      bodyAnnounced := fun _ => ⟨lengthOne, List.mem_singleton_self _, rfl⟩
      keepsAlive := by
        intro field member
        rw [List.mem_singleton.mp member]
        decide }
  route := apiName
  name := itemName
  id := none
  target := rfl
  nameNoNull := item_name_no_null
  idNoNull := no_id_no_null

def listCall : ClientCall where
  request :=
    { Session.getRequest with
      target := "/api/x".toList
      targetSome := by decide
      targetToken := forall_of_all (by decide) }
  route := apiName
  name := itemName
  id := none
  target := rfl
  nameNoNull := item_name_no_null
  idNoNull := no_id_no_null

def apiPayload : Session.RoutingPayload where
  handler := "EntityHandler".toList
  arguments := OrderedMap.empty.assign "root".toList "/data".toList

def apiRoutes : Session.RoutingMap := OrderedMap.empty.assign "/api".toList apiPayload

def noOthers (_ : Bytes) (_ : Session.RoutingPayload) (_ : HttpRequest) (disk : Disk) :
    HttpResponse × Disk := (Session.notFoundResponse, disk)

/-- The number is written in two pieces, and the listing when its answer is there. -/
def numberThenListing : List Lockstep.Event :=
  [.ask, .send 0 20, .handleRead 0, .send 0 24, .handleRead 0, .transmit 0 [], .ask, .handleWrite 0,
    .send 0 23, .handleRead 0, .transmit 0 []]

theorem conversation_follows_store_number :
    ∃ waiting left, run (diskServer apiRoutes noOthers).lockstep
        (Lockstep.start ([postCall, listCall].map ClientCall.request), emptyDisk "data".toList)
        numberThenListing = some (waiting, left) ∧
      waiting.session.wire.length = 2 ∧
      ∃ (answers : List HttpResponse) (after : Store),
        waiting.session.wire <+: answers.map printedAnswer ∧
        Represents "/data".toList left.tree after := by
  have counted : (run (diskServer apiRoutes noOthers).lockstep
      (Lockstep.start ([postCall, listCall].map ClientCall.request), emptyDisk "data".toList)
      numberThenListing).map (fun place => place.1.session.wire.length) = some 2 := by
    decide +kernel
  obtain ⟨⟨waiting, left⟩, ran, two⟩ := Option.map_eq_some_iff.mp counted
  have built : Startup.construct Startup.registry "/api".toList apiPayload =
      .ok (.entity "/api".toList "/data".toList) := by
    rw [Startup.construct, Startup.get_registered]
    rfl
  have routed : ∀ call ∈ [postCall, listCall],
      bestPrefix apiRoutes call.request.target = some "/api".toList := by
    simp only [List.forall_mem_cons, List.not_mem_nil, false_implies, implies_true, and_true]
    decide +kernel
  have small : ∀ call ∈ [postCall, listCall],
      call.request.bytes.length ≤ Session.maxRequestSize := by
    simp only [List.forall_mem_cons, List.not_mem_nil, false_implies, implies_true, and_true]
    decide +kernel
  obtain ⟨answers, after, heard, _, _, _, _, files, _⟩ :=
    conversation_follows_store "/data".toList (emptyDisk "data".toList) Store.empty
      (empty_represents (by decide) empty_disk_base) apiRoutes noOthers "/api".toList apiPayload
      rfl built [postCall, listCall] routed small numberThenListing waiting left ran
  exact ⟨waiting, left, ran, two, answers, after, heard, files⟩

end RestfulWebserver.Entity
