import RestfulWebserver.Http.SleepHandler
import RestfulWebserver.Server.Main
import RestfulWebserver.Startup.Answers

/-!
# Every connection of the process

Whatever is configured, whichever handlers throw and whatever becomes of the
threads, the texts of the responses to a connection can be told apart.
-/

namespace RestfulWebserver.Server.Main

open RestfulWebserver.Library RestfulWebserver.Http RestfulWebserver.Startup
open RestfulWebserver.Session (AnswersMeasured Delimited Measured Response ThrowingServer cutAll)

/-! ## Sessions whose handlers throw -/

theorem delimited_outcome {Error : Type} {server : ThrowingServer Error}
    (measured : AnswersMeasured server.quiet) {state next : Session.State} {event : Session.Event}
    (delimited : ∀ response ∈ state.responses, Delimited response.text)
    (outcome : server.Outcome state event next) :
    ∀ response ∈ next.responses, Delimited response.text := by
  cases outcome with
  | calm event next stepped thrown counted =>
      exact Session.delimited_effect measured delimited (Session.step_effect stepped).2
  | broken index chunk place thrown ready fits throws same =>
      intro response member
      rcases List.mem_append.mp member with earlier | added
      · exact delimited response earlier
      · exact Session.kept_responses_delimited measured _ _ response added

theorem cut_all_throwing {Error : Type} {server : ThrowingServer Error}
    (measured : AnswersMeasured server.quiet) {events : List Session.Event}
    {state : Session.State} (ran : run server.step Session.start events = some state) :
    cutAll (state.responses.map Response.text).flatten =
      some (state.responses.map Response.text) := by
  have delimited : ∀ response ∈ state.responses, Delimited response.text := by
    refine @invariant_of_run _ _ _
      (fun state => ∀ response ∈ state.responses, Delimited response.text) _
      (by simp [Session.start, Session.startRead, Session.constructed]) ?_ _ _ ran
    intro state event next holds stepped
    exact delimited_outcome measured holds (Session.ThrowingServer.step_outcome stepped).2
  apply Session.cut_all_delimited
  intro text member
  obtain ⟨response, stored, rfl⟩ := List.mem_map.mp member
  exact delimited response stored

/-! ## The registered handlers -/

/-- What a handler of the registry may answer. What the delay of a sleeping one
was before it was read is left open. -/
inductive HandlerAnswers (request : HttpRequest) : RequestHandler → HttpResponse → Prop
  | awake {handler : RequestHandler} {response : HttpResponse}
      (answers : MayAnswer request handler response) : HandlerAnswers request handler response
  | asleep (pathPrefix timeout : Bytes) (stored : Nat) :
      HandlerAnswers request (.sleep pathPrefix timeout)
        (SleepHandler.handleRequest (extractSize timeout stored) request).1

theorem measured_sleep (delay : Nat) (request : HttpRequest) :
    Measured (SleepHandler.handleRequest delay request).1 := by
  rw [SleepHandler.handleRequest]
  split_ifs
  · exact Session.measured_text .badRequest []
  · exact Session.measured_text _ _

theorem measured_handler {request : HttpRequest} {handler : RequestHandler}
    {response : HttpResponse} (inLine : InLine request.path) (root : InLine (rootOf handler))
    (answers : HandlerAnswers request handler response) : Measured response := by
  cases answers with
  | awake answers => exact measured_answer inLine root answers
  | asleep pathPrefix timeout stored => exact measured_sleep _ _

theorem root_of_constructed {best : Bytes} {payload : Session.RoutingPayload}
    {handler : RequestHandler} (built : construct registry best payload = .ok handler) :
    rootOf handler = [] ∨ payload.arguments.find? "root".toList = some (rootOf handler) := by
  simp only [construct, get_registered] at built
  split_ifs at built
  · cases built
    exact .inl rfl
  · simp only [sleepHandler, withArgument] at built
    split at built
    · cases built
      exact .inl rfl
    · cases built
  · simp only [entityHandler, withArgument] at built
    split at built
    · rename_i value found
      cases built
      exact .inr found
    · cases built
  · cases built
    exact .inl rfl
  · simp only [staticFileHandler, withArgument] at built
    split at built
    · rename_i value found
      cases built
      exact .inr found
    · cases built
  · cases built
    exact .inl rfl

section Connections

variable {Error : Type} {environment : Environment Error} {config : ConfigPayload}

theorem service_measured
    (answers : ∀ index count handler request response,
      environment.answer index count handler request = .ok response →
      HandlerAnswers request handler response)
    (roots : ∀ path payload root, config.routeMap.find? path = some payload →
      payload.arguments.find? "root".toList = some root → InLine root) (index : Nat) :
    AnswersMeasured ((service environment config).sessionServer index).quiet := by
  intro count text
  simp only [Session.dispatch, Session.ThrowingServer.quiet, Service.sessionServer, service]
  split
  · exact Session.measured_text _ _
  · rename_i best _
    split
    · exact Session.measured_text _ _
    · rename_i payload stored
      cases built : construct registry best payload with
      | error exception => exact Session.measured_text _ _
      | ok handler =>
          simp only
          cases answered : environment.answer index count handler (parseRequest text) with
          | error error => exact Session.measured_text _ _
          | ok response =>
              have root : InLine (rootOf handler) := by
                rcases root_of_constructed built with without | found
                · simp [without, InLine]
                · exact roots best payload _ stored found
              exact measured_handler (path_in_line text) root (answers _ _ _ _ _ answered)

/-- On every connection of a process, in every state it comes to, the responses
started so far are what a client cuts their concatenation into, if no line end
is in the roots of its configuration. -/
theorem every_connection_cut
    (answers : ∀ index count handler request response,
      environment.answer index count handler request = .ok response →
      HandlerAnswers request handler response)
    (roots : ∀ path payload root, config.routeMap.find? path = some payload →
      payload.arguments.find? "root".toList = some root → InLine root)
    {events : List (Process.Event (factory environment config))}
    {state : Process.State (factory environment config)}
    (ran : run (serve environment config) (Process.start _) events = some state) (index : Nat)
    (session : Session.State)
    (placed : state.server.sessions[index]? = some (.started session)) :
    cutAll (session.responses.map Response.text).flatten =
      some (session.responses.map Response.text) := by
  obtain ⟨poolEvents, together⟩ := Process.together_run ran
  cases slots_after together.server placed with
  | started session succeeded own =>
      exact cut_all_throwing (service_measured answers roots index) own

end Connections

/-! ## A connection that is answered -/

def echoing : Environment Unit where
  pathExists := fun _ => some true
  file := fun _ => some portOnly
  canBind := fun _ => true
  hardwareConcurrency := 1
  answer := fun _ _ handler request =>
    match handler with
    | .echo _ => .ok (EchoHandler.handleRequest request)
    | _ => .error ()
  seen := fun _ => .other

/-- The worker accepts a connection and answers two requests that arrive on it in one
packet, the second with an error. -/
def echoThenRefuse : List (Process.Event (factory echoing portOnlyConfig)) :=
  [.thread .spawn, .thread (.take 0), .handle 0 2 (.accept 0 false),
    .network (.session 0 (.arrive 0 (Session.keepAliveGet ++ "\r\n\r\n".toList))),
    .thread (.take 0), .handle 0 2 (.session 0 (.readDone 0))]

def closings : Slot Session.State → Option (List Bool)
  | .started session => some (session.responses.map Response.close)
  | _ => none

theorem every_connection_cut_echo :
    ∃ state session, run (serve echoing portOnlyConfig) (Process.start _) echoThenRefuse =
        some state ∧ state.server.sessions[0]? = some (.started session) ∧
      session.responses.map Response.close = [false, true] ∧
      cutAll (session.responses.map Response.text).flatten =
        some (session.responses.map Response.text) := by
  have counted : ((run (serve echoing portOnlyConfig) (Process.start _) echoThenRefuse).bind
      fun state => (state.server.sessions[0]?).bind closings) = some [false, true] := by
    decide +kernel
  obtain ⟨state, ran, found⟩ := Option.bind_eq_some_iff.mp counted
  obtain ⟨slot, placed, closes⟩ := Option.bind_eq_some_iff.mp found
  have answers : ∀ index count handler request response,
      echoing.answer index count handler request = .ok response →
      HandlerAnswers request handler response := by
    intro index count handler request response answered
    cases handler with
    | echo pathPrefix =>
        cases answered
        exact .awake (.echo pathPrefix)
    | _ => cases answered
  have roots : ∀ path payload root, portOnlyConfig.routeMap.find? path = some payload →
      payload.arguments.find? "root".toList = some root → InLine root := by
    intro path payload root stored found
    simp only [portOnlyConfig, defaultRoutes, OrderedMap.find_insert] at stored
    split_ifs at stored
    · cases stored
      cases found
    · cases stored
  cases slot with
  | started session =>
      refine ⟨state, session, ran, placed, Option.some.inj closes, ?_⟩
      exact every_connection_cut answers roots ran 0 session placed
  | _ => cases closes

end RestfulWebserver.Server.Main
