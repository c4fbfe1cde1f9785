import RestfulWebserver.Session.Routing

/-!
# The handler registry

Factories by the name a configuration uses, and the dispatch step of
`session::handle_read` that looks one up for every request and calls it. How a
handler that has been built answers is a parameter.
-/

namespace RestfulWebserver.Startup

open Library Http Session

inductive RequestHandler where
  | echo (pathPrefix : Bytes)
  | health (pathPrefix : Bytes)
  | notFound (pathPrefix : Bytes)
  /-- The delay is read from the argument without a check. -/
  | sleep (pathPrefix timeout : Bytes)
  | staticFile (pathPrefix baseDir : Bytes)
  | entity (pathPrefix baseDir : Bytes)
  deriving DecidableEq, Repr

inductive DispatchException where
  /-- `std::bad_function_call`: the factory that is called is empty. -/
  | badFunctionCall
  /-- `std::runtime_error` of a constructor. -/
  | runtimeError (message : Bytes)
  deriving DecidableEq, Repr

abbrev RequestHandlerFactory :=
  Bytes → OrderedMap Bytes Bytes → Except DispatchException RequestHandler

def withoutArgument (build : Bytes → RequestHandler) : RequestHandlerFactory :=
  fun pathPrefix _ => .ok (build pathPrefix)

def withArgument (key message : Bytes) (build : Bytes → Bytes → RequestHandler) :
    RequestHandlerFactory :=
  fun pathPrefix arguments =>
    match arguments.find? key with
    | some value => .ok (build pathPrefix value)
    | none => .error (.runtimeError message)

def echoHandler : RequestHandlerFactory := withoutArgument .echo

def healthHandler : RequestHandlerFactory := withoutArgument .health

def notFoundHandler : RequestHandlerFactory := withoutArgument .notFound

def sleepHandler : RequestHandlerFactory :=
  withArgument "timeout".toList "SleepHandler requires a 'timeout' argument.".toList .sleep

def staticFileHandler : RequestHandlerFactory :=
  withArgument "root".toList "StaticFileHandler requires a 'root' argument.".toList .staticFile

def entityHandler : RequestHandlerFactory :=
  withArgument "root".toList "EntityHandler requires a 'root' argument.".toList .entity

abbrev HandlerRegistry := OrderedMap Bytes RequestHandlerFactory

def HandlerRegistry.registerHandler (registry : HandlerRegistry) (name : Bytes)
    (factory : RequestHandlerFactory) : HandlerRegistry := registry.assign name factory

/-- `none` is the empty `std::function`. -/
def HandlerRegistry.getFactory (registry : HandlerRegistry) (name : Bytes) :
    Option RequestHandlerFactory := registry.find? name

/-- The handlers that register themselves before `main`. -/
def registry : HandlerRegistry :=
  (((((HandlerRegistry.registerHandler OrderedMap.empty "EchoHandler".toList echoHandler)
    |>.registerHandler "StaticHandler".toList staticFileHandler)
    |>.registerHandler "NotFoundHandler".toList notFoundHandler)
    |>.registerHandler "EntityHandler".toList entityHandler)
    |>.registerHandler "SleepHandler".toList sleepHandler)
    |>.registerHandler "HealthHandler".toList healthHandler

/-- `factory(best_prefix, payload.arguments)` with the factory of the payload. -/
def construct (handlers : HandlerRegistry) (best : Bytes) (payload : RoutingPayload) :
    Except DispatchException RequestHandler :=
  match handlers.getFactory payload.handler with
  | none => .error .badFunctionCall
  | some factory => factory best payload.arguments

/-- The dispatch step of `handle_read`. -/
def dispatchRequest (handlers : HandlerRegistry) (routes : RoutingMap)
    (answer : RequestHandler → HttpRequest → HttpResponse) (request : HttpRequest) :
    Except DispatchException HttpResponse :=
  match bestPrefix routes request.path with
  | none => .ok notFoundResponse
  | some best =>
      match routes.find? best with
      -- unreachable: `best` is one of the keys of the map
      | none => .ok notFoundResponse
      | some payload => do
          let handler ← construct handlers best payload
          .ok (answer handler request)

def Usable (name : Bytes) (provides : Bytes → Prop) : Prop :=
  name ∈ ["EchoHandler".toList, "NotFoundHandler".toList, "HealthHandler".toList] ∨
    name ∈ ["StaticHandler".toList, "EntityHandler".toList] ∧ provides "root".toList ∨
    name = "SleepHandler".toList ∧ provides "timeout".toList

theorem get_factory_after (earlier : HandlerRegistry) (name other : Bytes)
    (factory : RequestHandlerFactory) :
    (earlier.registerHandler name factory).getFactory other =
      if name = other then some factory else earlier.getFactory other := by
  rw [HandlerRegistry.getFactory, HandlerRegistry.registerHandler, OrderedMap.find_assign]
  split_ifs <;> rfl

/-- The look-up goes from the handler registered last to the first. -/
theorem get_registered (name : Bytes) :
    registry.getFactory name =
      if name = "HealthHandler".toList then some healthHandler
      else if name = "SleepHandler".toList then some sleepHandler
      else if name = "EntityHandler".toList then some entityHandler
      else if name = "NotFoundHandler".toList then some notFoundHandler
      else if name = "StaticHandler".toList then some staticFileHandler
      else if name = "EchoHandler".toList then some echoHandler
      else none := by
  rw [registry]
  simp only [get_factory_after, @eq_comm _ _ name]
  rfl

theorem with_argument_ok (key message : Bytes) (build : Bytes → Bytes → RequestHandler)
    (pathPrefix : Bytes) (arguments : OrderedMap Bytes Bytes) :
    (∃ handler, withArgument key message build pathPrefix arguments = .ok handler) ↔
      arguments.contains key = true := by
  rw [OrderedMap.contains_iff]
  unfold withArgument
  cases arguments.find? key with
  | none => simp
  | some value => simp

/-- A route can be served exactly when its handler is known and has its argument. -/
theorem construct_ok_iff (best : Bytes) (payload : RoutingPayload) :
    (∃ handler, construct registry best payload = .ok handler) ↔
      Usable payload.handler fun key => payload.arguments.contains key = true := by
  obtain ⟨name, arguments⟩ := payload
  simp only [construct, Usable, get_registered]
  split_ifs with health sleep entity notFound static echo
  · simp [health, healthHandler, withoutArgument]
  · simp [sleep, sleepHandler, with_argument_ok]
  · simp [entity, entityHandler, with_argument_ok]
  · simp [notFound, notFoundHandler, withoutArgument]
  · simp [static, staticFileHandler, with_argument_ok]
  · simp [echo, echoHandler, withoutArgument]
  · simp only [List.mem_cons, List.not_mem_nil, health, sleep, entity, notFound, static, echo,
      false_and, or_false, exists_false]

end RestfulWebserver.Startup
