import RestfulWebserver.Http.Message

/-!
# Choosing a handler

The route table of a session and the loop in `session::handle_read` that picks
the longest registered prefix matching a request path. What a handler answers
is a parameter: `handle n` is the behaviour of the handler serving the response
number `n` of the session, so a handler may depend on everything that happened
before, on this session or on another.
-/

namespace RestfulWebserver.Session

open RestfulWebserver.Library RestfulWebserver.Http

structure RoutingPayload where
  handler : Bytes
  arguments : OrderedMap Bytes Bytes

abbrev RoutingMap := OrderedMap Bytes RoutingPayload

structure Server where
  routes : RoutingMap
  handle : Nat → Bytes → RoutingPayload → HttpRequest → HttpResponse

/-- `isPrefixMatch`. -/
def isPrefixMatch (handlerPrefix requestPath : Bytes) : Bool :=
  if handlerPrefix = "/".toList then true
  else if requestPath.length < handlerPrefix.length then false
  else if requestPath.take handlerPrefix.length ≠ handlerPrefix then false
  else handlerPrefix.length = requestPath.length ||
    requestPath[handlerPrefix.length]? = some '/'

def longerMatch (path : Bytes) (best : Option Bytes) (route : Bytes × RoutingPayload) :
    Option Bytes :=
  if isPrefixMatch route.1 path && (best.all fun prior => prior.length < route.1.length) then
    some route.1
  else best

def bestPrefix (routes : RoutingMap) (path : Bytes) : Option Bytes :=
  routes.entries.foldl (longerMatch path) none

/-- The fallback for a path that no route matches. -/
def notFoundResponse : HttpResponse :=
  let body := "404 Not Found".toList
  { status := .notFound
    headers := (OrderedMap.empty.assign "Content-Type".toList "text/plain".toList).assign
      "Content-Length".toList (toDecimal body.length)
    body := body }

/-- The response to a request, before the session sets its `Connection` header. -/
def dispatch (server : Server) (count : Nat) (request : HttpRequest) : HttpResponse :=
  match bestPrefix server.routes request.path with
  | none => notFoundResponse
  | some best =>
      match server.routes.find? best with
      -- unreachable: `best` is one of the keys of the map
      | none => notFoundResponse
      | some payload => server.handle count best payload request

end RestfulWebserver.Session
