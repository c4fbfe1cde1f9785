import RestfulWebserver.Http.Message

/-!
# The handlers that need nothing but the request

`echo_handler.cc`, `health_handler.cc` and `not_found_handler.cc`: none of them
uses the prefix or the arguments it is made with.
-/

namespace RestfulWebserver.Http

open RestfulWebserver.Library

def textResponse (status : StatusCode) (body : Bytes) : HttpResponse where
  status := status
  headers := (OrderedMap.empty.assign "Content-Type".toList "text/plain".toList).assign
    "Content-Length".toList (toDecimal body.length)
  body := body

namespace EchoHandler

/-- `full_request`: the request line, the headers in the order of the map, the body. -/
def fullRequest (request : HttpRequest) : Bytes :=
  request.method ++ " ".toList ++ request.path ++ " ".toList ++ request.version ++ crlf ++
    (request.headers.entries.map headerLine).flatten ++ (crlf ++ request.body)

def handleRequest (request : HttpRequest) : HttpResponse :=
  if request.method ≠ "GET".toList then
    { status := .badRequest
      headers := (OrderedMap.empty.assign "Content-Type".toList "text/plain".toList).assign
        "Content-Length".toList "0".toList
      body := [] }
  else textResponse .ok (fullRequest request)

end EchoHandler

def HealthHandler.handleRequest (_request : HttpRequest) : HttpResponse :=
  textResponse .ok "OK".toList

def NotFoundHandler.handleRequest (_request : HttpRequest) : HttpResponse :=
  textResponse .notFound "404 Not Found".toList

end RestfulWebserver.Http
