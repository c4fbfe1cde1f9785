import Mathlib.Data.Char
import RestfulWebserver.Library.OrderedMap
import RestfulWebserver.Library.Text

/-!
# HTTP messages

Requests and responses as the handlers exchange them with a session, and the
serialization that goes on the wire.
-/

namespace RestfulWebserver.Http

open RestfulWebserver.Library

inductive StatusCode where
  | ok
  | badRequest
  | forbidden
  | notFound
  | payloadTooLarge
  | internalServerError
  deriving DecidableEq, Repr

def StatusCode.number : StatusCode → Nat
  | .ok => 200
  | .badRequest => 400
  | .forbidden => 403
  | .notFound => 404
  | .payloadTooLarge => 413
  | .internalServerError => 500

abbrev Headers := OrderedMap Bytes Bytes

structure HttpRequest where
  method : Bytes
  path : Bytes
  version : Bytes
  headers : Headers
  body : Bytes

structure HttpResponse where
  status : StatusCode
  headers : Headers
  body : Bytes

def toDecimal (value : Nat) : Bytes := Nat.toDigits 10 value

def crlf : Bytes := "\r\n".toList

/-- The text of the status line after the version. `PAYLOAD_TOO_LARGE` has no
case of its own in the source and falls into the default. -/
def statusText : StatusCode → Bytes
  | .ok => "200 OK".toList
  | .badRequest => "400 Bad Request".toList
  | .forbidden => "403 Forbidden".toList
  | .notFound => "404 Not Found".toList
  | .internalServerError => "500 Internal Server Error".toList
  | .payloadTooLarge => "500 Internal Server Error".toList

def headerLine (header : Bytes × Bytes) : Bytes :=
  header.1 ++ ": ".toList ++ header.2 ++ crlf

def HttpResponse.toString (response : HttpResponse) : Bytes :=
  "HTTP/1.1 ".toList ++ statusText response.status ++ crlf ++
    (response.headers.entries.map headerLine).flatten ++ crlf ++ response.body

end RestfulWebserver.Http
