import RestfulWebserver.Entity.Filesystem

/-!
# `EntityHandler::handle_request`

The path is taken apart by the second and third slash: what lies between them is
the entity, the rest is the id, which may hold more slashes.
-/

namespace RestfulWebserver.Entity

open RestfulWebserver.Library RestfulWebserver.Http

def findSlash (path : Bytes) (position : Nat) : Option Nat :=
  (find "/".toList (path.drop position)).map (· + position)

/-- `position + 1` on `size_t`: `npos` wraps around to zero. -/
def following : Option Nat → Nat
  | none => 0
  | some position => position + 1

def entityParts (path : Bytes) : Bytes × Bytes :=
  let first := findSlash path 0
  let second := findSlash path (following first)
  let third := findSlash path (following second)
  match second, third with
  | some second, some third =>
      ((path.drop (second + 1)).take (third - second - 1), path.drop (third + 1))
  | _, _ => (path.drop (following second), [])

def jsonResponse (body : Bytes) : HttpResponse where
  status := .ok
  headers := (OrderedMap.empty.assign "Content-Type".toList "application/json".toList).assign
    "Content-Length".toList (toDecimal body.length)
  body := body

/-- A response with its length as the only header. -/
def bareResponse (status : StatusCode) (body : Bytes) : HttpResponse where
  status := status
  headers := OrderedMap.empty.assign "Content-Length".toList (toDecimal body.length)
  body := body

def idResponse (id : Bytes) : HttpResponse :=
  jsonResponse ("\x7b\"id\": \"".toList ++ id ++ "\"\x7d".toList)

def listing (ids : List Bytes) : Bytes :=
  "[".toList ++ ((ids.map fun id => "\"".toList ++ id ++ "\"".toList).intersperse
    ",".toList).flatten ++ "]".toList

namespace EntityHandler

def serve (baseDir : Bytes) (request : HttpRequest) : FileM HttpResponse := do
  let (name, id) := entityParts request.path
  let entity : EntityPayload := ⟨baseDir, name⟩
  if request.method = "POST".toList then
    let newId ← RealFilesystem.nextId entity
    RealFilesystem.write entity newId request.body
    pure (idResponse newId)
  else if request.method = "GET".toList then
    if id = [] then
      let ids ← RealFilesystem.listIds entity
      pure (jsonResponse (listing ids))
    else
      let contents ← RealFilesystem.read entity id
      pure (jsonResponse contents)
  else if request.method = "PUT".toList then
    if id = [] then throw (.other "PUT request must specify an ID.".toList)
    else
      RealFilesystem.write entity id request.body
      pure (idResponse id)
  else if request.method = "DELETE".toList then
    if id = [] then throw (.other "DELETE request must specify an ID.".toList)
    else
      RealFilesystem.remove entity id
      pure (jsonResponse "\x7b\"status\": \"deleted\"\x7d".toList)
  else pure (bareResponse .badRequest "Unsupported HTTP method.".toList)

def caught : Thrown → HttpResponse
  | .notFound what => bareResponse .notFound (cString what)
  | .invalidId what => bareResponse .badRequest (cString what)
  | .fileIo what => bareResponse .internalServerError (cString what)
  | .other what => bareResponse .badRequest (cString what)

def locked (baseDir : Bytes) (request : HttpRequest) :
    Program FileCall FileCall.Answer HttpResponse := do
  match ← (serve baseDir request).run with
  | .ok response => pure response
  | .error thrown => pure (caught thrown)

/-- `EntityHandler::handle_request` of a new handler: the file system object is
made, and its root created, before the lock is taken and outside of `try`. -/
def handleRequest (baseDir : Bytes) (request : HttpRequest) : FileM HttpResponse := do
  RealFilesystem.create baseDir
  ExceptT.lift (locked baseDir request)

end EntityHandler

end RestfulWebserver.Entity
