import RestfulWebserver.Static.FileSystem

/-!
# `StaticFileHandler::handle_request`

The path behind the prefix is put behind the root as it is. It is checked in its
canonical form and opened in its raw form.
-/

namespace RestfulWebserver.Static

open Library Http

abbrev StaticM := ExceptT Failure (Program StaticCall StaticCall.Answer)

def asking {Result : Type} (call : StaticCall)
    (outcome : call.Answer → Except Failure Result) : StaticM Result :=
  ExceptT.mk (.ask call fun answer => .done (outcome answer))

def canonical (path : Bytes) : StaticM Bytes := asking (.canonical path) id

def weaklyCanonical (path : Bytes) : StaticM Bytes := asking (.weaklyCanonical path) id

def pathExists (path : Bytes) : StaticM Bool := asking (.pathExists path) id

def isDirectory (path : Bytes) : StaticM Bool := asking (.isDirectory path) id

def isRegularFile (path : Bytes) : StaticM Bool := asking (.isRegularFile path) id

/-- `file_size`, whose exception is caught. -/
def fileSize (path : Bytes) : StaticM Nat :=
  asking (.fileSize path) fun size =>
    match size with
    | .ok size => .ok size
    | .error _ => .ok 0

def openAtEnd (path : Bytes) : StaticM (Option Nat) := asking (.openAtEnd path) .ok

def readBytes (path : Bytes) (size : Nat) : StaticM (Option Bytes) :=
  asking (.readBytes path size) .ok

def findLastOf (byte : Char) (text : Bytes) : Option Nat :=
  (text.reverse.findIdx? (· = byte)).map fun index => text.length - 1 - index

namespace StaticFileHandler

def mimeTypes : OrderedMap Bytes Bytes :=
  [(".html", "text/html"), (".css", "text/css"), (".js", "application/javascript"),
    (".jpg", "image/jpeg"), (".jpeg", "image/jpeg"), (".png", "image/png"),
    (".gif", "image/gif"), (".svg", "image/svg+xml"), (".txt", "text/plain"),
    (".pdf", "application/pdf"), (".zip", "application/zip"), (".json", "application/json"),
    (".xml", "application/xml"), (".ico", "image/x-icon")].foldl
      (fun types entry => types.insert entry.1.toList entry.2.toList) OrderedMap.empty

def getMimeType (filePath : Bytes) : Bytes :=
  match (findLastOf '.' filePath).bind fun lastDot => mimeTypes.find? (filePath.drop lastDot) with
  | some mimeType => mimeType
  | none => "application/octet-stream".toList

def maxSafeSize : Nat := 100 * 1024 * 1024

/-- `read_file`, with the content where it sets `success`. -/
def readFile (filePath : Bytes) : StaticM (Option Bytes) := do
  match ← openAtEnd filePath with
  | none => pure none
  | some size => if maxSafeSize < size then pure none else readBytes filePath size

def isPathSafe (baseDir path : Bytes) : StaticM Bool := do
  let base ← canonical baseDir
  let req ← weaklyCanonical path
  if req.take base.length ≠ base then pure false
  else
    let extra := req.drop base.length
    pure (decide (extra = []) || decide (extra.head? = some '/'))

def filePathOf (pathPrefix baseDir path : Bytes) : Bytes :=
  let relativePath := if pathPrefix.length < path.length then path.drop pathPrefix.length else []
  if relativePath ≠ [] ∧ relativePath.head? ≠ some '/' then baseDir ++ '/' :: relativePath
  else baseDir ++ relativePath

def refusal (status : StatusCode) (body : Bytes) : HttpResponse where
  status := status
  headers := (OrderedMap.empty.assign "Content-Type".toList "text/plain".toList).assign
    "Content-Length".toList (toDecimal body.length)
  body := body

def fileNameOf (filePath : Bytes) : Bytes :=
  match findLastOf '/' filePath with
  | some lastSlash => filePath.drop (lastSlash + 1)
  | none => filePath

def attachment (filePath : Bytes) : Bytes :=
  "attachment; filename=\"".toList ++ fileNameOf filePath ++ "\"".toList

def fileHeaders (filePath content : Bytes) : OrderedMap Bytes Bytes :=
  let mimeType := getMimeType filePath
  let headers := (OrderedMap.empty.assign "Content-Type".toList mimeType).assign
    "Content-Length".toList (toDecimal content.length)
  if mimeType = "application/pdf".toList then
    (((headers.assign "Content-Disposition".toList (attachment filePath)).assign
      "Cache-Control".toList "no-cache, no-store, must-revalidate".toList).assign
      "Pragma".toList "no-cache".toList).assign "Expires".toList "0".toList
  else if mimeType = "application/zip".toList then
    headers.assign "Content-Disposition".toList (attachment filePath)
  else headers

def notFound : HttpResponse := refusal .notFound "404 Not Found".toList

def handleRequest (pathPrefix baseDir : Bytes) (request : HttpRequest) : StaticM HttpResponse := do
  if request.method ≠ "GET".toList then
    pure (refusal .badRequest [])
  else
    let filePath := filePathOf pathPrefix baseDir request.path
    if !(← isPathSafe baseDir filePath) then
      pure (refusal .forbidden "403 Forbidden".toList)
    else if !(← pathExists filePath) then
      pure notFound
    else if ← isDirectory filePath then
      pure notFound
    else if !(← isRegularFile filePath) then
      pure notFound
    else
      let _ ← fileSize filePath
      match ← readFile filePath with
      | none => pure notFound
      | some content =>
          pure { status := .ok, headers := fileHeaders filePath content, body := content }

end StaticFileHandler

end RestfulWebserver.Static
