import RestfulWebserver.Http.Message

/-!
# Parsing a request

`session::ParseRequest`: three whitespace-separated tokens, the rest of their
last line, header lines up to a line that is a single carriage return, and
whatever the stream still holds as the body. The parser never fails; a missing
token is left empty.
-/

namespace RestfulWebserver.Http

open RestfulWebserver.Library

/-- The line that ends a header block, as `std::getline` returns it. -/
def blankLine : Bytes := "\r".toList

def isBlank (byte : Char) : Bool := byte = ' ' || byte = '\t'

/-- Strip the leading blanks, then one trailing carriage return. -/
def trimValue (value : Bytes) : Bytes :=
  let trimmed := value.dropWhile isBlank
  if trimmed.getLast? = some '\r' then trimmed.dropLast else trimmed

/-- One header line: a line without a colon is ignored, a later line with the
same name overwrites an earlier one. -/
def addHeader (headers : Headers) (line : Bytes) : Headers :=
  match find ":".toList line with
  | none => headers
  | some colon => headers.assign (line.take colon) (trimValue (line.drop (colon + 1)))

def parseRequest (requestStr : Bytes) : HttpRequest :=
  let (method, stream) := extractWord requestStr
  let (path, stream) := extractWord stream
  let (version, stream) := extractWord stream
  let stream := match getline stream with
    | none => stream
    | some (_, rest) => rest
  let (lines, body) := linesUntil blankLine stream
  { method := method
    path := path
    version := version
    headers := lines.foldl addHeader OrderedMap.empty
    body := body }

end RestfulWebserver.Http
