import RestfulWebserver.Entity.EntityHandler
import RestfulWebserver.Entity.Tree
import RestfulWebserver.Library.CanonicalPath

/-!
# Files behind symbolic links

What a static handler asks of the file system, and the answers where every
directory may hold links to anywhere. A path is followed name by name; each
name, also an empty one behind a slash, has to be looked up in a directory.
-/

namespace RestfulWebserver.Static

open Library Http Entity

abbrev Place := List FileName

inductive Node where
  | directory
  /-- A file, and whether it may be opened. -/
  | file (contents : Bytes) (readable : Bool)
  | link (target : Bytes)
  /-- A socket, a pipe or a device. -/
  | special

inductive Failure where
  | missing
  | notDirectory
  | tooManyLinks
  deriving DecidableEq, Repr

structure FileSystem where
  node : Place → Option Node
  root : node [] = some .directory
  workingDirectory : Place
  /-- What `weakly_canonical` makes of a path that does not exist, and whether a
  slash is left at its end. -/
  unresolved : Bytes → Except Failure (Place × Bool)

namespace FileSystem

/-- Linux gives up on a path after so many links. -/
def maxLinks : Nat := 40

def isDirectoryNode : Option Node → Bool
  | some .directory => true
  | _ => false

/-- Follow the names of a path from a place; what is behind a link is left to
`throughLink`. -/
def followNames (files : FileSystem)
    (throughLink : Place → Bytes → List Bytes → Except Failure Place) (place : Place) :
    List Bytes → Except Failure Place
  | [] => .ok place
  | component :: rest =>
      if !isDirectoryNode (files.node place) then .error .notDirectory
      else if component = dotDot then files.followNames throughLink place.dropLast rest
      else
        match Tree.fileName component with
        -- an empty component or a dot
        | none => files.followNames throughLink place rest
        | some name =>
            match files.node (place ++ [name]) with
            | none => .error .missing
            | some (.link target) => throughLink place target rest
            | some _ => files.followNames throughLink (place ++ [name]) rest

def follow (files : FileSystem) : Nat → Place → List Bytes → Except Failure Place
  | 0 => files.followNames fun _ _ _ => .error .tooManyLinks
  | links + 1 => files.followNames fun place target rest =>
      files.follow links (if isAbsolute target then [] else place) (target.splitOn '/' ++ rest)

/-- Where a path leads; a string handed to the system ends at its first null byte. -/
def resolve (files : FileSystem) (path : Bytes) : Except Failure Place :=
  let text := cString path
  if text = [] then .error .missing
  else
    files.follow maxLinks (if isAbsolute text then [] else files.workingDirectory)
      (text.splitOn '/')

def textOf (place : Place) : Bytes := absolutePath (place.map FileName.name)

def canonical (files : FileSystem) (path : Bytes) : Except Failure Bytes :=
  (files.resolve path).map textOf

/-- The place of `weakly_canonical`, and whether its text ends in a slash. -/
def weakPlace (files : FileSystem) (path : Bytes) : Except Failure (Place × Bool) :=
  match files.resolve path with
  | .ok place => .ok (place, false)
  | .error .tooManyLinks => .error .tooManyLinks
  | .error _ => files.unresolved path

def weakText (place : Place × Bool) : Bytes :=
  textOf place.1 ++ if place.2 && !place.1.isEmpty then ['/'] else []

def weaklyCanonical (files : FileSystem) (path : Bytes) : Except Failure Bytes :=
  (files.weakPlace path).map weakText

/-- What `status` finds; it throws on other failures than a missing file. -/
def status (files : FileSystem) (path : Bytes) : Except Failure (Option Node) :=
  match files.resolve path with
  | .ok place => .ok (files.node place)
  | .error .tooManyLinks => .error .tooManyLinks
  | .error _ => .ok none

end FileSystem

inductive StaticCall where
  | canonical (path : Bytes)
  | weaklyCanonical (path : Bytes)
  | pathExists (path : Bytes)
  | isDirectory (path : Bytes)
  | isRegularFile (path : Bytes)
  | fileSize (path : Bytes)
  /-- Open an input stream at its end and ask for the position. -/
  | openAtEnd (path : Bytes)
  /-- Read so many bytes from the beginning of the open stream. -/
  | readBytes (path : Bytes) (size : Nat)

def StaticCall.Answer : StaticCall → Type
  | .canonical _ => Except Failure Bytes
  | .weaklyCanonical _ => Except Failure Bytes
  | .pathExists _ => Except Failure Bool
  | .isDirectory _ => Except Failure Bool
  | .isRegularFile _ => Except Failure Bool
  | .fileSize _ => Except Failure Nat
  | .openAtEnd _ => Option Nat
  | .readBytes _ _ => Option Bytes

namespace FileSystem

/-- `tellg` at the end of a directory, which Linux lets a stream open. -/
def directoryEnd : Nat := 2 ^ 63 - 1

def answer (files : FileSystem) : (call : StaticCall) → call.Answer
  | .canonical path => files.canonical path
  | .weaklyCanonical path => files.weaklyCanonical path
  | .pathExists path => (files.status path).map Option.isSome
  | .isDirectory path => (files.status path).map isDirectoryNode
  | .isRegularFile path => (files.status path).map fun node =>
      match node with
      | some (.file _ _) => true
      | _ => false
  | .fileSize path =>
      match files.resolve path with
      | .error failure => .error failure
      | .ok place =>
          match files.node place with
          | some (.file contents _) => .ok contents.length
          | _ => .error .missing
  | .openAtEnd path =>
      match (files.resolve path).toOption.bind files.node with
      | some (.file contents true) => some contents.length
      | some .directory => some directoryEnd
      | _ => none
  | .readBytes path size =>
      match (files.resolve path).toOption.bind files.node with
      | some (.file contents true) =>
          if size ≤ contents.length then some (contents.take size) else none
      | _ => none

def perform (call : StaticCall) (files : FileSystem) : call.Answer × FileSystem :=
  (files.answer call, files)

end FileSystem

end RestfulWebserver.Static
