import RestfulWebserver.Http.Message
import RestfulWebserver.Library.Calls
import RestfulWebserver.Library.LexicalPath
import RestfulWebserver.Library.Numeral

/-!
# `RealFilesystem`

The class stores an entity `name` as a directory below its root and the value
under `id` as a file in it. Each call to `std::filesystem` and each file stream
is a call to the environment, whose answers are left open.
-/

namespace RestfulWebserver.Entity

open RestfulWebserver.Library RestfulWebserver.Http

/-- A normal component of a path, as the entries of a directory are. -/
structure FileName where
  name : Bytes
  nonempty : name ≠ []
  noSlash : '/' ∉ name
  notDot : name ≠ ".".toList
  notDotDot : name ≠ dotDot

theorem file_name_inj {first second : FileName} (same : first.name = second.name) :
    first = second := by
  cases first
  cases second
  cases same
  rfl

instance : DecidableEq FileName := fun first second =>
  decidable_of_iff (first.name = second.name)
    ⟨file_name_inj, fun same => congrArg FileName.name same⟩

inductive FileCall where
  | createDirectories (path : Bytes)
  | pathExists (path : Bytes)
  /-- Open an input stream and read it to its end. -/
  | readFile (path : Bytes)
  /-- Open an output stream, write to it and close it. -/
  | writeFile (path data : Bytes)
  | remove (path : Bytes)
  /-- Iterate over a directory. -/
  | directoryEntries (path : Bytes)
  /-- The kind of an entry, which the iteration comes across with its name. -/
  | isRegularFile (directory : Bytes) (entry : FileName)

def FileCall.path : FileCall → Bytes
  | .createDirectories path => path
  | .pathExists path => path
  | .readFile path => path
  | .writeFile path _ => path
  | .remove path => path
  | .directoryEntries path => path
  | .isRegularFile directory entry => join directory entry.name

/-- What a call returns. `std::filesystem` throws a `filesystem_error`, given
here by its text; a stream is open or not. -/
def FileCall.Answer : FileCall → Type
  | .createDirectories _ => Except Bytes Unit
  | .pathExists _ => Except Bytes Bool
  | .readFile _ => Option Bytes
  | .writeFile _ _ => Bool
  | .remove _ => Except Bytes Bool
  | .directoryEntries _ => Except Bytes (List FileName)
  | .isRegularFile _ _ => Except Bytes Bool

/-- The exceptions that `EntityHandler` tells apart, each with its text. -/
inductive Thrown where
  | notFound (what : Bytes)
  | invalidId (what : Bytes)
  | fileIo (what : Bytes)
  | other (what : Bytes)
  deriving DecidableEq, Repr

abbrev FileM := ExceptT Thrown (Program FileCall FileCall.Answer)

/-- Make a call and throw the `filesystem_error` it ends in, if it does. -/
def tried {Result : Type} (call : FileCall) (outcome : call.Answer → Except Bytes Result) :
    FileM Result :=
  ExceptT.mk (.ask call fun answer => .done ((outcome answer).mapError .other))

def createDirectories (path : Bytes) : FileM Unit := tried (.createDirectories path) id

def pathExists (path : Bytes) : FileM Bool := tried (.pathExists path) id

def removePath (path : Bytes) : FileM Bool := tried (.remove path) id

def directoryEntries (path : Bytes) : FileM (List FileName) := tried (.directoryEntries path) id

def isRegularFile (directory : Bytes) (entry : FileName) : FileM Bool :=
  tried (.isRegularFile directory entry) id

def readFile (path : Bytes) : FileM (Option Bytes) :=
  ExceptT.mk (.ask (.readFile path) fun contents => .done (.ok contents))

def writeFile (path data : Bytes) : FileM Bool :=
  ExceptT.mk (.ask (.writeFile path data) fun isOpen => .done (.ok isOpen))

structure EntityPayload where
  path : Bytes
  name : Bytes

def EntityPayload.makePath (entity : EntityPayload) : Bytes := join entity.path entity.name

def EntityPayload.makePathTo (entity : EntityPayload) (id : Bytes) : Bytes :=
  join (join entity.path entity.name) id

def EntityPayload.makeName (entity : EntityPayload) (id : Bytes) : Bytes := join entity.name id

def invalidId (id : Bytes) : Thrown :=
  .invalidId ("Invalid id (".toList ++ id ++ "): ID must be a positive integer".toList)

/-- `Filesystem::check_id`: whatever is thrown inside becomes one exception. -/
def checkId (id : Bytes) : FileM Unit :=
  match stoi id with
  | .error _ => throw (invalidId id)
  | .ok numericId => if numericId ≤ 0 then throw (invalidId id) else pure ()

namespace RealFilesystem

def create (dataPath : Bytes) : FileM Unit := createDirectories dataPath

def existsAt (entity : EntityPayload) (id : Bytes) : FileM Bool := pathExists (entity.makePathTo id)

def read (entity : EntityPayload) (id : Bytes) : FileM Bytes := do
  if !(← pathExists (entity.makePathTo id)) then
    throw (.notFound ("No such entity or ID: ".toList ++ entity.makeName id))
  let path := entity.makePathTo id
  match ← readFile path with
  | none => throw (.fileIo ("Could not open file for reading: ".toList ++ path))
  | some contents => pure contents

def write (entity : EntityPayload) (id data : Bytes) : FileM Unit := do
  checkId id
  createDirectories entity.makePath
  let path := entity.makePathTo id
  if !(← writeFile path data) then
    throw (.fileIo ("Could not open file for writing: ".toList ++ path))

def remove (entity : EntityPayload) (id : Bytes) : FileM Unit := do
  let path := entity.makePathTo id
  if !(← removePath path) then
    throw (.notFound ("Could not remove file: ".toList ++ path))

def regularFiles (dirPath : Bytes) : List FileName → FileM (List Bytes)
  | [] => pure []
  | entry :: later => do
      let regular ← isRegularFile dirPath entry
      let ids ← regularFiles dirPath later
      pure (if regular then entry.name :: ids else ids)

def listIds (entity : EntityPayload) : FileM (List Bytes) := do
  let dirPath := entity.makePath
  if !(← pathExists dirPath) then
    pure []
  else
    let entries ← directoryEntries dirPath
    regularFiles dirPath entries

def maxId (ids : List Bytes) : Int :=
  ids.foldl (fun maxId idStr =>
    match stoi idStr with
    | .ok id => if maxId < id then id else maxId
    | .error _ => maxId) 0

def intToString (value : Int) : Bytes :=
  if value < 0 then '-' :: toDecimal value.natAbs else toDecimal value.natAbs

/-- `next_id`. Past the largest `int` the addition is taken to wrap around. -/
def nextId (entity : EntityPayload) : FileM Bytes := do
  let ids ← listIds entity
  pure (intToString ((maxId ids + 1).bmod (2 ^ 32)))

end RealFilesystem

end RestfulWebserver.Entity
