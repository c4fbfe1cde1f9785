import RestfulWebserver.Config.Grammar
import RestfulWebserver.Library.Numeral
import RestfulWebserver.Session.Routing

/-!
# From the configuration to the route table

`parse_config` reads the port and the `location` statements off the parsed
configuration. A refused configuration is an empty optional; `vector::at` and
`stoi` throw, and nothing in `parse_config` catches what they throw.
-/

namespace RestfulWebserver.Startup

open Library Config Session

inductive ConfigException where
  /-- `std::out_of_range` of `vector::at`. -/
  | outOfRange
  | number (error : NumberError)
  deriving DecidableEq, Repr

structure ConfigPayload where
  routeMap : RoutingMap
  config : NginxConfig
  portNumber : Int

def vectorAt {Value : Type} (values : List Value) (index : Nat) : Except ConfigException Value :=
  match values[index]? with
  | none => .error .outOfRange
  | some value => .ok value

abbrev NginxConfigMap := OrderedMap Bytes (List NginxConfigStatement)

/-- `result[first_token].push_back(child)` -/
def NginxConfigMap.push (map : NginxConfigMap) (key : Bytes) (statement : NginxConfigStatement) :
    NginxConfigMap :=
  map.assign key ((map.find? key).getD [] ++ [statement])

/-- The loop of `unroll_one_level`: the statements by their first token. -/
def unrollOneLevel : NginxConfig → NginxConfigMap → Except ConfigException NginxConfigMap
  | [], result => .ok result
  | child :: rest, result => do
      let firstToken ← vectorAt (NginxConfigStatement.tokens child) 0
      unrollOneLevel rest (result.push firstToken child)

def stringIsQuoted (text : Bytes) : Bool :=
  if text.length < 2 then false
  else
    (text.head? = some doubleQuote && text.getLast? = some doubleQuote) ||
      (text.head? = some singleQuote && text.getLast? = some singleQuote)

/-- The key and value of a statement with two tokens; others are skipped. -/
def argument (statement : NginxConfigStatement) : Option (Bytes × Bytes) :=
  match NginxConfigStatement.tokens statement with
  | [key, value] => some (key, value)
  | _ => none

/-- The argument map built from a config block: the first value of a key stays. -/
def buildArguments (configs : NginxConfigMap) : OrderedMap Bytes Bytes :=
  (configs.entries.flatMap fun entry => entry.2.filterMap argument).foldl
    (fun arguments pair => arguments.insert pair.1 pair.2) OrderedMap.empty

def locationArguments (childBlock : Option NginxConfig) :
    Except ConfigException (OrderedMap Bytes Bytes) :=
  match childBlock with
  | none => .ok (buildArguments OrderedMap.empty)
  | some child => do
      let configs ← unrollOneLevel child OrderedMap.empty
      .ok (buildArguments configs)

def addLocations : List NginxConfigStatement → List Bytes → RoutingMap →
    Except ConfigException (Option RoutingMap)
  | [], _, routes => .ok (some routes)
  | statement :: rest, seen, routes =>
      match NginxConfigStatement.tokens statement with
      | [_, servingPath, handlerName] =>
          if servingPath ∈ seen then .ok none
          else if 1 < servingPath.length ∧ servingPath.getLast? = some '/' then .ok none
          else if stringIsQuoted servingPath then .ok none
          else do
            let arguments ← locationArguments (NginxConfigStatement.childBlock statement)
            addLocations rest (servingPath :: seen)
              (routes.insert servingPath ⟨handlerName, arguments⟩)
      | _ => addLocations rest seen routes

def portKey : Bytes := "port".toList
def locationKey : Bytes := "location".toList

def defaultRoutes (routes : RoutingMap) : RoutingMap :=
  routes.insert "/".toList ⟨"EchoHandler".toList, OrderedMap.empty⟩

def readConfig (config : NginxConfig) : Except ConfigException (Option ConfigPayload) := do
  let root ← unrollOneLevel config OrderedMap.empty
  match root.find? portKey with
  | none => .ok none
  | some ports =>
      let first ← vectorAt ports 0
      let numeral ← vectorAt (NginxConfigStatement.tokens first) 1
      let portNumber ← (stoi numeral).mapError ConfigException.number
      match root.find? locationKey with
      | none => .ok (some ⟨defaultRoutes OrderedMap.empty, [], portNumber⟩)
      | some locations =>
          let added ← addLocations locations [] OrderedMap.empty
          match added with
          | none => .ok none
          | some routes =>
              if routes.entries.isEmpty then .ok (some ⟨defaultRoutes routes, [], portNumber⟩)
              else .ok (some ⟨routes, [], portNumber⟩)

/-- `parse_config` on the content of the file, or on a file that cannot be opened. -/
def parseConfig (file : Option Bytes) : Except ConfigException (Option ConfigPayload) :=
  match file with
  | none => .ok none
  | some text =>
      match parse text [] with
      | (false, _) => .ok none
      | (true, config) => readConfig config

end RestfulWebserver.Startup
