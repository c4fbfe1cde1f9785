import RestfulWebserver.Startup.Servable

/-!
# The declared route table

Which configurations `parse_config` refuses and which table it makes of the
others depends on the `location` statements alone, not on their order: the checks
that leave the loop early are all about the set of serving paths.
-/

namespace RestfulWebserver.Startup

open Library Library.Blocks Config Session

/-! ## What is declared -/

/-- The path of a statement `location path name`. -/
def servingPath (statement : NginxConfigStatement) : Option Bytes :=
  match NginxConfigStatement.tokens statement with
  | [key, path, _] => if key = locationKey then some path else none
  | _ => none

def servingPaths (config : NginxConfig) : List Bytes := config.filterMap servingPath

def Quoted (token : Bytes) : Prop := ∃ quote ∈ quotes, ∃ inner, token = quote :: (inner ++ [quote])

def Disallowed (path : Bytes) : Prop :=
  (1 < path.length ∧ path.getLast? = some '/') ∨ Quoted path

def Refused (config : NginxConfig) : Prop :=
  (∃ path ∈ servingPaths config, Disallowed path) ∨ ¬ (servingPaths config).Nodup

def firstValue (key : Bytes) (childBlock : Option NginxConfig) : Option Bytes :=
  (((childBlock.getD []).filterMap argument).find? fun pair => pair.1 = key).map Prod.snd

def Declares (config : NginxConfig) (path : Bytes) (payload : RoutingPayload) : Prop :=
  ∃ statement ∈ config,
    NginxConfigStatement.tokens statement = [locationKey, path, payload.handler] ∧
      ∀ key, payload.arguments.find? key =
        firstValue key (NginxConfigStatement.childBlock statement)

def DeclaredTable (config : NginxConfig) (routes : RoutingMap) : Prop :=
  if servingPaths config = [] then
    routes.entries = [("/".toList, ⟨"EchoHandler".toList, OrderedMap.empty⟩)]
  else ∀ path payload, routes.find? path = some payload ↔ Declares config path payload

def portStatement (config : NginxConfig) : Option NginxConfigStatement :=
  config.find? fun statement => (NginxConfigStatement.tokens statement).head? = some portKey

/-- The second token of the first `port` statement is read as a number. -/
def HasPort (config : NginxConfig) (port : Int) : Prop :=
  ∃ statement numeral, portStatement config = some statement ∧
    (NginxConfigStatement.tokens statement)[1]? = some numeral ∧ stoi numeral = .ok port

def unlocated (config : NginxConfig) : NginxConfig :=
  config.filter fun statement =>
    (NginxConfigStatement.tokens statement).head? ≠ some locationKey

structure Rearranged (config arranged : NginxConfig) : Prop where
  locations : (keyed locationKey config).Perm (keyed locationKey arranged)
  others : unlocated config = unlocated arranged

/-! ## The loop over the locations -/

theorem serving_path_eq_some (statement : NginxConfigStatement) (path : Bytes) :
    servingPath statement = some path ↔
      ∃ name, NginxConfigStatement.tokens statement = [locationKey, path, name] := by
  rw [servingPath]
  split
  · rename_i key served name tokens
    simp [tokens]
  · rename_i other
    simp only [reduceCtorEq, false_iff]
    rintro ⟨name, tokens⟩
    exact other _ _ _ tokens

theorem quoted_iff (first last : Char) (inner : Bytes) :
    Quoted (first :: (inner ++ [last])) ↔ first ∈ quotes ∧ last = first := by
  constructor
  · rintro ⟨quote, isQuote, other, same⟩
    obtain ⟨rfl, same⟩ := List.cons.inj same
    obtain ⟨_, ends⟩ := List.append_inj' same rfl
    exact ⟨isQuote, (List.cons.inj ends).1⟩
  · rintro ⟨isQuote, rfl⟩
    exact ⟨last, isQuote, inner, rfl⟩

theorem string_is_quoted_iff (text : Bytes) : stringIsQuoted text = true ↔ Quoted text := by
  rcases text with _ | ⟨first, rest⟩
  · simp [stringIsQuoted, Quoted]
  rcases List.eq_nil_or_concat' rest with rfl | ⟨inner, last, rfl⟩
  · simp [stringIsQuoted, Quoted]
  · have long : ¬ (first :: (inner ++ [last])).length < 2 := by simp
    rw [stringIsQuoted, if_neg long, quoted_iff, ← List.cons_append, List.getLast?_concat]
    simp only [quotes, List.mem_cons, List.not_mem_nil, or_false, List.cons_append,
      List.head?_cons, Bool.or_eq_true, Bool.and_eq_true, decide_eq_true_eq, Option.some.injEq]
    constructor
    · rintro (⟨rfl, rfl⟩ | ⟨rfl, rfl⟩) <;> simp
    · rintro ⟨rfl | rfl, rfl⟩ <;> simp

/-- No path twice, none seen before and none that is disallowed. -/
def Clear (seen paths : List Bytes) : Prop :=
  paths.Nodup ∧ ∀ path ∈ paths, path ∉ seen ∧ ¬ Disallowed path

theorem clear_cons (seen : List Bytes) (path : Bytes) (rest : List Bytes) :
    Clear seen (path :: rest) ↔
      path ∉ seen ∧ ¬ Disallowed path ∧ Clear (path :: seen) rest := by
  simp only [Clear, List.nodup_cons, List.forall_mem_cons]
  constructor
  · rintro ⟨⟨fresh, nodup⟩, ⟨unseen, allowed⟩, later⟩
    refine ⟨unseen, allowed, nodup, fun other member => ⟨fun known => ?_, (later other member).2⟩⟩
    rcases List.mem_cons.mp known with rfl | before
    · exact fresh member
    · exact (later other member).1 before
  · rintro ⟨unseen, allowed, nodup, later⟩
    refine ⟨⟨fun member => (later path member).1 List.mem_cons_self, nodup⟩, ⟨unseen, allowed⟩,
      fun other member => ⟨fun before => ?_, (later other member).2⟩⟩
    exact (later other member).1 (List.mem_cons_of_mem _ before)

theorem refused_iff (config : NginxConfig) : Refused config ↔ ¬ Clear [] (servingPaths config) := by
  simp only [Refused, Clear, List.not_mem_nil, not_false_eq_true, true_and]
  rw [not_and_or, or_comm]
  simp

/-- The loop refuses the paths that are not clear and takes all others; with
parsed blocks nothing is thrown. -/
theorem add_locations_outcome {statements : List NginxConfigStatement}
    (isLocation : ∀ statement ∈ statements,
      (NginxConfigStatement.tokens statement).head? = some locationKey)
    (headed : ∀ statement ∈ statements, ∀ child,
      NginxConfigStatement.childBlock statement = some child → Headed child)
    (seen : List Bytes) (routes : RoutingMap) :
    (¬ Clear seen (servingPaths statements) ∧ addLocations statements seen routes = .ok none) ∨
      (Clear seen (servingPaths statements) ∧
        ∃ final, addLocations statements seen routes = .ok (some final)) := by
  induction statements generalizing seen routes with
  | nil => exact .inr ⟨by simp [Clear, servingPaths], routes, rfl⟩
  | cons statement rest ih =>
      obtain ⟨first, locations⟩ := List.forall_mem_cons.mp isLocation
      obtain ⟨blocks, others⟩ := List.forall_mem_cons.mp headed
      have later := ih locations others
      rw [addLocations]
      split
      · rename_i key path name tokens
        have isKey : key = locationKey := by simpa [tokens] using first
        have paths : servingPaths (statement :: rest) = path :: servingPaths rest := by
          have read := (serving_path_eq_some statement path).mpr ⟨name, isKey ▸ tokens⟩
          rw [servingPaths, List.filterMap_cons, read]
          rfl
        rw [paths, clear_cons]
        split_ifs with known trailing quoted
        · exact .inl ⟨fun clear => clear.1 known, rfl⟩
        · exact .inl ⟨fun clear => clear.2.1 (.inl trailing), rfl⟩
        · exact .inl ⟨fun clear => clear.2.1 (.inr ((string_is_quoted_iff path).mp quoted)), rfl⟩
        · have allowed : ¬ Disallowed path := by
            rw [Disallowed, ← string_is_quoted_iff, not_or]
            exact ⟨trailing, quoted⟩
          obtain ⟨arguments, built, _⟩ := location_arguments blocks
          rw [built]
          simp only [known, allowed, not_false_eq_true, true_and]
          exact later (path :: seen) _
      · rename_i other
        have paths : servingPaths (statement :: rest) = servingPaths rest := by
          have skipped : servingPath statement = none := by
            rw [Option.eq_none_iff_forall_ne_some]
            intro path read
            obtain ⟨name, tokens⟩ := (serving_path_eq_some statement path).mp read
            exact other _ _ _ tokens
          rw [servingPaths, List.filterMap_cons, skipped]
          rfl
        rw [paths]
        exact later seen routes

/-! ## The arguments -/

theorem find_build_arguments {map : NginxConfigMap} {child : NginxConfig}
    (found : ∀ key, map.find? key = grouped none (keyed key child)) (key : Bytes) :
    (buildArguments map).find? key = firstValue key (some child) := by
  have headOf : ∀ statement pair, argument statement = some pair →
      (NginxConfigStatement.tokens statement).head? = some pair.1 := by
    intro statement pair read
    rw [(argument_eq_some statement pair.1 pair.2).mp read]
    rfl
  have pairs : (map.entries.flatMap fun entry => entry.2.filterMap argument) =
      (map.entries.flatMap Prod.snd).filterMap argument := by
    rw [List.filterMap_flatMap]
  have others : ∀ entry ∈ map.entries, entry.1 ≠ key → ∀ statement ∈ entry.2,
      (argument statement).any (fun pair => pair.1 = key) = false := by
    intro entry stored different statement member
    rw [OrderedMap.mem_entries_iff map entry.1 entry.2, found] at stored
    rw [mem_grouped_none stored] at member
    have first := (List.mem_filter.mp member).2
    cases read : argument statement with
    | none => rfl
    | some pair =>
        have same : pair.1 = entry.1 := by simpa [headOf statement pair read] using first
        simpa [same] using different
  have group : ((map.find? key).getD []).find?
        (fun statement => (argument statement).any fun pair => pair.1 = key) =
      child.find? fun statement => (argument statement).any fun pair => pair.1 = key := by
    have all : (map.find? key).getD [] = keyed key child := by
      rw [found, grouped]
      split_ifs with none
      · exact none.symm
      · rfl
    rw [all, keyed, List.find?_filter]
    congr 1
    funext statement
    rw [Bool.eq_iff_iff, decide_eq_true_eq, and_iff_right_iff_imp]
    intro read
    obtain ⟨pair, same, isKey⟩ := (Option.any_eq_true _ _).mp read
    simpa [headOf statement pair same] using isKey
  have looked := OrderedMap.find_in_lists map key _ others
  rw [group] at looked
  rw [buildArguments, OrderedMap.find_insert_all, OrderedMap.find_empty, Option.none_or, pairs,
    firstValue, Option.getD_some, List.find?_filterMap, List.find?_filterMap, ← looked]
  congr!

theorem location_arguments_find {childBlock : Option NginxConfig}
    (headed : ∀ child, childBlock = some child → Headed child) :
    ∃ arguments, locationArguments childBlock = .ok arguments ∧
      ∀ key, arguments.find? key = firstValue key childBlock := by
  cases childBlock with
  | none =>
      refine ⟨_, rfl, fun key => ?_⟩
      exact @find_build_arguments OrderedMap.empty [] (fun _ => rfl) key
  | some child =>
      obtain ⟨map, unrolled, found⟩ := unroll_headed (headed child rfl)
      exact ⟨buildArguments map, by rw [locationArguments, unrolled]; rfl,
        find_build_arguments found⟩

/-! ## The table -/

theorem keyed_location_paths (config : NginxConfig) :
    servingPaths (keyed locationKey config) = servingPaths config := by
  rw [servingPaths, keyed, List.filterMap_filter]
  apply List.filterMap_congr
  intro statement _
  cases read : servingPath statement with
  | none => simp
  | some path =>
      obtain ⟨name, tokens⟩ := (serving_path_eq_some statement path).mp read
      simp [tokens]

/-- The routes of parsed locations are the declared ones. -/
theorem becomes_route_iff {config : NginxConfig} (headed : Headed config) (path : Bytes)
    (payload : RoutingPayload) :
    (∃ statement ∈ keyed locationKey config, BecomesRoute statement path payload) ↔
      Declares config path payload := by
  constructor
  · rintro ⟨statement, member, ⟨key, tokens⟩, built⟩
    obtain ⟨inConfig, first⟩ := List.mem_filter.mp member
    have isKey : key = locationKey := by simpa [tokens] using first
    obtain ⟨arguments, made, found⟩ := location_arguments_find (headed_statement headed inConfig).2
    rw [made] at built
    cases built
    exact ⟨statement, inConfig, isKey ▸ tokens, found⟩
  · rintro ⟨statement, inConfig, tokens, found⟩
    obtain ⟨arguments, made, others⟩ :=
      location_arguments_find (headed_statement headed inConfig).2
    have same : arguments = payload.arguments :=
      OrderedMap.eq_of_find fun key => (others key).trans (found key).symm
    exact ⟨statement, List.mem_filter.mpr ⟨inConfig, by simp [tokens]⟩, ⟨_, tokens⟩, same ▸ made⟩

theorem declares_path {config : NginxConfig} {path : Bytes} {payload : RoutingPayload}
    (declares : Declares config path payload) : path ∈ servingPaths config := by
  obtain ⟨statement, member, tokens, _⟩ := declares
  exact List.mem_filterMap.mpr ⟨statement, member,
    (serving_path_eq_some statement path).mpr ⟨_, tokens⟩⟩

theorem path_declared {config : NginxConfig} (headed : Headed config) {path : Bytes}
    (member : path ∈ servingPaths config) : ∃ payload, Declares config path payload := by
  obtain ⟨statement, inConfig, read⟩ := List.mem_filterMap.mp member
  obtain ⟨arguments, _, found⟩ := location_arguments_find (headed_statement headed inConfig).2
  obtain ⟨name, tokens⟩ := (serving_path_eq_some statement path).mp read
  exact ⟨⟨name, arguments⟩, statement, inConfig, tokens, found⟩

/-- What the loop makes of the locations, with the default put in where it is needed. -/
theorem declared_table {config : NginxConfig} (headed : Headed config) {routes : RoutingMap}
    (added : addLocations (keyed locationKey config) [] OrderedMap.empty = .ok (some routes)) :
    DeclaredTable config (if routes.entries.isEmpty then defaultRoutes routes else routes) := by
  have noneKnown : ∀ path, (OrderedMap.empty : RoutingMap).contains path = true → path ∈ [] := by
    intro path known
    cases known
  have stored := add_locations noneKnown added
  simp only [OrderedMap.find_empty, reduceCtorEq, false_or] at stored
  simp only [becomes_route_iff headed] at stored
  rw [DeclaredTable]
  split_ifs with none empty empty
  · obtain ⟨entries, increasing⟩ := routes
    cases List.isEmpty_iff.mp empty
    rfl
  · obtain ⟨⟨path, payload⟩, member⟩ := List.exists_mem_of_ne_nil _ (mt List.isEmpty_iff.mpr empty)
    have declares := (stored path payload).mp ((OrderedMap.mem_entries_iff _ _ _).mp member)
    exact absurd (declares_path declares) (by simp [none])
  · obtain ⟨path, member⟩ := List.exists_mem_of_ne_nil _ none
    obtain ⟨payload, declares⟩ := path_declared headed member
    have inEntries := (OrderedMap.mem_entries_iff _ _ _).mpr ((stored path payload).mpr declares)
    rw [List.isEmpty_iff.mp empty] at inEntries
    cases inEntries
  · exact stored

theorem HasPort.unique {config : NginxConfig} {port other : Int} (has : HasPort config port)
    (hasOther : HasPort config other) : port = other := by
  obtain ⟨statement, numeral, first, second, read⟩ := has
  obtain ⟨_, _, sameFirst, sameSecond, otherRead⟩ := hasOther
  cases first.symm.trans sameFirst
  cases second.symm.trans sameSecond
  exact Except.ok.inj (read.symm.trans otherRead)

theorem ports_found {config : NginxConfig} {root : NginxConfigMap}
    (found : ∀ key, root.find? key = grouped none (keyed key config))
    {statement : NginxConfigStatement} (first : portStatement config = some statement) :
    ∃ others, root.find? portKey = some (statement :: others) := by
  rw [portStatement, ← List.head?_filter] at first
  change (keyed portKey config).head? = some statement at first
  obtain ⟨others, ports⟩ := List.head?_eq_some_iff.mp first
  refine ⟨others, ?_⟩
  rw [found, ports]
  rfl

/-- With the port read, the rest is the loop over the locations and the default. -/
theorem read_config_added {config : NginxConfig} (headed : Headed config) {port : Int}
    (has : HasPort config port) {added : Option RoutingMap}
    (made : addLocations (keyed locationKey config) [] OrderedMap.empty = .ok added) :
    readConfig config = .ok (added.map fun routes =>
      ⟨if routes.entries.isEmpty then defaultRoutes routes else routes, [], port⟩) := by
  obtain ⟨root, unrolled, found⟩ := unroll_headed headed
  obtain ⟨statement, numeral, first, second, read⟩ := has
  obtain ⟨others, ports⟩ := ports_found found first
  have atSecond : vectorAt (NginxConfigStatement.tokens statement) 1 = .ok numeral := by
    rw [vectorAt, second]
  refine bind_eq_ok.mpr ⟨root, unrolled, ?_⟩
  rw [ports]
  refine bind_eq_ok.mpr ⟨statement, rfl, bind_eq_ok.mpr ⟨numeral, atSecond, ?_⟩⟩
  refine bind_eq_ok.mpr ⟨port, by rw [read]; rfl, ?_⟩
  rw [found locationKey, grouped]
  by_cases none : keyed locationKey config = []
  · rw [none] at made
    cases made
    simp only [none, if_true]
    rfl
  · simp only [if_neg none]
    refine bind_eq_ok.mpr ⟨added, made, ?_⟩
    cases added with
    | none => rfl
    | some routes =>
        rw [Option.map_some]
        change (if routes.entries.isEmpty then _ else _) = _
        split_ifs <;> rfl

theorem read_config_port {config : NginxConfig} (headed : Headed config) {port : Int}
    (has : HasPort config port) :
    (Refused config ∧ readConfig config = .ok none) ∨
      (¬ Refused config ∧ ∃ routes, readConfig config = .ok (some ⟨routes, [], port⟩) ∧
        DeclaredTable config routes) := by
  have isLocation : ∀ statement ∈ keyed locationKey config,
      (NginxConfigStatement.tokens statement).head? = some locationKey := fun statement member =>
    of_decide_eq_true (List.mem_filter.mp member).2
  have blocks : ∀ statement ∈ keyed locationKey config, ∀ child,
      NginxConfigStatement.childBlock statement = some child → Headed child :=
    fun statement member => (headed_statement headed (List.mem_filter.mp member).1).2
  rw [refused_iff, not_not, ← keyed_location_paths]
  rcases add_locations_outcome isLocation blocks [] OrderedMap.empty with
    ⟨refused, made⟩ | ⟨clear, routes, made⟩
  · exact .inl ⟨refused, read_config_added headed has made⟩
  · exact .inr ⟨clear, _, read_config_added headed has made, declared_table headed made⟩

/-! ## In another order -/

namespace Rearranged

variable {config arranged : NginxConfig}

theorem mem_iff (same : Rearranged config arranged) (statement : NginxConfigStatement) :
    statement ∈ config ↔ statement ∈ arranged := by
  by_cases location : (NginxConfigStatement.tokens statement).head? = some locationKey
  · have members : statement ∈ keyed locationKey config ↔ _ := same.locations.mem_iff
    simpa [keyed, location] using members
  · have members : statement ∈ unlocated config ↔ statement ∈ unlocated arranged := by
      rw [same.others]
    simpa [unlocated, location] using members

theorem has_port (same : Rearranged config arranged) {port : Int} (has : HasPort config port) :
    HasPort arranged port := by
  have different : portKey ≠ locationKey := by decide
  have noLocation : ∀ config, portStatement config = portStatement (unlocated config) := by
    intro config
    rw [portStatement, portStatement, unlocated, List.find?_filter]
    congr 1
    funext statement
    by_cases isPort : (NginxConfigStatement.tokens statement).head? = some portKey
    · simp only [isPort, Option.some.injEq, ne_eq, different, not_false_eq_true, and_self]
      rfl
    · simp [isPort]
  obtain ⟨statement, numeral, first, read⟩ := has
  rw [noLocation, same.others, ← noLocation] at first
  exact ⟨statement, numeral, first, read⟩

theorem paths (same : Rearranged config arranged) :
    (servingPaths config).Perm (servingPaths arranged) := by
  rw [← keyed_location_paths config, ← keyed_location_paths arranged]
  exact same.locations.filterMap servingPath

theorem refused_iff (same : Rearranged config arranged) : Refused config ↔ Refused arranged := by
  simp only [Refused, same.paths.nodup_iff, same.paths.mem_iff]

theorem table (same : Rearranged config arranged) {routes others : RoutingMap}
    (declared : DeclaredTable config routes) (other : DeclaredTable arranged others) :
    routes = others := by
  have declares : ∀ path payload, Declares config path payload ↔ Declares arranged path payload := by
    simp only [Declares, same.mem_iff, implies_true]
  rw [DeclaredTable] at declared other
  by_cases none : servingPaths config = []
  · have noneThere : servingPaths arranged = [] := (none ▸ same.paths).nil_eq.symm
    rw [if_pos none] at declared
    rw [if_pos noneThere, ← declared] at other
    obtain ⟨entries, increasing⟩ := routes
    cases other
    rfl
  · have someThere : servingPaths arranged ≠ [] := fun noneThere =>
      none (noneThere ▸ same.paths).eq_nil
    rw [if_neg none] at declared
    rw [if_neg someThere] at other
    apply OrderedMap.eq_of_find
    intro path
    apply Option.ext
    intro payload
    rw [declared, other, declares]

end Rearranged

/-- For a parsed configuration whose port is read, the outcome is the declared
table or a refusal, and depends on the order of the locations in neither. -/
theorem parse_config_routes {text : Bytes} {config : NginxConfig} {port : Int}
    (parsed : parse text [] = (true, config)) (has : HasPort config port) :
    (parseConfig (some text) = .ok none ↔ Refused config) ∧
      (¬ Refused config → ∃ routes, parseConfig (some text) = .ok (some ⟨routes, [], port⟩) ∧
        DeclaredTable config routes) ∧
      ∀ other arranged, parse other [] = (true, arranged) → Rearranged config arranged →
        parseConfig (some other) = parseConfig (some text) := by
  have opened : ∀ text config, parse text [] = (true, config) →
      parseConfig (some text) = readConfig config := by
    intro text config parsed
    rw [parseConfig, parsed]
  have outcome := read_config_port (headed_of_parse parsed) has
  rw [← opened text config parsed] at outcome
  refine ⟨?_, ?_, ?_⟩
  · rcases outcome with ⟨refused, read⟩ | ⟨allowed, routes, read, _⟩
    · exact iff_of_true read refused
    · exact iff_of_false (by rw [read]; simp) allowed
  · intro allowed
    rcases outcome with ⟨refused, _⟩ | ⟨_, routes, read, table⟩
    · exact absurd refused allowed
    · exact ⟨routes, read, table⟩
  · intro other arranged otherParsed same
    have otherOutcome := read_config_port (headed_of_parse otherParsed) (same.has_port has)
    rw [← same.refused_iff, ← opened other arranged otherParsed] at otherOutcome
    rcases outcome with ⟨refused, read⟩ | ⟨allowed, routes, read, table⟩
    · rcases otherOutcome with ⟨_, otherRead⟩ | ⟨allowed, _⟩
      · rw [read, otherRead]
      · exact absurd refused allowed
    · rcases otherOutcome with ⟨refused, _⟩ | ⟨_, others, otherRead, otherTable⟩
      · exact absurd refused allowed
      · rw [read, otherRead, same.table table otherTable]

def portLine : NginxConfigStatement := .plain ["port".toList, "80".toList]

def filesLocation : NginxConfigStatement :=
  .block ["location".toList, "/files".toList, "StaticHandler".toList]
    [.plain ["root".toList, "/www".toList]]

def apiLocation : NginxConfigStatement :=
  .block ["location".toList, "/api".toList, "EntityHandler".toList]
    [.plain ["root".toList, "/data".toList], .plain ["root".toList, "/other".toList]]

def filesFirst : Bytes :=
  ("port 80; location /files StaticHandler \x7broot /www;\x7d " ++
    "location /api EntityHandler \x7broot /data; root /other;\x7d").toList

def apiFirst : Bytes :=
  ("location /api EntityHandler \x7broot /data; root /other;\x7d port 80; " ++
    "location /files StaticHandler \x7broot /www;\x7d").toList

theorem files_first_parsed : parse filesFirst [] = (true, [portLine, filesLocation, apiLocation]) := by
  have delivered : tokens filesFirst =
      [⟨.normal, "port".toList⟩, ⟨.normal, "80".toList⟩, ⟨.statementEnd, [';']⟩,
        ⟨.normal, "location".toList⟩, ⟨.normal, "/files".toList⟩,
        ⟨.normal, "StaticHandler".toList⟩, ⟨.startBlock, ['\x7b']⟩, ⟨.normal, "root".toList⟩,
        ⟨.normal, "/www".toList⟩, ⟨.statementEnd, [';']⟩, ⟨.endBlock, ['\x7d']⟩,
        ⟨.normal, "location".toList⟩, ⟨.normal, "/api".toList⟩,
        ⟨.normal, "EntityHandler".toList⟩, ⟨.startBlock, ['\x7b']⟩, ⟨.normal, "root".toList⟩,
        ⟨.normal, "/data".toList⟩, ⟨.statementEnd, [';']⟩, ⟨.normal, "root".toList⟩,
        ⟨.normal, "/other".toList⟩, ⟨.statementEnd, [';']⟩, ⟨.endBlock, ['\x7d']⟩, ⟨.eof, []⟩] := by
    decide +kernel
  rw [parse, delivered]
  rfl

theorem api_first_parsed : parse apiFirst [] = (true, [apiLocation, portLine, filesLocation]) := by
  have delivered : tokens apiFirst =
      [⟨.normal, "location".toList⟩, ⟨.normal, "/api".toList⟩,
        ⟨.normal, "EntityHandler".toList⟩, ⟨.startBlock, ['\x7b']⟩, ⟨.normal, "root".toList⟩,
        ⟨.normal, "/data".toList⟩, ⟨.statementEnd, [';']⟩, ⟨.normal, "root".toList⟩,
        ⟨.normal, "/other".toList⟩, ⟨.statementEnd, [';']⟩, ⟨.endBlock, ['\x7d']⟩,
        ⟨.normal, "port".toList⟩, ⟨.normal, "80".toList⟩, ⟨.statementEnd, [';']⟩,
        ⟨.normal, "location".toList⟩, ⟨.normal, "/files".toList⟩,
        ⟨.normal, "StaticHandler".toList⟩, ⟨.startBlock, ['\x7b']⟩, ⟨.normal, "root".toList⟩,
        ⟨.normal, "/www".toList⟩, ⟨.statementEnd, [';']⟩, ⟨.endBlock, ['\x7d']⟩, ⟨.eof, []⟩] := by
    decide +kernel
  rw [parse, delivered]
  rfl

theorem two_declared : ∃ routes,
    parseConfig (some filesFirst) = .ok (some ⟨routes, [], 80⟩) ∧
      parseConfig (some apiFirst) = .ok (some ⟨routes, [], 80⟩) ∧
      DeclaredTable [portLine, filesLocation, apiLocation] routes := by
  have has : HasPort [portLine, filesLocation, apiLocation] 80 := ⟨_, "80".toList, rfl, rfl, by decide⟩
  have paths : servingPaths [portLine, filesLocation, apiLocation] =
      ["/files".toList, "/api".toList] := rfl
  have allowed : ¬ Refused [portLine, filesLocation, apiLocation] := by
    rw [refused_iff, not_not, paths]
    simp only [clear_cons, Disallowed, ← string_is_quoted_iff]
    refine ⟨by decide, by decide, by decide, by decide, List.nodup_nil, by simp⟩
  have same : Rearranged [portLine, filesLocation, apiLocation]
      [apiLocation, portLine, filesLocation] :=
    ⟨List.Perm.swap apiLocation filesLocation [], rfl⟩
  obtain ⟨_, declared, anyOrder⟩ := parse_config_routes files_first_parsed has
  obtain ⟨routes, read, table⟩ := declared allowed
  refine ⟨routes, read, ?_, table⟩
  rw [anyOrder _ _ api_first_parsed same, read]

end RestfulWebserver.Startup
