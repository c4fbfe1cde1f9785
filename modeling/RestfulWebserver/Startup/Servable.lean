import RestfulWebserver.Startup.ParseConfig
import RestfulWebserver.Startup.Registry

/-!
# Which accepted configurations can be served

`parse_config` accepts a location by the number of its tokens. Whether a handler
of that name exists, and whether the block gave it the argument it needs, is only
found out when a request arrives, and then by an exception.
-/

namespace RestfulWebserver.Startup

open Library Library.Blocks Config Http Session

/-! ## Unrolling a block -/

theorem find_push (map : NginxConfigMap) (key other : Bytes) (statement : NginxConfigStatement) :
    (map.push key statement).find? other =
      if key = other then some ((map.find? key).getD [] ++ [statement]) else map.find? other := by
  rw [NginxConfigMap.push, OrderedMap.find_assign]
  split_ifs <;> rfl

def keyed (key : Bytes) (statements : NginxConfig) : NginxConfig :=
  statements.filter fun statement => (NginxConfigStatement.tokens statement).head? = some key

def grouped (before : Option (List NginxConfigStatement)) (added : NginxConfig) :
    Option (List NginxConfigStatement) :=
  if added = [] then before else some (before.getD [] ++ added)

theorem grouped_cons (before : Option (List NginxConfigStatement))
    (statement : NginxConfigStatement) (added : NginxConfig) :
    grouped (some (before.getD [] ++ [statement])) added = grouped before (statement :: added) := by
  cases added <;> simp [grouped]

/-- With a first token in every statement nothing is thrown, and each key has the
statements that start with it, in their order. -/
theorem unroll_one_level {statements : NginxConfig}
    (headed : ∀ statement ∈ statements, NginxConfigStatement.tokens statement ≠ [])
    (result : NginxConfigMap) :
    ∃ map, unrollOneLevel statements result = .ok map ∧
      ∀ key, map.find? key = grouped (result.find? key) (keyed key statements) := by
  induction statements generalizing result with
  | nil => exact ⟨result, rfl, fun key => by simp [keyed, grouped]⟩
  | cons statement rest ih =>
      obtain ⟨here, after⟩ := List.forall_mem_cons.mp headed
      obtain ⟨first, others, tokens⟩ := List.exists_cons_of_ne_nil here
      obtain ⟨map, unrolled, found⟩ := ih after (result.push first statement)
      refine ⟨map, ?_, ?_⟩
      · rw [unrollOneLevel, tokens]
        exact unrolled
      · intro key
        rw [found, find_push, keyed, keyed, List.filter_cons, tokens]
        by_cases same : first = key
        · subst same
          simp [grouped_cons]
        · simp [same]

theorem headed_statement {config : NginxConfig} (headed : Headed config)
    {statement : NginxConfigStatement} (member : statement ∈ config) :
    NginxConfigStatement.tokens statement ≠ [] ∧
      ∀ child, NginxConfigStatement.childBlock statement = some child → Headed child := by
  induction config with
  | nil => cases member
  | cons first rest ih =>
      cases first with
      | plain tokens =>
          rw [Headed, Every] at headed
          rcases List.mem_cons.mp member with rfl | later
          · exact ⟨headed.1, fun child opened => by cases opened⟩
          · exact ih headed.2 later
      | block tokens inner =>
          rw [Headed, Every] at headed
          rcases List.mem_cons.mp member with rfl | later
          · exact ⟨headed.1, fun child opened => by cases opened; exact headed.2.1⟩
          · exact ih headed.2.2 later

theorem unroll_headed {config : NginxConfig} (headed : Headed config) :
    ∃ map, unrollOneLevel config OrderedMap.empty = .ok map ∧
      ∀ key, map.find? key = grouped none (keyed key config) :=
  unroll_one_level (fun _ member => (headed_statement headed member).1) OrderedMap.empty

/-! ## The arguments of a location -/

def Provides (childBlock : Option NginxConfig) (key : Bytes) : Prop :=
  ∃ child, childBlock = some child ∧
    ∃ statement ∈ child, ∃ value, NginxConfigStatement.tokens statement = [key, value]

theorem argument_eq_some (statement : NginxConfigStatement) (key value : Bytes) :
    argument statement = some (key, value) ↔
      NginxConfigStatement.tokens statement = [key, value] := by
  unfold argument
  split
  · rename_i first second tokens
    simp [tokens]
  · rename_i other
    simp only [reduceCtorEq, false_iff]
    exact fun tokens => other key value tokens

theorem contains_build_arguments (configs : NginxConfigMap) (key : Bytes) :
    (buildArguments configs).contains key = true ↔
      ∃ group statements, configs.find? group = some statements ∧
        ∃ statement ∈ statements, ∃ value,
          NginxConfigStatement.tokens statement = [key, value] := by
  rw [OrderedMap.contains, buildArguments, OrderedMap.find_insert_all]
  simp only [OrderedMap.find_empty, Option.none_or, Option.isSome_map, List.find?_isSome,
    List.mem_flatMap, List.mem_filterMap, decide_eq_true_eq]
  constructor
  · rintro ⟨⟨_, value⟩, ⟨entry, stored, statement, member, read⟩, same⟩
    cases same
    exact ⟨entry.1, entry.2, (OrderedMap.mem_entries_iff _ _ _).mp stored, statement, member,
      value, (argument_eq_some _ _ _).mp read⟩
  · rintro ⟨group, statements, found, statement, member, value, tokens⟩
    exact ⟨(key, value), ⟨(group, statements), (OrderedMap.mem_entries_iff _ _ _).mpr found,
      statement, member, (argument_eq_some _ _ _).mpr tokens⟩, rfl⟩

theorem mem_grouped_none {added : NginxConfig} {statements : List NginxConfigStatement}
    (found : grouped none added = some statements) : statements = added := by
  unfold grouped at found
  split_ifs at found
  cases found
  rfl

theorem location_arguments {childBlock : Option NginxConfig}
    (headed : ∀ child, childBlock = some child → Headed child) :
    ∃ arguments, locationArguments childBlock = .ok arguments ∧
      ∀ key, arguments.contains key = true ↔ Provides childBlock key := by
  cases childBlock with
  | none =>
      refine ⟨_, rfl, fun key => ?_⟩
      rw [contains_build_arguments]
      simp [Provides]
  | some child =>
      obtain ⟨map, unrolled, found⟩ := unroll_headed (headed child rfl)
      refine ⟨buildArguments map, by rw [locationArguments, unrolled]; rfl, fun key => ?_⟩
      rw [contains_build_arguments]
      constructor
      · intro ⟨group, statements, stored, statement, member, value, tokens⟩
        rw [found] at stored
        rw [mem_grouped_none stored] at member
        exact ⟨child, rfl, statement, (List.mem_filter.mp member).1, value, tokens⟩
      · intro ⟨same, given, statement, member, value, tokens⟩
        cases given
        have inGroup : statement ∈ keyed key child := by
          refine List.mem_filter.mpr ⟨member, ?_⟩
          simp [tokens]
        refine ⟨key, keyed key child, ?_, statement, inGroup, value, tokens⟩
        rw [found, grouped, if_neg (List.ne_nil_of_mem inGroup)]
        rfl

/-! ## The route table -/

def BecomesRoute (statement : NginxConfigStatement) (path : Bytes) (payload : RoutingPayload) :
    Prop :=
  (∃ key, NginxConfigStatement.tokens statement = [key, path, payload.handler]) ∧
    locationArguments (NginxConfigStatement.childBlock statement) = .ok payload.arguments

theorem recorded_insert {seen : List Bytes} {routes : RoutingMap}
    (recorded : ∀ path, routes.contains path = true → path ∈ seen) {path : Bytes}
    (fresh : routes.contains path = false) (payload : RoutingPayload) :
    ∀ other, (routes.insert path payload).contains other = true → other ∈ path :: seen := by
  intro other known
  rw [OrderedMap.contains, OrderedMap.find_insert_absent fresh] at known
  by_cases same : path = other
  · exact same ▸ List.mem_cons_self
  · rw [if_neg same] at known
    exact List.mem_cons_of_mem _ (recorded other known)

theorem add_locations {statements : List NginxConfigStatement} {seen : List Bytes}
    {routes final : RoutingMap} (recorded : ∀ path, routes.contains path = true → path ∈ seen)
    (added : addLocations statements seen routes = .ok (some final)) (path : Bytes)
    (payload : RoutingPayload) :
    final.find? path = some payload ↔
      routes.find? path = some payload ∨
        ∃ statement ∈ statements, BecomesRoute statement path payload := by
  induction statements generalizing seen routes with
  | nil =>
      cases added
      simp
  | cons statement rest ih =>
      rw [addLocations] at added
      split at added
      · rename_i key servingPath handlerName tokens
        split_ifs at added with duplicate trailing quoted
        · cases added
        · cases added
        · cases added
        · have fresh : routes.contains servingPath = false := by
            by_contra known
            exact duplicate (recorded _ (by simpa using known))
          cases built : locationArguments (NginxConfigStatement.childBlock statement) with
          | error exception =>
              rw [built] at added
              cases added
          | ok arguments =>
              rw [built] at added
              rw [ih (recorded_insert recorded fresh _) added,
                OrderedMap.find_insert_absent fresh, List.exists_mem_cons_iff, ← or_assoc]
              apply or_congr_left
              rw [BecomesRoute, tokens, built]
              by_cases same : servingPath = path
              · subst same
                obtain ⟨handler, others⟩ := payload
                simp [OrderedMap.find_none_of_not_contains fresh]
              · simp [same]
      · rename_i other
        rw [ih recorded added, List.exists_mem_cons_iff]
        have skipped : ¬ BecomesRoute statement path payload :=
          fun becomes => by
            obtain ⟨⟨key, tokens⟩, _⟩ := becomes
            exact other _ _ _ tokens
        simp [skipped]

theorem bind_eq_ok {Error First Second : Type} {first : Except Error First}
    {next : First → Except Error Second} {result : Second} :
    first >>= next = .ok result ↔ ∃ value, first = .ok value ∧ next value = .ok result := by
  cases first with
  | error error =>
      constructor
      · intro equal
        cases equal
      · intro ⟨_, equal, _⟩
        cases equal
  | ok value =>
      constructor
      · exact fun equal => ⟨value, rfl, equal⟩
      · intro ⟨_, equal, after⟩
        cases equal
        exact after

theorem read_config_routes {config : NginxConfig} (headed : Headed config)
    {payload : ConfigPayload} (accepted : readConfig config = .ok (some payload)) :
    ∃ routes, addLocations (keyed locationKey config) [] OrderedMap.empty = .ok (some routes) ∧
      payload.routeMap = if routes.entries = [] then defaultRoutes routes else routes := by
  obtain ⟨root, unrolled, found⟩ := unroll_headed headed
  rw [readConfig, unrolled] at accepted
  obtain ⟨_, same, accepted⟩ := bind_eq_ok.mp accepted
  cases same
  split at accepted
  · cases accepted
  · obtain ⟨first, _, accepted⟩ := bind_eq_ok.mp accepted
    obtain ⟨numeral, _, accepted⟩ := bind_eq_ok.mp accepted
    obtain ⟨portNumber, _, accepted⟩ := bind_eq_ok.mp accepted
    split at accepted
    · rename_i absent
      cases accepted
      have noLocation : keyed locationKey config = [] := by
        rw [found, grouped] at absent
        by_contra some
        rw [if_neg some] at absent
        cases absent
      exact ⟨OrderedMap.empty, by rw [noLocation]; rfl, rfl⟩
    · rename_i locations stored
      rw [found] at stored
      rw [mem_grouped_none stored] at accepted
      obtain ⟨added, made, accepted⟩ := bind_eq_ok.mp accepted
      split at accepted
      · cases accepted
      · rename_i routes
        refine ⟨routes, made, ?_⟩
        split_ifs at accepted with empty
        · cases accepted
          rw [if_pos (List.isEmpty_iff.mp empty)]
        · cases accepted
          rw [if_neg (fun none => empty (List.isEmpty_iff.mpr none))]

/-! ## Serving what was accepted -/

/-- Every location that becomes a route names a registered handler and its block
has what that handler asks for. -/
def LocationsUsable (config : NginxConfig) : Prop :=
  ∀ statement ∈ config, ∀ path name,
    NginxConfigStatement.tokens statement = [locationKey, path, name] →
      Usable name (Provides (NginxConfigStatement.childBlock statement))

def Servable (payload : ConfigPayload) : Prop :=
  (∀ route ∈ payload.routeMap.entries,
    ∃ factory, registry.getFactory route.2.handler = some factory ∧
      ∃ handler, factory route.1 route.2.arguments = .ok handler) ∧
    ∀ answer request, ∃ response,
      dispatchRequest registry payload.routeMap answer request = .ok response

theorem construct_ok_iff_factory (path : Bytes) (payload : RoutingPayload) :
    (∃ factory, registry.getFactory payload.handler = some factory ∧
      ∃ handler, factory path payload.arguments = .ok handler) ↔
      ∃ handler, construct registry path payload = .ok handler := by
  rw [construct]
  cases registry.getFactory payload.handler with
  | none => simp
  | some factory => simp

theorem dispatch_of_constructible {routes : RoutingMap}
    (constructible : ∀ path payload, routes.find? path = some payload →
      ∃ handler, construct registry path payload = .ok handler)
    (answer : RequestHandler → HttpRequest → HttpResponse) (request : HttpRequest) :
    ∃ response, dispatchRequest registry routes answer request = .ok response := by
  rw [dispatchRequest]
  split
  · exact ⟨_, rfl⟩
  · rename_i best _
    split
    · exact ⟨_, rfl⟩
    · rename_i payload stored
      obtain ⟨handler, built⟩ := constructible best payload stored
      exact ⟨answer handler request, by rw [built]; rfl⟩

theorem servable_iff_constructible (payload : ConfigPayload) :
    Servable payload ↔ ∀ path route, payload.routeMap.find? path = some route →
      ∃ handler, construct registry path route = .ok handler := by
  constructor
  · intro servable path route stored
    rw [← construct_ok_iff_factory]
    exact servable.1 (path, route) ((OrderedMap.mem_entries_iff _ _ _).mpr stored)
  · intro constructible
    refine ⟨fun route member => ?_, dispatch_of_constructible constructible⟩
    rw [construct_ok_iff_factory]
    exact constructible _ _ ((OrderedMap.mem_entries_iff _ _ _).mp member)

theorem Usable.congr {name : Bytes} {provides others : Bytes → Prop}
    (same : ∀ key, provides key ↔ others key) : Usable name provides ↔ Usable name others := by
  simp only [Usable, same]

/-- The route of a location can be built exactly when the location is usable. -/
theorem construct_route_iff {statement : NginxConfigStatement} {path : Bytes}
    {payload : RoutingPayload}
    (headed : ∀ child, NginxConfigStatement.childBlock statement = some child → Headed child)
    (becomes : BecomesRoute statement path payload) :
    (∃ handler, construct registry path payload = .ok handler) ↔
      Usable payload.handler (Provides (NginxConfigStatement.childBlock statement)) := by
  obtain ⟨arguments, built, provided⟩ := location_arguments headed
  have same : arguments = payload.arguments := Except.ok.inj (built.symm.trans becomes.2)
  rw [construct_ok_iff, ← same]
  exact Usable.congr provided

theorem default_constructible {path : Bytes} {payload : RoutingPayload} {routes : RoutingMap}
    (empty : routes.entries = []) (stored : (defaultRoutes routes).find? path = some payload) :
    ∃ handler, construct registry path payload = .ok handler := by
  have none : ∀ key, routes.find? key = none := by
    intro key
    rw [OrderedMap.find?, empty]
    rfl
  rw [defaultRoutes, OrderedMap.find_insert, none, none] at stored
  split_ifs at stored
  cases stored
  rw [construct_ok_iff]
  exact Or.inl List.mem_cons_self

theorem servable_iff_usable {config : NginxConfig} (headed : Headed config)
    {payload : ConfigPayload} (accepted : readConfig config = .ok (some payload)) :
    Servable payload ↔ LocationsUsable config := by
  obtain ⟨routes, added, table⟩ := read_config_routes headed accepted
  have noneKnown : ∀ path, (OrderedMap.empty : RoutingMap).contains path = true → path ∈ [] := by
    intro path known
    cases known
  have stored := add_locations noneKnown added
  simp only [OrderedMap.find_empty, reduceCtorEq, false_or] at stored
  rw [servable_iff_constructible]
  constructor
  · intro constructible statement member path name tokens
    obtain ⟨arguments, built, _⟩ := location_arguments (headed_statement headed member).2
    have becomes : BecomesRoute statement path ⟨name, arguments⟩ := ⟨⟨_, tokens⟩, built⟩
    have inKey : statement ∈ keyed locationKey config :=
      List.mem_filter.mpr ⟨member, by simp [tokens]⟩
    have inTable := (stored path ⟨name, arguments⟩).mpr ⟨statement, inKey, becomes⟩
    have some : routes.entries ≠ [] :=
      List.ne_nil_of_mem ((OrderedMap.mem_entries_iff _ _ _).mpr inTable)
    rw [table, if_neg some] at constructible
    exact (construct_route_iff (headed_statement headed member).2 becomes).mp
      (constructible path _ inTable)
  · intro usable path route inTable
    rw [table] at inTable
    split_ifs at inTable with empty
    · exact default_constructible empty inTable
    · obtain ⟨statement, inKey, becomes⟩ := (stored path route).mp inTable
      obtain ⟨member, first⟩ := List.mem_filter.mp inKey
      obtain ⟨key, tokens⟩ := becomes.1
      have isLocation : key = locationKey := by simpa [tokens] using first
      rw [isLocation] at tokens
      exact (construct_route_iff (headed_statement headed member).2 becomes).mpr
        (usable statement member path _ tokens)

theorem headed_of_parse {text : Bytes} {config : NginxConfig}
    (parsed : parse text [] = (true, config)) : Headed config := by
  obtain ⟨_, _, _, _, _, terminals, _, derives⟩ := (parse_iff_derives text config).mp parsed
  exact ((derives_iff _ _).mp derives).2

/-- An accepted configuration can be served exactly when each of its locations
names a registered handler and gives it its argument. -/
theorem servable_iff (text : Bytes) (payload : ConfigPayload)
    (accepted : parseConfig (some text) = .ok (some payload)) :
    Servable payload ↔ LocationsUsable (parse text []).2 := by
  rw [parseConfig] at accepted
  split at accepted
  · cases accepted
  · rename_i config parsed
    rw [parsed]
    exact servable_iff_usable (headed_of_parse parsed) accepted

theorem payload_of_accepted {file : Option Bytes}
    (returned : ((parseConfig file).toOption.join.isSome) = true) :
    ∃ payload, parseConfig file = .ok (some payload) := by
  cases result : parseConfig file with
  | error exception => simp [result, Except.toOption] at returned
  | ok value =>
      cases value with
      | none => simp [result, Except.toOption] at returned
      | some payload => exact ⟨payload, rfl⟩

theorem servable_echo :
    ∃ payload, parseConfig (some "port 80; location /echo EchoHandler \x7b\x7d".toList) =
        .ok (some payload) ∧
      (Servable payload ↔
        LocationsUsable (parse "port 80; location /echo EchoHandler \x7b\x7d".toList []).2) := by
  obtain ⟨payload, accepted⟩ := @payload_of_accepted
    (some "port 80; location /echo EchoHandler \x7b\x7d".toList) (by decide +kernel)
  exact ⟨payload, accepted, servable_iff _ _ accepted⟩

/-- A static route without its `root`: accepted, and every request to it throws. -/
theorem route_without_root :
    ∃ payload, parseConfig
        (some "port 8080;\nlocation /echo StaticHandler \x7b asd ./path; \x7d".toList) =
          .ok (some payload) ∧ ¬ Servable payload := by
  let config : NginxConfig := [.plain ["port".toList, "8080".toList],
    .block ["location".toList, "/echo".toList, "StaticHandler".toList]
      [.plain ["asd".toList, "./path".toList]]]
  have delivered : tokens "port 8080;\nlocation /echo StaticHandler \x7b asd ./path; \x7d".toList =
      [⟨.normal, "port".toList⟩, ⟨.normal, "8080".toList⟩, ⟨.statementEnd, [';']⟩,
        ⟨.normal, "location".toList⟩, ⟨.normal, "/echo".toList⟩,
        ⟨.normal, "StaticHandler".toList⟩, ⟨.startBlock, ['\x7b']⟩, ⟨.normal, "asd".toList⟩,
        ⟨.normal, "./path".toList⟩, ⟨.statementEnd, [';']⟩, ⟨.endBlock, ['\x7d']⟩,
        ⟨.eof, []⟩] := by
    decide +kernel
  have parsed : parse "port 8080;\nlocation /echo StaticHandler \x7b asd ./path; \x7d".toList [] =
      (true, config) := by
    rw [parse, delivered]
    rfl
  obtain ⟨payload, accepted⟩ := @payload_of_accepted
    (some "port 8080;\nlocation /echo StaticHandler \x7b asd ./path; \x7d".toList)
    (by decide +kernel)
  refine ⟨payload, accepted, fun servable => ?_⟩
  rw [parseConfig, parsed] at accepted
  have usable := (servable_iff_usable (headed_of_parse parsed) accepted).mp servable
  rcases usable _ (List.mem_cons_of_mem _ List.mem_cons_self) _ _ rfl with known | needs | sleeps
  · exact absurd known (by decide)
  · obtain ⟨child, opened, statement, member, value, read⟩ := needs.2
    cases opened
    cases List.mem_singleton.mp member
    exact absurd (List.cons_eq_cons.mp read).1 (by decide)
  · exact absurd sleeps.1 (by decide)

end RestfulWebserver.Startup
