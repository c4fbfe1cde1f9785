import RestfulWebserver.Server.Exhaustion
import RestfulWebserver.Startup.Port
import RestfulWebserver.Startup.Servable

/-!
# `main`

From the command line to the exit code: the configuration is read, the server is
constructed on its port, and `init_threads` serves until the threads have ended.
What is thrown on the way, at startup or by a handler much later, ends up in the
same `catch` clauses.
-/

namespace RestfulWebserver.Server.Main

open RestfulWebserver.Library RestfulWebserver.Http RestfulWebserver.Startup
open RestfulWebserver.Session (RoutingPayload)

inductive MainException where
  | registryException (what : Bytes)
  | invalidArgument (what : Bytes)
  | configException (what : Bytes)
  | mutexMissing (what : Bytes)
  /-- Any other `std::exception`. -/
  | other
  deriving DecidableEq, Repr

/-- What leaves the dispatch of a request: the factory is empty or throws, or
`handle_request` throws. -/
inductive DispatchFailure (Error : Type) where
  | construction (exception : DispatchException)
  | handler (error : Error)

structure Environment (Error : Type) where
  /-- `std::filesystem::exists`, which may throw. -/
  pathExists : Bytes → Option Bool
  /-- The content of a file that can be opened. -/
  file : Bytes → Option Bytes
  /-- Whether the acceptor can listen on a port. -/
  canBind : Nat → Bool
  hardwareConcurrency : Nat
  /-- `handle_request` of a handler that has been built, on the session and for
  the response with the given numbers. -/
  answer : Nat → Nat → RequestHandler → HttpRequest → Except Error HttpResponse
  /-- Which exception of a handler a `catch` clause of `main` sees. -/
  seen : Error → MainException

def parseArguments (argv : List Bytes) : Option Bytes :=
  match argv with
  | [_, configFile] => some configFile
  | _ => none

section Launching

variable {Error : Type} (environment : Environment Error)

def numThreads : Nat :=
  if 0 < environment.hardwareConcurrency then environment.hardwareConcurrency else 4

def configFailure : ConfigException → MainException
  | .outOfRange => .other
  | .number .invalidArgument => .invalidArgument "stoi".toList
  | .number .outOfRange => .other

/-- `main` up to and with the construction of the server. -/
def launch (argv : List Bytes) : Except MainException ConfigPayload :=
  match parseArguments argv with
  | none => .error (.invalidArgument [])
  | some configFilePath =>
      match environment.pathExists configFilePath with
      | none => .error .other
      | some false =>
          .error (.invalidArgument "Provided config file does not exist".toList)
      | some true =>
          match parseConfig (environment.file configFilePath) with
          | .error exception => .error (configFailure exception)
          | .ok none => .error (.configException "Config parsing failed.".toList)
          | .ok (some config) =>
              if environment.canBind (endpointPort config.portNumber) then .ok config
              else .error .other

def service (config : ConfigPayload) : Service (DispatchFailure Error) where
  routes := config.routeMap
  handle := fun index count best payload request =>
    match construct registry best payload with
    | .error exception => .error (.construction exception)
    | .ok handler =>
        match environment.answer index count handler request with
        | .error error => .error (.handler error)
        | .ok response => .ok response

def runtimeFailure : Session.Escape (DispatchFailure Error) → MainException
  | .number .invalidArgument => .invalidArgument "stoul".toList
  | .number .outOfRange => .other
  | .handler (.construction _) => .other
  | .handler (.handler error) => environment.seen error

abbrev factory (config : ConfigPayload) : SessionFactory (Session.Escape (DispatchFailure Error)) :=
  (service environment config).factory

def serve (config : ConfigPayload) :
    Process.State (factory environment config) → Process.Event (factory environment config) →
      Option (Process.State (factory environment config)) :=
  Process.step (factory environment config) (numThreads environment)

inductive Ends (argv : List Bytes) : Except MainException Unit → Prop
  | refused (exception : MainException) (failed : launch environment argv = .error exception) :
      Ends argv (.error exception)
  | served (config : ConfigPayload) (launched : launch environment argv = .ok config)
      (events : List (Process.Event (factory environment config)))
      (state : Process.State (factory environment config))
      (ran : run (serve environment config) (Process.start _) events = some state)
      (result : Except (Session.Escape (DispatchFailure Error)) Unit)
      (returned : state.pool.outcome = some result) :
      Ends argv (result.mapError (runtimeFailure environment))

/-- The lines that `main` logs as errors, and its exit code. -/
def report : Except MainException Unit → List Bytes × Nat
  | .ok () => ([], 0)
  | .error (.registryException what) =>
      (["Registry failure: ".toList ++ what, "Server failed to start.".toList], 1)
  | .error (.invalidArgument what) =>
      (["Invalid argument: ".toList ++ what, "Server failed to start.".toList], 1)
  | .error (.configException what) =>
      (["Invalid configuration: ".toList ++ what, "Server failed to start.".toList], 1)
  | .error (.mutexMissing what) =>
      (["mutex invariant violated: ".toList ++ what,
        "Thread sychronization was corrupted.".toList], 1)
  -- the first line, with the text of the library, is left out
  | .error .other => (["Server shutting down due to exception.".toList], 1)

end Launching

/-! ## When `main` returns 0 -/

section Exit

variable {Error : Type} {environment : Environment Error} {argv : List Bytes}
  {config : ConfigPayload}

theorem num_threads_pos : 0 < numThreads environment := by
  unfold numThreads
  split_ifs with known
  · exact known
  · decide

theorem report_zero_iff (ended : Except MainException Unit) :
    (report ended).2 = 0 ↔ ended = .ok () := by
  cases ended with
  | ok value => exact iff_of_true rfl rfl
  | error exception => cases exception <;> simp [report]

structure Launched (environment : Environment Error) (argv : List Bytes) (config : ConfigPayload) :
    Prop where
  usage : ∃ program path text, argv = [program, path] ∧ environment.pathExists path = some true ∧
    environment.file path = some text ∧ parseConfig (some text) = .ok (some config)
  bound : environment.canBind (endpointPort config.portNumber) = true

theorem launch_of_launched (launched : Launched environment argv config) :
    launch environment argv = .ok config := by
  obtain ⟨⟨program, path, text, rfl, there, content, accepted⟩, bound⟩ := launched
  simp only [launch, parseArguments, there, content, accepted, bound, if_true]

theorem launched_of_launch (launched : launch environment argv = .ok config) :
    Launched environment argv config := by
  unfold launch at launched
  cases arguments : parseArguments argv with
  | none =>
      rw [arguments] at launched
      cases launched
  | some path =>
      rw [arguments] at launched
      simp only at launched
      split at launched
      · cases launched
      · cases launched
      · rename_i there
        split at launched
        · cases launched
        · cases launched
        · rename_i payload accepted
          split_ifs at launched with bound
          cases launched
          refine ⟨?_, bound⟩
          match argv, arguments with
          | [program, _], rfl =>
              cases content : environment.file path with
              | none =>
                  rw [content] at accepted
                  cases accepted
              | some text =>
                  rw [content] at accepted
                  exact ⟨program, path, text, rfl, there, content, accepted⟩

/-- The process ends with exit code 0 only if it was called with one argument, the
file of that name held an accepted configuration, the port was free, a signal
stopped the service, and no exception had left a handler on any connection. -/
theorem main_exits_zero {ended : Except MainException Unit} (ends : Ends environment argv ended)
    (clean : (report ended).2 = 0) :
    ∃ config, Launched environment argv config ∧
      ∃ (events : List (Process.Event (factory environment config)))
        (state : Process.State (factory environment config)),
        run (serve environment config) (Process.start _) events = some state ∧
          state.pool.outcome = some (.ok ()) ∧ Process.signalled events = true ∧
          ∀ (index : Nat) (session : Session.State),
            state.server.sessions[index]? = some (.started session) → session.escaped = 0 := by
  rw [report_zero_iff] at clean
  subst clean
  generalize finished : (Except.ok () : Except MainException Unit) = ended at ends
  cases ends with
  | refused exception failed => cases finished
  | served config launched events state ran result returned =>
      have won : result = .ok () := by
        cases result with
        | ok value => rfl
        | error escape => cases finished
      subst won
      obtain ⟨poolEvents, together⟩ := Process.together_run ran
      have silent := (Process.returned_clean_iff together returned).mp rfl
      refine ⟨config, launched_of_launch launched, events, state, ran, returned, ?_, ?_⟩
      · exact ((Process.none_escaped ran silent num_threads_pos).2 _ returned).2
      · exact (Process.escapes_zero_iff state.server).mp silent

/-! ## Packets that end the process -/

def fatalPacket (environment : Environment Error) (config : ConfigPayload) {packet : Bytes}
    {error : NumberError} (positive : 0 < packet.length)
    (bounded : packet.length ≤ Session.maxLength)
    (threw : Session.nextFrame packet = .error error) :
    Process.FatalPacket (factory environment config) (.number error) where
  arrival := .arrive 0 packet
  reading := .readDone 0
  arrived := Session.ThrowingServer.arrivedWith packet
  dead := fun _ => Session.ThrowingServer.deadAfter packet
  comes := rfl
  handled := rfl
  arrives := fun index => Session.ThrowingServer.first_arrival
    ((service environment config).sessionServer index) positive bounded
  reads := fun index => Session.ThrowingServer.first_read
    ((service environment config).sessionServer index) bounded threw
  throws := fun index => Session.ThrowingServer.first_read_throws
    ((service environment config).sessionServer index) bounded threw

/-- Whatever the configuration, as many connections as there are threads, with one
packet each whose `Content-Length` is no number, end `main` with exit code 1 and
without a signal. -/
theorem packets_end_main (launched : Launched environment argv config) {packet : Bytes}
    {error : NumberError} (positive : 0 < packet.length)
    (bounded : packet.length ≤ Session.maxLength)
    (threw : Session.nextFrame packet = .error error) :
    Ends environment argv (.error (runtimeFailure environment (.number error))) ∧
      ∃ (events : List (Process.Event (factory environment config)))
        (state : Process.State (factory environment config)),
        run (serve environment config) (Process.start _) events = some state ∧
          state.pool.outcome = some (.error (.number error)) ∧
          Process.signalled events = false ∧
          events.countP Process.isPacket = numThreads environment ∧
          ∀ event ∈ events, Process.isPacket event = true →
            ∃ index, event = .network (.session index (.arrive 0 packet)) := by
  obtain ⟨server, ran⟩ := Process.exhaustion_runs
    (fatalPacket environment config positive bounded threw) (numThreads environment)
    num_threads_pos
  constructor
  · exact .served config (launch_of_launched launched) _ _ ran _ rfl
  · refine ⟨_, _, ran, rfl, ?_, ?_, ?_⟩
    · exact Process.exhaustion_not_signalled _ _
    · exact Process.exhaustion_packets _ _
    · intro event member network
      exact Process.exhaustion_only _ _ member network

end Exit

/-! ## A machine with one core -/

def portOnly : Bytes := "port 80;".toList

def oneCore : Environment Empty where
  pathExists := fun _ => some true
  file := fun _ => some portOnly
  canBind := fun _ => true
  hardwareConcurrency := 1
  answer := fun _ _ _ _ => .ok Session.notFoundResponse
  seen := fun error => nomatch error

def commandLine : List Bytes := ["webserver".toList, "server.conf".toList]

theorem port_only_parsed : Config.parse portOnly [] = (true, [portLine]) := by
  have delivered : Config.tokens portOnly = [⟨.normal, "port".toList⟩, ⟨.normal, "80".toList⟩,
      ⟨.statementEnd, [';']⟩, ⟨.eof, []⟩] := by
    decide +kernel
  rw [Config.parse, delivered]
  rfl

def portOnlyConfig : ConfigPayload := ⟨defaultRoutes OrderedMap.empty, [], 80⟩

theorem port_only_accepted : parseConfig (some portOnly) = .ok (some portOnlyConfig) := by
  have number : stoi "80".toList = .ok 80 := by decide +kernel
  have unrolled : unrollOneLevel [portLine] OrderedMap.empty =
      .ok (OrderedMap.empty.assign portKey [portLine]) := rfl
  have noLocation : (OrderedMap.empty.assign portKey [portLine]).find? locationKey = none :=
    OrderedMap.find_assign_other _ _ (by decide)
  have numeral : vectorAt portLine.tokens 1 = .ok "80".toList := rfl
  simp only [vectorAt] at numeral
  rw [parseConfig, port_only_parsed]
  simp only [readConfig, unrolled, bind, Except.bind, OrderedMap.find_assign_self, vectorAt,
    List.getElem?_cons_zero, noLocation]
  rw [numeral]
  simp only [number, Except.mapError, portOnlyConfig]

theorem one_core_launched : Launched oneCore commandLine portOnlyConfig :=
  ⟨⟨_, _, _, rfl, rfl, rfl, port_only_accepted⟩, rfl⟩

def stoppedAfterOne : List (Process.Event (factory oneCore portOnlyConfig)) :=
  [.thread .spawn, .thread (.take 0), .handle 0 2 (.accept 0 false),
    .network (.session 0 (.arrive 0 Session.keepAliveGet)), .thread (.take 0),
    .handle 0 2 (.session 0 (.readDone 0)), .thread (.signal 0 false), .thread (.leave 0),
    .thread .join, .thread .collect]

theorem main_exits_zero_stopped : Ends oneCore commandLine (.ok ()) ∧
    ∃ config, Launched oneCore commandLine config := by
  have finished : ((run (serve oneCore portOnlyConfig) (Process.start _) stoppedAfterOne).bind
      fun state => state.pool.outcome).map Except.isOk = some true := by
    decide +kernel
  obtain ⟨result, reached, clean⟩ := Option.map_eq_some_iff.mp finished
  obtain ⟨state, ran, returned⟩ := Option.bind_eq_some_iff.mp reached
  have ends : Ends oneCore commandLine (.ok ()) := by
    cases result with
    | error escape => cases clean
    | ok value =>
        exact .served portOnlyConfig (launch_of_launched one_core_launched) _ state ran _ returned
  obtain ⟨config, launched, _⟩ := main_exits_zero ends rfl
  exact ⟨ends, config, launched⟩

def twoCores : Environment Empty := { oneCore with hardwareConcurrency := 2 }

theorem packets_end_main_word :
    Ends twoCores commandLine (.error (.invalidArgument "stoul".toList)) ∧
      ∃ events : List (Process.Event (factory twoCores portOnlyConfig)),
        events.countP Process.isPacket = 2 := by
  have launched : Launched twoCores commandLine portOnlyConfig :=
    ⟨⟨_, _, _, rfl, rfl, rfl, port_only_accepted⟩, rfl⟩
  have threw : Session.nextFrame Session.wordLengthGet = .error .invalidArgument := by
    decide +kernel
  obtain ⟨ends, events, _, _, _, _, packets, _⟩ :=
    packets_end_main launched (by decide) (by decide) threw
  exact ⟨ends, events, packets⟩

end RestfulWebserver.Server.Main
