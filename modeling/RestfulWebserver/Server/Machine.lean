import RestfulWebserver.Session.Throwing

/-!
# The server and its sessions

`server::start_accept` and `server::handle_accept`, together with the sessions
that `session_factory_` has made. Boost.Asio completes each `async_accept` once,
with a connection or with an error, and in between the sessions that have been
started take their own steps.
-/

namespace RestfulWebserver.Server

open RestfulWebserver.Library RestfulWebserver.Http

/-- What the factory makes sessions of. The server calls nothing of a session but
`start`; its threads run the handlers of all sessions, and see what they throw. -/
structure SessionFactory (Error : Type) where
  State : Type
  Event : Type
  start : State
  /-- A step of the session with a given number. -/
  step : Nat → State → Event → Option State
  thrownIn : Nat → State → Event → Option Error
  /-- How often an exception has left a handler. -/
  escaped : State → Nat
  /-- An event that calls no handler. -/
  isNetwork : Event → Bool
  escaped_start : escaped start = 0
  escaped_step : ∀ {index state event next}, step index state event = some next →
    escaped next = escaped state + (thrownIn index state event).toList.length
  network_silent : ∀ {index state event}, isNetwork event = true →
    thrownIn index state event = none

inductive Slot (Session : Type) where
  /-- Made by the factory, and waiting for a connection. -/
  | pending
  | started (state : Session)
  /-- `delete new_session` -/
  | discarded

structure State (Session : Type) where
  /-- The sessions in the order in which the factory made them. -/
  sessions : List (Slot Session)
  /-- The outstanding `async_accept` calls, each by its session. -/
  accepts : List Nat

def startAccept {Session : Type} (state : State Session) : State Session where
  sessions := state.sessions ++ [.pending]
  accepts := state.accepts ++ [state.sessions.length]

def constructed {Session : Type} : State Session := startAccept ⟨[], []⟩

section Steps

variable {Error : Type} (factory : SessionFactory Error)

def handleAccept (state : State factory.State) (newSession : Nat) (error : Bool) :
    State factory.State :=
  if error then
    startAccept { state with sessions := state.sessions.set newSession .discarded }
  else
    startAccept { state with sessions := state.sessions.set newSession (.started factory.start) }

inductive Event where
  /-- `handle_accept` runs for an accept that has completed. -/
  | accept (newSession : Nat) (error : Bool)
  /-- A started session takes a step. -/
  | session (index : Nat) (event : factory.Event)

/-- One step of the server. `handle_accept` on a session that is not pending
has no defined behaviour, so runs would end there. -/
def step (state : State factory.State) : Event factory → Option (State factory.State)
  | .accept newSession error =>
      if newSession ∈ state.accepts ∧ state.sessions[newSession]? matches some .pending then
        some (handleAccept factory { state with accepts := state.accepts.erase newSession }
          newSession error)
      else none
  | .session index event =>
      match state.sessions[index]? with
      | some (.started before) =>
          (factory.step index before event).map fun after =>
            { state with sessions := state.sessions.set index (.started after) }
      | _ => none

end Steps

/-! ## The sessions of this server -/

/-- The routes that every session gets a copy of, and what the handlers answer
or throw on the session with a given number. -/
structure Service (Error : Type) where
  routes : Session.RoutingMap
  handle : Nat → Nat → Bytes → Session.RoutingPayload → HttpRequest → Except Error HttpResponse

/-- What `session_factory_(io_service_, routes_)` gives the session to work with. -/
def Service.sessionServer {Error : Type} (service : Service Error) (index : Nat) :
    Session.ThrowingServer Error where
  routes := service.routes
  handle := service.handle index

def networkEvent : Session.Event → Bool
  | .arrive _ _ => true
  | .transmit _ _ => true
  | _ => false

def Service.factory {Error : Type} (service : Service Error) :
    SessionFactory (Session.Escape Error) where
  State := Session.State
  Event := Session.Event
  start := Session.start
  step := fun index => (service.sessionServer index).step
  thrownIn := fun index => (service.sessionServer index).thrownIn
  escaped := Session.State.escaped
  isNetwork := networkEvent
  escaped_start := rfl
  escaped_step := Session.ThrowingServer.step_escaped
  network_silent := by
    intro index state event network
    cases event with
    | arrive | transmit => rfl
    | _ => cases network

end RestfulWebserver.Server
