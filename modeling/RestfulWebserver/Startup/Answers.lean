import RestfulWebserver.Entity.EntityHandler
import RestfulWebserver.Http.EchoRoundTrip
import RestfulWebserver.Session.Delimiting
import RestfulWebserver.Startup.Registry
import RestfulWebserver.Static.StaticFileHandler

/-!
# What the registered handlers answer

Whatever the file system answers, a handler that does not throw sends headers
that can be read and the length of its body. The only text of the client that
gets into a header is a file name, and a path has no line end in it.
-/

namespace RestfulWebserver.Startup

open Library Library.Program Http Session

def InLine (text : Bytes) : Prop := ∀ byte ∈ text, byte ≠ '\r' ∧ byte ≠ '\n'

/-- What a handler may answer, whatever it finds in the file system. -/
inductive MayAnswer (request : HttpRequest) : RequestHandler → HttpResponse → Prop
  | echo (pathPrefix : Bytes) :
      MayAnswer request (.echo pathPrefix) (EchoHandler.handleRequest request)
  | health (pathPrefix : Bytes) :
      MayAnswer request (.health pathPrefix) (HealthHandler.handleRequest request)
  | notFound (pathPrefix : Bytes) :
      MayAnswer request (.notFound pathPrefix) (NotFoundHandler.handleRequest request)
  | staticFile {pathPrefix baseDir : Bytes} {response : HttpResponse}
      (returns : Returns
        (Static.StaticFileHandler.handleRequest pathPrefix baseDir request).run (.ok response)) :
      MayAnswer request (.staticFile pathPrefix baseDir) response
  | entity {pathPrefix baseDir : Bytes} {response : HttpResponse}
      (returns : Returns (Entity.EntityHandler.handleRequest baseDir request).run (.ok response)) :
      MayAnswer request (.entity pathPrefix baseDir) response

def rootOf : RequestHandler → Bytes
  | .staticFile _ baseDir => baseDir
  | .entity _ baseDir => baseDir
  | _ => []

/-! ## The handlers -/

theorem measured_echo (request : HttpRequest) : Measured (EchoHandler.handleRequest request) := by
  rw [EchoHandler.handleRequest]
  split_ifs
  · exact measured_text .badRequest []
  · exact measured_text _ _

theorem measured_json (body : Bytes) : Measured (Entity.jsonResponse body) where
  plain := plain_assign (plain_assign plain_empty (by decide) (by decide) (by decide)) (by decide)
    (by decide) (to_decimal_plain _)
  length := OrderedMap.find_assign_self _ _ _

theorem measured_bare (status : StatusCode) (body : Bytes) :
    Measured (Entity.bareResponse status body) where
  plain := plain_assign plain_empty (by decide) (by decide) (to_decimal_plain _)
  length := OrderedMap.find_assign_self _ _ _

theorem measured_caught (thrown : Entity.Thrown) :
    Measured (Entity.EntityHandler.caught thrown) := by
  cases thrown <;> exact measured_bare _ _

open Entity in
theorem measured_serve (baseDir : Bytes) (request : HttpRequest) :
    AllValues Measured (EntityHandler.serve baseDir request) := by
  unfold EntityHandler.serve
  rcases entityParts request.path with ⟨name, id⟩
  simp only
  split_ifs
  · exact all_values_bind fun _ => all_values_bind fun _ => all_values_pure (measured_json _)
  · exact all_values_bind fun _ => all_values_pure (measured_json _)
  · exact all_values_bind fun _ => all_values_pure (measured_json _)
  · exact all_values_throw _
  · exact all_values_bind fun _ => all_values_pure (measured_json _)
  · exact all_values_throw _
  · exact all_values_bind fun _ => all_values_pure (measured_json _)
  · exact all_values_pure (measured_bare _ _)

open Entity in
theorem measured_entity (baseDir : Bytes) (request : HttpRequest) :
    AllValues Measured (EntityHandler.handleRequest baseDir request) := by
  refine all_values_bind fun _ => all_values_lift fun response returns => ?_
  obtain ⟨outcome, ran, same⟩ := returns_bind returns
  cases outcome with
  | ok value =>
      cases same
      exact measured_serve baseDir request response ran
  | error thrown =>
      cases same
      exact measured_caught thrown

/-! ### Static files -/

theorem mime_type_plain (filePath : Bytes) : InLine (Static.StaticFileHandler.getMimeType filePath) := by
  have types : ∀ entry ∈ Static.StaticFileHandler.mimeTypes.entries, InLine entry.2 := by
    unfold InLine
    decide
  rw [Static.StaticFileHandler.getMimeType]
  split
  · rename_i mimeType found
    obtain ⟨lastDot, _, stored⟩ := Option.bind_eq_some_iff.mp found
    exact types _ ((OrderedMap.mem_entries_iff _ _ _).mpr stored)
  · unfold InLine
    decide

theorem in_line_append {first second : Bytes} (one : InLine first) (other : InLine second) :
    InLine (first ++ second) := by
  intro byte member
  rcases List.mem_append.mp member with inFirst | inSecond
  · exact one byte inFirst
  · exact other byte inSecond

theorem in_line_sublist {text part : Bytes} (sublist : part.Sublist text) (inLine : InLine text) :
    InLine part := fun byte member => inLine byte (sublist.subset member)

theorem attachment_plain {filePath : Bytes} (inLine : InLine filePath) :
    InLine (Static.StaticFileHandler.attachment filePath) := by
  have name : InLine (Static.StaticFileHandler.fileNameOf filePath) := by
    rw [Static.StaticFileHandler.fileNameOf]
    split
    · exact in_line_sublist (List.drop_sublist _ _) inLine
    · exact inLine
  exact in_line_append (in_line_append (by unfold InLine; decide) name) (by unfold InLine; decide)

theorem file_path_plain {pathPrefix baseDir path : Bytes} (root : InLine baseDir)
    (inLine : InLine path) :
    InLine (Static.StaticFileHandler.filePathOf pathPrefix baseDir path) := by
  have relative : InLine (if pathPrefix.length < path.length then path.drop pathPrefix.length
      else []) := by
    split_ifs
    · exact in_line_sublist (List.drop_sublist _ _) inLine
    · simp [InLine]
  have slash : InLine ['/'] := by unfold InLine; decide
  simp only [Static.StaticFileHandler.filePathOf]
  generalize (if pathPrefix.length < path.length then path.drop pathPrefix.length else []) =
    relativePath at relative ⊢
  split_ifs
  · exact in_line_append root (in_line_append slash relative)
  · exact in_line_append root relative

theorem measured_file {filePath : Bytes} (inLine : InLine filePath) (content : Bytes) :
    Measured ⟨.ok, Static.StaticFileHandler.fileHeaders filePath content, content⟩ := by
  have base : PlainHeaders ((OrderedMap.empty.assign "Content-Type".toList
      (Static.StaticFileHandler.getMimeType filePath)).assign "Content-Length".toList
        (toDecimal content.length)) :=
    plain_assign (plain_assign plain_empty (by decide) (by decide) (mime_type_plain filePath))
      (by decide) (by decide) (to_decimal_plain _)
  constructor
  · simp only [Static.StaticFileHandler.fileHeaders]
    split_ifs
    · exact plain_assign (plain_assign (plain_assign (plain_assign base (by decide) (by decide)
        (attachment_plain inLine)) (by decide) (by decide) (by decide)) (by decide) (by decide)
          (by decide)) (by decide) (by decide) (by decide)
    · exact plain_assign base (by decide) (by decide) (attachment_plain inLine)
    · exact base
  · simp only [Static.StaticFileHandler.fileHeaders]
    split_ifs
    · rw [OrderedMap.find_assign_other _ _ (by decide), OrderedMap.find_assign_other _ _ (by decide),
        OrderedMap.find_assign_other _ _ (by decide), OrderedMap.find_assign_other _ _ (by decide),
        OrderedMap.find_assign_self]
    · rw [OrderedMap.find_assign_other _ _ (by decide), OrderedMap.find_assign_self]
    · rw [OrderedMap.find_assign_self]

open Static in
theorem measured_static {pathPrefix baseDir : Bytes} {request : HttpRequest} (root : InLine baseDir)
    (inLine : InLine request.path) :
    AllValues Measured (StaticFileHandler.handleRequest pathPrefix baseDir request) := by
  have refused : ∀ status body, Measured (StaticFileHandler.refusal status body) := measured_text
  unfold StaticFileHandler.handleRequest
  split_ifs
  · exact all_values_pure (refused _ _)
  refine all_values_bind fun safe => ?_
  split_ifs
  · exact all_values_pure (refused _ _)
  refine all_values_bind fun known => ?_
  split_ifs
  · exact all_values_pure (refused _ _)
  refine all_values_bind fun directory => ?_
  split_ifs
  · exact all_values_pure (refused _ _)
  refine all_values_bind fun regular => ?_
  split_ifs
  · exact all_values_pure (refused _ _)
  refine all_values_bind fun _ => all_values_bind fun content => ?_
  cases content with
  | none => exact all_values_pure (refused _ _)
  | some content => exact all_values_pure (measured_file (file_path_plain root inLine) content)

theorem measured_answer {request : HttpRequest} (inLine : InLine request.path)
    {handler : RequestHandler} (root : InLine (rootOf handler)) {response : HttpResponse}
    (answers : MayAnswer request handler response) : Measured response := by
  cases answers with
  | echo pathPrefix => exact measured_echo request
  | health pathPrefix => exact measured_text _ _
  | notFound pathPrefix => exact measured_text _ _
  | staticFile returns => exact measured_static root inLine response returns
  | entity returns => exact measured_entity _ request response returns

/-! ## The answers of a server -/

/-- A route whose handler is built, with a root that can stand in a line, and
whose answers are answers of that handler. -/
def Serves (server : Server) (path : Bytes) (payload : RoutingPayload) : Prop :=
  ∃ handler, construct registry path payload = .ok handler ∧ InLine (rootOf handler) ∧
    ∀ count text, MayAnswer (parseRequest text) handler
      (server.handle count path payload (parseRequest text))

theorem path_in_line (text : Bytes) : InLine (parseRequest text).path := by
  intro byte member
  have solid := extract_word_solid _ byte member
  constructor
  · rintro rfl
    cases solid
  · rintro rfl
    cases solid

theorem answers_measured {server : Server}
    (serves : ∀ path payload, server.routes.find? path = some payload → Serves server path payload) :
    AnswersMeasured server := by
  intro count text
  rw [dispatch]
  split
  · exact measured_text _ _
  · rename_i best _
    split
    · exact measured_text _ _
    · rename_i payload stored
      obtain ⟨handler, _, root, answers⟩ := serves best payload stored
      exact measured_answer (path_in_line text) root (answers count text)

/-- Over any run of a session with these handlers the client can cut the
concatenation of the responses into the responses. -/
theorem responses_cut {server : Server} {events : List Event} {state : State}
    (serves : ∀ path payload, server.routes.find? path = some payload → Serves server path payload)
    (ran : run (step server) start events = some state) :
    cutAll (state.responses.map Response.text).flatten =
      some (state.responses.map Response.text) :=
  cut_all_run (answers_measured serves) ran

def echoPayload : RoutingPayload := ⟨"EchoHandler".toList, OrderedMap.empty⟩

def echoServer : Server where
  routes := OrderedMap.empty.assign "/".toList echoPayload
  handle := fun _ _ _ request => EchoHandler.handleRequest request

/-- Two requests in one packet: two responses, cut apart again. -/
theorem echoes_cut :
    ∃ state, run (step echoServer) start
        [.arrive 0 "GET / HTTP/1.1\r\n\r\nGET /\r HTTP/1.1\r\nA: b\r\n\r\n".toList, .readDone 0] =
          some state ∧ state.responses.length = 2 ∧
      cutAll (state.responses.map Response.text).flatten =
        some (state.responses.map Response.text) := by
  have counted : (run (step echoServer) start
      [.arrive 0 "GET / HTTP/1.1\r\n\r\nGET /\r HTTP/1.1\r\nA: b\r\n\r\n".toList,
        .readDone 0]).map (·.responses.length) = some 2 := by
    decide +kernel
  obtain ⟨state, ran, two⟩ := Option.map_eq_some_iff.mp counted
  have serves : ∀ path payload, echoServer.routes.find? path = some payload →
      Serves echoServer path payload := by
    intro path payload stored
    rw [echoServer, OrderedMap.find_assign] at stored
    split_ifs at stored
    · cases stored
      refine ⟨.echo path, ?_, by simp [InLine, rootOf], fun count text => .echo path⟩
      rw [construct, get_registered]
      rfl
    · cases stored
  exact ⟨state, ran, two, responses_cut serves ran⟩

end RestfulWebserver.Startup
