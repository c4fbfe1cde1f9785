import RestfulWebserver.Session.Lockstep
import RestfulWebserver.Startup.Answers
import RestfulWebserver.Static.Availability

/-!
# Files on the other side of a connection

A client that waits asks for files below the root. What is on the wire, taken apart,
are the files, byte by byte: no line end in one of them is mistaken for one of a header.
-/

namespace RestfulWebserver.Static

open Library Http Entity
open Session (Decoded Lockstep Response Server allBytes bestPrefix cutAll decodeResponse
  keptResponses setConnection)

/-- A request for a file to which directories alone lead from the root. -/
structure Download (files : FileSystem) (base : Place) (pathPrefix : Bytes) where
  request : KeepAliveRequest
  names : List FileName
  contents : Bytes
  get : request.method = "GET".toList
  asked : names ≠ []
  spelt : request.target = pathPrefix ++ spelled (names.map FileName.name) ∨
    request.target = pathPrefix ++ (spelled (names.map FileName.name)).tail
  leads : LeadsToFile files contents true base names
  small : contents.length ≤ StaticFileHandler.maxSafeSize
  noNull : '\x00' ∉ spelled (names.map FileName.name)

namespace Download

variable {files : FileSystem} {base : Place} {pathPrefix : Bytes}

def filePath (baseDir : Bytes) (download : Download files base pathPrefix) : Bytes :=
  baseDir ++ spelled (download.names.map FileName.name)

def answer (baseDir : Bytes) (download : Download files base pathPrefix) : HttpResponse :=
  fileResponse (download.filePath baseDir) download.contents

def decoded (baseDir : Bytes) (download : Download files base pathPrefix) : Decoded where
  status := 200
  headers := (setConnection (download.answer baseDir) false).headers
  body := download.contents

end Download

section Downloads

variable {files : FileSystem} {base : Place} {pathPrefix baseDir : Bytes}
  {download : Download files base pathPrefix}

theorem download_answered (resolved : files.resolve baseDir = .ok base) (notRoot : base ≠ [])
    (noNull : '\x00' ∉ baseDir) (download : Download files base pathPrefix) :
    outcome files (StaticFileHandler.handleRequest pathPrefix baseDir
      (parseRequest download.request.bytes)) = .ok (download.answer baseDir) := by
  have nowhereNull : '\x00' ∉ baseDir ++ spelled (download.names.map FileName.name) := by
    rw [List.mem_append, not_or]
    exact ⟨noNull, download.noNull⟩
  apply files_below_available files pathPrefix baseDir download.contents base download.names
    resolved notRoot download.asked download.leads download.small nowhereNull
  · rw [parse_request_bytes]
    exact download.get
  · rw [parse_request_bytes]
    exact download.spelt

theorem download_in_line (root : Startup.InLine baseDir)
    (download : Download files base pathPrefix) :
    Startup.InLine (download.filePath baseDir) := by
  have path := Startup.path_in_line download.request.bytes
  rw [parse_request_bytes] at path
  have same := @file_path_below pathPrefix baseDir _ _ download.asked download.spelt
  rw [Download.filePath, ← same]
  exact Startup.file_path_plain root path

theorem download_measured (root : Startup.InLine baseDir)
    (download : Download files base pathPrefix) :
    Session.Measured (setConnection (download.answer baseDir) false) :=
  Session.measured_set_connection
    (Startup.measured_file (download_in_line root download) download.contents) false

theorem download_decodes (root : Startup.InLine baseDir)
    (download : Download files base pathPrefix) :
    decodeResponse (setConnection (download.answer baseDir) false).toString =
      some (download.decoded baseDir) :=
  Session.decode_to_string (download_measured root download).plain

theorem kept_downloads {server : Server} {payload : Session.RoutingPayload}
    (stored : server.routes.find? pathPrefix = some payload)
    {downloads : List (Download files base pathPrefix)}
    (routed : ∀ download ∈ downloads,
      bestPrefix server.routes download.request.target = some pathPrefix)
    (answered : ∀ download ∈ downloads, ∀ count, server.handle count pathPrefix payload
      (parseRequest download.request.bytes) = download.answer baseDir) (count : Nat) :
    (keptResponses server count (allBytes (downloads.map Download.request))).map Response.text =
      downloads.map fun download =>
        (setConnection (download.answer baseDir) false).toString := by
  induction downloads generalizing count with
  | nil => rfl
  | cons download downloads ih =>
      obtain ⟨here, later⟩ := List.forall_mem_cons.mp routed
      obtain ⟨first, others⟩ := List.forall_mem_cons.mp answered
      have response : Session.dispatch server count (parseRequest download.request.bytes) =
          download.answer baseDir := by
        have found : bestPrefix server.routes (parseRequest download.request.bytes).path =
            some pathPrefix := by
          rw [parse_request_bytes]
          exact here
        simp only [Session.dispatch, found, stored, first]
      have rest := ih later others (count + 1)
      rw [allBytes, List.map_cons, List.map_cons, keptResponses, List.map_cons, List.map_cons,
        Session.keptResponse, response]
      exact congrArg _ rest

theorem decode_each {Text Value Item : Type} {decode : Text → Option Value} {items : List Item}
    {print : Item → Text} {value : Item → Value}
    (each : ∀ item, decode (print item) = some (value item)) :
    (items.map print).mapM decode = some (items.map value) := by
  induction items with
  | nil => rfl
  | cons item items ih => simp [each, ih]

end Downloads

/-- A client asks for files below the root and waits for the response to each. What is
on the wire at any moment is cut into responses that read as the first of the files, and
when nothing can go on as all of them, which is so after so many steps. -/
theorem downloads_exact (files : FileSystem) (baseDir pathPrefix : Bytes) (base : Place)
    (resolved : files.resolve baseDir = .ok base) (notRoot : base ≠ [])
    (noNull : '\x00' ∉ baseDir) (root : Startup.InLine baseDir) (server : Server)
    (payload : Session.RoutingPayload) (stored : server.routes.find? pathPrefix = some payload)
    (serves : ∀ count request response,
      outcome files (StaticFileHandler.handleRequest pathPrefix baseDir request) = .ok response →
      server.handle count pathPrefix payload request = response)
    (downloads : List (Download files base pathPrefix))
    (routed : ∀ download ∈ downloads,
      bestPrefix server.routes download.request.target = some pathPrefix)
    (small : ∀ download ∈ downloads, download.request.bytes.length ≤ Session.maxRequestSize)
    (events : List Lockstep.Event) (waiting : Lockstep)
    (ran : run (Lockstep.step server) (Lockstep.start (downloads.map Download.request)) events =
      some waiting) :
    cutAll waiting.session.wire.flatten = some waiting.session.wire ∧
      waiting.session.wire.mapM decodeResponse =
        some ((downloads.take waiting.session.wire.length).map (Download.decoded baseDir)) ∧
      events.length ≤ 2 * (allBytes (downloads.map Download.request)).flatten.length +
        3 * downloads.length ∧
      ((∀ event, Lockstep.step server waiting event = none) →
        waiting.session.wire.length = downloads.length) := by
  have smallRequests : ∀ request ∈ downloads.map Download.request,
      request.bytes.length ≤ Session.maxRequestSize := List.forall_mem_map.mpr small
  have answered : ∀ download ∈ downloads, ∀ count, server.handle count pathPrefix payload
      (parseRequest download.request.bytes) = download.answer baseDir :=
    fun download _ count =>
      serves count _ _ (download_answered resolved notRoot noNull download)
  obtain ⟨inStep, bound⟩ := Lockstep.in_step_run smallRequests ran
  have heard := Lockstep.wire_in_step inStep
  rw [Session.answersTo, kept_downloads stored routed answered 0, List.prefix_iff_eq_take,
    ← List.map_take] at heard
  rw [List.length_map] at bound
  refine ⟨?_, ?_, bound, ?_⟩
  · apply Session.cut_all_delimited
    intro text member
    rw [heard] at member
    obtain ⟨download, _, rfl⟩ := List.mem_map.mp member
    exact Session.measured_delimited (download_measured root download)
  · conv => lhs; rw [heard]
    exact decode_each (download_decodes root)
  · intro stuck
    obtain ⟨everything, _⟩ :=
      Lockstep.finished_in_step inStep (Lockstep.finished_of_stuck inStep stuck)
    rw [everything, List.length_map, Session.answers_to_length, List.length_map]

/-! ## A page -/

def pageDownload : Download pageFiles [siblingName] "/static".toList where
  request :=
    { Session.getRequest with
      target := "/static/a".toList
      targetSome := by decide
      targetToken := forall_of_all (by decide) }
  names := [pageName]
  contents := "hi".toList
  get := rfl
  asked := by decide
  spelt := Or.inl (by decide)
  leads := ⟨rfl, rfl⟩
  small := by decide
  noNull := by decide

def pagePayload : Session.RoutingPayload where
  handler := "StaticHandler".toList
  arguments := OrderedMap.empty.assign "root".toList "/www".toList

def pageServer : Server where
  routes := OrderedMap.empty.assign "/static".toList pagePayload
  handle := fun _ best _ request =>
    match outcome pageFiles (StaticFileHandler.handleRequest best "/www".toList request) with
    | .ok response => response
    | .error _ => Session.notFoundResponse

def pageTwice : List Lockstep.Event :=
  [.ask, .send 0 16, .handleRead 0, .send 0 10, .handleRead 0, .transmit 0 [], .handleWrite 0,
    .ask, .send 0 26, .handleRead 0, .transmit 0 []]

theorem downloads_exact_page :
    ∃ waiting, run (Lockstep.step pageServer)
        (Lockstep.start ([pageDownload, pageDownload].map Download.request)) pageTwice =
          some waiting ∧
      cutAll waiting.session.wire.flatten = some waiting.session.wire ∧
      waiting.session.wire.mapM decodeResponse =
        some [pageDownload.decoded "/www".toList, pageDownload.decoded "/www".toList] := by
  have counted : (run (Lockstep.step pageServer)
      (Lockstep.start ([pageDownload, pageDownload].map Download.request)) pageTwice).map
        (fun waiting => waiting.session.wire.length) = some 2 := by
    decide +kernel
  obtain ⟨waiting, ran, two⟩ := Option.map_eq_some_iff.mp counted
  have serves : ∀ count request response,
      outcome pageFiles (StaticFileHandler.handleRequest "/static".toList "/www".toList request) =
        .ok response →
      pageServer.handle count "/static".toList pagePayload request = response := by
    intro count request response answered
    simp only [pageServer, answered]
  have routed : ∀ download ∈ [pageDownload, pageDownload],
      bestPrefix pageServer.routes download.request.target = some "/static".toList := by
    simp only [List.forall_mem_cons, List.not_mem_nil, false_implies, implies_true, and_true]
    decide +kernel
  have small : ∀ download ∈ [pageDownload, pageDownload],
      download.request.bytes.length ≤ Session.maxRequestSize := by
    simp only [List.forall_mem_cons, List.not_mem_nil, false_implies, implies_true, and_true]
    decide +kernel
  obtain ⟨cut, decoded, _⟩ := downloads_exact pageFiles "/www".toList "/static".toList
    [siblingName] (by decide +kernel) (by decide) (by decide) (by unfold Startup.InLine; decide)
    pageServer pagePayload rfl serves [pageDownload, pageDownload] routed small pageTwice waiting
    ran
  rw [two] at decoded
  exact ⟨waiting, ran, cut, decoded⟩

end RestfulWebserver.Static
