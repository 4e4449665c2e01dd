import DisplayFile.Json.Printer
import DisplayFile.Message
import DisplayFile.Parameters

/-!
# The service

The service hands the editor's messages to a session. It is fresh until it has been started, runs
until it is shut down, and answers nothing once it has been told to exit. Only a running service
works; in any other phase requests are refused and notifications are ignored.

A method is for requests or for notifications, never for both. A request for the method of a
notification is refused, a notification for the method of a request is ignored, and either way
nothing is done.
-/

namespace DisplayFile

inductive Phase where
  | fresh
  | running
  | shutDown
  | exited
deriving DecidableEq

/-- What the service does with the messages of a method. -/
inductive Method where
  | start
  | shutdown
  | exit
  /-- Takes a request back. As every request has its reply before the next message is read, there
  is never one to take back. -/
  | cancel
  | question (read? : Json → Option Event)
  | notice (read? : Json → Option Event)
  /-- A request of the protocol that this service does not offer. -/
  | notOffered
  /-- A notification of the protocol that this service has no use for. -/
  | ignored
  | unknown

namespace Method

def notOfferedNames : List String := [
  "textDocument/willSaveWaitUntil", "textDocument/declaration", "textDocument/typeDefinition",
  "textDocument/implementation", "textDocument/prepareCallHierarchy",
  "callHierarchy/incomingCalls", "callHierarchy/outgoingCalls",
  "textDocument/prepareTypeHierarchy", "typeHierarchy/supertypes", "typeHierarchy/subtypes",
  "textDocument/documentHighlight", "textDocument/documentLink", "documentLink/resolve",
  "textDocument/hover", "textDocument/codeLens", "codeLens/resolve", "textDocument/foldingRange",
  "textDocument/selectionRange", "textDocument/semanticTokens/full",
  "textDocument/semanticTokens/full/delta", "textDocument/semanticTokens/range",
  "textDocument/inlineValue", "textDocument/inlayHint", "inlayHint/resolve",
  "textDocument/moniker", "textDocument/completion", "completionItem/resolve",
  "textDocument/diagnostic", "workspace/diagnostic", "textDocument/signatureHelp",
  "textDocument/codeAction", "codeAction/resolve", "textDocument/documentColor",
  "textDocument/colorPresentation", "textDocument/formatting", "textDocument/rangeFormatting",
  "textDocument/onTypeFormatting", "textDocument/rename", "textDocument/prepareRename",
  "textDocument/linkedEditingRange", "workspace/symbol", "workspaceSymbol/resolve",
  "workspace/willCreateFiles", "workspace/willRenameFiles", "workspace/willDeleteFiles",
  "workspace/executeCommand"]

def ignoredNames : List String := [
  "textDocument/willSave", "textDocument/didSave", "workspace/didChangeWorkspaceFolders",
  "workspace/didChangeWatchedFiles", "workspace/didCreateFiles", "workspace/didRenameFiles",
  "workspace/didDeleteFiles"]

def ofName (name : String) : Method :=
  match name with
  | "initialize" => .start
  | "shutdown" => .shutdown
  | "exit" => .exit
  | "$/cancelRequest" => .cancel
  | "initialized" => .notice fun _ => some .started
  | "textDocument/didOpen" => .notice Parameters.opened?
  | "textDocument/didChange" => .notice Parameters.changed?
  | "textDocument/didClose" => .notice Parameters.closed?
  | "workspace/didChangeConfiguration" => .notice Parameters.configured?
  | "textDocument/definition" => .question Parameters.definition?
  | "textDocument/references" => .question Parameters.references?
  | "textDocument/documentSymbol" => .question Parameters.outline?
  | name =>
    if notOfferedNames.contains name then .notOffered
    else if ignoredNames.contains name then .ignored
    else .unknown

end Method

def Message.event (m : Message) (read? : Json → Option Event) : Except Refusal Event :=
  match m.parameters with
  | none => .error .missingParameters
  | some parameters => (read? parameters).elim (.error .invalidParameters) .ok

def Message.plainEvent (m : Message) (event : Event) : Except Refusal Event :=
  m.parameters.elim (.ok event) fun json => .error (.unexpectedParameters json.compact)

/-! ### Serving messages -/

structure Service where
  phase : Phase
  session : Session

structure Response where
  service : Service
  reply : Reply
  published : List Publication

namespace Service

def initial : Service := ⟨.fresh, .initial⟩

/-- Refuses a request; a notification is ignored. -/
def refuse (s : Service) (m : Message) (reason : Refusal) : Response :=
  ⟨s, m.id.elim .silence (.refusal · reason), []⟩

def refusePhase (s : Service) (m : Message) : Response :=
  s.refuse m (if s.phase = .fresh then .notStarted else .invalidRequest)

variable (analysis : Analysis)

/-- Answers a request with what the session makes of an event. A notification is ignored. -/
def answer (s : Service) (m : Message) (event : Except Refusal Event) : Response :=
  match m.id, event with
  | none, _ => ⟨s, .silence, []⟩
  | some id, .error reason => ⟨s, .refusal id reason, []⟩
  | some id, .ok event =>
    let outcome := s.session.step analysis event
    ⟨{ s with session := outcome.session }, .result id outcome.answer, outcome.published⟩

/-- Hands the event in a notification to the session. A request is refused. -/
def notice (s : Service) (m : Message) (event : Except Refusal Event) : Response :=
  match m.id, event with
  | some id, _ => ⟨s, .refusal id .invalidRequest, []⟩
  | none, .error _ => ⟨s, .silence, []⟩
  | none, .ok event =>
    let outcome := s.session.step analysis event
    ⟨{ s with session := outcome.session }, .silence, outcome.published⟩

/-- A fresh service runs once a request to start it has been answered. -/
def start (s : Service) (m : Message) : Response :=
  let r := s.answer analysis m (m.event Parameters.start?)
  match r.reply with
  | .result .. => { r with service := { r.service with phase := .running } }
  | _ => r

def work (s : Service) (m : Message) : Method → Response
  | .shutdown => answer analysis { s with phase := .shutDown } m (m.plainEvent .shutdown)
  | .question read? => s.answer analysis m (m.event read?)
  | .notice read? => s.notice analysis m (m.event read?)
  | .notOffered => s.refuse m (if m.parameters.isSome then .notOffered else .missingParameters)
  | _ => s.refuse m .invalidRequest

def handle (s : Service) (m : Message) : Response :=
  if s.phase = .exited then ⟨s, .exited, []⟩
  else match Method.ofName m.method with
    | .exit => ⟨{ s with phase := .exited }, .silence, []⟩
    | .cancel => s.refuse m .invalidRequest
    | .unknown =>
      if m.method.startsWith "$/" then ⟨s, .silence, []⟩
      else s.refuse m (.unknownMethod m.method)
    | .start => if s.phase = .fresh then s.start analysis m else s.refuse m .invalidRequest
    | method => if s.phase = .running then s.work analysis m method else s.refusePhase m

/-- Takes in what the editor sent. Replies are passed over, since the service waits for none. -/
def receive (s : Service) : Incoming → Response
  | .message m => s.handle analysis m
  | .reply => ⟨s, .silence, []⟩
  | .malformed reason => ⟨s, .refusal .null reason, []⟩

/-- Whether the service reads nothing more after this: it does not go on past what it cannot
understand, nor past anything that comes after it was told to exit. -/
def stopsAt (s : Service) : Incoming → Bool
  | .malformed _ => true
  | _ => s.phase = .exited

end Service

end DisplayFile
