import DisplayFile.Configuration
import DisplayFile.Editor

/-!
# Editor sessions

A session holds the open documents, by their URIs, and the configuration. The editor reports what
happens to its documents and asks about them. Whenever a document is opened or changed its
diagnostics are published; a change of configuration publishes those of all open documents again,
and closing a document takes its diagnostics back.

The analysis that answers is a parameter. `Session.step` also says what it asked of it.
-/

namespace DisplayFile

structure Analysis where
  resolve? : Document → Position → Option Resolution
  references : Document → Position → Bool → List Span
  outline : Document → Source → List Symbol
  warnings : Document → List Warning

def Analysis.standard : Analysis where
  resolve? := Document.resolve?
  references := Document.references
  outline := Document.outline
  warnings := Document.warnings

structure OpenDocument where
  source : Source
  document : Document
  version : Int
deriving DecidableEq

def OpenDocument.ofText (text : String) (version : Int) : OpenDocument :=
  let source := Source.ofText text.toList
  ⟨source, .ofSource source, version⟩

structure Session where
  documents : Table String OpenDocument
  configuration : Configuration
deriving DecidableEq

inductive Event where
  | start (options : Option Json)
  | started
  | shutdown
  | opened (uri text : String) (version : Int)
  /-- Each text replaces the whole document, so the last one stays. -/
  | changed (uri : String) (texts : List String) (version : Int)
  | closed (uri : String)
  | configured (settings : Json)
  | definition (uri : String) (point : Point)
  | references (uri : String) (point : Point) (withDeclaration : Bool)
  | outline (uri : String)

inductive Answer where
  | nothing
  | capabilities
  | location (location : Location)
  | locations (locations : List Location)
  | outline (symbols : List EditorSymbol)

/-- The diagnostics of a document, as they are sent to the editor. -/
structure Publication where
  uri : String
  diagnostics : List Diagnostic
  version : Option Int
deriving DecidableEq

inductive Question where
  | definition (position : Position)
  | references (position : Position) (withDeclaration : Bool)
  | outline (formats lines : Nat)
  | warnings (formats : Nat)
deriving DecidableEq

structure Outcome where
  session : Session
  answer : Answer
  published : List Publication
  asked : List Question

namespace Session

def initial : Session := ⟨.empty, .initial⟩

def configure (s : Session) (settings : Json) : Session :=
  { s with configuration := s.configuration.apply settings }

variable (analysis : Analysis)

/-- The current diagnostics of an open document: its warnings if they are wanted, else none. -/
def publication (s : Session) (uri : String) (d : OpenDocument) : Publication where
  uri := uri
  diagnostics :=
    if s.configuration.duplicateAliases then
      (analysis.warnings d.document).map Warning.diagnostic
    else []
  version := some d.version

def publicationQuestions (s : Session) (d : OpenDocument) : List Question :=
  if s.configuration.duplicateAliases then [.warnings d.document.formats.length] else []

def store (s : Session) (uri text : String) (version : Int) : Outcome :=
  let d := OpenDocument.ofText text version
  { session := { s with documents := s.documents.insert uri d }
    answer := .nothing
    published := [s.publication analysis uri d]
    asked := s.publicationQuestions d }

def reply (s : Session) (answer : Answer) (asked : List Question) : Outcome :=
  ⟨s, answer, [], asked⟩

def definition (s : Session) (uri : String) (p : Position) : Outcome :=
  match s.documents.get? uri with
  | none => s.reply .nothing []
  | some d =>
    let answer := match analysis.resolve? d.document p with
      | none => .nothing
      | some (.declaration span) => .location ⟨uri, span.extent⟩
      | some (.usages spans) => .locations (spans.map fun span => ⟨uri, span.extent⟩)
    s.reply answer [.definition p]

def references (s : Session) (uri : String) (p : Position) (withDeclaration : Bool) : Outcome :=
  match s.documents.get? uri with
  | none => s.reply .nothing []
  | some d =>
    let answer := match analysis.references d.document p withDeclaration with
      | [] => .nothing
      | spans => .locations (spans.map fun span => ⟨uri, span.extent⟩)
    s.reply answer [.references p withDeclaration]

def outline (s : Session) (uri : String) : Outcome :=
  match s.documents.get? uri with
  | none => s.reply .nothing []
  | some d =>
    s.reply (.outline ((analysis.outline d.document d.source).map Symbol.forEditor))
      [.outline d.document.formats.length d.source.lineCount]

def step (s : Session) : Event → Outcome
  | .start options => (options.elim s s.configure).reply .capabilities []
  | .started => s.reply .nothing []
  | .shutdown => s.reply .nothing []
  | .opened uri text version => s.store analysis uri text version
  | .changed uri texts version =>
    match texts.getLast? with
    | none => s.reply .nothing []
    | some text => s.store analysis uri text version
  | .closed uri =>
    { session := { s with documents := s.documents.erase uri }
      answer := .nothing
      published := [⟨uri, [], none⟩]
      asked := [] }
  | .configured settings =>
    let s := s.configure settings
    { session := s
      answer := .nothing
      published := s.documents.entries.map fun (uri, d) => s.publication analysis uri d
      asked := s.documents.values.flatMap s.publicationQuestions }
  | .definition uri p => s.definition analysis uri p.position
  | .references uri p withDeclaration => s.references analysis uri p.position withDeclaration
  | .outline uri => s.outline analysis uri

def after (events : List Event) : Session :=
  events.foldl (fun s event => (s.step analysis event).session) initial

end Session

def serverName : String := "dspf-lsp"

def serverVersion : String := "0.1.0"

/-- Documents are sent whole, and definitions, outlines and references are on offer. -/
def capabilitiesJson : Json :=
  .object [
    ("capabilities", .object [
      ("definitionProvider", .bool true),
      ("documentSymbolProvider", .bool true),
      ("referencesProvider", .bool true),
      ("textDocumentSync", .ofNat 1)]),
    ("serverInfo", .object [
      ("name", .string serverName),
      ("version", .string serverVersion)])]

def Answer.toJson : Answer → Json
  | nothing => .null
  | capabilities => capabilitiesJson
  | location l => l.toJson
  | locations ls => .ofList Location.toJson ls
  | outline symbols => .ofList EditorSymbol.toJson symbols

def Publication.toJson (p : Publication) : Json :=
  .object (
    [("diagnostics", .ofList Diagnostic.toJson p.diagnostics), ("uri", .string p.uri)] ++
    (p.version.map fun version => ("version", .ofInt version)).toList)

end DisplayFile
