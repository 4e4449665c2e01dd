import DisplayFile.Json.Printer
import DisplayFile.Report

/-!
# Queries on files

A query is answered with a report on a file, printed as JSON. It fails if the file cannot be read or
is not UTF-8, or else if the line asked about is not in it.
-/

namespace DisplayFile

inductive ReadFailure where
  /-- The operating system refuses, with an error code. -/
  | refused (description : String) (code : Nat)
  /-- No file can have this name. -/
  | nulInName
  | notUtf8
deriving DecidableEq

namespace ReadFailure

def missing : ReadFailure := .refused "No such file or directory" 2

def notDirectory : ReadFailure := .refused "Not a directory" 20

def directory : ReadFailure := .refused "Is a directory" 21

def nameTooLong : ReadFailure := .refused "File name too long" 36

def message : ReadFailure → String
  | refused description code => s!"{description} (os error {code})"
  | nulInName => "file name contained an unexpected NUL byte"
  | notUtf8 => "stream did not contain valid UTF-8"

end ReadFailure

inductive QueryError where
  | unreadable (path : String) (failure : ReadFailure)
  | outsideDocument (line lineCount : Nat)
deriving DecidableEq

def QueryError.message : QueryError → String
  | unreadable path failure => s!"failed to read {path}: {failure.message}"
  | outsideDocument line lineCount => s!"line {line} is outside the document ({lineCount} lines)"

structure File where
  path : String
  contents : Except ReadFailure ByteArray

namespace File

/-- The file at a path that can be read and holds a text. -/
def holding (path text : String) : File := ⟨path, .ok text.toUTF8⟩

def text (file : File) : Except QueryError String :=
  match file.contents with
  | .error failure => .error (.unreadable file.path failure)
  | .ok bytes =>
    match String.fromUTF8? bytes with
    | none => .error (.unreadable file.path .notUtf8)
    | some text => .ok text

def source (file : File) : Except QueryError Source :=
  file.text.map fun text => .ofText text.toList

@[simp]
theorem source_holding (path text : String) :
    (holding path text).source = .ok (.ofText text.toList) := by
  have hdecoded : String.fromUTF8? text.toUTF8 = some text := dif_pos text.isValidUTF8
  have htext : (holding path text).text = .ok text := by
    simp only [File.text, holding, hdecoded]
  rw [source, htext]
  rfl

def definition (file : File) (p : Position) : Except QueryError DefinitionReport :=
  file.source.bind fun source =>
    if p.line < source.lineCount then .ok ((Document.ofSource source).definitionReport p)
    else .error (.outsideDocument p.line source.lineCount)

def index (file : File) : Except QueryError (List FormatReport) :=
  file.source.map fun source => (Document.ofSource source).report

def definitionText (file : File) (p : Position) : Except QueryError String :=
  (file.definition p).map fun report => report.toJson.pretty

def indexText (file : File) : Except QueryError String :=
  file.index.map fun reports => (Json.ofList FormatReport.toJson reports).pretty

end File

end DisplayFile
