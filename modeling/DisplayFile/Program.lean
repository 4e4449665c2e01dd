import DisplayFile.Arguments
import DisplayFile.Frame
import DisplayFile.Query

/-!
# The program

What the program does follows from its arguments alone: it is done at once, or it needs one file, or
it serves the editor on its standard streams. It ends with 0, with 1 if a query fails, and with 2 if
the arguments are wrong.
-/

namespace DisplayFile

structure Finish where
  exit : Nat
  stdout : String
  stderr : String
deriving DecidableEq

inductive Plan where
  | finish (result : Finish)
  | query (path : String) (answer : File → Except QueryError String)
  | serve

def versionText : String := s!"{serverName} {serverVersion}\n"

def mainHelp : String :=
  "Alias navigation for DDS display files\n\n" ++
  "Usage: dspf-lsp [COMMAND]\n\n" ++
  "Commands:\n" ++
  "  serve       Run the language server on stdin/stdout (the default)\n" ++
  "  definition  Resolve the alias at a zero-based LINE and COLUMN\n" ++
  "  index       Print the record formats with their declarations and usages\n" ++
  "  help        Print this message or the help of the given subcommand(s)\n\n" ++
  "Options:\n" ++
  "  -h, --help     Print help\n" ++
  "  -V, --version  Print version\n"

def helpText : Option CommandName → String
  | some .serve =>
    "Run the language server on stdin/stdout (the default)\n\n" ++
    "Usage: dspf-lsp serve\n\nOptions:\n  -h, --help  Print help\n"
  | some .definition =>
    "Resolve the alias at a zero-based LINE and COLUMN\n\n" ++
    "Usage: dspf-lsp definition <FILE> <LINE> <COLUMN>\n\n" ++
    "Arguments:\n  <FILE>    \n  <LINE>    \n  <COLUMN>  \n\nOptions:\n  -h, --help  Print help\n"
  | some .index =>
    "Print the record formats with their declarations and usages\n\n" ++
    "Usage: dspf-lsp index <FILE>\n\n" ++
    "Arguments:\n  <FILE>  \n\nOptions:\n  -h, --help  Print help\n"
  | some .help => "Print this message or the help of the given subcommand(s)\n\n" ++
    "Usage: dspf-lsp help [COMMAND]...\n\n" ++
    "Arguments:\n  [COMMAND]...  Print help for the subcommand(s)\n"
  | none => mainHelp

namespace ArgumentError

def message : ArgumentError → String
  | helpWanted about => helpText about
  | versionWanted => versionText
  | unknownCommand => "error: unrecognized subcommand\n"
  | unknownArgument => "error: unexpected argument found\n"
  | missingValue => "error: the following required arguments were not provided\n"
  | badNumber => "error: invalid value for a number\n"
  | emptyFile => "error: a value is required for '<FILE>' but none was supplied\n"
  | valueForFlag => "error: unexpected value for an option that takes none\n"

/-- Help and version are wanted output; anything else is a mistake. -/
def finish (e : ArgumentError) : Finish :=
  match e with
  | helpWanted _ => ⟨0, e.message, ""⟩
  | versionWanted => ⟨0, e.message, ""⟩
  | _ => ⟨2, "", e.message⟩

end ArgumentError

def Plan.ofArguments (arguments : List String) : Plan :=
  match readArguments arguments with
  | .error e => .finish e.finish
  | .ok none => .serve
  | .ok (some .serve) => .serve
  | .ok (some (.definition path line column)) => .query path (·.definitionText ⟨line, column⟩)
  | .ok (some (.index path)) => .query path File.indexText

def Finish.ofQuery : Except QueryError String → Finish
  | .ok text => ⟨0, text ++ "\n", ""⟩
  | .error e => ⟨1, "", s!"Error: {e.message}\n"⟩

/-- Runs the program with the files that `contents` knows and all of its standard input. -/
def runProgram (contents : String → Except ReadFailure ByteArray) (input : List UInt8)
    (arguments : List String) : Finish :=
  match Plan.ofArguments arguments with
  | .finish result => result
  | .query path answer => .ofQuery (answer ⟨path, contents path⟩)
  | .serve => ⟨0, Service.initial.conversation .standard (frames input), ""⟩

end DisplayFile
