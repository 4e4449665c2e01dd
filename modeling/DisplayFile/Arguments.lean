/-!
# Arguments

The program takes a command and its values. Without a command it serves an editor. An option starts
with a hyphen and is not a hyphen alone; after two hyphens everything is a value. Help may be asked
for anywhere, the version only before a command.

A value is checked when the next value arrives, when help is asked for, or at the end. So a value
that comes too early to be checked loses to an unknown option or to a value too many.
-/

namespace DisplayFile

inductive Command where
  | serve
  | definition (file : String) (line column : Nat)
  | index (file : String)
deriving DecidableEq

inductive CommandName where
  | serve
  | definition
  | index
  | help
deriving DecidableEq

inductive ArgumentError where
  | helpWanted (about : Option CommandName)
  | versionWanted
  | unknownCommand
  | unknownArgument
  | missingValue
  | badNumber
  | emptyFile
  | valueForFlag
deriving DecidableEq

def CommandName.ofWord? : String → Option CommandName
  | "serve" => some .serve
  | "definition" => some .definition
  | "index" => some .index
  | "help" => some .help
  | _ => none

inductive Slot where
  | file
  | number
deriving DecidableEq

inductive Value where
  | file (path : String)
  | number (n : Nat)
deriving DecidableEq

/-- The number that decimal digits write, after a plus sign or none, if it fits into 64 bits. -/
def readNumber? (text : String) : Option Nat :=
  let digits := match text.toList with
    | '+' :: rest => rest
    | all => all
  if digits.isEmpty || !digits.all Char.isDigit then none
  else
    let n := digits.foldl (fun n c => 10 * n + (c.toNat - '0'.toNat)) 0
    if n < UInt64.size then some n else none

def Slot.read : Slot → String → Except ArgumentError Value
  | .file, text => if text.isEmpty then .error .emptyFile else .ok (.file text)
  | .number, text => match readNumber? text with
    | some n => .ok (.number n)
    | none => .error .badNumber

/-- What one argument is, if it is not under the protection of two hyphens. -/
inductive Word where
  | escape
  | help
  | version
  | flagWithValue
  | otherOption
  | plain
deriving DecidableEq

/-- Of several short options in one argument the first decides. -/
def Word.ofArgument (argument : String) : Word :=
  match argument.toList with
  | ['-', '-'] => .escape
  | '-' :: '-' :: name =>
    if name = "help".toList then .help
    else if name = "version".toList then .version
    else if "help=".toList.isPrefixOf name || "version=".toList.isPrefixOf name then .flagWithValue
    else .otherOption
  | ['-'] => .plain
  | '-' :: 'h' :: _ => .help
  | '-' :: 'V' :: _ => .version
  | '-' :: _ => .otherOption
  | _ => .plain

/-- The values of a command while its arguments are read: those checked, last first, the one still
to be checked, and the slots that are still free. -/
structure Reading where
  done : List Value
  pending : Option (Slot × String)
  free : List Slot

namespace Reading

/-- Checks the value that waits for it. -/
def check (r : Reading) : Except ArgumentError Reading :=
  match r.pending with
  | none => .ok r
  | some (slot, text) => (slot.read text).map fun value => ⟨value :: r.done, none, r.free⟩

def addValue (r : Reading) (text : String) : Except ArgumentError Reading :=
  match r.free with
  | [] => .error .unknownArgument
  | slot :: free => r.check.map fun r => { r with pending := some (slot, text), free := free }

def finish (r : Reading) : Except ArgumentError (List Value) :=
  r.check.bind fun r => if r.free.isEmpty then .ok r.done.reverse else .error .missingValue

end Reading

/-- Reads the arguments of a command; `escaped` says that two hyphens have been seen. -/
def readValues (name : CommandName) (escaped : Bool) (r : Reading) :
    List String → Except ArgumentError (List Value)
  | [] => r.finish
  | argument :: rest =>
    let asValue := (r.addValue argument).bind fun r => readValues name escaped r rest
    if escaped then asValue
    else match Word.ofArgument argument with
      | .escape => readValues name true r rest
      | .help => r.check.bind fun _ => .error (.helpWanted (some name))
      | .flagWithValue =>
        .error (if "--help=".isPrefixOf argument then .valueForFlag else .unknownArgument)
      | .version => .error .unknownArgument
      | .otherOption => .error .unknownArgument
      | .plain => asValue

/-- Help on a command. A command has no commands of its own. -/
def readHelp : List String → ArgumentError
  | [] => .helpWanted none
  | [word] => match CommandName.ofWord? word with
    | some name => .helpWanted (some name)
    | none => .unknownCommand
  | _ => .unknownCommand

def CommandName.slots : CommandName → List Slot
  | serve => []
  | definition => [.file, .number, .number]
  | index => [.file]
  | help => []

def CommandName.command : CommandName → List Value → Except ArgumentError Command
  | .serve, [] => .ok .serve
  | .definition, [.file path, .number line, .number column] => .ok (.definition path line column)
  | .index, [.file path] => .ok (.index path)
  | _, _ => .error .missingValue

/-- Reads the arguments of the program; there may be no command in them. -/
def readArguments : List String → Except ArgumentError (Option Command)
  | [] => .ok none
  | argument :: rest =>
    match Word.ofArgument argument with
    | .help => .error (.helpWanted none)
    | .version => .error .versionWanted
    | .flagWithValue => .error .valueForFlag
    | .otherOption => .error .unknownArgument
    | .escape =>
      match rest with
      | [] => .ok none
      | word :: _ =>
        .error (if (CommandName.ofWord? word).isSome then .unknownArgument else .unknownCommand)
    | .plain =>
      match CommandName.ofWord? argument with
      | none => .error .unknownCommand
      | some .help => .error (readHelp rest)
      | some name =>
        (readValues name false ⟨[], none, name.slots⟩ rest).bind fun values =>
          (name.command values).map some

end DisplayFile
