import DisplayFile.Session

/-!
# Parameters

The parameters of a message describe an event. A record in them is an object, whose parts have
names, or an array, whose parts have places. Only the parameters of a question, and of them only the
outermost record, must have names.
-/

namespace DisplayFile

/-- The names of the parts of a record, in their order. -/
abbrev RecordShape := List String

namespace Json

/-- A part of a record. A record is an object, whose parts have names, or an array that holds every
part at its place. -/
def part? (shape : RecordShape) (name : String) : Json → Option Json
  | .array items => if items.length = shape.length then (shape.zip items).lookup name else none
  | json => json.field? name

def word32? (json : Json) : Option UInt32 :=
  json.nat?.bind fun n => if n < UInt32.size then some (.ofNat n) else none

def int32? (json : Json) : Option Int :=
  json.int?.filter fun n => Int32.minValue.toInt ≤ n && n ≤ Int32.maxValue.toInt

def point? (json : Json) : Option Point := do
  let part := (json.part? ["line", "character"] ·)
  return ⟨← (← part "line").word32?, ← (← part "character").word32?⟩

def isRange (json : Json) : Bool :=
  ["start", "end"].all fun name => ((json.part? ["start", "end"] name).bind point?).isSome

end Json

/-- Null stands for an absent value. -/
def present? : Option Json → Option Json
  | some .null => none
  | other => other

namespace Parameters

/-- The first parameter of many methods, which says what document is meant. -/
def documentPart : String := "textDocument"

def uri? (shape : RecordShape) (document : Json) : Option String :=
  (document.part? shape "uri").bind Json.string?

def version? (shape : RecordShape) (document : Json) : Option Int :=
  (document.part? shape "version").bind Json.int32?

def opened? (json : Json) : Option Event := do
  let document ← json.part? [documentPart] documentPart
  let shape := ["uri", "languageId", "version", "text"]
  let _ ← (document.part? shape "languageId").bind Json.string?
  let text ← (document.part? shape "text").bind Json.string?
  return .opened (← uri? shape document) text (← version? shape document)

/-- The new text in a change. A change may say what range it replaces, and how long that was; the
text is all the same the text of the whole document. -/
def changeText? (change : Json) : Option String := do
  let part := (change.part? ["range", "rangeLength", "text"] ·)
  let hasRange := (present? (part "range")).all Json.isRange
  let hasLength := (present? (part "rangeLength")).all (·.word32?.isSome)
  if hasRange && hasLength then (part "text").bind Json.string? else none

def changed? (json : Json) : Option Event := do
  let part := (json.part? [documentPart, "contentChanges"] ·)
  let document ← part documentPart
  let texts ← (← (part "contentChanges").bind Json.array?).mapM changeText?
  let shape := ["uri", "version"]
  return .changed (← uri? shape document) texts (← version? shape document)

def closed? (json : Json) : Option Event :=
  ((json.part? [documentPart] documentPart).bind (uri? ["uri"])).map .closed

def configured? (json : Json) : Option Event :=
  (json.part? ["settings"] "settings").map .configured

/-- The starting request says what the editor is capable of, which makes no difference. Null options
are none. -/
def start? (json : Json) : Option Event := do
  let part := (json.part? [
    "processId", "rootPath", "rootUri", "initializationOptions", "capabilities", "trace",
    "workspaceFolders", "clientInfo", "locale"] ·)
  let _ ← part "capabilities"
  return .start (present? (part "initializationOptions"))

/-- The document that a question is about. The parameters of a question always have names. -/
def document? (json : Json) : Option String :=
  (json.field? documentPart).bind (uri? ["uri"])

def definition? (json : Json) : Option Event := do
  return .definition (← document? json) (← (← json.field? "position").point?)

def references? (json : Json) : Option Event := do
  let context ← json.field? "context"
  let withDeclaration ←
    (context.part? ["includeDeclaration"] "includeDeclaration").bind Json.bool?
  return .references (← document? json) (← (← json.field? "position").point?) withDeclaration

def outline? (json : Json) : Option Event := (document? json).map .outline

end Parameters

end DisplayFile
