import DisplayFile.Json.Reader
import DisplayFile.Session

/-!
# Messages

The editor and the service exchange JSON values. A message with an identifier is a request and gets
a reply; one without is a notification and gets none. What is neither a message nor a reply is
refused without an identifier.
-/

namespace DisplayFile

inductive Refusal where
  | notJson
  | notStarted
  | invalidRequest
  | unknownMethod (name : String)
  | notOffered
  | missingParameters
  | unexpectedParameters (text : String)
  | invalidParameters
deriving DecidableEq

namespace Refusal

def code : Refusal → Int
  | notJson => -32700
  | notStarted => -32002
  | invalidRequest => -32600
  | unknownMethod _ => -32601
  | notOffered => -32601
  | missingParameters => -32602
  | unexpectedParameters _ => -32602
  | invalidParameters => -32602

def message : Refusal → String
  | notJson => "Parse error"
  | notStarted => "Server not initialized"
  | invalidRequest => "Invalid request"
  | unknownMethod _ => "Method not found"
  | notOffered => "Method not found"
  | missingParameters => "Missing params field"
  | unexpectedParameters text => "Unexpected params: " ++ text
  | invalidParameters => "Invalid params"

def toJson (r : Refusal) : Json :=
  .object (
    [("code", .ofInt r.code), ("message", .string r.message)] ++
    match r with
    | unknownMethod name => [("data", .string name)]
    | _ => [])

end Refusal

/-- A request if it has an identifier, else a notification. -/
structure Message where
  method : String
  parameters : Option Json
  id : Option Json

inductive Incoming where
  | message (m : Message)
  | reply
  /-- Nothing that can be understood. -/
  | malformed (reason : Refusal)

namespace Json

def int64? (json : Json) : Option Int :=
  json.int?.filter fun n => Int64.minValue.toInt ≤ n && n ≤ Int64.maxValue.toInt

/-- An identifier is null, a text, or a whole number of 64 bits. -/
def isIdentifier : Json → Bool
  | .null => true
  | .string _ => true
  | json => json.int64?.isSome

/-- An error has a code of 64 bits and a message, and may have data. In an object it has nothing
else; in an array it has all three. -/
def isError : Json → Bool
  | .object fields =>
    fields.all (fun field => ["code", "message", "data"].contains field.1) &&
      ((fields.lookup "code").bind int64?).isSome && ((fields.lookup "message").bind string?).isSome
  | .array [code, message, _] => code.int64?.isSome && message.string?.isSome
  | _ => false

def isVersion (json : Json) : Bool := json.string? = some "2.0"

/-- A reply has an identifier and either a result or an error. -/
def isReply (json : Json) : Bool :=
  (json.field? "jsonrpc").any isVersion && (json.field? "id").any isIdentifier &&
    ((json.field? "result").isSome || (json.field? "error").any isError)

end Json

namespace Message

/-- The message with these parts. A missing method is the empty one. -/
def ofParts? (version method parameters id : Option Json) : Option Message :=
  if version.any Json.isVersion && id.all Json.isIdentifier then
    (method.elim (some "") Json.string?).map fun method => ⟨method, parameters, id⟩
  else none

/-- The message in an object, whose parts have names, or in an array, whose parts have places. -/
def ofJson? : Json → Option Message
  | .array items =>
    if items.length ≤ 4 then ofParts? items[0]? items[1]? items[2]? items[3]? else none
  | json =>
    ofParts? (json.field? "jsonrpc") (json.field? "method") (json.field? "params")
      (json.field? "id")

end Message

def Incoming.ofJson (json : Json) : Incoming :=
  if json.isReply then .reply
  else (Message.ofJson? json).elim (.malformed .invalidRequest) .message

/-- What the editor sent in these bytes, which should be the text of a JSON value. -/
def Incoming.ofBytes (bytes : List UInt8) : Incoming :=
  ((String.fromUTF8? ⟨bytes.toArray⟩).bind fun text => Json.read? text.toList).elim
    (.malformed .notJson) .ofJson

inductive Reply where
  | silence
  | result (id : Json) (answer : Answer)
  | refusal (id : Json) (reason : Refusal)
  | exited

def Reply.toJson? : Reply → Option Json
  | silence => none
  | result id answer =>
    some (.object [("jsonrpc", .string "2.0"), ("result", answer.toJson), ("id", id)])
  | refusal id reason =>
    some (.object [("jsonrpc", .string "2.0"), ("error", reason.toJson), ("id", id)])
  | exited => none

def Publication.notification (p : Publication) : Json :=
  .object [
    ("jsonrpc", .string "2.0"),
    ("method", .string "textDocument/publishDiagnostics"),
    ("params", p.toJson)]

end DisplayFile
