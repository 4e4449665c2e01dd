import DisplayFile.Json.Token

/-!
# Reading JSON

The tokens are read from left to right with a stack of the arrays and objects that are still open.
The fields of an object are put in the order of their names; of several fields with one name the
last counts.
-/

namespace DisplayFile.Json

/-- An open array or object, with what it holds so far, last first. An object also holds the name
of the field whose value is read next. -/
inductive OpenValue where
  | array (done : List Json)
  | object (done : List (String × Json)) (name : String)

inductive Expected where
  | value
  | firstItem
  | firstName
  | name (done : List (String × Json))
  | colon
  | afterItem
  | nothing (result : Json)

/-- Puts a field among fields in the order of their names, unless one of them has its name. -/
def insertField (field : String × Json) : List (String × Json) → List (String × Json)
  | [] => [field]
  | other :: rest =>
    if field.1 < other.1 then field :: other :: rest
    else if field.1 = other.1 then other :: rest
    else other :: insertField field rest

/-- The object with these fields, given last first. -/
def ofReversed (fields : List (String × Json)) : Json :=
  .object (fields.foldl (fun done field => insertField field done) [])

structure Partial where
  expected : Expected
  stack : List OpenValue

namespace Partial

def put (value : Json) : List OpenValue → Partial
  | [] => ⟨.nothing value, []⟩
  | .array done :: outer => ⟨.afterItem, .array (value :: done) :: outer⟩
  | .object done name :: outer => ⟨.afterItem, .object ((name, value) :: done) name :: outer⟩

def startValue? (token : Token) (stack : List OpenValue) : Option Partial :=
  match token with
  | .scalar value => some (put value stack)
  | .text value => some (put (.string value) stack)
  | .openArray => some ⟨.firstItem, .array [] :: stack⟩
  | .openObject => some ⟨.firstName, stack⟩
  | _ => none

def step? (s : Partial) (token : Token) : Option Partial :=
  match s.expected, token, s.stack with
  | .value, token, stack => startValue? token stack
  | .firstItem, .closeArray, .array _ :: outer => some (put (.array []) outer)
  | .firstItem, token, stack => startValue? token stack
  | .firstName, .closeObject, outer => some (put (.object []) outer)
  | .firstName, .text name, outer => some ⟨.colon, .object [] name :: outer⟩
  | .name done, .text name, outer => some ⟨.colon, .object done name :: outer⟩
  | .colon, .colon, stack => some ⟨.value, stack⟩
  | .afterItem, .comma, .array done :: outer => some ⟨.value, .array done :: outer⟩
  | .afterItem, .comma, .object done _ :: outer => some ⟨.name done, outer⟩
  | .afterItem, .closeArray, .array done :: outer => some (put (.array done.reverse) outer)
  | .afterItem, .closeObject, .object done _ :: outer => some (put (ofReversed done) outer)
  | _, _, _ => none

def result? (s : Partial) : Option Json :=
  match s.expected with
  | .nothing result => some result
  | _ => none

end Partial

/-- The value that a text is, white space around it aside. -/
def read? (text : List Char) : Option Json :=
  (tokens? text).bind fun tokens =>
    (tokens.foldlM Partial.step? ⟨.value, []⟩).bind Partial.result?

end DisplayFile.Json
