/-!
# JSON values

The fields of an object keep their order. A number is whole if it is written without a point and an
exponent and has at most 64 bits; any other is a double.
-/

namespace DisplayFile

inductive Json where
  | null
  | bool (value : Bool)
  | whole (value : Int)
  | real (value : Float)
  | string (value : String)
  | array (items : List Json)
  | object (fields : List (String × Json))

namespace Json

def ofNat (n : Nat) : Json := .whole n

def ofInt (n : Int) : Json := .whole n

def ofChars (chars : List Char) : Json := .string (.ofList chars)

def ofOption {α : Type} (f : α → Json) (o : Option α) : Json := o.elim .null f

def ofList {α : Type} (f : α → Json) (items : List α) : Json := .array (items.map f)

/-- The last field of an object with this name. -/
def field? (name : String) : Json → Option Json
  | .object fields => fields.reverse.lookup name
  | _ => none

def bool? : Json → Option Bool
  | .bool value => some value
  | _ => none

def string? : Json → Option String
  | .string value => some value
  | _ => none

def array? : Json → Option (List Json)
  | .array items => some items
  | _ => none

def int? : Json → Option Int
  | .whole value => some value
  | _ => none

def nat? (json : Json) : Option Nat := json.int?.bind Int.toNat?

end Json

end DisplayFile
