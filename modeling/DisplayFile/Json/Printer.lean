import DisplayFile.Double
import DisplayFile.Json

/-!
# Printing JSON

`compact` leaves no white space. `pretty` puts each item and each field on a line of its own,
indented by two blanks for each level; an empty array or object stays on its line. In a text the
quote, the backslash and the characters below the blank are escaped, and no others.
-/

namespace DisplayFile.Json

def hexDigit (n : Nat) : Char := "0123456789abcdef".toList.getD n '0'

def escape (c : Char) : List Char :=
  match c with
  | '"' => ['\\', '"']
  | '\\' => ['\\', '\\']
  | '\x08' => ['\\', 'b']
  | '\t' => ['\\', 't']
  | '\n' => ['\\', 'n']
  | '\x0c' => ['\\', 'f']
  | '\r' => ['\\', 'r']
  | c =>
    if c.toNat < 0x20 then
      ['\\', 'u', '0', '0', hexDigit (c.toNat / 16), hexDigit (c.toNat % 16)]
    else [c]

def quoted (text : String) : String :=
  "\"" ++ String.ofList (text.toList.flatMap escape) ++ "\""

mutual

def compact : Json → String
  | .null => "null"
  | .bool value => if value then "true" else "false"
  | .whole value => toString value
  | .real value => Double.text value
  | .string value => quoted value
  | .array items => "[" ++ ",".intercalate (compactItems items) ++ "]"
  | .object fields => "\x7b" ++ ",".intercalate (compactFields fields) ++ "\x7d"

def compactItems : List Json → List String
  | [] => []
  | item :: rest => compact item :: compactItems rest

def compactFields : List (String × Json) → List String
  | [] => []
  | (name, value) :: rest => (quoted name ++ ":" ++ compact value) :: compactFields rest

end

/-- Encloses lines, each on a line of its own, in brackets at `depth`. -/
def enclosed (opening closing : String) (depth : Nat) (lines : List String) : String :=
  match lines with
  | [] => opening ++ closing
  | _ =>
    let margin := "".pushn ' ' (2 * depth)
    let inner := margin ++ "  "
    opening ++ "\n" ++ inner ++ (",\n" ++ inner).intercalate lines ++ "\n" ++ margin ++ closing

mutual

def prettyAt (depth : Nat) : Json → String
  | .null => "null"
  | .bool value => if value then "true" else "false"
  | .whole value => toString value
  | .real value => Double.text value
  | .string value => quoted value
  | .array items => enclosed "[" "]" depth (prettyItems (depth + 1) items)
  | .object fields => enclosed "\x7b" "\x7d" depth (prettyFields (depth + 1) fields)

def prettyItems (depth : Nat) : List Json → List String
  | [] => []
  | item :: rest => prettyAt depth item :: prettyItems depth rest

def prettyFields (depth : Nat) : List (String × Json) → List String
  | [] => []
  | (name, value) :: rest =>
    (quoted name ++ ": " ++ prettyAt depth value) :: prettyFields depth rest

end

def pretty (json : Json) : String := prettyAt 0 json

end DisplayFile.Json
