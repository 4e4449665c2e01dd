import DisplayFile.Double
import DisplayFile.Json

/-!
# JSON tokens

A text is read character by character. The reader is between tokens, or in a word (a number or one
of the three constants), or in a string. Characters past the sixteen-bit range may be escaped as two
surrogates, which must come together.
-/

namespace DisplayFile.Json

inductive Token where
  | openArray
  | closeArray
  | openObject
  | closeObject
  | colon
  | comma
  | scalar (value : Json)
  | text (value : String)

/-- Reads a run of digits, with the value of those before it; the count is that of the digits. -/
def digits (value count : Nat) : List Char → Nat × Nat × List Char
  | [] => (value, count, [])
  | c :: rest =>
    if c.isDigit then digits (10 * value + (c.toNat - '0'.toNat)) (count + 1) rest
    else (value, count, c :: rest)

/-- Reads what may follow the digits of a number: nothing, or an exponent. -/
def exponent? : List Char → Option Int
  | [] => some 0
  | mark :: rest =>
    if mark = 'e' ∨ mark = 'E' then
      let (sign, rest) := match rest with
        | '-' :: rest => (-1, rest)
        | '+' :: rest => (1, rest)
        | rest => ((1 : Int), rest)
      match digits 0 0 rest with
      | (_, 0, _) => none
      | (value, _, []) => some (sign * value)
      | _ => none
    else none

/-- Reads a number without its sign: its digits, and the power of ten if there is a point or an
exponent. The digits before the point start with a zero only if that is all they are. -/
def unsigned? (text : List Char) : Option (Nat × Option Int) :=
  match digits 0 0 text with
  | (_, 0, _) => none
  | (front, count, rest) =>
    if text.head? = some '0' ∧ count ≠ 1 then none
    else match rest with
      | [] => some (front, none)
      | '.' :: rest =>
        match digits front 0 rest with
        | (_, 0, _) => none
        | (value, places, rest) => (exponent? rest).map fun e => (value, some (e - places))
      | rest => (exponent? rest).map fun e => (front, some e)

/-- Whether a whole number has at most 64 bits, with or without a sign. -/
def isWhole64 (n : Int) : Bool := Int64.minValue.toInt ≤ n && n < UInt64.size

/-- The number with a sign. Minus zero is a double, since no whole number is zero and negative. -/
def ofUnsigned? (negative : Bool) (digits : Nat) (exponent : Option Int) : Option Json :=
  let value : Int := if negative then -digits else digits
  if exponent.isNone && isWhole64 value && !(negative && digits == 0) then some (.whole value)
  else (Double.ofDecimal? negative digits (exponent.getD 0)).map .real

def number? : List Char → Option Json
  | '-' :: text => (unsigned? text).bind fun (digits, exponent) => ofUnsigned? true digits exponent
  | text => (unsigned? text).bind fun (digits, exponent) => ofUnsigned? false digits exponent

def word? (text : List Char) : Option Json :=
  if text = ['n', 'u', 'l', 'l'] then some .null
  else if text = ['t', 'r', 'u', 'e'] then some (.bool true)
  else if text = ['f', 'a', 'l', 's', 'e'] then some (.bool false)
  else number? text

/-- Where the reader is. Characters already read are held last first; `high` is a first surrogate
that waits for its second. -/
inductive Mode where
  | between
  | inWord (done : List Char)
  | inString (done : List Char) (high : Option Nat)
  | inEscape (done : List Char) (high : Option Nat)
  | inCode (done : List Char) (high : Option Nat) (value count : Nat)

/-- A mode and the tokens already read, last first. -/
structure Scan where
  mode : Mode
  tokens : List Token

def isWord (c : Char) : Bool := c.isAlphanum || c == '-' || c == '+' || c == '.'

def hexValue? (c : Char) : Option Nat :=
  if c.isDigit then some (c.toNat - '0'.toNat)
  else if 'a' ≤ c ∧ c ≤ 'f' then some (c.toNat - 'a'.toNat + 10)
  else if 'A' ≤ c ∧ c ≤ 'F' then some (c.toNat - 'A'.toNat + 10)
  else none

/-- The character that stands for itself or for a control character after a backslash. -/
def unescape? : Char → Option Char
  | '"' => some '"'
  | '\\' => some '\\'
  | '/' => some '/'
  | 'b' => some '\x08'
  | 'f' => some '\x0c'
  | 'n' => some '\n'
  | 'r' => some '\r'
  | 't' => some '\t'
  | _ => none

def endCode? (done : List Char) (high : Option Nat) (unit : Nat) : Option Mode :=
  let isHigh := 0xD800 ≤ unit && unit < 0xDC00
  let isLow := 0xDC00 ≤ unit && unit < 0xE000
  match high with
  | none =>
    if isHigh then some (.inString done (some unit))
    else if isLow then none
    else some (.inString (Char.ofNat unit :: done) none)
  | some first =>
    if isLow then
      let code := 0x10000 + (first - 0xD800) * 0x400 + (unit - 0xDC00)
      some (.inString (Char.ofNat code :: done) none)
    else none

def Scan.between? (tokens : List Token) (c : Char) : Option Scan :=
  match c with
  | '[' => some ⟨.between, .openArray :: tokens⟩
  | ']' => some ⟨.between, .closeArray :: tokens⟩
  | '\x7b' => some ⟨.between, .openObject :: tokens⟩
  | '\x7d' => some ⟨.between, .closeObject :: tokens⟩
  | ':' => some ⟨.between, .colon :: tokens⟩
  | ',' => some ⟨.between, .comma :: tokens⟩
  | '"' => some ⟨.inString [] none, tokens⟩
  | c =>
    if c = ' ' ∨ c = '\t' ∨ c = '\n' ∨ c = '\r' then some ⟨.between, tokens⟩
    else if isWord c then some ⟨.inWord [c], tokens⟩
    else none

def Scan.step? (s : Scan) (c : Char) : Option Scan :=
  match s.mode with
  | .between => between? s.tokens c
  | .inWord done =>
    if isWord c then some ⟨.inWord (c :: done), s.tokens⟩
    else (word? done.reverse).bind fun value => between? (.scalar value :: s.tokens) c
  | .inString done high =>
    if c = '\\' then some ⟨.inEscape done high, s.tokens⟩
    else if high.isSome then none
    else if c = '"' then some ⟨.between, .text (.ofList done.reverse) :: s.tokens⟩
    else if c.toNat < 0x20 then none
    else some ⟨.inString (c :: done) none, s.tokens⟩
  | .inEscape done high =>
    if c = 'u' then some ⟨.inCode done high 0 0, s.tokens⟩
    else if high.isSome then none
    else (unescape? c).map fun d => ⟨.inString (d :: done) none, s.tokens⟩
  | .inCode done high value count =>
    (hexValue? c).bind fun digit =>
      let unit := 16 * value + digit
      if count = 3 then (endCode? done high unit).map (⟨·, s.tokens⟩)
      else some ⟨.inCode done high unit (count + 1), s.tokens⟩

def Scan.finish? (s : Scan) : Option (List Token) :=
  match s.mode with
  | .between => some s.tokens.reverse
  | .inWord done => (word? done.reverse).map fun value => (Token.scalar value :: s.tokens).reverse
  | _ => none

def tokens? (text : List Char) : Option (List Token) :=
  (text.foldlM Scan.step? ⟨.between, []⟩).bind Scan.finish?

end DisplayFile.Json
