/-!
# Doubles

A number is read from decimal digits and written in decimal digits. Reading rounds the digits that
fit in 64 bits to a double and then multiplies or divides it by a power of ten. Writing takes the
fewest digits that stand for no other double, and of those the nearest to the exact value.
-/

namespace DisplayFile.Double

/-! ### Reading -/

/-- The digits that fit in 64 bits, and the power of ten of the last of them. -/
def leading (digits : Nat) (exponent : Int) : Nat × Int :=
  if digits < UInt64.size then (digits, exponent) else leading (digits / 10) (exponent + 1)
termination_by digits
decreasing_by
  have : 0 < UInt64.size := by decide
  omega

/-- The double nearest to ten to the power `n`; it is infinite from the power 309 on. -/
def tenTo (n : Nat) : Float := .ofScientific 1 false (min n 309)

/-- Multiplies by a power of ten. Below 308 a division does not suffice, and a second follows. -/
def scale (x : Float) (exponent : Int) : Float :=
  if 0 ≤ exponent then x * tenTo exponent.toNat
  else if -308 ≤ exponent then x / tenTo (-exponent).toNat
  else x / tenTo 308 / tenTo (-exponent - 308).toNat

/-- The double for a number of these digits, the last of which counts as ten to the exponent. There
is none for a number that is too large. -/
def ofDecimal? (negative : Bool) (digits : Nat) (exponent : Int) : Option Float :=
  let (digits, exponent) := leading digits exponent
  let size := if digits = 0 then 0 else scale digits.toFloat exponent
  if size.isInf then none else some (if negative then -size else size)

/-! ### Writing -/

/-- The size of a finite double: `mantissa` times two to the `exponent`. -/
structure Binary where
  mantissa : Nat
  exponent : Int
  /-- The next smaller double is half as far away as the next larger. -/
  isLowest : Bool

def Binary.ofFloat (x : Float) : Binary :=
  let bits := x.abs.toBits.toNat
  let field := bits / 0x10000000000000
  let fraction := bits % 0x10000000000000
  if field = 0 then ⟨fraction, -1074, false⟩
  else ⟨0x10000000000000 + fraction, field - 1075, fraction == 0 && field > 1⟩

/-- The multiple of ten to the power `unit` that is nearest to a positive size, if any multiple
stands for it. All that is nearer to it than to another double stands for it, and so does what is
halfway, if the mantissa is even. A tie goes to the even multiple. -/
def Binary.multiple? (x : Binary) (unit : Int) : Option Nat :=
  let tens := Nat.pow 10 unit.toNat * Nat.pow 2 (2 - x.exponent).toNat
  let twos := Nat.pow 2 (x.exponent - 2).toNat * Nat.pow 10 (-unit).toNat
  let size := 4 * x.mantissa * twos
  let low := size - (if x.isLowest then 1 else 2) * twos
  let high := size + 2 * twos
  let standsFor (n : Nat) : Bool :=
    if x.mantissa % 2 = 0 then low ≤ n * tens && n * tens ≤ high
    else low < n * tens && n * tens < high
  let below := size / tens
  let fromBelow := size - below * tens
  let fromAbove := (below + 1) * tens - size
  let aboveIsNearer := fromAbove < fromBelow || fromAbove == fromBelow && below % 2 == 1
  match standsFor below, standsFor (below + 1) with
  | true, true => some (if aboveIsNearer then below + 1 else below)
  | true, false => some below
  | false, true => some (below + 1)
  | false, false => none

/-- The fewest digits that stand for a positive size, and the power of ten of the last of them. No
double needs a unit below ten to the power -324. -/
def Binary.shortest? (x : Binary) : Option (Nat × Int) :=
  ((List.range 633).map fun (k : Nat) => (308 : Int) - k).findSome? fun unit =>
    (x.multiple? unit).map (·, unit)

/-- Digits written out, with a digit on either side of the point, if the point is at most sixteen
places after their start and less than five before it. Otherwise the point stands after the first
digit, and an exponent with its sign follows. -/
def layout (digits : Nat) (exponent : Int) : String :=
  let shown := Nat.toDigits 10 digits
  let point := shown.length + exponent
  if point ≤ -5 ∨ 16 < point then
    let fraction := shown.drop 1
    let mark := if fraction = [] then [] else ['.']
    let sign := if point ≤ 0 then "" else "+"
    String.ofList (shown.take 1 ++ mark ++ fraction) ++ "e" ++ sign ++ toString (point - 1)
  else if point ≤ 0 then "0." ++ "".pushn '0' (-point).toNat ++ String.ofList shown
  else if 0 ≤ exponent then String.ofList shown ++ "".pushn '0' exponent.toNat ++ ".0"
  else String.ofList (shown.take point.toNat) ++ "." ++ String.ofList (shown.drop point.toNat)

def text (x : Float) : String :=
  let size := Binary.ofFloat x
  let written := if size.mantissa = 0 then "0.0"
    else (size.shortest?.map fun (digits, exponent) => layout digits exponent).getD "0.0"
  if x.toBits.toNat < 0x8000000000000000 then written else "-" ++ written

end DisplayFile.Double
