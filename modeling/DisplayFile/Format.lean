import DisplayFile.Declaration
import DisplayFile.Specification
import DisplayFile.Table
import DisplayFile.Usage

/-!
# Record formats

A record format spans the lines from its header to the line before the next header. It knows the
fields it declares, by name, and the usages in it, by the name they use. Of several declarations of
one name the last counts; those before it are shadowed.
-/

namespace DisplayFile

/-- The usages on a line. Only specifications have any. -/
def usagesIn : Row → List Usage
  | (none, _) => []
  | (some raw, number) => if isSpecification (normalize raw) then usagesOn number raw else []

/-- The declaration on a line. Only specifications have one. -/
def declarationIn? : Row → Option Declaration
  | (none, _) => none
  | (some raw, number) =>
    if isSpecification (normalize raw) then declarationOn? number raw else none

structure Format where
  name : Name
  startLine : Nat
  endLine : Nat
  declarations : Table Name Declaration
  usages : Table Name (List Usage)
  shadowed : List Declaration
deriving DecidableEq

namespace Format

def opened (name : Name) (startLine endLine : Nat) : Format :=
  ⟨name, startLine, endLine, .empty, .empty, []⟩

def containsLine (f : Format) (line : Nat) : Bool := f.startLine ≤ line && line ≤ f.endLine

def declaration? (f : Format) (name : Name) : Option Declaration := f.declarations.get? name

def usagesOf (f : Format) (name : Name) : List Usage := (f.usages.get? name).getD []

def allUsages (f : Format) : List Usage := f.usages.values.flatten

/-- The declaration takes the place of the one that had its name, which is now shadowed. -/
def declare (f : Format) (d : Declaration) : Format :=
  { f with
    declarations := f.declarations.insert d.name d
    shadowed := f.shadowed ++ (f.declaration? d.name).toList }

def addUsage (f : Format) (u : Usage) : Format :=
  { f with usages := f.usages.alter u.name fun before => before.getD [] ++ [u] }

/-- Takes in a line: its usages first, then its declaration. -/
def readRow (f : Format) (row : Row) : Format :=
  let used := (usagesIn row).foldl addUsage f
  (declarationIn? row).elim used used.declare

theorem declaration?_declare (f : Format) (d : Declaration) (name : Name) :
    (f.declare d).declaration? name = if name = d.name then some d else f.declaration? name :=
  f.declarations.get?_insert d.name name d

theorem usagesOf_addUsage (f : Format) (u : Usage) (name : Name) :
    (f.addUsage u).usagesOf name = f.usagesOf name ++ if name = u.name then [u] else [] := by
  simp only [usagesOf, addUsage, Table.get?_alter]
  split
  · next h => simp [h]
  · simp

end Format

end DisplayFile
