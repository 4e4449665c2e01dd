import DisplayFile.Clause
import DisplayFile.Continuation
import DisplayFile.Position
import DisplayFile.Text.Upper

/-!
# Declarations

A declaration names a field and gives it an alias. It is recognised on the line with its markers
blanked; the columns of the field name and of the value are then those at which their text first
stands in the line as it was given, the value after the name.
-/

namespace DisplayFile

structure Declaration where
  name : Name
  nameSpan : Span
  /-- Absent if the value does not stand in the line as it was given. -/
  valueSpan : Option Span
  /-- Absent if the value is all blanks. -/
  aliasName : Option Name
deriving DecidableEq

namespace Declaration

def contains (d : Declaration) (p : Position) : Bool :=
  d.nameSpan.contains p || d.valueSpan.any (·.contains p)

def ofClause? (line : Nat) (raw : Line) (clause : Clause) : Option Declaration :=
  (find? clause.field raw).map fun column =>
    let stop := column + clause.field.length
    let value := clause.phrase.value
    { name := capitals clause.field
      nameSpan := .onLine line column stop
      valueSpan := (find? value (raw.drop stop)).map fun k =>
        .onLine line (stop + k) (stop + k + value.length)
      aliasName :=
        if trimBlanks value = [] then none else some (capitals (trimBlanks value)) }

end Declaration

def declarationOn? (line : Nat) (raw : Line) : Option Declaration :=
  let clean := normalize raw
  if mentionsKeyword aliasKeyword clean then
    (Clause.read? clean).bind (Declaration.ofClause? line raw)
  else none

end DisplayFile
