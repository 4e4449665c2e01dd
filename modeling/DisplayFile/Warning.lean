import DisplayFile.Document

/-!
# Warnings

A declaration that a later one of the same name shadows is worth a warning.
-/

namespace DisplayFile

structure Warning where
  span : Span
  message : String
deriving DecidableEq

/-- The warning for a shadowed declaration; lines are counted from one in its message. -/
def Format.warning (f : Format) (shadowed winner : Declaration) : Warning where
  span := shadowed.nameSpan
  message :=
    s!"'{String.ofList shadowed.name}' is declared again in format '{String.ofList f.name}' " ++
      s!"on line {winner.nameSpan.start.line + 1}; this declaration is ignored"

def Format.warnings (f : Format) : List Warning :=
  f.shadowed.filterMap fun d => (f.declaration? d.name).map (f.warning d)

def Document.warnings (d : Document) : List Warning := d.formats.flatMap Format.warnings

end DisplayFile
