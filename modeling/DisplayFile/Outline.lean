import DisplayFile.Document

/-!
# Outlines

The outline of a document has an entry for each record format, and in it an entry for each field
that the format declares.
-/

namespace DisplayFile

inductive SymbolKind where
  | format
  | field
deriving DecidableEq

/-- An entry of an outline: all that belongs to it is its span, what names it its selection. -/
structure Symbol where
  name : String
  detail : Option String
  kind : SymbolKind
  span : Span
  selection : Span
  children : List Symbol

def Declaration.symbol (d : Declaration) : Symbol where
  name := .ofList d.name
  detail := d.aliasName.map .ofList
  kind := .field
  span := match d.valueSpan with
    | some value => ⟨d.nameSpan.start, value.stop⟩
    | none => d.nameSpan
  selection := d.nameSpan
  children := []

/-- The widths of the lines are those of `source`. -/
def Format.symbol (source : Source) (f : Format) : Symbol where
  name := if f.name = [] then "Record format" else .ofList f.name
  detail := some s!"{f.declarations.entries.length} alias(es)"
  kind := .format
  span := ⟨⟨f.startLine, 0⟩, ⟨f.endLine, source.width f.endLine⟩⟩
  selection := .onLine f.startLine 0 (source.width f.startLine)
  children := f.declarations.values.map Declaration.symbol

def Document.outline (d : Document) (source : Source) : List Symbol :=
  d.formats.map (Format.symbol source)

end DisplayFile
