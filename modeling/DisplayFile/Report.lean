import DisplayFile.Json
import DisplayFile.Navigation

/-!
# Reports

A definition report says where a position leads. A format report lists the declarations of a format,
each with the usages that refer to it, and the usages that refer to none.
-/

namespace DisplayFile

structure DefinitionReport where
  position : Position
  resolution : Option Resolution
deriving DecidableEq

structure DeclarationReport where
  name : Name
  aliasName : Option Name
  span : Span
  usages : List Span
deriving DecidableEq

structure UsageReport where
  name : Name
  span : Span
deriving DecidableEq

structure FormatReport where
  name : Name
  startLine : Nat
  endLine : Nat
  declarations : List DeclarationReport
  unresolved : List UsageReport
deriving DecidableEq

def Format.report (f : Format) : FormatReport where
  name := f.name
  startLine := f.startLine
  endLine := f.endLine
  declarations := f.declarations.values.map fun d =>
    ⟨d.name, d.aliasName, d.nameSpan, (f.usagesFor d).map Usage.target⟩
  unresolved := (f.allUsages.filter fun u => (f.declarationFor? u.name).isNone).map fun u =>
    ⟨u.name, u.target⟩

def Document.report (d : Document) : List FormatReport := d.formats.map Format.report

def Document.definitionReport (d : Document) (p : Position) : DefinitionReport := ⟨p, d.resolve? p⟩

def Position.toJson (p : Position) : Json :=
  .object [("line", .ofNat p.line), ("column", .ofNat p.column)]

def Span.toJson (s : Span) : Json := .object [("start", s.start.toJson), ("end", s.stop.toJson)]

def Resolution.kind : Resolution → String
  | declaration _ => "declaration"
  | usages _ => "usages"

def DefinitionReport.toJson (r : DefinitionReport) : Json :=
  .object [
    ("position", r.position.toJson),
    ("kind", .ofOption (fun resolution => .string resolution.kind) r.resolution),
    ("targets", .ofList Span.toJson ((r.resolution.map Resolution.spans).getD []))]

def DeclarationReport.toJson (r : DeclarationReport) : Json :=
  .object [
    ("name", .ofChars r.name),
    ("alias", .ofOption .ofChars r.aliasName),
    ("range", r.span.toJson),
    ("usages", .ofList Span.toJson r.usages)]

def UsageReport.toJson (r : UsageReport) : Json :=
  .object [("name", .ofChars r.name), ("range", r.span.toJson)]

def FormatReport.toJson (r : FormatReport) : Json :=
  .object [
    ("name", .ofChars r.name),
    ("start_line", .ofNat r.startLine),
    ("end_line", .ofNat r.endLine),
    ("declarations", .ofList DeclarationReport.toJson r.declarations),
    ("unresolved", .ofList UsageReport.toJson r.unresolved)]

end DisplayFile
