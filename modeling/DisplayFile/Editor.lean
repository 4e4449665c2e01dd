import DisplayFile.Json
import DisplayFile.Navigation
import DisplayFile.Outline
import DisplayFile.Warning

/-!
# Values as the editor sees them

The editor counts lines and characters in words of 32 bits. A coordinate that does not fit is cut
down to its low bits. The fields of every JSON object are in alphabetical order, and a field without
a value is left out.
-/

namespace DisplayFile

structure Point where
  line : UInt32
  character : UInt32
deriving DecidableEq

structure Extent where
  start : Point
  stop : Point
deriving DecidableEq

structure Location where
  uri : String
  extent : Extent
deriving DecidableEq

structure Diagnostic where
  extent : Extent
  message : String
deriving DecidableEq

/-- An outline entry with its coordinates in words. -/
structure EditorSymbol where
  name : String
  detail : Option String
  kind : SymbolKind
  extent : Extent
  selection : Extent
  children : List EditorSymbol

def Position.point (p : Position) : Point := ⟨.ofNat p.line, .ofNat p.column⟩

def Point.position (p : Point) : Position := ⟨p.line.toNat, p.character.toNat⟩

def Span.extent (s : Span) : Extent := ⟨s.start.point, s.stop.point⟩

def Warning.diagnostic (w : Warning) : Diagnostic := ⟨w.span.extent, w.message⟩

def Symbol.forEditor : Symbol → EditorSymbol
  | ⟨name, detail, kind, span, selection, children⟩ =>
    ⟨name, detail, kind, span.extent, selection.extent, children.map forEditor⟩

/-- Coordinates that fit into a word come through unchanged. -/
theorem Position.position_point {p : Position} (hline : p.line < UInt32.size)
    (hcolumn : p.column < UInt32.size) : p.point.position = p := by
  have hl : (UInt32.ofNat p.line).toNat = p.line := by
    rw [UInt32.toNat_ofNat', Nat.mod_eq_of_lt hline]
  have hc : (UInt32.ofNat p.column).toNat = p.column := by
    rw [UInt32.toNat_ofNat', Nat.mod_eq_of_lt hcolumn]
  simp only [Position.point, Point.position, hl, hc]

def Point.toJson (p : Point) : Json :=
  .object [("character", .ofNat p.character.toNat), ("line", .ofNat p.line.toNat)]

def Extent.toJson (e : Extent) : Json :=
  .object [("end", e.stop.toJson), ("start", e.start.toJson)]

def Location.toJson (l : Location) : Json :=
  .object [("range", l.extent.toJson), ("uri", .string l.uri)]

/-- Every diagnostic is a warning of duplicate aliases. -/
def Diagnostic.toJson (d : Diagnostic) : Json :=
  .object [
    ("code", .string "duplicate-alias"),
    ("message", .string d.message),
    ("range", d.extent.toJson),
    ("severity", .ofNat 2),
    ("source", .string "dspf")]

def SymbolKind.code : SymbolKind → Nat
  | format => 23
  | field => 8

def EditorSymbol.toJson : EditorSymbol → Json
  | ⟨name, detail, kind, extent, selection, children⟩ =>
    let below := children.map toJson
    .object (
      (if below.isEmpty then [] else [("children", .array below)]) ++
      (detail.map fun text => ("detail", .string text)).toList ++
      [("kind", .ofNat kind.code),
        ("name", .string name),
        ("range", extent.toJson),
        ("selectionRange", selection.toJson)])

end DisplayFile
