import DisplayFile.Format

/-!
# Documents

The lines of a source are cut into blocks, each a header with the lines up to the next header. Lines
before the first header belong to no block. Each block becomes a record format.
-/

namespace DisplayFile

/-- A header line, the number it has, and the lines after it. -/
structure Block where
  start : Nat
  header : Line
  body : List (Option Line)

namespace Block

def lines (b : Block) : List (Option Line) := some b.header :: b.body

def rows (b : Block) : List Row := b.lines.zipIdx b.start

def endLine (b : Block) : Nat := b.start + b.body.length

/-- Puts a line before lines already cut: a header closes a block over the lines that wait for one,
and any other line joins them. -/
def cutStep (row : Row) (acc : List (Option Line) × List Block) :
    List (Option Line) × List Block :=
  match row with
  | (none, _) => (none :: acc.1, acc.2)
  | (some raw, number) =>
    if isHeader (normalize raw) then ([], ⟨number, raw, acc.1⟩ :: acc.2)
    else (some raw :: acc.1, acc.2)

def cut (rows : List Row) : List Block := (rows.foldr cutStep ([], [])).2

def format (b : Block) : Format :=
  b.rows.foldl Format.readRow
    (.opened (formatName (normalize b.header)) b.start b.endLine)

end Block

structure Document where
  lineCount : Nat
  formats : List Format
deriving DecidableEq

namespace Document

def ofSource (s : Source) : Document := ⟨s.lineCount, (Block.cut s.rows).map Block.format⟩

def formatAt? (d : Document) (line : Nat) : Option Format := d.formats.find? (·.containsLine line)

end Document

end DisplayFile
