import DisplayFile.Proofs.Blocks
import Mathlib.Data.List.ModifyLast

/-!
# Reading line by line

`Document.scan` reads a source in one pass, line after line. It keeps the formats it has met, the
last of which is open. A header ends the open format on the line before it and opens a format that,
for the time being, ends on the last line of the source; every line is then read into the format
that is open. Nothing is known of the lines to come, where `Document.ofSource` first cuts the source
into blocks and so knows the end of a format before it reads it. The two give the same document.
-/

namespace DisplayFile

namespace Format

/-- Takes in a line that can be read, if it is a specification. -/
def readLine (number : Nat) (raw : Line) (f : Format) : Format :=
  if isSpecification (normalize raw) then
    let used := (usagesOn number raw).foldl addUsage f
    (declarationOn? number raw).elim used used.declare
  else f

theorem readLine_eq_readRow (number : Nat) (raw : Line) (f : Format) :
    f.readLine number raw = f.readRow (some raw, number) := by
  by_cases h : isSpecification (normalize raw) <;>
    simp [readLine, readRow, usagesIn, declarationIn?, h]

def endBefore (number : Nat) (f : Format) : Format := { f with endLine := number - 1 }

end Format

/-- A format may be opened with any end, if its end is set once its lines are read. -/
theorem Block.format_eq_endBefore (number endLine : Nat) (raw : Line) (body : List (Option Line)) :
    (Block.mk number raw body).format =
      ((body.zipIdx (number + 1)).foldl Format.readRow
        ((Format.opened (formatName (normalize raw)) number endLine).readRow
          (some raw, number))).endBefore (number + 1 + body.length) := by
  rw [Format.endBefore, Nat.add_right_comm, Nat.add_sub_cancel]
  exact Format.foldl_readRow_withEnd (number + body.length) ((some raw :: body).zipIdx number)
    (.opened (formatName (normalize raw)) number endLine)

namespace Document

/-- One turn of the loop, with the formats met so far. A line that cannot be read is passed over. -/
def scanLine (lastLine : Nat) (formats : List Format) : Row → List Format
  | (none, _) => formats
  | (some raw, number) =>
    let clean := normalize raw
    let opened :=
      if isHeader clean then
        formats.modifyLast (·.endBefore number) ++ [.opened (formatName clean) number lastLine]
      else formats
    opened.modifyLast (·.readLine number raw)

def scan (s : Source) : Document :=
  ⟨s.lineCount, s.rows.foldl (scanLine (s.lineCount - 1)) []⟩

section Turn

variable {lastLine number : Nat} {line : Option Line} {raw : Line}

theorem scanLine_of_isHeader (h : isHeader (normalize raw)) (formats : List Format) :
    scanLine lastLine formats (some raw, number) =
      formats.modifyLast (·.endBefore number) ++
        [(Format.opened (formatName (normalize raw)) number lastLine).readRow
          (some raw, number)] := by
  simp only [scanLine, if_pos h, List.modifyLast_concat, Format.readLine_eq_readRow]

/-- A line that is no header is read into the open format. -/
theorem scanLine_of_not_opensFormat (h : ¬ opensFormat line) (done : List Format) (f : Format) :
    scanLine lastLine (done ++ [f]) (line, number) = done ++ [f.readRow (line, number)] := by
  cases line with
  | none => rfl
  | some raw =>
    have hheader : ¬ isHeader (normalize raw) := h
    simp only [scanLine, if_neg hheader, List.modifyLast_concat, Format.readLine_eq_readRow]

/-- Before the first header nothing is recorded. -/
theorem scanLine_nil_of_not_opensFormat (h : ¬ opensFormat line) :
    scanLine lastLine [] (line, number) = [] := by
  cases line with
  | none => rfl
  | some raw =>
    have hheader : ¬ isHeader (normalize raw) := h
    simp only [scanLine, if_neg hheader]
    rfl

end Turn

/-- While a format is open, the lines up to the next header go into it, and every later header opens
a format of its own. -/
theorem foldl_scanLine_open {lastLine n : Nat} {lines : List (Option Line)} {f : Format}
    (hend : f.endLine = lastLine) (hlast : n + lines.length = lastLine + 1)
    (done : List Format) :
    (lines.zipIdx n).foldl (scanLine lastLine) (done ++ [f]) =
      done ++
        (((Block.preamble (lines.zipIdx n)).zipIdx n).foldl Format.readRow f).endBefore
          (n + (Block.preamble (lines.zipIdx n)).length) ::
        (Block.cut (lines.zipIdx n)).map Block.format := by
  induction lines generalizing n f done with
  | nil =>
    -- the end that the last format was opened with is the right one
    have hn : n - 1 = f.endLine := by
      rw [List.length_nil] at hlast
      omega
    simp [Block.preamble, Block.cut, Format.endBefore, hn]
  | cons line rest ih =>
    have hlast' : n + 1 + rest.length = lastLine + 1 := by
      rw [List.length_cons] at hlast
      omega
    rw [List.zipIdx_cons, List.foldl_cons]
    by_cases h : opensFormat line
    · obtain ⟨raw, rfl, hheader⟩ := opensFormat_iff.1 h
      rw [scanLine_of_isHeader hheader, List.modifyLast_concat,
        ih (Format.sameHeading_readRow _ _).2.2 hlast', ← Block.format_eq_endBefore,
        Block.preamble_cons_of_isHeader hheader, Block.cut_cons_of_isHeader hheader,
        List.append_assoc]
      rfl
    · rw [scanLine_of_not_opensFormat h,
        ih ((Format.sameHeading_readRow f (line, n)).2.2.trans hend) hlast',
        Block.preamble_cons_of_not_opensFormat h, Block.cut_cons_of_not_opensFormat h,
        List.zipIdx_cons, List.foldl_cons, List.length_cons, Nat.add_right_comm, Nat.add_assoc]

/-- While no format is open, the lines up to the first header are lost. -/
theorem foldl_scanLine_nil {lastLine n : Nat} {lines : List (Option Line)}
    (hlast : n + lines.length - 1 = lastLine) :
    (lines.zipIdx n).foldl (scanLine lastLine) [] =
      (Block.cut (lines.zipIdx n)).map Block.format := by
  induction lines generalizing n with
  | nil => rfl
  | cons line rest ih =>
    rw [List.length_cons] at hlast
    rw [List.zipIdx_cons, List.foldl_cons]
    by_cases h : opensFormat line
    · obtain ⟨raw, rfl, hheader⟩ := opensFormat_iff.1 h
      rw [scanLine_of_isHeader hheader, Block.cut_cons_of_isHeader hheader, List.map_cons,
        Block.format_eq_endBefore n lastLine]
      have hlast' : n + 1 + rest.length = lastLine + 1 := by omega
      refine foldl_scanLine_open ?_ hlast' []
      exact (Format.sameHeading_readRow _ _).2.2
    · rw [scanLine_nil_of_not_opensFormat h, ih (by omega), Block.cut_cons_of_not_opensFormat h]

/-- Reading line by line gives the document that cutting the source into blocks gives. -/
theorem ofSource_eq_scan (s : Source) : ofSource s = scan s := by
  rw [ofSource, scan, Source.rows, foldl_scanLine_nil (by rw [Nat.zero_add, Source.lineCount])]

end Document

end DisplayFile
