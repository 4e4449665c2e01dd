import DisplayFile.Source
import DisplayFile.Text.Blank

/-!
# Specification lines

Column 5 of a line holds its specification type, which is `A` for a display file. An asterisk in
column 6 makes the line a comment. Column 16 holds the name type: `R` there opens a record format,
whose name is the first word from column 17 on. Lines are expected with their markers blanked.
-/

namespace DisplayFile

/-- A display-file specification that is not commented out. -/
def isSpecification (text : Line) : Bool :=
  6 < text.length && text[5]? == some 'A' && text[6]? != some '*'

/-- A specification that opens a record format. -/
def isHeader (text : Line) : Bool := isSpecification text && text[16]? == some 'R'

/-- The name of the format that a line opens; empty if it opens none or names none. -/
def formatName (text : Line) : Line := if isHeader text then firstWord (text.drop 17) else []

theorem isSpecification_of_isHeader {text : Line} (h : isHeader text) : isSpecification text := by
  simp only [isHeader, Bool.and_eq_true] at h
  exact h.1

end DisplayFile
