/-!
# Sources

A source is a list of lines. A line that cannot be read still takes up its number. A text is cut at
its line feeds, and one carriage return is taken off the end of each line, so a text always has one
line more than it has line feeds.
-/

namespace DisplayFile

abbrev Line := List Char

/-- The lines of a document, `none` where a line cannot be read. -/
structure Source where
  lines : List (Option Line)
deriving DecidableEq

abbrev Row := Option Line × Nat

/-- The pieces of a text between its line feeds. -/
def splitLines (text : List Char) : List Line :=
  text.foldr (fun c lines => if c = '\n' then [] :: lines else lines.modifyHead (c :: ·)) [[]]

/-- The line without the carriage return at its end, if it has one. -/
def dropReturn (line : Line) : Line :=
  if line.getLast? = some '\r' then line.dropLast else line

namespace Source

def ofLines (lines : List Line) : Source := ⟨lines.map some⟩

def ofText (text : List Char) : Source := ofLines ((splitLines text).map dropReturn)

def rows (s : Source) : List Row := s.lines.zipIdx

def lineCount (s : Source) : Nat := s.lines.length

/-- The line with this number, if there is one and it can be read. -/
def line? (s : Source) (number : Nat) : Option Line := s.lines[number]?.join

/-- The number of characters of a line; zero if it cannot be read. -/
def width (s : Source) (number : Nat) : Nat := ((s.line? number).map List.length).getD 0

end Source

@[simp]
theorem splitLines_nil : splitLines [] = [[]] := rfl

@[simp]
theorem splitLines_newline (text : List Char) :
    splitLines ('\n' :: text) = [] :: splitLines text := rfl

theorem splitLines_cons {c : Char} (h : c ≠ '\n') (text : List Char) :
    splitLines (c :: text) = (splitLines text).modifyHead (c :: ·) := by
  simp [splitLines, h]

/-- A text has one line more than it has line feeds. -/
theorem length_splitLines (text : List Char) :
    (splitLines text).length = 1 + text.count '\n' := by
  induction text with
  | nil => rfl
  | cons c rest ih =>
    by_cases h : c = '\n'
    · subst h
      simp [ih]
      omega
    · rw [splitLines_cons h, List.length_modifyHead, ih, List.count_cons_of_ne (by simpa using h)]

theorem Source.lineCount_ofText (text : List Char) :
    (Source.ofText text).lineCount = 1 + text.count '\n' := by
  simp [Source.ofText, Source.ofLines, Source.lineCount, length_splitLines]

end DisplayFile
