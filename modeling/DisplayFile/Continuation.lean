import DisplayFile.Source
import DisplayFile.Text.Search

/-!
# Continuation markers

Some editors leave a marker where a specification was wrapped onto a further line: a section sign or
a pound sign, a bar, and the same sign again. A marker means nothing, and as every column counts it
is replaced by as many blanks.
-/

namespace DisplayFile

def marker (sign : Char) : Line := [sign, '|', sign]

/-- Puts three blanks for each marker of `sign`, from the left and without overlap. -/
def blankMarkers (sign : Char) : Line → Line
  | a :: b :: c :: rest =>
    if a = sign ∧ b = '|' ∧ c = sign then ' ' :: ' ' :: ' ' :: blankMarkers sign rest
    else a :: blankMarkers sign (b :: c :: rest)
  | line => line

/-- The line with all its markers blanked, those of the section sign first. -/
def normalize (line : Line) : Line := blankMarkers '£' (blankMarkers '§' line)

def isUnmarked (line : Line) : Bool :=
  !occursIn (marker '§') line && !occursIn (marker '£') line

@[simp]
theorem length_blankMarkers (sign : Char) (line : Line) :
    (blankMarkers sign line).length = line.length := by
  fun_induction blankMarkers sign line <;> simp_all

@[simp]
theorem length_normalize (line : Line) : (normalize line).length = line.length := by
  simp [normalize]

end DisplayFile
