/-!
# Names

Fields and aliases are found by name. A name is kept in capitals, so that the case in which it was
written does not matter.
-/

namespace DisplayFile

abbrev Name := List Char

/-- The characters of a referenced name, which are also those that a word boundary separates. -/
def isWordChar (c : Char) : Bool := c.isAlphanum || c == '_'

def isFieldChar (c : Char) : Bool := isWordChar c || c == '#' || c == '@'

theorem isFieldChar_of_isWordChar {c : Char} (h : isWordChar c) : isFieldChar c := by
  simp [isFieldChar, h]

end DisplayFile
