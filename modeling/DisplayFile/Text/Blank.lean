/-!
# Blanks

The blanks are the twenty-five characters with the Unicode property `White_Space`. They delimit the
words of a line and are trimmed off the ends of a value.
-/

namespace DisplayFile

/-- Tab to carriage return, space, next line, the fixed-width and separator spaces. -/
def isBlank (c : Char) : Bool :=
  let n := c.toNat
  (0x09 ≤ n && n ≤ 0x0D) || n == 0x20 || n == 0x85 || n == 0xA0 || n == 0x1680 ||
    (0x2000 ≤ n && n ≤ 0x200A) || n == 0x2028 || n == 0x2029 || n == 0x202F || n == 0x205F ||
    n == 0x3000

/-- The text without the blanks at its start and at its end. -/
def trimBlanks (text : List Char) : List Char :=
  ((text.dropWhile isBlank).reverse.dropWhile isBlank).reverse

/-- The first run of characters between blanks; empty if there is none. -/
def firstWord (text : List Char) : List Char :=
  (text.dropWhile isBlank).takeWhile (fun c => !isBlank c)

end DisplayFile
