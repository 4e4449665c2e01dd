import DisplayFile.Name
import DisplayFile.Source
import DisplayFile.Text.Blank
import DisplayFile.Text.Search

/-!
# Declaration clauses

A line declares an alias if it is blanks, the specification letter, blanks, a field name that ends
at a word boundary, and further on, before any line feed, the keyword `ALIAS(` with a value and a
closing parenthesis. This is the pattern

    (?i)^\s*A\s+((?-u:[A-Z0-9_#@])+)(?-u:\b).*?(?-u:ALIAS)\(([^)]+)\)

with the field name and the value as its groups: `\s` is any blank, `\b` a boundary between ASCII
word characters and others. A line can be taken apart in several such ways. `Clause.read?` is the
match that the pattern prefers. Its first group is greedy, so this is the longest field name for
which there is a match; the text behind it is not, so for that name it is the earliest keyword.
-/

namespace DisplayFile

def aliasKeyword : List Char := ['A', 'L', 'I', 'A', 'S', '(']

/-- What follows a field name: other text, the keyword, its value, and after the closing
parenthesis the rest of the line. -/
structure AliasPhrase where
  filler : Line
  keyword : Line
  value : Line
  rest : Line
deriving DecidableEq

namespace AliasPhrase

def text (p : AliasPhrase) : Line := p.filler ++ p.keyword ++ p.value ++ ')' :: p.rest

/-- The phrase whose keyword stands at the start of the text. -/
def here? (text : Line) : Option AliasPhrase :=
  if startsWithKeyword aliasKeyword text then
    let body := text.drop aliasKeyword.length
    match body.takeWhile (· ≠ ')'), body.dropWhile (· ≠ ')') with
    | c :: value, _ :: rest => some ⟨[], text.take aliasKeyword.length, c :: value, rest⟩
    | _, _ => none
  else none

/-- The same phrase with one more character before it. -/
def after (c : Char) (p : AliasPhrase) : AliasPhrase := { p with filler := c :: p.filler }

/-- The phrase with the earliest keyword that is not past a line feed. A keyword without a closing
parenthesis after it ends the search, since no later keyword has one either. -/
def first? : Line → Option AliasPhrase
  | [] => none
  | c :: rest =>
    if startsWithKeyword aliasKeyword (c :: rest) ∧ ')' ∉ rest then none
    else
      match here? (c :: rest) with
      | some phrase => some phrase
      | none => if c = '\n' then none else (first? rest).map (after c)

end AliasPhrase

structure Clause where
  lead : Line
  letter : Char
  gap : Line
  field : Line
  phrase : AliasPhrase
deriving DecidableEq

/-- Whether exactly one of `c` and the character after it belongs to a word. -/
def endsAtBoundary (c : Char) (rest : Line) : Bool := isWordChar c != rest.head?.any isWordChar

/-- What a text that may start with a field name holds. -/
structure FieldSplit where
  /-- The earliest phrase anywhere in the text. -/
  phrase : Option AliasPhrase
  /-- The longest field name that the text starts with and a phrase follows, with that phrase. -/
  field : Option (Line × AliasPhrase)

/-- Splits a text at the end of its field name. The text after each character is looked at once, so
the time does not grow with the number of places at which the name could end. -/
def FieldSplit.ofText : Line → FieldSplit
  | [] => ⟨none, none⟩
  | c :: rest =>
    if isFieldChar c then
      let later := ofText rest
      { phrase := (AliasPhrase.here? (c :: rest)).or (later.phrase.map (.after c))
        field :=
          match later.field with
          | some (field, phrase) => some (c :: field, phrase)
          | none => if endsAtBoundary c rest then later.phrase.map ([c], ·) else none }
    else ⟨AliasPhrase.first? (c :: rest), none⟩

namespace Clause

def text (c : Clause) : Line := c.lead ++ c.letter :: c.gap ++ c.field ++ c.phrase.text

def read? (line : Line) : Option Clause :=
  match line.dropWhile isBlank with
  | [] => none
  | letter :: rest =>
    let gap := rest.takeWhile isBlank
    let text := rest.dropWhile isBlank
    if letter.toUpper = 'A' ∧ gap ≠ [] then
      (FieldSplit.ofText text).field.map fun (field, phrase) =>
        ⟨line.takeWhile isBlank, letter, gap, field, phrase⟩
    else none

end Clause

theorem AliasPhrase.text_of_here? {text : Line} {p : AliasPhrase} (h : here? text = some p) :
    p.text = text := by
  simp only [here?] at h
  split at h
  · split at h
    · rename_i c value d rest hvalue hrest
      obtain rfl := Option.some.inj h
      have hd : d = ')' := by
        have := List.head?_dropWhile_not (· ≠ ')') (text.drop aliasKeyword.length)
        rw [hrest] at this
        simpa using this
      have hbody : _ = text.drop aliasKeyword.length :=
        List.takeWhile_append_dropWhile (p := fun c => decide (c ≠ ')'))
      rw [hvalue, hrest, hd] at hbody
      simp only [AliasPhrase.text, List.nil_append]
      rw [List.append_assoc, hbody, List.take_append_drop]
    · simp at h
  · simp at h

@[simp]
theorem AliasPhrase.text_after (c : Char) (p : AliasPhrase) : (p.after c).text = c :: p.text := rfl

theorem AliasPhrase.text_of_first? {text : Line} {p : AliasPhrase} (h : first? text = some p) :
    p.text = text := by
  induction text generalizing p with
  | nil => simp [first?] at h
  | cons c rest ih =>
    simp only [first?] at h
    split at h
    · simp at h
    · split at h
      · rename_i phrase hphrase
        obtain rfl := Option.some.inj h
        exact text_of_here? hphrase
      · split at h
        · simp at h
        · obtain ⟨q, hq, rfl⟩ := Option.map_eq_some_iff.1 h
          rw [text_after, ih hq]

theorem FieldSplit.text_of_phrase {text : Line} {p : AliasPhrase}
    (h : (ofText text).phrase = some p) : p.text = text := by
  induction text generalizing p with
  | nil => simp [ofText] at h
  | cons c rest ih =>
    rw [ofText] at h
    split at h
    · rcases Option.or_eq_some_iff.1 h with h | ⟨-, h⟩
      · exact AliasPhrase.text_of_here? h
      · obtain ⟨q, hq, rfl⟩ := Option.map_eq_some_iff.1 h
        rw [AliasPhrase.text_after, ih hq]
    · exact AliasPhrase.text_of_first? h

theorem FieldSplit.text_of_field {text field : Line} {phrase : AliasPhrase}
    (h : (ofText text).field = some (field, phrase)) : field ++ phrase.text = text := by
  induction text generalizing field with
  | nil => simp [ofText] at h
  | cons c rest ih =>
    rw [ofText] at h
    split at h
    · dsimp only at h
      split at h
      · rename_i name p hp
        obtain ⟨rfl, rfl⟩ : c :: name = field ∧ p = phrase := by simpa using h
        rw [List.cons_append, ih hp]
      · split at h
        · obtain ⟨p, hp, h⟩ := Option.map_eq_some_iff.1 h
          obtain ⟨rfl, rfl⟩ : [c] = field ∧ p = phrase := by simpa using h
          rw [List.singleton_append, text_of_phrase hp]
        · simp at h
    · simp at h

/-- Nothing is lost when a line is taken apart. -/
theorem Clause.text_of_read? {line : Line} {c : Clause} (h : read? line = some c) :
    c.text = line := by
  simp only [read?] at h
  split at h
  · simp at h
  · rename_i letter rest hrest
    split at h
    · obtain ⟨⟨field, phrase⟩, hsplit, rfl⟩ := Option.map_eq_some_iff.1 h
      have htext := FieldSplit.text_of_field hsplit
      have hgap : rest.takeWhile isBlank ++ rest.dropWhile isBlank = rest :=
        List.takeWhile_append_dropWhile
      have hlead : line.takeWhile isBlank ++ line.dropWhile isBlank = line :=
        List.takeWhile_append_dropWhile
      simp only [Clause.text, List.append_assoc, htext, List.cons_append, hgap]
      rw [← hrest, hlead]
    · simp at h

end DisplayFile
