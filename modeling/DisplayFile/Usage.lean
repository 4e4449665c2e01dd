import DisplayFile.Name
import DisplayFile.Position
import DisplayFile.Source
import DisplayFile.Text.Search
import DisplayFile.Text.Upper

/-!
# Usages

A usage is a display attribute taken from a field, written `DSPATR(&NAME)`. It is a match of

    (?i-u)DSPATR\(&([A-Z0-9_]+)\)

in which only ASCII letters match regardless of case; `usageName?` is the group of the match that a
text starts with. Two usages of one line never overlap, since the keyword holds characters that no
name holds, so every column of the line is tried.
-/

namespace DisplayFile

structure Usage where
  name : Name
  /-- The name itself. -/
  span : Span
  /-- The name with the ampersand before it. -/
  target : Span
deriving DecidableEq

def usageKeyword : List Char := ['D', 'S', 'P', 'A', 'T', 'R', '(', '&']

/-- The name, as it is written, of the usage that `text` starts with. -/
def usageName? (text : Line) : Option Line :=
  if startsWithKeyword usageKeyword text then
    let rest := text.drop usageKeyword.length
    let name := rest.takeWhile isWordChar
    if name ≠ [] ∧ rest[name.length]? = some ')' then some name else none
  else none

namespace Usage

/-- The usage of `name` whose keyword starts at `column`. -/
def ofKeyword (line column : Nat) (name : Line) : Usage where
  name := capitals name
  span := .onLine line (column + 8) (column + 8 + name.length)
  target := .onLine line (column + 7) (column + 8 + name.length)

def contains (u : Usage) (p : Position) : Bool := u.target.contains p || u.span.contains p

end Usage

/-- The usages in a text that starts at `column` of its line, from left to right. -/
def usagesFrom (line : Nat) : Nat → Line → List Usage
  | _, [] => []
  | column, c :: rest =>
    ((usageName? (c :: rest)).map (Usage.ofKeyword line column)).toList ++
      usagesFrom line (column + 1) rest

def usagesOn (line : Nat) (raw : Line) : List Usage := usagesFrom line 0 raw

/-- Puts a usage before the first that does not start before it. -/
def insertByStart (u : Usage) : List Usage → List Usage
  | [] => [u]
  | v :: rest =>
    if u.span.start ≤ v.span.start then u :: v :: rest else v :: insertByStart u rest

/-- The usages in order of their starts; those that start together keep their order. -/
def sortByStart (usages : List Usage) : List Usage := usages.foldr insertByStart []

theorem mem_usagesFrom {line column : Nat} {text : Line} {u : Usage} :
    u ∈ usagesFrom line column text ↔
      ∃ k name, usageName? (text.drop k) = some name ∧ u = .ofKeyword line (column + k) name := by
  induction text generalizing column with
  | nil =>
    have h : usageName? [] = none := rfl
    simp [usagesFrom, h]
  | cons c rest ih =>
    simp only [usagesFrom, List.mem_append, Option.mem_toList,
      Option.map_eq_some_iff, ih]
    constructor
    · rintro (⟨name, hname, rfl⟩ | ⟨k, name, hname, rfl⟩)
      · exact ⟨0, name, hname, rfl⟩
      · exact ⟨k + 1, name, hname, by rw [Nat.add_assoc, Nat.add_comm 1]⟩
    · rintro ⟨k | k, name, hname, rfl⟩
      · exact .inl ⟨name, hname, rfl⟩
      · exact .inr ⟨k, name, hname, by rw [Nat.add_assoc, Nat.add_comm 1]⟩

/-- The usages of a line are those that start at some column of it. -/
theorem mem_usagesOn {line : Nat} {raw : Line} {u : Usage} :
    u ∈ usagesOn line raw ↔
      ∃ k name, usageName? (raw.drop k) = some name ∧ u = .ofKeyword line k name := by
  simp [usagesOn, mem_usagesFrom]

theorem insertByStart_perm (u : Usage) (usages : List Usage) :
    (insertByStart u usages).Perm (u :: usages) := by
  induction usages with
  | nil => exact .refl _
  | cons v rest ih =>
    rw [insertByStart]
    split
    · exact .refl _
    · exact (ih.cons v).trans (.swap u v rest)

theorem sortByStart_perm (usages : List Usage) : (sortByStart usages).Perm usages := by
  induction usages with
  | nil => exact .refl _
  | cons u rest ih => exact (insertByStart_perm u _).trans (ih.cons u)

theorem pairwise_insertByStart {u : Usage} {usages : List Usage}
    (h : usages.Pairwise fun v w => v.span.start ≤ w.span.start) :
    (insertByStart u usages).Pairwise fun v w => v.span.start ≤ w.span.start := by
  induction usages with
  | nil => exact List.pairwise_singleton _ _
  | cons v rest ih =>
    obtain ⟨hv, hrest⟩ := List.pairwise_cons.1 h
    rw [insertByStart]
    split
    · next huv =>
      refine List.pairwise_cons.2 ⟨fun w hw => ?_, h⟩
      rcases List.mem_cons.1 hw with rfl | hw
      · exact huv
      · exact Position.le_trans huv (hv w hw)
    · next huv =>
      refine List.pairwise_cons.2 ⟨fun w hw => ?_, ih hrest⟩
      rcases List.mem_cons.1 ((insertByStart_perm u rest).mem_iff.1 hw) with rfl | hw
      · exact (Position.le_total v.span.start w.span.start).resolve_right huv
      · exact hv w hw

theorem pairwise_sortByStart (usages : List Usage) :
    (sortByStart usages).Pairwise fun u v => u.span.start ≤ v.span.start := by
  induction usages with
  | nil => exact .nil
  | cons u rest ih => exact pairwise_insertByStart ih

end DisplayFile
