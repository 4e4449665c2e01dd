/-!
# Positions and spans

A position is a zero-based line and a zero-based column, both counted in characters. Positions are
ordered first by line and then by column. A span runs from its start to its stop, the stop left out.
-/

namespace DisplayFile

structure Position where
  line : Nat
  column : Nat
deriving DecidableEq

namespace Position

instance : LE Position where
  le p q := p.line < q.line ∨ p.line = q.line ∧ p.column ≤ q.column

instance : LT Position where
  lt p q := p.line < q.line ∨ p.line = q.line ∧ p.column < q.column

theorem le_def {p q : Position} :
    p ≤ q ↔ p.line < q.line ∨ p.line = q.line ∧ p.column ≤ q.column := Iff.rfl

theorem lt_def {p q : Position} :
    p < q ↔ p.line < q.line ∨ p.line = q.line ∧ p.column < q.column := Iff.rfl

instance (p q : Position) : Decidable (p ≤ q) := decidable_of_iff _ le_def.symm

instance (p q : Position) : Decidable (p < q) := decidable_of_iff _ lt_def.symm

theorem le_refl (p : Position) : p ≤ p := by simp [le_def]

theorem le_trans {p q r : Position} (hpq : p ≤ q) (hqr : q ≤ r) : p ≤ r := by
  simp only [le_def] at *; omega

theorem le_total (p q : Position) : p ≤ q ∨ q ≤ p := by
  simp only [le_def]; omega

theorem not_le {p q : Position} : ¬ p ≤ q ↔ q < p := by
  simp only [le_def, lt_def]; omega

protected def toString (p : Position) : String := s!"{p.line}:{p.column}"

end Position

structure Span where
  start : Position
  stop : Position
deriving DecidableEq

namespace Span

/-- The columns from `start` up to `stop` of one line. -/
def onLine (line start stop : Nat) : Span := ⟨⟨line, start⟩, ⟨line, stop⟩⟩

def contains (s : Span) (p : Position) : Bool := decide (s.start ≤ p) && decide (p < s.stop)

theorem contains_iff {s : Span} {p : Position} : s.contains p ↔ s.start ≤ p ∧ p < s.stop := by
  simp [contains]

theorem contains_onLine {line start stop : Nat} {p : Position} :
    (onLine line start stop).contains p ↔ p.line = line ∧ start ≤ p.column ∧ p.column < stop := by
  simp only [contains_iff, onLine, Position.le_def, Position.lt_def]; omega

protected def toString (s : Span) : String := s.start.toString ++ ".." ++ s.stop.toString

end Span

end DisplayFile
