import DisplayFile.Navigation
import Mathlib

/-!
# Renumbering lines

Lines get other numbers when text is put before them. `renumber g` gives every line of a position, a
span or a format the number that `g` has for it and leaves all else as it is. Reading commutes with
renumbering whatever `g` is, since a line is read without regard to its number. Navigation commutes
with it if `g` keeps the lines in their order.
-/

namespace DisplayFile

namespace Position

def renumber (g : Nat → Nat) (p : Position) : Position := { p with line := g p.line }

variable {g : Nat → Nat} (hg : StrictMono g)
include hg

theorem renumber_le_iff {p q : Position} : p.renumber g ≤ q.renumber g ↔ p ≤ q := by
  simp only [le_def, renumber, hg.lt_iff_lt, hg.injective.eq_iff]

theorem renumber_lt_iff {p q : Position} : p.renumber g < q.renumber g ↔ p < q := by
  simp only [lt_def, renumber, hg.lt_iff_lt, hg.injective.eq_iff]

theorem renumber_injective : Function.Injective (renumber g) := by
  intro p q h
  obtain ⟨hline, hcolumn⟩ := Position.mk.inj h
  obtain ⟨line, column⟩ := p
  exact congrArg₂ Position.mk (hg.injective hline) hcolumn

end Position

namespace Span

def renumber (g : Nat → Nat) (s : Span) : Span := ⟨s.start.renumber g, s.stop.renumber g⟩

variable {g : Nat → Nat} (hg : StrictMono g)
include hg

theorem contains_renumber (s : Span) (p : Position) :
    (s.renumber g).contains (p.renumber g) = s.contains p := by
  simp only [contains, renumber, Position.renumber_le_iff hg, Position.renumber_lt_iff hg]

theorem renumber_injective : Function.Injective (renumber g) := by
  intro s t h
  obtain ⟨hstart, hstop⟩ := Span.mk.inj h
  obtain ⟨start, stop⟩ := s
  exact congrArg₂ Span.mk (Position.renumber_injective hg hstart)
    (Position.renumber_injective hg hstop)

end Span

def Usage.renumber (g : Nat → Nat) (u : Usage) : Usage :=
  { u with span := u.span.renumber g, target := u.target.renumber g }

def Declaration.renumber (g : Nat → Nat) (d : Declaration) : Declaration :=
  { d with
    nameSpan := d.nameSpan.renumber g
    valueSpan := d.valueSpan.map (Span.renumber g) }

@[simp] theorem Declaration.renumber_name (g : Nat → Nat) (d : Declaration) :
    (d.renumber g).name = d.name := rfl

@[simp] theorem Declaration.renumber_aliasName (g : Nat → Nat) (d : Declaration) :
    (d.renumber g).aliasName = d.aliasName := rfl

namespace Table

variable {κ α β : Type}

def mapValues (h : α → β) (t : Table κ α) : Table κ β := ⟨t.entries.map (Prod.map id h)⟩

theorem values_mapValues (h : α → β) (t : Table κ α) :
    (t.mapValues h).values = t.values.map h := by
  simp [values, mapValues]

variable [DecidableEq κ]

theorem get?_mapValues (h : α → β) (t : Table κ α) (key : κ) :
    (t.mapValues h).get? key = (t.get? key).map h := by
  obtain ⟨entries⟩ := t
  induction entries with
  | nil => rfl
  | cons e rest ih =>
    obtain ⟨k, a⟩ := e
    simp only [get?, mapValues, List.map_cons, Prod.map_apply, id_eq, lookup_cons_ite] at ih ⊢
    split
    · rfl
    · exact ih

theorem alter_mapValues {h : α → β} {f : Option α → α} {f' : Option β → β}
    (hf : ∀ a, f' (a.map h) = h (f a)) (t : Table κ α) (key : κ) :
    (t.mapValues h).alter key f' = (t.alter key f).mapValues h := by
  obtain ⟨entries⟩ := t
  induction entries with
  | nil => simp [alter, mapValues, alterEntries, ← hf none]
  | cons e rest ih =>
    obtain ⟨k, a⟩ := e
    simp only [alter, mapValues, Table.mk.injEq, List.map_cons, Prod.map_apply, id_eq,
      alterEntries] at ih ⊢
    by_cases hk : k = key
    · simp [hk, ← hf (some a)]
    · simp [hk, ih]

theorem insert_mapValues (h : α → β) (t : Table κ α) (key : κ) (value : α) :
    (t.mapValues h).insert key (h value) = (t.insert key value).mapValues h := by
  unfold insert
  refine alter_mapValues ?_ t key
  intro _
  rfl

end Table

namespace Format

/-- The format with the lines of all that it holds renumbered. -/
def renumber (g : Nat → Nat) (f : Format) : Format where
  name := f.name
  startLine := g f.startLine
  endLine := g f.endLine
  declarations := f.declarations.mapValues (Declaration.renumber g)
  usages := f.usages.mapValues (List.map (Usage.renumber g))
  shadowed := f.shadowed.map (Declaration.renumber g)

end Format

section Reading

variable (g : Nat → Nat)

theorem usagesFrom_renumber (line column : Nat) (text : Line) :
    usagesFrom (g line) column text = (usagesFrom line column text).map (Usage.renumber g) := by
  induction text generalizing column with
  | nil => rfl
  | cons c rest ih =>
    rw [usagesFrom, usagesFrom, List.map_append, ih]
    cases usageName? (c :: rest) with
    | none => rfl
    | some name => rfl

theorem declarationOn?_renumber (line : Nat) (raw : Line) :
    declarationOn? (g line) raw = (declarationOn? line raw).map (Declaration.renumber g) := by
  have hclause (clause : Clause) : Declaration.ofClause? (g line) raw clause =
      (Declaration.ofClause? line raw clause).map (Declaration.renumber g) := by
    simp only [Declaration.ofClause?, Option.map_map]
    refine congrArg (Option.map · _) (funext fun column => ?_)
    simp only [Function.comp_apply, Declaration.renumber, Option.map_map]
    rfl
  simp only [declarationOn?]
  split
  · cases Clause.read? (normalize raw) with
    | none => rfl
    | some clause => exact hclause clause
  · rfl

theorem usagesIn_renumber (row : Row) :
    usagesIn (row.map id g) = (usagesIn row).map (Usage.renumber g) := by
  obtain ⟨raw | raw, number⟩ := row
  · rfl
  · simp only [Prod.map_apply, id_eq, usagesIn]
    split
    · exact usagesFrom_renumber g number 0 raw
    · rfl

theorem declarationIn?_renumber (row : Row) :
    declarationIn? (row.map id g) = (declarationIn? row).map (Declaration.renumber g) := by
  obtain ⟨raw | raw, number⟩ := row
  · rfl
  · simp only [Prod.map_apply, id_eq, declarationIn?]
    split
    · exact declarationOn?_renumber g number raw
    · rfl

namespace Format

variable (f : Format)

theorem declaration?_renumber (name : Name) :
    (f.renumber g).declaration? name = (f.declaration? name).map (Declaration.renumber g) :=
  Table.get?_mapValues _ f.declarations name

theorem addUsage_renumber (u : Usage) :
    (f.renumber g).addUsage (u.renumber g) = (f.addUsage u).renumber g := by
  have hfile (before : Option (List Usage)) :
      (before.map (List.map (Usage.renumber g))).getD [] ++ [u.renumber g] =
        (before.getD [] ++ [u]).map (Usage.renumber g) := by
    cases before with
    | none => rfl
    | some us => simp
  simp only [addUsage, renumber, Usage.renumber, Format.mk.injEq, and_true, true_and]
  exact Table.alter_mapValues hfile f.usages u.name

theorem declare_renumber (d : Declaration) :
    (f.renumber g).declare (d.renumber g) = (f.declare d).renumber g := by
  have hshadowed : f.shadowed.map (Declaration.renumber g) ++
      ((f.renumber g).declaration? d.name).toList =
        (f.shadowed ++ (f.declaration? d.name).toList).map (Declaration.renumber g) := by
    rw [declaration?_renumber, List.map_append]
    cases f.declaration? d.name with
    | none => rfl
    | some e => rfl
  simp only [declare, renumber, Format.mk.injEq, true_and]
  exact ⟨Table.insert_mapValues _ f.declarations d.name d, hshadowed⟩

theorem foldl_addUsage_renumber (us : List Usage) :
    (us.map (Usage.renumber g)).foldl addUsage (f.renumber g) =
      (us.foldl addUsage f).renumber g := by
  induction us generalizing f with
  | nil => rfl
  | cons u rest ih => rw [List.map_cons, List.foldl_cons, addUsage_renumber, ih, List.foldl_cons]

theorem readRow_renumber (row : Row) :
    (f.renumber g).readRow (row.map id g) = (f.readRow row).renumber g := by
  unfold readRow
  rw [usagesIn_renumber, declarationIn?_renumber, foldl_addUsage_renumber]
  cases declarationIn? row with
  | none => rfl
  | some d => exact declare_renumber g _ d

/-- Rows with other numbers are read to the same format with other numbers. -/
theorem foldl_readRow_renumber (rows : List Row) :
    (rows.map (Prod.map id g)).foldl readRow (f.renumber g) =
      (rows.foldl readRow f).renumber g := by
  induction rows generalizing f with
  | nil => rfl
  | cons row rest ih => rw [List.map_cons, List.foldl_cons, readRow_renumber, ih, List.foldl_cons]

theorem allUsages_renumber :
    (f.renumber g).allUsages = f.allUsages.map (Usage.renumber g) := by
  rw [allUsages, renumber, Table.values_mapValues, ← List.map_flatten, allUsages]

theorem usagesOf_renumber (name : Name) :
    (f.renumber g).usagesOf name = (f.usagesOf name).map (Usage.renumber g) := by
  rw [usagesOf, renumber, Table.get?_mapValues, usagesOf]
  cases f.usages.get? name with
  | none => rfl
  | some us => rfl

end Format

end Reading

def Occurrence.renumber (g : Nat → Nat) : Occurrence → Occurrence
  | usage u => usage (u.renumber g)
  | declaration d => declaration (d.renumber g)

def Resolution.renumber (g : Nat → Nat) : Resolution → Resolution
  | declaration span => declaration (span.renumber g)
  | usages spans => usages (spans.map (Span.renumber g))

section Navigation

variable {g : Nat → Nat} (hg : StrictMono g)
include hg

theorem Usage.contains_renumber (u : Usage) (p : Position) :
    (u.renumber g).contains (p.renumber g) = u.contains p := by
  simp only [contains, renumber, Span.contains_renumber hg]

theorem Declaration.contains_renumber (d : Declaration) (p : Position) :
    (d.renumber g).contains (p.renumber g) = d.contains p := by
  simp only [contains, renumber, Span.contains_renumber hg, Option.any_map]

theorem latest?_renumber (ds : List Declaration) :
    latest? (ds.map (Declaration.renumber g)) = (latest? ds).map (Declaration.renumber g) := by
  induction ds with
  | nil => rfl
  | cons d rest ih =>
    rw [List.map_cons, latest?, ih, latest?]
    cases latest? rest with
    | none => rfl
    | some e =>
      have hle : (d.renumber g).nameSpan.start ≤ (e.renumber g).nameSpan.start ↔
          d.nameSpan.start ≤ e.nameSpan.start := Position.renumber_le_iff hg
      simp only [Option.map_some, hle]
      split
      · rfl
      · rfl

theorem sortByStart_renumber (us : List Usage) :
    sortByStart (us.map (Usage.renumber g)) = (sortByStart us).map (Usage.renumber g) := by
  have hinsert (u : Usage) (sorted : List Usage) :
      insertByStart (u.renumber g) (sorted.map (Usage.renumber g)) =
        (insertByStart u sorted).map (Usage.renumber g) := by
    induction sorted with
    | nil => rfl
    | cons v rest ih =>
      have hle : (u.renumber g).span.start ≤ (v.renumber g).span.start ↔
          u.span.start ≤ v.span.start := Position.renumber_le_iff hg
      simp only [List.map_cons, insertByStart, hle]
      split
      · rfl
      · rw [ih, List.map_cons]
  induction us with
  | nil => rfl
  | cons u rest ih =>
    rw [List.map_cons, sortByStart, List.foldr_cons, ← sortByStart, ih, hinsert, sortByStart,
      sortByStart, List.foldr_cons]

namespace Format

variable (f : Format)

theorem containsLine_renumber (line : Nat) :
    (f.renumber g).containsLine (g line) = f.containsLine line := by
  simp only [containsLine, renumber, hg.le_iff_le]

theorem occurrenceAt?_renumber (p : Position) :
    (f.renumber g).occurrenceAt? (p.renumber g) =
      (f.occurrenceAt? p).map (Occurrence.renumber g) := by
  have husage : (f.renumber g).usageAt? (p.renumber g) =
      (f.usageAt? p).map (Usage.renumber g) := by
    simp only [usageAt?, allUsages_renumber, List.find?_map, Function.comp_def,
      Usage.contains_renumber hg]
  have hdeclaration : (f.renumber g).declarationAt? (p.renumber g) =
      (f.declarationAt? p).map (Declaration.renumber g) := by
    simp only [declarationAt?, renumber, Table.values_mapValues, List.find?_map, Function.comp_def,
      Declaration.contains_renumber hg]
  unfold occurrenceAt?
  rw [husage, hdeclaration]
  cases f.usageAt? p with
  | some u => rfl
  | none =>
    cases f.declarationAt? p with
    | none => rfl
    | some d => rfl

theorem declarationFor?_renumber (name : Name) :
    (f.renumber g).declarationFor? name =
      (f.declarationFor? name).map (Declaration.renumber g) := by
  unfold declarationFor?
  rw [declaration?_renumber]
  cases f.declaration? name with
  | some d => rfl
  | none =>
    simp only [Option.map_none, renumber, Table.values_mapValues]
    rw [List.filter_map, latest?_renumber hg]
    rfl

theorem refersTo_renumber (name : Name) (d : Declaration) :
    (f.renumber g).refersTo name (d.renumber g) = f.refersTo name d := by
  simp only [refersTo, declarationFor?_renumber hg, Option.any_map,
    Declaration.renumber, (Span.renumber_injective hg).eq_iff]

theorem usagesFor_renumber (d : Declaration) :
    (f.renumber g).usagesFor (d.renumber g) = (f.usagesFor d).map (Usage.renumber g) := by
  simp only [usagesFor, Declaration.renumber_name, Declaration.renumber_aliasName]
  cases d.aliasName with
  | none => exact usagesOf_renumber g f d.name
  | some other =>
    simp only [refersTo_renumber hg, usagesOf_renumber]
    split
    · rfl
    · have hfilter : ((f.usagesOf other).map (Usage.renumber g)).filter
          (fun u => f.refersTo u.name d) =
          ((f.usagesOf other).filter fun u => f.refersTo u.name d).map (Usage.renumber g) :=
        List.filter_map
      rw [hfilter, ← List.map_append, sortByStart_renumber hg]

/-- An occurrence leads to the same place with other numbers. -/
theorem resolve?_renumber (o : Occurrence) :
    (f.renumber g).resolve? (o.renumber g) = (f.resolve? o).map (Resolution.renumber g) := by
  cases o with
  | usage u =>
    have howner := declarationFor?_renumber hg f u.name
    simp only [Occurrence.renumber, resolve?, Usage.renumber, howner, Option.map_map]
    rfl
  | declaration d =>
    simp only [Occurrence.renumber, resolve?, usagesFor_renumber hg]
    cases f.usagesFor d with
    | nil => rfl
    | cons u rest => simp [Resolution.renumber, Usage.renumber]

end Format

end Navigation

end DisplayFile
