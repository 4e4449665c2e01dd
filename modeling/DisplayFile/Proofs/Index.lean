import DisplayFile.Document
import DisplayFile.Proofs.DeclarationColumns
import DisplayFile.Proofs.Table

/-!
# What a format holds

`declared rows` and `used rows` list all declarations and all usages on some rows, in the order in
which they stand. `Format.Holds` says that a format is an index of two such lists. It is kept by
each step of reading, so a format that has read some rows holds what is declared and used on them.

`Arranged` says how the two lists stand in the text: each declaration on a line of its own, the
usages one after the other, and no usage on a field name. It holds of all rows in increasing order.
-/

namespace DisplayFile

/-- All declarations on some rows, none of them shadowed yet. -/
def declared (rows : List Row) : List Declaration := rows.filterMap declarationIn?

def used (rows : List Row) : List Usage := rows.flatMap usagesIn

@[simp] theorem declared_append (rows more : List Row) :
    declared (rows ++ more) = declared rows ++ declared more := List.filterMap_append

@[simp] theorem used_append (rows more : List Row) :
    used (rows ++ more) = used rows ++ used more := List.flatMap_append

theorem mem_declared {rows : List Row} {d : Declaration} :
    d ∈ declared rows ↔ ∃ row ∈ rows, declarationIn? row = some d := List.mem_filterMap

theorem mem_used {rows : List Row} {u : Usage} :
    u ∈ used rows ↔ ∃ row ∈ rows, u ∈ usagesIn row := List.mem_flatMap

theorem declarationIn?_eq_some_iff {row : Row} {d : Declaration} :
    declarationIn? row = some d ↔ ∃ raw, row.1 = some raw ∧ isSpecification (normalize raw) ∧
      declarationOn? row.2 raw = some d := by
  obtain ⟨raw | raw, number⟩ := row
  · simp [declarationIn?]
  · by_cases hs : isSpecification (normalize raw) <;> simp [declarationIn?, hs]

theorem mem_usagesIn {row : Row} {u : Usage} :
    u ∈ usagesIn row ↔ ∃ raw, row.1 = some raw ∧ isSpecification (normalize raw) ∧
      u ∈ usagesOn row.2 raw := by
  obtain ⟨raw | raw, number⟩ := row
  · simp [usagesIn]
  · by_cases hs : isSpecification (normalize raw) <;> simp [usagesIn, hs]

namespace Format

/-- The format is an index of the declarations `ds` and the usages `us`, both in the order in which
they were read. -/
structure Holds (f : Format) (ds : List Declaration) (us : List Usage) : Prop where
  nodup_declarations : f.declarations.keys.Nodup
  declaration?_eq : ∀ name, f.declaration? name = (ds.filter fun d => d.name = name).getLast?
  kept_perm : (f.declarations.values ++ f.shadowed).Perm ds
  nodup_usages : f.usages.keys.Nodup
  usagesOf_eq : ∀ name, f.usagesOf name = us.filter fun u => u.name = name
  allUsages_perm : f.allUsages.Perm us

theorem holds_opened (name : Name) (startLine endLine : Nat) :
    (opened name startLine endLine).Holds [] [] where
  nodup_declarations := List.nodup_nil
  declaration?_eq _ := rfl
  kept_perm := .refl _
  nodup_usages := List.nodup_nil
  usagesOf_eq _ := rfl
  allUsages_perm := .refl _

variable {f : Format} {ds : List Declaration} {us : List Usage}

theorem Holds.declare (h : f.Holds ds us) (d : Declaration) :
    (f.declare d).Holds (ds ++ [d]) us where
  nodup_declarations := Table.nodup_keys_alter h.nodup_declarations d.name _
  declaration?_eq name := by
    rw [declaration?_declare, h.declaration?_eq, List.filter_append, List.getLast?_append]
    by_cases hname : name = d.name
    · simp [hname]
    · have hne : ¬ d.name = name := fun he => hname he.symm
      simp [hname, hne]
  kept_perm := by
    let kept := (f.declarations.insert d.name d).values
    let before := (f.declaration? d.name).toList
    have hmove : (kept ++ (f.shadowed ++ before)).Perm ((kept ++ before) ++ f.shadowed) := by
      rw [List.append_assoc]
      exact List.perm_append_comm.append_left kept
    have hinsert : ((kept ++ before) ++ f.shadowed).Perm
        ((f.declarations.values ++ [d]) ++ f.shadowed) :=
      (Table.values_insert_perm f.declarations d.name d).append_right f.shadowed
    have hlast : ((f.declarations.values ++ [d]) ++ f.shadowed).Perm
        ((f.declarations.values ++ f.shadowed) ++ [d]) := by
      rw [List.append_assoc, List.append_assoc]
      exact List.perm_append_comm.append_left f.declarations.values
    exact hmove.trans (hinsert.trans (hlast.trans (h.kept_perm.append_right [d])))
  nodup_usages := h.nodup_usages
  usagesOf_eq := h.usagesOf_eq
  allUsages_perm := h.allUsages_perm

theorem Holds.addUsage (h : f.Holds ds us) (u : Usage) :
    (f.addUsage u).Holds ds (us ++ [u]) where
  nodup_declarations := h.nodup_declarations
  declaration?_eq := h.declaration?_eq
  kept_perm := h.kept_perm
  nodup_usages := Table.nodup_keys_alter h.nodup_usages u.name _
  usagesOf_eq name := by
    rw [usagesOf_addUsage, h.usagesOf_eq, List.filter_append]
    by_cases hname : name = u.name
    · simp [hname]
    · have hne : ¬ u.name = name := fun he => hname he.symm
      simp [hname, hne]
  allUsages_perm :=
    (Table.flatten_values_alter_perm f.usages u.name u).trans (h.allUsages_perm.append_right [u])

theorem Holds.foldl_addUsage (h : f.Holds ds us) (more : List Usage) :
    (more.foldl Format.addUsage f).Holds ds (us ++ more) := by
  induction more generalizing f us with
  | nil => rwa [List.append_nil]
  | cons u rest ih =>
    rw [List.foldl_cons, ← List.singleton_append, ← List.append_assoc]
    exact ih (h.addUsage u)

theorem Holds.readRow (h : f.Holds ds us) (row : Row) :
    (f.readRow row).Holds (ds ++ declared [row]) (us ++ used [row]) := by
  have hused : ((usagesIn row).foldl Format.addUsage f).Holds ds (us ++ used [row]) := by
    rw [used, List.flatMap_singleton]
    exact h.foldl_addUsage (usagesIn row)
  unfold Format.readRow
  cases hd : declarationIn? row with
  | none => simpa [declared, hd] using hused
  | some d => simpa [declared, hd] using hused.declare d

/-- A format that reads rows comes to hold all that is declared and used on them. -/
theorem Holds.foldl_readRow (h : f.Holds ds us) (rows : List Row) :
    (rows.foldl Format.readRow f).Holds (ds ++ declared rows) (us ++ used rows) := by
  induction rows generalizing f ds us with
  | nil => simpa [declared, used] using h
  | cons row rest ih =>
    rw [List.foldl_cons, ← List.singleton_append, declared_append, used_append,
      ← List.append_assoc, ← List.append_assoc]
    exact ih (h.readRow row)

section Members

variable (h : f.Holds ds us) {d : Declaration} {u : Usage}
include h

theorem Holds.mem_of_kept (hd : d ∈ f.declarations.values) : d ∈ ds :=
  h.kept_perm.subset (List.mem_append_left f.shadowed hd)

theorem Holds.mem_of_shadowed (hd : d ∈ f.shadowed) : d ∈ ds :=
  h.kept_perm.subset (List.mem_append_right f.declarations.values hd)

theorem Holds.mem_allUsages : u ∈ f.allUsages ↔ u ∈ us := h.allUsages_perm.mem_iff

theorem Holds.name_of_declaration? {name : Name} (hd : f.declaration? name = some d) :
    d.name = name := by
  rw [h.declaration?_eq] at hd
  simpa using (List.mem_filter.1 (List.mem_of_getLast? hd)).2

/-- The kept declarations are those found under their own names. -/
theorem Holds.kept_iff : d ∈ f.declarations.values ↔ f.declaration? d.name = some d := by
  rw [Table.mem_values_iff h.nodup_declarations]
  constructor
  · rintro ⟨name, hname⟩
    have he := h.name_of_declaration? hname
    rwa [he]
  · intro hd
    exact ⟨d.name, hd⟩

end Members

/-- Two formats have the same name and span the same lines. -/
def SameHeading (f g : Format) : Prop :=
  f.name = g.name ∧ f.startLine = g.startLine ∧ f.endLine = g.endLine

theorem sameHeading_foldl_addUsage (f : Format) (us : List Usage) :
    (us.foldl Format.addUsage f).SameHeading f := by
  induction us generalizing f with
  | nil => exact ⟨rfl, rfl, rfl⟩
  | cons u rest ih => exact ih (f.addUsage u)

theorem sameHeading_readRow (f : Format) (row : Row) : (f.readRow row).SameHeading f := by
  unfold Format.readRow
  cases declarationIn? row with
  | none => exact sameHeading_foldl_addUsage f (usagesIn row)
  | some d => exact sameHeading_foldl_addUsage f (usagesIn row)

theorem sameHeading_foldl_readRow (f : Format) (rows : List Row) :
    (rows.foldl Format.readRow f).SameHeading f := by
  induction rows generalizing f with
  | nil => exact ⟨rfl, rfl, rfl⟩
  | cons row rest ih =>
    obtain ⟨hname, hstart, hend⟩ := sameHeading_readRow f row
    obtain ⟨hname', hstart', hend'⟩ := ih (f.readRow row)
    exact ⟨hname'.trans hname, hstart'.trans hstart, hend'.trans hend⟩

/-- Reading does not look at the end of the format. -/
theorem foldl_readRow_withEnd (endLine : Nat) (rows : List Row) (f : Format) :
    rows.foldl readRow { f with endLine := endLine } =
      { rows.foldl readRow f with endLine := endLine } := by
  have hused (us : List Usage) (f : Format) : us.foldl addUsage { f with endLine := endLine } =
      { us.foldl addUsage f with endLine := endLine } := by
    induction us generalizing f with
    | nil => rfl
    | cons u rest ih => exact ih (f.addUsage u)
  induction rows generalizing f with
  | nil => rfl
  | cons row rest ih =>
    have hrow : ({ f with endLine := endLine } : Format).readRow row =
        { f.readRow row with endLine := endLine } := by
      unfold readRow
      rw [hused]
      cases declarationIn? row with
      | none => rfl
      | some d => rfl
    rw [List.foldl_cons, hrow, ih, List.foldl_cons]

end Format

namespace Block

theorem format_holds (b : Block) : b.format.Holds (declared b.rows) (used b.rows) :=
  (Format.holds_opened _ _ _).foldl_readRow b.rows

@[simp] theorem format_startLine (b : Block) : b.format.startLine = b.start :=
  (Format.sameHeading_foldl_readRow _ b.rows).2.1

@[simp] theorem format_endLine (b : Block) : b.format.endLine = b.endLine :=
  (Format.sameHeading_foldl_readRow _ b.rows).2.2

end Block

/-- Of two elements of a list that stands in order, one comes before the other. -/
theorem eq_of_pairwise {α : Type} {R : α → α → Prop} {l : List α} (h : l.Pairwise R) {a b : α}
    (ha : a ∈ l) (hb : b ∈ l) (hab : ¬ R a b) (hba : ¬ R b a) : a = b := by
  induction l with
  | nil => cases ha
  | cons c rest ih =>
    obtain ⟨hc, hrest⟩ := List.pairwise_cons.1 h
    rcases List.mem_cons.1 ha with rfl | har <;> rcases List.mem_cons.1 hb with hbc | hbr
    · exact hbc.symm
    · exact absurd (hc b hbr) hab
    · rw [hbc] at hba
      exact absurd (hc a har) hba
    · exact ih hrest har hbr

/-- The declarations stand on lines of their own, the usages one after the other, and no usage
stands on a field name. -/
structure Arranged (ds : List Declaration) (us : List Usage) : Prop where
  declarations : ds.Pairwise fun d e => d.nameSpan.start.line < e.nameSpan.start.line
  line_of_contains : ∀ d ∈ ds, ∀ p, d.contains p → p.line = d.nameSpan.start.line
  usages : us.Pairwise Usage.EndsBefore
  placed : ∀ u ∈ us, u.Placed
  apart : ∀ d ∈ ds, ∀ u ∈ us, ∀ p, d.nameSpan.contains p → ¬ u.contains p

section Rows

variable {row row' : Row} {d : Declaration} {u v : Usage}

theorem nameSpan_start_line_of_declarationIn? (h : declarationIn? row = some d) :
    d.nameSpan.start.line = row.2 := by
  obtain ⟨raw, -, -, hd⟩ := declarationIn?_eq_some_iff.1 h
  exact nameSpan_start_line_of_declarationOn? hd

theorem line_of_declarationIn?_of_contains (h : declarationIn? row = some d) {p : Position}
    (hp : d.contains p) : p.line = row.2 := by
  obtain ⟨raw, -, -, hd⟩ := declarationIn?_eq_some_iff.1 h
  exact line_of_declarationOn?_of_contains hd hp

theorem exists_ofKeyword_of_mem_usagesIn (h : u ∈ usagesIn row) :
    ∃ column name, u = .ofKeyword row.2 column name := by
  obtain ⟨raw, -, -, hu⟩ := mem_usagesIn.1 h
  obtain ⟨column, name, -, rfl⟩ := mem_usagesOn.1 hu
  exact ⟨column, name, rfl⟩

theorem line_of_mem_usagesIn_of_contains (h : u ∈ usagesIn row) {p : Position}
    (hp : u.target.contains p) : p.line = row.2 := by
  obtain ⟨column, name, rfl⟩ := exists_ofKeyword_of_mem_usagesIn h
  exact (Span.contains_onLine.1 hp).1

theorem endsBefore_of_mem_usagesIn (hu : u ∈ usagesIn row) (hv : v ∈ usagesIn row')
    (hlt : row.2 < row'.2) : u.EndsBefore v := by
  obtain ⟨column, name, rfl⟩ := exists_ofKeyword_of_mem_usagesIn hu
  obtain ⟨column', name', rfl⟩ := exists_ofKeyword_of_mem_usagesIn hv
  exact Position.lt_def.2 (Or.inl hlt)

theorem pairwise_usagesIn (row : Row) : (usagesIn row).Pairwise Usage.EndsBefore := by
  obtain ⟨raw | raw, number⟩ := row
  · exact .nil
  · by_cases hs : isSpecification (normalize raw)
    · simpa only [usagesIn, if_pos hs] using pairwise_usagesOn number raw
    · simpa only [usagesIn, if_neg hs] using List.Pairwise.nil

theorem not_contains_of_declarationIn? (hd : declarationIn? row = some d) (hu : u ∈ usagesIn row)
    {p : Position} (hp : d.nameSpan.contains p) : ¬ u.target.contains p := by
  obtain ⟨raw, hraw, -, hd⟩ := declarationIn?_eq_some_iff.1 hd
  obtain ⟨raw', hraw', -, hu⟩ := mem_usagesIn.1 hu
  obtain rfl : raw = raw' := Option.some.inj (hraw.symm.trans hraw')
  have hle := nameSpan_stop_le_target_start hd hu
  intro hcontains
  rw [Span.contains_iff] at hp hcontains
  exact Position.not_le.2 hp.2 (Position.le_trans hle hcontains.1)

end Rows

theorem arranged_of_increasing {rows : List Row} (h : rows.Pairwise fun r r' => r.2 < r'.2) :
    Arranged (declared rows) (used rows) where
  declarations := by
    rw [declared, List.pairwise_filterMap]
    refine h.imp ?_
    intro row row' hlt d hd e he
    rw [nameSpan_start_line_of_declarationIn? hd, nameSpan_start_line_of_declarationIn? he]
    exact hlt
  line_of_contains d hd p hp := by
    obtain ⟨row, -, hrow⟩ := mem_declared.1 hd
    rw [nameSpan_start_line_of_declarationIn? hrow]
    exact line_of_declarationIn?_of_contains hrow hp
  usages := by
    rw [used, List.pairwise_flatMap]
    refine ⟨fun row _ => pairwise_usagesIn row, h.imp ?_⟩
    intro row row' hlt u hu v hv
    exact endsBefore_of_mem_usagesIn hu hv hlt
  placed u hu := by
    obtain ⟨row, -, hrow⟩ := mem_used.1 hu
    obtain ⟨column, name, he⟩ := exists_ofKeyword_of_mem_usagesIn hrow
    exact ⟨row.2, column, name, he⟩
  apart d hd u hu p hp hcontains := by
    obtain ⟨row, hrow, hd⟩ := mem_declared.1 hd
    obtain ⟨row', hrow', hu⟩ := mem_used.1 hu
    obtain ⟨column, name, rfl⟩ := exists_ofKeyword_of_mem_usagesIn hu
    rw [Usage.Placed.contains_iff ⟨_, _, _, rfl⟩] at hcontains
    have hline : p.line = row.2 :=
      line_of_declarationIn?_of_contains hd (Declaration.contains_of_nameSpan hp)
    have hline' : p.line = row'.2 := line_of_mem_usagesIn_of_contains hu hcontains
    obtain rfl : row = row' := eq_of_pairwise h hrow hrow' (by omega) (by omega)
    exact not_contains_of_declarationIn? hd hu hp hcontains

end DisplayFile
