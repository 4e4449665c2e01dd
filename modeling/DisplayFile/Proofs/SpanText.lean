import DisplayFile.Proofs.Grammar
import DisplayFile.Proofs.References

/-!
# The text that a span covers

Every span that is recorded covers text of a single line: the name of a declaration or of a usage in
the case in which it was written, the value of an alias with the blanks around it, the ampersand
before a name. Columns count the characters of the line as it was given, although a declaration is
recognised with the markers blanked. All spans that a position leads to lie in its own format.
-/

namespace DisplayFile

/-- The span covers columns of this line, and `text` is what stands in them. -/
def Span.Covers (span : Span) (line : Nat) (raw text : Line) : Prop :=
  ∃ start stop, span = .onLine line start stop ∧ start < stop ∧ stop ≤ raw.length ∧
    (raw.drop start).take (stop - start) = text

theorem Span.covers_of_isPrefix {line start : Nat} {raw text : Line} (h : text <+: raw.drop start)
    (hne : text ≠ []) : (Span.onLine line start (start + text.length)).Covers line raw text := by
  have hle := h.length_le
  have hpos := List.length_pos_iff.2 hne
  rw [List.length_drop] at hle
  refine ⟨start, _, rfl, by omega, by omega, ?_⟩
  rw [Nat.add_sub_cancel_left]
  exact (List.prefix_iff_eq_take.1 h).symm

/-- The spans of the declaration cover its name and, behind that, its value. -/
structure Declaration.StandsOn (d : Declaration) (line : Nat) (raw : Line) : Prop where
  name : ∃ field, d.nameSpan.Covers line raw field ∧ d.name = capitals field
  value : ∀ span ∈ d.valueSpan, d.nameSpan.stop ≤ span.start ∧
    ∃ value, span.Covers line raw value ∧
      d.aliasName = if ∀ x ∈ value, isBlank x then none else some (capitals (trimBlanks value))

/-- The spans of the usage cover its name, one of them with the ampersand to the left of it. -/
structure Usage.StandsOn (u : Usage) (line : Nat) (raw : Line) : Prop where
  name : ∃ name, u.span.Covers line raw name ∧ u.name = capitals name ∧
    u.target.Covers line raw ('&' :: name)
  target_start : u.target.start.column + 1 = u.span.start.column
  target_stop : u.target.stop = u.span.stop

section Rows

variable {line : Nat} {raw : Line}

theorem Declaration.standsOn_of_declarationOn? {d : Declaration}
    (h : declarationOn? line raw = some d) : d.StandsOn line raw := by
  rw [declarationOn?_eq_bind] at h
  obtain ⟨c, hread, hd⟩ := Option.bind_eq_some_iff.1 h
  obtain ⟨column, hcolumn, rfl⟩ := Option.map_eq_some_iff.1 hd
  have hc := Clause.reads_of_read? hread
  refine ⟨⟨c.field, ?_, rfl⟩, ?_⟩
  · exact Span.covers_of_isPrefix (isPrefix_drop_of_find? hcolumn) hc.field_ne_nil
  · intro span hspan
    obtain ⟨k, hk, rfl⟩ := Option.map_eq_some_iff.1 hspan
    have hvalue := isPrefix_drop_of_find? hk
    rw [List.drop_drop] at hvalue
    refine ⟨Position.le_def.2 (Or.inr ⟨rfl, Nat.le_add_right _ k⟩), c.phrase.value, ?_, ?_⟩
    · exact Span.covers_of_isPrefix hvalue hc.phrase_wellFormed.value_ne_nil
    · simp only [trimBlanks_eq_nil_iff]

theorem Usage.standsOn_of_mem_usagesOn {u : Usage} (h : u ∈ usagesOn line raw) :
    u.StandsOn line raw := by
  obtain ⟨k, name, husage, rfl⟩ := mem_usagesOn.1 h
  have hampersand := getElem?_ampersand_of_usageName? husage
  obtain ⟨keyword, rest, htext, hkeyword, hname, -⟩ := usageName?_eq_some_iff.1 husage
  have hlength := length_of_map_toUpper_eq hkeyword
  have hbehind : raw.drop (k + 8) = name ++ ')' :: rest := by
    rw [← List.drop_drop, htext, ← hlength, List.drop_left]
  have hbefore : raw.drop (k + 7) = '&' :: raw.drop (k + 8) := by
    rw [List.getElem?_drop] at hampersand
    obtain ⟨hlt, hcell⟩ := List.getElem?_eq_some_iff.1 hampersand
    rw [List.drop_eq_getElem_cons hlt, hcell]
  refine ⟨⟨name, ?_, rfl, ?_⟩, rfl, rfl⟩
  · apply Span.covers_of_isPrefix _ hname
    rw [hbehind]
    exact List.prefix_append _ _
  · have hcovers : (Span.onLine line (k + 7) (k + 7 + ('&' :: name).length)).Covers line raw
        ('&' :: name) := by
      apply Span.covers_of_isPrefix _ (List.cons_ne_nil _ _)
      rw [hbefore, hbehind]
      exact List.prefix_append ('&' :: name) _
    rw [List.length_cons, Nat.add_comm name.length, ← Nat.add_assoc] at hcovers
    exact hcovers

end Rows

namespace Source

variable {s : Source} {f : Format}

theorem standsOn_of_declared {d : Declaration} (hd : d ∈ declared (s.rowsOf f)) :
    ∃ line raw, f.containsLine line ∧ s.line? line = some raw ∧ d.StandsOn line raw := by
  obtain ⟨row, hrow, hin⟩ := mem_declared.1 hd
  obtain ⟨raw, hraw, -, hon⟩ := declarationIn?_eq_some_iff.1 hin
  exact ⟨row.2, raw, (mem_rowsOf.1 hrow).2, line?_of_mem_rowsOf hrow hraw,
    Declaration.standsOn_of_declarationOn? hon⟩

theorem standsOn_of_used {u : Usage} (hu : u ∈ used (s.rowsOf f)) :
    ∃ line raw, f.containsLine line ∧ s.line? line = some raw ∧ u.StandsOn line raw := by
  obtain ⟨row, hrow, hin⟩ := mem_used.1 hu
  obtain ⟨raw, hraw, -, hon⟩ := mem_usagesIn.1 hin
  exact ⟨row.2, raw, (mem_rowsOf.1 hrow).2, line?_of_mem_rowsOf hrow hraw,
    Usage.standsOn_of_mem_usagesOn hon⟩

/-- A declaration with two markers, wide characters and blanks around its value, and a usage of it
on the same line. -/
def wide : Source := .ofLines <| List.map String.toList [
  "     A          R F",
  "§|§  A  Fld ä£|£ ALIAS( ö ) DSPATR(&fLD)"]

end Source

namespace Document

variable {s : Source} {f : Format} {d : Declaration} {p : Position} {span : Span} {b : Bool}

theorem formatAt?_of_occurrenceAt? {document : Document} {o : Occurrence}
    (h : document.occurrenceAt? p = some (f, o)) : document.formatAt? p.line = some f := by
  obtain ⟨g, hg, hat⟩ := Option.bind_eq_some_iff.1 h
  obtain ⟨o', -, he⟩ := Option.map_eq_some_iff.1 hat
  obtain rfl : g = f := (Prod.mk.inj he).1
  exact hg

theorem mem_referencesTo (hf : f ∈ (ofSource s).formats) (hd : d ∈ f.declarations.values)
    (h : span ∈ f.referencesTo d b) : span = d.nameSpan ∨ ∃ u ∈ f.allUsages, span = u.target := by
  rcases List.mem_append.1 h with hname | htarget
  · cases b with
    | false => cases hname
    | true => exact Or.inl (List.mem_singleton.1 hname)
  · obtain ⟨u, hu, rfl⟩ := List.mem_map.1 htarget
    exact Or.inr ⟨u, ((mem_usagesFor hf hd).1 hu).1, rfl⟩

/-- The references of a position are names and usages in the format of the position. -/
theorem mem_references_cases (h : span ∈ (ofSource s).references p b) :
    ∃ f ∈ (ofSource s).formats, (ofSource s).formatAt? p.line = some f ∧
      ((∃ d ∈ f.declarations.values, span = d.nameSpan) ∨ ∃ u ∈ f.allUsages, span = u.target) := by
  rcases occurrenceAt?_cases s p with hat | ⟨f, hf, d, hd, hat⟩ | ⟨f, hf, u, hu, hat⟩
  · rw [references_eq_occurrenceAt?, hat] at h
    cases h
  · rw [references_of_occurrenceAt? hat] at h
    refine ⟨f, hf, formatAt?_of_occurrenceAt? hat, ?_⟩
    exact (mem_referencesTo hf hd h).imp_left fun he => ⟨d, hd, he⟩
  · rw [references_of_occurrenceAt? hat] at h
    refine ⟨f, hf, formatAt?_of_occurrenceAt? hat, ?_⟩
    cases howner : f.declarationFor? u.name with
    | some d =>
      have hd := ((holds_of_mem hf).kept_of_declarationFor? howner).1
      rw [Format.references_of_resolving howner] at h
      exact (mem_referencesTo hf hd h).imp_left fun he => ⟨d, hd, he⟩
    | none =>
      rw [Format.references_of_undeclared howner, usagesOf_eq_filter_sorted hf] at h
      obtain ⟨v, hv, rfl⟩ := List.mem_map.1 h
      have hmem := (sortByStart_perm f.allUsages).subset (List.mem_filter.1 hv).1
      exact Or.inr ⟨v, hmem, rfl⟩

/-- What a position leads to is among its references. -/
theorem mem_references_of_resolve? {r : Resolution} (h : (ofSource s).resolve? p = some r)
    (hspan : span ∈ r.spans) : span ∈ (ofSource s).references p true := by
  cases r with
  | declaration name =>
    obtain rfl := List.mem_singleton.1 hspan
    rw [(references_of_resolve?_declaration h).1]
    exact List.mem_cons_self
  | usages targets =>
    obtain ⟨-, f, d, -, hall⟩ := references_of_resolve?_usages h
    rw [hall]
    exact List.mem_cons_of_mem _ hspan

theorem covers_of_mem_references (h : span ∈ (ofSource s).references p b) :
    ∃ f, (ofSource s).formatAt? p.line = some f ∧
      ∃ line raw text, f.containsLine line ∧ s.line? line = some raw ∧
        span.Covers line raw text := by
  obtain ⟨f, hf, hat, hcases⟩ := mem_references_cases h
  have hholds := holds_of_mem hf
  refine ⟨f, hat, ?_⟩
  rcases hcases with ⟨d, hd, rfl⟩ | ⟨u, hu, rfl⟩
  · obtain ⟨line, raw, hline, hraw, hstands⟩ := Source.standsOn_of_declared (hholds.mem_of_kept hd)
    obtain ⟨field, hcovers, -⟩ := hstands.name
    exact ⟨line, raw, field, hline, hraw, hcovers⟩
  · obtain ⟨line, raw, hline, hraw, hstands⟩ :=
      Source.standsOn_of_used (hholds.mem_allUsages.1 hu)
    obtain ⟨name, -, -, hcovers⟩ := hstands.name
    exact ⟨line, raw, '&' :: name, hline, hraw, hcovers⟩

/-- All spans of the declarations and usages of a format cover the text that they stand for, on
lines of the format that can be read. So what a position leads to, and all its references, are text
in the format that contains the position. -/
theorem spans_cover_text (s : Source) :
    (∀ f ∈ (ofSource s).formats,
      (∀ d ∈ f.declarations.values ++ f.shadowed, ∃ line raw, f.containsLine line ∧
        s.line? line = some raw ∧ d.StandsOn line raw) ∧
      ∀ u ∈ f.allUsages, ∃ line raw, f.containsLine line ∧
        s.line? line = some raw ∧ u.StandsOn line raw) ∧
    ∀ p span, ((∃ r, (ofSource s).resolve? p = some r ∧ span ∈ r.spans) ∨
        ∃ b, span ∈ (ofSource s).references p b) →
      ∃ f, (ofSource s).formatAt? p.line = some f ∧
        ∃ line raw text, f.containsLine line ∧ s.line? line = some raw ∧
          span.Covers line raw text := by
  refine ⟨fun f hf => ⟨?_, ?_⟩, ?_⟩
  · intro d hd
    exact Source.standsOn_of_declared ((holds_of_mem hf).kept_perm.subset hd)
  · intro u hu
    exact Source.standsOn_of_used ((holds_of_mem hf).mem_allUsages.1 hu)
  · rintro p span (⟨r, hr, hspan⟩ | ⟨b, hspan⟩)
    · exact covers_of_mem_references (mem_references_of_resolve? hr hspan)
    · exact covers_of_mem_references hspan

theorem spans_cover_text_wide :
    ∃ f ∈ (ofSource .wide).formats,
      (∃ d ∈ f.declarations.values ++ f.shadowed, d.nameSpan = .onLine 1 8 11 ∧
        d.valueSpan = some (.onLine 1 23 26) ∧ d.aliasName = some ['Ö'] ∧
        ∃ line raw, Source.wide.line? line = some raw ∧ d.StandsOn line raw) ∧
      (∃ u ∈ f.allUsages, u.target = .onLine 1 35 39 ∧
        ∃ line raw, Source.wide.line? line = some raw ∧ u.StandsOn line raw) ∧
      ∃ g, (ofSource .wide).formatAt? 1 = some g ∧ ∃ line raw text, g.containsLine line ∧
        Source.wide.line? line = some raw ∧ (Span.onLine 1 8 11).Covers line raw text := by
  obtain ⟨hrecorded, hled⟩ := spans_cover_text .wide
  obtain ⟨f, hf, ⟨d, hd, hname, hvalue, halias⟩, u, hu, htarget⟩ :
      ∃ f ∈ (ofSource .wide).formats,
        (∃ d ∈ f.declarations.values ++ f.shadowed, d.nameSpan = .onLine 1 8 11 ∧
          d.valueSpan = some (.onLine 1 23 26) ∧ d.aliasName = some ['Ö']) ∧
        ∃ u ∈ f.allUsages, u.target = .onLine 1 35 39 := by decide +kernel
  obtain ⟨line, raw, -, hraw, hstands⟩ := (hrecorded f hf).1 d hd
  obtain ⟨line', raw', -, hraw', hstands'⟩ := (hrecorded f hf).2 u hu
  refine ⟨f, hf, ⟨d, hd, hname, hvalue, halias, line, raw, hraw, hstands⟩,
    ⟨u, hu, htarget, line', raw', hraw', hstands'⟩, ?_⟩
  exact hled ⟨1, 36⟩ (.onLine 1 8 11) (Or.inr ⟨true, by decide +kernel⟩)

end Document

end DisplayFile
