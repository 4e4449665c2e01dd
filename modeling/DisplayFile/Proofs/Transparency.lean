import DisplayFile.Proofs.Blocks
import DisplayFile.Proofs.Renumbering

/-!
# Markers are transparent

A line is classified, named and taken apart with its markers blanked, but its usages and the columns
of its field name are looked for in the line as it was given. It makes no difference: blanking
leaves no marker to blank, and a text that has neither a blank nor a sign of a marker in it stands
in the line before the blanking exactly where it stands after. So a source with all its markers
blanked has the same index, but for the spans of values, which may hold blanks and signs.
-/

namespace DisplayFile

/-- A marker of `sign` stands at this column. -/
def MarkedAt (sign : Char) (text : Line) (i : Nat) : Prop :=
  text[i]? = some sign ∧ text[i + 1]? = some '|' ∧ text[i + 2]? = some sign

section Blanking

variable {sign other c : Char} {text raw : Line} {i : Nat}

theorem ne_blank_of_isMarkerChar (h : isMarkerChar c) : c ≠ ' ' := by
  rintro rfl
  cases h

theorem getElem?_of_blankMarkers (hsign : isMarkerChar sign)
    (h : (blankMarkers sign text)[i]? = some c) (hc : c ≠ ' ') : text[i]? = some c := by
  rcases getElem?_blankMarkers hsign text i with hkept | ⟨hblank, -⟩
  · rw [← hkept, h]
  · rw [h, Option.some.injEq] at hblank
    exact absurd hblank hc

/-- Blanking the markers of one sign makes no marker. -/
theorem markedAt_of_blankMarkers (hsign : isMarkerChar sign) (hother : isMarkerChar other)
    (h : MarkedAt other (blankMarkers sign text) i) : MarkedAt other text i := by
  have hne := ne_blank_of_isMarkerChar hother
  obtain ⟨hfirst, hbar, hlast⟩ := h
  exact ⟨getElem?_of_blankMarkers hsign hfirst hne,
    getElem?_of_blankMarkers hsign hbar (by decide), getElem?_of_blankMarkers hsign hlast hne⟩

/-- After blanking there is no marker of the sign left. -/
theorem not_markedAt_blankMarkers (hsign : isMarkerChar sign) (text : Line) (i : Nat) :
    ¬ MarkedAt sign (blankMarkers sign text) i := by
  have hne := ne_blank_of_isMarkerChar hsign
  fun_induction blankMarkers sign text generalizing i with
  | case1 a b c rest hmarker ih =>
    -- the three blanks are not the sign, so a marker would stand behind them
    rcases i with _ | _ | _ | i
    · exact fun h => hne (Option.some.inj h.1).symm
    · exact fun h => hne (Option.some.inj h.1).symm
    · exact fun h => hne (Option.some.inj h.1).symm
    · exact ih i
  | case2 a b c rest hmarker ih =>
    cases i with
    | zero =>
      rintro ⟨hfirst, hbar, hlast⟩
      have hb := getElem?_of_blankMarkers hsign (i := 0) hbar (by decide)
      have hc := getElem?_of_blankMarkers hsign (i := 1) hlast hne
      exact hmarker ⟨Option.some.inj hfirst, Option.some.inj hb, Option.some.inj hc⟩
    | succ i => exact ih i
  | case3 text hshort =>
    rintro ⟨-, -, hlast⟩
    rcases text with _ | ⟨a, _ | ⟨b, _ | ⟨c, rest⟩⟩⟩
    · cases hlast
    · cases hlast
    · cases hlast
    · exact hshort a b c rest rfl

theorem blankMarkers_eq_self (h : ∀ i, ¬ MarkedAt sign text i) : blankMarkers sign text = text := by
  fun_induction blankMarkers sign text with
  | case1 a b c rest hmarker ih =>
    obtain ⟨rfl, rfl, rfl⟩ := hmarker
    exact absurd ⟨rfl, rfl, rfl⟩ (h 0)
  | case2 a b c rest hmarker ih => rw [ih fun i => h (i + 1)]
  | case3 text hshort => rfl

theorem not_markedAt_normalize (hsign : sign = '§' ∨ sign = '£') (raw : Line) (i : Nat) :
    ¬ MarkedAt sign (normalize raw) i := by
  rcases hsign with rfl | rfl
  · intro h
    exact not_markedAt_blankMarkers rfl raw i (markedAt_of_blankMarkers rfl rfl h)
  · exact not_markedAt_blankMarkers rfl _ i

@[simp]
theorem normalize_normalize (raw : Line) : normalize (normalize raw) = normalize raw := by
  have hsection := blankMarkers_eq_self (not_markedAt_normalize (Or.inl rfl) raw)
  have hpound := blankMarkers_eq_self (not_markedAt_normalize (Or.inr rfl) raw)
  rw [normalize, hsection, hpound]

end Blanking

/-- Neither the blank that stands for a marker nor a character of one. -/
def isSolid (c : Char) : Bool := c != ' ' && !isMarkerChar c

section Solid

variable {c : Char} {raw pattern : Line} {i k : Nat}

theorem not_isSolid_iff : ¬ isSolid c ↔ c = ' ' ∨ c = '§' ∨ c = '|' ∨ c = '£' := by
  simp only [isSolid, isMarkerChar, Bool.and_eq_true, bne_iff_ne, Bool.not_eq_true',
    Bool.or_eq_false_iff, beq_eq_false_iff_ne]
  tauto

theorem isSolid_of_isFieldChar (h : isFieldChar c) : isSolid c := by
  by_contra hnot
  rcases not_isSolid_iff.1 hnot with rfl | rfl | rfl | rfl
  all_goals exact absurd h (by decide)

theorem isSolid_of_toUpper (h : isSolid c.toUpper) : isSolid c := by
  by_contra hnot
  rcases not_isSolid_iff.1 hnot with rfl | rfl | rfl | rfl
  all_goals exact absurd h (by decide)

theorem getElem?_normalize_eq_some_iff (hc : isSolid c) :
    (normalize raw)[i]? = some c ↔ raw[i]? = some c := by
  constructor
  · intro h
    apply getElem?_of_normalize h
    rintro rfl
    cases hc
  · intro h
    rcases getElem?_normalize raw i with hkept | ⟨-, d, hd, hmarker⟩
    · rw [hkept, h]
    · obtain rfl : c = d := Option.some.inj (h.symm.trans hd)
      simp [isSolid, hmarker] at hc

/-- What has no blank and no sign of a marker in it stands where it stood before the blanking. -/
theorem isPrefix_drop_normalize_iff (h : ∀ c ∈ pattern, isSolid c) :
    pattern <+: (normalize raw).drop k ↔ pattern <+: raw.drop k := by
  simp only [List.prefix_iff_getElem?, List.getElem?_drop]
  refine forall₂_congr ?_
  intro i hi
  exact getElem?_normalize_eq_some_iff (h _ (List.getElem_mem hi))

end Solid

section Searching

variable {α : Type} [DecidableEq α] {pattern text other : List α}

theorem find?_eq_some_iff (hne : pattern ≠ []) {k : Nat} :
    find? pattern text = some k ↔
      pattern <+: text.drop k ∧ ∀ j < k, ¬ pattern <+: text.drop j := by
  constructor
  · intro h
    exact ⟨isPrefix_drop_of_find? h, fun j hj => not_isPrefix_drop_of_lt_find? h hj⟩
  · rintro ⟨hk, hbefore⟩
    obtain ⟨j, hjk, hj⟩ := exists_find?_le hk hne
    rcases Nat.lt_or_eq_of_le hjk with hlt | rfl
    · exact absurd (isPrefix_drop_of_find? hj) (hbefore j hlt)
    · exact hj

theorem find?_congr (hne : pattern ≠ [])
    (h : ∀ k, pattern <+: text.drop k ↔ pattern <+: other.drop k) :
    find? pattern text = find? pattern other := by
  apply Option.ext
  intro k
  simp only [find?_eq_some_iff hne, h]

end Searching

section Usages

variable {text other name raw : Line}

theorem usageName?_eq_some_iff_isPrefix :
    usageName? text = some name ↔ ∃ keyword, keyword ++ name ++ [')'] <+: text ∧
      keyword.map Char.toUpper = usageKeyword ∧ name ≠ [] ∧ ∀ c ∈ name, isWordChar c := by
  rw [usageName?_eq_some_iff]
  constructor
  · rintro ⟨keyword, rest, rfl, h⟩
    exact ⟨keyword, ⟨rest, by simp⟩, h⟩
  · rintro ⟨keyword, ⟨rest, rfl⟩, h⟩
    exact ⟨keyword, rest, by simp, h⟩

theorem isSolid_of_mem_keyword {keyword : Line} (h : keyword.map Char.toUpper = usageKeyword)
    {c : Char} (hc : c ∈ keyword) : isSolid c := by
  have hall : ∀ d ∈ usageKeyword, isSolid d := by
    simp [usageKeyword, isSolid, isMarkerChar]
  apply isSolid_of_toUpper
  apply hall
  rw [← h]
  exact List.mem_map_of_mem hc

theorem usageName?_drop_normalize (raw : Line) (k : Nat) :
    usageName? ((normalize raw).drop k) = usageName? (raw.drop k) := by
  apply Option.ext
  intro name
  rw [usageName?_eq_some_iff_isPrefix, usageName?_eq_some_iff_isPrefix]
  refine exists_congr fun keyword => and_congr_left ?_
  rintro ⟨hkeyword, -, hword⟩
  apply isPrefix_drop_normalize_iff
  intro c hc
  simp only [List.mem_append, List.mem_singleton] at hc
  rcases hc with (hc | hc) | rfl
  · exact isSolid_of_mem_keyword hkeyword hc
  · exact isSolid_of_isFieldChar (isFieldChar_of_isWordChar (hword c hc))
  · rfl

theorem usagesFrom_congr (line column : Nat) (hlength : text.length = other.length)
    (h : ∀ k, usageName? (text.drop k) = usageName? (other.drop k)) :
    usagesFrom line column text = usagesFrom line column other := by
  induction text generalizing column other with
  | nil =>
    rw [List.eq_nil_of_length_eq_zero hlength.symm]
  | cons c rest ih =>
    cases other with
    | nil => cases hlength
    | cons d other =>
      have hfirst : usageName? (c :: rest) = usageName? (d :: other) := h 0
      rw [usagesFrom, usagesFrom, hfirst,
        ih (column + 1) (Nat.succ.inj hlength) fun k => h (k + 1)]

theorem usagesOn_normalize (line : Nat) (raw : Line) :
    usagesOn line (normalize raw) = usagesOn line raw :=
  usagesFrom_congr line 0 (length_normalize raw) (usageName?_drop_normalize raw)

end Usages

/-- The declaration without the place of its value. -/
def Declaration.withoutValue (d : Declaration) : Declaration := { d with valueSpan := none }

theorem declarationOn?_normalize (line : Nat) (raw : Line) :
    (declarationOn? line (normalize raw)).map Declaration.withoutValue =
      (declarationOn? line raw).map Declaration.withoutValue := by
  simp only [declarationOn?, normalize_normalize]
  split
  · cases hread : Clause.read? (normalize raw) with
    | none => rfl
    | some clause =>
      have hshape := Clause.shaped_of_read? hread
      have hfind : find? clause.field (normalize raw) = find? clause.field raw := by
        refine find?_congr hshape.field_ne_nil fun k => isPrefix_drop_normalize_iff ?_
        intro c hc
        exact isSolid_of_isFieldChar (hshape.field_chars c hc)
      simp only [Option.bind_some, Declaration.ofClause?, hfind, Option.map_map]
      rfl
  · rfl

/-- The row with its markers blanked. -/
def normalizeRow (row : Row) : Row := row.map (Option.map normalize) id

theorem usagesIn_normalizeRow (row : Row) : usagesIn (normalizeRow row) = usagesIn row := by
  obtain ⟨raw | raw, number⟩ := row
  · rfl
  · simp only [normalizeRow, Prod.map_apply, Option.map_some, id_eq, usagesIn, normalize_normalize,
      usagesOn_normalize]

theorem declarationIn?_normalizeRow (row : Row) :
    (declarationIn? (normalizeRow row)).map Declaration.withoutValue =
      (declarationIn? row).map Declaration.withoutValue := by
  obtain ⟨raw | raw, number⟩ := row
  · rfl
  · simp only [normalizeRow, Prod.map_apply, Option.map_some, id_eq, declarationIn?,
      normalize_normalize]
    split
    · exact declarationOn?_normalize number raw
    · rfl

namespace Format

/-- The format without the places of the values that it declares; all else is kept. -/
def withoutValues (f : Format) : Format :=
  { f with
    declarations := f.declarations.mapValues Declaration.withoutValue
    shadowed := f.shadowed.map Declaration.withoutValue }

theorem withoutValues_declare (f : Format) (d : Declaration) :
    (f.declare d).withoutValues = f.withoutValues.declare d.withoutValue := by
  have hbefore : (f.withoutValues.declaration? d.name).toList =
      (f.declaration? d.name).toList.map Declaration.withoutValue := by
    rw [declaration?, withoutValues, Table.get?_mapValues, declaration?]
    cases f.declarations.get? d.name with
    | none => rfl
    | some e => rfl
  simp only [declare, withoutValues, Format.mk.injEq, true_and, List.map_append]
  exact ⟨(Table.insert_mapValues _ f.declarations d.name d).symm, congrArg _ hbefore.symm⟩

theorem withoutValues_foldl_addUsage (f : Format) (us : List Usage) :
    (us.foldl addUsage f).withoutValues = us.foldl addUsage f.withoutValues := by
  induction us generalizing f with
  | nil => rfl
  | cons u rest ih => exact ih (f.addUsage u)

theorem withoutValues_readRow (f : Format) (row : Row) :
    (f.readRow row).withoutValues =
      ((declarationIn? row).map Declaration.withoutValue).elim
        ((usagesIn row).foldl addUsage f.withoutValues)
        ((usagesIn row).foldl addUsage f.withoutValues).declare := by
  rw [readRow, ← withoutValues_foldl_addUsage]
  cases declarationIn? row with
  | none => rfl
  | some d => exact withoutValues_declare _ d

theorem withoutValues_foldl_normalizeRow (rows : List Row) {f g : Format}
    (h : f.withoutValues = g.withoutValues) :
    ((rows.map normalizeRow).foldl readRow f).withoutValues =
      (rows.foldl readRow g).withoutValues := by
  induction rows generalizing f g with
  | nil => exact h
  | cons row rest ih =>
    rw [List.map_cons, List.foldl_cons, List.foldl_cons]
    apply ih
    rw [withoutValues_readRow, withoutValues_readRow, usagesIn_normalizeRow,
      declarationIn?_normalizeRow, h]

end Format

theorem opensFormat_map_normalize (line : Option Line) :
    opensFormat (line.map normalize) = opensFormat line := by
  cases line with
  | none => rfl
  | some raw => simp only [opensFormat, Option.map_some, Option.any_some, normalize_normalize]

namespace Block

/-- The block with its markers blanked. -/
def normalized (b : Block) : Block :=
  ⟨b.start, normalize b.header, b.body.map (Option.map normalize)⟩

theorem rows_normalized (b : Block) : b.normalized.rows = b.rows.map normalizeRow := by
  have hlines : b.normalized.lines = b.lines.map (Option.map normalize) := rfl
  rw [rows, hlines]
  exact List.zipIdx_map

theorem format_normalized (b : Block) :
    b.normalized.format.withoutValues = b.format.withoutValues := by
  have hend : b.normalized.endLine = b.endLine := by simp [endLine, normalized]
  rw [format, rows_normalized, hend, format]
  apply Format.withoutValues_foldl_normalizeRow
  simp only [normalized, normalize_normalize]

/-- A row opens a block whether its markers are blanked or not. -/
theorem cut_map_normalizeRow (rows : List Row) :
    preamble (rows.map normalizeRow) = (preamble rows).map (Option.map normalize) ∧
      cut (rows.map normalizeRow) = (cut rows).map normalized := by
  induction rows with
  | nil => exact ⟨rfl, rfl⟩
  | cons row rest ih =>
    obtain ⟨line, number⟩ := row
    rw [List.map_cons, normalizeRow, Prod.map_apply, id_eq]
    by_cases h : opensFormat line
    · obtain ⟨raw, rfl, hheader⟩ := opensFormat_iff.1 h
      have hheader' : isHeader (normalize (normalize raw)) := by rwa [normalize_normalize]
      rw [Option.map_some, preamble_cons_of_isHeader hheader, cut_cons_of_isHeader hheader,
        preamble_cons_of_isHeader hheader', cut_cons_of_isHeader hheader', ih.1, ih.2]
      exact ⟨rfl, rfl⟩
    · have h' : ¬ opensFormat (line.map normalize) := by rwa [opensFormat_map_normalize]
      rw [preamble_cons_of_not_opensFormat h, cut_cons_of_not_opensFormat h,
        preamble_cons_of_not_opensFormat h', cut_cons_of_not_opensFormat h', ih.1, ih.2]
      exact ⟨rfl, rfl⟩

end Block

/-- The source with the markers of all its lines blanked. -/
def Source.normalized (s : Source) : Source := ⟨s.lines.map (Option.map normalize)⟩

/-- A header and a declaration with markers before the specification letter, after it, and in the
value that is declared. -/
def Source.marked : Source := .ofLines <| List.map String.toList [
  "§|§  A          R F",
  "§|§  A£|£FLD 1A ALIAS(V§|§W)",
  "     A  U DSPATR(&FLD)"]

namespace Document

/-- The document without the places of the values that its formats declare; all else is kept. -/
def withoutValues (d : Document) : Document :=
  { d with formats := d.formats.map Format.withoutValues }

/-- A source and the same source with its markers blanked have the same document, but for the places
of values. -/
theorem withoutValues_ofSource_normalized (s : Source) :
    (ofSource s.normalized).withoutValues = (ofSource s).withoutValues := by
  have hrows : s.normalized.rows = s.rows.map normalizeRow :=
    List.zipIdx_map
  have hcount : s.normalized.lineCount = s.lineCount := List.length_map _
  simp only [withoutValues, ofSource, hrows, hcount, (Block.cut_map_normalizeRow s.rows).2,
    List.map_map, Document.mk.injEq, true_and]
  apply List.map_congr_left
  intro b _
  exact b.format_normalized

/-- The declaration is recognised only once the markers before it are blanked. Its value stands in
the line only with the marker in it blanked, so that the place of the value is not kept. -/
theorem withoutValues_ofSource_normalized_marked :
    Source.marked.normalized.lines = [
      some "     A          R F".toList,
      some "     A   FLD 1A ALIAS(V   W)".toList,
      some "     A  U DSPATR(&FLD)".toList] ∧
    (ofSource Source.marked.normalized).withoutValues = (ofSource .marked).withoutValues ∧
    (ofSource .marked).formats.map (fun f => (f.startLine, f.endLine)) = [(0, 2)] ∧
    (ofSource .marked).formats.map (fun f => f.allUsages.map Usage.span) =
      [[⟨⟨2, 18⟩, ⟨2, 21⟩⟩]] ∧
    (ofSource .marked).formats.map (fun f => f.declarations.values) = [[
      { name := "FLD".toList
        nameSpan := ⟨⟨1, 9⟩, ⟨1, 12⟩⟩
        valueSpan := none
        aliasName := some "V   W".toList }]] ∧
    (ofSource Source.marked.normalized).formats.map (fun f => f.declarations.values) = [[
      { name := "FLD".toList
        nameSpan := ⟨⟨1, 9⟩, ⟨1, 12⟩⟩
        valueSpan := some ⟨⟨1, 22⟩, ⟨1, 27⟩⟩
        aliasName := some "V   W".toList }]] := by
  refine ⟨?_, withoutValues_ofSource_normalized .marked, ?_, ?_, ?_, ?_⟩ <;> decide +kernel

end Document

end DisplayFile
