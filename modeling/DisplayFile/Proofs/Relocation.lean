import DisplayFile.Proofs.SpanText

/-!
# Where the parts of a declaration are found again

A declaration is recognised on the line with its markers blanked, but its spans are those at which
the texts of the field name and of the value are found in the line as it was given. Left of the
field name stand blanks, signs of markers and the specification letter, so the name is found where
it was recognised unless it is that letter once more; then the letter itself is found. The value is
looked for behind the name. It is found unless one of its blanks stands for a sign of a marker, and
it is found in its own place unless the same text stands further left.
-/

namespace DisplayFile

/-- Blanking changes none of the columns from `start` up to `stop`: no sign of a blanked marker
stands there. -/
def KeptBetween (raw : Line) (start stop : Nat) : Prop :=
  ∀ i, start ≤ i → i < stop → (normalize raw)[i]? = raw[i]?

instance (raw : Line) (start stop : Nat) : Decidable (KeptBetween raw start stop) :=
  inferInstanceAs (Decidable (∀ i, start ≤ i → i < stop → _))

/-- From `start` on, `text` first stands at `column` of the line. -/
structure FirstFrom (start column : Nat) (text raw : Line) : Prop where
  le : start ≤ column
  stands : text <+: raw.drop column
  first : ∀ k, start ≤ k → k < column → ¬ text <+: raw.drop k

theorem find?_drop_eq_some_iff {text raw : Line} (hne : text ≠ []) {start k : Nat} :
    find? text (raw.drop start) = some k ↔ FirstFrom start (start + k) text raw := by
  rw [find?_eq_some_iff hne]
  simp only [List.drop_drop]
  constructor
  · rintro ⟨hstands, hfirst⟩
    refine ⟨Nat.le_add_right start k, hstands, ?_⟩
    intro column hle hlt
    obtain ⟨j, rfl⟩ := Nat.exists_eq_add_of_le hle
    exact hfirst j (by omega)
  · rintro ⟨-, hstands, hfirst⟩
    exact ⟨hstands, fun j hj => hfirst (start + j) (Nat.le_add_right start j) (by omega)⟩

namespace Clause

variable {c : Clause} {raw : Line} {line : Nat}

/-- The column at which the value stands in the line that the clause was read from. -/
def valueColumn (c : Clause) : Nat :=
  c.column + c.field.length + c.phrase.filler.length + c.phrase.keyword.length

/-- The place of the specification letter. -/
def letterSpan (c : Clause) (line : Nat) : Span :=
  .onLine line c.lead.length (c.lead.length + 1)

/-- The place at which the field name was recognised. -/
def fieldSpan (c : Clause) (line : Nat) : Span :=
  .onLine line c.column (c.column + c.field.length)

/-- The place between the parentheses of the keyword. -/
def valueSpan (c : Clause) (line : Nat) : Span :=
  .onLine line c.valueColumn (c.valueColumn + c.phrase.value.length)

theorem drop_lead (c : Clause) :
    c.text.drop c.lead.length = c.letter :: (c.gap ++ (c.field ++ c.phrase.text)) := by
  simp [text]

theorem drop_column (c : Clause) : c.text.drop c.column = c.field ++ c.phrase.text := by
  have hsplit : c.text = (c.lead ++ c.letter :: c.gap) ++ (c.field ++ c.phrase.text) := by
    simp [text]
  rw [hsplit]
  exact List.drop_left' (by simp [column]; omega)

theorem drop_keyword (c : Clause) :
    c.text.drop (c.column + c.field.length + c.phrase.filler.length) =
      c.phrase.keyword ++ (c.phrase.value ++ ')' :: c.phrase.rest) := by
  rw [Nat.add_assoc, ← List.drop_drop, drop_column, ← List.drop_drop, List.drop_left,
    AliasPhrase.text, List.append_assoc, List.append_assoc, List.drop_left]

theorem drop_valueColumn (c : Clause) :
    c.text.drop c.valueColumn = c.phrase.value ++ ')' :: c.phrase.rest := by
  rw [valueColumn, ← List.drop_drop, drop_keyword, List.drop_left]

theorem letter_isPrefix_drop_text (c : Clause) : [c.letter] <+: c.text.drop c.lead.length := by
  rw [drop_lead]
  exact List.prefix_append [c.letter] _

theorem letterSpan_covers (c : Clause) (line : Nat) :
    (c.letterSpan line).Covers line c.text [c.letter] :=
  Span.covers_of_isPrefix c.letter_isPrefix_drop_text (List.cons_ne_nil _ _)

theorem Shaped.fieldSpan_covers (h : c.Shaped) (line : Nat) :
    (c.fieldSpan line).Covers line c.text c.field := by
  apply Span.covers_of_isPrefix _ h.field_ne_nil
  rw [drop_column]
  exact List.prefix_append _ _

theorem valueSpan_covers (h : c.phrase.WellFormed) (line : Nat) :
    (c.valueSpan line).Covers line c.text c.phrase.value := by
  apply Span.covers_of_isPrefix _ h.value_ne_nil
  rw [drop_valueColumn]
  exact List.prefix_append _ _

/-- Left of the field name the specification letter is the only character that is not a blank. -/
theorem Shaped.eq_letter_of_lt_column (h : c.Shaped) {j : Nat} (hj : j < c.column) {x : Char}
    (hx : c.text[j]? = some x) (hblank : isBlank x = false) : j = c.lead.length ∧ x = c.letter := by
  have hlength : j < (c.lead ++ c.letter :: c.gap).length := by
    unfold column at hj
    rw [List.length_append, List.length_cons]
    omega
  have hcell : (c.lead ++ c.letter :: c.gap)[j]? = some x := by
    rw [← hx, text, List.append_assoc]
    exact (List.getElem?_append_left hlength).symm
  rcases Nat.lt_trichotomy j c.lead.length with hlt | rfl | hlt
  · rw [List.getElem?_append_left hlt] at hcell
    rw [h.lead_blank x (List.mem_of_getElem? hcell)] at hblank
    cases hblank
  · rw [List.getElem?_append_right (Nat.le_refl _), Nat.sub_self, List.getElem?_cons_zero] at hcell
    exact ⟨rfl, (Option.some.inj hcell).symm⟩
  · obtain ⟨i, rfl⟩ := Nat.exists_eq_add_of_lt hlt
    rw [List.getElem?_append_right (by omega), Nat.add_assoc, Nat.add_sub_cancel_left,
      List.getElem?_cons_succ] at hcell
    rw [h.gap_blank x (List.mem_of_getElem? hcell)] at hblank
    cases hblank

theorem Shaped.getElem?_text_of_isPrefix (h : c.Shaped) (htext : c.text = normalize raw)
    {j i : Nat} (hj : c.field <+: raw.drop j) (hi : i < c.field.length) :
    c.text[j + i]? = some c.field[i] ∧ isBlank c.field[i] = false := by
  have hchar := h.field_chars _ (List.getElem_mem hi)
  have hcell := List.prefix_iff_getElem?.1 hj i hi
  rw [List.getElem?_drop] at hcell
  refine ⟨?_, isBlank_eq_false_of_isFieldChar hchar⟩
  rw [htext, getElem?_normalize_eq_some_iff (isSolid_of_isFieldChar hchar)]
  exact hcell

/-- The text of the field name stands left of the field name only if it is the specification
letter, and then only in the place of that letter. -/
theorem Shaped.field_eq_letter_of_lt_column (h : c.Shaped) (htext : c.text = normalize raw)
    {j : Nat} (hj : j < c.column) (hfield : c.field <+: raw.drop j) :
    j = c.lead.length ∧ c.field = [c.letter] := by
  have hpos := List.length_pos_iff.2 h.field_ne_nil
  obtain ⟨hcell, hblank⟩ := h.getElem?_text_of_isPrefix htext hfield hpos
  obtain ⟨rfl, hletter⟩ := h.eq_letter_of_lt_column hj hcell hblank
  refine ⟨rfl, ?_⟩
  have hone : ¬ 1 < c.field.length := by
    -- behind the letter stands the gap, which has at least one blank
    intro hlt
    have hgap := List.length_pos_iff.2 h.gap_ne_nil
    obtain ⟨hcell, hblank⟩ := h.getElem?_text_of_isPrefix htext hfield hlt
    have hletter := (h.eq_letter_of_lt_column (by unfold column; omega) hcell hblank).1
    omega
  obtain ⟨x, hx⟩ := List.length_eq_one_iff.1 (show c.field.length = 1 by omega)
  simp only [hx, List.getElem_cons_zero] at hletter
  rw [hx, hletter]

theorem Shaped.letter_isPrefix_drop (h : c.Shaped) (htext : c.text = normalize raw) :
    [c.letter] <+: raw.drop c.lead.length := by
  have hsolid : isSolid c.letter := by
    apply isSolid_of_toUpper
    rw [h.letter_upper]
    rfl
  have hclean := c.letter_isPrefix_drop_text
  rw [htext] at hclean
  exact (isPrefix_drop_normalize_iff (List.forall_mem_singleton.2 hsolid)).1 hclean

/-- The field name is found where it was recognised, or else the specification letter is found in
its stead. -/
theorem Shaped.find?_field (h : c.Shaped) (htext : c.text = normalize raw) :
    find? c.field raw = some (if c.field = [c.letter] then c.lead.length else c.column) := by
  rw [find?_eq_some_iff h.field_ne_nil]
  split
  · next hletter =>
    refine ⟨hletter ▸ h.letter_isPrefix_drop htext, ?_⟩
    intro j hj hfield
    have hcolumn : j < c.column := by unfold column; omega
    have := (h.field_eq_letter_of_lt_column htext hcolumn hfield).1
    omega
  · next hletter =>
    refine ⟨h.field_isPrefix_drop htext, ?_⟩
    intro j hj hfield
    exact hletter (h.field_eq_letter_of_lt_column htext hj hfield).2

theorem getElem?_text_value (c : Clause) {i : Nat} (hi : i < c.phrase.value.length) :
    c.text[c.valueColumn + i]? = c.phrase.value[i]? := by
  rw [← List.getElem?_drop, drop_valueColumn, List.getElem?_append_left hi]

/-- The value stands in its own place before the markers are blanked, too, exactly if no marker is
blanked in it. -/
theorem value_isPrefix_drop_iff (htext : c.text = normalize raw) :
    c.phrase.value <+: raw.drop c.valueColumn ↔
      KeptBetween raw c.valueColumn (c.valueColumn + c.phrase.value.length) := by
  rw [List.prefix_iff_getElem?]
  constructor
  · intro h i hstart hstop
    obtain ⟨k, rfl⟩ := Nat.exists_eq_add_of_le hstart
    have hk : k < c.phrase.value.length := by omega
    have hcell := h k hk
    rw [List.getElem?_drop] at hcell
    rw [← htext, c.getElem?_text_value hk, hcell, List.getElem?_eq_getElem hk]
  · intro h i hi
    rw [List.getElem?_drop, ← h (c.valueColumn + i) (by omega) (by omega), ← htext,
      c.getElem?_text_value hi, List.getElem?_eq_getElem hi]

/-- The parentheses around the value stand in the line as it was given. -/
theorem Reads.getElem?_parentheses (h : c.Reads (normalize raw)) :
    raw[c.valueColumn - 1]? = some '(' ∧
      raw[c.valueColumn + c.phrase.value.length]? = some ')' := by
  constructor
  · have hlength : c.phrase.keyword.length = 6 := h.phrase_wellFormed.length_keyword
    obtain ⟨x, hx⟩ : ∃ x, c.phrase.keyword[5]? = some x :=
      ⟨_, List.getElem?_eq_getElem (by omega)⟩
    have hupper : x.toUpper = '(' := by
      have hcell := congrArg (fun keyword => keyword[5]?) h.phrase_wellFormed.keyword_upper
      simp only [List.getElem?_map, hx, Option.map_some] at hcell
      exact Option.some.inj hcell
    have hcolumn : c.valueColumn - 1 = c.column + c.field.length + c.phrase.filler.length + 5 := by
      unfold valueColumn
      omega
    apply getElem?_of_normalize _ (by decide)
    rw [← h.text_eq, hcolumn, ← List.getElem?_drop, drop_keyword,
      List.getElem?_append_left (by omega), hx, eq_of_toUpper_eq hupper rfl]
  · apply getElem?_of_normalize _ (by decide)
    rw [← h.text_eq, ← List.getElem?_drop, drop_valueColumn,
      List.getElem?_append_right (Nat.le_refl _), Nat.sub_self, List.getElem?_cons_zero]

end Clause

section Declarations

variable {line : Nat} {raw : Line} {c : Clause} {d : Declaration}

theorem Declaration.nameSpan_of_ofClause? (hc : c.Reads (normalize raw))
    (h : Declaration.ofClause? line raw c = some d) :
    d.nameSpan = if c.field = [c.letter] then c.letterSpan line else c.fieldSpan line := by
  rw [Declaration.ofClause?, hc.find?_field hc.text_eq, Option.map_some] at h
  obtain rfl := Option.some.inj h
  split
  · next hletter => simp only [hletter, Clause.letterSpan, List.length_singleton]
  · rfl

/-- In either place the name ends before the value begins. -/
theorem Declaration.nameSpan_stop_le_valueColumn (hc : c.Reads (normalize raw))
    (h : Declaration.ofClause? line raw c = some d) : d.nameSpan.stop.column ≤ c.valueColumn := by
  rw [nameSpan_of_ofClause? hc h, Clause.valueColumn, Clause.column]
  split
  · change c.lead.length + 1 ≤ _
    omega
  · change c.lead.length + 1 + c.gap.length + c.field.length ≤ _
    omega

/-- The value span is the first place behind the name at which the text of the value stands. -/
theorem Declaration.valueSpan_of_ofClause? (hc : c.Reads (normalize raw))
    (h : Declaration.ofClause? line raw c = some d) {span : Span} :
    d.valueSpan = some span ↔ ∃ k, FirstFrom d.nameSpan.stop.column k c.phrase.value raw ∧
      span = .onLine line k (k + c.phrase.value.length) := by
  have hne := hc.phrase_wellFormed.value_ne_nil
  obtain ⟨column, -, rfl⟩ := Option.map_eq_some_iff.1 h
  rw [Option.map_eq_some_iff]
  constructor
  · rintro ⟨k, hk, rfl⟩
    exact ⟨_, (find?_drop_eq_some_iff hne).1 hk, rfl⟩
  · rintro ⟨k, hfirst, rfl⟩
    obtain ⟨j, rfl⟩ := Nat.exists_eq_add_of_le hfirst.le
    exact ⟨j, (find?_drop_eq_some_iff hne).2 hfirst, rfl⟩

/-- Where no marker is blanked in the value, the search for it succeeds. -/
theorem Declaration.exists_valueSpan_of_kept (hc : c.Reads (normalize raw))
    (h : Declaration.ofClause? line raw c = some d)
    (hkept : KeptBetween raw c.valueColumn (c.valueColumn + c.phrase.value.length)) :
    ∃ span, d.valueSpan = some span := by
  have hne := hc.phrase_wellFormed.value_ne_nil
  obtain ⟨j, hj⟩ := Nat.exists_eq_add_of_le (nameSpan_stop_le_valueColumn hc h)
  have hstands := (Clause.value_isPrefix_drop_iff hc.text_eq).2 hkept
  rw [hj, ← List.drop_drop] at hstands
  obtain ⟨k, -, hk⟩ := exists_find?_le hstands hne
  exact ⟨_, (valueSpan_of_ofClause? hc h).2 ⟨_, (find?_drop_eq_some_iff hne).1 hk, rfl⟩⟩

/-- The value is found in its own place exactly if no marker is blanked in it and its text does not
stand further left behind the name. -/
theorem Declaration.valueSpan_eq_iff (hc : c.Reads (normalize raw))
    (h : Declaration.ofClause? line raw c = some d) :
    d.valueSpan = some (c.valueSpan line) ↔
      KeptBetween raw c.valueColumn (c.valueColumn + c.phrase.value.length) ∧
      ∀ k, d.nameSpan.stop.column ≤ k → k < c.valueColumn → ¬ c.phrase.value <+: raw.drop k := by
  rw [valueSpan_of_ofClause? hc h, ← Clause.value_isPrefix_drop_iff hc.text_eq]
  constructor
  · rintro ⟨k, hfirst, hspan⟩
    obtain rfl : c.valueColumn = k := congrArg (fun span => span.start.column) hspan
    exact ⟨hfirst.stands, hfirst.first⟩
  · rintro ⟨hstands, hfirst⟩
    exact ⟨_, ⟨nameSpan_stop_le_valueColumn hc h, hstands, hfirst⟩, rfl⟩

end Declarations

/-- The declaration stands on this line of the source, which is `raw` as it was given and was taken
apart as `c`. -/
structure Declaration.ReadAs (d : Declaration) (s : Source) (line : Nat) (raw : Line) (c : Clause) :
    Prop where
  start_line : d.nameSpan.start.line = line
  line?_eq : s.line? line = some raw
  read?_eq : Clause.read? (normalize raw) = some c

theorem Declaration.ReadAs.unique {d : Declaration} {s : Source} {line line' : Nat}
    {raw raw' : Line} {c c' : Clause} (h : d.ReadAs s line raw c) (h' : d.ReadAs s line' raw' c') :
    line = line' ∧ raw = raw' ∧ c = c' := by
  obtain rfl : line = line' := h.start_line.symm.trans h'.start_line
  obtain rfl : raw = raw' := Option.some.inj (h.line?_eq.symm.trans h'.line?_eq)
  exact ⟨rfl, rfl, Option.some.inj (h.read?_eq.symm.trans h'.read?_eq)⟩

/-- A field name that is the specification letter once more, and one with blanks, a marker and the
other case of the letter before it. -/
def Source.lettered : Source := .ofLines <| List.map String.toList [
  "     A          R F",
  "     A  A 1A ALIAS(X)",
  " a§|§A 1A ALIAS(Y)"]

/-- How the first of these declarations is taken apart. -/
def Clause.lettered : Clause where
  lead := "     ".toList
  letter := 'A'
  gap := "  ".toList
  field := ['A']
  phrase := ⟨" 1A ".toList, "ALIAS(".toList, ['X'], []⟩

/-- How the second of these declarations is taken apart. -/
def Clause.otherCase : Clause where
  lead := [' ']
  letter := 'a'
  gap := "   ".toList
  field := ['A']
  phrase := ⟨" 1A ".toList, "ALIAS(".toList, ['Y'], []⟩

/-- Two values, of which the first is the text of the data type before it. -/
def Source.repeated : Source := .ofLines <| List.map String.toList [
  "     A          R F",
  "     A  FLD 10A ALIAS(A)",
  "     A  GRP 10B ALIAS(GRP)"]

namespace Document

variable {s : Source} {f : Format} {d : Declaration}

/-- Every declaration of a format was read from its line. -/
theorem exists_readAs (hf : f ∈ (ofSource s).formats)
    (hd : d ∈ f.declarations.values ++ f.shadowed) :
    ∃ line raw c, d.ReadAs s line raw c ∧ Declaration.ofClause? line raw c = some d := by
  obtain ⟨row, hrow, hin⟩ := mem_declared.1 ((holds_of_mem hf).kept_perm.subset hd)
  obtain ⟨raw, hraw, -, hon⟩ := declarationIn?_eq_some_iff.1 hin
  have hline := nameSpan_start_line_of_declarationOn? hon
  rw [declarationOn?_eq_bind] at hon
  obtain ⟨c, hread, hclause⟩ := Option.bind_eq_some_iff.1 hon
  exact ⟨row.2, raw, c, ⟨hline, Source.line?_of_mem_rowsOf hrow hraw, hread⟩, hclause⟩

/-- The name of a declaration is found where it was recognised, unless the field name is the
specification letter once more: then that letter is taken for it. The value is found if no marker is
blanked in it. -/
theorem nameSpan_is_field_or_letter (s : Source) {f : Format} (hf : f ∈ (ofSource s).formats)
    {d : Declaration} (hd : d ∈ f.declarations.values ++ f.shadowed) :
    ∃ line raw c, d.ReadAs s line raw c ∧
      (c.letterSpan line).Covers line (normalize raw) [c.letter] ∧
      (c.fieldSpan line).Covers line (normalize raw) c.field ∧
      (c.valueSpan line).Covers line (normalize raw) c.phrase.value ∧
      (c.field ≠ [c.letter] → d.nameSpan = c.fieldSpan line) ∧
      (c.field = [c.letter] → d.nameSpan = c.letterSpan line) ∧
      (KeptBetween raw c.valueColumn (c.valueColumn + c.phrase.value.length) →
        ∃ span, d.valueSpan = some span) := by
  obtain ⟨line, raw, c, hreadAs, hclause⟩ := exists_readAs hf hd
  have hc := Clause.reads_of_read? hreadAs.read?_eq
  have hname := Declaration.nameSpan_of_ofClause? hc hclause
  refine ⟨line, raw, c, hreadAs, ?_, ?_, ?_, ?_, ?_, ?_⟩
  · exact hc.text_eq ▸ c.letterSpan_covers line
  · exact hc.text_eq ▸ hc.fieldSpan_covers line
  · exact hc.text_eq ▸ Clause.valueSpan_covers hc.phrase_wellFormed line
  · intro hne
    rwa [if_neg hne] at hname
  · intro hletter
    rwa [if_pos hletter] at hname
  · exact Declaration.exists_valueSpan_of_kept hc hclause

theorem nameSpan_is_field_or_letter_lettered :
    ∃ f ∈ (ofSource .lettered).formats,
      (∃ d ∈ f.declarations.values ++ f.shadowed, ∃ raw, d.ReadAs .lettered 1 raw .lettered ∧
        Clause.lettered.field = [Clause.lettered.letter] ∧
        d.nameSpan = Clause.lettered.letterSpan 1 ∧ KeptBetween raw 19 20 ∧
        ∃ span, d.valueSpan = some span) ∧
      ∃ d ∈ f.declarations.values ++ f.shadowed, ∃ raw, d.ReadAs .lettered 2 raw .otherCase ∧
        Clause.otherCase.field ≠ [Clause.otherCase.letter] ∧
        d.nameSpan = Clause.otherCase.fieldSpan 2 := by
  obtain ⟨f, hf, ⟨d, hd, hline⟩, e, he, hline'⟩ : ∃ f ∈ (ofSource .lettered).formats,
      (∃ d ∈ f.declarations.values ++ f.shadowed, d.nameSpan.start.line = 1) ∧
      ∃ d ∈ f.declarations.values ++ f.shadowed, d.nameSpan.start.line = 2 := by decide +kernel
  have hreadAs : d.ReadAs .lettered 1 "     A  A 1A ALIAS(X)".toList .lettered :=
    ⟨hline, rfl, by decide +kernel⟩
  have hreadAs' : e.ReadAs .lettered 2 " a§|§A 1A ALIAS(Y)".toList .otherCase :=
    ⟨hline', rfl, by decide +kernel⟩
  have hkept : KeptBetween "     A  A 1A ALIAS(X)".toList 19 20 := by decide +kernel
  have hne : Clause.otherCase.field ≠ [Clause.otherCase.letter] := by decide
  obtain ⟨_, _, _, hread, -, -, -, -, hname, hvalue⟩ := nameSpan_is_field_or_letter .lettered hf hd
  obtain ⟨rfl, rfl, rfl⟩ := hread.unique hreadAs
  obtain ⟨_, _, _, hread', -, -, -, hname', -⟩ := nameSpan_is_field_or_letter .lettered hf he
  obtain ⟨rfl, rfl, rfl⟩ := hread'.unique hreadAs'
  exact ⟨f, hf, ⟨d, hd, _, hreadAs, rfl, hname rfl, hkept, hvalue hkept⟩,
    ⟨e, he, _, hreadAs', hne, hname' hne⟩⟩

/-- A value span is the first place behind the name at which the text of the value stands. That is
the place between the parentheses of the keyword exactly if no marker is blanked in the value and
its text does not stand further left behind the name. -/
theorem valueSpan_is_value_iff (s : Source) {f : Format} (hf : f ∈ (ofSource s).formats)
    {d : Declaration} (hd : d ∈ f.declarations.values ++ f.shadowed) {span : Span}
    (hspan : d.valueSpan = some span) :
    ∃ line raw c, d.ReadAs s line raw c ∧
      (c.valueSpan line).Covers line (normalize raw) c.phrase.value ∧
      raw[c.valueColumn - 1]? = some '(' ∧
      raw[c.valueColumn + c.phrase.value.length]? = some ')' ∧
      (∃ k, FirstFrom d.nameSpan.stop.column k c.phrase.value raw ∧
        span = .onLine line k (k + c.phrase.value.length)) ∧
      (span = c.valueSpan line ↔
        KeptBetween raw c.valueColumn (c.valueColumn + c.phrase.value.length) ∧
        ∀ k, d.nameSpan.stop.column ≤ k → k < c.valueColumn →
          ¬ c.phrase.value <+: raw.drop k) := by
  obtain ⟨line, raw, c, hreadAs, hclause⟩ := exists_readAs hf hd
  have hc := Clause.reads_of_read? hreadAs.read?_eq
  obtain ⟨hopen, hclose⟩ := hc.getElem?_parentheses
  refine ⟨line, raw, c, hreadAs, ?_, hopen, hclose, ?_, ?_⟩
  · exact hc.text_eq ▸ Clause.valueSpan_covers hc.phrase_wellFormed line
  · exact (Declaration.valueSpan_of_ofClause? hc hclause).1 hspan
  · rw [← Declaration.valueSpan_eq_iff hc hclause, hspan, Option.some.injEq]

theorem valueSpan_is_value_iff_repeated :
    ∃ f ∈ (ofSource .repeated).formats, ∃ d ∈ f.declarations.values ++ f.shadowed,
      d.valueSpan = some (.onLine 2 22 25) ∧ ∃ raw c, d.ReadAs .repeated 2 raw c ∧
        raw[c.valueColumn - 1]? = some '(' ∧
        ∀ k, d.nameSpan.stop.column ≤ k → k < c.valueColumn → ¬ c.phrase.value <+: raw.drop k := by
  obtain ⟨f, hf, d, hd, hline, hvalue⟩ : ∃ f ∈ (ofSource .repeated).formats,
      ∃ d ∈ f.declarations.values ++ f.shadowed, d.nameSpan.start.line = 2 ∧
        d.valueSpan = some (.onLine 2 22 25) := by decide +kernel
  obtain ⟨c, hread, hown⟩ := Option.map_eq_some_iff.1
    (show (Clause.read? (normalize "     A  GRP 10B ALIAS(GRP)".toList)).map (·.valueSpan 2) =
      some (.onLine 2 22 25) by decide +kernel)
  obtain ⟨_, raw, _, hreadAs, -, hopen, -, -, hiff⟩ :=
    valueSpan_is_value_iff .repeated hf hd hvalue
  obtain ⟨rfl, -, rfl⟩ := hreadAs.unique ⟨hline, rfl, hread⟩
  exact ⟨f, hf, d, hd, hvalue, raw, _, hreadAs, hopen, (hiff.1 hown.symm).2⟩

/-- The data type `10A` before the keyword hides the value `A` from the search. -/
theorem valueSpan_ne_value_repeated :
    ∃ f ∈ (ofSource .repeated).formats, ∃ d ∈ f.declarations.values,
      d.valueSpan = some (.onLine 1 14 15) ∧ ∃ raw c, d.ReadAs .repeated 1 raw c ∧
        c.valueSpan 1 = .onLine 1 22 23 ∧ raw[13]? = some '0' ∧ raw[15]? = some ' ' := by
  obtain ⟨f, hf, d, hd, hline, hvalue⟩ : ∃ f ∈ (ofSource .repeated).formats,
      ∃ d ∈ f.declarations.values, d.nameSpan.start.line = 1 ∧
        d.valueSpan = some (.onLine 1 14 15) := by decide +kernel
  obtain ⟨c, hread, hown⟩ := Option.map_eq_some_iff.1
    (show (Clause.read? (normalize "     A  FLD 10A ALIAS(A)".toList)).map (·.valueSpan 1) =
      some (.onLine 1 22 23) by decide +kernel)
  exact ⟨f, hf, d, hd, hvalue, _, c, ⟨hline, rfl, hread⟩, hown, rfl, rfl⟩

end Document

end DisplayFile
