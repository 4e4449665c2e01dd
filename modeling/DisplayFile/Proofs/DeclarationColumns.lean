import DisplayFile.Declaration
import DisplayFile.Proofs.UsageColumns

/-!
# The columns of a declaration

Blanking the markers of a line changes only cells of markers, so the field name of a declaration
stands in the line as it was given at the very column at which it was recognised. It may be found
further left, but never past that column, and to the left of that column there is no `D`. Hence all
usages on the line come after the field name.
-/

namespace DisplayFile

/-- The characters that markers are made of. -/
def isMarkerChar (c : Char) : Bool := c == '§' || c == '|' || c == '£'

theorem getElem?_blankMarkers {sign : Char} (hsign : isMarkerChar sign) (text : Line) (i : Nat) :
    (blankMarkers sign text)[i]? = text[i]? ∨
      (blankMarkers sign text)[i]? = some ' ' ∧ ∃ c, text[i]? = some c ∧ isMarkerChar c := by
  fun_induction blankMarkers sign text generalizing i with
  | case1 a b c rest hmarker ih =>
    obtain ⟨rfl, rfl, rfl⟩ := hmarker
    rcases i with _ | _ | _ | i
    · exact Or.inr ⟨rfl, _, rfl, hsign⟩
    · exact Or.inr ⟨rfl, _, rfl, rfl⟩
    · exact Or.inr ⟨rfl, _, rfl, hsign⟩
    · exact ih i
  | case2 a b c rest hmarker ih =>
    cases i with
    | zero => exact Or.inl rfl
    | succ i => exact ih i
  | case3 text => exact Or.inl rfl

theorem getElem?_normalize (raw : Line) (i : Nat) :
    (normalize raw)[i]? = raw[i]? ∨
      (normalize raw)[i]? = some ' ' ∧ ∃ c, raw[i]? = some c ∧ isMarkerChar c := by
  unfold normalize
  have hpound := getElem?_blankMarkers (show isMarkerChar '£' from rfl) (blankMarkers '§' raw) i
  have hsection := getElem?_blankMarkers (show isMarkerChar '§' from rfl) raw i
  rcases hsection with hkept | ⟨hblank, hmarker⟩
  · rwa [hkept] at hpound
  · rw [hblank] at hpound
    rcases hpound with hpound | ⟨hpound, -⟩
    · exact Or.inr ⟨hpound, hmarker⟩
    · exact Or.inr ⟨hpound, hmarker⟩

theorem getElem?_of_normalize {raw : Line} {i : Nat} {c : Char}
    (h : (normalize raw)[i]? = some c) (hc : c ≠ ' ') : raw[i]? = some c := by
  rcases getElem?_normalize raw i with hkept | ⟨hblank, -⟩
  · rw [← hkept, h]
  · rw [h, Option.some.injEq] at hblank
    exact absurd hblank hc

section Search

variable {α : Type} [DecidableEq α] {pattern text : List α}

/-- The first occurrence is no further right than any other. -/
theorem exists_find?_le {k : Nat} (h : pattern <+: text.drop k) (hne : pattern ≠ []) :
    ∃ j ≤ k, find? pattern text = some j := by
  induction text generalizing k with
  | nil =>
    rw [List.drop_nil, List.prefix_nil] at h
    exact absurd h hne
  | cons c rest ih =>
    by_cases hc : pattern <+: c :: rest
    · exact ⟨0, Nat.zero_le k, by simp [find?, hc]⟩
    · cases k with
      | zero => exact absurd h hc
      | succ k =>
        obtain ⟨j, hjk, hj⟩ := ih h
        exact ⟨j + 1, by omega, by simp [find?, hc, hj]⟩

theorem getElem?_of_find? {j i : Nat} (h : find? pattern text = some j) (hi : i < pattern.length) :
    text[j + i]? = pattern[i]? := by
  obtain ⟨rest, hrest⟩ := isPrefix_drop_of_find? h
  rw [← List.getElem?_drop, ← hrest, List.getElem?_append_left hi]

end Search

namespace Clause

/-- The parts of a clause up to its field name are what they are meant to be. -/
structure Shaped (c : Clause) : Prop where
  lead_blank : ∀ x ∈ c.lead, isBlank x
  letter_upper : c.letter.toUpper = 'A'
  gap_ne_nil : c.gap ≠ []
  gap_blank : ∀ x ∈ c.gap, isBlank x
  field_ne_nil : c.field ≠ []
  field_chars : ∀ x ∈ c.field, isFieldChar x

/-- The column at which the field name stands in the line that the clause was read from. -/
def column (c : Clause) : Nat := c.lead.length + 1 + c.gap.length

end Clause

theorem FieldSplit.field_chars {text field : Line} {phrase : AliasPhrase}
    (h : (ofText text).field = some (field, phrase)) :
    field ≠ [] ∧ ∀ x ∈ field, isFieldChar x := by
  induction text generalizing field with
  | nil => simp [ofText] at h
  | cons c rest ih =>
    rw [ofText] at h
    split at h
    · next hc =>
      dsimp only at h
      split at h
      · next name p hp =>
        obtain ⟨rfl, rfl⟩ : c :: name = field ∧ p = phrase := by simpa using h
        exact ⟨List.cons_ne_nil c name, List.forall_mem_cons.2 ⟨hc, (ih hp).2⟩⟩
      · split at h
        · obtain ⟨p, -, he⟩ := Option.map_eq_some_iff.1 h
          obtain ⟨rfl, rfl⟩ : [c] = field ∧ p = phrase := by simpa using he
          exact ⟨List.cons_ne_nil c [], List.forall_mem_singleton.2 hc⟩
        · simp at h
    · simp at h

namespace Clause

variable {clean raw : Line} {c : Clause}

theorem shaped_of_read? (h : read? clean = some c) : c.Shaped := by
  simp only [read?] at h
  split at h
  · simp at h
  · next letter rest hrest =>
    split at h
    · next hletter =>
      obtain ⟨⟨field, phrase⟩, hsplit, rfl⟩ := Option.map_eq_some_iff.1 h
      obtain ⟨hne, hchars⟩ := FieldSplit.field_chars hsplit
      exact ⟨List.all_eq_true.1 List.all_takeWhile, hletter.1, hletter.2,
        List.all_eq_true.1 List.all_takeWhile, hne, hchars⟩
    · simp at h

theorem getElem?_text_field (c : Clause) {i : Nat} (hi : i < c.field.length) :
    c.text[c.column + i]? = c.field[i]? := by
  simp only [text, column, List.append_assoc, List.cons_append]
  rw [List.getElem?_append_right (by omega)]
  rw [show c.lead.length + 1 + c.gap.length + i - c.lead.length = c.gap.length + i + 1 by omega]
  rw [List.getElem?_cons_succ, List.getElem?_append_right (by omega)]
  rw [Nat.add_sub_cancel_left, List.getElem?_append_left hi]

/-- To the left of the field name stand blanks and the specification letter. -/
theorem getElem?_before_of_read? (h : read? clean = some c) {i : Nat} (hi : i < c.column) {x : Char}
    (hx : clean[i]? = some x) : isBlank x ∨ x.toUpper = 'A' := by
  have hshape := shaped_of_read? h
  have hmem : x ∈ c.lead ++ c.letter :: c.gap := by
    have hsplit : clean = (c.lead ++ c.letter :: c.gap) ++ (c.field ++ c.phrase.text) := by
      rw [← text_of_read? h]
      simp [text]
    rw [hsplit, List.getElem?_append_left (by simp [column] at hi ⊢; omega)] at hx
    exact List.mem_of_getElem? hx
  simp only [List.mem_append, List.mem_cons] at hmem
  rcases hmem with hlead | rfl | hgap
  · exact Or.inl (hshape.lead_blank x hlead)
  · exact Or.inr hshape.letter_upper
  · exact Or.inl (hshape.gap_blank x hgap)

/-- The field name stands at its column before the markers are blanked, too. -/
theorem Shaped.field_isPrefix_drop (h : c.Shaped) (htext : c.text = normalize raw) :
    c.field <+: raw.drop c.column := by
  rw [List.prefix_iff_getElem?]
  intro i hi
  have hfield := c.getElem?_text_field hi
  rw [htext, List.getElem?_eq_getElem hi] at hfield
  rw [List.getElem?_drop]
  apply getElem?_of_normalize hfield
  intro hblank
  have hchar := h.field_chars _ (List.getElem_mem hi)
  rw [hblank] at hchar
  exact absurd hchar (by decide)

end Clause

theorem isAlpha_eq_false_of_isBlank {c : Char} (h : isBlank c) : c.isAlpha = false := by
  simp only [isBlank, Bool.or_eq_true, Bool.and_eq_true, decide_eq_true_eq, beq_iff_eq] at h
  simp [Char.isAlpha, Char.isUpper, Char.isLower, UInt32.le_iff_toNat_le]
  omega

theorem isAlpha_eq_false_of_isMarkerChar {c : Char} (h : isMarkerChar c) : c.isAlpha = false := by
  simp only [isMarkerChar, Bool.or_eq_true, beq_iff_eq] at h
  rcases h with (rfl | rfl) | rfl <;> rfl

theorem toUpper_ne_d_of_isAlpha_eq_false {c : Char} (h : c.isAlpha = false) : c.toUpper ≠ 'D' := by
  intro hd
  rw [← Char.isAlpha_toUpper_eq_isAlpha, hd] at h
  cases h

theorem Clause.toUpper_ne_d_before {raw : Line} {c : Clause} (h : read? (normalize raw) = some c)
    {i : Nat} (hi : i < c.column) {x : Char} (hx : raw[i]? = some x) : x.toUpper ≠ 'D' := by
  rcases getElem?_normalize raw i with hkept | ⟨-, y, hy, hmarker⟩
  · rcases getElem?_before_of_read? h hi (hkept.trans hx) with hblank | hletter
    · exact toUpper_ne_d_of_isAlpha_eq_false (isAlpha_eq_false_of_isBlank hblank)
    · rw [hletter]
      decide
  · obtain rfl : x = y := Option.some.inj (hx.symm.trans hy)
    exact toUpper_ne_d_of_isAlpha_eq_false (isAlpha_eq_false_of_isMarkerChar hmarker)

theorem Declaration.contains_of_nameSpan {d : Declaration} {p : Position}
    (h : d.nameSpan.contains p) : d.contains p := by
  simp [Declaration.contains, h]

section Declarations

variable {line : Nat} {raw : Line} {d : Declaration}

theorem exists_clause_of_declarationOn? (h : declarationOn? line raw = some d) :
    ∃ clause column, Clause.read? (normalize raw) = some clause ∧
      find? clause.field raw = some column ∧
      d.nameSpan = .onLine line column (column + clause.field.length) ∧
      ∀ span ∈ d.valueSpan, ∃ start stop, span = .onLine line start stop := by
  simp only [declarationOn?] at h
  split at h
  · obtain ⟨clause, hclause, hd⟩ := Option.bind_eq_some_iff.1 h
    obtain ⟨column, hcolumn, rfl⟩ := Option.map_eq_some_iff.1 hd
    refine ⟨clause, column, hclause, hcolumn, rfl, ?_⟩
    intro span hspan
    obtain ⟨k, -, rfl⟩ := Option.map_eq_some_iff.1 hspan
    exact ⟨_, _, rfl⟩
  · cases h

theorem nameSpan_start_line_of_declarationOn? (h : declarationOn? line raw = some d) :
    d.nameSpan.start.line = line := by
  obtain ⟨clause, column, -, -, hname, -⟩ := exists_clause_of_declarationOn? h
  rw [hname, Span.onLine]

theorem nameSpan_contains_start_of_declarationOn? (h : declarationOn? line raw = some d) :
    d.nameSpan.contains d.nameSpan.start := by
  obtain ⟨clause, column, hclause, -, hname, -⟩ := exists_clause_of_declarationOn? h
  have hfield := List.length_pos_iff.2 (Clause.shaped_of_read? hclause).field_ne_nil
  rw [hname, Span.contains_onLine]
  exact ⟨rfl, Nat.le_refl column, Nat.lt_add_of_pos_right hfield⟩

theorem line_of_declarationOn?_of_contains (h : declarationOn? line raw = some d) {p : Position}
    (hp : d.contains p) : p.line = line := by
  obtain ⟨clause, column, -, -, hname, hvalue⟩ := exists_clause_of_declarationOn? h
  rw [Declaration.contains, Bool.or_eq_true, Option.any_eq_true] at hp
  rcases hp with hp | ⟨span, hspan, hp⟩
  · rw [hname, Span.contains_onLine] at hp
    exact hp.1
  · obtain ⟨start, stop, rfl⟩ := hvalue span hspan
    exact (Span.contains_onLine.1 hp).1

/-- The field name of a declaration has ended where a usage on the same line begins. -/
theorem nameSpan_stop_le_target_start (hd : declarationOn? line raw = some d) {u : Usage}
    (hu : u ∈ usagesOn line raw) : d.nameSpan.stop ≤ u.target.start := by
  obtain ⟨clause, column, hclause, hcolumn, hname, -⟩ := exists_clause_of_declarationOn? hd
  obtain ⟨k, name, husage, rfl⟩ := mem_usagesOn.1 hu
  have hshape := Clause.shaped_of_read? hclause
  rw [hname]
  refine Position.le_def.2 (Or.inr ⟨rfl, ?_⟩)
  change column + clause.field.length ≤ k + 7
  by_cases hleft : k + 7 < column
  · -- then the keyword would start left of the column at which the field name was recognised
    have hfield := hshape.field_isPrefix_drop (Clause.text_of_read? hclause)
    obtain ⟨j, hjcolumn, hj⟩ := exists_find?_le hfield hshape.field_ne_nil
    obtain rfl : column = j := Option.some.inj (hcolumn.symm.trans hj)
    obtain ⟨x, hx, hupper⟩ := getElem?_zero_of_usageName? husage
    rw [List.getElem?_drop] at hx
    exact absurd hupper (Clause.toUpper_ne_d_before hclause (by omega) hx)
  · -- the ampersand is no character of a field name
    apply Nat.le_of_not_lt
    intro hlt
    have hampersand := getElem?_ampersand_of_usageName? husage
    have hcell := getElem?_of_find? hcolumn (i := k + 7 - column) (by omega)
    rw [show column + (k + 7 - column) = k + 7 by omega, ← List.getElem?_drop, hampersand] at hcell
    exact absurd (hshape.field_chars _ (List.mem_of_getElem? hcell.symm)) (by decide)

end Declarations

end DisplayFile
