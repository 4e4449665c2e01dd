import Mathlib.Tactic.MkIffOfInductiveProp
import DisplayFile.Proofs.Transparency

/-!
# The grammar of declarations

`Clause.Reads` says what it is to take a line apart as a declaration: blanks, the specification
letter, blanks, a field name that ends at a word boundary, any text without a line feed, the keyword
in any case, a value, and a closing parenthesis. A line can have many such readings. `Clause.read?`
finds one if there is any, and it is the first in this order: longer field names come before shorter
ones, and of those with one field name the earlier keyword comes first. No other reading ties with
it.
-/

namespace DisplayFile

namespace AliasPhrase

/-- The parts of a phrase are what they are meant to be. -/
@[mk_iff]
structure WellFormed (p : AliasPhrase) : Prop where
  filler_no_newline : '\n' ∉ p.filler
  keyword_upper : p.keyword.map Char.toUpper = aliasKeyword
  value_ne_nil : p.value ≠ []
  value_no_close : ')' ∉ p.value

instance (p : AliasPhrase) : Decidable p.WellFormed := decidable_of_iff _ p.wellFormed_iff.symm

variable {p q : AliasPhrase} {c : Char} {text rest : Line}

theorem WellFormed.length_keyword (h : p.WellFormed) : p.keyword.length = aliasKeyword.length := by
  rw [← h.keyword_upper, List.length_map]

theorem WellFormed.takeWhile_body (h : p.WellFormed) :
    (p.value ++ ')' :: p.rest).takeWhile (· ≠ ')') = p.value := by
  have hvalue : ∀ x ∈ p.value, decide (x ≠ ')') = true := by
    intro x hx
    exact decide_eq_true fun he => h.value_no_close (he ▸ hx)
  rw [List.takeWhile_append_of_pos hvalue]
  simp

theorem WellFormed.dropWhile_body (h : p.WellFormed) :
    (p.value ++ ')' :: p.rest).dropWhile (· ≠ ')') = ')' :: p.rest := by
  have hsplit := List.takeWhile_append_dropWhile (p := fun x => decide (x ≠ ')'))
    (l := p.value ++ ')' :: p.rest)
  rw [h.takeWhile_body] at hsplit
  exact List.append_cancel_left hsplit

/-- A phrase is determined by its text and the place of its keyword. -/
theorem WellFormed.eq_of_text_eq (hp : p.WellFormed) (hq : q.WellFormed) (htext : p.text = q.text)
    (hlength : p.filler.length = q.filler.length) : p = q := by
  simp only [text, List.append_assoc] at htext
  obtain ⟨hfiller, htext⟩ := List.append_inj htext hlength
  obtain ⟨hkeyword, hbody⟩ :=
    List.append_inj htext (hp.length_keyword.trans hq.length_keyword.symm)
  have hvalue : p.value = q.value := by rw [← hp.takeWhile_body, hbody, hq.takeWhile_body]
  have hrest : ')' :: p.rest = ')' :: q.rest := by
    rw [← hp.dropWhile_body, hbody, hq.dropWhile_body]
  obtain ⟨filler, keyword, value, rest⟩ := p
  obtain rfl : filler = q.filler := hfiller
  obtain rfl : keyword = q.keyword := hkeyword
  obtain rfl : value = q.value := hvalue
  obtain rfl : rest = q.rest := (List.cons.inj hrest).2
  rfl

theorem WellFormed.startsWithKeyword (h : p.WellFormed) :
    startsWithKeyword aliasKeyword (p.keyword ++ (p.value ++ ')' :: p.rest)) := by
  rw [DisplayFile.startsWithKeyword, ← h.length_keyword, List.take_left, h.keyword_upper]
  exact beq_self_eq_true aliasKeyword

/-- The phrases with the keyword at the start of the text. -/
theorem here?_eq_some_iff : here? text = some p ↔ p.WellFormed ∧ p.filler = [] ∧ p.text = text := by
  constructor
  · intro h
    have htext := text_of_here? h
    simp only [here?] at h
    split at h
    · next hkeyword =>
      split at h
      · next x value y rest hvalue hrest =>
        obtain rfl := Option.some.inj h
        have hall : ∀ z ∈ x :: value, z ≠ ')' := by
          intro z hz
          rw [← hvalue] at hz
          exact of_decide_eq_true (List.all_eq_true.1 List.all_takeWhile z hz)
        refine ⟨⟨List.not_mem_nil, ?_, List.cons_ne_nil x value, fun hmem => hall _ hmem rfl⟩,
          rfl, htext⟩
        simpa only [DisplayFile.startsWithKeyword, beq_iff_eq] using hkeyword
      · cases h
    · cases h
  · rintro ⟨hp, hfiller, rfl⟩
    obtain ⟨filler, keyword, value, rest⟩ := p
    obtain rfl : filler = [] := hfiller
    obtain ⟨x, value, rfl⟩ := List.exists_cons_of_ne_nil hp.value_ne_nil
    have htext : text ⟨[], keyword, x :: value, rest⟩ = keyword ++ (x :: value ++ ')' :: rest) := by
      simp [text]
    have hlength := hp.length_keyword
    have htake := hp.takeWhile_body
    have hdrop := hp.dropWhile_body
    simp only at hlength htake hdrop
    rw [htext, here?, if_pos hp.startsWithKeyword, ← hlength, List.drop_left, List.take_left]
    simp only [htake, hdrop]

/-- The closing parenthesis of a phrase is not its first character. -/
theorem WellFormed.close_mem (h : p.WellFormed) (htext : p.text = c :: rest) : ')' ∈ rest := by
  have hkeyword : p.keyword ≠ [] := by
    apply List.ne_nil_of_length_pos
    rw [h.length_keyword]
    decide
  obtain ⟨x, before, hbefore⟩ : ∃ x before, p.filler ++ p.keyword ++ p.value = x :: before :=
    List.exists_cons_of_ne_nil (by simp [hkeyword])
  rw [text, hbefore, List.cons_append] at htext
  rw [← (List.cons.inj htext).2]
  exact List.mem_append_right before List.mem_cons_self

theorem wellFormed_of_first? (h : first? text = some p) : p.WellFormed := by
  induction text generalizing p with
  | nil => cases h
  | cons c rest ih =>
    simp only [first?] at h
    split at h
    · cases h
    · split at h
      · next phrase hphrase =>
        obtain rfl := Option.some.inj h
        exact (here?_eq_some_iff.1 hphrase).1
      · split at h
        · cases h
        · next hc =>
          obtain ⟨q, hq, rfl⟩ := Option.map_eq_some_iff.1 h
          obtain ⟨hfiller, hkeyword, hvalue, hclose⟩ := ih hq
          refine ⟨?_, hkeyword, hvalue, hclose⟩
          intro hmem
          rcases List.mem_cons.1 hmem with he | hmem
          · exact hc he.symm
          · exact hfiller hmem

/-- If a text has a phrase at all, one is found, and its keyword stands no further right. -/
theorem WellFormed.exists_first? (h : q.WellFormed) (htext : q.text = text) :
    ∃ p, first? text = some p ∧ p.filler.length ≤ q.filler.length := by
  induction text generalizing q with
  | nil => simp [AliasPhrase.text] at htext
  | cons c rest ih =>
    have hclose := h.close_mem htext
    simp only [first?, hclose, not_true_eq_false, and_false, if_false]
    cases hhere : here? (c :: rest) with
    | some phrase =>
      have hfiller := (here?_eq_some_iff.1 hhere).2.1
      exact ⟨phrase, rfl, by simp [hfiller]⟩
    | none =>
      -- the keyword of `q` does not stand here, so `c` belongs to its filler
      obtain ⟨filler, keyword, value, tail⟩ := q
      cases filler with
      | nil =>
        rw [here?_eq_some_iff.2 ⟨h, rfl, htext⟩] at hhere
        cases hhere
      | cons x filler =>
        obtain ⟨rfl, hrest⟩ : x = c ∧ filler ++ (keyword ++ (value ++ ')' :: tail)) = rest := by
          simpa [AliasPhrase.text] using htext
        have hshorter : WellFormed ⟨filler, keyword, value, tail⟩ :=
          ⟨fun hmem => h.filler_no_newline (List.mem_cons_of_mem x hmem), h.keyword_upper,
            h.value_ne_nil, h.value_no_close⟩
        obtain ⟨p, hp, hle⟩ := ih hshorter (by simpa [AliasPhrase.text] using hrest)
        have hnewline : x ≠ '\n' := fun he => h.filler_no_newline (he ▸ List.mem_cons_self)
        exact ⟨p.after x, by simp [hp, hnewline], Nat.succ_le_succ hle⟩

theorem first?_eq_none_of_not_mem (h : ')' ∉ text) : first? text = none := by
  rw [Option.eq_none_iff_forall_ne_some]
  intro p hp
  apply h
  rw [← text_of_first? hp, AliasPhrase.text]
  exact List.mem_append_right _ List.mem_cons_self

end AliasPhrase

/-- Either the text before ends with a character of a word or the text after starts with one, but
not both. -/
def BoundaryBetween (before after : Line) : Prop :=
  before.getLast?.any isWordChar ≠ after.head?.any isWordChar

instance (before after : Line) : Decidable (BoundaryBetween before after) :=
  inferInstanceAs (Decidable (_ ≠ _))

namespace FieldSplit

variable {text field : Line} {phrase : AliasPhrase}

/-- The phrase that a split remembers is the earliest of the text. -/
theorem phrase_ofText (text : Line) : (ofText text).phrase = AliasPhrase.first? text := by
  induction text with
  | nil => rfl
  | cons c rest ih =>
    rw [ofText]
    by_cases hc : isFieldChar c
    · rw [if_pos hc]
      simp only [ih, AliasPhrase.first?]
      have hnewline : c ≠ '\n' := by
        rintro rfl
        exact absurd hc (by decide)
      by_cases hclose : ')' ∈ rest
      · simp only [hclose, not_true_eq_false, and_false, if_false, hnewline]
        cases AliasPhrase.here? (c :: rest) with
        | none => rfl
        | some phrase => rfl
      · have hhere : AliasPhrase.here? (c :: rest) = none := by
          rw [Option.eq_none_iff_forall_ne_some]
          intro p hp
          obtain ⟨hwell, -, htext⟩ := AliasPhrase.here?_eq_some_iff.1 hp
          exact hclose (hwell.close_mem htext)
        simp [hhere, hclose, AliasPhrase.first?_eq_none_of_not_mem hclose]
    · rw [if_neg hc]

theorem boundary_of_field (h : (ofText text).field = some (field, phrase)) :
    BoundaryBetween field phrase.text ∧ AliasPhrase.first? phrase.text = some phrase := by
  induction text generalizing field with
  | nil => simp [ofText] at h
  | cons c rest ih =>
    rw [ofText] at h
    split at h
    · dsimp only at h
      split at h
      · next name p hp =>
        obtain ⟨rfl, rfl⟩ : c :: name = field ∧ p = phrase := by simpa using h
        obtain ⟨hboundary, hfirst⟩ := ih hp
        refine ⟨?_, hfirst⟩
        rwa [BoundaryBetween, List.getLast?_cons_of_ne_nil (field_chars hp).1]
      · split at h
        · next hends =>
          obtain ⟨p, hp, he⟩ := Option.map_eq_some_iff.1 h
          obtain ⟨rfl, rfl⟩ : [c] = field ∧ p = phrase := by simpa using he
          rw [phrase_ofText] at hp
          rw [AliasPhrase.text_of_first? hp]
          exact ⟨by simpa [BoundaryBetween, endsAtBoundary] using hends, hp⟩
        · cases h
    · cases h

/-- If a field name with a phrase after it stands at the start of a text, one is found that is no
shorter. -/
theorem exists_field (hne : field ≠ []) (hchars : ∀ x ∈ field, isFieldChar x)
    (hboundary : BoundaryBetween field phrase.text) (hphrase : phrase.WellFormed) :
    ∃ found, (ofText (field ++ phrase.text)).field = some found ∧
      field.length ≤ found.1.length := by
  induction field with
  | nil => exact absurd rfl hne
  | cons c field ih =>
    obtain ⟨hc, hfield⟩ := List.forall_mem_cons.1 hchars
    rw [List.cons_append, ofText, if_pos hc]
    dsimp only
    cases field with
    | nil =>
      rw [List.nil_append]
      cases hlater : (ofText phrase.text).field with
      | some found => exact ⟨_, rfl, by simp⟩
      | none =>
        obtain ⟨p, hp, -⟩ := hphrase.exists_first? rfl
        have hends : endsAtBoundary c phrase.text := by
          simpa [BoundaryBetween, endsAtBoundary] using hboundary
        exact ⟨([c], p), by simp [hends, phrase_ofText, hp], Nat.le_refl 1⟩
    | cons d field =>
      rw [BoundaryBetween, List.getLast?_cons_of_ne_nil (List.cons_ne_nil d field)] at hboundary
      obtain ⟨found, hfound, hle⟩ := ih (List.cons_ne_nil d field) hfield hboundary
      exact ⟨(c :: found.1, found.2), by rw [hfound], Nat.succ_le_succ hle⟩

end FieldSplit

namespace Clause

variable {line raw : Line} {c d : Clause}

/-- The clause is one way to take the line apart. -/
@[mk_iff]
structure Reads (c : Clause) (line : Line) : Prop extends c.Shaped where
  text_eq : c.text = line
  field_boundary : BoundaryBetween c.field c.phrase.text
  phrase_wellFormed : c.phrase.WellFormed

attribute [mk_iff] Shaped

instance (c : Clause) : Decidable c.Shaped :=
  decidable_of_iff (c.lead.all isBlank ∧ c.letter.toUpper = 'A' ∧ c.gap ≠ [] ∧
    c.gap.all isBlank ∧ c.field ≠ [] ∧ c.field.all isFieldChar) <| by
      simp only [shaped_iff, List.all_eq_true]

instance (c : Clause) (line : Line) : Decidable (c.Reads line) :=
  decidable_of_iff _ (c.reads_iff line).symm

/-- The field name of `c` is longer than that of `d`, or as long and with an earlier keyword. -/
def Precedes (c d : Clause) : Prop :=
  d.field.length < c.field.length ∨
    d.field.length = c.field.length ∧ c.phrase.filler.length < d.phrase.filler.length

end Clause

section Blanks

variable {x : Char}

theorem isBlank_eq_false_of_toUpper (h : x.toUpper = 'A') : isBlank x = false := by
  apply Bool.eq_false_of_not_eq_true
  intro hblank
  have halpha := isAlpha_eq_false_of_isBlank hblank
  rw [← Char.isAlpha_toUpper_eq_isAlpha, h] at halpha
  cases halpha

theorem isDigit_eq_false_of_isBlank (h : isBlank x) : x.isDigit = false := by
  simp only [isBlank, Bool.or_eq_true, Bool.and_eq_true, decide_eq_true_eq, beq_iff_eq] at h
  simp [Char.isDigit, UInt32.le_iff_toNat_le]
  omega

theorem isBlank_eq_false_of_isFieldChar (h : isFieldChar x) : isBlank x = false := by
  apply Bool.eq_false_of_not_eq_true
  intro hblank
  simp only [isFieldChar, isWordChar, Char.isAlphanum, isAlpha_eq_false_of_isBlank hblank,
    isDigit_eq_false_of_isBlank hblank, Bool.or_self, Bool.false_or, Bool.or_eq_true,
    beq_iff_eq] at h
  rcases h with (rfl | rfl) | rfl
  all_goals exact absurd hblank (by decide)

/-- The blanks before a character that is none. -/
theorem blanks_append_cons {before : Line} (hbefore : ∀ y ∈ before, isBlank y)
    (hx : isBlank x = false) (after : Line) :
    (before ++ x :: after).takeWhile isBlank = before ∧
      (before ++ x :: after).dropWhile isBlank = x :: after := by
  rw [List.takeWhile_append_of_pos hbefore, List.dropWhile_append_of_pos hbefore]
  simp [hx]

theorem trimBlanks_eq_nil_iff {text : List Char} :
    trimBlanks text = [] ↔ ∀ y ∈ text, isBlank y := by
  simp only [trimBlanks, List.reverse_eq_nil_iff, List.dropWhile_eq_nil_iff, List.mem_reverse]
  constructor
  · intro h y hy
    rw [← List.takeWhile_append_dropWhile (p := isBlank) (l := text)] at hy
    rcases List.mem_append.1 hy with hy | hy
    · exact List.all_eq_true.1 List.all_takeWhile y hy
    · exact h y hy
  · intro h y hy
    exact h y ((List.dropWhile_sublist isBlank).subset hy)

end Blanks

theorem mentionsKeyword_of_startsWithKeyword {keyword text : Line} {k : Nat}
    (h : startsWithKeyword keyword (text.drop k)) : mentionsKeyword keyword text := by
  induction text generalizing k with
  | nil =>
    rw [List.drop_nil, startsWithKeyword, List.take_nil, List.map_nil, beq_iff_eq] at h
    rw [← h]
    rfl
  | cons c rest ih =>
    rw [mentionsKeyword, Bool.or_eq_true]
    cases k with
    | zero => exact Or.inl h
    | succ k => exact Or.inr (ih h)

namespace Clause

variable {line raw : Line} {c d : Clause}

theorem ofText_of_read? (h : read? line = some c) :
    (FieldSplit.ofText (c.field ++ c.phrase.text)).field = some (c.field, c.phrase) := by
  simp only [read?] at h
  split at h
  · cases h
  · split at h
    · obtain ⟨⟨field, phrase⟩, hsplit, rfl⟩ := Option.map_eq_some_iff.1 h
      have htext := FieldSplit.text_of_field hsplit
      dsimp only
      rw [htext, hsplit]
    · cases h

/-- What is read is a reading. -/
theorem reads_of_read? (h : read? line = some c) : c.Reads line := by
  obtain ⟨hboundary, hfirst⟩ := FieldSplit.boundary_of_field (ofText_of_read? h)
  exact ⟨shaped_of_read? h, text_of_read? h, hboundary, AliasPhrase.wellFormed_of_first? hfirst⟩

namespace Reads

/-- What stands before the field name is the same in all readings of a line. -/
theorem read?_eq (h : c.Reads line) :
    read? line = (FieldSplit.ofText (c.field ++ c.phrase.text)).field.map fun (field, phrase) =>
      ⟨c.lead, c.letter, c.gap, field, phrase⟩ := by
  have hline : line = c.lead ++ c.letter :: (c.gap ++ (c.field ++ c.phrase.text)) := by
    rw [← h.text_eq, text]
    simp
  obtain ⟨x, field, hfield⟩ := List.exists_cons_of_ne_nil h.field_ne_nil
  have hx : isBlank x = false :=
    isBlank_eq_false_of_isFieldChar (h.field_chars x (by simp [hfield]))
  have hlead := blanks_append_cons h.lead_blank (isBlank_eq_false_of_toUpper h.letter_upper)
    (c.gap ++ (c.field ++ c.phrase.text))
  have hgap := blanks_append_cons h.gap_blank hx (field ++ c.phrase.text)
  rw [← List.cons_append, ← hfield] at hgap
  rw [read?, hline, hlead.2]
  simp only [hlead.1, hgap.1, hgap.2, h.letter_upper, h.gap_ne_nil, ne_eq, not_false_eq_true,
    and_self, if_true]

theorem exists_read? (h : d.Reads line) : ∃ c, read? line = some c := by
  obtain ⟨found, hfound, -⟩ := FieldSplit.exists_field h.field_ne_nil h.field_chars
    h.field_boundary h.phrase_wellFormed
  exact ⟨_, by rw [h.read?_eq, hfound, Option.map_some]⟩

/-- What is read comes before every other reading. -/
theorem eq_or_precedes (h : d.Reads line) (hc : read? line = some c) : d = c ∨ c.Precedes d := by
  obtain ⟨⟨field, phrase⟩, hfound, hle⟩ := FieldSplit.exists_field h.field_ne_nil h.field_chars
    h.field_boundary h.phrase_wellFormed
  have hread := h.read?_eq
  rw [hc, hfound, Option.map_some, Option.some.injEq] at hread
  subst hread
  rcases Nat.lt_or_eq_of_le hle with hlt | hlength
  · exact Or.inr (Or.inl hlt)
  -- the field names are the same, so what follows them is the same text
  obtain ⟨hfield, htext⟩ := List.append_inj (FieldSplit.text_of_field hfound) hlength.symm
  obtain ⟨p, hp, hfiller⟩ := h.phrase_wellFormed.exists_first? rfl
  have hfirst := (FieldSplit.boundary_of_field hfound).2
  rw [htext] at hfirst
  obtain rfl : p = phrase := Option.some.inj (hp.symm.trans hfirst)
  rcases Nat.lt_or_eq_of_le hfiller with hlt | heq
  · exact Or.inr (Or.inr ⟨hlength, hlt⟩)
  · have hphrase : p = d.phrase :=
      (AliasPhrase.wellFormed_of_first? hp).eq_of_text_eq h.phrase_wellFormed htext heq
    left
    rw [hphrase]
    obtain rfl : field = d.field := hfield
    rfl

/-- The search for the keyword alone turns down no line that has a reading. -/
theorem mentionsKeyword (h : c.Reads line) : mentionsKeyword aliasKeyword line := by
  let before := c.lead ++ c.letter :: (c.gap ++ (c.field ++ c.phrase.filler))
  let after := c.phrase.keyword ++ (c.phrase.value ++ ')' :: c.phrase.rest)
  have hline : line = before ++ after := by
    rw [← h.text_eq, text, AliasPhrase.text]
    simp [before, after]
  apply mentionsKeyword_of_startsWithKeyword (k := before.length)
  rw [hline, List.drop_left]
  exact h.phrase_wellFormed.startsWithKeyword

/-- The field name stands in the line as it was given, at the latest where it was recognised. -/
theorem exists_find? (h : c.Reads (normalize raw)) :
    ∃ column ≤ c.column, find? c.field raw = some column :=
  exists_find?_le (h.field_isPrefix_drop h.text_eq) h.field_ne_nil

end Reads

end Clause

section Declarations

variable {line : Nat} {raw : Line} {d : Declaration}

/-- Whether the keyword is mentioned need not be asked first. -/
theorem declarationOn?_eq_bind (line : Nat) (raw : Line) :
    declarationOn? line raw =
      (Clause.read? (normalize raw)).bind (Declaration.ofClause? line raw) := by
  simp only [declarationOn?]
  split
  · rfl
  · next hkeyword =>
    cases hread : Clause.read? (normalize raw) with
    | none => rfl
    | some c => exact absurd (Clause.reads_of_read? hread).mentionsKeyword hkeyword

/-- A line with a reading has a declaration. -/
theorem exists_declarationOn? {c : Clause} (h : c.Reads (normalize raw)) (line : Nat) :
    ∃ d, declarationOn? line raw = some d := by
  obtain ⟨clause, hread⟩ := h.exists_read?
  obtain ⟨column, -, hcolumn⟩ := (Clause.reads_of_read? hread).exists_find?
  rw [declarationOn?_eq_bind, hread, Option.bind_some, Declaration.ofClause?, hcolumn]
  exact ⟨_, rfl⟩

/-- A declaration takes its name and its alias from the reading that comes first. -/
theorem exists_read?_of_declarationOn? (h : declarationOn? line raw = some d) :
    ∃ c, Clause.read? (normalize raw) = some c ∧ d.name = capitals c.field ∧
      d.aliasName = if ∀ x ∈ c.phrase.value, isBlank x then none
        else some (capitals (trimBlanks c.phrase.value)) := by
  rw [declarationOn?_eq_bind] at h
  obtain ⟨c, hread, hd⟩ := Option.bind_eq_some_iff.1 h
  obtain ⟨column, -, rfl⟩ := Option.map_eq_some_iff.1 hd
  refine ⟨c, hread, rfl, ?_⟩
  simp only [trimBlanks_eq_nil_iff]

end Declarations

namespace Source

variable {s : Source} {f : Format} {line : Nat} {raw : Line}

/-- What a specification that a format spans declares. -/
theorem mem_declared_iff_declarationOn? (hline : f.containsLine line)
    (hraw : s.line? line = some raw) (hspec : isSpecification (normalize raw)) {d : Declaration} :
    d ∈ declared (s.rowsOf f) ∧ d.nameSpan.start.line = line ↔
      declarationOn? line raw = some d := by
  constructor
  · rintro ⟨hd, rfl⟩
    obtain ⟨row, hrow, hin⟩ := mem_declared.1 hd
    obtain ⟨raw', hraw', -, hon⟩ := declarationIn?_eq_some_iff.1 hin
    have hnumber := nameSpan_start_line_of_declarationIn? hin
    have hsame := line?_of_mem_rowsOf hrow hraw'
    rw [← hnumber, hraw, Option.some.injEq] at hsame
    rw [hnumber, hsame]
    exact hon
  · intro hon
    refine ⟨mem_declared.2 ⟨(some raw, line), ?_, ?_⟩, nameSpan_start_line_of_declarationOn? hon⟩
    · exact mem_rowsOf.2 ⟨line?_eq_some_iff.1 hraw, hline⟩
    · exact declarationIn?_eq_some_iff.2 ⟨raw, rfl, hspec, hon⟩

end Source

/-- A line with a keyword in its field name, then one that has no value, and then one in lower
case. -/
def Source.ambiguous : Source := .ofLines <| List.map String.toList [
  "     A          R F",
  "     A  F#ALIAS(X) ALIAS() alias( y )"]

/-- The reading of that line with the shortest field name, which is not the one recorded. -/
def Clause.shortest : Clause where
  lead := "     ".toList
  letter := 'A'
  gap := "  ".toList
  field := "F#".toList
  phrase := ⟨[], "ALIAS(".toList, "X".toList, " ALIAS() alias( y )".toList⟩

namespace Document

/-- A specification in a format is recorded as a declaration exactly if it has a reading. What is
recorded is the name and the alias of the reading with the longest field name and, of those, the
earliest keyword. Every reading mentions the keyword, and its field name stands in the line as it
was given. -/
theorem declaration_recorded_iff_reads (s : Source) {f : Format} (hf : f ∈ (ofSource s).formats)
    {line : Nat} {raw : Line} (hline : f.containsLine line) (hraw : s.line? line = some raw)
    (hspec : isSpecification (normalize raw)) :
    ((∃ d ∈ f.declarations.values ++ f.shadowed, d.nameSpan.start.line = line) ↔
      ∃ c : Clause, c.Reads (normalize raw)) ∧
    (∀ d ∈ f.declarations.values ++ f.shadowed, d.nameSpan.start.line = line →
      ∃ c : Clause, c.Reads (normalize raw) ∧
        (∀ other : Clause, other.Reads (normalize raw) → other = c ∨ c.Precedes other) ∧
        d.name = capitals c.field ∧
        d.aliasName = if ∀ x ∈ c.phrase.value, isBlank x then none
          else some (capitals (trimBlanks c.phrase.value))) ∧
    ∀ c : Clause, c.Reads (normalize raw) →
      mentionsKeyword aliasKeyword (normalize raw) ∧ ∃ column, find? c.field raw = some column := by
  have hholds := holds_of_mem hf
  have hrecorded (d : Declaration) : d ∈ f.declarations.values ++ f.shadowed ∧
      d.nameSpan.start.line = line ↔ declarationOn? line raw = some d := by
    rw [hholds.kept_perm.mem_iff, Source.mem_declared_iff_declarationOn? hline hraw hspec]
  refine ⟨⟨?_, ?_⟩, ?_, ?_⟩
  · rintro ⟨d, hd⟩
    obtain ⟨c, hread, -⟩ := exists_read?_of_declarationOn? ((hrecorded d).1 hd)
    exact ⟨c, Clause.reads_of_read? hread⟩
  · rintro ⟨c, hc⟩
    obtain ⟨d, hd⟩ := exists_declarationOn? hc line
    exact ⟨d, (hrecorded d).2 hd⟩
  · intro d hd hdline
    obtain ⟨c, hread, hname, halias⟩ :=
      exists_read?_of_declarationOn? ((hrecorded d).1 ⟨hd, hdline⟩)
    exact ⟨c, Clause.reads_of_read? hread, fun other hother => hother.eq_or_precedes hread, hname,
      halias⟩
  · intro c hc
    obtain ⟨column, -, hcolumn⟩ := hc.exists_find?
    exact ⟨hc.mentionsKeyword, column, hcolumn⟩

theorem declaration_recorded_iff_reads_ambiguous :
    ∃ f ∈ (ofSource .ambiguous).formats, ∃ raw, Source.ambiguous.line? 1 = some raw ∧
      Clause.shortest.Reads (normalize raw) ∧ find? "F#".toList raw = some 8 ∧
      ∃ d ∈ f.declarations.values ++ f.shadowed, d.nameSpan.start.line = 1 ∧
        d.name = "F#ALIAS".toList ∧ d.aliasName = some "Y".toList ∧
        ∃ c : Clause, c.Reads (normalize raw) ∧ c.Precedes .shortest ∧
          d.name = capitals c.field := by
  obtain ⟨f, hf, hline⟩ : ∃ f ∈ (ofSource .ambiguous).formats, f.containsLine 1 ∧
      ∃ d ∈ f.declarations.values ++ f.shadowed, d.nameSpan.start.line = 1 ∧
        d.name = "F#ALIAS".toList ∧ d.aliasName = some "Y".toList := by decide +kernel
  obtain ⟨hline, d, hd, hdline, hname, halias⟩ := hline
  have hshortest : Clause.shortest.Reads
      (normalize "     A  F#ALIAS(X) ALIAS() alias( y )".toList) := by decide +kernel
  have hraw : Source.ambiguous.line? 1 =
      some "     A  F#ALIAS(X) ALIAS() alias( y )".toList := rfl
  obtain ⟨-, hchosen, -⟩ :=
    declaration_recorded_iff_reads .ambiguous hf hline hraw (by decide +kernel)
  obtain ⟨c, hc, hfirst, hcname, -⟩ := hchosen d hd hdline
  refine ⟨f, hf, _, hraw, hshortest, by decide +kernel, d, hd, hdline, hname, halias, c, hc, ?_,
    hcname⟩
  rcases hfirst .shortest hshortest with rfl | hprecedes
  · rw [hname] at hcname
    exact absurd hcname (by decide +kernel)
  · exact hprecedes

end Document

end DisplayFile
