import DisplayFile.Proofs.FieldToken

/-!
# Names that match up to case

A usage refers to a declaration if the two have the same capitals. The name of a usage and the name
of a field are ASCII, so they match exactly if they are the same up to the case of ASCII letters.
The value of an alias can be any text. A few letters and ligatures past ASCII have capitals that are
ASCII letters, and a value with one of them matches the name of a usage without being the same up to
case. No other value does.
-/

namespace DisplayFile

/-- The texts differ at most in the case of ASCII letters. -/
def SameUpToCase (text other : Line) : Prop := text.map Char.toUpper = other.map Char.toUpper

instance (text other : Line) : Decidable (SameUpToCase text other) :=
  inferInstanceAs (Decidable (_ = _))

/-- The letters and ligatures past ASCII whose capitals are ASCII letters. -/
def foldedLetters : List Char := ['ß', 'ı', 'ſ', 'ﬀ', 'ﬁ', 'ﬂ', 'ﬃ', 'ﬄ', 'ﬅ', 'ﬆ']

section Characters

variable {c : Char} {n : Nat}

theorem isWordChar_of_isAlpha (h : c.isAlpha) : isWordChar c := by
  simp [isWordChar, Char.isAlphanum, h]

theorem isWordChar_toUpper (c : Char) : isWordChar c.toUpper = isWordChar c := by
  by_cases hlower : c.isLower
  · have halpha : c.isAlpha := by simp [Char.isAlpha, hlower]
    rw [isWordChar_of_isAlpha halpha,
      isWordChar_of_isAlpha (c.isAlpha_toUpper_eq_isAlpha.trans halpha)]
  · rw [Char.toUpper_eq_of_not_isLower hlower]

theorem lt_of_isWordChar_ofNat (h : isWordChar (Char.ofNat n)) : n < 0x80 := by
  have hlt := toNat_lt_of_isWordChar h
  rw [Char.toNat_ofNat] at hlt
  split at hlt
  · exact hlt
  · next hinvalid =>
    have hnul : Char.ofNat n = Char.ofNat 0 := by
      rw [← Char.toNat_inj, Char.toNat_ofNat, if_neg hinvalid]
      rfl
    rw [hnul] at h
    exact absurd h (by decide)

theorem not_isWordChar_of_mem_foldedLetters (h : c ∈ foldedLetters) : ¬ isWordChar c := by
  have hall : foldedLetters.all fun x => !isWordChar x := by decide
  simpa using List.all_eq_true.1 hall c h

/-- Of the characters whose capital is one character, two have an ASCII capital. -/
theorem mem_foldedLetters_of_capitalRuns {run : CapitalRun} (hrun : run ∈ capitalRuns)
    (hc : run.contains c.toNat) (hcapital : run.capital < 0x80) : c ∈ foldedLetters := by
  have htable : ∀ run ∈ capitalRuns, run.capital < 0x80 →
      run.first = run.last ∧ (run.first = 'ı'.toNat ∨ run.first = 'ſ'.toNat) := by decide +kernel
  obtain ⟨hone, hfirst⟩ := htable run hrun hcapital
  simp only [CapitalRun.contains, Bool.and_eq_true, decide_eq_true_eq] at hc
  have hnumber : c.toNat = run.first := by omega
  rcases hfirst with hfirst | hfirst
  · rw [Char.toNat_inj.1 (hnumber.trans hfirst)]
    decide
  · rw [Char.toNat_inj.1 (hnumber.trans hfirst)]
    decide

theorem mem_foldedLetters_of_longCapitals {codes : List Nat} (h : (c.toNat, codes) ∈ longCapitals)
    (hcodes : ∀ code ∈ codes, code < 0x80) : c ∈ foldedLetters := by
  have htable : ∀ entry ∈ longCapitals, (∀ code ∈ entry.2, code < 0x80) →
      entry.1 ∈ foldedLetters.map Char.toNat := by decide +kernel
  obtain ⟨d, hd, hnumber⟩ := List.mem_map.1 (htable _ h hcodes)
  rwa [← Char.toNat_inj.1 hnumber]

/-- Only characters of words and the folded letters have capitals that are characters of words. -/
theorem isWordChar_or_mem_foldedLetters (h : ∀ x ∈ capital c, isWordChar x) :
    isWordChar c ∨ c ∈ foldedLetters := by
  dsimp only [capital] at h
  split at h
  · exact Or.inl (isWordChar_toUpper c ▸ h _ (List.mem_singleton_self _))
  · split at h
    · next run hrun =>
      have hlt := lt_of_isWordChar_ofNat (h _ (List.mem_singleton_self _))
      have hcontains : run.contains c.toNat := by simpa using List.find?_some hrun
      exact Or.inr (mem_foldedLetters_of_capitalRuns (List.mem_of_find?_eq_some hrun) hcontains
        (by omega))
    · split at h
      · next number codes hcodes =>
        obtain rfl : number = c.toNat := by simpa using List.find?_some hcodes
        refine Or.inr (mem_foldedLetters_of_longCapitals (List.mem_of_find?_eq_some hcodes) ?_)
        intro code hcode
        exact lt_of_isWordChar_ofNat (h _ (List.mem_map_of_mem hcode))
      · exact Or.inl (h c (List.mem_singleton_self c))

end Characters

section Texts

variable {text value : Line} (htext : ∀ x ∈ text, isWordChar x)
include htext

theorem capitals_of_forall_isWordChar : capitals text = text.map Char.toUpper :=
  capitals_of_forall_lt fun x hx => toNat_lt_of_isWordChar (htext x hx)

theorem isWordChar_or_mem_foldedLetters_of_capitals (h : capitals value = capitals text) :
    ∀ x ∈ value, isWordChar x ∨ x ∈ foldedLetters := by
  intro x hx
  apply isWordChar_or_mem_foldedLetters
  intro y hy
  have hmem : y ∈ capitals text := h ▸ List.mem_flatMap.2 ⟨x, hx, hy⟩
  rw [capitals_of_forall_isWordChar htext] at hmem
  obtain ⟨z, hz, rfl⟩ := List.mem_map.1 hmem
  rw [isWordChar_toUpper]
  exact htext z hz

/-- A text of word characters and a value with the same capitals are the same up to case exactly if
the value has no folded letter. -/
theorem sameUpToCase_iff_of_capitals (h : capitals value = capitals text) :
    SameUpToCase text value ↔ ∀ x ∈ value, x ∉ foldedLetters := by
  constructor
  · intro hsame x hx hfolded
    have hmem : x.toUpper ∈ text.map Char.toUpper := by
      rw [show text.map Char.toUpper = _ from hsame]
      exact List.mem_map_of_mem hx
    obtain ⟨y, hy, hupper⟩ := List.mem_map.1 hmem
    apply not_isWordChar_of_mem_foldedLetters hfolded
    rw [← isWordChar_toUpper, ← hupper, isWordChar_toUpper]
    exact htext y hy
  · intro hnone
    have hvalue : ∀ x ∈ value, isWordChar x := by
      intro x hx
      exact (isWordChar_or_mem_foldedLetters_of_capitals htext h x hx).resolve_right (hnone x hx)
    rw [SameUpToCase, ← capitals_of_forall_isWordChar htext, ← h,
      capitals_of_forall_isWordChar hvalue]

end Texts

theorem WritesUsage.covers {raw name : Line} {column : Nat} (h : WritesUsage raw column name)
    (line : Nat) :
    (Span.onLine line (column + 8) (column + 8 + name.length)).Covers line raw name := by
  obtain ⟨before, keyword, rest, rfl, rfl, hkeyword, hname, -⟩ := h
  apply Span.covers_of_isPrefix _ hname
  rw [← List.drop_drop, List.drop_left, ← length_of_map_toUpper_eq hkeyword, List.drop_left]
  exact List.prefix_append _ _

theorem Declaration.capitals_of_aliasName {line : Nat} {raw other : Line} {c : Clause}
    {d : Declaration} (h : ofClause? line raw c = some d) (hother : d.aliasName = some other) :
    capitals (trimBlanks c.phrase.value) = other := by
  obtain ⟨column, -, rfl⟩ := Option.map_eq_some_iff.1 h
  simp only [Option.ite_none_left_eq_some] at hother
  exact Option.some.inj hother.2

/-- Two aliases, one of them written with a ligature, and usages of both. -/
def Source.ligated : Source := .ofLines <| List.map String.toList [
  "     A          R F",
  "     A  FLD 1A ALIAS(ﬁle)",
  "     A  GRP 1A ALIAS( Name )",
  "     A  U DSPATR(&FILE)DSPATR(&name)"]

namespace Document

/-- The text of a usage is the field name of the declaration that it refers to, up to case, or its
capitals are those of the trimmed value. In this second case it is the value up to case exactly if
the value has no folded letter; all other characters of the value are those of words. -/
theorem declarationFor?_up_to_case_iff (s : Source) {f : Format} (hf : f ∈ (ofSource s).formats)
    {u : Usage} (hu : u ∈ f.allUsages) {d : Declaration} (hd : f.declarationFor? u.name = some d) :
    ∃ line raw text, s.line? line = some raw ∧ u.span.Covers line raw text ∧
      ∃ line' raw' c, d.ReadAs s line' raw' c ∧
        (SameUpToCase text c.field ∨
          capitals (trimBlanks c.phrase.value) = text.map Char.toUpper ∧
          ∀ x ∈ trimBlanks c.phrase.value, isWordChar x ∨ x ∈ foldedLetters) ∧
        (SameUpToCase text c.field ∨ SameUpToCase text (trimBlanks c.phrase.value) ↔
          SameUpToCase text c.field ∨ ∀ x ∈ trimBlanks c.phrase.value, x ∉ foldedLetters) := by
  have hholds := holds_of_mem hf
  obtain ⟨line, column, text, ⟨raw, -, hraw, -, hwrites⟩, rfl⟩ :=
    mem_used_rowsOf.1 (hholds.mem_allUsages.1 hu)
  obtain ⟨hkept, howner⟩ := hholds.kept_of_declarationFor? hd
  have hdeclared := List.mem_append_left f.shadowed hkept
  obtain ⟨line', raw', c, hreadAs, hclause⟩ := exists_readAs hf hdeclared
  have hword : ∀ x ∈ text, isWordChar x := by
    obtain ⟨_, _, _, -, -, -, -, hword⟩ := hwrites
    exact hword
  have hcapitals := capitals_of_forall_isWordChar hword
  refine ⟨line, raw, text, hraw, hwrites.covers line, line', raw', c, hreadAs, ?_⟩
  rcases howner with hfield | hvalue
  · -- the usage names the field
    have hsame : SameUpToCase text c.field := by
      have hchars := (Clause.shaped_of_read? hreadAs.read?_eq).field_chars
      rw [SameUpToCase, ← hcapitals, ← capitals_of_forall_isFieldChar hchars,
        ← name_of_readAs hf hdeclared hreadAs]
      exact hfield.symm
    exact ⟨Or.inl hsame, iff_of_true (Or.inl hsame) (Or.inl hsame)⟩
  · -- the usage names the value
    have hsame : capitals (trimBlanks c.phrase.value) = capitals text :=
      Declaration.capitals_of_aliasName hclause hvalue
    refine ⟨Or.inr ⟨hsame.trans hcapitals, ?_⟩, or_congr_right ?_⟩
    · exact isWordChar_or_mem_foldedLetters_of_capitals hword hsame
    · exact sameUpToCase_iff_of_capitals hword hsame

theorem declarationFor?_up_to_case_iff_ligated :
    ∃ f ∈ (ofSource .ligated).formats, ∃ u ∈ f.allUsages, ∃ d,
      u.span = .onLine 3 31 35 ∧ f.declarationFor? u.name = some d ∧
      ∃ line raw text, Source.ligated.line? line = some raw ∧ u.span.Covers line raw text ∧
        ∃ raw' c, d.ReadAs .ligated 2 raw' c ∧
          trimBlanks c.phrase.value = "Name".toList ∧
          (SameUpToCase text c.field ∨ SameUpToCase text (trimBlanks c.phrase.value)) := by
  obtain ⟨f, hf, u, hu, hspan, d, -, hline, howner⟩ : ∃ f ∈ (ofSource .ligated).formats,
      ∃ u ∈ f.allUsages, u.span = .onLine 3 31 35 ∧ ∃ d ∈ f.declarations.values,
        d.nameSpan.start.line = 2 ∧ f.declarationFor? u.name = some d := by decide +kernel
  obtain ⟨c, hread, hvalue⟩ := Option.map_eq_some_iff.1
    (show (Clause.read? (normalize "     A  GRP 1A ALIAS( Name )".toList)).map
      (fun c => trimBlanks c.phrase.value) = some "Name".toList by decide +kernel)
  obtain ⟨line, raw, text, hraw, hcovers, _, raw', _, hreadAs, -, hiff⟩ :=
    declarationFor?_up_to_case_iff .ligated hf hu howner
  obtain ⟨rfl, -, rfl⟩ := hreadAs.unique ⟨hline, rfl, hread⟩
  refine ⟨f, hf, u, hu, d, hspan, howner, line, raw, text, hraw, hcovers, raw', _, hreadAs, hvalue,
    hiff.2 (Or.inr ?_)⟩
  have hplain : "Name".toList.all fun x => x ∉ foldedLetters := by decide
  rw [hvalue]
  simpa using List.all_eq_true.1 hplain

/-- The ligature in the value has the capitals `FI`, so the usage of `FILE` refers to it. -/
theorem declarationFor?_not_up_to_case_ligated :
    ∃ f ∈ (ofSource .ligated).formats, ∃ u ∈ f.allUsages, ∃ d,
      f.declarationFor? u.name = some d ∧
      ∃ raw, Source.ligated.line? 3 = some raw ∧ u.span.Covers 3 raw "FILE".toList ∧
        ∃ raw' c, d.ReadAs .ligated 1 raw' c ∧ ¬ SameUpToCase "FILE".toList c.field ∧
          ¬ SameUpToCase "FILE".toList (trimBlanks c.phrase.value) := by
  obtain ⟨f, hf, u, hu, hspan, d, -, hline, howner⟩ : ∃ f ∈ (ofSource .ligated).formats,
      ∃ u ∈ f.allUsages, u.span = .onLine 3 18 22 ∧ ∃ d ∈ f.declarations.values,
        d.nameSpan.start.line = 1 ∧ f.declarationFor? u.name = some d := by decide +kernel
  obtain ⟨c, hread, htexts⟩ := Option.map_eq_some_iff.1
    (show (Clause.read? (normalize "     A  FLD 1A ALIAS(ﬁle)".toList)).map
      (fun c => (c.field, trimBlanks c.phrase.value)) = some ("FLD".toList, "ﬁle".toList) by
        decide +kernel)
  obtain ⟨hfield, hvalue⟩ := Prod.mk.inj htexts
  refine ⟨f, hf, u, hu, d, howner, _, rfl, ⟨18, 22, hspan, by decide, by decide, by decide⟩,
    _, c, ⟨hline, rfl, hread⟩, ?_, ?_⟩
  · rw [hfield]
    decide
  · rw [hvalue]
    decide

end Document

end DisplayFile
