import DisplayFile.Proofs.Extraction
import DisplayFile.Proofs.Relocation
import DisplayFile.Warning

/-!
# Field names and tokens

The token of a declaration is the whole run of characters of field names that starts with its field
name. A field name has to end at a word boundary, at which `#` and `@` do not count as characters of
a word, and the keyword has to come behind it. So the name is the whole token exactly if the token
ends with a character of a word and a phrase follows it. Of any other token only a part is taken for
the name, and then two fields with different tokens may get one name.
-/

namespace DisplayFile

namespace Clause

variable {c : Clause} {line : Line}

/-- The run of characters of field names that starts where the field name starts. -/
def token (c : Clause) : Line := (c.text.drop c.column).takeWhile isFieldChar

/-- The text behind the token. -/
def afterToken (c : Clause) : Line := (c.text.drop c.column).dropWhile isFieldChar

/-- The token can be the field name: it ends with a character of a word, so that there is a word
boundary behind it, and a phrase follows. -/
structure TokenFits (c : Clause) : Prop where
  ends_word : c.token.getLast?.any isWordChar
  phrase_follows : ∃ p : AliasPhrase, p.WellFormed ∧ p.text = c.afterToken

theorem token_append_afterToken (c : Clause) :
    c.token ++ c.afterToken = c.field ++ c.phrase.text := by
  rw [token, afterToken, List.takeWhile_append_dropWhile, drop_column]

theorem isFieldChar_of_mem_token {x : Char} (hx : x ∈ c.token) : isFieldChar x :=
  List.all_eq_true.1 List.all_takeWhile x hx

/-- Behind a token there is no character of a word. -/
theorem head?_afterToken (c : Clause) : c.afterToken.head?.any isWordChar = false := by
  have hhead := List.head?_dropWhile_not isFieldChar (c.text.drop c.column)
  rw [← afterToken] at hhead
  cases hafter : c.afterToken.head? with
  | none => rfl
  | some x =>
    have hnot : isFieldChar x = false := by simpa only [hafter] using hhead
    apply Bool.eq_false_of_not_eq_true
    intro hword
    rw [isFieldChar_of_isWordChar hword] at hnot
    cases hnot

theorem Shaped.field_isPrefix_token (h : c.Shaped) : c.field <+: c.token := by
  rw [token, drop_column, List.takeWhile_append_of_pos h.field_chars]
  exact List.prefix_append _ _

/-- If the token fits, taking it for the field name gives a reading of the line, too. -/
theorem Reads.with_token (h : c.Reads line) {p : AliasPhrase} (hp : p.WellFormed)
    (htext : p.text = c.afterToken) (hends : c.token.getLast?.any isWordChar) :
    Reads ⟨c.lead, c.letter, c.gap, c.token, p⟩ line where
  lead_blank := h.lead_blank
  letter_upper := h.letter_upper
  gap_ne_nil := h.gap_ne_nil
  gap_blank := h.gap_blank
  field_ne_nil := by
    intro hnil
    have hprefix := h.field_isPrefix_token
    rw [show c.token = [] from hnil, List.prefix_nil] at hprefix
    exact h.field_ne_nil hprefix
  field_chars _ := isFieldChar_of_mem_token
  text_eq := by
    rw [← h.text_eq, text, text, List.append_assoc _ c.token, htext, token_append_afterToken,
      List.append_assoc _ c.field]
  field_boundary := by
    simp only [BoundaryBetween, htext, hends, head?_afterToken]
    decide
  phrase_wellFormed := hp

/-- What is read has the whole token for its field name if any reading of the line can. -/
theorem field_eq_token_iff (h : read? line = some c) : c.field = c.token ↔ c.TokenFits := by
  have hc := reads_of_read? h
  constructor
  · intro htoken
    have htext : c.phrase.text = c.afterToken := by
      have hsplit := c.token_append_afterToken
      rw [← htoken] at hsplit
      exact (List.append_cancel_left hsplit).symm
    have hboundary := hc.field_boundary
    rw [BoundaryBetween, htext, head?_afterToken, htoken] at hboundary
    exact ⟨Bool.eq_true_of_not_eq_false hboundary, c.phrase, hc.phrase_wellFormed, htext⟩
  · rintro ⟨hends, p, hp, htext⟩
    have hle := hc.field_isPrefix_token.length_le
    apply hc.field_isPrefix_token.eq_of_length
    rcases (hc.with_token hp htext hends).eq_or_precedes h with heq | hlonger | ⟨hlength, -⟩
    · exact congrArg (fun d => d.field.length) heq.symm
    · change c.token.length < c.field.length at hlonger
      omega
    · exact hlength.symm

end Clause

/-- The characters of field names are ASCII, and so are their capitals. -/
theorem capitals_of_forall_isFieldChar {text : Line} (h : ∀ x ∈ text, isFieldChar x) :
    capitals text = text.map Char.toUpper := by
  apply capitals_of_forall_lt
  intro x hx
  have hchar := h x hx
  simp only [isFieldChar, Bool.or_eq_true, beq_iff_eq] at hchar
  rcases hchar with (hword | rfl) | rfl
  · exact toNat_lt_of_isWordChar hword
  · decide
  · decide

theorem Clause.capitals_token (c : Clause) : capitals c.token = c.token.map Char.toUpper :=
  capitals_of_forall_isFieldChar fun _ => isFieldChar_of_mem_token

theorem Clause.Shaped.capitals_field_eq_iff {c : Clause} (h : c.Shaped) :
    capitals c.field = capitals c.token ↔ c.field = c.token := by
  constructor
  · intro hcapitals
    rw [capitals_of_forall_isFieldChar h.field_chars, c.capitals_token] at hcapitals
    apply h.field_isPrefix_token.eq_of_length
    simpa only [List.length_map] using congrArg List.length hcapitals
  · intro htoken
    rw [← htoken]

/-- Two fields whose names end with other signs than those of words, and two fields in whose names
such signs stand before a digit. -/
def Source.hashed : Source := .ofLines <| List.map String.toList [
  "     A          R F",
  "     A  F# 1A ALIAS(X)",
  "     A  F@ 1A ALIAS(Y)",
  "     A  G#1 1A ALIAS(X)",
  "     A  g@1 1A ALIAS(Y)"]

namespace Document

variable {s : Source} {f : Format} {d : Declaration} {line : Nat} {raw : Line} {c : Clause}

theorem name_of_readAs (hf : f ∈ (ofSource s).formats)
    (hd : d ∈ f.declarations.values ++ f.shadowed) (h : d.ReadAs s line raw c) :
    d.name = capitals c.field := by
  obtain ⟨_, _, _, hreadAs, hclause⟩ := exists_readAs hf hd
  obtain ⟨rfl, rfl, rfl⟩ := h.unique hreadAs
  obtain ⟨column, -, rfl⟩ := Option.map_eq_some_iff.1 hclause
  rfl

theorem name_eq_capitals_token_iff (hf : f ∈ (ofSource s).formats)
    (hd : d ∈ f.declarations.values ++ f.shadowed) (h : d.ReadAs s line raw c) :
    d.name = capitals c.token ↔ c.TokenFits := by
  rw [name_of_readAs hf hd h, (Clause.shaped_of_read? h.read?_eq).capitals_field_eq_iff,
    Clause.field_eq_token_iff h.read?_eq]

/-- The name of a declaration is its whole token exactly if the token ends with a character of a
word and a phrase follows it. Two fields with such tokens get one name only if their tokens differ
in case alone. -/
theorem name_is_token_iff (s : Source) :
    (∀ f ∈ (ofSource s).formats, ∀ d ∈ f.declarations.values ++ f.shadowed,
      ∃ line raw c, d.ReadAs s line raw c ∧ d.name = capitals c.field ∧ c.field <+: c.token ∧
        (d.name = capitals c.token ↔ c.TokenFits)) ∧
    ∀ f ∈ (ofSource s).formats, ∀ d ∈ f.declarations.values ++ f.shadowed,
      ∀ g ∈ (ofSource s).formats, ∀ e ∈ g.declarations.values ++ g.shadowed,
        ∀ line raw c line' raw' c', d.ReadAs s line raw c → e.ReadAs s line' raw' c' →
          c.TokenFits → c'.TokenFits →
          c.token.map Char.toUpper ≠ c'.token.map Char.toUpper → d.name ≠ e.name := by
  constructor
  · intro f hf d hd
    obtain ⟨line, raw, c, hreadAs, -⟩ := exists_readAs hf hd
    exact ⟨line, raw, c, hreadAs, name_of_readAs hf hd hreadAs,
      (Clause.shaped_of_read? hreadAs.read?_eq).field_isPrefix_token,
      name_eq_capitals_token_iff hf hd hreadAs⟩
  · intro f hf d hd g hg e he line raw c line' raw' c' hreadAs hreadAs' hfits hfits' hdiffer
    rw [(name_eq_capitals_token_iff hf hd hreadAs).2 hfits,
      (name_eq_capitals_token_iff hg he hreadAs').2 hfits', c.capitals_token, c'.capitals_token]
    exact hdiffer

theorem name_is_token_iff_hashed :
    ∃ f ∈ (ofSource .hashed).formats, ∃ d ∈ f.declarations.values ++ f.shadowed,
      ∃ e ∈ f.declarations.values ++ f.shadowed, ∃ raw c raw' c',
        d.ReadAs .hashed 3 raw c ∧ c.TokenFits ∧ c.token = "G#1".toList ∧
        e.ReadAs .hashed 4 raw' c' ∧ c'.TokenFits ∧ c'.token = "g@1".toList ∧
        d.name = capitals c.token ∧ d.name ≠ e.name := by
  obtain ⟨f, hf, d, hd, hline, e, he, hline'⟩ : ∃ f ∈ (ofSource .hashed).formats,
      ∃ d ∈ f.declarations.values ++ f.shadowed, d.nameSpan.start.line = 3 ∧
        ∃ e ∈ f.declarations.values ++ f.shadowed, e.nameSpan.start.line = 4 := by decide +kernel
  obtain ⟨c, hread, hc⟩ := Option.map_eq_some_iff.1
    (show (Clause.read? (normalize "     A  G#1 1A ALIAS(X)".toList)).map
      (fun c => (c.field, c.token)) = some ("G#1".toList, "G#1".toList) by decide +kernel)
  obtain ⟨c', hread', hc'⟩ := Option.map_eq_some_iff.1
    (show (Clause.read? (normalize "     A  g@1 1A ALIAS(Y)".toList)).map
      (fun c => (c.field, c.token)) = some ("g@1".toList, "g@1".toList) by decide +kernel)
  obtain ⟨hfield, htoken⟩ := Prod.mk.inj hc
  obtain ⟨hfield', htoken'⟩ := Prod.mk.inj hc'
  have hfits := (Clause.field_eq_token_iff hread).1 (hfield.trans htoken.symm)
  have hfits' := (Clause.field_eq_token_iff hread').1 (hfield'.trans htoken'.symm)
  have hreadAs : d.ReadAs .hashed 3 _ c := ⟨hline, rfl, hread⟩
  have hreadAs' : e.ReadAs .hashed 4 _ c' := ⟨hline', rfl, hread'⟩
  obtain ⟨hnames, hapart⟩ := name_is_token_iff .hashed
  obtain ⟨_, _, _, hunique, -, -, hwhole⟩ := hnames f hf d hd
  obtain ⟨-, -, rfl⟩ := hunique.unique hreadAs
  refine ⟨f, hf, d, hd, e, he, _, _, _, c', hreadAs, hfits, htoken, hreadAs', hfits', htoken',
    hwhole.2 hfits, hapart f hf d hd f hf e he _ _ _ _ _ _ hreadAs hreadAs' hfits hfits' ?_⟩
  rw [htoken, htoken']
  decide +kernel

/-- The tokens `F#` and `F@` do not end with a character of a word. Both fields get the name `F`, so
the first counts as declared again by the second. -/
theorem name_ne_token_hashed :
    ∃ f ∈ (ofSource .hashed).formats, ∃ d ∈ f.shadowed, ∃ e ∈ f.declarations.values,
      d.name = "F".toList ∧ e.name = "F".toList ∧
      (∃ raw c, d.ReadAs .hashed 1 raw c ∧ c.token = "F#".toList) ∧
      (∃ raw c, e.ReadAs .hashed 2 raw c ∧ c.token = "F@".toList) ∧
      (ofSource .hashed).warnings.map Warning.span = [d.nameSpan] := by
  obtain ⟨f, hf, d, hd, hline, hname, hwarned, e, he, hline', hname'⟩ :
      ∃ f ∈ (ofSource .hashed).formats, ∃ d ∈ f.shadowed, d.nameSpan.start.line = 1 ∧
        d.name = "F".toList ∧ (ofSource .hashed).warnings.map Warning.span = [d.nameSpan] ∧
        ∃ e ∈ f.declarations.values, e.nameSpan.start.line = 2 ∧ e.name = "F".toList := by
    decide +kernel
  obtain ⟨c, hread, htoken⟩ := Option.map_eq_some_iff.1
    (show (Clause.read? (normalize "     A  F# 1A ALIAS(X)".toList)).map (·.token) =
      some "F#".toList by decide +kernel)
  obtain ⟨c', hread', htoken'⟩ := Option.map_eq_some_iff.1
    (show (Clause.read? (normalize "     A  F@ 1A ALIAS(Y)".toList)).map (·.token) =
      some "F@".toList by decide +kernel)
  exact ⟨f, hf, d, hd, e, he, hname, hname', ⟨_, c, ⟨hline, rfl, hread⟩, htoken⟩,
    ⟨_, c', ⟨hline', rfl, hread'⟩, htoken'⟩, hwarned⟩

end Document

end DisplayFile
