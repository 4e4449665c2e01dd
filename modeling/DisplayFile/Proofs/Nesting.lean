import DisplayFile.Proofs.Agreement

/-!
# Outlines are nested

An editor shows an outline only if the span of each entry holds its selection and the spans of the
entries below it. The span of a format runs from the start of its header to the end of its last
line, that of a field from its name to the end of its value, which stands behind the name on the
same line. So every entry is nested, and the formats follow one another line by line. A session
sends the outline in words of 32 bits; if lines and columns fit into words, all of this is true of
what it sends as well.
-/

namespace DisplayFile

/-- The one span starts and ends within the other. -/
def Span.Within (inner outer : Span) : Prop :=
  outer.start ≤ inner.start ∧ inner.stop ≤ outer.stop

namespace Symbol

/-- Within the span of the entry lie its selection and the spans of the entries right below it,
which cover some text, and all entries below it are nested, too. -/
inductive Nested : Symbol → Prop where
  | intro {symbol : Symbol} (selection : symbol.selection.Within symbol.span)
      (within : ∀ child ∈ symbol.children, child.span.Within symbol.span)
      (covers : ∀ child ∈ symbol.children, child.span.start < child.span.stop)
      (children : ∀ child ∈ symbol.children, child.Nested) : symbol.Nested

/-- All spans and selections of the entry and of those below it have the property `p`. -/
inductive All (p : Span → Prop) : Symbol → Prop where
  | intro {symbol : Symbol} (span : p symbol.span) (selection : p symbol.selection)
      (children : ∀ child ∈ symbol.children, child.All p) : symbol.All p

/-- The second entry starts after the end of the first, on the next line. -/
def FollowedBy (symbol next : Symbol) : Prop :=
  symbol.span.stop < next.span.start ∧ next.span.start.line = symbol.span.stop.line + 1

/-- The entry is that of the format: it spans its lines and has an entry for each of its fields. -/
structure StandsFor (f : Format) (symbol : Symbol) : Prop where
  kind : symbol.kind = .format
  start : symbol.span.start = ⟨f.startLine, 0⟩
  stop_line : symbol.span.stop.line = f.endLine
  fields : symbol.children.map selection = f.declarations.values.map Declaration.nameSpan

end Symbol

/-- The outline has one entry for each format, in their order. All entries are nested, and each
format follows the one before it. -/
structure NestedOutline (formats : List Format) (symbols : List Symbol) : Prop where
  entries : formats.Forall₂ Symbol.StandsFor symbols
  nested : ∀ symbol ∈ symbols, symbol.Nested
  consecutive : symbols.IsChain Symbol.FollowedBy

section Fields

variable {d : Declaration} {line : Nat} {raw : Line}

theorem Declaration.StandsOn.symbol_span (h : d.StandsOn line raw) :
    ∃ start stop, d.symbol.span = .onLine line start stop ∧ start < stop ∧ stop ≤ raw.length := by
  obtain ⟨field, ⟨start, stop, hname, hlt, hle, -⟩, -⟩ := h.name
  cases hvalue : d.valueSpan with
  | none => exact ⟨start, stop, by simp only [symbol, hvalue, hname], hlt, hle⟩
  | some span =>
    obtain ⟨hbehind, value, ⟨start', stop', rfl, hlt', hle', -⟩, -⟩ := h.value span hvalue
    simp only [hname, Span.onLine, Position.le_def] at hbehind
    exact ⟨start, stop', by simp only [symbol, hvalue, hname, Span.onLine], by omega, hle'⟩

theorem Declaration.StandsOn.nested_symbol (h : d.StandsOn line raw) : d.symbol.Nested := by
  have hselection : d.nameSpan.Within d.symbol.span := by
    cases hvalue : d.valueSpan with
    | none =>
      simp only [symbol, hvalue]
      exact ⟨Position.le_refl _, Position.le_refl _⟩
    | some span =>
      obtain ⟨hbehind, value, ⟨start, stop, rfl, hlt, -⟩, -⟩ := h.value span hvalue
      have hstop : (Position.mk line start) ≤ ⟨line, stop⟩ :=
        Position.le_def.2 (Or.inr ⟨rfl, Nat.le_of_lt hlt⟩)
      simp only [symbol, hvalue]
      exact ⟨Position.le_refl _, Position.le_trans hbehind hstop⟩
  exact .intro hselection nofun nofun nofun

end Fields

section Formats

variable {s : Source} {f : Format} {d : Declaration} {line start stop : Nat} {raw : Line}

theorem Source.width_of_line? (h : s.line? line = some raw) : s.width line = raw.length := by
  simp [width, h]

/-- What stands on a line of a format lies within the span of its entry. -/
theorem Format.onLine_within_symbol (hline : f.containsLine line) (hraw : s.line? line = some raw)
    (hstop : stop ≤ raw.length) : (Span.onLine line start stop).Within (f.symbol s).span := by
  obtain ⟨hfirst, hlast⟩ := containsLine_iff.1 hline
  refine ⟨?_, ?_⟩
  · change Position.mk f.startLine 0 ≤ ⟨line, start⟩
    simp only [Position.le_def]
    omega
  · change Position.mk line stop ≤ ⟨f.endLine, s.width f.endLine⟩
    rw [Position.le_def]
    rcases Nat.lt_or_eq_of_le hlast with hlt | rfl
    · exact Or.inl hlt
    · exact Or.inr ⟨rfl, hstop.trans_eq (Source.width_of_line? hraw).symm⟩

namespace Document

variable (hf : f ∈ (ofSource s).formats)
include hf

theorem exists_standsOn_of_kept (hd : d ∈ f.declarations.values) :
    ∃ line raw, f.containsLine line ∧ s.line? line = some raw ∧ d.StandsOn line raw :=
  Source.standsOn_of_declared ((holds_of_mem hf).mem_of_kept hd)

theorem nested_symbol : (f.symbol s).Nested := by
  obtain ⟨-, hle, -⟩ := (tiles_formats s).bounds hf
  have hheader : (Position.mk f.startLine (s.width f.startLine)) ≤
      ⟨f.endLine, s.width f.endLine⟩ := by
    rw [Position.le_def]
    rcases Nat.lt_or_eq_of_le hle with hlt | heq
    · exact Or.inl hlt
    · exact Or.inr ⟨heq, Nat.le_of_eq (congrArg s.width heq)⟩
  have hfields (p : Symbol → Prop) (hp : ∀ d ∈ f.declarations.values, p d.symbol) :
      ∀ child ∈ (f.symbol s).children, p child := by
    intro child hchild
    obtain ⟨d, hd, rfl⟩ := List.mem_map.1 hchild
    exact hp d hd
  refine .intro ⟨Position.le_refl _, hheader⟩ (hfields _ ?_) (hfields _ ?_) (hfields _ ?_)
  · intro d hd
    obtain ⟨line, raw, hline, hraw, hstands⟩ := exists_standsOn_of_kept hf hd
    obtain ⟨start, stop, hspan, -, hstop⟩ := hstands.symbol_span
    rw [hspan]
    exact Format.onLine_within_symbol hline hraw hstop
  · intro d hd
    obtain ⟨line, raw, -, -, hstands⟩ := exists_standsOn_of_kept hf hd
    obtain ⟨start, stop, hspan, hlt, -⟩ := hstands.symbol_span
    rw [hspan]
    exact Position.lt_def.2 (Or.inr ⟨rfl, hlt⟩)
  · intro d hd
    obtain ⟨line, raw, -, -, hstands⟩ := exists_standsOn_of_kept hf hd
    exact hstands.nested_symbol

omit hf

theorem nestedOutline_outline (s : Source) :
    NestedOutline (ofSource s).formats ((ofSource s).outline s) where
  entries := by
    rw [outline, List.forall₂_map_right_iff, List.forall₂_same]
    intro f _
    refine ⟨rfl, rfl, rfl, ?_⟩
    rw [Format.symbol, List.map_map]
    rfl
  nested symbol hsymbol := by
    obtain ⟨f, hf, rfl⟩ := List.mem_map.1 hsymbol
    exact nested_symbol hf
  consecutive := by
    rw [outline, List.isChain_map]
    refine (tiles_formats s).isChain.imp ?_
    intro f g hnext
    refine ⟨Position.lt_def.2 (Or.inl ?_), hnext.symm⟩
    exact Nat.lt_of_succ_le (Nat.le_of_eq hnext)

end Document

end Formats

/-! ### In words -/

/-- The entry with its coordinates read as numbers. -/
def EditorSymbol.symbol : EditorSymbol → Symbol
  | ⟨name, detail, kind, extent, selection, children⟩ =>
    ⟨name, detail, kind, extent.span, selection.span, children.map symbol⟩

/-- An entry all of whose coordinates fit into words comes through unchanged. -/
theorem Symbol.All.symbol_forEditor {symbol : Symbol}
    (h : symbol.All fun span => span.extent.span = span) : symbol.forEditor.symbol = symbol := by
  induction h with
  | @intro symbol hspan hselection hchildren ih =>
    obtain ⟨name, detail, kind, span, selection, children⟩ := symbol
    have hbelow : (children.map forEditor).map EditorSymbol.symbol = children := by
      rw [List.map_map]
      exact (List.map_congr_left ih).trans (List.map_id children)
    rw [forEditor, EditorSymbol.symbol, hspan, hselection, hbelow]

section Words

variable {s : Source} (hlines : s.lineCount < UInt32.size)
  (hwidths : ∀ n raw, s.line? n = some raw → raw.length < UInt32.size)
include hwidths

theorem Source.width_lt (n : Nat) : s.width n < UInt32.size := by
  cases hraw : s.line? n with
  | none =>
    rw [width, hraw]
    decide
  | some raw =>
    rw [width_of_line? hraw]
    exact hwidths n raw hraw

include hlines

theorem Declaration.StandsOn.all_fit_symbol {d : Declaration} {line : Nat} {raw : Line}
    (h : d.StandsOn line raw) (hraw : s.line? line = some raw) :
    d.symbol.All fun span => span.extent.span = span := by
  obtain ⟨start, stop, hspan, hlt, hstop⟩ := h.symbol_span
  have hfits : d.symbol.span.LiesIn s := ⟨line, raw, start, stop, hraw, hspan, hlt, hstop⟩
  obtain ⟨field, hname, -⟩ := h.name
  exact .intro (hfits.extent_span hlines hwidths)
    ((hname.liesIn hraw).extent_span hlines hwidths) nofun

theorem Document.all_fit_symbol {f : Format} (hf : f ∈ (ofSource s).formats) :
    (f.symbol s).All fun span => span.extent.span = span := by
  obtain ⟨-, hle, hend⟩ := (tiles_formats s).bounds hf
  have hposition (line column : Nat) (hline : line ≤ f.endLine) (hcolumn : column < UInt32.size) :
      (Position.mk line column).point.position = ⟨line, column⟩ :=
    Position.position_point ((hline.trans_lt hend).trans hlines) hcolumn
  refine .intro ?_ ?_ ?_
  · rw [Extent.span, Span.extent, Format.symbol, hposition _ 0 hle (by decide),
      hposition _ _ (Nat.le_refl _) (Source.width_lt hwidths _)]
  · rw [Extent.span, Span.extent, Format.symbol, Span.onLine, hposition _ 0 hle (by decide),
      hposition _ _ hle (Source.width_lt hwidths _)]
  · intro child hchild
    obtain ⟨d, hd, rfl⟩ := List.mem_map.1 hchild
    obtain ⟨line, raw, -, hraw, hstands⟩ := exists_standsOn_of_kept hf hd
    exact hstands.all_fit_symbol hlines hwidths hraw

theorem Document.map_symbol_forEditor_outline :
    (((ofSource s).outline s).map Symbol.forEditor).map EditorSymbol.symbol =
      (ofSource s).outline s := by
  rw [List.map_map]
  refine (List.map_congr_left ?_).trans (List.map_id _)
  intro symbol hsymbol
  obtain ⟨f, hf, rfl⟩ := List.mem_map.1 hsymbol
  exact (all_fit_symbol hlines hwidths hf).symbol_forEditor

end Words

namespace Session

theorem answer_outline_after {uri text : String} {version : Int} {events : List Event}
    (h : revision? uri events = some ⟨text, version⟩) :
    ((after .standard events).step .standard (.outline uri)).answer =
      .outline (((Document.ofSource (.ofText text.toList)).outline (.ofText text.toList)).map
        Symbol.forEditor) := by
  have hget : (after .standard events).documents.get? uri = some (.ofText text version) := by
    rw [get?_documents_after, h]
    rfl
  simp only [step, outline, hget]
  rfl

end Session

/-- A format that ends with an empty line, and one that is no more than a header without a name. -/
def outlined : String := "     A          R F\r\n     A  P 1A ALIAS(Q)\n\n     A          R"

/-- The outline of a document is nested. The outline that a session sends for a text whose lines and
columns fit into words is the same, and so nested as well. -/
theorem Document.outline_is_nested (s : Source) :
    NestedOutline (ofSource s).formats ((ofSource s).outline s) ∧
    ∀ (uri text : String) (version : Int) (events : List Event), s = .ofText text.toList →
      revision? uri events = some ⟨text, version⟩ → s.lineCount < 2 ^ 32 →
      (∀ n raw, s.line? n = some raw → raw.length < 2 ^ 32) →
      ∃ symbols,
        ((Session.after .standard events).step .standard (.outline uri)).answer =
          .outline symbols ∧
        symbols.map EditorSymbol.symbol = (ofSource s).outline s ∧
        NestedOutline (ofSource s).formats (symbols.map EditorSymbol.symbol) := by
  have hnested := nestedOutline_outline s
  refine ⟨hnested, ?_⟩
  intro uri text version events hs hcurrent hlines hwidths
  have hwords := map_symbol_forEditor_outline hlines hwidths
  refine ⟨((ofSource s).outline s).map Symbol.forEditor, ?_, hwords, ?_⟩
  · rw [Session.answer_outline_after hcurrent, ← hs]
  · rw [hwords]
    exact hnested

theorem Document.outline_is_nested_outlined :
    let s : Source := .ofText outlined.toList
    let events := [.opened "screen" "" 1, .changed "screen" ["", outlined] 2, .closed "other"]
    revision? "screen" events = some ⟨outlined, 2⟩ ∧ s.lineCount < 2 ^ 32 ∧
    (∀ n raw, s.line? n = some raw → raw.length < 2 ^ 32) ∧
    ∃ symbols,
      ((Session.after .standard events).step .standard (.outline "screen")).answer =
        .outline symbols ∧
      symbols.map (fun e => e.extent.span) = [⟨⟨0, 0⟩, ⟨2, 0⟩⟩, .onLine 3 0 17] ∧
      NestedOutline (ofSource s).formats (symbols.map EditorSymbol.symbol) := by
  intro s events
  have hcurrent : revision? "screen" events = some ⟨outlined, 2⟩ := rfl
  obtain ⟨hcount, hlengths, hspans⟩ : s.lineCount = 4 ∧
      (∀ raw ∈ s.lines.filterMap id, raw.length < 2 ^ 32) ∧
      ((ofSource s).outline s).map Symbol.span = [⟨⟨0, 0⟩, ⟨2, 0⟩⟩, .onLine 3 0 17] := by
    decide +kernel
  have hlines : s.lineCount < 2 ^ 32 := by omega
  have hwidths : ∀ n raw, s.line? n = some raw → raw.length < 2 ^ 32 := by
    intro n raw hraw
    rw [Source.line?_eq_some_iff, Source.mem_rows] at hraw
    exact hlengths raw (List.mem_filterMap.2 ⟨_, List.mem_of_getElem? hraw, rfl⟩)
  obtain ⟨symbols, hanswer, hsame, hnested⟩ :=
    (outline_is_nested s).2 "screen" outlined 2 events rfl hcurrent hlines hwidths
  refine ⟨hcurrent, hlines, hwidths, symbols, hanswer, ?_, hnested⟩
  rw [← hspans, ← hsame, List.map_map]
  refine List.map_congr_left ?_
  rintro ⟨_, _, _, _, _, _⟩ -
  rw [Function.comp_apply, EditorSymbol.symbol]

end DisplayFile
