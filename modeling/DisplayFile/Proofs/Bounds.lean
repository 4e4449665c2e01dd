import DisplayFile.Proofs.SpanText

/-!
# Spans lie on lines of the source

Every span that a position leads to covers some characters of a single line that can be read.
-/

namespace DisplayFile

/-- The span covers at least one character, and all it covers are on a line that can be read. -/
def Span.LiesIn (span : Span) (s : Source) : Prop :=
  ∃ line raw start stop, s.line? line = some raw ∧ span = .onLine line start stop ∧
    start < stop ∧ stop ≤ raw.length

theorem Span.Covers.liesIn {span : Span} {line : Nat} {raw text : Line} {s : Source}
    (h : span.Covers line raw text) (hraw : s.line? line = some raw) : span.LiesIn s := by
  obtain ⟨start, stop, hspan, hlt, hle, -⟩ := h
  exact ⟨line, raw, start, stop, hraw, hspan, hlt, hle⟩

namespace Document

variable {s : Source} {p : Position} {r : Resolution}

/-- A position leads from a field name to its usages, or from a usage to its declaration. -/
theorem resolve?_cases (h : (ofSource s).resolve? p = some r) :
    (∃ f ∈ (ofSource s).formats, ∃ d ∈ f.declarations.values, f.usagesFor d ≠ [] ∧
      r = .usages ((f.usagesFor d).map Usage.target)) ∨
    ∃ f ∈ (ofSource s).formats, ∃ d ∈ f.declarations.values, r = .declaration d.nameSpan := by
  rcases occurrenceAt?_cases s p with hat | ⟨f, hf, d, hd, hat⟩ | ⟨f, hf, u, hu, hat⟩
  · rw [resolve?_eq_bind_occurrenceAt?, hat] at h
    cases h
  · rw [resolve?_of_occurrenceAt? hat, Format.resolve?_declaration] at h
    split at h
    · cases h
    · next hne => exact Or.inl ⟨f, hf, d, hd, hne, (Option.some.inj h).symm⟩
  · rw [resolve?_of_occurrenceAt? hat, Format.resolve?, Option.map_eq_some_iff] at h
    obtain ⟨d, howner, hr⟩ := h
    exact Or.inr ⟨f, hf, d, ((holds_of_mem hf).kept_of_declarationFor? howner).1, hr.symm⟩

/-- Wherever a position leads, there is text. -/
theorem liesIn_of_resolve? (h : (ofSource s).resolve? p = some r) :
    ∀ span ∈ r.spans, span.LiesIn s := by
  intro span hspan
  obtain ⟨f, -, line, raw, text, -, hraw, hcovers⟩ :=
    covers_of_mem_references (mem_references_of_resolve? h hspan)
  exact hcovers.liesIn hraw

end Document

end DisplayFile
