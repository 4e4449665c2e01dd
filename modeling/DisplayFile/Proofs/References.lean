import DisplayFile.Proofs.RoundTrip

/-!
# References

The references of a position are found on a way of their own. They agree with what the position
leads to, and every span among them has the same references at each of its positions: references
form classes, one for each declaration with all that resolves to it, and one for each name that is
used but not declared.
-/

namespace DisplayFile

namespace Format

variable {f : Format} {d : Declaration} {u : Usage}

theorem referencesTo_true (f : Format) (d : Declaration) :
    f.referencesTo d true = d.nameSpan :: f.referencesTo d false := rfl

theorem referencesTo_false (f : Format) (d : Declaration) :
    f.referencesTo d false = (f.usagesFor d).map Usage.target := rfl

theorem references_of_resolving (howner : f.declarationFor? u.name = some d)
    (withDeclaration : Bool) :
    f.references withDeclaration (.usage u) = f.referencesTo d withDeclaration := by
  simp only [references, howner]

theorem references_of_undeclared (hnone : f.declarationFor? u.name = none)
    (withDeclaration : Bool) :
    f.references withDeclaration (.usage u) = (f.usagesOf u.name).map Usage.target := by
  simp only [references, hnone]

end Format

namespace Document

theorem references_eq_occurrenceAt? (document : Document) (p : Position) (withDeclaration : Bool) :
    document.references p withDeclaration =
      ((document.occurrenceAt? p).map fun found =>
        found.1.references withDeclaration found.2).getD [] := by
  unfold references occurrenceAt?
  cases document.formatAt? p.line with
  | none => rfl
  | some f =>
    rw [Option.bind_some, Option.bind_some]
    cases f.occurrenceAt? p with
    | none => rfl
    | some o => rfl

variable {s : Source} {f : Format} {d : Declaration} {u : Usage} {p q : Position} {t : Span}

theorem references_of_occurrenceAt? {document : Document} {o : Occurrence}
    (h : document.occurrenceAt? p = some (f, o)) (withDeclaration : Bool) :
    document.references p withDeclaration = f.references withDeclaration o := by
  rw [references_eq_occurrenceAt?, h, Option.map_some, Option.getD_some]

theorem resolve?_of_occurrenceAt? {document : Document} {o : Occurrence}
    (h : document.occurrenceAt? p = some (f, o)) : document.resolve? p = f.resolve? o := by
  rw [resolve?_eq_bind_occurrenceAt?, h, Option.bind_some]

/-- What can stand at a position: nothing, a kept declaration, or a usage. -/
theorem occurrenceAt?_cases (s : Source) (p : Position) :
    (ofSource s).occurrenceAt? p = none ∨
    (∃ f ∈ (ofSource s).formats, ∃ d ∈ f.declarations.values,
      (ofSource s).occurrenceAt? p = some (f, .declaration d)) ∨
    ∃ f ∈ (ofSource s).formats, ∃ u ∈ f.allUsages,
      (ofSource s).occurrenceAt? p = some (f, .usage u) := by
  unfold occurrenceAt?
  cases hformat : (ofSource s).formatAt? p.line with
  | none => exact Or.inl rfl
  | some f =>
    have hf := (formatAt?_eq_some_iff.1 hformat).1
    rw [Option.bind_some]
    cases hat : f.occurrenceAt? p with
    | none => exact Or.inl rfl
    | some o =>
      cases o with
      | declaration d =>
        exact Or.inr (Or.inl ⟨f, hf, d, Format.kept_of_occurrenceAt? hat, rfl⟩)
      | usage u => exact Or.inr (Or.inr ⟨f, hf, u, Format.used_of_occurrenceAt? hat, rfl⟩)

section Classes

variable (hf : f ∈ (ofSource s).formats)
include hf

/-- A declaration and all that resolves to it have the same references. -/
theorem references_of_mem_referencesTo (hd : d ∈ f.declarations.values)
    (ht : t ∈ f.referencesTo d true) (hq : t.contains q) (withDeclaration : Bool) :
    (ofSource s).references q withDeclaration = f.referencesTo d withDeclaration := by
  rw [Format.referencesTo_true, List.mem_cons] at ht
  rcases ht with rfl | ht
  · exact references_of_occurrenceAt? (occurrenceAt?_of_kept hf hd hq) withDeclaration
  · obtain ⟨u, hu, rfl⟩ := List.mem_map.1 ht
    obtain ⟨hmem, howner⟩ := (mem_usagesFor hf hd).1 hu
    rw [references_of_occurrenceAt? (occurrenceAt?_of_usage hf hmem hq),
      Format.references_of_resolving howner]

/-- All usages of a name that is not declared have the same references. -/
theorem references_of_mem_usagesOf (hnone : f.declarationFor? u.name = none)
    (ht : t ∈ (f.usagesOf u.name).map Usage.target) (hq : t.contains q) (withDeclaration : Bool) :
    (ofSource s).references q withDeclaration = (f.usagesOf u.name).map Usage.target := by
  have hholds := holds_of_mem hf
  obtain ⟨v, hv, rfl⟩ := List.mem_map.1 ht
  rw [hholds.usagesOf_eq, List.mem_filter, decide_eq_true_eq] at hv
  obtain ⟨hmem, hname⟩ := hv
  rw [references_of_occurrenceAt? (occurrenceAt?_of_usage hf (hholds.mem_allUsages.2 hmem) hq),
    Format.references_of_undeclared (by rw [hname, hnone]), hname]

theorem targets_nameSpan_start (hu : u ∈ f.allUsages) (howner : f.declarationFor? u.name = some d) :
    (ofSource s).targets d.nameSpan.start = f.referencesTo d false ∧
      u.target ∈ f.referencesTo d false := by
  have hholds := holds_of_mem hf
  have hkept := (hholds.kept_of_declarationFor? howner).1
  have hstart := Source.nameSpan_contains_start (hholds.mem_of_kept hkept)
  obtain ⟨hresolve, hlisted⟩ := resolve?_kept_of_resolving hf hu howner hstart
  refine ⟨?_, hlisted⟩
  rw [targets, hresolve]
  rfl

/-- The usages of a name, as they stand in the text. -/
theorem usagesOf_eq_filter_sorted (name : Name) :
    f.usagesOf name = (sortByStart f.allUsages).filter fun u => u.name = name := by
  have hholds := holds_of_mem hf
  rw [hholds.usagesOf_eq, hholds.sortByStart_allUsages (arranged_rowsOf s f)]

end Classes

theorem references_of_resolve?_declaration {r : Span}
    (h : (ofSource s).resolve? p = some (.declaration r)) :
    (ofSource s).references p true = r :: (ofSource s).references p false ∧
    (ofSource s).targets r.start = (ofSource s).references p false ∧
    ∃ f u, (ofSource s).occurrenceAt? p = some (f, .usage u) ∧
      u.target ∈ (ofSource s).references p false := by
  rcases occurrenceAt?_cases s p with hat | ⟨f, hf, d, hd, hat⟩ | ⟨f, hf, u, hu, hat⟩
  · rw [resolve?_eq_bind_occurrenceAt?, hat] at h
    cases h
  · rw [resolve?_of_occurrenceAt? hat, Format.resolve?_declaration] at h
    split at h
    · cases h
    · cases h
  · rw [resolve?_of_occurrenceAt? hat, Format.resolve?, Option.map_eq_some_iff] at h
    obtain ⟨d, howner, hr⟩ := h
    obtain rfl : d.nameSpan = r := by simpa using hr
    have hreferences (b : Bool) : (ofSource s).references p b = f.referencesTo d b := by
      rw [references_of_occurrenceAt? hat, Format.references_of_resolving howner]
    obtain ⟨htargets, hmem⟩ := targets_nameSpan_start hf hu howner
    rw [hreferences, hreferences]
    exact ⟨f.referencesTo_true d, htargets, f, u, hat, hmem⟩

theorem references_of_resolve?_usages {ts : List Span}
    (h : (ofSource s).resolve? p = some (.usages ts)) :
    (ofSource s).references p false = ts ∧
    ∃ f d, (ofSource s).occurrenceAt? p = some (f, .declaration d) ∧
      (ofSource s).references p true = d.nameSpan :: ts := by
  rcases occurrenceAt?_cases s p with hat | ⟨f, hf, d, hd, hat⟩ | ⟨f, hf, u, hu, hat⟩
  · rw [resolve?_eq_bind_occurrenceAt?, hat] at h
    cases h
  · have hreferences := references_of_occurrenceAt? hat
    rw [resolve?_of_occurrenceAt? hat, Format.resolve?_declaration] at h
    split at h
    · cases h
    · obtain rfl : f.referencesTo d false = ts := by simpa [Format.referencesTo_false] using h
      exact ⟨hreferences false, f, d, hat, hreferences true⟩
  · rw [resolve?_of_occurrenceAt? hat, Format.resolve?, Option.map_eq_some_iff] at h
    obtain ⟨d, -, hr⟩ := h
    cases hr

theorem references_of_resolve?_none (h : (ofSource s).resolve? p = none) :
    ((ofSource s).occurrenceAt? p = none ∧ ∀ b, (ofSource s).references p b = []) ∨
    (∃ f d, (ofSource s).occurrenceAt? p = some (f, .declaration d) ∧
      (∀ u ∈ f.allUsages, f.declarationFor? u.name ≠ some d) ∧
      (ofSource s).references p false = [] ∧ (ofSource s).references p true = [d.nameSpan]) ∨
    ∃ f u, (ofSource s).occurrenceAt? p = some (f, .usage u) ∧ f.declarationFor? u.name = none ∧
      ∀ b, (ofSource s).references p b =
        ((sortByStart f.allUsages).filter fun v => v.name = u.name).map Usage.target := by
  rcases occurrenceAt?_cases s p with hat | ⟨f, hf, d, hd, hat⟩ | ⟨f, hf, u, hu, hat⟩
  · refine Or.inl ⟨hat, fun b => ?_⟩
    rw [references_eq_occurrenceAt?, hat]
    rfl
  · rw [resolve?_of_occurrenceAt? hat, Format.resolve?_declaration] at h
    split at h
    · next hnil =>
      have hfalse : f.referencesTo d false = [] := by
        rw [Format.referencesTo_false, hnil, List.map_nil]
      refine Or.inr (Or.inl ⟨f, d, hat, (usagesFor_eq_nil_iff hf hd).1 hnil, ?_, ?_⟩)
      · exact (references_of_occurrenceAt? hat false).trans hfalse
      · exact (references_of_occurrenceAt? hat true).trans (congrArg (d.nameSpan :: ·) hfalse)
    · cases h
  · rw [resolve?_of_occurrenceAt? hat, Format.resolve?, Option.map_eq_none_iff] at h
    refine Or.inr (Or.inr ⟨f, u, hat, h, fun b => ?_⟩)
    rw [references_of_occurrenceAt? hat, Format.references_of_undeclared h,
      usagesOf_eq_filter_sorted hf]

theorem references_of_mem_references (ht : t ∈ (ofSource s).references p true) (hq : t.contains q)
    (b : Bool) : (ofSource s).references q b = (ofSource s).references p b := by
  rcases occurrenceAt?_cases s p with hat | ⟨f, hf, d, hd, hat⟩ | ⟨f, hf, u, hu, hat⟩
  · rw [references_eq_occurrenceAt?, hat] at ht
    cases ht
  · rw [references_of_occurrenceAt? hat] at ht ⊢
    exact references_of_mem_referencesTo hf hd ht hq b
  · rw [references_of_occurrenceAt? hat] at ht ⊢
    cases howner : f.declarationFor? u.name with
    | some d =>
      rw [Format.references_of_resolving howner] at ht ⊢
      exact references_of_mem_referencesTo hf ((holds_of_mem hf).kept_of_declarationFor? howner).1
        ht hq b
    | none =>
      rw [Format.references_of_undeclared howner] at ht ⊢
      exact references_of_mem_usagesOf hf howner ht hq b

/-- The references of a position agree with what it leads to: those of a usage that leads to a
declaration are the usages to which that declaration leads back, those of a declaration are the
usages it leads to, and where nothing is led to they are the usages of an undeclared name or none.
All spans among the references of a position have these same references. -/
theorem references_agree_with_resolution (s : Source) (p : Position) :
    (∀ r, (ofSource s).resolve? p = some (.declaration r) →
      (ofSource s).references p true = r :: (ofSource s).references p false ∧
      (ofSource s).targets r.start = (ofSource s).references p false ∧
      ∃ f u, (ofSource s).occurrenceAt? p = some (f, .usage u) ∧
        u.target ∈ (ofSource s).references p false) ∧
    (∀ ts, (ofSource s).resolve? p = some (.usages ts) →
      (ofSource s).references p false = ts ∧
      ∃ f d, (ofSource s).occurrenceAt? p = some (f, .declaration d) ∧
        (ofSource s).references p true = d.nameSpan :: ts) ∧
    ((ofSource s).resolve? p = none →
      ((ofSource s).occurrenceAt? p = none ∧ ∀ b, (ofSource s).references p b = []) ∨
      (∃ f d, (ofSource s).occurrenceAt? p = some (f, .declaration d) ∧
        (∀ u ∈ f.allUsages, f.declarationFor? u.name ≠ some d) ∧
        (ofSource s).references p false = [] ∧ (ofSource s).references p true = [d.nameSpan]) ∨
      ∃ f u, (ofSource s).occurrenceAt? p = some (f, .usage u) ∧
        f.declarationFor? u.name = none ∧
        ∀ b, (ofSource s).references p b =
          ((sortByStart f.allUsages).filter fun v => v.name = u.name).map Usage.target) ∧
    ∀ t ∈ (ofSource s).references p true, ∀ q, t.contains q → ∀ b,
      (ofSource s).references q b = (ofSource s).references p b := by
  refine ⟨?_, ?_, references_of_resolve?_none, ?_⟩
  · intro r hr
    exact references_of_resolve?_declaration hr
  · intro ts hts
    exact references_of_resolve?_usages hts
  · intro t ht q hq b
    exact references_of_mem_references ht hq b

/-- The two usages that resolve to one declaration, from either of them and from its name. -/
theorem references_agree_with_resolution_crossed :
    (ofSource .crossed).references ⟨4, 17⟩ true =
      .onLine 2 8 9 :: (ofSource .crossed).references ⟨4, 17⟩ false ∧
    (ofSource .crossed).targets ⟨2, 8⟩ = (ofSource .crossed).references ⟨4, 17⟩ false ∧
    (ofSource .crossed).references ⟨2, 8⟩ false = [.onLine 4 17 19, .onLine 4 27 29] ∧
    ∀ q, (Span.onLine 4 27 29).contains q → ∀ b,
      (ofSource .crossed).references q b = (ofSource .crossed).references ⟨4, 17⟩ b := by
  obtain ⟨husage, -, -, hsame⟩ := references_agree_with_resolution .crossed ⟨4, 17⟩
  obtain ⟨-, hname, -, -⟩ := references_agree_with_resolution .crossed ⟨2, 8⟩
  obtain ⟨htrue, htargets, -⟩ := husage (.onLine 2 8 9) (by decide +kernel)
  obtain ⟨hfalse, -⟩ := hname [.onLine 4 17 19, .onLine 4 27 29] (by decide +kernel)
  exact ⟨htrue, htargets, hfalse, hsame (.onLine 4 27 29) (by decide +kernel)⟩

end Document

end DisplayFile
