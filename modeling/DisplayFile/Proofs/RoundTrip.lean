import DisplayFile.Proofs.Occurrences

/-!
# There and back by position

Any position on a usage leads to the name of the declaration that the usage resolves to, and any
position on that name leads to all usages that resolve to the declaration, the first one among them.
A position on a field name leads nowhere only if no usage resolves to its declaration, as is so for
every shadowed one.
-/

namespace DisplayFile

/-- Every position on every one of the spans leads to the declaration with this name span. -/
def Document.AllLeadTo (document : Document) (spans : List Span) (name : Span) : Prop :=
  ∀ span ∈ spans, ∀ p, span.contains p → document.resolve? p = some (.declaration name)

theorem Format.resolve?_declaration (f : Format) (d : Declaration) :
    f.resolve? (.declaration d) =
      if f.usagesFor d = [] then none else some (.usages ((f.usagesFor d).map Usage.target)) := by
  simp only [resolve?]
  cases f.usagesFor d with
  | nil => rfl
  | cons u rest => rfl

namespace Document

section Kept

variable {s : Source} {f : Format} (hf : f ∈ (ofSource s).formats) {d : Declaration} {u : Usage}
  {q : Position}
include hf

theorem mem_usagesFor (hd : d ∈ f.declarations.values) :
    u ∈ f.usagesFor d ↔ u ∈ f.allUsages ∧ f.declarationFor? u.name = some d := by
  have hholds := holds_of_mem hf
  rw [hholds.usagesFor_eq_filter (arranged_rowsOf s f) hd, List.mem_filter, decide_eq_true_eq,
    hholds.mem_allUsages]

theorem usagesFor_eq_nil_iff (hd : d ∈ f.declarations.values) :
    f.usagesFor d = [] ↔ ∀ u ∈ f.allUsages, f.declarationFor? u.name ≠ some d := by
  rw [List.eq_nil_iff_forall_not_mem]
  constructor
  · intro hnone u hu howner
    exact hnone u ((mem_usagesFor hf hd).2 ⟨hu, howner⟩)
  · intro hunused u hu
    obtain ⟨hmem, howner⟩ := (mem_usagesFor hf hd).1 hu
    exact hunused u hmem howner

theorem pairwise_target_usagesFor (hd : d ∈ f.declarations.values) :
    ((f.usagesFor d).map Usage.target).Pairwise fun t t' => t.start < t'.start := by
  have harranged := arranged_rowsOf s f
  rw [(holds_of_mem hf).usagesFor_eq_filter harranged hd, List.pairwise_map]
  refine (harranged.usages.sublist List.filter_sublist).imp_of_mem ?_
  intro u v hu _ hlt
  exact (harranged.placed u (List.mem_filter.1 hu).1).target_start_lt hlt

theorem allLeadTo_usagesFor (hd : d ∈ f.declarations.values) :
    (ofSource s).AllLeadTo ((f.usagesFor d).map Usage.target) d.nameSpan := by
  intro span hspan p hp
  obtain ⟨u, hu, rfl⟩ := List.mem_map.1 hspan
  obtain ⟨hmem, howner⟩ := (mem_usagesFor hf hd).1 hu
  rw [resolve?_of_usage hf hmem hp, howner, Option.map_some]

theorem resolve?_kept_of_resolving (hu : u ∈ f.allUsages)
    (howner : f.declarationFor? u.name = some d) (hq : d.nameSpan.contains q) :
    (ofSource s).resolve? q = some (.usages ((f.usagesFor d).map Usage.target)) ∧
      u.target ∈ (f.usagesFor d).map Usage.target := by
  have hd := ((holds_of_mem hf).kept_of_declarationFor? howner).1
  have hlisted := (mem_usagesFor hf hd).2 ⟨hu, howner⟩
  rw [resolve?_of_kept hf hd hq, Format.resolve?_declaration,
    if_neg (List.ne_nil_of_mem hlisted)]
  exact ⟨rfl, List.mem_map_of_mem hlisted⟩

theorem resolve?_kept_of_unused (hd : d ∈ f.declarations.values) (hq : d.nameSpan.contains q)
    (hunused : ∀ u ∈ f.allUsages, f.declarationFor? u.name ≠ some d) :
    (ofSource s).resolve? q = none := by
  rw [resolve?_of_kept hf hd hq, Format.resolve?_declaration,
    if_pos ((usagesFor_eq_nil_iff hf hd).2 hunused)]

end Kept

/-- From any position on a usage to any position on the name it leads to and back to every usage;
from any position on a kept name to its usages and back, or nowhere if it has none; and from a
shadowed name nowhere. -/
theorem resolve?_round_trip (s : Source) {f : Format} (hf : f ∈ (ofSource s).formats) :
    (∀ u ∈ f.allUsages, ∀ p, u.target.contains p →
      ∀ r, (ofSource s).resolve? p = some (.declaration r) → ∀ q, r.contains q →
        ∃ ts, (ofSource s).resolve? q = some (.usages ts) ∧ u.target ∈ ts ∧
          ts.Pairwise (fun t t' => t.start < t'.start) ∧ (ofSource s).AllLeadTo ts r) ∧
    (∀ d ∈ f.declarations.values, ∀ q, d.nameSpan.contains q →
      (∃ u ∈ f.allUsages, f.declarationFor? u.name = some d) ∧
          (∃ ts, (ofSource s).resolve? q = some (.usages ts) ∧
            (ofSource s).AllLeadTo ts d.nameSpan) ∨
        (∀ u ∈ f.allUsages, f.declarationFor? u.name ≠ some d) ∧
          (ofSource s).resolve? q = none) ∧
    ∀ d ∈ f.shadowed, ∀ q, d.nameSpan.contains q → (ofSource s).resolve? q = none := by
  refine ⟨?_, ?_, ?_⟩
  · intro u hu p hp r hr q hq
    rw [resolve?_of_usage hf hu hp, Option.map_eq_some_iff] at hr
    obtain ⟨d, howner, hspan⟩ := hr
    obtain rfl : d.nameSpan = r := by simpa using hspan
    have hd := ((holds_of_mem hf).kept_of_declarationFor? howner).1
    obtain ⟨hresolve, hmem⟩ := resolve?_kept_of_resolving hf hu howner hq
    exact ⟨_, hresolve, hmem, pairwise_target_usagesFor hf hd, allLeadTo_usagesFor hf hd⟩
  · intro d hd q hq
    by_cases hused : ∃ u ∈ f.allUsages, f.declarationFor? u.name = some d
    · obtain ⟨u, hu, howner⟩ := hused
      exact Or.inl ⟨⟨u, hu, howner⟩, _, (resolve?_kept_of_resolving hf hu howner hq).1,
        allLeadTo_usagesFor hf hd⟩
    · have hunused : ∀ u ∈ f.allUsages, f.declarationFor? u.name ≠ some d :=
        fun u hu howner => hused ⟨u, hu, howner⟩
      exact Or.inr ⟨hunused, resolve?_kept_of_unused hf hd hq hunused⟩
  · intro d hd q hq
    exact resolve?_of_shadowed hf hd hq

/-- One usage leads to its declaration and back, and one declaration is shadowed. -/
theorem resolve?_round_trip_crossed :
    ∃ f ∈ (ofSource .crossed).formats, ∃ u ∈ f.allUsages, ∃ d ∈ f.declarations.values,
      ∃ e ∈ f.shadowed,
      (ofSource .crossed).resolve? u.target.start = some (.declaration d.nameSpan) ∧
      (∃ ts, (ofSource .crossed).resolve? d.nameSpan.start = some (.usages ts) ∧ u.target ∈ ts ∧
        ts.Pairwise (fun t t' => t.start < t'.start) ∧
        (ofSource .crossed).AllLeadTo ts d.nameSpan) ∧
      (ofSource .crossed).resolve? e.nameSpan.start = none := by
  obtain ⟨f, hf, u, hu, d, hd, e, he, hp, hr, hq, hq'⟩ : ∃ f ∈ (ofSource .crossed).formats,
      ∃ u ∈ f.allUsages, ∃ d ∈ f.declarations.values, ∃ e ∈ f.shadowed,
        u.target.contains u.target.start ∧
        (ofSource .crossed).resolve? u.target.start = some (.declaration d.nameSpan) ∧
        d.nameSpan.contains d.nameSpan.start ∧ e.nameSpan.contains e.nameSpan.start := by
    decide +kernel
  obtain ⟨hforth, -, hshadowed⟩ := resolve?_round_trip .crossed hf
  exact ⟨f, hf, u, hu, d, hd, e, he, hr, hforth u hu _ hp _ hr _ hq, hshadowed e he _ hq'⟩

end Document

end DisplayFile
