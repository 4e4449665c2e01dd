import DisplayFile.Proofs.Resolution

/-!
# What stands at a position

A position is on at most one usage and on at most one declaration of a format, and a position on a
field name is on no usage. So what is found at a position does not depend on where the search
starts, and a position leads where its occurrence leads.
-/

namespace DisplayFile

namespace Arranged

variable {ds : List Declaration} {us : List Usage} (h : Arranged ds us)
include h

theorem exclusive_usages (p : Position) :
    us.Pairwise fun u v => ¬ (u.contains p ∧ v.contains p) := by
  refine h.usages.imp_of_mem ?_
  intro u v hu hv hlt hboth
  rw [(h.placed u hu).contains_iff, (h.placed v hv).contains_iff] at hboth
  exact Usage.not_contains_of_endsBefore hlt hboth.1 hboth.2

theorem exclusive_declarations (p : Position) :
    ds.Pairwise fun d e => ¬ (d.contains p ∧ e.contains p) := by
  refine h.declarations.imp_of_mem ?_
  intro d e hd he hlt hboth
  have hline := h.line_of_contains d hd p hboth.1
  have hline' := h.line_of_contains e he p hboth.2
  omega

end Arranged

theorem Format.kept_of_occurrenceAt? {f : Format} {p : Position} {d : Declaration}
    (h : f.occurrenceAt? p = some (.declaration d)) : d ∈ f.declarations.values := by
  unfold occurrenceAt? at h
  split at h
  · cases h
  · obtain ⟨e, he, hd⟩ := Option.map_eq_some_iff.1 h
    obtain rfl := Occurrence.declaration.inj hd
    exact List.mem_of_find?_eq_some he

theorem Format.used_of_occurrenceAt? {f : Format} {p : Position} {u : Usage}
    (h : f.occurrenceAt? p = some (.usage u)) : u ∈ f.allUsages := by
  unfold occurrenceAt? at h
  split at h
  · next v hv =>
    obtain rfl : v = u := by simpa using h
    exact List.mem_of_find?_eq_some hv
  · obtain ⟨e, -, hd⟩ := Option.map_eq_some_iff.1 h
    cases hd

namespace Format.Holds

variable {f : Format} {ds : List Declaration} {us : List Usage} {d : Declaration} {u : Usage}
  {p : Position} (h : f.Holds ds us) (ha : Arranged ds us)
include h ha

theorem exclusive_allUsages (p : Position) :
    f.allUsages.Pairwise fun u v => ¬ (u.contains p ∧ v.contains p) :=
  (h.allUsages_perm.pairwise_iff fun hnot hboth => hnot hboth.symm).2 (ha.exclusive_usages p)

theorem exclusive_kept_append_shadowed (p : Position) :
    (f.declarations.values ++ f.shadowed).Pairwise fun d e => ¬ (d.contains p ∧ e.contains p) :=
  (h.kept_perm.pairwise_iff fun hnot hboth => hnot hboth.symm).2 (ha.exclusive_declarations p)

theorem exclusive_kept (p : Position) :
    f.declarations.values.Pairwise fun d e => ¬ (d.contains p ∧ e.contains p) :=
  (List.pairwise_append.1 (h.exclusive_kept_append_shadowed ha p)).1

theorem usageAt?_eq_some_iff : f.usageAt? p = some u ↔ u ∈ us ∧ u.contains p := by
  unfold usageAt?
  rw [find?_eq_some_iff_of_exclusive (h.exclusive_allUsages ha p), h.mem_allUsages]

theorem declarationAt?_eq_some_iff :
    f.declarationAt? p = some d ↔ d ∈ f.declarations.values ∧ d.contains p :=
  find?_eq_some_iff_of_exclusive (h.exclusive_kept ha p)

theorem usageAt?_eq_none (hd : d ∈ ds) (hp : d.nameSpan.contains p) : f.usageAt? p = none := by
  cases hu : f.usageAt? p with
  | none => rfl
  | some u =>
    obtain ⟨hmem, hcontains⟩ := (h.usageAt?_eq_some_iff ha).1 hu
    exact absurd hcontains (ha.apart d hd u hmem p hp)

theorem occurrenceAt?_of_usage (hu : u ∈ f.allUsages) (hp : u.target.contains p) :
    f.occurrenceAt? p = some (.usage u) := by
  have hmem := h.mem_allUsages.1 hu
  have hat := (h.usageAt?_eq_some_iff ha).2 ⟨hmem, (ha.placed u hmem).contains_iff.2 hp⟩
  simp only [occurrenceAt?, hat]

theorem occurrenceAt?_of_kept (hd : d ∈ f.declarations.values) (hp : d.nameSpan.contains p) :
    f.occurrenceAt? p = some (.declaration d) := by
  have hat := (h.declarationAt?_eq_some_iff ha).2 ⟨hd, Declaration.contains_of_nameSpan hp⟩
  simp only [occurrenceAt?, h.usageAt?_eq_none ha (h.mem_of_kept hd) hp, hat, Option.map_some]

/-- Nothing is found on the name of a shadowed declaration, whose line holds no other. -/
theorem occurrenceAt?_of_shadowed (hd : d ∈ f.shadowed) (hp : d.nameSpan.contains p) :
    f.occurrenceAt? p = none := by
  have hnone : f.declarationAt? p = none := by
    cases he : f.declarationAt? p with
    | none => rfl
    | some e =>
      obtain ⟨hkept, hcontains⟩ := (h.declarationAt?_eq_some_iff ha).1 he
      have hall := List.pairwise_append.1 (h.exclusive_kept_append_shadowed ha p)
      exact absurd ⟨hcontains, Declaration.contains_of_nameSpan hp⟩ (hall.2.2 e hkept d hd)
  simp only [occurrenceAt?, h.usageAt?_eq_none ha (h.mem_of_shadowed hd) hp, hnone,
    Option.map_none]

end Format.Holds

namespace Source

variable {s : Source} {f : Format} {d : Declaration} {u : Usage} {p : Position}

theorem containsLine_of_declared (hd : d ∈ declared (s.rowsOf f)) (hp : d.contains p) :
    f.containsLine p.line := by
  obtain ⟨row, hrow, hd⟩ := mem_declared.1 hd
  rw [line_of_declarationIn?_of_contains hd hp]
  exact (List.mem_filter.1 hrow).2

theorem nameSpan_contains_start (hd : d ∈ declared (s.rowsOf f)) :
    d.nameSpan.contains d.nameSpan.start := by
  obtain ⟨row, -, hrow⟩ := mem_declared.1 hd
  obtain ⟨raw, -, -, hon⟩ := declarationIn?_eq_some_iff.1 hrow
  exact nameSpan_contains_start_of_declarationOn? hon

theorem containsLine_of_used (hu : u ∈ used (s.rowsOf f)) (hp : u.target.contains p) :
    f.containsLine p.line := by
  obtain ⟨row, hrow, hu⟩ := mem_used.1 hu
  rw [line_of_mem_usagesIn_of_contains hu hp]
  exact (List.mem_filter.1 hrow).2

end Source

namespace Document

/-- What stands at a position, with the format in which it stands. -/
def occurrenceAt? (document : Document) (p : Position) : Option (Format × Occurrence) :=
  (document.formatAt? p.line).bind fun f => (f.occurrenceAt? p).map fun o => (f, o)

theorem resolve?_eq_bind_occurrenceAt? (document : Document) (p : Position) :
    document.resolve? p = (document.occurrenceAt? p).bind fun found => found.1.resolve? found.2 := by
  unfold resolve? occurrenceAt?
  cases document.formatAt? p.line with
  | none => rfl
  | some f =>
    rw [Option.bind_some, Option.bind_some]
    cases f.occurrenceAt? p with
    | none => rfl
    | some o => rfl

variable {s : Source} {f : Format} {d : Declaration} {u : Usage} {p : Position}
  (hf : f ∈ (ofSource s).formats)
include hf

theorem occurrenceAt?_of_containsLine (hp : f.containsLine p.line) :
    (ofSource s).occurrenceAt? p = (f.occurrenceAt? p).map fun o => (f, o) := by
  unfold occurrenceAt?
  rw [formatAt?_eq_some hf hp, Option.bind_some]

theorem occurrenceAt?_of_usage (hu : u ∈ f.allUsages) (hp : u.target.contains p) :
    (ofSource s).occurrenceAt? p = some (f, .usage u) := by
  have hholds := holds_of_mem hf
  have hline := Source.containsLine_of_used (hholds.mem_allUsages.1 hu) hp
  rw [occurrenceAt?_of_containsLine hf hline,
    hholds.occurrenceAt?_of_usage (arranged_rowsOf s f) hu hp, Option.map_some]

theorem occurrenceAt?_of_kept (hd : d ∈ f.declarations.values) (hp : d.nameSpan.contains p) :
    (ofSource s).occurrenceAt? p = some (f, .declaration d) := by
  have hholds := holds_of_mem hf
  have hline := Source.containsLine_of_declared (hholds.mem_of_kept hd)
    (Declaration.contains_of_nameSpan hp)
  rw [occurrenceAt?_of_containsLine hf hline,
    hholds.occurrenceAt?_of_kept (arranged_rowsOf s f) hd hp, Option.map_some]

theorem occurrenceAt?_of_shadowed (hd : d ∈ f.shadowed) (hp : d.nameSpan.contains p) :
    (ofSource s).occurrenceAt? p = none := by
  have hholds := holds_of_mem hf
  have hline := Source.containsLine_of_declared (hholds.mem_of_shadowed hd)
    (Declaration.contains_of_nameSpan hp)
  rw [occurrenceAt?_of_containsLine hf hline,
    hholds.occurrenceAt?_of_shadowed (arranged_rowsOf s f) hd hp, Option.map_none]

/-- A usage leads to the name of the declaration that it resolves to. -/
theorem resolve?_of_usage (hu : u ∈ f.allUsages) (hp : u.target.contains p) :
    (ofSource s).resolve? p =
      (f.declarationFor? u.name).map fun d => .declaration d.nameSpan := by
  rw [resolve?_eq_bind_occurrenceAt?, occurrenceAt?_of_usage hf hu hp, Option.bind_some,
    Format.resolve?]

/-- A field name leads to the usages that resolve to its declaration. -/
theorem resolve?_of_kept (hd : d ∈ f.declarations.values) (hp : d.nameSpan.contains p) :
    (ofSource s).resolve? p = f.resolve? (.declaration d) := by
  rw [resolve?_eq_bind_occurrenceAt?, occurrenceAt?_of_kept hf hd hp, Option.bind_some]

theorem resolve?_of_shadowed (hd : d ∈ f.shadowed) (hp : d.nameSpan.contains p) :
    (ofSource s).resolve? p = none := by
  rw [resolve?_eq_bind_occurrenceAt?, occurrenceAt?_of_shadowed hf hd hp, Option.bind_none]

end Document

end DisplayFile
