import DisplayFile.Proofs.Occurrences
import Mathlib.Data.List.Forall2

/-!
# The order of the tables does not matter

At most one usage and at most one declaration of a format contain a position, and no two
declarations start together. So neither the first match in a table nor the latest of several
declarations depends on the order of the entries, and formats that hold the same declarations and
usages answer alike.
-/

namespace DisplayFile

namespace Format

/-- The same format but for the order of the entries in its two tables. -/
structure Reorders (g f : Format) : Prop where
  name : g.name = f.name
  startLine : g.startLine = f.startLine
  endLine : g.endLine = f.endLine
  declarations : g.declarations.entries.Perm f.declarations.entries
  usages : g.usages.entries.Perm f.usages.entries
  shadowed : g.shadowed = f.shadowed

theorem Reorders.containsLine {g f : Format} (hr : g.Reorders f) (line : Nat) :
    g.containsLine line = f.containsLine line := by
  unfold Format.containsLine
  rw [hr.startLine, hr.endLine]

/-- The format with the entries of its tables the other way round. -/
def reversed (f : Format) : Format :=
  { f with
    declarations := ⟨f.declarations.entries.reverse⟩
    usages := ⟨f.usages.entries.reverse⟩ }

theorem reversed_reorders (f : Format) : f.reversed.Reorders f :=
  ⟨rfl, rfl, rfl, List.reverse_perm _, List.reverse_perm _, rfl⟩

variable {f g : Format} {ds : List Declaration} {us : List Usage}

theorem Holds.of_reorders (h : f.Holds ds us) (hr : g.Reorders f) : g.Holds ds us where
  nodup_declarations := (hr.declarations.map Prod.fst).nodup_iff.2 h.nodup_declarations
  declaration?_eq name := by
    rw [← h.declaration?_eq]
    exact Table.get?_eq_of_perm h.nodup_declarations hr.declarations name
  kept_perm := by
    rw [hr.shadowed]
    exact ((hr.declarations.map Prod.snd).append_right f.shadowed).trans h.kept_perm
  nodup_usages := (hr.usages.map Prod.fst).nodup_iff.2 h.nodup_usages
  usagesOf_eq name := by
    rw [← h.usagesOf_eq, usagesOf, Table.get?_eq_of_perm h.nodup_usages hr.usages name, usagesOf]
  allUsages_perm := (hr.usages.map Prod.snd).flatten.trans h.allUsages_perm

section Congruence

variable (hg : g.Holds ds us) (hf : f.Holds ds us) (ha : Arranged ds us)
include hg hf

theorem Holds.declaration?_congr (name : Name) : g.declaration? name = f.declaration? name := by
  rw [hg.declaration?_eq, hf.declaration?_eq]

theorem Holds.kept_congr {d : Declaration} :
    d ∈ g.declarations.values ↔ d ∈ f.declarations.values := by
  rw [hg.kept_iff, hf.kept_iff, hg.declaration?_congr hf]

include ha

theorem Holds.usageAt?_congr (p : Position) : g.usageAt? p = f.usageAt? p := by
  apply Option.ext
  intro u
  rw [hg.usageAt?_eq_some_iff ha, hf.usageAt?_eq_some_iff ha]

theorem Holds.declarationAt?_congr (p : Position) : g.declarationAt? p = f.declarationAt? p := by
  apply Option.ext
  intro d
  rw [hg.declarationAt?_eq_some_iff ha, hf.declarationAt?_eq_some_iff ha, hg.kept_congr hf]

theorem Holds.occurrenceAt?_congr (p : Position) : g.occurrenceAt? p = f.occurrenceAt? p := by
  unfold occurrenceAt?
  rw [hg.usageAt?_congr hf ha, hg.declarationAt?_congr hf ha]

theorem Holds.declarationFor?_congr (name : Name) :
    g.declarationFor? name = f.declarationFor? name := by
  rw [hg.declarationFor?_eq_ownerIn? ha, hf.declarationFor?_eq_ownerIn? ha]

theorem Holds.usagesFor_congr {d : Declaration} (hd : d ∈ f.declarations.values) :
    g.usagesFor d = f.usagesFor d := by
  rw [hg.usagesFor_eq_filter ha ((hg.kept_congr hf).2 hd), hf.usagesFor_eq_filter ha hd]
  apply List.filter_congr
  intro u _
  rw [hg.declarationFor?_congr hf ha]

theorem Holds.resolve?_congr {p : Position} {o : Occurrence} (ho : f.occurrenceAt? p = some o) :
    g.resolve? o = f.resolve? o := by
  cases o with
  | usage u => simp only [resolve?, hg.declarationFor?_congr hf ha]
  | declaration d => simp only [resolve?, hg.usagesFor_congr hf ha (kept_of_occurrenceAt? ho)]

theorem Holds.references_congr {p : Position} {o : Occurrence} (ho : f.occurrenceAt? p = some o)
    (withDeclaration : Bool) :
    g.references withDeclaration o = f.references withDeclaration o := by
  cases o with
  | usage u =>
    simp only [references, referencesTo, hg.declarationFor?_congr hf ha, hg.usagesOf_eq,
      hf.usagesOf_eq]
    cases howner : f.declarationFor? u.name with
    | none => rfl
    | some d => simp only [hg.usagesFor_congr hf ha (hf.kept_of_declarationFor? howner).1]
  | declaration d =>
    simp only [references, referencesTo, hg.usagesFor_congr hf ha (kept_of_occurrenceAt? ho)]

end Congruence

end Format

namespace Document

/-- The same document but for the order of the entries in the tables of its formats. -/
def Reorders (d d' : Document) : Prop :=
  d.lineCount = d'.lineCount ∧ List.Forall₂ Format.Reorders d.formats d'.formats

def reversed (d : Document) : Document := { d with formats := d.formats.map Format.reversed }

theorem reversed_reorders (d : Document) : d.reversed.Reorders d := by
  refine ⟨rfl, ?_⟩
  rw [reversed, List.forall₂_map_left_iff, List.forall₂_same]
  intro f _
  exact f.reversed_reorders

theorem formatAt?_of_reorders {d d' : Document} (h : d.Reorders d') (line : Nat) :
    d.formatAt? line = none ∧ d'.formatAt? line = none ∨
      ∃ g f, d.formatAt? line = some g ∧ d'.formatAt? line = some f ∧ g.Reorders f := by
  unfold formatAt?
  have hformats := h.2
  generalize d.formats = gs at hformats ⊢
  generalize d'.formats = fs at hformats ⊢
  induction hformats with
  | nil => exact Or.inl ⟨rfl, rfl⟩
  | @cons g f gs fs hr _ ih =>
    have hline := hr.containsLine line
    by_cases hf : f.containsLine line
    · exact Or.inr ⟨g, f, List.find?_cons_of_pos (hline.trans hf), List.find?_cons_of_pos hf, hr⟩
    · have hnot : f.containsLine line = false := by simpa using hf
      simp only [List.find?_cons, hline, hnot]
      exact ih

/-- The format at a line and its reordering hold the same, if there is one at all. -/
theorem formatAt?_ofSource_of_reorders {s : Source} {d : Document} (h : d.Reorders (ofSource s))
    (line : Nat) :
    d.formatAt? line = none ∧ (ofSource s).formatAt? line = none ∨
      ∃ g f ds us, d.formatAt? line = some g ∧ (ofSource s).formatAt? line = some f ∧
        g.Holds ds us ∧ f.Holds ds us ∧ Arranged ds us := by
  rcases formatAt?_of_reorders h line with hnone | ⟨g, f, hg, hf, hr⟩
  · exact Or.inl hnone
  · have hholds := holds_of_mem (List.mem_of_find?_eq_some hf)
    exact Or.inr ⟨g, f, _, _, hg, hf, hholds.of_reorders hr, hholds, arranged_rowsOf s f⟩

theorem resolve?_of_reorders {s : Source} {d : Document} (h : d.Reorders (ofSource s))
    (p : Position) : d.resolve? p = (ofSource s).resolve? p := by
  unfold resolve?
  rcases formatAt?_ofSource_of_reorders h p.line with
    ⟨hnone, hnone'⟩ | ⟨g, f, ds, us, hg, hf, hgholds, hfholds, harranged⟩
  · rw [hnone, hnone']
  · rw [hg, hf, Option.bind_some, Option.bind_some, hgholds.occurrenceAt?_congr hfholds harranged]
    cases ho : f.occurrenceAt? p with
    | none => rfl
    | some o => exact hgholds.resolve?_congr hfholds harranged ho

theorem references_of_reorders {s : Source} {d : Document} (h : d.Reorders (ofSource s))
    (p : Position) (withDeclaration : Bool) :
    d.references p withDeclaration = (ofSource s).references p withDeclaration := by
  unfold references
  rcases formatAt?_ofSource_of_reorders h p.line with
    ⟨hnone, hnone'⟩ | ⟨g, f, ds, us, hg, hf, hgholds, hfholds, harranged⟩
  · rw [hnone, hnone']
  · rw [hg, hf, Option.bind_some, Option.bind_some, hgholds.occurrenceAt?_congr hfholds harranged]
    cases ho : f.occurrenceAt? p with
    | none => rfl
    | some o => simp only [Option.map_some, hgholds.references_congr hfholds harranged ho]

/-- No position has two occurrences of a kind, and no answer depends on the order in which the
tables of the formats are searched. -/
theorem occurrences_unique_in_any_order (s : Source) :
    (∀ f ∈ (ofSource s).formats, ∀ p,
      (f.allUsages.filter (·.contains p)).length ≤ 1 ∧
      (f.declarations.values.filter (·.contains p)).length ≤ 1 ∧
      ∀ g : Format, g.Reorders f → g.occurrenceAt? p = f.occurrenceAt? p) ∧
    ∀ d : Document, d.Reorders (ofSource s) → ∀ p,
      d.resolve? p = (ofSource s).resolve? p ∧
      ∀ withDeclaration,
        d.references p withDeclaration = (ofSource s).references p withDeclaration := by
  constructor
  · intro f hf p
    have hholds := holds_of_mem hf
    have harranged := arranged_rowsOf s f
    refine ⟨length_filter_le_one_of_exclusive (hholds.exclusive_allUsages harranged p),
      length_filter_le_one_of_exclusive (hholds.exclusive_kept harranged p), ?_⟩
    intro g hr
    exact (hholds.of_reorders hr).occurrenceAt?_congr hholds harranged p
  · intro d hd p
    exact ⟨resolve?_of_reorders hd p, references_of_reorders hd p⟩

/-- The order does change when the tables of `Source.crossed` are reversed. -/
theorem occurrences_unique_in_any_order_crossed :
    ∃ f ∈ (ofSource .crossed).formats, f.reversed ≠ f ∧ f.reversed.Reorders f ∧
      (ofSource .crossed).reversed.Reorders (ofSource .crossed) ∧ ∀ p,
        (f.allUsages.filter (·.contains p)).length ≤ 1 ∧
        (f.declarations.values.filter (·.contains p)).length ≤ 1 ∧
        f.reversed.occurrenceAt? p = f.occurrenceAt? p ∧
        (ofSource .crossed).reversed.resolve? p = (ofSource .crossed).resolve? p ∧
        (ofSource .crossed).reversed.references p true = (ofSource .crossed).references p true := by
  obtain ⟨f, hf, hne⟩ : ∃ f ∈ (ofSource .crossed).formats, f.reversed ≠ f := by decide +kernel
  obtain ⟨hunique, horder⟩ := occurrences_unique_in_any_order .crossed
  refine ⟨f, hf, hne, f.reversed_reorders, (ofSource .crossed).reversed_reorders, ?_⟩
  intro p
  obtain ⟨husage, hdeclaration, hsame⟩ := hunique f hf p
  obtain ⟨hresolve, hreferences⟩ := horder _ (ofSource .crossed).reversed_reorders p
  exact ⟨husage, hdeclaration, hsame _ f.reversed_reorders, hresolve, hreferences true⟩

end Document

end DisplayFile
