import DisplayFile.Proofs.Occurrences
import DisplayFile.Warning

/-!
# What is kept and what is shadowed

Each declaration on the lines of a format is either kept or shadowed. The last one of a name is
kept, in the place of the first one of that name; all others are shadowed, and there is one warning
for each of them. The warning stands on the shadowed name and tells the line of the kept
declaration, which comes later in the text.
-/

namespace DisplayFile

/-- The last of some declarations that has this name. -/
def lastNamed? (ds : List Declaration) (name : Name) : Option Declaration :=
  (ds.filter fun d => d.name = name).getLast?

theorem exists_lastNamed? {ds : List Declaration} {d : Declaration} (hd : d ∈ ds) :
    ∃ last, lastNamed? ds d.name = some last := by
  have hmem : d ∈ ds.filter fun e => e.name = d.name := List.mem_filter.2 ⟨hd, by simp⟩
  exact ⟨_, List.getLast?_eq_some_getLast (List.ne_nil_of_mem hmem)⟩

/-- A declaration that is not the last of its name stands on a line before the last one. -/
theorem Arranged.line_lt_of_lastNamed? {ds : List Declaration} {us : List Usage}
    (h : Arranged ds us) {d last : Declaration} (hd : d ∈ ds)
    (hlast : lastNamed? ds d.name = some last) (hne : last ≠ d) :
    d.nameSpan.start.line < last.nameSpan.start.line := by
  obtain ⟨before, hfilter⟩ := List.getLast?_eq_some_iff.1 hlast
  have hmem : d ∈ before ++ [last] := by
    rw [← hfilter]
    exact List.mem_filter.2 ⟨hd, by simp⟩
  have hbefore : d ∈ before := by
    rcases List.mem_append.1 hmem with hd | hd
    · exact hd
    · exact absurd (List.mem_singleton.1 hd).symm hne
  have hordered := h.declarations.sublist (List.filter_sublist (p := fun e => e.name = d.name))
  rw [hfilter, List.pairwise_append] at hordered
  exact hordered.2.2 d hbefore last (List.mem_singleton_self last)

namespace Format

variable {f : Format} {names : List Name} {ds : List Declaration} {us : List Usage}
  {d : Declaration}

theorem declarations_foldl_addUsage (f : Format) (us : List Usage) :
    (us.foldl addUsage f).declarations = f.declarations := by
  induction us generalizing f with
  | nil => rfl
  | cons u rest ih => exact ih (f.addUsage u)

theorem keys_declarations_readRow (h : f.declarations.keys = names.eraseDups) (row : Row) :
    (f.readRow row).declarations.keys =
      (names ++ (declared [row]).map Declaration.name).eraseDups := by
  have hused : ((usagesIn row).foldl addUsage f).declarations.keys = names.eraseDups := by
    rw [declarations_foldl_addUsage, h]
  unfold readRow
  cases hd : declarationIn? row with
  | none => simpa [declared, hd] using hused
  | some d =>
    have hnames : (declared [row]).map Declaration.name = [d.name] := by simp [declared, hd]
    rw [hnames]
    exact Table.keys_alter_of_eraseDups hused d.name _

/-- A format that reads rows files their declarations under the names in order of first
declaration. -/
theorem keys_declarations_foldl_readRow (h : f.declarations.keys = names.eraseDups)
    (rows : List Row) :
    (rows.foldl readRow f).declarations.keys =
      (names ++ (declared rows).map Declaration.name).eraseDups := by
  induction rows generalizing f names with
  | nil => simpa [declared] using h
  | cons row rest ih =>
    rw [List.foldl_cons, ← List.singleton_append, declared_append, List.map_append,
      ← List.append_assoc]
    exact ih (keys_declarations_readRow h row)

namespace Holds

theorem declaration?_eq_lastNamed? (h : f.Holds ds us) (name : Name) :
    f.declaration? name = lastNamed? ds name := h.declaration?_eq name

variable (h : f.Holds ds us) (ha : Arranged ds us)
include h ha

theorem nodup_kept_append_shadowed : (f.declarations.values ++ f.shadowed).Nodup :=
  h.kept_perm.nodup_iff.2 ha.nodup_declarations

theorem mem_shadowed_iff : d ∈ f.shadowed ↔ d ∈ ds ∧ lastNamed? ds d.name ≠ some d := by
  rw [← h.declaration?_eq_lastNamed?, ne_eq, ← h.kept_iff, ← h.kept_perm.mem_iff, List.mem_append]
  have hapart := (List.nodup_append.1 (h.nodup_kept_append_shadowed ha)).2.2
  constructor
  · intro hd
    exact ⟨Or.inr hd, fun hkept => hapart d hkept d hd rfl⟩
  · rintro ⟨hd, hnot⟩
    exact hd.resolve_left hnot

/-- The shadowed declarations are all that are not the last of their names. -/
theorem shadowed_perm_filter :
    f.shadowed.Perm (ds.filter fun d => lastNamed? ds d.name ≠ some d) := by
  have hshadowed := (List.nodup_append.1 (h.nodup_kept_append_shadowed ha)).2.1
  rw [List.perm_ext_iff_of_nodup hshadowed (ha.nodup_declarations.filter _)]
  intro d
  rw [h.mem_shadowed_iff ha, List.mem_filter, decide_eq_true_eq]

theorem exists_winner (hd : d ∈ f.shadowed) :
    ∃ winner, lastNamed? ds d.name = some winner ∧
      d.nameSpan.start.line < winner.nameSpan.start.line := by
  obtain ⟨hmem, hnot⟩ := (h.mem_shadowed_iff ha).1 hd
  obtain ⟨winner, hwinner⟩ := exists_lastNamed? hmem
  refine ⟨winner, hwinner, ha.line_lt_of_lastNamed? hmem hwinner ?_⟩
  intro he
  exact hnot (by rw [hwinner, he])

end Holds

end Format

/-- The warning stands on the name of `d`, names it and the format, and gives the line, counted from
one, of the last declaration of the same name, which comes after that of `d`. -/
def Warning.Concerns (w : Warning) (f : Format) (ds : List Declaration) (d : Declaration) : Prop :=
  w.span = d.nameSpan ∧ ∃ winner, lastNamed? ds d.name = some winner ∧
    d.nameSpan.start.line < winner.nameSpan.start.line ∧
    w.message =
      s!"'{String.ofList d.name}' is declared again in format '{String.ofList f.name}' " ++
        s!"on line {winner.nameSpan.start.line + 1}; this declaration is ignored"

theorem forall₂_filterMap {α β : Type} {R : α → β → Prop} {g : α → Option β} {l : List α}
    (h : ∀ a ∈ l, ∃ b, g a = some b ∧ R a b) : List.Forall₂ R l (l.filterMap g) := by
  induction l with
  | nil => exact .nil
  | cons a rest ih =>
    obtain ⟨ha, hrest⟩ := List.forall_mem_cons.1 h
    obtain ⟨b, hb, hab⟩ := ha
    rw [List.filterMap_cons, hb]
    exact .cons hab (ih hrest)

namespace Format.Holds

variable {f : Format} {ds : List Declaration} {us : List Usage}

/-- The lookup behind a warning always finds the winner, so no shadowed declaration is passed
over. -/
theorem forall₂_concerns_warnings (h : f.Holds ds us) (ha : Arranged ds us) :
    List.Forall₂ (fun d w => w.Concerns f ds d) f.shadowed f.warnings := by
  apply forall₂_filterMap
  intro d hd
  obtain ⟨winner, hwinner, hlt⟩ := h.exists_winner ha hd
  refine ⟨f.warning d winner, ?_, rfl, winner, hwinner, hlt, rfl⟩
  rw [h.declaration?_eq_lastNamed?, hwinner, Option.map_some]

end Format.Holds

theorem Format.exists_shadowed_of_mem_warnings {f : Format} {w : Warning} (hw : w ∈ f.warnings) :
    ∃ d ∈ f.shadowed, w.span = d.nameSpan := by
  obtain ⟨d, hd, hfound⟩ := List.mem_filterMap.1 hw
  obtain ⟨winner, -, rfl⟩ := Option.map_eq_some_iff.1 hfound
  exact ⟨d, hd, rfl⟩

theorem Source.containsLine_nameSpan_start {s : Source} {f : Format} {d : Declaration}
    (hd : d ∈ declared (s.rowsOf f)) : f.containsLine d.nameSpan.start.line :=
  containsLine_of_declared hd (Declaration.contains_of_nameSpan (nameSpan_contains_start hd))

/-- Three declarations of one field and two of another, their lines mixed with those of a third, and
a second format that declares the same names once more. -/
def Source.interleaved : Source := .ofLines <| List.map String.toList [
  "     A          R F",
  "     A  P 1A ALIAS(X)",
  "     A  Q 1A ALIAS(Y)",
  "     A  p 1A ALIAS(Y)",
  "     A  T 1A ALIAS(P)",
  "     A  Q 1A ALIAS(X)",
  "     A  P 1A ALIAS(Z)",
  "     A          R G",
  "     A  P 1A ALIAS(X)"]

namespace Document

variable {s : Source} {f : Format}

theorem declarations_keys_of_mem (hf : f ∈ (ofSource s).formats) :
    f.declarations.keys = ((declared (s.rowsOf f)).map Declaration.name).eraseDups := by
  obtain ⟨b, -, rfl, hrows⟩ := exists_block_of_mem hf
  have hopened : (Format.opened (formatName (normalize b.header)) b.start
      b.endLine).declarations.keys = ([] : List Name).eraseDups := rfl
  rw [hrows]
  exact Format.keys_declarations_foldl_readRow hopened b.rows

theorem containsLine_of_mem_warnings (hf : f ∈ (ofSource s).formats) {w : Warning}
    (hw : w ∈ f.warnings) : f.containsLine w.span.start.line := by
  obtain ⟨d, hd, hspan⟩ := Format.exists_shadowed_of_mem_warnings hw
  rw [hspan]
  exact Source.containsLine_nameSpan_start ((holds_of_mem hf).mem_of_shadowed hd)

/-- The warnings on the lines of a format are those of the format itself. -/
theorem filter_warnings_eq (hf : f ∈ (ofSource s).formats) :
    (ofSource s).warnings.filter (fun w => f.containsLine w.span.start.line) = f.warnings := by
  obtain ⟨before, after, hformats⟩ := List.append_of_mem hf
  have hapart := pairwise_formats s
  rw [hformats, List.pairwise_append, List.pairwise_cons] at hapart
  obtain ⟨-, ⟨hafter, -⟩, hbefore⟩ := hapart
  have hnone (part : List Format) (hpart : ∀ g ∈ part, g ∈ (ofSource s).formats ∧
      (g.endLine < f.startLine ∨ f.endLine < g.startLine)) :
      (part.flatMap Format.warnings).filter (fun w => f.containsLine w.span.start.line) = [] := by
    rw [List.filter_eq_nil_iff]
    intro w hw hline
    obtain ⟨g, hg, hw⟩ := List.mem_flatMap.1 hw
    obtain ⟨hmem, hout⟩ := hpart g hg
    have hgline := containsLine_of_mem_warnings hmem hw
    rw [Format.containsLine_iff] at hgline hline
    omega
  have hall : f.warnings.filter (fun w => f.containsLine w.span.start.line) = f.warnings := by
    rw [List.filter_eq_self]
    intro w hw
    exact containsLine_of_mem_warnings hf hw
  rw [warnings, hformats, List.flatMap_append, List.flatMap_cons, List.filter_append,
    List.filter_append, hall, hnone before, hnone after, List.nil_append, List.append_nil]
  · intro g hg
    exact ⟨by rw [hformats]; simp [hg], Or.inr (hafter g hg)⟩
  · intro g hg
    exact ⟨by rw [hformats]; simp [hg], Or.inl (hbefore g hg f List.mem_cons_self)⟩

theorem span_ne_of_kept (hf : f ∈ (ofSource s).formats) {d : Declaration}
    (hd : d ∈ f.declarations.values) {w : Warning} (hw : w ∈ (ofSource s).warnings) :
    w.span ≠ d.nameSpan := by
  intro hspan
  have hholds := holds_of_mem hf
  have harranged := arranged_rowsOf s f
  have hmem := hholds.mem_of_kept hd
  have hline : f.containsLine w.span.start.line := by
    rw [hspan]
    exact Source.containsLine_nameSpan_start hmem
  have hwf : w ∈ f.warnings := by
    rw [← filter_warnings_eq hf]
    exact List.mem_filter.2 ⟨hw, hline⟩
  obtain ⟨e, he, hwe⟩ := Format.exists_shadowed_of_mem_warnings hwf
  obtain rfl : d = e := harranged.declaration_eq_of_line hmem (hholds.mem_of_shadowed he)
    (by rw [← hspan, hwe])
  exact ((hholds.mem_shadowed_iff harranged).1 he).2
    ((hholds.declaration?_eq_lastNamed? d.name).symm.trans (hholds.kept_iff.1 hd))

/-- A format keeps the last declaration of each name, the names in the order in which they were
first declared. All other declarations on its lines are shadowed, and the warnings on its lines are
one for each of these. No kept declaration is warned about. -/
theorem declarations_kept_or_warned (s : Source) {f : Format} (hf : f ∈ (ofSource s).formats) :
    f.declarations.keys = ((declared (s.rowsOf f)).map Declaration.name).eraseDups ∧
    (∀ name, f.declarations.get? name = lastNamed? (declared (s.rowsOf f)) name) ∧
    f.shadowed.Perm ((declared (s.rowsOf f)).filter fun d =>
      lastNamed? (declared (s.rowsOf f)) d.name ≠ some d) ∧
    List.Forall₂ (fun d w => w.Concerns f (declared (s.rowsOf f)) d) f.shadowed
      ((ofSource s).warnings.filter fun w => f.containsLine w.span.start.line) ∧
    ∀ d ∈ f.declarations.values, ∀ w ∈ (ofSource s).warnings, w.span ≠ d.nameSpan := by
  have hholds := holds_of_mem hf
  have harranged := arranged_rowsOf s f
  refine ⟨declarations_keys_of_mem hf, hholds.declaration?_eq_lastNamed?,
    hholds.shadowed_perm_filter harranged, ?_, ?_⟩
  · rw [filter_warnings_eq hf]
    exact hholds.forall₂_concerns_warnings harranged
  · intro d hd w hw
    exact span_ne_of_kept hf hd hw

theorem declarations_kept_or_warned_interleaved :
    ∃ f ∈ (ofSource .interleaved).formats,
      f.declarations.keys = ["P".toList, "Q".toList, "T".toList] ∧
      f.declarations.keys =
        ((declared (Source.interleaved.rowsOf f)).map Declaration.name).eraseDups ∧
      f.shadowed.map (fun d => d.nameSpan.start.line) = [1, 2, 3] ∧
      f.declarations.values.map (fun d => d.nameSpan.start.line) = [6, 5, 4] ∧
      List.Forall₂ (fun d w => w.Concerns f (declared (Source.interleaved.rowsOf f)) d) f.shadowed
        ((ofSource .interleaved).warnings.filter fun w => f.containsLine w.span.start.line) := by
  obtain ⟨f, hf, hkeys, hshadowed, hkept⟩ : ∃ f ∈ (ofSource .interleaved).formats,
      f.declarations.keys = ["P".toList, "Q".toList, "T".toList] ∧
      f.shadowed.map (fun d => d.nameSpan.start.line) = [1, 2, 3] ∧
      f.declarations.values.map (fun d => d.nameSpan.start.line) = [6, 5, 4] := by
    decide +kernel
  obtain ⟨hall, -, -, hwarnings, -⟩ := declarations_kept_or_warned .interleaved hf
  exact ⟨f, hf, hkeys, hall, hshadowed, hkept, hwarnings⟩

end Document

end DisplayFile
