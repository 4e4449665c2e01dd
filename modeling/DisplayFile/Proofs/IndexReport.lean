import DisplayFile.Proofs.References
import DisplayFile.Query

/-!
# The report on a file

The report on a format lists usages in two ways: under each declaration those that refer to it, and
at the end those that refer to none. `FormatReport.places` puts all these lists together. Every
usage of the format has exactly one place there, and each list is what the questions about single
positions give.
-/

namespace DisplayFile

section Grouping

variable {α κ : Type} [DecidableEq κ] (key : α → κ)

/-- Gathering the members of a list key by key loses none if each has one of the keys. -/
theorem flatMap_filter_key_perm {keys : List κ} (hkeys : keys.Nodup) {l : List α}
    (hall : ∀ a ∈ l, key a ∈ keys) :
    (keys.flatMap fun k => l.filter fun a => key a = k).Perm l := by
  induction keys generalizing l with
  | nil =>
    rw [List.eq_nil_iff_forall_not_mem.2 fun a ha => List.not_mem_nil (hall a ha)]
    exact .refl _
  | cons k rest ih =>
    obtain ⟨hk, hrest⟩ := List.nodup_cons.1 hkeys
    let others := l.filter fun a => !decide (key a = k)
    have hothers : ∀ a ∈ others, key a ∈ rest := by
      intro a ha
      obtain ⟨hmem, hne⟩ := List.mem_filter.1 ha
      rcases List.mem_cons.1 (hall a hmem) with he | hr
      · simp [he] at hne
      · exact hr
    have hsame : (rest.flatMap fun k' => l.filter fun a => key a = k') =
        rest.flatMap fun k' => others.filter fun a => key a = k' := by
      apply List.flatMap_congr
      intro k' hk'
      have hne : k' ≠ k := fun he => hk (he ▸ hk')
      rw [List.filter_filter]
      apply List.filter_congr
      intro a _
      by_cases ha : key a = k' <;> simp [ha, hne]
    rw [List.flatMap_cons, hsame]
    exact ((ih hrest hothers).append_left _).trans (List.filter_append_perm _ l)

end Grouping

theorem isNone_eq_decide {α : Type} (o : Option α) : o.isNone = decide (o = none) := by
  cases o <;> simp

/-- All places at which the report on a format lists a usage. -/
def FormatReport.places (r : FormatReport) : List Span :=
  r.declarations.flatMap DeclarationReport.usages ++ r.unresolved.map UsageReport.span

/-- The report `r` is about the format `f` of the document and accounts for its usages: each is
listed once, and the lists are what the positions in the document lead to. -/
structure FormatReport.Accounts (document : Document) (f : Format) (r : FormatReport) : Prop where
  heading : r.name = f.name ∧ r.startLine = f.startLine ∧ r.endLine = f.endLine
  declarations : r.declarations.map (fun e => (e.name, e.aliasName, e.span)) =
    f.declarations.values.map fun d => (d.name, d.aliasName, d.nameSpan)
  places_perm : r.places.Perm (f.allUsages.map Usage.target)
  once : ∀ u ∈ f.allUsages, r.places.count u.target = 1
  usages : ∀ e ∈ r.declarations, e.usages = document.targets e.span.start
  unresolved : r.unresolved =
    (f.allUsages.filter fun u => document.resolve? u.target.start = none).map fun u =>
      ⟨u.name, u.target⟩

theorem Format.places_report (f : Format) :
    f.report.places = (f.declarations.values.flatMap f.usagesFor ++
      f.allUsages.filter fun u => (f.declarationFor? u.name).isNone).map Usage.target := by
  simp [FormatReport.places, report, List.flatMap_map, List.map_flatMap, Function.comp_def]

namespace Format.Holds

variable {f : Format} {ds : List Declaration} {us : List Usage} (h : f.Holds ds us)
  (ha : Arranged ds us)
include h ha

/-- Every usage is listed under the declaration it resolves to, or else among the unresolved. -/
theorem usagesFor_append_unresolved_perm :
    (f.declarations.values.flatMap f.usagesFor ++
      f.allUsages.filter fun u => (f.declarationFor? u.name).isNone).Perm f.allUsages := by
  let owner (u : Usage) := f.declarationFor? u.name
  -- the declarations that are kept and `none` are all that a name can resolve to
  have hkeys : (f.declarations.values.map some ++ [none]).Nodup := by
    rw [List.nodup_append]
    refine ⟨(h.nodup_kept ha).map (Option.some_injective _), List.nodup_singleton _, ?_⟩
    intro o ho o' ho' he
    obtain ⟨d, -, rfl⟩ := List.mem_map.1 ho
    cases he.trans (List.mem_singleton.1 ho')
  have hcovered : ∀ u ∈ us, owner u ∈ f.declarations.values.map some ++ [none] := by
    intro u _
    rw [List.mem_append]
    cases howner : owner u with
    | none => exact Or.inr (List.mem_singleton_self _)
    | some d => exact Or.inl (List.mem_map_of_mem (h.kept_of_declarationFor? howner).1)
  have hkept : f.declarations.values.flatMap f.usagesFor =
      (f.declarations.values.map some).flatMap fun o => us.filter fun u => owner u = o := by
    rw [List.flatMap_map]
    apply List.flatMap_congr
    intro d hd
    exact h.usagesFor_eq_filter ha hd
  have hnone : (f.allUsages.filter fun u => (f.declarationFor? u.name).isNone).Perm
      (us.filter fun u => owner u = none) := by
    rw [List.filter_congr fun u _ => isNone_eq_decide (owner u)]
    exact h.allUsages_perm.filter _
  have hgroups := flatMap_filter_key_perm owner hkeys hcovered
  rw [List.flatMap_append, List.flatMap_singleton] at hgroups
  rw [hkept]
  exact ((hnone.append_left _).trans hgroups).trans h.allUsages_perm.symm

theorem nodup_target_allUsages : (f.allUsages.map Usage.target).Nodup := by
  rw [(h.allUsages_perm.map Usage.target).nodup_iff, List.Nodup, List.pairwise_map]
  refine ha.usages.imp_of_mem ?_
  intro u v hu _ hlt he
  have hstart := (ha.placed u hu).target_start_lt hlt
  rw [he] at hstart
  exact Position.not_le.2 hstart (Position.le_refl _)

end Format.Holds

namespace Document

variable {s : Source} {f : Format} (hf : f ∈ (ofSource s).formats)
include hf

theorem targets_of_kept {d : Declaration} (hd : d ∈ f.declarations.values) :
    (ofSource s).targets d.nameSpan.start = (f.usagesFor d).map Usage.target := by
  have hstart := Source.nameSpan_contains_start ((holds_of_mem hf).mem_of_kept hd)
  rw [targets, resolve?_of_kept hf hd hstart, Format.resolve?_declaration]
  cases f.usagesFor d with
  | nil => rfl
  | cons u rest => rfl

theorem resolve?_target_start {u : Usage} (hu : u ∈ f.allUsages) :
    (ofSource s).resolve? u.target.start = none ↔ f.declarationFor? u.name = none := by
  have hplaced := (arranged_rowsOf s f).placed u ((holds_of_mem hf).mem_allUsages.1 hu)
  rw [resolve?_of_usage hf hu hplaced.target_contains_start, Option.map_eq_none_iff]

theorem accounts_report : f.report.Accounts (ofSource s) f := by
  have hholds := holds_of_mem hf
  have harranged := arranged_rowsOf s f
  have hperm : f.report.places.Perm (f.allUsages.map Usage.target) := by
    rw [f.places_report]
    exact (hholds.usagesFor_append_unresolved_perm harranged).map Usage.target
  refine ⟨⟨rfl, rfl, rfl⟩, ?_, hperm, ?_, ?_, ?_⟩
  · simp [Format.report, Function.comp_def]
  · intro u hu
    rw [hperm.count_eq]
    exact List.count_eq_one_of_mem (hholds.nodup_target_allUsages harranged)
      (List.mem_map_of_mem hu)
  · intro e he
    obtain ⟨d, hd, rfl⟩ := List.mem_map.1 he
    exact (targets_of_kept hf hd).symm
  · refine congrArg _ (List.filter_congr ?_)
    intro u hu
    rw [isNone_eq_decide, decide_eq_decide, resolve?_target_start hf hu]

end Document

namespace File

/-- The report on a readable file is printed as a list of entries, one for each format, in order.
Each entry accounts for all usages of its format, with its lists as they are printed. -/
theorem index_accounts_for_usages (path text : String) :
    let file := File.holding path text
    let document := Document.ofSource (.ofText text.toList)
    let position (p : Position) : Json :=
      .object [("line", .whole p.line), ("column", .whole p.column)]
    let range (s : Span) : Json := .object [("start", position s.start), ("end", position s.stop)]
    ∃ reports, file.index = .ok reports ∧
      file.indexText = .ok (Json.array (reports.map fun r => .object [
        ("name", .string (.ofList r.name)),
        ("start_line", .whole r.startLine),
        ("end_line", .whole r.endLine),
        ("declarations", .array (r.declarations.map fun e => .object [
          ("name", .string (.ofList e.name)),
          ("alias", e.aliasName.elim .null fun other => .string (.ofList other)),
          ("range", range e.span),
          ("usages", .array (e.usages.map range))])),
        ("unresolved", .array (r.unresolved.map fun u => .object [
          ("name", .string (.ofList u.name)),
          ("range", range u.span)]))])).pretty ∧
      List.Forall₂ (FormatReport.Accounts document) document.formats reports := by
  intro file document position range
  refine ⟨document.report, ?_, ?_, ?_⟩
  · rw [index, source_holding]
    rfl
  · rw [indexText, index, source_holding]
    rfl
  · rw [Document.report, List.forall₂_map_right_iff, List.forall₂_same]
    intro f hf
    exact Document.accounts_report hf

/-- A text with a usage of a field by its name, one by its alias, and one of an unknown name. -/
def usedThrice : String :=
  "     A          R F\n     A  P 1A ALIAS(Q)\n     A  U DSPATR(&P)DSPATR(&Q)DSPATR(&X)"

theorem index_accounts_for_usages_usedThrice :
    let file := File.holding "screen.dspf" usedThrice
    let report : FormatReport := ⟨['F'], 0, 2,
      [⟨['P'], some ['Q'], .onLine 1 8 9, [.onLine 2 17 19, .onLine 2 27 29]⟩],
      [⟨['X'], .onLine 2 37 39⟩]⟩
    let range (line start stop : Nat) : Json := .object [
      ("start", .object [("line", .whole line), ("column", .whole start)]),
      ("end", .object [("line", .whole line), ("column", .whole stop)])]
    file.index = .ok [report] ∧
    file.indexText = .ok (Json.array [.object [
      ("name", .string "F"),
      ("start_line", .whole 0),
      ("end_line", .whole 2),
      ("declarations", .array [.object [
        ("name", .string "P"),
        ("alias", .string "Q"),
        ("range", range 1 8 9),
        ("usages", .array [range 2 17 19, range 2 27 29])]]),
      ("unresolved", .array [.object [
        ("name", .string "X"),
        ("range", range 2 37 39)]])]]).pretty ∧
    ∃ f ∈ (Document.ofSource (.ofText usedThrice.toList)).formats,
      f.allUsages.length = 3 ∧ ∀ u ∈ f.allUsages, report.places.count u.target = 1 := by
  intro file report range
  obtain ⟨reports, hindex, htext, haccounts⟩ :=
    index_accounts_for_usages "screen.dspf" usedThrice
  have hreport : (Document.ofSource (.ofText usedThrice.toList)).report = [report] := by
    decide +kernel
  have hone : file.index = .ok [report] := by
    rw [index, source_holding, ← hreport]
    rfl
  obtain rfl : reports = [report] := Except.ok.inj (hindex.symm.trans hone)
  obtain ⟨f, rest, hf, -, hformats⟩ := List.forall₂_cons_right_iff.1 haccounts
  refine ⟨hone, htext, f, ?_, ?_, hf.once⟩
  · rw [hformats]
    exact List.mem_cons_self
  · rw [← List.length_map Usage.target, ← hf.places_perm.length_eq]
    rfl

end File

end DisplayFile
