import DisplayFile.Navigation
import DisplayFile.Proofs.Blocks

/-!
# Going from a usage to its declaration and back

A name is resolved with a table that keeps one declaration for each field name. `ownerIn?` resolves
it by a plain reading of all declarations in the order of their lines. The two agree on every format
of a document, and the usages listed for a declaration are those that resolve to it.
-/

namespace DisplayFile

/-- The declarations of a list that no later one shadows. -/
def unshadowed : List Declaration → List Declaration
  | [] => []
  | d :: rest => if ∃ e ∈ rest, e.name = d.name then unshadowed rest else d :: unshadowed rest

/-- The declaration that a name refers to, if the declarations stand in this order: the last one of
a field with that name, or else the last one with that alias that no later one shadows. -/
def ownerIn? (ds : List Declaration) (name : Name) : Option Declaration :=
  match (ds.filter fun d => d.name = name).getLast? with
  | some d => some d
  | none => ((unshadowed ds).filter fun d => d.aliasName = some name).getLast?

theorem unshadowed_sublist (ds : List Declaration) : (unshadowed ds).Sublist ds := by
  induction ds with
  | nil => exact .refl _
  | cons d rest ih =>
    unfold unshadowed
    split
    · exact ih.cons d
    · exact ih.cons_cons d

theorem mem_unshadowed {ds : List Declaration} {d : Declaration} :
    d ∈ unshadowed ds ↔ (ds.filter fun e => e.name = d.name).getLast? = some d := by
  induction ds with
  | nil => simp [unshadowed]
  | cons e rest ih =>
    unfold unshadowed
    by_cases hname : e.name = d.name
    · rw [List.filter_cons_of_pos (by simpa using hname)]
      split
      · next hlater =>
        obtain ⟨e', he', hsame⟩ := hlater
        have hne : rest.filter (fun e => e.name = d.name) ≠ [] :=
          List.ne_nil_of_mem (List.mem_filter.2 ⟨he', by simp [hsame, hname]⟩)
        rw [List.getLast?_cons_of_ne_nil hne, ih]
      · next hlater =>
        have hnil : rest.filter (fun e => e.name = d.name) = [] := by
          rw [List.filter_eq_nil_iff]
          intro e' he' hsame
          exact hlater ⟨e', he', by simpa [hname] using hsame⟩
        rw [List.mem_cons, ih, hnil]
        simp [eq_comm]
    · rw [List.filter_cons_of_neg (by simpa using hname)]
      split
      · exact ih
      · rw [List.mem_cons, ih]
        constructor
        · rintro (rfl | h)
          · exact absurd rfl hname
          · exact h
        · exact Or.inr

theorem latest?_eq_none_iff {ds : List Declaration} : latest? ds = none ↔ ds = [] := by
  cases ds with
  | nil => simp [latest?]
  | cons d rest =>
    simp only [latest?, reduceCtorEq, iff_false]
    split
    · simp
    · split <;> simp

theorem latest?_max {ds : List Declaration} {d : Declaration} (h : latest? ds = some d) :
    d ∈ ds ∧ ∀ e ∈ ds, e.nameSpan.start ≤ d.nameSpan.start := by
  induction ds generalizing d with
  | nil => cases h
  | cons c rest ih =>
    simp only [latest?] at h
    split at h
    · next hnone =>
      obtain rfl := Option.some.inj h
      rw [latest?_eq_none_iff.1 hnone]
      exact ⟨List.mem_singleton_self c, by simp [Position.le_refl]⟩
    · next e he =>
      obtain ⟨hmem, hmax⟩ := ih he
      split at h
      · next hle =>
        obtain rfl := Option.some.inj h
        exact ⟨List.mem_cons_of_mem c hmem, List.forall_mem_cons.2 ⟨hle, hmax⟩⟩
      · next hnle =>
        obtain rfl := Option.some.inj h
        have hge := (Position.le_total c.nameSpan.start e.nameSpan.start).resolve_left hnle
        refine ⟨List.mem_cons_self, List.forall_mem_cons.2 ⟨Position.le_refl _, ?_⟩⟩
        intro e' he'
        exact Position.le_trans (hmax e' he') hge

/-- Whatever the order of a list, its latest declaration is the last one by line. -/
theorem latest?_eq_getLast? {ds ordered : List Declaration} (h : ds.Perm ordered)
    (ho : ordered.Pairwise fun d e => d.nameSpan.start.line < e.nameSpan.start.line) :
    latest? ds = ordered.getLast? := by
  cases hlast : ordered.getLast? with
  | none =>
    rw [List.getLast?_eq_none_iff] at hlast
    subst hlast
    rw [List.perm_nil.1 h]
    rfl
  | some d =>
    obtain ⟨before, rfl⟩ := List.getLast?_eq_some_iff.1 hlast
    cases he : latest? ds with
    | none =>
      rw [latest?_eq_none_iff.1 he] at h
      exact absurd (List.nil_perm.1 h) (by simp)
    | some e =>
      obtain ⟨hmem, hmax⟩ := latest?_max he
      have hle := hmax d (h.symm.subset (by simp))
      rcases List.mem_append.1 (h.subset hmem) with hbefore | hd
      · have hlt := (List.pairwise_append.1 ho).2.2 e hbefore d (List.mem_singleton_self d)
        rw [Position.le_def] at hle
        omega
      · rw [List.mem_singleton.1 hd]

/-- Whatever the order of a list, sorting puts its usages in the order of the text. -/
theorem sortByStart_eq_of_perm {us ordered : List Usage} (h : us.Perm ordered)
    (ho : ordered.Pairwise fun u v => u.span.start < v.span.start) : sortByStart us = ordered := by
  have hperm := (sortByStart_perm us).trans h
  refine List.Perm.eq_of_pairwise ?_ (pairwise_sortByStart us) (ho.imp ?_) hperm
  · intro u v hu hv huv hvu
    refine eq_of_pairwise ho (hperm.subset hu) hv ?_ ?_
    · exact fun hlt => Position.not_le.2 hlt hvu
    · exact fun hlt => Position.not_le.2 hlt huv
  · intro u v hlt
    exact (Position.le_total u.span.start v.span.start).resolve_right (Position.not_le.2 hlt)

namespace Arranged

variable {ds : List Declaration} {us : List Usage} (h : Arranged ds us)
include h

theorem nodup_declarations : ds.Nodup := by
  refine h.declarations.imp ?_
  intro d e hlt he
  rw [he] at hlt
  exact Nat.lt_irrefl _ hlt

theorem declaration_eq_of_line {d e : Declaration} (hd : d ∈ ds) (he : e ∈ ds)
    (hline : d.nameSpan.start.line = e.nameSpan.start.line) : d = e :=
  eq_of_pairwise h.declarations hd he (by omega) (by omega)

theorem pairwise_span_start : us.Pairwise fun u v => u.span.start < v.span.start := by
  refine h.usages.imp_of_mem ?_
  intro u v hu hv hlt
  exact (h.placed u hu).span_start_lt (h.placed v hv) hlt

theorem nodup_usages : us.Nodup := by
  refine h.pairwise_span_start.imp ?_
  intro u v hlt he
  rw [he] at hlt
  exact Position.not_le.2 hlt (Position.le_refl _)

end Arranged

namespace Format.Holds

variable {f : Format} {ds : List Declaration} {us : List Usage} {d : Declaration} {name : Name}

theorem declarationFor?_name (h : f.Holds ds us) (hd : d ∈ f.declarations.values) :
    f.declarationFor? d.name = some d := by
  unfold declarationFor?
  rw [h.kept_iff.1 hd]

theorem kept_of_declarationFor? (h : f.Holds ds us) (hd : f.declarationFor? name = some d) :
    d ∈ f.declarations.values ∧ (d.name = name ∨ d.aliasName = some name) := by
  unfold declarationFor? at hd
  split at hd
  · next e he =>
    obtain rfl := Option.some.inj hd
    have hname := h.name_of_declaration? he
    exact ⟨h.kept_iff.2 (by rwa [hname]), Or.inl hname⟩
  · have hmem := List.mem_filter.1 (latest?_max hd).1
    exact ⟨hmem.1, Or.inr (by simpa using hmem.2)⟩

theorem usagesOf_name_eq (h : f.Holds ds us) (hd : d ∈ f.declarations.values)
    (halias : ∀ other, d.aliasName = some other → other = d.name) :
    f.usagesOf d.name = us.filter fun u => f.declarationFor? u.name = some d := by
  rw [h.usagesOf_eq]
  apply List.filter_congr
  intro u _
  rw [decide_eq_decide]
  constructor
  · intro hname
    rw [hname, h.declarationFor?_name hd]
  · intro howner
    rcases (h.kept_of_declarationFor? howner).2 with hname | hother
    · exact hname.symm
    · exact halias u.name hother

variable (h : f.Holds ds us) (ha : Arranged ds us)
include h ha

theorem sortByStart_allUsages : sortByStart f.allUsages = us :=
  sortByStart_eq_of_perm h.allUsages_perm ha.pairwise_span_start

theorem nodup_kept : f.declarations.values.Nodup :=
  (List.nodup_append.1 (h.kept_perm.nodup_iff.2 ha.nodup_declarations)).1

theorem kept_perm_unshadowed : f.declarations.values.Perm (unshadowed ds) := by
  have hunshadowed : (unshadowed ds).Nodup := ha.nodup_declarations.sublist (unshadowed_sublist ds)
  rw [List.perm_ext_iff_of_nodup (h.nodup_kept ha) hunshadowed]
  intro d
  rw [h.kept_iff, h.declaration?_eq, mem_unshadowed]

/-- Resolving a name with the tables of a format is reading its declarations in their order. -/
theorem declarationFor?_eq_ownerIn? (name : Name) : f.declarationFor? name = ownerIn? ds name := by
  unfold declarationFor? ownerIn?
  rw [h.declaration?_eq]
  cases (ds.filter fun d => d.name = name).getLast? with
  | some d => rfl
  | none =>
    apply latest?_eq_getLast? ((h.kept_perm_unshadowed ha).filter _)
    exact ha.declarations.sublist (List.filter_sublist.trans (unshadowed_sublist ds))

theorem refersTo_iff (hd : d ∈ f.declarations.values) :
    f.refersTo name d ↔ f.declarationFor? name = some d := by
  simp only [refersTo, Option.any_eq_true, decide_eq_true_eq]
  constructor
  · rintro ⟨owner, howner, hspan⟩
    have hkept := (h.kept_of_declarationFor? howner).1
    rw [howner, ha.declaration_eq_of_line (h.mem_of_kept hkept) (h.mem_of_kept hd) (by rw [hspan])]
  · intro howner
    exact ⟨d, howner, rfl⟩

theorem declarationFor?_eq_some_iff (hd : d ∈ f.declarations.values) {other : Name}
    (halias : d.aliasName = some other) (name : Name) :
    f.declarationFor? name = some d ↔ name = d.name ∨ name = other ∧ f.refersTo other d := by
  constructor
  · intro howner
    rcases (h.kept_of_declarationFor? howner).2 with hname | hother
    · exact Or.inl hname.symm
    · rw [halias, Option.some.injEq] at hother
      exact Or.inr ⟨hother.symm, (h.refersTo_iff ha hd).2 (by rwa [hother])⟩
  · rintro (rfl | ⟨rfl, hrefers⟩)
    · exact h.declarationFor?_name hd
    · exact (h.refersTo_iff ha hd).1 hrefers

/-- The usages by name and those by alias that refer to the declaration are all that do. -/
theorem usagesOf_append_perm (hd : d ∈ f.declarations.values) {other : Name}
    (halias : d.aliasName = some other) (hne : other ≠ d.name) :
    (f.usagesOf d.name ++ (f.usagesOf other).filter fun u => f.refersTo u.name d).Perm
      (us.filter fun u => f.declarationFor? u.name = some d) := by
  let mine := us.filter fun u => f.declarationFor? u.name = some d
  have howner := h.declarationFor?_eq_some_iff ha hd halias
  have hbyName : mine.filter (fun u => u.name = d.name) = f.usagesOf d.name := by
    rw [h.usagesOf_eq, List.filter_filter]
    apply List.filter_congr
    intro u _
    by_cases hname : u.name = d.name
    · simp [howner, hname]
    · simp [hname]
  have hbyAlias : mine.filter (fun u => !decide (u.name = d.name)) =
      (f.usagesOf other).filter fun u => f.refersTo u.name d := by
    rw [h.usagesOf_eq, List.filter_filter, List.filter_filter]
    apply List.filter_congr
    intro u _
    by_cases hother : u.name = other
    · simp [howner, hother, hne]
    · simp [howner, hother]
  rw [← hbyName, ← hbyAlias]
  exact List.filter_append_perm _ mine

/-- The usages listed for a declaration are those that resolve to it, in the order of the text. -/
theorem usagesFor_eq_filter (hd : d ∈ f.declarations.values) :
    f.usagesFor d = us.filter fun u => f.declarationFor? u.name = some d := by
  unfold usagesFor
  cases halias : d.aliasName with
  | none => exact h.usagesOf_name_eq hd (by simp [halias])
  | some other =>
    by_cases hother : other = d.name
    · simp only [if_pos hother]
      exact h.usagesOf_name_eq hd (by simp [halias, hother])
    · simp only [if_neg hother]
      apply sortByStart_eq_of_perm (h.usagesOf_append_perm ha hd halias hother)
      exact ha.pairwise_span_start.sublist List.filter_sublist

end Format.Holds

/-- A format in which one field is declared twice, used by its name and by its alias, while another
field has that name as its alias, and an alias is lost with its declaration. -/
def Source.crossed : Source := .ofLines <| List.map String.toList [
  "     A          R F",
  "     A  P 1A ALIAS(Q)",
  "     A  P 1A ALIAS(R)",
  "     A  S 1A ALIAS(P)",
  "     A  U DSPATR(&R)DSPATR(&P)DSPATR(&Q)"]

namespace Document

/-- The usages listed for a declaration are all usages of its format that resolve to it, and no
others, each once and from first to last. -/
theorem usagesFor_perm_resolving (s : Source) {f : Format} (hf : f ∈ (ofSource s).formats)
    {d : Declaration} (hd : d ∈ f.declarations.values) :
    (f.usagesFor d).Perm (f.allUsages.filter fun u => f.declarationFor? u.name = some d) ∧
      (f.usagesFor d).Pairwise fun u v => u.span.start < v.span.start := by
  have hholds := holds_of_mem hf
  have harranged := arranged_rowsOf s f
  rw [hholds.usagesFor_eq_filter harranged hd]
  exact ⟨(hholds.allUsages_perm.filter _).symm,
    harranged.pairwise_span_start.sublist List.filter_sublist⟩

theorem usagesFor_perm_resolving_crossed :
    ∃ f ∈ (ofSource .crossed).formats, ∃ d ∈ f.declarations.values,
      (f.usagesFor d).length = 2 ∧
      (f.usagesFor d).Perm (f.allUsages.filter fun u => f.declarationFor? u.name = some d) ∧
      (f.usagesFor d).Pairwise fun u v => u.span.start < v.span.start := by
  obtain ⟨f, hf, d, hd, htwo⟩ : ∃ f ∈ (ofSource .crossed).formats,
      ∃ d ∈ f.declarations.values, (f.usagesFor d).length = 2 := by decide +kernel
  exact ⟨f, hf, d, hd, htwo, usagesFor_perm_resolving .crossed hf hd⟩

/-- What a usage resolves to can be read off the declarations on the lines of its format. -/
theorem declarationFor?_eq_ownerIn?_declared (s : Source) {f : Format}
    (hf : f ∈ (ofSource s).formats) (u : Usage) :
    f.declarationFor? u.name = ownerIn? (declared (s.rowsOf f)) u.name :=
  (holds_of_mem hf).declarationFor?_eq_ownerIn? (arranged_rowsOf s f) u.name

theorem declarationFor?_eq_ownerIn?_declared_crossed :
    ∃ f ∈ (ofSource .crossed).formats, ∃ u ∈ f.allUsages,
      (declared (Source.crossed.rowsOf f)).length = 3 ∧ (f.declarationFor? u.name).isSome ∧
      f.declarationFor? u.name = ownerIn? (declared (Source.crossed.rowsOf f)) u.name := by
  obtain ⟨f, hf, u, hu, hthree, hsome⟩ : ∃ f ∈ (ofSource .crossed).formats, ∃ u ∈ f.allUsages,
      (declared (Source.crossed.rowsOf f)).length = 3 ∧ (f.declarationFor? u.name).isSome := by
    decide +kernel
  exact ⟨f, hf, u, hu, hthree, hsome, declarationFor?_eq_ownerIn?_declared .crossed hf u⟩

end Document

end DisplayFile
