import DisplayFile.Proofs.Shadowing

/-!
# The order of shadowed declarations

A declaration joins the shadowed ones when the next declaration of its name is read, not when it is
read itself. So the shadowed declarations stand in the order of the declarations that took their
places. That is the order of the text exactly if none encloses another, which is to say that no
declaration is both read and replaced between another one and the declaration that takes its place.
The warnings of a document are in the order of the text exactly if this holds in all its formats.
-/

namespace DisplayFile

/-- The declaration that takes the place of `d`: the next one of the same name. -/
def successor? (ds : List Declaration) (d : Declaration) : Option Declaration :=
  ds.find? fun e => e.name = d.name ∧ d.nameSpan.start.line < e.nameSpan.start.line

/-- The place of `d` is taken before that of `e`. -/
def ReplacedBefore (ds : List Declaration) (d e : Declaration) : Prop :=
  ∃ d' e', successor? ds d = some d' ∧ successor? ds e = some e' ∧
    d'.nameSpan.start.line < e'.nameSpan.start.line

/-- Both `e` and the declaration that takes its place stand between `d` and the declaration that
takes the place of `d`. -/
def Encloses (ds : List Declaration) (d e : Declaration) : Prop :=
  d.nameSpan.start.line < e.nameSpan.start.line ∧ ReplacedBefore ds e d

section Successors

variable {ds : List Declaration} {us vs : List Usage} {d e x : Declaration}

theorem successor?_append (h : successor? ds d = some e) (more : List Declaration) :
    successor? (ds ++ more) d = some e := by
  unfold successor? at h ⊢
  rw [List.find?_append, h, Option.some_or]

theorem ReplacedBefore.append (h : ReplacedBefore ds d e) (more : List Declaration) :
    ReplacedBefore (ds ++ more) d e := by
  obtain ⟨d', e', hd, he, hlt⟩ := h
  exact ⟨d', e', successor?_append hd more, successor?_append he more, hlt⟩

theorem ReplacedBefore.asymm (h : ReplacedBefore ds d e) : ¬ ReplacedBefore ds e d := by
  rintro ⟨e'', d'', he', hd', hlt'⟩
  obtain ⟨d', e', hd, he, hlt⟩ := h
  obtain rfl : d' = d'' := Option.some.inj (hd.symm.trans hd')
  obtain rfl : e' = e'' := Option.some.inj (he.symm.trans he')
  omega

/-- A declaration that is read takes the place of the last one of its name. -/
theorem Arranged.successor?_concat (h : Arranged (ds ++ [x]) us) (hbefore : Arranged ds vs)
    (hlast : lastNamed? ds x.name = some d) : successor? (ds ++ [x]) d = some x := by
  obtain ⟨hmem, hname⟩ := List.mem_filter.1 (List.mem_of_getLast? hlast)
  have hname : d.name = x.name := of_decide_eq_true hname
  have hnone : successor? ds d = none := by
    rw [successor?, List.find?_eq_none]
    intro e he hnext
    obtain ⟨hsame, hlt⟩ := of_decide_eq_true hnext
    rw [← hname, ← hsame] at hlast
    have hle := hbefore.line_lt_of_lastNamed? he hlast (by rintro rfl; omega)
    omega
  have hlt := (List.pairwise_append.1 h.declarations).2.2 d hmem x (List.mem_singleton_self x)
  unfold successor? at hnone ⊢
  rw [List.find?_append, hnone, Option.none_or, List.find?_cons_of_pos]
  exact decide_eq_true ⟨hname.symm, hlt⟩

end Successors

namespace Format

variable {f : Format} {ds : List Declaration} {us vs : List Usage} {d x : Declaration}

theorem Holds.exists_successor (h : f.Holds ds us) (ha : Arranged ds us) (hd : d ∈ f.shadowed) :
    ∃ e ∈ ds, successor? ds d = some e := by
  obtain ⟨winner, hwinner, hlt⟩ := h.exists_winner ha hd
  obtain ⟨hmem, hname⟩ := List.mem_filter.1 (List.mem_of_getLast? hwinner)
  have hsome : (successor? ds d).isSome := by
    rw [successor?, List.find?_isSome]
    exact ⟨winner, hmem, decide_eq_true ⟨of_decide_eq_true hname, hlt⟩⟩
  obtain ⟨e, he⟩ := Option.isSome_iff_exists.1 hsome
  exact ⟨e, List.mem_of_find?_eq_some he, he⟩

/-- The declaration that is shadowed last is the one whose place was taken last. -/
theorem Holds.pairwise_shadowed_declare (h : f.Holds ds us) (hbefore : Arranged ds us)
    (ha : Arranged (ds ++ [x]) vs) (hordered : f.shadowed.Pairwise (ReplacedBefore ds)) :
    (f.declare x).shadowed.Pairwise (ReplacedBefore (ds ++ [x])) := by
  have hshadowed : (f.declare x).shadowed = f.shadowed ++ (lastNamed? ds x.name).toList := by
    rw [← h.declaration?_eq_lastNamed?]
    rfl
  rw [hshadowed, List.pairwise_append]
  refine ⟨hordered.imp fun hreplaced => hreplaced.append [x], ?_, ?_⟩
  · cases lastNamed? ds x.name with
    | none => exact .nil
    | some d => exact List.pairwise_singleton _ d
  · intro d hd e he
    obtain ⟨d', hmem, hd'⟩ := h.exists_successor hbefore hd
    have hlt := (List.pairwise_append.1 ha.declarations).2.2 d' hmem x (List.mem_singleton_self x)
    exact ⟨d', x, successor?_append hd' [x],
      ha.successor?_concat hbefore (Option.mem_toList.1 he), hlt⟩

theorem shadowed_foldl_addUsage (f : Format) (us : List Usage) :
    (us.foldl addUsage f).shadowed = f.shadowed := by
  induction us generalizing f with
  | nil => rfl
  | cons u rest ih => exact ih (f.addUsage u)

/-- The usages of a row shadow nothing. -/
theorem shadowed_readRow (f : Format) (row : Row) :
    (f.readRow row).shadowed =
      (declarationIn? row).elim f.shadowed fun x => (f.declare x).shadowed := by
  unfold readRow
  cases declarationIn? row with
  | none => exact shadowed_foldl_addUsage f (usagesIn row)
  | some x =>
    simp only [Option.elim_some, declare, declaration?, declarations_foldl_addUsage,
      shadowed_foldl_addUsage]

theorem Holds.pairwise_shadowed_readRow {rows : List Row} {row : Row}
    (h : f.Holds (declared rows) (used rows))
    (hrows : (rows ++ [row]).Pairwise fun r r' => r.2 < r'.2)
    (hordered : f.shadowed.Pairwise (ReplacedBefore (declared rows))) :
    (f.readRow row).shadowed.Pairwise (ReplacedBefore (declared (rows ++ [row]))) := by
  have hbefore := arranged_of_increasing (List.pairwise_append.1 hrows).1
  have harranged := arranged_of_increasing hrows
  rw [declared_append] at harranged ⊢
  rw [shadowed_readRow]
  cases hx : declarationIn? row with
  | none =>
    have hnone : declared [row] = [] := by simp [declared, hx]
    rwa [hnone, List.append_nil]
  | some x =>
    have hsome : declared [row] = [x] := by simp [declared, hx]
    rw [hsome] at harranged ⊢
    exact h.pairwise_shadowed_declare hbefore harranged hordered

/-- A format that reads rows keeps its shadowed declarations in the order in which their places were
taken. -/
theorem pairwise_shadowed_foldl_readRow (name : Name) (startLine endLine : Nat) {rows : List Row}
    (hrows : rows.Pairwise fun r r' => r.2 < r'.2) :
    (rows.foldl readRow (opened name startLine endLine)).shadowed.Pairwise
      (ReplacedBefore (declared rows)) := by
  induction rows using List.reverseRecOn with
  | nil => exact .nil
  | append_singleton rows row ih =>
    have hholds := (holds_opened name startLine endLine).foldl_readRow rows
    rw [List.nil_append, List.nil_append] at hholds
    rw [List.foldl_append, List.foldl_cons, List.foldl_nil]
    exact hholds.pairwise_shadowed_readRow hrows (ih (List.pairwise_append.1 hrows).1)

end Format

/-- Two fields, each declared twice, the one between the declarations of the other. -/
def Source.enclosed : Source := .ofLines <| List.map String.toList [
  "     A          R F",
  "     A  P 1A ALIAS(X)",
  "     A  Q 1A ALIAS(Y)",
  "     A  Q 1A ALIAS(Z)",
  "     A  P 1A ALIAS(W)"]

namespace Document

variable {s : Source} {f : Format}

theorem pairwise_replacedBefore_shadowed (hf : f ∈ (ofSource s).formats) :
    f.shadowed.Pairwise (ReplacedBefore (declared (s.rowsOf f))) := by
  obtain ⟨b, -, rfl, hrows⟩ := exists_block_of_mem hf
  rw [hrows]
  exact Format.pairwise_shadowed_foldl_readRow _ _ _ (pairwise_zipIdx b.lines b.start)

/-- The shadowed declarations of a format stand in the order of the text unless one of them encloses
another. -/
theorem pairwise_start_shadowed_iff (hf : f ∈ (ofSource s).formats) :
    f.shadowed.Pairwise (fun d e => d.nameSpan.start < e.nameSpan.start) ↔
      ∀ d ∈ f.shadowed, ∀ e ∈ f.shadowed, ¬ Encloses (declared (s.rowsOf f)) d e := by
  have hreplaced := pairwise_replacedBefore_shadowed hf
  constructor
  · rintro hstart d hd e he ⟨hlt, hfirst⟩
    have hboth := List.pairwise_and_iff.2 ⟨hstart, hreplaced⟩
    obtain rfl : d = e := by
      apply eq_of_pairwise hboth hd he
      · exact fun h => h.2.asymm hfirst
      · intro h
        have := Position.lt_def.1 h.1
        omega
    omega
  · intro hnone
    refine hreplaced.imp_of_mem ?_
    intro d e hd he hbefore
    have hholds := holds_of_mem hf
    rcases Nat.lt_trichotomy d.nameSpan.start.line e.nameSpan.start.line with hlt | heq | hlt
    · exact Position.lt_def.2 (Or.inl hlt)
    · obtain rfl : d = e := (arranged_rowsOf s f).declaration_eq_of_line (hholds.mem_of_shadowed hd)
        (hholds.mem_of_shadowed he) heq
      exact absurd hbefore hbefore.asymm
    · exact absurd ⟨hlt, hbefore⟩ (hnone e he d hd)

theorem map_span_warnings (hf : f ∈ (ofSource s).formats) :
    f.warnings.map Warning.span = f.shadowed.map Declaration.nameSpan := by
  have hconcerns := (holds_of_mem hf).forall₂_concerns_warnings (arranged_rowsOf s f)
  rw [← List.forall₂_eq_eq_eq, List.forall₂_map_left_iff, List.forall₂_map_right_iff]
  exact (hconcerns.imp fun d w hw => hw.1).flip

theorem pairwise_start_warnings_iff (s : Source) :
    (ofSource s).warnings.Pairwise (fun w v => w.span.start < v.span.start) ↔
      ∀ f ∈ (ofSource s).formats,
        f.shadowed.Pairwise fun d e => d.nameSpan.start < e.nameSpan.start := by
  have hone (f : Format) (hf : f ∈ (ofSource s).formats) :
      f.warnings.Pairwise (fun w v => w.span.start < v.span.start) ↔
        f.shadowed.Pairwise fun d e => d.nameSpan.start < e.nameSpan.start := by
    rw [← List.pairwise_map (f := Warning.span) (R := fun a b => a.start < b.start),
      map_span_warnings hf, List.pairwise_map]
  -- the warnings of two formats are always in order, as the formats themselves are
  have hapart : (ofSource s).formats.Pairwise fun f g =>
      ∀ w ∈ f.warnings, ∀ v ∈ g.warnings, w.span.start < v.span.start := by
    refine (pairwise_formats s).imp_of_mem ?_
    intro f g hf hg hlt w hw v hv
    have hline := Format.containsLine_iff.1 (containsLine_of_mem_warnings hf hw)
    have hline' := Format.containsLine_iff.1 (containsLine_of_mem_warnings hg hv)
    exact Position.lt_def.2 (Or.inl (by omega))
  rw [warnings, List.pairwise_flatMap, and_iff_left hapart]
  exact forall₂_congr hone

/-- Shadowed declarations stand in the order in which their places were taken. They stand in the
order of the text exactly if none encloses another, and the warnings of the document do exactly if
the shadowed declarations of all its formats do. -/
theorem shadowed_in_text_order_iff (s : Source) :
    (∀ f ∈ (ofSource s).formats,
      f.shadowed.Pairwise (ReplacedBefore (declared (s.rowsOf f))) ∧
      (f.shadowed.Pairwise (fun d e => d.nameSpan.start < e.nameSpan.start) ↔
        ∀ d ∈ f.shadowed, ∀ e ∈ f.shadowed, ¬ Encloses (declared (s.rowsOf f)) d e)) ∧
    ((ofSource s).warnings.Pairwise (fun w v => w.span.start < v.span.start) ↔
      ∀ f ∈ (ofSource s).formats,
        f.shadowed.Pairwise fun d e => d.nameSpan.start < e.nameSpan.start) := by
  refine ⟨fun f hf => ⟨?_, ?_⟩, ?_⟩
  · exact pairwise_replacedBefore_shadowed hf
  · exact pairwise_start_shadowed_iff hf
  · exact pairwise_start_warnings_iff s

theorem shadowed_in_text_order_iff_interleaved :
    ∃ f ∈ (ofSource .interleaved).formats,
      f.shadowed.map (fun d => d.nameSpan.start.line) = [1, 2, 3] ∧
      f.shadowed.Pairwise (ReplacedBefore (declared (Source.interleaved.rowsOf f))) ∧
      (∀ d ∈ f.shadowed, ∀ e ∈ f.shadowed,
        ¬ Encloses (declared (Source.interleaved.rowsOf f)) d e) ∧
      (ofSource .interleaved).warnings.Pairwise fun w v => w.span.start < v.span.start := by
  obtain ⟨f, hf, hlines, hstart⟩ : ∃ f ∈ (ofSource .interleaved).formats,
      f.shadowed.map (fun d => d.nameSpan.start.line) = [1, 2, 3] ∧
      f.shadowed.Pairwise fun d e => d.nameSpan.start < e.nameSpan.start := by decide +kernel
  obtain ⟨hformats, hwarnings⟩ := shadowed_in_text_order_iff .interleaved
  exact ⟨f, hf, hlines, (hformats f hf).1, (hformats f hf).2.1 hstart,
    hwarnings.2 (by decide +kernel)⟩

/-- The first of the two fields is declared again last, so its first declaration comes last among
the shadowed ones and among the warnings. -/
theorem shadowed_not_in_text_order_enclosed :
    (∃ f ∈ (ofSource .enclosed).formats,
      f.shadowed.map Declaration.nameSpan = [.onLine 2 8 9, .onLine 1 8 9] ∧
      ¬ f.shadowed.Pairwise fun d e => d.nameSpan.start < e.nameSpan.start) ∧
    ¬ (ofSource .enclosed).warnings.Pairwise fun w v => w.span.start < v.span.start := by
  decide +kernel

end Document

end DisplayFile
