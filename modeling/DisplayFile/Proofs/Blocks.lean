import DisplayFile.Proofs.Index

/-!
# Blocks as stretches of the source

The rows of a source are the rows before its first header, followed by the rows of one block after
the other. The lines of a format are thus a stretch of the source: they are the rows whose numbers
it contains, and no other format contains one of these numbers.
-/

namespace DisplayFile

section Exclusive

variable {α : Type} {p : α → Bool} {l : List α}

theorem find?_eq_some_iff_of_exclusive (h : l.Pairwise fun a b => ¬ (p a ∧ p b)) {a : α} :
    l.find? p = some a ↔ a ∈ l ∧ p a := by
  constructor
  · intro ha
    exact ⟨List.mem_of_find?_eq_some ha, List.find?_some ha⟩
  · rintro ⟨ha, hp⟩
    induction l with
    | nil => cases ha
    | cons b rest ih =>
      obtain ⟨hb, hrest⟩ := List.pairwise_cons.1 h
      rcases List.mem_cons.1 ha with rfl | hmem
      · exact List.find?_cons_of_pos hp
      · rw [List.find?_cons_of_neg (fun hpb => hb a hmem ⟨hpb, hp⟩)]
        exact ih hrest hmem

theorem length_filter_le_one_of_exclusive (h : l.Pairwise fun a b => ¬ (p a ∧ p b)) :
    (l.filter p).length ≤ 1 := by
  induction l with
  | nil => exact Nat.zero_le 1
  | cons a rest ih =>
    obtain ⟨ha, hrest⟩ := List.pairwise_cons.1 h
    by_cases hp : p a
    · have hnone : rest.filter p = [] := by
        rw [List.filter_eq_nil_iff]
        intro b hb hpb
        exact ha b hb ⟨hp, hpb⟩
      rw [List.filter_cons_of_pos hp, hnone]
      exact Nat.le_refl 1
    · rw [List.filter_cons_of_neg hp]
      exact ih hrest

end Exclusive

theorem pairwise_zipIdx (lines : List (Option Line)) (n : Nat) :
    (lines.zipIdx n).Pairwise fun r r' => r.2 < r'.2 := by
  rw [← List.pairwise_map, List.zipIdx_map_snd]
  exact List.pairwise_lt_range'

/-- Whether a line can be read and is a header. -/
def opensFormat (line : Option Line) : Bool := line.any fun raw => isHeader (normalize raw)

theorem opensFormat_iff {line : Option Line} :
    opensFormat line ↔ ∃ raw, line = some raw ∧ isHeader (normalize raw) := by
  simp [opensFormat, Option.any_eq_true]

namespace Block

variable {b : Block} {row : Row} {s : Source}

/-- The lines before the first header. -/
def preamble (rows : List Row) : List (Option Line) := (rows.foldr cutStep ([], [])).1

section Cons

variable {line : Option Line} {raw : Line} {number : Nat} {rows : List Row}

theorem cut_cons_of_isHeader (h : isHeader (normalize raw)) :
    cut ((some raw, number) :: rows) = ⟨number, raw, preamble rows⟩ :: cut rows := by
  simp only [cut, List.foldr_cons, cutStep, if_pos h, preamble]

theorem preamble_cons_of_isHeader (h : isHeader (normalize raw)) :
    preamble ((some raw, number) :: rows) = [] := by
  simp only [preamble, List.foldr_cons, cutStep, if_pos h]

theorem cutStep_of_not_opensFormat (h : ¬ opensFormat line) (acc : List (Option Line) × List Block) :
    cutStep (line, number) acc = (line :: acc.1, acc.2) := by
  cases line with
  | none => rfl
  | some raw =>
    have hheader : ¬ isHeader (normalize raw) := h
    simp only [cutStep, if_neg hheader]

theorem cut_cons_of_not_opensFormat (h : ¬ opensFormat line) :
    cut ((line, number) :: rows) = cut rows := by
  rw [cut, List.foldr_cons, cutStep_of_not_opensFormat h, cut]

theorem preamble_cons_of_not_opensFormat (h : ¬ opensFormat line) :
    preamble ((line, number) :: rows) = line :: preamble rows := by
  rw [preamble, List.foldr_cons, cutStep_of_not_opensFormat h, preamble]

end Cons

/-- Cutting loses no row and changes no number. -/
theorem zipIdx_eq_append_cut (lines : List (Option Line)) (n : Nat) :
    lines.zipIdx n =
      (preamble (lines.zipIdx n)).zipIdx n ++ (cut (lines.zipIdx n)).flatMap rows := by
  induction lines generalizing n with
  | nil => rfl
  | cons line rest ih =>
    rw [List.zipIdx_cons]
    by_cases h : opensFormat line
    · obtain ⟨raw, rfl, hheader⟩ := opensFormat_iff.1 h
      rw [preamble_cons_of_isHeader hheader, cut_cons_of_isHeader hheader, List.flatMap_cons]
      exact congrArg _ (ih (n + 1))
    · rw [preamble_cons_of_not_opensFormat h, cut_cons_of_not_opensFormat h, List.zipIdx_cons,
        List.cons_append, ← ih (n + 1)]

theorem rows_eq_append_cut (s : Source) :
    s.rows = (preamble s.rows).zipIdx ++ (cut s.rows).flatMap rows := zipIdx_eq_append_cut s.lines 0

theorem mem_rows_bounds (h : row ∈ b.rows) : b.start ≤ row.2 ∧ row.2 ≤ b.endLine := by
  have hge := List.le_snd_of_mem_zipIdx h
  have hlt := List.snd_lt_add_of_mem_zipIdx h
  simp only [lines, List.length_cons] at hlt
  unfold endLine
  omega

theorem exists_mem_rows {n : Nat} (hstart : b.start ≤ n) (hend : n ≤ b.endLine) :
    ∃ line, (line, n) ∈ b.rows := by
  unfold endLine at hend
  have hlt : n - b.start < b.lines.length := by
    simp only [lines, List.length_cons]
    omega
  refine ⟨b.lines[n - b.start], ?_⟩
  rw [rows, List.mem_zipIdx_iff_le_and_getElem?_sub]
  exact ⟨hstart, List.getElem?_eq_getElem hlt⟩

theorem start_le_endLine (b : Block) : b.start ≤ b.endLine := Nat.le_add_right _ _

/-- A block starts after the last line of every block before it. -/
theorem pairwise_cut (s : Source) : (cut s.rows).Pairwise fun b c => b.endLine < c.start := by
  have hrows := pairwise_zipIdx s.lines 0
  rw [← Source.rows, rows_eq_append_cut, List.pairwise_append, List.pairwise_flatMap] at hrows
  refine hrows.2.1.2.imp ?_
  intro b c hlt
  obtain ⟨last, hlast⟩ := exists_mem_rows b.start_le_endLine (Nat.le_refl _)
  obtain ⟨first, hfirst⟩ := exists_mem_rows (Nat.le_refl _) c.start_le_endLine
  exact hlt _ hlast _ hfirst

theorem exists_rows_around (hb : b ∈ cut s.rows) :
    ∃ before after, s.rows = before ++ (b.rows ++ after) ∧
      (∀ row ∈ before, row.2 < b.start) ∧ ∀ row ∈ after, b.endLine < row.2 := by
  obtain ⟨earlier, later, hcut⟩ := List.append_of_mem hb
  have hrows : s.rows = ((preamble s.rows).zipIdx ++ earlier.flatMap rows) ++
      (b.rows ++ later.flatMap rows) := by
    rw [List.append_assoc, ← List.flatMap_cons, ← List.flatMap_append, ← hcut]
    exact rows_eq_append_cut s
  have hsorted : s.rows.Pairwise fun r r' => r.2 < r'.2 := pairwise_zipIdx s.lines 0
  refine ⟨_, _, hrows, ?_, ?_⟩
  · intro row hrow
    obtain ⟨first, hfirst⟩ := exists_mem_rows (Nat.le_refl b.start) b.start_le_endLine
    rw [hrows, List.pairwise_append] at hsorted
    exact hsorted.2.2 row hrow _ (List.mem_append_left _ hfirst)
  · intro row hrow
    obtain ⟨last, hlast⟩ := exists_mem_rows b.start_le_endLine (Nat.le_refl b.endLine)
    rw [hrows, ← List.append_assoc, List.pairwise_append] at hsorted
    exact hsorted.2.2 _ (List.mem_append_right _ hlast) row hrow

/-- The rows of a block are the rows of the source with its numbers. -/
theorem filter_rows_eq (hb : b ∈ cut s.rows) :
    s.rows.filter (fun row => b.start ≤ row.2 && row.2 ≤ b.endLine) = b.rows := by
  obtain ⟨before, after, hrows, hbefore, hafter⟩ := exists_rows_around hb
  have hnone (part : List Row) (hout : ∀ row ∈ part, row.2 < b.start ∨ b.endLine < row.2) :
      part.filter (fun row => b.start ≤ row.2 && row.2 ≤ b.endLine) = [] := by
    rw [List.filter_eq_nil_iff]
    intro row hrow
    have := hout row hrow
    simp only [Bool.and_eq_true, decide_eq_true_eq]
    omega
  have hall : b.rows.filter (fun row => b.start ≤ row.2 && row.2 ≤ b.endLine) = b.rows := by
    rw [List.filter_eq_self]
    intro row hrow
    simpa using mem_rows_bounds hrow
  rw [hrows, List.filter_append, List.filter_append, hall,
    hnone before fun row hrow => Or.inl (hbefore row hrow),
    hnone after fun row hrow => Or.inr (hafter row hrow), List.nil_append, List.append_nil]

theorem format_containsLine (b : Block) (n : Nat) :
    b.format.containsLine n = (decide (b.start ≤ n) && decide (n ≤ b.endLine)) := by
  simp [Format.containsLine]

end Block

theorem Format.containsLine_iff {f : Format} {line : Nat} :
    f.containsLine line ↔ f.startLine ≤ line ∧ line ≤ f.endLine := by
  simp [Format.containsLine]

namespace Source

/-- The rows of the source that a format spans. -/
def rowsOf (s : Source) (f : Format) : List Row := s.rows.filter fun row => f.containsLine row.2

variable {s : Source} {row : Row}

theorem mem_rows : row ∈ s.rows ↔ s.lines[row.2]? = some row.1 := List.mem_zipIdx_iff_getElem?

theorem mem_rowsOf {f : Format} : row ∈ s.rowsOf f ↔ row ∈ s.rows ∧ f.containsLine row.2 :=
  List.mem_filter

/-- The lines that can be read are the rows with a text. -/
theorem line?_eq_some_iff {n : Nat} {raw : Line} :
    s.line? n = some raw ↔ (some raw, n) ∈ s.rows := by
  rw [mem_rows, line?, Option.join_eq_some_iff]

theorem line?_of_mem_rowsOf {f : Format} {raw : Line} (h : row ∈ s.rowsOf f)
    (hraw : row.1 = some raw) : s.line? row.2 = some raw := by
  rw [line?_eq_some_iff, ← hraw]
  exact (mem_rowsOf.1 h).1

theorem lt_lineCount_of_line? {n : Nat} {raw : Line} (h : s.line? n = some raw) :
    n < s.lineCount := by
  rw [line?_eq_some_iff, mem_rows] at h
  exact (List.getElem?_eq_some_iff.1 h).1

end Source

namespace Document

variable {s : Source} {f g : Format}

theorem exists_block_of_mem (hf : f ∈ (ofSource s).formats) :
    ∃ b ∈ Block.cut s.rows, f = b.format ∧ s.rowsOf f = b.rows := by
  obtain ⟨b, hb, rfl⟩ := List.mem_map.1 hf
  refine ⟨b, hb, rfl, ?_⟩
  rw [← Block.filter_rows_eq hb]
  exact List.filter_congr fun row _ => b.format_containsLine row.2

theorem holds_of_mem (hf : f ∈ (ofSource s).formats) :
    f.Holds (declared (s.rowsOf f)) (used (s.rowsOf f)) := by
  obtain ⟨b, -, rfl, hrows⟩ := exists_block_of_mem hf
  rw [hrows]
  exact b.format_holds

theorem arranged_rowsOf (s : Source) (f : Format) :
    Arranged (declared (s.rowsOf f)) (used (s.rowsOf f)) :=
  arranged_of_increasing ((pairwise_zipIdx s.lines 0).sublist List.filter_sublist)

theorem pairwise_formats (s : Source) :
    (ofSource s).formats.Pairwise fun f g => f.endLine < g.startLine := by
  refine List.pairwise_map.2 ((Block.pairwise_cut s).imp ?_)
  intro b c hlt
  simpa using hlt

/-- What is found at a line is the format that contains it. -/
theorem formatAt?_eq_some_iff {line : Nat} :
    (ofSource s).formatAt? line = some f ↔ f ∈ (ofSource s).formats ∧ f.containsLine line := by
  refine find?_eq_some_iff_of_exclusive ((pairwise_formats s).imp ?_)
  intro f g hlt
  rw [Format.containsLine_iff, Format.containsLine_iff]
  omega

theorem formatAt?_eq_some (hf : f ∈ (ofSource s).formats) {line : Nat} (h : f.containsLine line) :
    (ofSource s).formatAt? line = some f := formatAt?_eq_some_iff.2 ⟨hf, h⟩

end Document

end DisplayFile
