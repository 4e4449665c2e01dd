import DisplayFile.Proofs.Concatenation

/-!
# Inert lines

A line that cannot be read, or that is no specification, is inert: a comment, a blank line, a
specification of another type. It is read without effect, and it opens no format. So a document with
an inert line put in is the document without it, with the lines behind that place one further down;
the format that was open there takes the line in and ends one line later.
-/

namespace DisplayFile

def isInert (line : Option Line) : Bool := !line.any fun raw => isSpecification (normalize raw)

/-- The number that a line has after another line was put in before line `n`. -/
def afterInsert (n line : Nat) : Nat := if n ≤ line then line + 1 else line

theorem afterInsert_of_le {n line : Nat} (h : n ≤ line) : afterInsert n line = line + 1 := if_pos h

theorem afterInsert_of_lt {n line : Nat} (h : line < n) : afterInsert n line = line :=
  if_neg (Nat.not_le.2 h)

section Inert

variable {line : Option Line} (h : isInert line)
include h

theorem not_opensFormat_of_isInert : ¬ opensFormat line := by
  intro hopens
  obtain ⟨raw, rfl, hheader⟩ := opensFormat_iff.1 hopens
  simp [isInert, isSpecification_of_isHeader hheader] at h

theorem Format.readRow_of_isInert (f : Format) (number : Nat) : f.readRow (line, number) = f := by
  cases line with
  | none => rfl
  | some raw =>
    have hspec : isSpecification (normalize raw) = false := by simpa [isInert] using h
    simp [readRow, usagesIn, declarationIn?, hspec]

end Inert

namespace Format

/-- The format after a line was put in before line `n`. If the format ended on the line before that
place, it now ends on the new line. -/
def insertLine (n : Nat) (f : Format) : Format :=
  { f.renumber (afterInsert n) with
    endLine := if n ≤ f.endLine + 1 then f.endLine + 1 else f.endLine }

end Format

/-- Lines behind the place of a new one are one further down. -/
theorem map_afterInsert_zipIdx {n m : Nat} (h : n ≤ m) (lines : List (Option Line)) :
    (lines.zipIdx m).map (Prod.map id (afterInsert n)) = lines.zipIdx (m + 1) := by
  rw [Nat.add_comm, ← List.map_snd_add_zipIdx_eq_zipIdx]
  refine List.map_congr_left ?_
  intro row hrow
  have hle := h.trans (List.le_snd_of_mem_zipIdx hrow)
  rw [Prod.map_apply, afterInsert_of_le hle]
  rfl

/-- An inert line among others is read as if it were not there, but for the numbers of the lines
behind it. -/
theorem Format.foldl_readRow_insertIdx {line : Option Line} (h : isInert line) (f : Format)
    (lines : List (Option Line)) (k m : Nat) :
    ((lines.insertIdx k line).zipIdx m).foldl readRow f =
      ((lines.zipIdx m).map (Prod.map id (afterInsert (m + k)))).foldl readRow f := by
  induction lines generalizing f k m with
  | nil =>
    cases k with
    | zero => exact f.readRow_of_isInert h m
    | succ k => rfl
  | cons other rest ih =>
    cases k with
    | zero =>
      rw [List.insertIdx_zero, List.zipIdx_cons, List.foldl_cons, f.readRow_of_isInert h,
        map_afterInsert_zipIdx (n := m + 0) (Nat.le_refl m)]
    | succ k =>
      rw [List.insertIdx_succ_cons, List.zipIdx_cons, List.zipIdx_cons, List.map_cons,
        List.foldl_cons, List.foldl_cons, ih, Prod.map_apply, id_eq, afterInsert_of_lt (by omega),
        Nat.add_right_comm, Nat.add_assoc]

namespace Block

/-- The block after a line was put in before line `n`: at that place if it is in the block or right
behind it, and else before the block or far behind it. -/
def insertLine (n : Nat) (line : Option Line) (b : Block) : Block :=
  if n ≤ b.start then b.shift 1
  else { b with body := b.body.insertIdx (n - b.start - 1) line }

section Insert

variable {n : Nat} {line : Option Line} {b : Block}

theorem insertLine_of_le (h : n ≤ b.start) : b.insertLine n line = b.shift 1 := if_pos h

theorem insertLine_of_lt (h : b.start < n) :
    b.insertLine n line = { b with body := b.body.insertIdx (n - b.start - 1) line } :=
  if_neg (Nat.not_le.2 h)

theorem header_insertLine : (b.insertLine n line).header = b.header := by
  unfold insertLine
  split
  · rfl
  · rfl

theorem start_insertLine : (b.insertLine n line).start = afterInsert n b.start := by
  by_cases h : n ≤ b.start
  · rw [insertLine_of_le h, afterInsert_of_le h]
    rfl
  · rw [insertLine_of_lt (by omega), afterInsert_of_lt (by omega)]

theorem endLine_insertLine : (b.insertLine n line).endLine =
    if n ≤ b.endLine + 1 then b.endLine + 1 else b.endLine := by
  by_cases h : n ≤ b.start
  · rw [insertLine_of_le h, if_pos (by unfold endLine; omega)]
    exact Nat.add_right_comm b.start 1 b.body.length
  · rw [insertLine_of_lt (by omega)]
    change b.start + (b.body.insertIdx (n - b.start - 1) line).length = _
    rw [List.length_insertIdx, endLine]
    split <;> split <;> omega

/-- Reading the rows of the block with the inert line is reading its rows with their new numbers. -/
theorem foldl_readRow_insertLine (h : isInert line) (f : Format) :
    (b.insertLine n line).rows.foldl Format.readRow f =
      (b.rows.map (Prod.map id (afterInsert n))).foldl Format.readRow f := by
  by_cases hn : n ≤ b.start
  · rw [insertLine_of_le hn]
    exact congrArg (List.foldl _ f) (map_afterInsert_zipIdx hn b.lines).symm
  · have hlines : (b.insertLine n line).lines = b.lines.insertIdx (n - b.start) line := by
      rw [insertLine_of_lt (by omega), show n - b.start = n - b.start - 1 + 1 by omega]
      rfl
    rw [rows, hlines, start_insertLine, afterInsert_of_lt (by omega),
      Format.foldl_readRow_insertIdx h, show b.start + (n - b.start) = n by omega, rows]

theorem format_insertLine (h : isInert line) (b : Block) :
    (b.insertLine n line).format = b.format.insertLine n := by
  let heading : Format := .opened (formatName (normalize b.header)) b.start b.endLine
  have hopened : Format.opened (formatName (normalize (b.insertLine n line).header))
      (b.insertLine n line).start (b.insertLine n line).endLine =
        { heading.renumber (afterInsert n) with endLine := (b.insertLine n line).endLine } := by
    rw [header_insertLine, start_insertLine]
    rfl
  rw [format, foldl_readRow_insertLine h, hopened, Format.foldl_readRow_withEnd,
    Format.foldl_readRow_renumber, endLine_insertLine, Format.insertLine, format_endLine]
  rfl

end Insert

theorem le_start_of_mem_cut {lines : List (Option Line)} {m : Nat} {b : Block}
    (h : b ∈ cut (lines.zipIdx m)) : m ≤ b.start := by
  have hstart : b.start ∈ (cut (lines.zipIdx m)).map start := List.mem_map_of_mem h
  rw [map_start_cut, List.mem_map] at hstart
  obtain ⟨row, hrow, hnumber⟩ := hstart
  rw [← hnumber]
  exact List.le_snd_of_mem_zipIdx (List.mem_filter.1 hrow).1

/-- A line that opens no format goes into the block that is open at its place. -/
theorem cut_insert {line : Option Line} (h : ¬ opensFormat line) (before after : List (Option Line))
    (m : Nat) :
    preamble ((before ++ line :: after).zipIdx m) =
        (preamble ((before ++ after).zipIdx m)).insertIdx before.length line ∧
      cut ((before ++ line :: after).zipIdx m) =
        (cut ((before ++ after).zipIdx m)).map (insertLine (m + before.length) line) := by
  induction before generalizing m with
  | nil =>
    obtain ⟨hpreamble, hcut⟩ := cut_shift 1 (after.zipIdx m)
    rw [List.map_snd_add_zipIdx_eq_zipIdx, Nat.add_comm] at hpreamble hcut
    rw [List.nil_append, List.nil_append, List.zipIdx_cons, preamble_cons_of_not_opensFormat h,
      cut_cons_of_not_opensFormat h, hpreamble, hcut]
    refine ⟨rfl, List.map_congr_left ?_⟩
    intro b hb
    exact (insertLine_of_le (le_start_of_mem_cut hb)).symm
  | cons first rest ih =>
    obtain ⟨hpreamble, hcut⟩ := ih (m + 1)
    rw [List.cons_append, List.cons_append, List.zipIdx_cons, List.zipIdx_cons, List.length_cons]
    rw [Nat.add_assoc, Nat.add_comm 1] at hcut
    by_cases hopens : opensFormat first
    · obtain ⟨raw, rfl, hheader⟩ := opensFormat_iff.1 hopens
      rw [preamble_cons_of_isHeader hheader, preamble_cons_of_isHeader hheader,
        cut_cons_of_isHeader hheader, cut_cons_of_isHeader hheader, hpreamble, hcut, List.map_cons,
        insertLine_of_lt (by simp)]
      refine ⟨rfl, ?_⟩
      rw [show m + (rest.length + 1) - m - 1 = rest.length by omega]
    · rw [preamble_cons_of_not_opensFormat hopens, preamble_cons_of_not_opensFormat hopens,
        cut_cons_of_not_opensFormat hopens, cut_cons_of_not_opensFormat hopens, hpreamble, hcut]
      exact ⟨rfl, rfl⟩

end Block

namespace Document

/-- The document after a line was put in before line `n`. -/
def insertLine (n : Nat) (d : Document) : Document where
  lineCount := d.lineCount + 1
  formats := d.formats.map (Format.insertLine n)

/-- An inert line only moves what stands behind it. -/
theorem ofSource_insert_inert (s t : Source) {line : Option Line} (h : isInert line) :
    ofSource (s ++ ⟨[line]⟩ ++ t) = (ofSource (s ++ t)).insertLine s.lineCount := by
  have hsource : s ++ ⟨[line]⟩ ++ t = ⟨s.lines ++ line :: t.lines⟩ :=
    congrArg Source.mk (List.append_assoc s.lines [line] t.lines)
  have hcount : (s.lines ++ line :: t.lines).length = (s.lines ++ t.lines).length + 1 :=
    List.perm_middle.length_eq
  have hcut : Block.cut ((s.lines ++ line :: t.lines).zipIdx 0) =
      (Block.cut ((s.lines ++ t.lines).zipIdx 0)).map (Block.insertLine s.lineCount line) := by
    have hopens := not_opensFormat_of_isInert h
    rw [(Block.cut_insert hopens s.lines t.lines 0).2, Nat.zero_add, Source.lineCount]
  have hformats : (Block.cut ((s.lines ++ line :: t.lines).zipIdx 0)).map Block.format =
      ((Block.cut ((s.lines ++ t.lines).zipIdx 0)).map Block.format).map
        (Format.insertLine s.lineCount) := by
    rw [hcut, List.map_map, List.map_map]
    refine List.map_congr_left ?_
    intro b _
    exact Block.format_insertLine h b
  rw [hsource]
  exact congrArg₂ Document.mk hcount hformats

/-- What the last format declares and uses, by place. -/
def lastSpans (d : Document) : Option (List Span × List Span) :=
  d.formats.getLast?.map fun f =>
    (f.declarations.values.map Declaration.nameSpan, f.allUsages.map Usage.target)

/-- The comment right before a header goes to the format that ends there, which already ends with a
line that cannot be read and a comment. What the format behind it declares and uses moves down. -/
theorem ofSource_insert_inert_comment :
    let comment : Option Line := some "     A* R P 1A ALIAS(Q) DSPATR(&P)".toList
    let before := ofSource (.adjoining ++ .crossed)
    let after := ofSource (.adjoining ++ ⟨[comment]⟩ ++ .crossed)
    isInert comment ∧
    after = before.insertLine 5 ∧
    before.formats.map (fun f => (f.startLine, f.endLine)) = [(1, 1), (2, 4), (5, 9)] ∧
    after.formats.map (fun f => (f.startLine, f.endLine)) = [(1, 1), (2, 5), (6, 10)] ∧
    before.lastSpans = some (
      [⟨⟨7, 8⟩, ⟨7, 9⟩⟩, ⟨⟨8, 8⟩, ⟨8, 9⟩⟩],
      [⟨⟨9, 17⟩, ⟨9, 19⟩⟩, ⟨⟨9, 27⟩, ⟨9, 29⟩⟩, ⟨⟨9, 37⟩, ⟨9, 39⟩⟩]) ∧
    after.lastSpans = some (
      [⟨⟨8, 8⟩, ⟨8, 9⟩⟩, ⟨⟨9, 8⟩, ⟨9, 9⟩⟩],
      [⟨⟨10, 17⟩, ⟨10, 19⟩⟩, ⟨⟨10, 27⟩, ⟨10, 29⟩⟩, ⟨⟨10, 37⟩, ⟨10, 39⟩⟩]) := by
  intro comment before after
  have hinert : isInert comment := by decide +kernel
  have hinsert : after = before.insertLine 5 := ofSource_insert_inert .adjoining .crossed hinert
  have hbefore : before.formats.map (fun f => (f.startLine, f.endLine)) =
      [(1, 1), (2, 4), (5, 9)] := by decide +kernel
  refine ⟨hinert, hinsert, hbefore, ?_, by decide +kernel, ?_⟩
  · rw [hinsert]
    decide +kernel
  · rw [hinsert]
    decide +kernel

end Document

end DisplayFile
