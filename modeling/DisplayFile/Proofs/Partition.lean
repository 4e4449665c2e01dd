import DisplayFile.Proofs.Blocks

/-!
# Formats partition the lines

A format starts at every header and nowhere else. The formats tile the lines from the first header
on: each ends on the line before the next one starts, and the last one on the last line of the
source. So a line belongs to the format of the last header at or before it.
-/

namespace DisplayFile

/-- The word between blanks that comes first in the text, or the empty word if all is blank. -/
def IsFirstWord (text word : List Char) : Prop :=
  ∃ before after, text = before ++ (word ++ after) ∧ (∀ c ∈ before, isBlank c) ∧
    (∀ c ∈ word, ¬ isBlank c) ∧ (∀ c ∈ after.head?, isBlank c) ∧ (word = [] → after = [])

theorem isFirstWord_firstWord (text : List Char) : IsFirstWord text (firstWord text) := by
  have hlead : ∀ c ∈ text.takeWhile isBlank, isBlank c := List.all_eq_true.1 List.all_takeWhile
  have htext : text.takeWhile isBlank ++ text.dropWhile isBlank = text :=
    List.takeWhile_append_dropWhile
  unfold firstWord
  cases htrimmed : text.dropWhile isBlank with
  | nil =>
    refine ⟨text.takeWhile isBlank, [], ?_, hlead, by simp, by simp, fun _ => rfl⟩
    rw [htrimmed] at htext
    exact htext.symm
  | cons c rest =>
    have hc : (!isBlank c) = true := by
      have hhead := List.head?_dropWhile_not isBlank text
      rw [htrimmed] at hhead
      simpa using hhead
    refine ⟨text.takeWhile isBlank, (c :: rest).dropWhile fun c => !isBlank c, ?_, hlead, ?_, ?_, ?_⟩
    · rw [List.takeWhile_append_dropWhile, ← htrimmed, htext]
    · intro x hx
      simpa using List.all_eq_true.1 List.all_takeWhile x hx
    · intro x hx
      have hhead := List.head?_dropWhile_not (fun c => !isBlank c) (c :: rest)
      rw [Option.mem_def.1 hx] at hhead
      simpa using hhead
    · intro hempty
      rw [List.takeWhile_cons, if_pos hc] at hempty
      cases hempty

namespace Format

/-- The formats follow one another without a gap, from the line `start` up to the line before
`stop`. -/
def Tiles (start : Nat) : List Format → Nat → Prop
  | [], stop => start = stop
  | f :: rest, stop => f.startLine = start ∧ f.startLine ≤ f.endLine ∧ Tiles (f.endLine + 1) rest stop

namespace Tiles

variable {start stop : Nat} {fs : List Format} {f : Format}

theorem start_le (h : Tiles start fs stop) : start ≤ stop := by
  induction fs generalizing start with
  | nil => exact Nat.le_of_eq h
  | cons g rest ih =>
    obtain ⟨hstart, hle, hrest⟩ := h
    have := ih hrest
    omega

theorem bounds (h : Tiles start fs stop) (hf : f ∈ fs) :
    start ≤ f.startLine ∧ f.startLine ≤ f.endLine ∧ f.endLine < stop := by
  induction fs generalizing start with
  | nil => cases hf
  | cons g rest ih =>
    obtain ⟨hstart, hle, hrest⟩ := h
    rcases List.mem_cons.1 hf with rfl | hmem
    · have := hrest.start_le
      omega
    · have := ih hrest hmem
      omega

theorem isChain (h : Tiles start fs stop) :
    fs.IsChain fun f g => f.endLine + 1 = g.startLine := by
  induction fs generalizing start with
  | nil => exact .nil
  | cons f rest ih =>
    obtain ⟨-, -, hrest⟩ := h
    refine List.isChain_cons.2 ⟨?_, ih hrest⟩
    intro g hg
    cases rest with
    | nil => cases hg
    | cons g' rest =>
      obtain rfl : g' = g := Option.some.inj hg
      exact hrest.1.symm

theorem endLine_getLast? (h : Tiles start fs stop) (hf : fs.getLast? = some f) :
    f.endLine + 1 = stop := by
  induction fs generalizing start with
  | nil => cases hf
  | cons g rest ih =>
    obtain ⟨-, -, hrest⟩ := h
    cases rest with
    | nil =>
      obtain rfl : g = f := Option.some.inj hf
      exact hrest
    | cons g' rest => exact ih hrest hf

theorem exists_containsLine (h : Tiles start fs stop) {n : Nat} (hstart : start ≤ n)
    (hstop : n < stop) : ∃ f ∈ fs, f.containsLine n := by
  induction fs generalizing start with
  | nil =>
    have : start = stop := h
    omega
  | cons f rest ih =>
    obtain ⟨hf, -, hrest⟩ := h
    by_cases hn : n ≤ f.endLine
    · exact ⟨f, List.mem_cons_self, containsLine_iff.2 ⟨by omega, hn⟩⟩
    · obtain ⟨g, hg, hline⟩ := ih hrest (by omega)
      exact ⟨g, List.mem_cons_of_mem f hg, hline⟩

end Tiles

end Format

namespace Block

/-- The formats of some lines tile all that is not before the first header. -/
theorem tiles_cut (lines : List (Option Line)) (n : Nat) :
    Format.Tiles (n + (preamble (lines.zipIdx n)).length) ((cut (lines.zipIdx n)).map format)
      (n + lines.length) := by
  induction lines generalizing n with
  | nil => rfl
  | cons line rest ih =>
    have hrest := ih (n + 1)
    rw [Nat.add_right_comm n 1, Nat.add_right_comm n 1] at hrest
    rw [List.zipIdx_cons, List.length_cons, ← Nat.add_assoc]
    by_cases h : opensFormat line
    · obtain ⟨raw, rfl, hheader⟩ := opensFormat_iff.1 h
      rw [preamble_cons_of_isHeader hheader, cut_cons_of_isHeader hheader, List.map_cons]
      refine ⟨format_startLine _, ?_, ?_⟩
      · rw [format_startLine, format_endLine]
        exact start_le_endLine _
      · rw [format_endLine, endLine]
        exact hrest
    · rw [preamble_cons_of_not_opensFormat h, cut_cons_of_not_opensFormat h, List.length_cons,
        ← Nat.add_assoc]
      exact hrest

theorem map_start_cut (rows : List Row) :
    (cut rows).map start = (rows.filter fun row => opensFormat row.1).map Prod.snd := by
  induction rows with
  | nil => rfl
  | cons row rest ih =>
    obtain ⟨line, number⟩ := row
    by_cases h : opensFormat line
    · obtain ⟨raw, rfl, hheader⟩ := opensFormat_iff.1 h
      rw [cut_cons_of_isHeader hheader, List.filter_cons, if_pos h, List.map_cons, List.map_cons,
        ih]
    · rw [cut_cons_of_not_opensFormat h, List.filter_cons, if_neg h, ih]

theorem format_name (b : Block) : b.format.name = formatName (normalize b.header) :=
  (Format.sameHeading_foldl_readRow _ b.rows).1

end Block

/-- Two headers on adjoining lines, the second behind a marker and without a name, then a line that
cannot be read and a header that is a comment. -/
def Source.adjoining : Source where
  lines := [
    some "     A  BEFORE".toList,
    some "     A          R ONE TWO".toList,
    some "§|§  A          R".toList,
    none,
    some "     A*         R NONE".toList]

namespace Document

variable {s : Source} {f : Format} {n : Nat}

theorem tiles_formats (s : Source) :
    Format.Tiles (Block.preamble s.rows).length (ofSource s).formats s.lineCount := by
  have htiles := Block.tiles_cut s.lines 0
  rwa [Nat.zero_add, Nat.zero_add] at htiles

/-- Formats start at the headers, from the first to the last. -/
theorem map_startLine_formats (s : Source) :
    (ofSource s).formats.map Format.startLine =
      (List.range s.lineCount).filter fun i => opensFormat (s.line? i) := by
  have hstarts : (ofSource s).formats.map Format.startLine = (Block.cut s.rows).map Block.start := by
    simp [ofSource, Function.comp_def]
  have hrange : List.range s.lineCount = s.rows.map Prod.snd := by
    rw [Source.rows, List.zipIdx_map_snd, List.range_eq_range', Source.lineCount]
  rw [hstarts, Block.map_start_cut, hrange, List.filter_map]
  refine congrArg _ (List.filter_congr ?_)
  intro row hrow
  rw [Function.comp_apply, Source.line?, Source.mem_rows.1 hrow, Option.join_some]

theorem opensFormat_iff_exists_startLine :
    opensFormat (s.line? n) ↔ ∃ f ∈ (ofSource s).formats, f.startLine = n := by
  rw [← List.mem_map, map_startLine_formats, List.mem_filter, List.mem_range]
  constructor
  · intro h
    refine ⟨?_, h⟩
    obtain ⟨raw, hraw, -⟩ := opensFormat_iff.1 h
    exact Source.lt_lineCount_of_line? hraw
  · exact And.right

/-- A format has the first word after the header column as its name. -/
theorem isFirstWord_name (hf : f ∈ (ofSource s).formats) :
    ∃ raw, s.line? f.startLine = some raw ∧ IsFirstWord ((normalize raw).drop 17) f.name := by
  obtain ⟨b, hb, rfl, hrows⟩ := exists_block_of_mem hf
  have hfirst : (some b.header, b.start) ∈ s.rowsOf b.format := by
    rw [hrows]
    exact List.mem_cons_self
  have hraw := Source.line?_eq_some_iff.2 (Source.mem_rowsOf.1 hfirst).1
  have hheader : isHeader (normalize b.header) := by
    have hopens := opensFormat_iff_exists_startLine.2 ⟨b.format, hf, b.format_startLine⟩
    rwa [hraw] at hopens
  refine ⟨b.header, by rw [b.format_startLine, hraw], ?_⟩
  rw [b.format_name, formatName, if_pos hheader]
  exact isFirstWord_firstWord _

theorem eq_of_containsLine {g : Format} (hf : f ∈ (ofSource s).formats)
    (hg : g ∈ (ofSource s).formats) (hfn : f.containsLine n) (hgn : g.containsLine n) : f = g :=
  Option.some.inj ((formatAt?_eq_some hf hfn).symm.trans (formatAt?_eq_some hg hgn))

/-- A line belongs to the format of the last header at or before it. -/
theorem formatAt?_eq_some_iff_last :
    (ofSource s).formatAt? n = some f ↔ f ∈ (ofSource s).formats ∧ n < s.lineCount ∧
      f.startLine ≤ n ∧ ∀ i ≤ n, opensFormat (s.line? i) → i ≤ f.startLine := by
  have htiles := tiles_formats s
  rw [formatAt?_eq_some_iff]
  constructor
  · rintro ⟨hf, hn⟩
    have hbounds := htiles.bounds hf
    rw [Format.containsLine_iff] at hn
    refine ⟨hf, by omega, hn.1, ?_⟩
    intro i hi hopens
    obtain ⟨g, hg, rfl⟩ := opensFormat_iff_exists_startLine.1 hopens
    apply Nat.le_of_not_lt
    intro hlt
    -- then the later header would stand inside `f`
    have hgbounds := htiles.bounds hg
    obtain rfl : f = g := eq_of_containsLine hf hg (n := g.startLine)
      (Format.containsLine_iff.2 (by omega)) (Format.containsLine_iff.2 (by omega))
    exact Nat.lt_irrefl _ hlt
  · rintro ⟨hf, hn, hstart, hlast⟩
    have hbounds := htiles.bounds hf
    obtain ⟨g, hg, hgn⟩ := htiles.exists_containsLine (n := n) (by omega) hn
    have hgline := Format.containsLine_iff.1 hgn
    have hle := hlast g.startLine hgline.1 (opensFormat_iff_exists_startLine.2 ⟨g, hg, rfl⟩)
    obtain rfl : f = g := eq_of_containsLine hf hg (n := f.startLine)
      (Format.containsLine_iff.2 (by omega)) (Format.containsLine_iff.2 (by omega))
    exact ⟨hf, hgn⟩

theorem formatAt?_eq_none_iff :
    (ofSource s).formatAt? n = none ↔
      ¬ (n < s.lineCount ∧ ∃ i ≤ n, opensFormat (s.line? i)) := by
  constructor
  · rintro hnone ⟨hn, i, hi, hopens⟩
    obtain ⟨f, hf, rfl⟩ := opensFormat_iff_exists_startLine.1 hopens
    have hbounds := (tiles_formats s).bounds hf
    obtain ⟨g, hg, hgn⟩ := (tiles_formats s).exists_containsLine (n := n) (by omega) hn
    rw [formatAt?_eq_some hg hgn] at hnone
    cases hnone
  · intro hno
    rw [Option.eq_none_iff_forall_ne_some]
    intro f hf
    obtain ⟨hmem, hn, hstart, -⟩ := formatAt?_eq_some_iff_last.1 hf
    exact hno ⟨hn, f.startLine, hstart, opensFormat_iff_exists_startLine.2 ⟨f, hmem, rfl⟩⟩

/-- The formats start at the headers, bear the names given there, and follow one another without a
gap up to the last line; what is found at a line is the format of the last header up to it. -/
theorem formats_partition_lines (s : Source) :
    (ofSource s).formats.map Format.startLine =
      ((List.range s.lineCount).filter fun i => opensFormat (s.line? i)) ∧
    (∀ f ∈ (ofSource s).formats, f.startLine ≤ f.endLine ∧
      ∃ raw, s.line? f.startLine = some raw ∧ IsFirstWord ((normalize raw).drop 17) f.name) ∧
    (ofSource s).formats.IsChain (fun f g => f.endLine + 1 = g.startLine) ∧
    (∀ f, (ofSource s).formats.getLast? = some f → f.endLine + 1 = s.lineCount) ∧
    ∀ n, (∀ f, (ofSource s).formatAt? n = some f ↔ f ∈ (ofSource s).formats ∧ n < s.lineCount ∧
        f.startLine ≤ n ∧ ∀ i ≤ n, opensFormat (s.line? i) → i ≤ f.startLine) ∧
      ((ofSource s).formatAt? n = none ↔
        ¬ (n < s.lineCount ∧ ∃ i ≤ n, opensFormat (s.line? i))) := by
  have htiles := tiles_formats s
  refine ⟨map_startLine_formats s, ?_, htiles.isChain, fun f => htiles.endLine_getLast?, ?_⟩
  · intro f hf
    exact ⟨(htiles.bounds hf).2.1, isFirstWord_name hf⟩
  · intro n
    exact ⟨fun f => formatAt?_eq_some_iff_last, formatAt?_eq_none_iff⟩

theorem formats_partition_lines_adjoining :
    (ofSource .adjoining).formats.map Format.startLine = [1, 2] ∧
    (∃ f, (ofSource .adjoining).formatAt? 1 = some f ∧ f.name = "ONE".toList ∧ f.endLine = 1) ∧
    (∃ f, (ofSource .adjoining).formats.getLast? = some f ∧ f.name = [] ∧ f.endLine + 1 = 5 ∧
      (ofSource .adjoining).formatAt? 4 = some f) ∧
    (ofSource .adjoining).formatAt? 0 = none ∧ (ofSource .adjoining).formatAt? 5 = none := by
  obtain ⟨hstarts, -, -, hlast, hat⟩ := formats_partition_lines .adjoining
  obtain ⟨f, hf, hname, hend, hmem, hstart⟩ : ∃ f,
      (ofSource .adjoining).formats.getLast? = some f ∧ f.name = [] ∧ f.endLine = 4 ∧
        f ∈ (ofSource .adjoining).formats ∧ f.startLine = 2 := by decide +kernel
  refine ⟨hstarts.trans (by decide +kernel), by decide +kernel, ⟨f, hf, hname, hlast f hf, ?_⟩, ?_, ?_⟩
  · rw [(hat 4).1, hstart]
    exact ⟨hmem, by decide +kernel, by decide +kernel, by decide +kernel⟩
  · exact (hat 0).2.2 (by decide +kernel)
  · exact (hat 5).2.2 (by decide +kernel)

end Document

end DisplayFile
