import DisplayFile.Proofs.Partition
import DisplayFile.Proofs.Renumbering
import DisplayFile.Proofs.Resolution

/-!
# Sources put one after the other

If the second of two sources starts with a header, the formats of both together are those of the
first and then those of the second, the lines of these renumbered. Nothing that a format holds comes
from a line before it or after it, and so neither does anything that its aliases resolve to.
-/

namespace DisplayFile

theorem strictMono_add_right (n : Nat) : StrictMono (· + n) := fun _ _ h => Nat.add_lt_add_right h n

instance : Append Source where
  append s t := ⟨s.lines ++ t.lines⟩

namespace Source

variable {s t : Source}

theorem append_assoc (s t r : Source) : s ++ t ++ r = s ++ (t ++ r) :=
  congrArg Source.mk (List.append_assoc s.lines t.lines r.lines)

theorem append_of_lines_eq_nil (h : t.lines = []) : s ++ t = s := by
  change Source.mk (s.lines ++ t.lines) = s
  rw [h, List.append_nil]

theorem opensFormat_line?_append (h : opensFormat (s.line? 0)) :
    opensFormat ((s ++ t).line? 0) := by
  obtain ⟨raw, hraw, hheader⟩ := opensFormat_iff.1 h
  rw [line?_eq_some_iff, mem_rows] at hraw
  have hline : (s ++ t).line? 0 = some raw := by
    rw [line?_eq_some_iff, mem_rows]
    exact (List.getElem?_append_left (List.getElem?_eq_some_iff.1 hraw).1).trans hraw
  exact opensFormat_iff.2 ⟨raw, hline, hheader⟩

end Source

namespace Block

variable (n : Nat)

/-- The block `n` lines further down. -/
def shift (b : Block) : Block := { b with start := b.start + n }

theorem rows_shift (b : Block) : (b.shift n).rows = b.rows.map (Prod.map id (· + n)) := by
  rw [rows, rows, List.map_snd_add_zipIdx_eq_zipIdx, Nat.add_comm]
  rfl

theorem format_shift (b : Block) : (b.shift n).format = b.format.renumber (· + n) := by
  have hend : (b.shift n).endLine = b.endLine + n := Nat.add_right_comm b.start n b.body.length
  rw [format, rows_shift, hend, format, ← Format.foldl_readRow_renumber]
  rfl

/-- A row opens a block whatever its number is. -/
theorem cut_shift (rows : List Row) :
    preamble (rows.map (Prod.map id (· + n))) = preamble rows ∧
      cut (rows.map (Prod.map id (· + n))) = (cut rows).map (shift n) := by
  induction rows with
  | nil => exact ⟨rfl, rfl⟩
  | cons row rest ih =>
    obtain ⟨line, number⟩ := row
    rw [List.map_cons, Prod.map_apply, id_eq]
    by_cases h : opensFormat line
    · obtain ⟨raw, rfl, hheader⟩ := opensFormat_iff.1 h
      simp only [preamble_cons_of_isHeader hheader, cut_cons_of_isHeader hheader, ih, List.map_cons,
        shift, and_self]
    · simp only [preamble_cons_of_not_opensFormat h, cut_cons_of_not_opensFormat h, ih, and_self]

/-- Rows that start with a header leave the blocks before them as they are. -/
theorem cut_append {more : List Row} (hmore : preamble more = []) (rows : List Row) :
    preamble (rows ++ more) = preamble rows ∧ cut (rows ++ more) = cut rows ++ cut more := by
  induction rows with
  | nil => exact ⟨hmore, rfl⟩
  | cons row rest ih =>
    obtain ⟨line, number⟩ := row
    rw [List.cons_append]
    by_cases h : opensFormat line
    · obtain ⟨raw, rfl, hheader⟩ := opensFormat_iff.1 h
      simp only [preamble_cons_of_isHeader hheader, cut_cons_of_isHeader hheader, ih,
        List.cons_append, and_self]
    · simp only [preamble_cons_of_not_opensFormat h, cut_cons_of_not_opensFormat h, ih, and_self]

end Block

theorem Source.preamble_rows_eq_nil {s : Source} (h : opensFormat (s.line? 0)) :
    Block.preamble s.rows = [] := by
  obtain ⟨raw, hraw, hheader⟩ := opensFormat_iff.1 h
  rw [line?_eq_some_iff, mem_rows] at hraw
  obtain ⟨rest, hlines⟩ : ∃ rest, s.lines = some raw :: rest := by
    cases hs : s.lines with
    | nil => simp [hs] at hraw
    | cons line rest =>
      simp only [hs, List.getElem?_cons_zero, Option.some.injEq] at hraw
      exact ⟨rest, by rw [hraw]⟩
  rw [rows, hlines, List.zipIdx_cons]
  exact Block.preamble_cons_of_isHeader hheader

namespace Document

variable {s t : Source} (h : opensFormat (t.line? 0))
include h

theorem formats_append : (ofSource (s ++ t)).formats =
    (ofSource s).formats ++ (ofSource t).formats.map (Format.renumber (· + s.lineCount)) := by
  have hrows : (s ++ t).rows = s.rows ++ t.rows.map (Prod.map id (· + s.lineCount)) := by
    rw [Source.rows, Source.rows, Source.rows, List.map_snd_add_zipIdx_eq_zipIdx, Nat.add_comm]
    exact List.zipIdx_append
  obtain ⟨hpreamble, hcut⟩ := Block.cut_shift s.lineCount t.rows
  have happend := (Block.cut_append (hpreamble.trans (Source.preamble_rows_eq_nil h)) s.rows).2
  simp only [ofSource, hrows, happend, hcut, List.map_append, List.map_map]
  refine congrArg _ (List.map_congr_left ?_)
  intro b _
  exact b.format_shift s.lineCount

theorem formatAt?_append_left {line : Nat} (hline : line < s.lineCount) :
    (ofSource (s ++ t)).formatAt? line = (ofSource s).formatAt? line := by
  have hafter : ((ofSource t).formats.map (Format.renumber (· + s.lineCount))).find?
      (·.containsLine line) = none := by
    rw [List.find?_eq_none]
    intro f hf
    obtain ⟨g, -, rfl⟩ := List.mem_map.1 hf
    rw [Format.containsLine_iff]
    intro hspans
    exact Nat.not_le_of_lt hline (Nat.le_trans (Nat.le_add_left _ _) hspans.1)
  rw [formatAt?, formats_append h, List.find?_append, hafter, Option.or_none, formatAt?]

theorem formatAt?_append_right (line : Nat) :
    (ofSource (s ++ t)).formatAt? (line + s.lineCount) =
      ((ofSource t).formatAt? line).map (Format.renumber (· + s.lineCount)) := by
  have hbefore : (ofSource s).formats.find? (·.containsLine (line + s.lineCount)) = none := by
    rw [List.find?_eq_none]
    intro f hf
    have hbounds := (tiles_formats s).bounds hf
    rw [Format.containsLine_iff]
    omega
  rw [formatAt?, formats_append h, List.find?_append, hbefore, Option.none_or, List.find?_map,
    formatAt?]
  refine congrArg (Option.map _) (congrArg (List.find? · _) (funext fun f => ?_))
  exact f.containsLine_renumber (strictMono_add_right s.lineCount) line

/-- What is read after a source does not change what its positions lead to. -/
theorem resolve?_append_left {p : Position} (hp : p.line < s.lineCount) :
    (ofSource (s ++ t)).resolve? p = (ofSource s).resolve? p := by
  rw [resolve?, formatAt?_append_left h hp, resolve?]

/-- What is read before a source only renumbers what its positions lead to. -/
theorem resolve?_append_right (p : Position) :
    (ofSource (s ++ t)).resolve? (p.renumber (· + s.lineCount)) =
      ((ofSource t).resolve? p).map (Resolution.renumber (· + s.lineCount)) := by
  have hmono := strictMono_add_right s.lineCount
  rw [resolve?, resolve?, Position.renumber, formatAt?_append_right h]
  cases (ofSource t).formatAt? p.line with
  | none => rfl
  | some f =>
    rw [Option.map_some, Option.bind_some, Option.bind_some]
    have hat := f.occurrenceAt?_renumber hmono p
    rw [Position.renumber] at hat
    rw [hat]
    cases f.occurrenceAt? p with
    | none => rfl
    | some o => exact f.resolve?_renumber hmono o

omit h

/-- Sources join at a header as lists do, up to the numbers of the lines. Hence the lines of a
format alone decide what its positions lead to: what stands before them only renumbers the answer,
and what stands after them, from the next header on, does not touch it. -/
theorem formats_append_at_header (s t : Source) (h : opensFormat (t.line? 0)) :
    (ofSource (s ++ t)).formats =
      (ofSource s).formats ++ (ofSource t).formats.map (Format.renumber (· + s.lineCount)) ∧
    ∀ r : Source, r.lines = [] ∨ opensFormat (r.line? 0) → ∀ p, p.line < t.lineCount →
      (ofSource (s ++ t ++ r)).resolve? (p.renumber (· + s.lineCount)) =
        ((ofSource t).resolve? p).map (Resolution.renumber (· + s.lineCount)) := by
  refine ⟨formats_append h, ?_⟩
  intro r hr p hp
  rw [Source.append_assoc, resolve?_append_right (Source.opensFormat_line?_append h)]
  rcases hr with hempty | hopens
  · rw [Source.append_of_lines_eq_nil hempty]
  · rw [resolve?_append_left hopens hp]

theorem formats_append_at_header_crossed :
    opensFormat (Source.crossed.line? 0) ∧
    (ofSource (.adjoining ++ .crossed)).formats = (ofSource .adjoining).formats ++
      (ofSource .crossed).formats.map (Format.renumber (· + 5)) ∧
    (ofSource (.adjoining ++ .crossed ++ .crossed)).resolve? ⟨9, 17⟩ =
      some (.declaration (.onLine 7 8 9)) := by
  have hopens : opensFormat (Source.crossed.line? 0) := by decide +kernel
  obtain ⟨hformats, hresolve⟩ := formats_append_at_header .adjoining .crossed hopens
  refine ⟨hopens, hformats, (hresolve .crossed (.inr hopens) ⟨4, 17⟩ (by decide +kernel)).trans ?_⟩
  decide +kernel

end Document

end DisplayFile
