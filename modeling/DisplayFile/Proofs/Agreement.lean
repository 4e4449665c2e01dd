import DisplayFile.Proofs.Bounds
import DisplayFile.Proofs.History
import DisplayFile.Proofs.Partition
import DisplayFile.Query

/-!
# Queries on files and sessions agree

Where a position leads can be asked of a file and, in words of 32 bits, of a session. If the file
holds the text that the document has in the session, the two give the same answer, as long as lines
and columns fit into words. The session has no failure of its own: where the query fails because the
line is not in the text, the session answers nothing.
-/

namespace DisplayFile

def Extent.span (e : Extent) : Span := ⟨e.start.position, e.stop.position⟩

/-- The locations in an answer to the question where a position leads. -/
def Answer.targets : Answer → List Location
  | location l => [l]
  | locations ls => ls
  | _ => []

section Words

variable {s : Source} {span : Span}

/-- A span on a line of a source comes through unchanged if lines and columns fit into words. -/
theorem Span.LiesIn.extent_span (h : span.LiesIn s) (hlines : s.lineCount < UInt32.size)
    (hwidths : ∀ n raw, s.line? n = some raw → raw.length < UInt32.size) :
    span.extent.span = span := by
  obtain ⟨line, raw, start, stop, hline, rfl, hlt, hle⟩ := h
  have hwidth := hwidths line raw hline
  have hcount := Source.lt_lineCount_of_line? hline
  have hstart : (Position.mk line start).point.position = ⟨line, start⟩ :=
    Position.position_point (hcount.trans hlines) ((hlt.trans_le hle).trans hwidth)
  have hstop : (Position.mk line stop).point.position = ⟨line, stop⟩ :=
    Position.position_point (hcount.trans hlines) (hle.trans_lt hwidth)
  rw [Extent.span, Span.extent, Span.onLine, hstart, hstop]

theorem Source.mem_splitLines_of_line?_ofText {text : List Char} {n : Nat} {raw : Line}
    (h : (Source.ofText text).line? n = some raw) :
    ∃ line ∈ splitLines text, dropReturn line = raw := by
  rw [line?_eq_some_iff, mem_rows] at h
  simpa [ofText, ofLines] using List.mem_of_getElem? h

end Words

namespace Resolution

/-- The answer of a session to where a position of a document leads. -/
def answer (uri : String) : Option Resolution → Answer
  | none => .nothing
  | some (.declaration span) => .location ⟨uri, span.extent⟩
  | some (.usages spans) => .locations (spans.map fun span => ⟨uri, span.extent⟩)

variable {uri : String} {o : Option Resolution}

theorem answer_eq_nothing_iff :
    answer uri o = .nothing ↔ o.map kind = none ∧ (o.map spans).getD [] = [] := by
  rcases o with _ | _ | _ <;> simp [answer]

theorem exists_answer_eq_location_iff :
    (∃ l, answer uri o = .location l) ↔ o.map kind = some "declaration" := by
  rcases o with _ | _ | _ <;> simp [answer, kind]

theorem exists_answer_eq_locations_iff (hne : ∀ ts, o = some (.usages ts) → ts ≠ []) :
    (∃ ls, ls ≠ [] ∧ answer uri o = .locations ls) ↔ o.map kind = some "usages" := by
  rcases o with _ | span | ts
  · simp [answer]
  · simp [answer, kind]
  · simpa [answer, kind] using hne ts rfl

theorem targets_answer (hfits : ∀ r, o = some r → ∀ span ∈ r.spans, span.extent.span = span) :
    (answer uri o).targets.map (fun l => (l.uri, l.extent.span)) =
      ((o.map spans).getD []).map fun t => (uri, t) := by
  rcases o with _ | span | ts
  · rfl
  · have hspan := hfits _ rfl span (List.mem_singleton_self span)
    simp [answer, Answer.targets, spans, hspan]
  · have hspans := hfits _ rfl
    simpa [answer, Answer.targets, spans] using hspans

end Resolution

namespace Document

variable {s : Source} {p : Position}

theorem usages_ne_nil_of_resolve? {ts : List Span}
    (h : (ofSource s).resolve? p = some (.usages ts)) : ts ≠ [] := by
  rcases resolve?_cases h with ⟨f, -, d, -, hne, hr⟩ | ⟨f, -, d, -, hr⟩
  · rw [Resolution.usages.injEq] at hr
    rw [hr]
    simpa using hne
  · cases hr

theorem resolve?_eq_none_of_lineCount_le (h : s.lineCount ≤ p.line) :
    (ofSource s).resolve? p = none := by
  have hnone : (ofSource s).formatAt? p.line = none :=
    formatAt?_eq_none_iff.2 fun hin => Nat.not_lt.2 h hin.1
  rw [resolve?, hnone, Option.bind_none]

end Document

theorem File.definition_holding (path text : String) (p : Position) :
    (File.holding path text).definition p =
      if p.line < 1 + text.toList.count '\n' then
        .ok ⟨p, (Document.ofSource (.ofText text.toList)).resolve? p⟩
      else .error (.outsideDocument p.line (1 + text.toList.count '\n')) := by
  rw [definition, source_holding, ← Source.lineCount_ofText]
  rfl

/-- A report is printed with the position asked about, the kind of what was found, if anything was,
and the places that it leads to. -/
theorem DefinitionReport.toJson_eq (p : Position) (o : Option Resolution) :
    let position (p : Position) : Json :=
      .object [("line", .whole p.line), ("column", .whole p.column)]
    (DefinitionReport.mk p o).toJson = .object [
      ("position", position p),
      ("kind", (o.map Resolution.kind).elim .null .string),
      ("targets", .array (((o.map Resolution.spans).getD []).map fun t =>
        .object [("start", position t.start), ("end", position t.stop)]))] := by
  cases o <;> rfl

namespace Session

theorem answer_definition {analysis : Analysis} {s : Session} {uri : String} {d : OpenDocument}
    (h : s.documents.get? uri = some d) (p : Position) :
    (s.definition analysis uri p).answer =
      Resolution.answer uri (analysis.resolve? d.document p) := by
  simp only [definition, h, reply]
  rcases analysis.resolve? d.document p with _ | _ | _ <;> rfl

theorem answer_definition_after {uri text : String} {version : Int} {events : List Event}
    (h : revision? uri events = some ⟨text, version⟩) (point : Point) :
    ((after .standard events).step .standard (.definition uri point)).answer =
      Resolution.answer uri
        ((Document.ofSource (.ofText text.toList)).resolve? point.position) := by
  have hget : (after .standard events).documents.get? uri = some (.ofText text version) := by
    rw [get?_documents_after, h]
    rfl
  rw [step, answer_definition hget, OpenDocument.ofText, Analysis.standard]

/-- A query on a file that holds the current text of a document fails exactly if the line is past
the end, where a session answers nothing. Else the report and the answer of the session are of the
same kind and lead to the same places in the same order, with no coordinate cut down. -/
theorem definition_agrees_with_file (path uri text : String) (version : Int)
    (events : List Event) (point : Point) (hlines : 1 + text.toList.count '\n' < 2 ^ 32)
    (hwidths : ∀ line ∈ splitLines text.toList, (dropReturn line).length < 2 ^ 32)
    (hcurrent : revision? uri events = some ⟨text, version⟩) :
    let p := point.position
    let file := File.holding path text
    let lineCount := 1 + text.toList.count '\n'
    let answer := ((after .standard events).step .standard (.definition uri point)).answer
    let position (p : Position) : Json :=
      .object [("line", .whole p.line), ("column", .whole p.column)]
    (file.definitionText p = .error (.outsideDocument p.line lineCount) ↔ lineCount ≤ p.line) ∧
    (lineCount ≤ p.line → answer = .nothing) ∧
    (p.line < lineCount → ∃ report kind targets,
      file.definition p = .ok report ∧ file.definitionText p = .ok report.toJson.pretty ∧
      report.toJson = .object [
        ("position", position p),
        ("kind", kind.elim .null .string),
        ("targets", .array (targets.map fun t =>
          .object [("start", position t.start), ("end", position t.stop)]))] ∧
      (answer = .nothing ↔ kind = none ∧ targets = []) ∧
      ((∃ l, answer = .location l) ↔ kind = some "declaration") ∧
      ((∃ ls, ls ≠ [] ∧ answer = .locations ls) ↔ kind = some "usages") ∧
      answer.targets.map (fun l => (l.uri, l.extent.span)) = targets.map fun t => (uri, t)) := by
  intro p file lineCount answer position
  let resolution := (Document.ofSource (.ofText text.toList)).resolve? p
  have hanswer : answer = Resolution.answer uri resolution := answer_definition_after hcurrent point
  have hcount : (Source.ofText text.toList).lineCount = lineCount := Source.lineCount_ofText _
  have hdefinition := File.definition_holding path text p
  refine ⟨?_, ?_, ?_⟩
  · rw [File.definitionText, hdefinition]
    by_cases hin : p.line < lineCount
    · rw [if_pos hin]
      exact iff_of_false (by simp [Except.map]) (Nat.not_le.2 hin)
    · rw [if_neg hin]
      exact iff_of_true rfl (Nat.not_lt.1 hin)
  · intro hout
    rw [hanswer]
    dsimp only [resolution]
    rw [Document.resolve?_eq_none_of_lineCount_le (hcount.trans_le hout)]
    rfl
  · intro hin
    rw [if_pos hin] at hdefinition
    have hfits : ∀ r, resolution = some r → ∀ span ∈ r.spans, span.extent.span = span := by
      intro r hr span hspan
      refine (Document.liesIn_of_resolve? hr span hspan).extent_span (hcount.trans_lt hlines) ?_
      intro n raw hraw
      obtain ⟨line, hline, rfl⟩ := Source.mem_splitLines_of_line?_ofText hraw
      exact hwidths line hline
    refine ⟨⟨p, resolution⟩, _, _, hdefinition, ?_, DefinitionReport.toJson_eq p resolution, ?_⟩
    · rw [File.definitionText, hdefinition]
      rfl
    · rw [hanswer]
      exact ⟨Resolution.answer_eq_nothing_iff, Resolution.exists_answer_eq_location_iff,
        Resolution.exists_answer_eq_locations_iff fun ts => Document.usages_ne_nil_of_resolve?,
        Resolution.targets_answer hfits⟩

/-- A text with both kinds of line ends, in which a declaration has two usages. -/
def usedTwice : String :=
  "     A          R F\r\n     A  P 1A ALIAS(Q)\n     A  U DSPATR(&Q)DSPATR(&P)"

theorem definition_agrees_with_file_usedTwice :
    let events := [.opened "screen" "" 1, .changed "screen" ["", usedTwice] 2, .closed "other"]
    let file := File.holding "screen.dspf" usedTwice
    let answer (line character : UInt32) :=
      ((after .standard events).step .standard (.definition "screen" ⟨line, character⟩)).answer
    let position (line column : Nat) : Json :=
      .object [("line", .whole line), ("column", .whole column)]
    revision? "screen" events = some ⟨usedTwice, 2⟩ ∧
    file.definitionText ⟨3, 0⟩ = .error (.outsideDocument 3 3) ∧ answer 3 0 = .nothing ∧
    (file.definitionText ⟨1, 8⟩ = .ok (Json.object [
        ("position", position 1 8),
        ("kind", .string "usages"),
        ("targets", .array [
          .object [("start", position 2 17), ("end", position 2 19)],
          .object [("start", position 2 27), ("end", position 2 29)]])]).pretty ∧
      (answer 1 8).targets.map (fun l => (l.uri, l.extent.span)) =
        [("screen", .onLine 2 17 19), ("screen", .onLine 2 27 29)]) ∧
    file.definitionText ⟨2, 28⟩ = .ok ("\n".intercalate [
      "\x7b",
      "  \"position\": \x7b",
      "    \"line\": 2,",
      "    \"column\": 28",
      "  \x7d,",
      "  \"kind\": \"declaration\",",
      "  \"targets\": [",
      "    \x7b",
      "      \"start\": \x7b",
      "        \"line\": 1,",
      "        \"column\": 8",
      "      \x7d,",
      "      \"end\": \x7b",
      "        \"line\": 1,",
      "        \"column\": 9",
      "      \x7d",
      "    \x7d",
      "  ]",
      "\x7d"]) := by
  intro events file answer position
  have hcurrent : revision? "screen" events = some ⟨usedTwice, 2⟩ := rfl
  obtain ⟨hcount, hwidths, hresolve, hresolve'⟩ : 1 + usedTwice.toList.count '\n' = 3 ∧
      (∀ line ∈ splitLines usedTwice.toList, (dropReturn line).length < 2 ^ 32) ∧
      (Document.ofSource (.ofText usedTwice.toList)).resolve? ⟨1, 8⟩ =
        some (.usages [.onLine 2 17 19, .onLine 2 27 29]) ∧
      (Document.ofSource (.ofText usedTwice.toList)).resolve? ⟨2, 28⟩ =
        some (.declaration (.onLine 1 8 9)) := by decide +kernel
  have hlines : 1 + usedTwice.toList.count '\n' < 2 ^ 32 := by omega
  have hagrees (point : Point) := definition_agrees_with_file "screen.dspf" "screen" usedTwice 2
    events point hlines hwidths hcurrent
  rw [hcount] at hagrees
  have hanswer := (answer_definition_after hcurrent ⟨1, 8⟩).trans
    (congrArg (Resolution.answer "screen") hresolve)
  have hanswer' := (answer_definition_after hcurrent ⟨2, 28⟩).trans
    (congrArg (Resolution.answer "screen") hresolve')
  have hinjective : Function.Injective (List.map fun t : Span => ("screen", t)) :=
    List.map_injective_iff.2 (Prod.mk_right_injective "screen")
  have htwo : (answer 1 8).targets.map (fun l => (l.uri, l.extent.span)) =
      [("screen", .onLine 2 17 19), ("screen", .onLine 2 27 29)] :=
    congrArg (fun a => a.targets.map fun l => (l.uri, l.extent.span)) hanswer
  have hone : (answer 2 28).targets.map (fun l => (l.uri, l.extent.span)) =
      [("screen", .onLine 1 8 9)] :=
    congrArg (fun a => a.targets.map fun l => (l.uri, l.extent.span)) hanswer'
  obtain ⟨hfails, hnothing, -⟩ := hagrees ⟨3, 0⟩
  obtain ⟨-, -, hfound⟩ := hagrees ⟨1, 8⟩
  obtain ⟨-, -, hfound'⟩ := hagrees ⟨2, 28⟩
  refine ⟨hcurrent, hfails.2 (by decide), hnothing (by decide), ⟨?_, htwo⟩, ?_⟩
  · obtain ⟨report, kind, targets, -, htext, hjson, -, -, husages, hsame⟩ := hfound (by decide)
    have hkind := husages.1 ⟨_, List.cons_ne_nil _ _, hanswer⟩
    obtain rfl : targets = [.onLine 2 17 19, .onLine 2 27 29] :=
      hinjective (hsame.symm.trans htwo)
    rw [hjson, hkind] at htext
    exact htext
  · obtain ⟨report, kind, targets, -, htext, hjson, -, hdeclaration, -, hsame⟩ :=
      hfound' (by decide)
    have hkind := hdeclaration.1 ⟨_, hanswer'⟩
    obtain rfl : targets = [.onLine 1 8 9] := hinjective (hsame.symm.trans hone)
    rw [hjson, hkind] at htext
    exact htext.trans (congrArg Except.ok (by decide +kernel))

end Session

end DisplayFile
