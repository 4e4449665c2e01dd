import DisplayFile.Proofs.History
import DisplayFile.Query

/-!
# Line ends

A line may end with a line feed or with a carriage return and a line feed. Cutting a text into its
lines undoes joining them, whichever end stands between which two of them, as long as no line has a
line feed in it or a carriage return at its end. A text can therefore be given other line ends
without any effect on what is read from it, and so on any answer of a query or of a session.
-/

namespace DisplayFile

inductive LineEnd where
  | feed
  | returnFeed
deriving DecidableEq

def LineEnd.text : LineEnd → List Char
  | feed => ['\n']
  | returnFeed => ['\r', '\n']

/-- The line can be told from its end: it has no line feed and does not end with a carriage
return. -/
def isCleanLine (line : Line) : Bool := '\n' ∉ line && line.getLast? ≠ some '\r'

theorem isCleanLine_iff {line : Line} :
    isCleanLine line ↔ '\n' ∉ line ∧ line.getLast? ≠ some '\r' := by
  simp [isCleanLine]

/-- The text of a first line and of further lines, each with the line end before it. -/
def joinLines (first : Line) (rest : List (LineEnd × Line)) : List Char :=
  first ++ rest.flatMap fun (lineEnd, line) => lineEnd.text ++ line

theorem joinLines_nil (first : Line) : joinLines first [] = first := List.append_nil first

theorem joinLines_cons (first line : Line) (lineEnd : LineEnd) (rest : List (LineEnd × Line)) :
    joinLines first ((lineEnd, line) :: rest) = first ++ (lineEnd.text ++ joinLines line rest) := by
  simp [joinLines]

section Cutting

variable {line text : List Char}

theorem splitLines_of_not_mem (h : '\n' ∉ line) : splitLines line = [line] := by
  induction line with
  | nil => rfl
  | cons c rest ih =>
    rw [List.mem_cons, not_or] at h
    rw [splitLines_cons (Ne.symm h.1), ih h.2]
    rfl

theorem splitLines_append_newline (h : '\n' ∉ line) (text : List Char) :
    splitLines (line ++ '\n' :: text) = line :: splitLines text := by
  induction line with
  | nil => rfl
  | cons c rest ih =>
    rw [List.mem_cons, not_or] at h
    rw [List.cons_append, splitLines_cons (Ne.symm h.1), ih h.2]
    rfl

theorem newline_not_mem_of_mem_splitLines (h : line ∈ splitLines text) : '\n' ∉ line := by
  induction text generalizing line with
  | nil =>
    obtain rfl : line = [] := List.mem_singleton.1 h
    exact List.not_mem_nil
  | cons c rest ih =>
    by_cases hc : c = '\n'
    · subst hc
      rcases List.mem_cons.1 h with rfl | hmem
      · exact List.not_mem_nil
      · exact ih hmem
    · rw [splitLines_cons hc] at h
      cases hrest : splitLines rest with
      | nil => simp [hrest] at h
      | cons first others =>
        rw [hrest, List.modifyHead_cons, List.mem_cons] at h
        rcases h with rfl | hmem
        · have hfirst : '\n' ∉ first := ih (hrest ▸ List.mem_cons_self)
          exact List.not_mem_cons_of_ne_of_not_mem (Ne.symm hc) hfirst
        · exact ih (hrest ▸ List.mem_cons_of_mem first hmem)

theorem dropReturn_sublist (line : Line) : (dropReturn line).Sublist line := by
  unfold dropReturn
  split
  · exact List.dropLast_sublist line
  · exact .refl line

theorem dropReturn_concat (line : Line) : dropReturn (line ++ ['\r']) = line := by
  simp [dropReturn]

theorem dropReturn_of_isCleanLine (h : isCleanLine line) : dropReturn line = line :=
  if_neg (isCleanLine_iff.1 h).2

/-- The first line of a text is the line before its first end, without that end. -/
theorem map_dropReturn_splitLines (h : isCleanLine line) (lineEnd : LineEnd) (text : List Char) :
    (splitLines (line ++ (lineEnd.text ++ text))).map dropReturn =
      line :: (splitLines text).map dropReturn := by
  have hline := (isCleanLine_iff.1 h).1
  cases lineEnd with
  | feed =>
    rw [LineEnd.text, List.singleton_append, splitLines_append_newline hline, List.map_cons,
      dropReturn_of_isCleanLine h]
  | returnFeed =>
    have hreturn : '\n' ∉ line ++ ['\r'] := by simpa using hline
    rw [LineEnd.text, List.cons_append, List.singleton_append, List.append_cons,
      splitLines_append_newline hreturn, List.map_cons, dropReturn_concat]

end Cutting

namespace Source

theorem ofText_joinLines {first : Line} {rest : List (LineEnd × Line)}
    (h : ∀ line ∈ first :: rest.map Prod.snd, isCleanLine line) :
    ofText (joinLines first rest) = ofLines (first :: rest.map Prod.snd) := by
  refine congrArg ofLines ?_
  induction rest generalizing first with
  | nil =>
    have hfirst := h first List.mem_cons_self
    rw [joinLines_nil, splitLines_of_not_mem (isCleanLine_iff.1 hfirst).1, List.map_singleton,
      dropReturn_of_isCleanLine hfirst, List.map_nil]
  | cons next rest ih =>
    obtain ⟨lineEnd, line⟩ := next
    have hrest := ih fun other hother => h other (List.mem_cons_of_mem first hother)
    rw [joinLines_cons, map_dropReturn_splitLines (h first List.mem_cons_self), hrest,
      List.map_cons]

/-- Every line of a text can be read, and there is no line feed in it. -/
theorem newline_not_mem_of_mem_ofText {text : List Char} {line : Option Line}
    (h : line ∈ (ofText text).lines) : ∃ raw, line = some raw ∧ '\n' ∉ raw := by
  obtain ⟨raw, hraw, rfl⟩ := List.mem_map.1 h
  obtain ⟨whole, hwhole, rfl⟩ := List.mem_map.1 hraw
  refine ⟨_, rfl, fun hmem => ?_⟩
  exact newline_not_mem_of_mem_splitLines hwhole ((dropReturn_sublist whole).subset hmem)

end Source

/-- Two texts have the same lines and differ at most in the ends between them. -/
def SameLines (text other : String) : Prop :=
  ∃ first rest rest', (∀ line ∈ first :: rest.map Prod.snd, isCleanLine line) ∧
    rest'.map Prod.snd = rest.map Prod.snd ∧
    text.toList = joinLines first rest ∧ other.toList = joinLines first rest'

theorem SameLines.ofText_eq {text other : String} (h : SameLines text other) :
    Source.ofText other.toList = Source.ofText text.toList := by
  obtain ⟨first, rest, rest', hclean, hsame, htext, hother⟩ := h
  rw [htext, hother, Source.ofText_joinLines hclean, Source.ofText_joinLines (hsame ▸ hclean),
    hsame]

namespace Event

/-- The event with `f text` for each text that the editor sends. -/
def mapTexts (f : String → String) : Event → Event
  | .opened uri text version => .opened uri (f text) version
  | .changed uri texts version => .changed uri (texts.map f) version
  | e => e

end Event

namespace Session

variable {analysis : Analysis} {f : String → String}

theorem step_mapTexts (hf : ∀ text, Source.ofText (f text).toList = Source.ofText text.toList)
    (s : Session) (e : Event) : s.step analysis (e.mapTexts f) = s.step analysis e := by
  have hstore (uri text : String) (version : Int) :
      s.store analysis uri (f text) version = s.store analysis uri text version := by
    simp only [store, OpenDocument.ofText, hf]
  cases e with
  | opened uri text version => exact hstore uri text version
  | changed uri texts version =>
    simp only [Event.mapTexts, step, List.getLast?_map]
    cases texts.getLast? with
    | none => rfl
    | some text => exact hstore uri text version
  | _ => rfl

/-- A session does not notice that texts are replaced by others with the same lines. -/
theorem after_mapTexts (hf : ∀ text, Source.ofText (f text).toList = Source.ofText text.toList)
    (events : List Event) :
    after analysis (events.map (Event.mapTexts f)) = after analysis events := by
  induction events using List.reverseRecOn with
  | nil => rfl
  | append_singleton events e ih =>
    rw [List.map_append, List.map_singleton, after_concat, ih, step_mapTexts hf, after_concat]

end Session

/-- The lines behind a header, one of them empty and one with a carriage return inside. -/
def linesWith (first second third : LineEnd) : List (LineEnd × Line) := [
  (first, "     A  P 1A ALIAS(Q)".toList),
  (second, []),
  (third, "     A  U\r1A DSPATR(&Q)".toList)]

/-- Cutting a text into lines undoes joining them, and no answer depends on the line ends: neither
the document nor what is asked of a file nor, in any history, the outcome of any event. A text has
one line more than it has line feeds, and all its lines can be read and have no line feed. -/
theorem Source.ofText_undoes_joinLines :
    (∀ first rest, (∀ line ∈ first :: rest.map Prod.snd, isCleanLine line) →
      ofText (joinLines first rest) = ofLines (first :: rest.map Prod.snd)) ∧
    (∀ text other, SameLines text other →
      Document.ofSource (ofText other.toList) = Document.ofSource (ofText text.toList) ∧
      ∀ path, (File.holding path other).indexText = (File.holding path text).indexText ∧
        ∀ p, (File.holding path other).definitionText p =
          (File.holding path text).definitionText p) ∧
    (∀ f : String → String, (∀ text, f text = text ∨ SameLines text (f text)) →
      ∀ (analysis : Analysis) (events : List Event) (e : Event),
        (Session.after analysis (events.map (Event.mapTexts f))).step analysis (e.mapTexts f) =
          (Session.after analysis events).step analysis e) ∧
    ∀ text, (ofText text).lineCount = 1 + text.count '\n' ∧
      ∀ line ∈ (ofText text).lines, ∃ raw, line = some raw ∧ '\n' ∉ raw := by
  refine ⟨fun first rest => ofText_joinLines, ?_, ?_, ?_⟩
  · intro text other hsame
    have hsource := hsame.ofText_eq
    refine ⟨congrArg Document.ofSource hsource, fun path => ⟨?_, fun p => ?_⟩⟩
    · simp only [File.indexText, File.index, File.source_holding, hsource]
    · simp only [File.definitionText, File.definition, File.source_holding, hsource]
  · intro f hf analysis events e
    have hsource (text : String) : ofText (f text).toList = ofText text.toList := by
      rcases hf text with hkept | hsame
      · rw [hkept]
      · exact hsame.ofText_eq
    rw [Session.after_mapTexts hsource, Session.step_mapTexts hsource]
  · intro text
    exact ⟨lineCount_ofText text, fun line => newline_not_mem_of_mem_ofText⟩

theorem Source.ofText_undoes_joinLines_mixed :
    let header := "     A          R F".toList
    let mixed := String.ofList (joinLines header (linesWith .returnFeed .feed .returnFeed))
    let feeds := String.ofList (joinLines header (linesWith .feed .feed .feed))
    let withFeeds := fun text => if text = mixed then feeds else text
    (∀ line ∈ header :: (linesWith .returnFeed .feed .returnFeed).map Prod.snd,
      isCleanLine line) ∧
    ofText mixed.toList = ofLines [header, "     A  P 1A ALIAS(Q)".toList, [],
      "     A  U\r1A DSPATR(&Q)".toList] ∧
    SameLines mixed feeds ∧
    (File.holding "screen.dspf" feeds).indexText = (File.holding "screen.dspf" mixed).indexText ∧
    (∀ text, withFeeds text = text ∨ SameLines text (withFeeds text)) ∧
    (Session.after .standard [.opened "screen" feeds 1]).step .standard
        (.definition "screen" ⟨3, 20⟩) =
      (Session.after .standard [.opened "screen" mixed 1]).step .standard
        (.definition "screen" ⟨3, 20⟩) ∧
    (ofText mixed.toList).lineCount = 1 + mixed.toList.count '\n' := by
  intro header mixed feeds withFeeds
  obtain ⟨hjoin, hqueries, hsessions, hcount⟩ := ofText_undoes_joinLines
  have hclean : ∀ line ∈ header :: (linesWith .returnFeed .feed .returnFeed).map Prod.snd,
      isCleanLine line := by decide +kernel
  have hsame : SameLines mixed feeds :=
    ⟨header, _, linesWith .feed .feed .feed, hclean, rfl, String.toList_ofList,
      String.toList_ofList⟩
  have hrewritten : ∀ text, withFeeds text = text ∨ SameLines text (withFeeds text) := by
    intro text
    by_cases htext : text = mixed
    · exact Or.inr (by rwa [htext, show withFeeds mixed = feeds from if_pos rfl])
    · exact Or.inl (if_neg htext)
  have hmixed := (congrArg ofText String.toList_ofList).trans (hjoin header _ hclean)
  have hsession := hsessions withFeeds hrewritten .standard [.opened "screen" mixed 1]
    (.definition "screen" ⟨3, 20⟩)
  have hopened : [Event.opened "screen" mixed 1].map (Event.mapTexts withFeeds) =
      [.opened "screen" feeds 1] := by
    rw [List.map_singleton, Event.mapTexts, show withFeeds mixed = feeds from if_pos rfl]
  rw [hopened] at hsession
  exact ⟨hclean, hmixed, hsame, ((hqueries mixed feeds hsame).2 "screen.dspf").1, hrewritten,
    hsession, (hcount mixed.toList).1⟩

end DisplayFile
