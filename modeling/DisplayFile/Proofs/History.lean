import DisplayFile.Proofs.Table
import DisplayFile.Session
import Mathlib.Data.List.DropRight
import Mathlib.Data.List.Induction

/-!
# What a session holds after a history

A history is the list of all events so far. What a document is after a history can be read off the
events that open, change or close it: it has the text last written since it was last closed. The
session holds just that, and it answers questions about the document from that alone, so no event
that concerns another document, the configuration or a question makes a difference.
-/

namespace DisplayFile

/-- A text that a document was given, with its version. -/
structure Revision where
  text : String
  version : Int
deriving DecidableEq

namespace Event

variable (uri : String)

def closes : Event → Bool
  | .closed other => other = uri
  | _ => false

/-- What an event writes into a document. A change without a text writes nothing. -/
def written? : Event → Option Revision
  | .opened other text version => if other = uri then some ⟨text, version⟩ else none
  | .changed other texts version =>
    if other = uri then texts.getLast?.map fun text => ⟨text, version⟩ else none
  | _ => none

/-- Whether an event opens, changes or closes the document. -/
def edits : Event → Bool
  | .opened other _ _ => other = uri
  | .changed other _ _ => other = uri
  | .closed other => other = uri
  | _ => false

/-- Whether an event is a question about the document. -/
def asks : Event → Bool
  | .definition other _ => other = uri
  | .references other _ _ => other = uri
  | .outline other => other = uri
  | _ => false

theorem asks_definition (point : Point) : (definition uri point).asks uri := decide_eq_true rfl

theorem asks_references (point : Point) (withDeclaration : Bool) :
    (references uri point withDeclaration).asks uri := decide_eq_true rfl

theorem asks_outline : (outline uri).asks uri := decide_eq_true rfl

def configures : Event → Bool
  | .configured _ => true
  | _ => false

variable {uri} {e : Event}

theorem closes_eq_false_of_not_edits (h : ¬ e.edits uri) : e.closes uri = false := by
  cases e <;> simp_all [edits, closes]

theorem written?_eq_none_of_not_edits (h : ¬ e.edits uri) : e.written? uri = none := by
  cases e <;> simp_all [edits, written?]

end Event

/-- What a document was last given since it was last closed. -/
def revision? (uri : String) (events : List Event) : Option Revision :=
  ((events.rtakeWhile fun e => !e.closes uri).filterMap (Event.written? uri)).getLast?

section Revision

variable {uri : String}

theorem revision?_concat (events : List Event) (e : Event) :
    revision? uri (events ++ [e]) =
      if e.closes uri then none else (e.written? uri).or (revision? uri events) := by
  unfold revision?
  by_cases hcloses : e.closes uri
  · rw [if_pos hcloses, List.rtakeWhile_concat_neg _ _ _ (by simpa using hcloses)]
    rfl
  · rw [if_neg hcloses, List.rtakeWhile_concat_pos _ _ _ (by simpa using hcloses),
      List.filterMap_append, List.getLast?_append]
    cases hwritten : e.written? uri with
    | none => rw [List.filterMap_cons_none hwritten, List.filterMap_nil, List.getLast?_nil]
    | some r => rw [List.filterMap_cons_some hwritten, List.filterMap_nil, List.getLast?_singleton]

/-- Events that do not edit the document can be left out of the history. -/
theorem revision?_filter_edits (keep : Event → Bool) (events : List Event) :
    revision? uri (events.filter fun e => e.edits uri || keep e) = revision? uri events := by
  induction events using List.reverseRecOn with
  | nil => rfl
  | append_singleton events e ih =>
    rw [List.filter_append, revision?_concat]
    by_cases hkept : e.edits uri || keep e
    · rw [List.filter_cons, if_pos hkept, List.filter_nil, revision?_concat, ih]
    · have hedits : ¬ e.edits uri := fun h => hkept (by simp [h])
      rw [List.filter_cons, if_neg hkept, List.filter_nil, List.append_nil, ih,
        e.closes_eq_false_of_not_edits hedits, e.written?_eq_none_of_not_edits hedits]
      rfl

end Revision

namespace Session

variable (analysis : Analysis) (s : Session)

theorem after_concat (events : List Event) (e : Event) :
    after analysis (events ++ [e]) = ((after analysis events).step analysis e).session := by
  rw [after, List.foldl_append]
  rfl

section Questions

variable {analysis s} {uri : String} {q : Event} (hq : q.asks uri)
include hq

/-- A question about a document is answered from what is stored for it, and all else stays. -/
theorem exists_step_eq_reply (stored : Option OpenDocument) :
    ∃ answer asked, ∀ s : Session, s.documents.get? uri = stored →
      s.step analysis q = s.reply answer asked := by
  cases q with
  | definition other point =>
    obtain rfl : other = uri := of_decide_eq_true hq
    cases stored <;> exact ⟨_, _, fun s hs => by rw [step, definition, hs]⟩
  | references other point withDeclaration =>
    obtain rfl : other = uri := of_decide_eq_true hq
    cases stored <;> exact ⟨_, _, fun s hs => by rw [step, references, hs]⟩
  | outline other =>
    obtain rfl : other = uri := of_decide_eq_true hq
    cases stored <;> exact ⟨_, _, fun s hs => by rw [step, outline, hs]⟩
  | _ => cases hq

theorem step_of_asks :
    (s.step analysis q).session = s ∧ (s.step analysis q).published = [] := by
  obtain ⟨answer, asked, hreply⟩ := exists_step_eq_reply hq (s.documents.get? uri)
  rw [hreply s rfl]
  exact ⟨rfl, rfl⟩

theorem answer_step_congr {s' : Session}
    (h : s.documents.get? uri = s'.documents.get? uri) :
    (s.step analysis q).answer = (s'.step analysis q).answer := by
  obtain ⟨answer, asked, hreply⟩ := exists_step_eq_reply hq (s'.documents.get? uri)
  rw [hreply s h, hreply s' rfl]
  rfl

end Questions

/-- What the outcome of an event can be: the documents stay and nothing is published, or one
document is written, or one is closed, or the configuration changes. -/
inductive StepsTo (e : Event) (o : Outcome) : Prop where
  | quiet (hcloses : ∀ uri, e.closes uri = false) (hwritten : ∀ uri, e.written? uri = none)
      (hconfigures : e.configures = false) (hdocuments : o.session.documents = s.documents)
      (hpublished : o.published = [])
  | writes (uri text : String) (version : Int) (hcloses : ∀ other, e.closes other = false)
      (hwritten : ∀ other, e.written? other = if other = uri then some ⟨text, version⟩ else none)
      (hconfigures : e.configures = false) (houtcome : o = s.store analysis uri text version)
  | closes (uri : String) (hevent : e = .closed uri)
      (hdocuments : o.session.documents = s.documents.erase uri)
      (hpublished : o.published = [⟨uri, [], none⟩])
  | configures (settings : Json) (hevent : e = .configured settings)
      (hsession : o.session = s.configure settings)
      (hpublished : o.published =
        (s.configure settings).documents.entries.map fun (uri, d) =>
          (s.configure settings).publication analysis uri d)

theorem stepsTo_step (e : Event) : s.StepsTo analysis e (s.step analysis e) := by
  cases e with
  | start options =>
    refine .quiet (fun _ => rfl) (fun _ => rfl) rfl ?_ rfl
    cases options <;> rfl
  | started => exact .quiet (fun _ => rfl) (fun _ => rfl) rfl rfl rfl
  | shutdown => exact .quiet (fun _ => rfl) (fun _ => rfl) rfl rfl rfl
  | opened uri text version =>
    refine .writes uri text version (fun _ => rfl) (fun other => ?_) rfl rfl
    simp only [Event.written?, eq_comm]
  | changed uri texts version =>
    simp only [step]
    cases hlast : texts.getLast? with
    | none =>
      refine .quiet (fun _ => rfl) (fun other => ?_) rfl rfl rfl
      simp [Event.written?, hlast]
    | some text =>
      refine .writes uri text version (fun _ => rfl) (fun other => ?_) rfl rfl
      simp [Event.written?, hlast, eq_comm]
  | closed uri => exact .closes uri rfl rfl rfl
  | configured settings => exact .configures settings rfl rfl rfl
  | definition uri point =>
    obtain ⟨hsession, hpublished⟩ := step_of_asks (Event.asks_definition uri point)
    exact .quiet (fun _ => rfl) (fun _ => rfl) rfl (congrArg documents hsession) hpublished
  | references uri point withDeclaration =>
    obtain ⟨hsession, hpublished⟩ := step_of_asks (Event.asks_references uri point withDeclaration)
    exact .quiet (fun _ => rfl) (fun _ => rfl) rfl (congrArg documents hsession) hpublished
  | outline uri =>
    obtain ⟨hsession, hpublished⟩ := step_of_asks (Event.asks_outline uri)
    exact .quiet (fun _ => rfl) (fun _ => rfl) rfl (congrArg documents hsession) hpublished

/-- What one event does to a document. -/
theorem get?_documents_step (e : Event) (uri : String) :
    (s.step analysis e).session.documents.get? uri =
      if e.closes uri then none
      else ((e.written? uri).map fun r => .ofText r.text r.version).or
        (s.documents.get? uri) := by
  cases s.stepsTo_step analysis e with
  | quiet hcloses hwritten _ hdocuments _ =>
    rw [hdocuments, hcloses, hwritten]
    rfl
  | writes other text version hcloses hwritten _ houtcome =>
    rw [houtcome, store, Table.get?_insert, hcloses, hwritten]
    by_cases h : uri = other <;> simp [h]
  | closes other hevent hdocuments _ =>
    rw [hdocuments, Table.get?_erase, hevent]
    by_cases h : uri = other
    · simp [Event.closes, h]
    · simp [Event.closes, Event.written?, h, Ne.symm h]
  | configures settings hevent hsession _ =>
    rw [hsession, hevent]
    rfl

/-- A session holds the documents as the history leaves them. -/
theorem get?_documents_after (events : List Event) (uri : String) :
    (after analysis events).documents.get? uri =
      (revision? uri events).map fun r => .ofText r.text r.version := by
  induction events using List.reverseRecOn with
  | nil => rfl
  | append_singleton events e ih =>
    rw [after_concat, get?_documents_step, ih, revision?_concat]
    by_cases hcloses : e.closes uri
    · rw [if_pos hcloses, if_pos hcloses]
      rfl
    · rw [if_neg hcloses, if_neg hcloses]
      cases e.written? uri <;> rfl

/-- A session holds a document exactly if it was written since it was last closed, with the text
and the version last written. Whatever else is left out of the history, the answers to all questions
about the document stay the same. -/
theorem documents_follow_edits (events : List Event) (uri : String) :
    (after analysis events).documents.get? uri =
      ((revision? uri events).map fun r =>
        ⟨.ofText r.text.toList, .ofSource (.ofText r.text.toList), r.version⟩) ∧
    ∀ keep : Event → Bool,
      let kept := events.filter fun e => e.edits uri || keep e
      (∀ point, ((after analysis events).step analysis (.definition uri point)).answer =
        ((after analysis kept).step analysis (.definition uri point)).answer) ∧
      (∀ point withDeclaration,
        ((after analysis events).step analysis (.references uri point withDeclaration)).answer =
          ((after analysis kept).step analysis
            (.references uri point withDeclaration)).answer) ∧
      ((after analysis events).step analysis (.outline uri)).answer =
        ((after analysis kept).step analysis (.outline uri)).answer := by
  refine ⟨get?_documents_after analysis events uri, ?_⟩
  intro keep kept
  have hsame : (after analysis events).documents.get? uri =
      (after analysis kept).documents.get? uri := by
    rw [get?_documents_after, get?_documents_after, revision?_filter_edits]
  refine ⟨?_, ?_, ?_⟩
  · intro point
    exact answer_step_congr (Event.asks_definition uri point) hsame
  · intro point withDeclaration
    exact answer_step_congr (Event.asks_references uri point withDeclaration) hsame
  · exact answer_step_congr (Event.asks_outline uri) hsame

def usedOnce : String := "     A          R F\n     A  P 1A ALIAS(Q)\n     A  U DSPATR(&P)"

/-- One document closed and written anew, among events about another one, a configuration and
questions. -/
def interruptedEdits : List Event := [
  .start none,
  .opened "other" usedOnce 7,
  .opened "one" "" 1,
  .definition "other" ⟨2, 18⟩,
  .closed "one",
  .closed "other",
  .changed "one" ["", usedOnce] 4,
  .configured .null,
  .changed "one" [] 5,
  .outline "one"]

/-- The last change has no text and writes nothing, so version 4 stays. -/
theorem documents_follow_edits_interruptedEdits :
    let kept : List Event := [
      .opened "one" "" 1, .closed "one", .changed "one" ["", usedOnce] 4, .changed "one" [] 5]
    let answerAfter (events : List Event) (e : Event) :=
      ((after .standard events).step .standard e).answer
    interruptedEdits.filter (fun e => e.edits "one") = kept ∧
    (after .standard interruptedEdits).documents.get? "one" =
      some ⟨.ofText usedOnce.toList, .ofSource (.ofText usedOnce.toList), 4⟩ ∧
    (after .standard interruptedEdits).documents.get? "other" = none ∧
    answerAfter interruptedEdits (.definition "one" ⟨2, 18⟩) =
      answerAfter kept (.definition "one" ⟨2, 18⟩) ∧
    answerAfter interruptedEdits (.definition "one" ⟨2, 18⟩) =
      .location ⟨"one", ⟨⟨1, 8⟩, ⟨1, 9⟩⟩⟩ := by
  intro kept answerAfter
  obtain ⟨hstored, hanswers⟩ := documents_follow_edits .standard interruptedEdits "one"
  obtain ⟨hdefinition, -, -⟩ := hanswers fun _ => false
  exact ⟨rfl, hstored, rfl, hdefinition ⟨2, 18⟩, rfl⟩

end Session

end DisplayFile
