import DisplayFile.Proofs.History
import Mathlib.Data.List.Nodup

/-!
# What has been published

The editor shows for each document what was last published for it. `lastFor?` is that publication.
After every event it is up to date: for an open document its warnings, if they are wanted at that
time, with its version, and for any other document no warnings and no version. The one exception
would be a session that is started again while documents are open.
-/

namespace DisplayFile

namespace Event

def starts : Event → Bool
  | .start _ => true
  | _ => false

def opensOrChanges : Event → Bool
  | .opened _ _ _ => true
  | .changed _ _ _ => true
  | _ => false

/-- The settings that come with an event. -/
def settings? : Event → Option Json
  | .start options => options
  | .configured settings => some settings
  | _ => none

theorem opensOrChanges_of_written? {e : Event} {uri : String} {r : Revision}
    (h : e.written? uri = some r) : e.opensOrChanges := by
  cases e with
  | opened _ _ _ => rfl
  | changed _ _ _ => rfl
  | _ => cases h

end Event

/-- Every start comes before the first document is opened or changed. -/
def StartsFirst (events : List Event) : Prop :=
  events.Pairwise fun e later => e.opensOrChanges → ¬ later.starts

/-- Whether the settings of a history ask for warnings: what the last of them says that says yes or
no. -/
def warningsWanted (events : List Event) : Bool :=
  ((events.filterMap Event.settings?).filterMap Configuration.setting?).getLast?.getD false

/-- What was last published for a document. -/
def lastFor? (uri : String) (log : List Publication) : Option Publication :=
  (log.filter fun p => p.uri = uri).getLast?

section Log

variable {uri : String}

theorem lastFor?_singleton (p : Publication) :
    lastFor? uri [p] = if p.uri = uri then some p else none := by
  by_cases h : p.uri = uri <;> simp [lastFor?, h]

theorem lastFor?_append (log more : List Publication) :
    lastFor? uri (log ++ more) = (lastFor? uri more).or (lastFor? uri log) := by
  rw [lastFor?, List.filter_append, List.getLast?_append]
  rfl

/-- If each key of a table has one publication for it, that is its last. -/
theorem lastFor?_map_entries {α : Type} {t : Table String α} (ht : t.keys.Nodup)
    (g : String → α → Publication) (hg : ∀ key a, (g key a).uri = key) :
    lastFor? uri (t.entries.map fun (key, a) => g key a) = (t.get? uri).map (g uri) := by
  obtain ⟨entries⟩ := t
  induction entries with
  | nil => rfl
  | cons e rest ih =>
    obtain ⟨key, a⟩ := e
    obtain ⟨hkey, hrest⟩ := List.nodup_cons.1 ht
    have ih := ih hrest
    simp only [Table.get?] at ih ⊢
    rw [List.map_cons, ← List.singleton_append, lastFor?_append, ih, lastFor?_singleton, hg,
      Table.lookup_cons_ite]
    by_cases h : key = uri
    · subst h
      have hnone : rest.lookup key = none := by
        rw [List.lookup_eq_none_iff]
        intro e he
        rw [bne_iff_ne]
        exact fun hsame => hkey (List.mem_map.2 ⟨e, he, hsame.symm⟩)
      simp [hnone]
    · simp [h, Ne.symm h]

theorem revision?_eq_none_of_forall_not_opensOrChanges {events : List Event}
    (h : ∀ e ∈ events, ¬ e.opensOrChanges) : revision? uri events = none := by
  rw [Option.eq_none_iff_forall_ne_some]
  intro r hr
  obtain ⟨e, he, hwritten⟩ := List.mem_filterMap.1 (List.mem_of_getLast? hr)
  exact h e ((List.rtakeWhile_suffix _ _).subset he) (Event.opensOrChanges_of_written? hwritten)

end Log

namespace Session

variable (analysis : Analysis) (s : Session)

/-- All that a session publishes in the course of some events, from first to last. -/
def publishedFrom : Session → List Event → List Publication
  | _, [] => []
  | s, e :: rest =>
    (s.step analysis e).published ++ publishedFrom (s.step analysis e).session rest

def published (events : List Event) : List Publication := publishedFrom analysis initial events

theorem publishedFrom_concat (events : List Event) (e : Event) :
    publishedFrom analysis s (events ++ [e]) = publishedFrom analysis s events ++
      ((events.foldl (fun s e => (s.step analysis e).session) s).step analysis e).published := by
  induction events generalizing s with
  | nil => simp [publishedFrom]
  | cons first rest ih =>
    rw [List.cons_append, publishedFrom, publishedFrom, ih, List.append_assoc]
    rfl

theorem published_concat (events : List Event) (e : Event) :
    published analysis (events ++ [e]) =
      published analysis events ++ ((after analysis events).step analysis e).published :=
  publishedFrom_concat analysis initial events e

/-! ### One step -/

section Step

variable (e : Event)

theorem configuration_step : (s.step analysis e).session.configuration =
    e.settings?.elim s.configuration s.configuration.apply := by
  cases e with
  | start options => cases options <;> rfl
  | changed uri texts version =>
    simp only [step, Event.settings?]
    cases texts.getLast? <;> rfl
  | definition uri point =>
    exact congrArg configuration (step_of_asks (Event.asks_definition uri point)).1
  | references uri point withDeclaration =>
    exact congrArg configuration (step_of_asks (Event.asks_references uri point withDeclaration)).1
  | outline uri => exact congrArg configuration (step_of_asks (Event.asks_outline uri)).1
  | _ => rfl

theorem configuration_step_of_not (hstarts : ¬ e.starts) (hconfigures : ¬ e.configures) :
    (s.step analysis e).session.configuration = s.configuration := by
  rw [configuration_step]
  cases e with
  | start options => exact absurd rfl hstarts
  | configured settings => exact absurd rfl hconfigures
  | _ => rfl

variable {s} (hs : s.documents.keys.Nodup)
include hs

theorem nodup_keys_step : (s.step analysis e).session.documents.keys.Nodup := by
  cases s.stepsTo_step analysis e with
  | quiet _ _ _ hdocuments _ => rwa [hdocuments]
  | writes uri text version _ _ _ houtcome =>
    rw [houtcome]
    exact Table.nodup_keys_alter hs uri _
  | closes uri _ hdocuments _ =>
    rw [hdocuments]
    exact Table.nodup_keys_erase hs uri
  | configures settings _ hsession _ => rwa [hsession]

/-- No event has two publications for one document. -/
theorem nodup_uri_published_step :
    ((s.step analysis e).published.map Publication.uri).Nodup := by
  cases s.stepsTo_step analysis e with
  | quiet _ _ _ _ hpublished =>
    rw [hpublished]
    exact List.nodup_nil
  | writes uri text version _ _ _ houtcome =>
    rw [houtcome]
    exact List.nodup_singleton uri
  | closes uri _ _ hpublished =>
    rw [hpublished]
    exact List.nodup_singleton uri
  | configures settings _ _ hpublished =>
    rw [hpublished, List.map_map]
    exact hs

/-- What one event publishes for a document: an empty list if it closes the document, and its
current diagnostics if it writes the document or changes the configuration. -/
theorem lastFor?_step (uri : String) :
    let next := (s.step analysis e).session
    lastFor? uri (s.step analysis e).published =
      if e.closes uri then some ⟨uri, [], none⟩
      else if (e.written? uri).isSome ∨ e.configures then
        (next.documents.get? uri).map (next.publication analysis uri)
      else none := by
  dsimp only
  cases s.stepsTo_step analysis e with
  | quiet hcloses hwritten hconfigures _ hpublished =>
    rw [hpublished, hcloses, hwritten, hconfigures]
    rfl
  | writes other text version hcloses hwritten hconfigures houtcome =>
    rw [houtcome, hcloses, hwritten, hconfigures]
    simp only [store, lastFor?_singleton, Table.get?_insert]
    by_cases h : uri = other
    · simp [h, publication]
    · simp [h, Ne.symm h, publication]
  | closes other hevent _ hpublished =>
    rw [hpublished, lastFor?_singleton, hevent]
    by_cases h : other = uri <;> simp [Event.closes, Event.written?, Event.configures, h]
  | configures settings hevent hsession hpublished =>
    rw [hpublished, hsession, hevent]
    exact lastFor?_map_entries hs _ fun _ _ => rfl

end Step

/-! ### Whole histories -/

/-- What was last published for each document is up to date. -/
structure UpToDate (log : List Publication) : Prop where
  nodup_keys : s.documents.keys.Nodup
  stored : ∀ uri d, s.documents.get? uri = some d →
    lastFor? uri log = some (s.publication analysis uri d)
  absent : ∀ uri, s.documents.get? uri = none →
    ∀ p, lastFor? uri log = some p → p = ⟨uri, [], none⟩

variable {analysis} {s}

theorem UpToDate.step {log : List Publication} (h : s.UpToDate analysis log) (e : Event)
    (hstart : e.starts → ∀ uri, s.documents.get? uri = none) :
    (s.step analysis e).session.UpToDate analysis (log ++ (s.step analysis e).published) where
  nodup_keys := nodup_keys_step analysis e h.nodup_keys
  stored uri d hd := by
    have hget := s.get?_documents_step analysis e uri
    rw [lastFor?_append, lastFor?_step analysis e h.nodup_keys]
    by_cases hcloses : e.closes uri
    · rw [if_pos hcloses, hd] at hget
      cases hget
    rw [if_neg hcloses]
    by_cases hpublishes : (e.written? uri).isSome ∨ e.configures
    · rw [if_pos hpublishes, hd]
      rfl
    -- nothing is published now, so the document and the configuration must be what they were
    rw [if_neg hpublishes, Option.none_or]
    rw [not_or, Option.not_isSome_iff_eq_none] at hpublishes
    rw [hd, if_neg hcloses, hpublishes.1, Option.map_none, Option.none_or] at hget
    have hstarts : ¬ e.starts := by
      intro hstarts
      rw [hstart hstarts uri] at hget
      cases hget
    rw [h.stored uri d hget.symm, publication, publication,
      configuration_step_of_not analysis s e hstarts hpublishes.2]
  absent uri hnone p hp := by
    have hget := s.get?_documents_step analysis e uri
    rw [lastFor?_append, lastFor?_step analysis e h.nodup_keys, hnone] at hp
    by_cases hcloses : e.closes uri
    · rw [if_pos hcloses, Option.some_or] at hp
      exact (Option.some.inj hp).symm
    · rw [if_neg hcloses, Option.map_none, ite_self, Option.none_or] at hp
      rw [hnone, if_neg hcloses, eq_comm, Option.or_eq_none_iff] at hget
      exact h.absent uri hget.2 p hp

theorem upToDate_initial : initial.UpToDate analysis [] where
  nodup_keys := List.nodup_nil
  stored _ _ hd := by cases hd
  absent _ _ _ hp := by cases hp

theorem upToDate_published {events : List Event} (h : StartsFirst events) :
    (after analysis events).UpToDate analysis (published analysis events) := by
  induction events using List.reverseRecOn with
  | nil => exact upToDate_initial
  | append_singleton events e ih =>
    obtain ⟨hbefore, -, hlast⟩ := List.pairwise_append.1 h
    rw [after_concat, published_concat]
    refine (ih hbefore).step e ?_
    intro hstarts uri
    have hnot : ∀ e' ∈ events, ¬ e'.opensOrChanges := fun e' he' hopens =>
      hlast e' he' e (List.mem_singleton_self e) hopens hstarts
    rw [get?_documents_after, revision?_eq_none_of_forall_not_opensOrChanges hnot, Option.map_none]

theorem duplicateAliases_after (events : List Event) :
    (after analysis events).configuration.duplicateAliases = warningsWanted events := by
  induction events using List.reverseRecOn with
  | nil => rfl
  | append_singleton events e ih =>
    rw [after_concat, configuration_step, warningsWanted, List.filterMap_append,
      List.filterMap_append, List.getLast?_append]
    cases hsettings : e.settings? with
    | none => simp [hsettings, ih, warningsWanted]
    | some settings =>
      rw [Option.elim_some, Configuration.apply, List.filterMap_cons_some hsettings]
      cases hsetting : Configuration.setting? settings with
      | none => simp [hsetting, ih, warningsWanted]
      | some wanted => simp [hsetting]

variable (analysis)

/-- After every event what was last published is up to date: for each open document its warnings,
if the settings so far ask for them, with its version, and for each other document nothing; and no
event publishes twice for one document. -/
theorem publications_up_to_date {events : List Event} (h : StartsFirst events) :
    let s := after analysis events
    let log := published analysis events
    (∀ uri d, s.documents.get? uri = some d →
      lastFor? uri log = some ⟨uri,
        if warningsWanted events then (analysis.warnings d.document).map Warning.diagnostic else [],
        some d.version⟩) ∧
    (∀ uri, s.documents.get? uri = none → ∀ p, lastFor? uri log = some p → p = ⟨uri, [], none⟩) ∧
    s.configuration.duplicateAliases = warningsWanted events ∧
    ∀ e, ((s.step analysis e).published.map Publication.uri).Nodup := by
  intro s log
  have hlog : s.UpToDate analysis log := upToDate_published h
  have hflag : s.configuration.duplicateAliases = warningsWanted events :=
    duplicateAliases_after events
  refine ⟨?_, hlog.absent, hflag, ?_⟩
  · intro uri d hd
    rw [hlog.stored uri d hd, publication, hflag]
  · intro e
    exact nodup_uri_published_step analysis e hlog.nodup_keys

/-- Two documents with a shadowed declaration, one changed twice, the second time without a text,
and the other one closed. -/
def twoDocuments : List Event :=
  let shadowing := "     A          R F\n     A  P 1A ALIAS(Q)\n     A  P 1A ALIAS(R)"
  [.start (some (.object [("diagnostics", .object [("duplicateAliases", .bool true)])])),
    .opened "one" "" 1,
    .opened "other" shadowing 1,
    .changed "one" ["", shadowing] 2,
    .changed "one" [] 3,
    .closed "other",
    .configured (.object [("dspf", .null)])]

/-- The same events, after which the settings turn the warnings off. -/
def twoDocumentsUnwarned : List Event :=
  twoDocuments ++ [.configured (.object [
    ("dspf", .object [("diagnostics", .object [("duplicateAliases", .bool false)])])])]

theorem publications_up_to_date_twoDocuments :
    ∃ d, (after .standard twoDocuments).documents.get? "one" = some d ∧
      d.document.warnings.length = 1 ∧
      lastFor? "one" (published .standard twoDocuments) = some ⟨"one",
        [⟨⟨⟨1, 8⟩, ⟨1, 9⟩⟩,
          "'P' is declared again in format 'F' on line 3; this declaration is ignored"⟩], some 2⟩ ∧
      lastFor? "one" (published .standard twoDocumentsUnwarned) = some ⟨"one", [], some 2⟩ ∧
      (after .standard twoDocuments).documents.get? "other" = none ∧
      lastFor? "other" (published .standard twoDocuments) = some ⟨"other", [], none⟩ := by
  have hstarts : StartsFirst twoDocuments := by
    unfold StartsFirst
    decide +kernel
  have hstarts' : StartsFirst twoDocumentsUnwarned := by
    unfold StartsFirst
    decide +kernel
  obtain ⟨hstored, habsent, -, -⟩ := publications_up_to_date .standard hstarts
  obtain ⟨hstored', -, -, -⟩ := publications_up_to_date .standard hstarts'
  obtain ⟨d, hd, hd', hversion, hwarnings⟩ : ∃ d,
      (after .standard twoDocuments).documents.get? "one" = some d ∧
      (after .standard twoDocumentsUnwarned).documents.get? "one" = some d ∧ d.version = 2 ∧
      d.document.warnings.map Warning.diagnostic = [⟨⟨⟨1, 8⟩, ⟨1, 9⟩⟩,
        "'P' is declared again in format 'F' on line 3; this declaration is ignored"⟩] :=
    ⟨_, rfl, rfl, rfl, by decide +kernel⟩
  obtain ⟨p, hp⟩ : ∃ p, lastFor? "other" (published .standard twoDocuments) = some p := ⟨_, rfl⟩
  have hone := hstored "one" d hd
  have hone' := hstored' "one" d hd'
  have hother := habsent "other" rfl p hp
  rw [hversion] at hone hone'
  refine ⟨d, hd, ?_, ?_, hone', rfl, by rw [hp, hother]⟩
  · rw [← List.length_map Warning.diagnostic, hwarnings]
    rfl
  · rw [← hwarnings]
    exact hone

end Session

end DisplayFile
