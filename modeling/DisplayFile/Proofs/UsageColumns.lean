import DisplayFile.Usage
import Mathlib

/-!
# The columns of a usage

A usage is a keyword of eight characters, the name it uses, and a closing parenthesis. Only the
first character of the keyword is a `D`, and no character of a name is a parenthesis, so a usage
cannot start inside another: of two usages on a line, the left one has ended before the right one
starts. The usages of a line therefore stand in the order in which they are read, with no column in
common, and a search that goes on behind each usage it finds misses none.
-/

namespace DisplayFile

/-- Case is lost on letters only. -/
theorem eq_of_toUpper_eq {c d : Char} (h : c.toUpper = d) (hd : d.isAlpha = false) : c = d := by
  have hlower : ¬ c.isLower := by
    intro hlower
    rw [← h, Char.isAlpha_toUpper_eq_isAlpha, Char.isAlpha, hlower, Bool.or_true] at hd
    cases hd
  rw [← h, Char.toUpper_eq_of_not_isLower hlower]

theorem length_of_map_toUpper_eq {keyword : Line}
    (h : keyword.map Char.toUpper = usageKeyword) : keyword.length = 8 := by
  rw [← List.length_map (f := Char.toUpper), h]
  rfl

/-- What it takes for a text to start with a usage of `name`. -/
theorem usageName?_eq_some_iff {text name : Line} :
    usageName? text = some name ↔
      ∃ keyword rest, text = keyword ++ (name ++ ')' :: rest) ∧
        keyword.map Char.toUpper = usageKeyword ∧ name ≠ [] ∧ ∀ c ∈ name, isWordChar c := by
  constructor
  · intro h
    simp only [usageName?, startsWithKeyword, beq_iff_eq] at h
    split at h
    · next hkeyword =>
      split at h
      · next hname =>
        obtain rfl := Option.some.inj h
        have hsplit := List.takeWhile_append_dropWhile
          (p := isWordChar) (l := text.drop usageKeyword.length)
        have hrest := hname.2
        rw [← hsplit, List.getElem?_append_right (by simp), hsplit, Nat.sub_self] at hrest
        obtain ⟨rest, hdrop⟩ : ∃ rest,
            (text.drop usageKeyword.length).dropWhile isWordChar = ')' :: rest := by
          cases hd : (text.drop usageKeyword.length).dropWhile isWordChar with
          | nil => simp [hd] at hrest
          | cons c rest =>
            simp only [hd, List.getElem?_cons_zero, Option.some.injEq] at hrest
            exact ⟨rest, by rw [hrest]⟩
        refine ⟨text.take usageKeyword.length, rest, ?_, hkeyword, hname.1, ?_⟩
        · rw [← hdrop, hsplit, List.take_append_drop]
        · intro c hc
          exact List.all_eq_true.1 List.all_takeWhile c hc
      · cases h
    · cases h
  · rintro ⟨keyword, rest, rfl, hkeyword, hname, hword⟩
    have hlength : keyword.length = usageKeyword.length := length_of_map_toUpper_eq hkeyword
    have htake : (name ++ ')' :: rest).takeWhile isWordChar = name := by
      rw [List.takeWhile_append_of_pos hword]
      simp [show isWordChar ')' = false from rfl]
    simp only [usageName?, startsWithKeyword, ← hlength, List.take_left, List.drop_left, htake]
    simp [hkeyword, hname]

section Columns

variable {text name : Line} (h : usageName? text = some name)
include h

theorem getElem?_keyword_of_usageName? {j : Nat} (hj : j < 8) :
    text[j]?.map Char.toUpper = usageKeyword[j]? := by
  obtain ⟨keyword, rest, rfl, hkeyword, -, -⟩ := usageName?_eq_some_iff.1 h
  have hlength := length_of_map_toUpper_eq hkeyword
  rw [List.getElem?_append_left (by omega), ← hkeyword, List.getElem?_map]

theorem getElem?_zero_of_usageName? : ∃ c, text[0]? = some c ∧ c.toUpper = 'D' :=
  Option.map_eq_some_iff.1 (getElem?_keyword_of_usageName? h (j := 0) (by omega))

theorem getElem?_ampersand_of_usageName? : text[7]? = some '&' := by
  obtain ⟨c, hc, hupper⟩ :=
    Option.map_eq_some_iff.1 (getElem?_keyword_of_usageName? h (j := 7) (by omega))
  rw [hc, eq_of_toUpper_eq hupper rfl]

theorem getElem?_name_of_usageName? {j : Nat} (hj : j < name.length) :
    ∃ c, text[8 + j]? = some c ∧ isWordChar c := by
  obtain ⟨keyword, rest, rfl, hkeyword, -, hword⟩ := usageName?_eq_some_iff.1 h
  have hlength := length_of_map_toUpper_eq hkeyword
  refine ⟨name[j], ?_, hword _ (List.getElem_mem hj)⟩
  rw [List.getElem?_append_right (by omega), List.getElem?_append_left (by omega)]
  simp [hlength]

theorem getElem?_close_of_usageName? : text[8 + name.length]? = some ')' := by
  obtain ⟨keyword, rest, rfl, hkeyword, -, -⟩ := usageName?_eq_some_iff.1 h
  have hlength := length_of_map_toUpper_eq hkeyword
  rw [List.getElem?_append_right (by omega), List.getElem?_append_right (by omega)]
  simp [hlength]

/-- A usage that starts further right does not start before this one has ended. -/
theorem le_of_usageName?_drop {k : Nat} {other : Line}
    (hother : usageName? (text.drop k) = some other) (hk : 0 < k) : name.length + 9 ≤ k := by
  have hcell {j : Nat} (hj : j < 8) : text[k + j]?.map Char.toUpper = usageKeyword[j]? := by
    rw [← List.getElem?_drop]
    exact getElem?_keyword_of_usageName? hother hj
  apply Nat.le_of_not_lt
  intro hlt
  by_cases hk8 : k < 8
  · -- the keyword of this usage has its only `D` in front
    have hnot : ∀ j < 8, 0 < j → usageKeyword[j]? ≠ some 'D' := by decide
    apply hnot k hk8 hk
    rw [← getElem?_keyword_of_usageName? h hk8]
    exact hcell (j := 0) (by omega)
  by_cases hname : k + 6 < 8 + name.length
  · -- the opening parenthesis of the other would be a character of this name
    obtain ⟨c, hc, hword⟩ := getElem?_name_of_usageName? h (j := k - 2) (by omega)
    have hparen := hcell (j := 6) (by omega)
    rw [show k + 6 = 8 + (k - 2) by omega, hc] at hparen
    rw [eq_of_toUpper_eq (Option.some.inj hparen) rfl] at hword
    exact absurd hword (by decide)
  · -- the closing parenthesis of this usage would stand in the other keyword
    have hnot : ∀ j < 8, usageKeyword[j]? ≠ some ')' := by decide
    apply hnot (8 + name.length - k) (by omega)
    rw [← hcell (by omega), show k + (8 + name.length - k) = 8 + name.length by omega,
      getElem?_close_of_usageName? h]
    rfl

end Columns

namespace Usage

/-- The spans of the usage are those that some keyword column gives. -/
def Placed (u : Usage) : Prop := ∃ line column name, u = ofKeyword line column name

/-- The whole of `u` stands before the ampersand of `v`. -/
def EndsBefore (u v : Usage) : Prop := u.target.stop < v.target.start

variable {u v : Usage}

/-- The name adds nothing to the span that holds the ampersand too. -/
theorem Placed.contains_iff (hu : u.Placed) {p : Position} :
    u.contains p ↔ u.target.contains p := by
  obtain ⟨line, column, name, rfl⟩ := hu
  simp only [contains, ofKeyword, Bool.or_eq_true, Span.contains_onLine]
  omega

theorem Placed.target_contains_start (hu : u.Placed) : u.target.contains u.target.start := by
  obtain ⟨line, column, name, rfl⟩ := hu
  refine Span.contains_onLine.2 ⟨rfl, Nat.le_refl _, ?_⟩
  change column + 7 < column + 8 + name.length
  omega

theorem Placed.target_start_lt (hu : u.Placed) (h : u.EndsBefore v) :
    u.target.start < v.target.start := by
  obtain ⟨line, column, name, rfl⟩ := hu
  simp only [EndsBefore, ofKeyword, Span.onLine, Position.lt_def] at h ⊢
  omega

theorem Placed.span_start_lt (hu : u.Placed) (hv : v.Placed) (h : u.EndsBefore v) :
    u.span.start < v.span.start := by
  obtain ⟨line, column, name, rfl⟩ := hu
  obtain ⟨line', column', name', rfl⟩ := hv
  simp only [EndsBefore, ofKeyword, Span.onLine, Position.lt_def] at h ⊢
  omega

theorem not_contains_of_endsBefore (h : u.EndsBefore v) {p : Position} (hu : u.target.contains p) :
    ¬ v.target.contains p := by
  rw [Span.contains_iff] at hu ⊢
  simp only [EndsBefore, Position.le_def, Position.lt_def] at h hu ⊢
  omega

end Usage

theorem pairwise_usagesFrom (line column : Nat) (text : Line) :
    (usagesFrom line column text).Pairwise Usage.EndsBefore := by
  induction text generalizing column with
  | nil => exact .nil
  | cons c rest ih =>
    rw [usagesFrom, List.pairwise_append]
    refine ⟨?_, ih (column + 1), ?_⟩
    · cases usageName? (c :: rest) with
      | none => exact .nil
      | some name => exact List.pairwise_singleton _ _
    · intro u hu v hv
      rw [Option.mem_toList, Option.map_eq_some_iff] at hu
      obtain ⟨name, hname, rfl⟩ := hu
      obtain ⟨k, other, hother, rfl⟩ := mem_usagesFrom.1 hv
      have hle := le_of_usageName?_drop hname (k := k + 1) hother (by omega)
      refine Position.lt_def.2 (Or.inr ⟨rfl, ?_⟩)
      change column + 8 + name.length < column + 1 + k + 7
      omega

/-- The usages in a text, searched for from left to right, each time behind the last one found. -/
def scanUsages (line column : Nat) : Line → List Usage
  | [] => []
  | c :: rest =>
    match usageName? (c :: rest) with
    | none => scanUsages line (column + 1) rest
    | some name =>
      .ofKeyword line column name ::
        scanUsages line (column + 1 + (name.length + 8)) (rest.drop (name.length + 8))
termination_by text => text.length
decreasing_by
  · exact Nat.lt_succ_self rest.length
  · rw [List.length_drop, List.length_cons]
    omega

theorem usagesFrom_eq_drop (line column : Nat) {text : Line} {m : Nat}
    (h : ∀ k < m, usageName? (text.drop k) = none) :
    usagesFrom line column text = usagesFrom line (column + m) (text.drop m) := by
  induction m generalizing column text with
  | zero => rfl
  | succ m ih =>
    cases text with
    | nil => rfl
    | cons c rest =>
      have hrest : ∀ k < m, usageName? (rest.drop k) = none := by
        intro k hk
        exact h (k + 1) (by omega)
      have hfirst : usageName? (c :: rest) = none := h 0 (by omega)
      rw [usagesFrom, hfirst, ih (column + 1) hrest, List.drop_succ_cons, Nat.add_right_comm,
        Nat.add_assoc]
      rfl

/-- Trying every column finds no usage that the search behind each one would skip. -/
theorem usagesFrom_eq_scanUsages (line column : Nat) (text : Line) :
    usagesFrom line column text = scanUsages line column text := by
  fun_induction scanUsages line column text with
  | case1 column => rfl
  | case2 column c rest hnone ih => rw [usagesFrom, hnone, ih]; rfl
  | case3 column c rest name hname ih =>
    have hskip : ∀ k < name.length + 8, usageName? (rest.drop k) = none := by
      intro k hk
      rw [Option.eq_none_iff_forall_ne_some]
      intro other hother
      have hle := le_of_usageName?_drop hname (k := k + 1) hother (by omega)
      omega
    rw [usagesFrom, hname, usagesFrom_eq_drop line (column + 1) hskip, ih]
    rfl

theorem pairwise_usagesOn (line : Nat) (raw : Line) :
    (usagesOn line raw).Pairwise Usage.EndsBefore := pairwise_usagesFrom line 0 raw

end DisplayFile
