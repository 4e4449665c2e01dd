import DisplayFile.Proofs.Transparency

/-!
# One pass over the markers

The markers of the two signs are blanked one sign after the other. The result is that of a single
pass from the left, which puts three blanks for a marker of either sign and goes on behind it, and
copies any other character. For markers of different signs have no column in common, and the blanks
put for one marker are no part of another: a pass for some signs followed by a pass for others is
one pass for all of them. A marker is replaced exactly if it does not overlap with one that is
replaced further left.
-/

namespace DisplayFile

/-- The characters that a marker starts and ends with. -/
def isMarkerSign (c : Char) : Bool := c == '§' || c == '£'

/-- One pass from the left: three blanks for a marker of one of the signs, behind which the pass
goes on, and any other character as it is. -/
def blankPass (isSign : Char → Bool) : Line → Line
  | a :: b :: c :: rest =>
    if isSign a ∧ b = '|' ∧ c = a then ' ' :: ' ' :: ' ' :: blankPass isSign rest
    else a :: blankPass isSign (b :: c :: rest)
  | line => line

/-- The columns of the markers that the pass replaces, from the left. -/
def replacedColumns (isSign : Char → Bool) : Line → List Nat
  | a :: b :: c :: rest =>
    if isSign a ∧ b = '|' ∧ c = a then 0 :: (replacedColumns isSign rest).map (· + 3)
    else (replacedColumns isSign (b :: c :: rest)).map (· + 1)
  | _ => []

/-- The column is one of the three of a marker that the pass replaces. -/
def ReplacedAt (isSign : Char → Bool) (text : Line) (i : Nat) : Prop :=
  ∃ k ∈ replacedColumns isSign text, k ≤ i ∧ i < k + 3

instance (isSign : Char → Bool) (text : Line) (i : Nat) : Decidable (ReplacedAt isSign text i) :=
  inferInstanceAs (Decidable (∃ k ∈ replacedColumns isSign text, k ≤ i ∧ i < k + 3))

/-- A marker of one of the signs stands at this column. -/
def MarkedBy (isSign : Char → Bool) (text : Line) (i : Nat) : Prop :=
  ∃ sign, isSign sign ∧ MarkedAt sign text i

section Pass

variable {isSign : Char → Bool} {sign a b c : Char} {text rest : Line} {i k : Nat}

theorem markedBy_zero_iff :
    MarkedBy isSign (a :: b :: c :: rest) 0 ↔ isSign a ∧ b = '|' ∧ c = a := by
  constructor
  · rintro ⟨sign, hsign, hfirst, hbar, hlast⟩
    obtain rfl : a = sign := Option.some.inj hfirst
    exact ⟨hsign, Option.some.inj hbar, Option.some.inj hlast⟩
  · rintro ⟨hsign, rfl, rfl⟩
    exact ⟨c, hsign, rfl, rfl, rfl⟩

theorem exists_marker_of_markedBy (h : MarkedBy isSign text 0) :
    ∃ sign rest, isSign sign ∧ text = sign :: '|' :: sign :: rest := by
  have ⟨sign, _, _, _, hlast⟩ := h
  rcases text with _ | ⟨a, _ | ⟨b, _ | ⟨c, rest⟩⟩⟩
  · cases hlast
  · cases hlast
  · cases hlast
  · obtain ⟨hsign, rfl, rfl⟩ := markedBy_zero_iff.1 h
    exact ⟨c, rest, hsign, rfl⟩

theorem not_markedBy_of_isSign_eq_false (h : isSign c = false) :
    ¬ MarkedBy isSign (c :: rest) 0 := by
  rintro ⟨sign, hsign, hfirst, -⟩
  obtain rfl : c = sign := Option.some.inj hfirst
  rw [h] at hsign
  cases hsign

/-- The steps of a pass: a line is empty, starts with a marker that is replaced, or starts with a
character that is copied. -/
@[elab_as_elim]
theorem pass_induction {motive : Line → Prop} (isSign : Char → Bool) (nil : motive [])
    (marker : ∀ sign rest, isSign sign → motive rest → motive (sign :: '|' :: sign :: rest))
    (copy : ∀ c rest, ¬ MarkedBy isSign (c :: rest) 0 → motive rest → motive (c :: rest))
    (text : Line) : motive text := by
  induction hlength : text.length using Nat.strong_induction_on generalizing text with
  | h n ih =>
    subst hlength
    by_cases hmarker : MarkedBy isSign text 0
    · obtain ⟨sign, rest, hsign, rfl⟩ := exists_marker_of_markedBy hmarker
      exact marker sign rest hsign (ih rest.length (by simp; omega) rest rfl)
    · cases text with
      | nil => exact nil
      | cons c rest => exact copy c rest hmarker (ih rest.length (by simp) rest rfl)

theorem blankPass_marker (isSign : Char → Bool) (h : isSign sign) (rest : Line) :
    blankPass isSign (sign :: '|' :: sign :: rest) =
      ' ' :: ' ' :: ' ' :: blankPass isSign rest := by
  rw [blankPass, if_pos ⟨h, rfl, rfl⟩]

theorem blankPass_copy (h : ¬ MarkedBy isSign (c :: rest) 0) :
    blankPass isSign (c :: rest) = c :: blankPass isSign rest := by
  rcases rest with _ | ⟨d, _ | ⟨e, rest⟩⟩
  · rfl
  · rfl
  · rw [blankPass, if_neg (mt markedBy_zero_iff.2 h)]

theorem replacedColumns_marker (h : isSign sign) (rest : Line) :
    replacedColumns isSign (sign :: '|' :: sign :: rest) =
      0 :: (replacedColumns isSign rest).map (· + 3) := by
  rw [replacedColumns, if_pos ⟨h, rfl, rfl⟩]

theorem replacedColumns_copy (h : ¬ MarkedBy isSign (c :: rest) 0) :
    replacedColumns isSign (c :: rest) = (replacedColumns isSign rest).map (· + 1) := by
  rcases rest with _ | ⟨d, _ | ⟨e, rest⟩⟩
  · rfl
  · rfl
  · rw [replacedColumns, if_neg (mt markedBy_zero_iff.2 h)]

/-- A marker is replaced exactly if it does not overlap with one replaced further left. -/
theorem mem_replacedColumns_iff :
    k ∈ replacedColumns isSign text ↔
      MarkedBy isSign text k ∧ ∀ j ∈ replacedColumns isSign text, j < k → j + 3 ≤ k := by
  induction text using pass_induction isSign generalizing k with
  | nil =>
    refine ⟨fun h => absurd h List.not_mem_nil, ?_⟩
    rintro ⟨⟨sign, -, hfirst, -⟩, -⟩
    cases hfirst
  | marker sign rest hsign ih =>
    rw [replacedColumns_marker hsign]
    rcases Nat.lt_or_ge k 3 with hlt | hge
    · -- only the marker at the start can be replaced on its own three columns
      cases k with
      | zero =>
        refine iff_of_true List.mem_cons_self ⟨⟨sign, hsign, rfl, rfl, rfl⟩, ?_⟩
        intro j _ hj
        exact absurd hj (Nat.not_lt_zero j)
      | succ k =>
        refine iff_of_false ?_ ?_
        · intro hmem
          obtain ⟨j, -, hj⟩ : ∃ j ∈ replacedColumns isSign rest, j + 3 = k + 1 := by
            simpa using hmem
          omega
        · rintro ⟨-, hapart⟩
          have hbehind := hapart 0 List.mem_cons_self (Nat.succ_pos k)
          omega
    · obtain ⟨k, rfl⟩ := Nat.exists_eq_add_of_le' hge
      have hmem : k + 3 ∈ 0 :: (replacedColumns isSign rest).map (· + 3) ↔
          k ∈ replacedColumns isSign rest := by simp
      rw [hmem]
      refine ih.trans (and_congr_right' ?_)
      simp
  | copy c rest hcopy ih =>
    rw [replacedColumns_copy hcopy]
    cases k with
    | zero => exact iff_of_false (by simp) fun h => hcopy h.1
    | succ k =>
      have hmem : k + 1 ∈ (replacedColumns isSign rest).map (· + 1) ↔
          k ∈ replacedColumns isSign rest := by simp
      rw [hmem]
      refine ih.trans (and_congr_right' ?_)
      simp

theorem replacedAt_marker_iff (h : isSign sign) :
    ReplacedAt isSign (sign :: '|' :: sign :: rest) (i + 3) ↔ ReplacedAt isSign rest i := by
  simp [ReplacedAt, replacedColumns_marker h]

theorem replacedAt_copy_iff (h : ¬ MarkedBy isSign (c :: rest) 0) :
    ReplacedAt isSign (c :: rest) (i + 1) ↔ ReplacedAt isSign rest i := by
  simp [ReplacedAt, replacedColumns_copy h]

/-- The pass puts blanks in the columns of the markers that it replaces and changes no other. -/
theorem getElem?_blankPass (isSign : Char → Bool) (text : Line) (i : Nat) :
    (blankPass isSign text)[i]? = if ReplacedAt isSign text i then some ' ' else text[i]? := by
  induction text using pass_induction isSign generalizing i with
  | nil => simp [blankPass, ReplacedAt, replacedColumns]
  | marker sign rest hsign ih =>
    rw [blankPass_marker _ hsign]
    rcases Nat.lt_or_ge i 3 with hlt | hge
    · have hstart : 0 ∈ replacedColumns isSign (sign :: '|' :: sign :: rest) := by
        simp [replacedColumns_marker hsign]
      rw [if_pos ⟨0, hstart, Nat.zero_le i, by omega⟩]
      interval_cases i
      all_goals rfl
    · obtain ⟨i, rfl⟩ := Nat.exists_eq_add_of_le' hge
      simp only [replacedAt_marker_iff hsign]
      exact ih i
  | copy c rest hcopy ih =>
    rw [blankPass_copy hcopy]
    cases i with
    | zero =>
      have hkept : ¬ ReplacedAt isSign (c :: rest) 0 := by
        simp [ReplacedAt, replacedColumns_copy hcopy]
      rw [if_neg hkept]
      rfl
    | succ i =>
      simp only [replacedAt_copy_iff hcopy]
      exact ih i

theorem getElem?_of_blankPass (h : (blankPass isSign text)[i]? = some c) (hc : c ≠ ' ') :
    text[i]? = some c := by
  rw [getElem?_blankPass] at h
  split at h
  · exact absurd (Option.some.inj h).symm hc
  · exact h

end Pass

section Fusion

variable {p q : Char → Bool} {c : Char} {rest : Line}

/-- A pass makes no marker at the start of a line whose first character it copies. -/
theorem markedBy_of_blankPass (hblank : q ' ' = false)
    (h : MarkedBy q (c :: blankPass p rest) 0) : MarkedBy q (c :: rest) 0 := by
  obtain ⟨sign, hsign, hfirst, hbar, hlast⟩ := h
  have hne : sign ≠ ' ' := by
    rintro rfl
    rw [hblank] at hsign
    cases hsign
  have hbar' : rest[0]? = some '|' := getElem?_of_blankPass hbar (by decide)
  have hlast' : rest[1]? = some sign := getElem?_of_blankPass hlast hne
  exact ⟨sign, hsign, hfirst, hbar', hlast'⟩

/-- Two passes are one pass for the signs of both. -/
theorem blankPass_blankPass (hbar : p '|' = false) (hblank : q ' ' = false) (text : Line) :
    blankPass q (blankPass p text) = blankPass (fun c => p c || q c) text := by
  induction text using pass_induction (fun c => p c || q c) with
  | nil => rfl
  | marker sign rest hsign ih =>
    rw [blankPass_marker (fun c => p c || q c) hsign, ← ih]
    cases hp : p sign with
    | true =>
      -- replaced by the first pass; the second one copies the three blanks
      rw [blankPass_marker p hp]
      iterate 3 rw [blankPass_copy (not_markedBy_of_isSign_eq_false hblank)]
    | false =>
      -- copied character by character by the first pass and replaced by the second
      have hq : q sign := by simpa [hp] using hsign
      rw [blankPass_copy (not_markedBy_of_isSign_eq_false hp),
        blankPass_copy (not_markedBy_of_isSign_eq_false hbar),
        blankPass_copy (not_markedBy_of_isSign_eq_false hp), blankPass_marker q hq]
  | copy c rest hcopy ih =>
    have hfirst : ¬ MarkedBy p (c :: rest) 0 := by
      rintro ⟨sign, hsign, hmarked⟩
      exact hcopy ⟨sign, by simp [hsign], hmarked⟩
    have hsecond : ¬ MarkedBy q (c :: blankPass p rest) 0 := by
      intro h
      obtain ⟨sign, hsign, hmarked⟩ := markedBy_of_blankPass hblank h
      exact hcopy ⟨sign, by simp [hsign], hmarked⟩
    rw [blankPass_copy hfirst, blankPass_copy hsecond, blankPass_copy hcopy, ih]

theorem blankMarkers_eq_blankPass (sign : Char) (text : Line) :
    blankMarkers sign text = blankPass (· == sign) text := by
  fun_induction blankMarkers sign text with
  | case1 a b c rest hmarker ih =>
    obtain ⟨rfl, rfl, rfl⟩ := hmarker
    rw [blankPass_marker (· == c) (beq_self_eq_true c), ih]
  | case2 a b c rest hmarker ih =>
    have hcopy : ¬ MarkedBy (· == sign) (a :: b :: c :: rest) 0 := by
      rw [markedBy_zero_iff]
      rintro ⟨hsign, rfl, rfl⟩
      exact hmarker ⟨eq_of_beq hsign, rfl, eq_of_beq hsign⟩
    rw [blankPass_copy hcopy, ih]
  | case3 text hshort =>
    rcases text with _ | ⟨a, _ | ⟨b, _ | ⟨c, rest⟩⟩⟩
    · rfl
    · rfl
    · rfl
    · exact absurd rfl (hshort a b c rest)

/-- Blanking the markers of one sign and then those of another is one pass for both. -/
theorem blankMarkers_blankMarkers {first second : Char} (hfirst : first ≠ '|')
    (hsecond : second ≠ ' ') (line : Line) :
    blankMarkers second (blankMarkers first line) =
      blankPass (fun c => c == first || c == second) line := by
  rw [blankMarkers_eq_blankPass, blankMarkers_eq_blankPass]
  apply blankPass_blankPass
  · simpa using hfirst.symm
  · simpa using hsecond.symm

theorem normalize_eq_blankPass (line : Line) : normalize line = blankPass isMarkerSign line :=
  blankMarkers_blankMarkers (by decide) (by decide) line

theorem normalize_eq_swapped (line : Line) :
    normalize line = blankMarkers '§' (blankMarkers '£' line) := by
  rw [normalize, blankMarkers_blankMarkers (by decide) (by decide),
    blankMarkers_blankMarkers (by decide) (by decide)]
  simp only [Bool.or_comm]

end Fusion

section Untouched

variable {sign : Char} {line : Line}

theorem occursIn_iff {α : Type} [DecidableEq α] {pattern text : List α} (hne : pattern ≠ []) :
    occursIn pattern text ↔ pattern <:+: text := by
  rw [occursIn, Option.isSome_iff_exists, List.infix_iff_prefix_suffix]
  constructor
  · rintro ⟨k, hk⟩
    exact ⟨text.drop k, isPrefix_drop_of_find? hk, List.drop_suffix k text⟩
  · rintro ⟨tail, hstarts, htail⟩
    rw [List.suffix_iff_eq_drop.1 htail] at hstarts
    obtain ⟨k, -, hk⟩ := exists_find?_le hstarts hne
    exact ⟨k, hk⟩

theorem marker_isInfix_iff : marker sign <:+: line ↔ ∃ i, MarkedAt sign line i := by
  have hlength : (marker sign).length = 3 := rfl
  rw [List.infix_iff_getElem?]
  constructor
  · rintro ⟨i, -, hcolumns⟩
    have hfirst := hcolumns 0 (by omega)
    have hbar := hcolumns 1 (by omega)
    have hlast := hcolumns 2 (by omega)
    rw [Nat.add_comm] at hfirst hbar hlast
    exact ⟨i, hfirst, hbar, hlast⟩
  · rintro ⟨i, hfirst, hbar, hlast⟩
    obtain ⟨hlt, -⟩ := List.getElem?_eq_some_iff.1 hlast
    refine ⟨i, by omega, ?_⟩
    intro j hj
    rw [Nat.add_comm]
    obtain rfl | rfl | rfl : j = 0 ∨ j = 1 ∨ j = 2 := by omega
    · exact hfirst
    · exact hbar
    · exact hlast

theorem isMarkerSign_iff : isMarkerSign sign ↔ sign = '§' ∨ sign = '£' := by
  simp [isMarkerSign]

theorem isUnmarked_iff :
    isUnmarked line ↔ ∀ sign, isMarkerSign sign → ¬ marker sign <:+: line := by
  have hoccurs (sign : Char) : occursIn (marker sign) line ↔ marker sign <:+: line :=
    occursIn_iff (List.cons_ne_nil _ _)
  simp [isUnmarked, isMarkerSign_iff, ← hoccurs]

theorem not_marker_isInfix_normalize (hsign : isMarkerSign sign) (line : Line) :
    ¬ marker sign <:+: normalize line := by
  rw [marker_isInfix_iff]
  rintro ⟨i, hmarked⟩
  exact not_markedAt_normalize (isMarkerSign_iff.1 hsign) line i hmarked

theorem isUnmarked_iff_normalize_eq_self : isUnmarked line ↔ normalize line = line := by
  rw [isUnmarked_iff]
  constructor
  · intro h
    have hnone (sign : Char) (hsign : isMarkerSign sign) (i : Nat) : ¬ MarkedAt sign line i :=
      fun hmarked => h sign hsign (marker_isInfix_iff.2 ⟨i, hmarked⟩)
    rw [normalize, blankMarkers_eq_self (hnone '§' rfl), blankMarkers_eq_self (hnone '£' rfl)]
  · intro h sign hsign
    rw [← h]
    exact not_marker_isInfix_normalize hsign line

end Untouched

/-- Blanking all markers is one pass from the left. The line keeps its length, and exactly the
columns of the markers replaced on the way become blanks; no marker is left, the order of the signs
does not matter, blanking once more changes nothing, and a line is returned untouched exactly if it
is its own result. -/
theorem normalize_is_one_pass (raw : Line) :
    normalize raw = blankPass isMarkerSign raw ∧
    (normalize raw).length = raw.length ∧
    (∀ i, (normalize raw)[i]? =
      if ReplacedAt isMarkerSign raw i then some ' ' else raw[i]?) ∧
    (∀ k, k ∈ replacedColumns isMarkerSign raw ↔
      MarkedBy isMarkerSign raw k ∧
        ∀ j ∈ replacedColumns isMarkerSign raw, j < k → j + 3 ≤ k) ∧
    (∀ sign, isMarkerSign sign → ¬ marker sign <:+: normalize raw) ∧
    normalize raw = blankMarkers '§' (blankMarkers '£' raw) ∧
    normalize (normalize raw) = normalize raw ∧
    (isUnmarked raw ↔ normalize raw = raw) := by
  refine ⟨normalize_eq_blankPass raw, length_normalize raw, ?_, ?_, ?_,
    normalize_eq_swapped raw, normalize_normalize raw, isUnmarked_iff_normalize_eq_self⟩
  · intro i
    rw [normalize_eq_blankPass, getElem?_blankPass]
  · intro k
    exact mem_replacedColumns_iff
  · intro sign hsign
    exact not_marker_isInfix_normalize hsign raw

theorem normalize_is_one_pass_chained :
    let line := "§|§|§£|£|£".toList
    normalize line = "   |§   |£".toList ∧
    replacedColumns isMarkerSign line = [0, 5] ∧
    MarkedBy isMarkerSign line 7 ∧ 7 ∉ replacedColumns isMarkerSign line ∧
    isMarkerSign '£' ∧ ¬ marker '£' <:+: normalize line ∧
    ¬ isUnmarked line := by
  intro line
  obtain ⟨hpass, -, -, hreplaced, hnone, -, -, huntouched⟩ := normalize_is_one_pass line
  have hline : normalize line = "   |§   |£".toList := hpass.trans (by decide +kernel)
  refine ⟨hline, by decide +kernel, ⟨'£', rfl, rfl, rfl, rfl⟩, ?_, rfl, hnone '£' rfl, ?_⟩
  · rw [hreplaced]
    rintro ⟨-, hapart⟩
    exact absurd (hapart 5 (by decide +kernel) (by decide)) (by decide)
  · rw [huntouched, hline]
    decide +kernel

end DisplayFile
