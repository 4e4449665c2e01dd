/-!
# Searching in a text

`find? pattern text` is the first place of `text` at which `pattern` stands. Keywords are compared
without regard to the case of ASCII letters; no other character matches a letter of a keyword.
-/

namespace DisplayFile

variable {α : Type} [DecidableEq α]

/-- The first place at which `pattern` stands in `text`. -/
def find? (pattern : List α) : List α → Option Nat
  | [] => if pattern.isEmpty then some 0 else none
  | c :: rest =>
    if pattern.isPrefixOf (c :: rest) then some 0 else (find? pattern rest).map (· + 1)

def occursIn (pattern text : List α) : Bool := (find? pattern text).isSome

/-- Whether `text` starts with `keyword`, which is written in capitals. -/
def startsWithKeyword (keyword text : List Char) : Bool :=
  (text.take keyword.length).map Char.toUpper == keyword

/-- Whether `keyword` stands anywhere in `text`. -/
def mentionsKeyword (keyword : List Char) : List Char → Bool
  | [] => keyword.isEmpty
  | c :: rest => startsWithKeyword keyword (c :: rest) || mentionsKeyword keyword rest

/-- The first occurrence is one: the pattern stands at the place found. -/
theorem isPrefix_drop_of_find? {pattern text : List α} {k : Nat}
    (h : find? pattern text = some k) : pattern <+: text.drop k := by
  induction text generalizing k with
  | nil =>
    simp only [find?] at h
    split at h <;> simp_all
  | cons c rest ih =>
    simp only [find?, List.isPrefixOf_iff_prefix] at h
    split at h
    · obtain rfl : 0 = k := by simpa using h
      assumption
    · obtain ⟨j, hj, rfl⟩ := Option.map_eq_some_iff.1 h
      simpa using ih hj

theorem not_isPrefix_drop_of_lt_find? {pattern text : List α} {j k : Nat}
    (h : find? pattern text = some k) (hj : j < k) : ¬ pattern <+: text.drop j := by
  induction text generalizing j k with
  | nil =>
    simp only [find?] at h
    split at h <;> simp at h
    omega
  | cons c rest ih =>
    simp only [find?, List.isPrefixOf_iff_prefix] at h
    split at h
    · obtain rfl : 0 = k := by simpa using h
      omega
    · rename_i hc
      obtain ⟨i, hi, rfl⟩ := Option.map_eq_some_iff.1 h
      cases j with
      | zero => exact hc
      | succ j => simpa using ih hi (by omega)

end DisplayFile
