import DisplayFile.Declaration
import DisplayFile.Proofs.UsageColumns

/-!
# Columns from byte offsets

A search in an encoded text answers with a byte offset, and a line is then cut at such an offset. A
column counts characters, of which one may take up several bytes. `charColumn` turns an offset into
a column; it is only ever given the offset of a character, and there it counts the characters before
it. So a declaration or a usage that is located by byte offsets has the columns that a search by
characters gives it.
-/

namespace DisplayFile

open String (utf8Len)

/-- Cuts a text at a byte offset, unless the offset lies inside a character or behind the text. -/
def splitAtByte? : Nat → Line → Option (Line × Line)
  | 0, text => some ([], text)
  | _ + 1, [] => none
  | offset + 1, c :: rest =>
    if c.utf8Size ≤ offset + 1 then
      (splitAtByte? (offset + 1 - c.utf8Size) rest).map fun (before, after) => (c :: before, after)
    else none

/-- The column of a byte offset. An offset at which the line cannot be cut has the column behind the
last character. -/
def charColumn (raw : Line) (offset : Nat) : Nat :=
  ((splitAtByte? offset raw).map fun (before, _) => before.length).getD raw.length

/-- The byte offset at which `pattern` first stands in `text`. -/
def findByte? (pattern : Line) : Line → Option Nat
  | [] => if pattern.isEmpty then some 0 else none
  | c :: rest =>
    if pattern.isPrefixOf (c :: rest) then some 0
    else (findByte? pattern rest).map (c.utf8Size + ·)

/-- Between two characters a text can be cut. -/
theorem splitAtByte?_append (before after : Line) :
    splitAtByte? (utf8Len before) (before ++ after) = some (before, after) := by
  induction before with
  | nil => cases after <;> rfl
  | cons c rest ih =>
    obtain ⟨offset, hoffset⟩ : ∃ offset, utf8Len (c :: rest) = offset + 1 :=
      Nat.exists_eq_add_one.2 (Nat.add_pos_right _ c.utf8Size_pos)
    have hle : c.utf8Size ≤ offset + 1 := hoffset ▸ Nat.le_add_left _ _
    have hrest : offset + 1 - c.utf8Size = utf8Len rest := by
      rw [← hoffset, String.utf8Len_cons, Nat.add_sub_cancel]
    rw [hoffset, List.cons_append, splitAtByte?, if_pos hle, hrest, ih]
    rfl

/-- The column of a character is the number of characters before it. -/
theorem charColumn_append (before after : Line) :
    charColumn (before ++ after) (utf8Len before) = before.length := by
  rw [charColumn, splitAtByte?_append]
  rfl

example : charColumn "§|§ABC".toList 5 = 3 := by decide

/-- The search by bytes and the search by characters find the same place, if any. -/
theorem findByte?_cases (pattern text : Line) :
    (findByte? pattern text = none ∧ find? pattern text = none) ∨
      ∃ before after, text = before ++ (pattern ++ after) ∧
        findByte? pattern text = some (utf8Len before) ∧
        find? pattern text = some before.length := by
  induction text with
  | nil =>
    cases pattern with
    | nil => exact Or.inr ⟨[], [], rfl, rfl, rfl⟩
    | cons p rest => exact Or.inl ⟨rfl, rfl⟩
  | cons c rest ih =>
    by_cases h : pattern.isPrefixOf (c :: rest)
    · obtain ⟨after, hafter⟩ := List.isPrefixOf_iff_prefix.1 h
      refine Or.inr ⟨[], after, hafter.symm, ?_, ?_⟩
      · rw [findByte?, if_pos h, String.utf8Len_nil]
      · rw [find?, if_pos h, List.length_nil]
    · rw [findByte?, if_neg h, find?, if_neg h]
      rcases ih with ⟨hbyte, hchar⟩ | ⟨before, after, rfl, hbyte, hchar⟩
      · exact Or.inl ⟨by rw [hbyte, Option.map_none], by rw [hchar, Option.map_none]⟩
      · refine Or.inr ⟨c :: before, after, rfl, ?_, ?_⟩
        · rw [hbyte, Option.map_some, String.utf8Len_cons, Nat.add_comm]
        · rw [hchar, Option.map_some, List.length_cons]

namespace Declaration

/-- The declaration of a clause, with its places searched by byte offsets. The text behind the field
name is cut off at an offset; that this never fails is part of `ofClause?_eq_ofClauseAtBytes?`, by
which there is a declaration whenever the name is found. -/
def ofClauseAtBytes? (line : Nat) (raw : Line) (clause : Clause) : Option Declaration := do
  let nameByte ← findByte? clause.field raw
  let nameStart := charColumn raw nameByte
  let nameEndByte := nameByte + utf8Len clause.field
  let (_, rest) ← splitAtByte? nameEndByte raw
  let value := clause.phrase.value
  return {
    name := capitals clause.field
    nameSpan := .onLine line nameStart (nameStart + clause.field.length)
    valueSpan := (findByte? value rest).map fun offset =>
      let valueStart := charColumn raw (nameEndByte + offset)
      .onLine line valueStart (valueStart + value.length)
    aliasName :=
      if trimBlanks value = [] then none else some (capitals (trimBlanks value)) }

/-- Both searches give the name and the value the same columns. -/
theorem ofClause?_eq_ofClauseAtBytes? (line : Nat) (raw : Line) (clause : Clause) :
    ofClause? line raw clause = ofClauseAtBytes? line raw clause := by
  unfold ofClause? ofClauseAtBytes?
  rcases findByte?_cases clause.field raw with ⟨hbyte, hchar⟩ | ⟨before, rest, rfl, hbyte, hchar⟩
  · rw [hbyte, hchar]
    rfl
  · have hcut : splitAtByte? (utf8Len before + utf8Len clause.field)
        (before ++ (clause.field ++ rest)) = some (before ++ clause.field, rest) := by
      rw [← String.utf8Len_append, ← List.append_assoc, splitAtByte?_append]
    have hdrop : (before ++ (clause.field ++ rest)).drop (before.length + clause.field.length) =
        rest := by
      rw [← List.length_append, ← List.append_assoc, List.drop_left]
    simp only [hbyte, hchar, Option.map_some, Option.bind_eq_bind, Option.bind_some,
      charColumn_append, hcut, hdrop]
    rcases findByte?_cases clause.phrase.value rest with
      ⟨hbyte', hchar'⟩ | ⟨between, behind, hrest, hbyte', hchar'⟩
    · rw [hbyte', hchar']
      rfl
    · have hcolumn : charColumn (before ++ (clause.field ++ rest))
          (utf8Len before + utf8Len clause.field + utf8Len between) =
          before.length + clause.field.length + between.length := by
        rw [hrest, ← String.utf8Len_append, ← String.utf8Len_append, ← List.append_assoc,
          ← List.append_assoc, charColumn_append, List.length_append, List.length_append]
      rw [hbyte', hchar', Option.map_some, Option.map_some, hcolumn]
      rfl

end Declaration

/-- The matches of a usage in a text that starts at a byte offset, each with the offset of its
keyword and the name it uses. The search goes on behind each match. -/
def usageMatches (offset : Nat) : Line → List (Nat × Line)
  | [] => []
  | c :: rest =>
    match usageName? (c :: rest) with
    | none => usageMatches (offset + c.utf8Size) rest
    | some name =>
      (offset, name) ::
        usageMatches (offset + c.utf8Size + utf8Len (rest.take (name.length + 8)))
          (rest.drop (name.length + 8))
termination_by text => text.length
decreasing_by
  · exact Nat.lt_succ_self rest.length
  · rw [List.length_drop, List.length_cons]
    omega

def Usage.ofMatch (line : Nat) (raw : Line) (found : Nat × Line) : Usage :=
  .ofKeyword line (charColumn raw found.1) found.2

def usagesAtBytes (line : Nat) (raw : Line) : List Usage :=
  (usageMatches 0 raw).map (Usage.ofMatch line raw)

/-- The text before the place that the search has come to fixes both its byte offset and its
column. -/
theorem map_usageMatches (line : Nat) {raw text : Line} {offset : Nat} (before : Line)
    (hraw : raw = before ++ text) (hoffset : offset = utf8Len before) :
    (usageMatches offset text).map (Usage.ofMatch line raw) =
      scanUsages line before.length text := by
  fun_induction usageMatches offset text generalizing before with
  | case1 offset =>
    rw [scanUsages]
    rfl
  | case2 offset c rest hnone ih =>
    have hrest := ih (before ++ [c]) (by simp [hraw]) (by simp [hoffset])
    rw [scanUsages, hnone, hrest, List.length_append]
    rfl
  | case3 offset c rest name hname ih =>
    have hlength : name.length + 8 ≤ rest.length := by
      have hlt := (List.getElem?_eq_some_iff.1 (getElem?_close_of_usageName? hname)).1
      rw [List.length_cons] at hlt
      omega
    have hrest := ih (before ++ c :: rest.take (name.length + 8)) (by simp [hraw])
      (by rw [hoffset, String.utf8Len_append, String.utf8Len_cons]; omega)
    have hcolumn : (before ++ c :: rest.take (name.length + 8)).length =
        before.length + 1 + (name.length + 8) := by
      rw [List.length_append, List.length_cons, List.length_take_of_le hlength]
      omega
    have hfirst : Usage.ofMatch line raw (offset, name) = .ofKeyword line before.length name := by
      rw [Usage.ofMatch, hraw, hoffset, charColumn_append]
    rw [List.map_cons, hrest, hcolumn, hfirst, scanUsages, hname]

/-- The columns of the usages on a line are those of the byte offsets at which they are found. -/
theorem usagesOn_eq_usagesAtBytes (line : Nat) (raw : Line) :
    usagesOn line raw = usagesAtBytes line raw := by
  rw [usagesOn, usagesFrom_eq_scanUsages]
  exact (map_usageMatches line [] rfl rfl).symm

end DisplayFile
