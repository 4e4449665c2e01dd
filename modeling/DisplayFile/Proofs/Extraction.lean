import DisplayFile.Proofs.Resolution

/-!
# Where usages are read

A usage is written where the keyword, a name and a closing parenthesis stand in a line. Each such
place in a specification that a format spans gives the format one usage, and nothing else does. The
usages are filed under the names they use: each name with its usages in the order of the text, and
the names in the order in which they first occur.
-/

namespace DisplayFile

/-- At `column` of the line stand the keyword in any case, `name`, and a closing parenthesis. -/
def WritesUsage (raw : Line) (column : Nat) (name : Line) : Prop :=
  ∃ before keyword rest, raw = before ++ (keyword ++ (name ++ ')' :: rest)) ∧
    before.length = column ∧ keyword.map Char.toUpper = usageKeyword ∧
    name ≠ [] ∧ ∀ c ∈ name, isWordChar c

section Writing

variable {raw name other : Line} {column : Nat}

theorem usageName?_drop_eq_some_iff :
    usageName? (raw.drop column) = some name ↔ WritesUsage raw column name := by
  rw [usageName?_eq_some_iff]
  constructor
  · rintro ⟨keyword, rest, htext, hkeyword, hname, hword⟩
    have hcolumn : column ≤ raw.length := by
      have hlength := congrArg List.length htext
      simp only [List.length_drop, List.length_append, List.length_cons] at hlength
      omega
    refine ⟨raw.take column, keyword, rest, ?_, ?_, hkeyword, hname, hword⟩
    · rw [← htext, List.take_append_drop]
    · rw [List.length_take, Nat.min_eq_left hcolumn]
  · rintro ⟨before, keyword, rest, rfl, rfl, hkeyword, hname, hword⟩
    exact ⟨keyword, rest, List.drop_left, hkeyword, hname, hword⟩

theorem WritesUsage.name_unique (h : WritesUsage raw column name)
    (h' : WritesUsage raw column other) : name = other := by
  rw [← usageName?_drop_eq_some_iff] at h h'
  exact Option.some.inj (h.symm.trans h')

theorem toNat_lt_of_isWordChar {c : Char} (h : isWordChar c) : c.toNat < 0x80 := by
  simp only [isWordChar, Char.isAlphanum, Char.isAlpha, Char.isUpper, Char.isLower, Char.isDigit,
    Bool.or_eq_true, Bool.and_eq_true, decide_eq_true_eq, beq_iff_eq, UInt32.le_iff_toNat_le] at h
  rcases h with ((h | h) | h) | rfl
  · exact Nat.lt_of_le_of_lt h.2 (by decide)
  · exact Nat.lt_of_le_of_lt h.2 (by decide)
  · exact Nat.lt_of_le_of_lt h.2 (by decide)
  · decide

theorem WritesUsage.capitals_name (h : WritesUsage raw column name) :
    capitals name = name.map Char.toUpper := by
  obtain ⟨before, keyword, rest, -, -, -, -, hword⟩ := h
  exact capitals_of_forall_lt fun c hc => toNat_lt_of_isWordChar (hword c hc)

end Writing

/-- At `column` of this line, a specification that the format spans, a usage of `name` is written. -/
def Source.WritesUsageIn (s : Source) (f : Format) (line column : Nat) (name : Line) : Prop :=
  ∃ raw, f.containsLine line ∧ s.line? line = some raw ∧ isSpecification (normalize raw) ∧
    WritesUsage raw column name

section Reading

variable {s : Source} {f : Format} {line column : Nat} {name other : Line}

theorem Source.WritesUsageIn.name_unique (h : s.WritesUsageIn f line column name)
    (h' : s.WritesUsageIn f line column other) : name = other := by
  obtain ⟨raw, -, hraw, -, hwrites⟩ := h
  obtain ⟨raw', -, hraw', -, hwrites'⟩ := h'
  obtain rfl : raw = raw' := Option.some.inj (hraw.symm.trans hraw')
  exact hwrites.name_unique hwrites'

/-- The usages on the lines of a format are those that are written there. -/
theorem mem_used_rowsOf {u : Usage} :
    u ∈ used (s.rowsOf f) ↔
      ∃ line column name, s.WritesUsageIn f line column name ∧ u = .ofKeyword line column name := by
  rw [mem_used]
  constructor
  · rintro ⟨⟨text, line⟩, hrow, hu⟩
    obtain ⟨hmem, hline⟩ := Source.mem_rowsOf.1 hrow
    obtain ⟨raw, rfl, hs, hon⟩ := mem_usagesIn.1 hu
    obtain ⟨column, name, hname, he⟩ := mem_usagesOn.1 hon
    exact ⟨line, column, name, ⟨raw, hline, Source.line?_eq_some_iff.2 hmem, hs,
      usageName?_drop_eq_some_iff.1 hname⟩, he⟩
  · rintro ⟨line, column, name, ⟨raw, hline, hraw, hs, hwrites⟩, he⟩
    refine ⟨(some raw, line), Source.mem_rowsOf.2 ⟨Source.line?_eq_some_iff.1 hraw, hline⟩, ?_⟩
    refine mem_usagesIn.2 ⟨raw, rfl, hs, mem_usagesOn.2 ⟨column, name, ?_, he⟩⟩
    exact usageName?_drop_eq_some_iff.2 hwrites

/-- Names have ASCII characters only, so their capitals are those of ASCII. -/
theorem Source.WritesUsageIn.ofKeyword_eq (h : s.WritesUsageIn f line column name) :
    Usage.ofKeyword line column name =
      { name := name.map Char.toUpper
        span := .onLine line (column + 8) (column + 8 + name.length)
        target := .onLine line (column + 7) (column + 8 + name.length) } := by
  obtain ⟨raw, -, -, -, hwrites⟩ := h
  rw [Usage.ofKeyword, hwrites.capitals_name]

end Reading

namespace Format

variable {f : Format} {names : List Name}

theorem usages_readRow (f : Format) (row : Row) :
    (f.readRow row).usages = ((usagesIn row).foldl addUsage f).usages := by
  unfold readRow
  cases declarationIn? row with
  | none => rfl
  | some d => rfl

theorem keys_foldl_addUsage (h : f.usages.keys = names.eraseDups) (us : List Usage) :
    (us.foldl addUsage f).usages.keys = (names ++ us.map Usage.name).eraseDups := by
  induction us generalizing f names with
  | nil => simpa using h
  | cons u rest ih =>
    rw [List.foldl_cons, List.map_cons, ← List.singleton_append, ← List.append_assoc]
    exact ih (Table.keys_alter_of_eraseDups h u.name _)

/-- A format that reads rows files their usages under the names in order of first occurrence. -/
theorem keys_foldl_readRow (h : f.usages.keys = names.eraseDups) (rows : List Row) :
    (rows.foldl readRow f).usages.keys = (names ++ (used rows).map Usage.name).eraseDups := by
  induction rows generalizing f names with
  | nil => simpa [used] using h
  | cons row rest ih =>
    have hrow : (f.readRow row).usages.keys =
        (names ++ (usagesIn row).map Usage.name).eraseDups := by
      rw [usages_readRow]
      exact keys_foldl_addUsage h (usagesIn row)
    rw [List.foldl_cons, used, List.flatMap_cons, List.map_append, ← List.append_assoc]
    exact ih hrow

theorem Holds.usages_entry_eq_filter {ds : List Declaration} {us : List Usage} (h : f.Holds ds us)
    {name : Name} {filed : List Usage}
    (hentry : (name, filed) ∈ f.usages.entries) : filed = us.filter fun u => u.name = name := by
  rw [← h.usagesOf_eq, usagesOf, (Table.get?_eq_some_iff h.nodup_usages).2 hentry,
    Option.getD_some]

end Format

/-- A format with usages on every second line, two of them on one line behind a marker, a wide
character and a keyword without a name. Between them are an unreadable line and a comment. -/
def Source.scattered : Source where
  lines := [
    some "     A          R F DSPATR(&LOW)".toList,
    none,
    some "§|§  A ä dspatr(&dspatr(&high)DSPATR(&Low)".toList,
    some "     A* DSPATR(&HIGH)".toList,
    some "     A  DSPATR(&HIGH)".toList]

namespace Document

theorem usages_keys_of_mem {s : Source} {f : Format} (hf : f ∈ (ofSource s).formats) :
    f.usages.keys = ((used (s.rowsOf f)).map Usage.name).eraseDups := by
  obtain ⟨b, -, rfl, hrows⟩ := exists_block_of_mem hf
  have hopened : (Format.opened (formatName (normalize b.header)) b.start b.endLine).usages.keys =
      ([] : List Name).eraseDups := rfl
  rw [hrows]
  exact Format.keys_foldl_readRow hopened b.rows

/-- A format has one usage for each place at which one is written on its lines, and no others. Each
is filed under its name, and the names stand in the order of their first usages. -/
theorem usages_exactly_where_written (s : Source) {f : Format} (hf : f ∈ (ofSource s).formats) :
    (∀ u, u ∈ f.allUsages ↔ ∃ line column name, s.WritesUsageIn f line column name ∧
      u = { name := name.map Char.toUpper
            span := .onLine line (column + 8) (column + 8 + name.length)
            target := .onLine line (column + 7) (column + 8 + name.length) }) ∧
    f.allUsages.Nodup ∧
    (∀ line column name other, s.WritesUsageIn f line column name →
      s.WritesUsageIn f line column other → name = other) ∧
    f.usages.keys = ((sortByStart f.allUsages).map Usage.name).eraseDups ∧
    ∀ name filed, (name, filed) ∈ f.usages.entries → filed ≠ [] ∧ (∀ u ∈ filed, u.name = name) ∧
      filed.Pairwise fun u v => u.span.start < v.span.start := by
  have hholds := holds_of_mem hf
  have harranged := arranged_rowsOf s f
  have hkeys := usages_keys_of_mem hf
  refine ⟨?_, ?_, fun _ _ _ _ => Source.WritesUsageIn.name_unique, ?_, ?_⟩
  · intro u
    rw [hholds.mem_allUsages, mem_used_rowsOf]
    constructor
    · rintro ⟨line, column, name, hwrites, rfl⟩
      exact ⟨line, column, name, hwrites, hwrites.ofKeyword_eq⟩
    · rintro ⟨line, column, name, hwrites, rfl⟩
      exact ⟨line, column, name, hwrites, hwrites.ofKeyword_eq.symm⟩
  · rw [hholds.allUsages_perm.nodup_iff]
    exact harranged.nodup_usages
  · rw [hholds.sortByStart_allUsages harranged, hkeys]
  · intro name filed hentry
    have hfiled := hholds.usages_entry_eq_filter hentry
    have hname : name ∈ f.usages.keys := List.mem_map.2 ⟨_, hentry, rfl⟩
    rw [hkeys, List.mem_eraseDups, List.mem_map] at hname
    obtain ⟨u, hu, hun⟩ := hname
    rw [hfiled]
    refine ⟨List.ne_nil_of_mem (List.mem_filter.2 ⟨hu, by simpa using hun⟩), ?_, ?_⟩
    · intro v hv
      simpa using (List.mem_filter.1 hv).2
    · exact harranged.pairwise_span_start.sublist List.filter_sublist

theorem usages_exactly_where_written_scattered :
    ∃ f ∈ (ofSource .scattered).formats,
      Source.scattered.WritesUsageIn f 2 17 "high".toList ∧
      ⟨"HIGH".toList, .onLine 2 25 29, .onLine 2 24 29⟩ ∈ f.allUsages ∧
      f.allUsages.length = 4 ∧ f.allUsages.Nodup ∧
      f.usages.keys = ["LOW".toList, "HIGH".toList] ∧
      f.usages.keys = ((sortByStart f.allUsages).map Usage.name).eraseDups := by
  obtain ⟨f, hf, hline, hfour, hkeys⟩ : ∃ f ∈ (ofSource .scattered).formats, f.containsLine 2 ∧
      f.allUsages.length = 4 ∧ f.usages.keys = ["LOW".toList, "HIGH".toList] := by
    decide +kernel
  have hwrites : Source.scattered.WritesUsageIn f 2 17 "high".toList :=
    ⟨_, hline, rfl, by decide +kernel, "§|§  A ä dspatr(&".toList, "dspatr(&".toList,
      "DSPATR(&Low)".toList, by decide +kernel, by decide +kernel, by decide +kernel,
      by decide +kernel, List.all_eq_true.1 (by decide +kernel)⟩
  obtain ⟨hmem, hnodup, -, horder, -⟩ := usages_exactly_where_written .scattered hf
  exact ⟨f, hf, hwrites, (hmem _).2 ⟨2, 17, _, hwrites, by decide +kernel⟩, hfour, hnodup, hkeys,
    horder⟩

end Document

end DisplayFile
