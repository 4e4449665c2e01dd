import DisplayFile.Table

/-!
# What a table holds

The keys of a table built from the empty one are distinct. The value of a key is then the one entry
with that key, so a table answers alike in whatever order its entries stand. Replacing a value,
adding to a list kept as a value, or erasing a key keeps all else that the table holds.
-/

namespace DisplayFile.Table

variable {κ α : Type} [DecidableEq κ]

theorem nodup_keys_alter {t : Table κ α} (ht : t.keys.Nodup) (key : κ) (f : Option α → α) :
    (t.alter key f).keys.Nodup := by
  rw [keys_alter]
  by_cases hk : key ∈ t.keys
  · rw [if_pos hk]
    exact ht
  · rw [if_neg hk, List.nodup_append]
    refine ⟨ht, List.nodup_cons.2 ⟨List.not_mem_nil, List.nodup_nil⟩, ?_⟩
    intro k hmem k' hk'
    obtain rfl := List.mem_singleton.1 hk'
    exact fun he => hk (he ▸ hmem)

/-- The keys stay in the order in which they first came. -/
theorem keys_alter_of_eraseDups [BEq κ] [LawfulBEq κ] {t : Table κ α} {came : List κ}
    (h : t.keys = came.eraseDups) (key : κ) (f : Option α → α) :
    (t.alter key f).keys = (came ++ [key]).eraseDups := by
  rw [keys_alter, h, List.eraseDups_append]
  by_cases hkey : key ∈ came
  · rw [if_pos (List.mem_eraseDups.2 hkey)]
    simp [List.removeAll, hkey]
  · rw [if_neg (fun hmem => hkey (List.mem_eraseDups.1 hmem))]
    simp [List.removeAll, hkey, List.eraseDups_cons]

theorem nodup_keys_erase {t : Table κ α} (ht : t.keys.Nodup) (key : κ) :
    (t.erase key).keys.Nodup :=
  ht.sublist (List.filter_sublist.map Prod.fst)

theorem get?_erase (t : Table κ α) (key key' : κ) :
    (t.erase key).get? key' = if key' = key then none else t.get? key' := by
  obtain ⟨entries⟩ := t
  induction entries with
  | nil => simp [erase, get?]
  | cons e rest ih =>
    obtain ⟨k, a⟩ := e
    simp only [erase, get?, lookup_cons_ite] at ih ⊢
    by_cases hk : k = key
    · rw [List.filter_cons_of_neg (by simpa using hk), ih]
      by_cases hkey : key' = key <;> simp [hk, hkey]
    · rw [List.filter_cons_of_pos (by simpa using hk), lookup_cons_ite, ih]
      by_cases hkey : key' = k
      · simp [hkey, hk]
      · simp [hkey]

/-- In a table with distinct keys a key has the value of its only entry. -/
theorem get?_eq_some_iff {t : Table κ α} (ht : t.keys.Nodup) {key : κ} {a : α} :
    t.get? key = some a ↔ (key, a) ∈ t.entries := by
  obtain ⟨entries⟩ := t
  induction entries with
  | nil => simp [get?]
  | cons e rest ih =>
    obtain ⟨k, b⟩ := e
    obtain ⟨hk, hrest⟩ := List.nodup_cons.1 ht
    have ih := ih hrest
    simp only [get?, lookup_cons_ite, List.mem_cons, Prod.mk.injEq] at ih ⊢
    by_cases h : key = k
    · subst h
      have hnot : (key, a) ∉ rest := fun hmem => hk (List.mem_map.2 ⟨(key, a), hmem, rfl⟩)
      simp [hnot, eq_comm]
    · simp [h, ih]

theorem mem_values_iff {t : Table κ α} (ht : t.keys.Nodup) {a : α} :
    a ∈ t.values ↔ ∃ key, t.get? key = some a := by
  simp only [values, List.mem_map, get?_eq_some_iff ht, Prod.exists, exists_eq_right]

/-- The order of the entries does not matter to a table with distinct keys. -/
theorem get?_eq_of_perm {t t' : Table κ α} (ht : t.keys.Nodup)
    (h : t'.entries.Perm t.entries) (key : κ) : t'.get? key = t.get? key := by
  have ht' : t'.keys.Nodup := (h.map Prod.fst).nodup_iff.2 ht
  apply Option.ext
  intro a
  rw [get?_eq_some_iff ht, get?_eq_some_iff ht']
  exact h.mem_iff

/-- A value that is inserted joins those that were there, and only the former value of its key is
left out. -/
theorem values_insert_perm (t : Table κ α) (key : κ) (value : α) :
    ((t.insert key value).values ++ (t.get? key).toList).Perm (t.values ++ [value]) := by
  obtain ⟨entries⟩ := t
  induction entries with
  | nil => exact .refl _
  | cons e rest ih =>
    obtain ⟨k, b⟩ := e
    simp only [insert, alter, values, get?, alterEntries, lookup_cons_ite] at ih ⊢
    by_cases h : k = key
    · subst h
      simp only [↓reduceIte, List.map_cons, Option.toList_some, List.cons_append]
      have hleft : (value :: (rest.map Prod.snd ++ [b])).Perm (value :: b :: rest.map Prod.snd) :=
        (List.perm_append_singleton b _).cons value
      have hright : (b :: (rest.map Prod.snd ++ [value])).Perm (b :: value :: rest.map Prod.snd) :=
        (List.perm_append_singleton value _).cons b
      exact (hleft.trans (.swap b value _)).trans hright.symm
    · have hk : key ≠ k := fun e => h e.symm
      simp only [if_neg h, if_neg hk, List.map_cons, List.cons_append]
      exact ih.cons b

/-- An item put at the end of the list of its key joins the items of all lists. -/
theorem flatten_values_alter_perm {β : Type} (t : Table κ (List β)) (key : κ) (item : β) :
    (t.alter key fun before => before.getD [] ++ [item]).values.flatten.Perm
      (t.values.flatten ++ [item]) := by
  obtain ⟨entries⟩ := t
  induction entries with
  | nil => exact .refl _
  | cons e rest ih =>
    obtain ⟨k, items⟩ := e
    simp only [alter, values, alterEntries] at ih ⊢
    by_cases h : k = key
    · simp only [if_pos h, List.map_cons, List.flatten_cons, Option.getD_some, List.append_assoc]
      exact List.perm_append_comm.append_left items
    · simp only [if_neg h, List.map_cons, List.flatten_cons, List.append_assoc]
      exact ih.append_left items

end DisplayFile.Table
