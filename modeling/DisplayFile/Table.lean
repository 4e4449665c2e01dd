/-!
# Tables in order of arrival

A table holds one value for each of its keys, in the order in which the keys came. A value that is
replaced keeps its place.
-/

namespace DisplayFile

structure Table (κ α : Type) where
  entries : List (κ × α)
deriving DecidableEq

namespace Table

variable {κ α : Type} [DecidableEq κ]

def empty : Table κ α := ⟨[]⟩

def keys (t : Table κ α) : List κ := t.entries.map Prod.fst

def values (t : Table κ α) : List α := t.entries.map Prod.snd

def get? (t : Table κ α) (key : κ) : Option α := t.entries.lookup key

def alterEntries (key : κ) (f : Option α → α) : List (κ × α) → List (κ × α)
  | [] => [(key, f none)]
  | (k, a) :: rest =>
    if k = key then (k, f (some a)) :: rest else (k, a) :: alterEntries key f rest

/-- Replaces the value of a key by `f` of it; a key that is not there comes last, with `f none`. -/
def alter (t : Table κ α) (key : κ) (f : Option α → α) : Table κ α :=
  ⟨alterEntries key f t.entries⟩

def insert (t : Table κ α) (key : κ) (value : α) : Table κ α := t.alter key fun _ => value

def erase (t : Table κ α) (key : κ) : Table κ α := ⟨t.entries.filter fun e => e.1 ≠ key⟩

theorem lookup_cons_ite (key k : κ) (a : α) (rest : List (κ × α)) :
    ((k, a) :: rest).lookup key = if key = k then some a else rest.lookup key := by
  by_cases h : key = k
  · simp [h]
  · simp [List.lookup_cons, h, beq_eq_false_iff_ne.2 h]

theorem lookup_alterEntries (key key' : κ) (f : Option α → α) (entries : List (κ × α)) :
    (alterEntries key f entries).lookup key' =
      if key' = key then some (f (entries.lookup key)) else entries.lookup key' := by
  induction entries with
  | nil => simp [alterEntries, lookup_cons_ite]
  | cons e rest ih =>
    obtain ⟨k, a⟩ := e
    by_cases h : k = key
    · subst h
      by_cases h' : key' = k <;> simp [alterEntries, lookup_cons_ite, h']
    · have hk : key ≠ k := fun e => h e.symm
      simp only [alterEntries, if_neg h, lookup_cons_ite, ih, if_neg hk]
      by_cases h' : key' = k
      · simp [h', h]
      · simp [h']

theorem get?_alter (t : Table κ α) (key key' : κ) (f : Option α → α) :
    (t.alter key f).get? key' = if key' = key then some (f (t.get? key)) else t.get? key' :=
  lookup_alterEntries key key' f t.entries

theorem get?_insert (t : Table κ α) (key key' : κ) (value : α) :
    (t.insert key value).get? key' = if key' = key then some value else t.get? key' :=
  get?_alter t key key' _

theorem keys_alterEntries (key : κ) (f : Option α → α) (entries : List (κ × α)) :
    (alterEntries key f entries).map Prod.fst =
      if key ∈ entries.map Prod.fst then entries.map Prod.fst
      else entries.map Prod.fst ++ [key] := by
  induction entries with
  | nil => simp [alterEntries]
  | cons e rest ih =>
    obtain ⟨k, a⟩ := e
    by_cases h : k = key
    · simp [alterEntries, h]
    · have hk : key ≠ k := fun e => h e.symm
      simp only [alterEntries, if_neg h, List.map_cons, ih, List.mem_cons, hk, false_or]
      split <;> simp

/-- A new key comes last; all other keys keep their places. -/
theorem keys_alter (t : Table κ α) (key : κ) (f : Option α → α) :
    (t.alter key f).keys = if key ∈ t.keys then t.keys else t.keys ++ [key] :=
  keys_alterEntries key f t.entries

end Table

end DisplayFile
