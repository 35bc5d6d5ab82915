import Mathlib.Data.List.Basic
import SourceDoc.Tag.Table

namespace SourceDoc

/-- Adding a value changes the first one only if there was none. -/
theorem TagValue.first_push (v : TagValue) (value : Text) :
    (v.push value).first = v.first ∨ (v.push value).first = value := by
  cases v with
  | single existing => exact .inl rfl
  | list values =>
    cases values with
    | nil => exact .inr rfl
    | cons first values => exact .inl rfl

namespace TagTable

/-- Adding a value is seen under its own tag only. -/
theorem get?_insert (t : TagTable) (name value key : Text) :
    (t.insert name value).get? key =
      if key = name then some ((t.get? name).elim (.single value) (·.push value))
      else t.get? key :=
  Dictionary.lookup_update name (fun v : TagValue => v.push value) (.single value) t.entries key

theorem get?_set (t : TagTable) (name value key : Text) :
    (t.set name value).get? key = if key = name then some (.single value) else t.get? key := by
  rw [get?, set, Dictionary.lookup_put, get?]

/-- A value that is added becomes the first one only of a tag that had none. -/
theorem first?_insert {t : TagTable} {name value key first : Text}
    (h : (t.insert name value).first? key = some first) :
    t.first? key = some first ∨ key = name ∧ first = value := by
  rw [first?, get?_insert] at h
  split at h
  · rename_i hkey
    subst hkey
    rw [first?]
    cases hold : t.get? key with
    | none =>
      rw [hold] at h
      cases h
      exact .inr ⟨rfl, rfl⟩
    | some old =>
      rw [hold] at h
      cases h
      exact (old.first_push value).imp (fun hfirst => by simp [hfirst]) fun hfirst => ⟨rfl, hfirst⟩
  · exact .inl h

theorem first?_set (t : TagTable) (name value key : Text) :
    (t.set name value).first? key = if key = name then some value else t.first? key := by
  rw [first?, get?_set]
  split <;> rfl

/-- Adding a value puts it behind those of its tag, whether these were a list or not. -/
theorem values_insert (t : TagTable) (name value key : Text) :
    (t.insert name value).values key = t.values key ++ if key = name then [value] else [] := by
  rw [values, get?_insert]
  by_cases hkey : key = name
  · subst hkey
    rw [if_pos rfl, if_pos rfl, values]
    cases t.get? key with
    | none => rfl
    | some old => cases old <;> rfl
  · rw [if_neg hkey, if_neg hkey, List.append_nil, values]

theorem values_set_of_ne {t : TagTable} {name value key : Text} (hkey : key ≠ name) :
    (t.set name value).values key = t.values key := by
  rw [values, get?_set, if_neg hkey, values]

/-- Where each entry adds its value to its own tag only, a tag ends up with the values of its
    entries, in their order. -/
theorem values_foldl {σ : Type} (table : σ → TagTable) {add : σ → Text × Text → σ} {key : Text}
    (hadd : ∀ s entry, (table (add s entry)).values key =
      (table s).values key ++ if key = entry.1 then [entry.2] else [])
    (s : σ) (entries : List (Text × Text)) :
    (table (entries.foldl add s)).values key =
      (table s).values key ++ (entries.filter (·.1 = key)).map (·.2) := by
  induction entries generalizing s with
  | nil => exact (List.append_nil _).symm
  | cons entry entries ih =>
    rw [List.foldl_cons, ih, hadd, List.append_assoc]
    by_cases hkey : entry.1 = key
    · rw [if_pos hkey.symm, List.filter_cons_of_pos (by simpa using hkey)]
      rfl
    · rw [if_neg (Ne.symm hkey), List.filter_cons_of_neg (by simpa using hkey)]
      rfl

/-- A table to which entries are added one after the other. -/
def insertAll (t : TagTable) (entries : List (Text × Text)) : TagTable :=
  entries.foldl (fun t entry => t.insert entry.1 entry.2) t

/-- A tag that values are added to one after the other has them in their order. -/
theorem values_insertAll (t : TagTable) (entries : List (Text × Text)) (key : Text) :
    (t.insertAll entries).values key =
      t.values key ++ (entries.filter (·.1 = key)).map (·.2) :=
  values_foldl id (fun t entry => values_insert t entry.1 entry.2 key) t entries

theorem get?_insertAll_of_ne (t : TagTable) {entries : List (Text × Text)} {key : Text}
    (h : ∀ entry ∈ entries, entry.1 ≠ key) : (t.insertAll entries).get? key = t.get? key := by
  induction entries generalizing t with
  | nil => rfl
  | cons entry entries ih =>
    obtain ⟨hentry, hentries⟩ := List.forall_mem_cons.mp h
    rw [insertAll, List.foldl_cons, ← insertAll, ih _ hentries, get?_insert,
      if_neg (Ne.symm hentry)]

/-- Removing a tag leaves the others as they are. -/
theorem values_erase_of_ne {t : TagTable} {name key : Text} (hkey : key ≠ name) :
    (t.erase name).values key = t.values key := by
  have hlookup : (t.entries.eraseP (·.1 = name)).lookup key = t.entries.lookup key := by
    induction t.entries with
    | nil => rfl
    | cons entry entries ih =>
      obtain ⟨first, value⟩ := entry
      by_cases hfirst : first = name
      · rw [List.eraseP_cons_of_pos (by simpa using hfirst), Dictionary.lookup_cons_eq_ite,
          if_neg (hfirst ▸ hkey)]
      · rw [List.eraseP_cons_of_neg (by simpa using hfirst), Dictionary.lookup_cons_eq_ite,
          Dictionary.lookup_cons_eq_ite, ih]
  rw [values, get?, erase, hlookup, values, get?]

/-- A tag that is not there need not be removed. -/
theorem erase_of_get?_eq_none {t : TagTable} {name : Text} (h : t.get? name = none) :
    t.erase name = t := by
  have hentries : t.entries.eraseP (·.1 = name) = t.entries := by
    refine List.eraseP_of_forall_not ?_
    intro entry hentry hname
    have hne := List.lookup_eq_none_iff.mp h entry hentry
    simp at hname hne
    exact hne hname.symm
  rw [erase, hentries]

end TagTable

end SourceDoc
