import SourceDoc.Proofs.Tag.Names

namespace SourceDoc

/-- A value is a list only if there are several. -/
def TagValue.IsPromoted : TagValue → Prop
  | .single _ => True
  | .list values => 2 ≤ values.length

/-- Adding to a value makes it a list, of two values at least. -/
theorem TagValue.IsPromoted.push {v : TagValue} (h : v.IsPromoted) (value : Text) :
    (v.push value).IsPromoted := by
  cases v with
  | single existing => exact Nat.le_refl 2
  | list values =>
    have hlonger : values.length ≤ (values ++ [value]).length := by simp
    exact Nat.le_trans h hlonger

namespace TagTable

/-- The entries of all tags but one, in their order. -/
def others (t : TagTable) (name : Text) : List (Text × TagValue) :=
  t.entries.filter (·.1 ≠ name)

/-- Every value that is a list was promoted to it. -/
def IsPromoted (t : TagTable) : Prop :=
  ∀ entry ∈ t.entries, entry.2.IsPromoted

variable {t : TagTable} {name : Text}

/-- An update touches the entry of its own tag only. -/
theorem others_update (change : TagValue → TagValue) (new : TagValue)
    (entries : List (Text × TagValue)) :
    others ⟨Dictionary.update name change new entries⟩ name = others ⟨entries⟩ name := by
  rw [others, others, Dictionary.update]
  exact Keyed.filter_upsert_of_not (by exact fun _ h => decide_eq_false (not_not.mpr h))
    (by exact fun _ h => h) entries

theorem others_erase (t : TagTable) (name : Text) : (t.erase name).others name = t.others name := by
  rw [others, erase, others]
  induction t.entries with
  | nil => rfl
  | cons entry entries ih =>
    by_cases hkey : entry.1 = name
    · rw [List.eraseP_cons_of_pos (by simpa using hkey),
        List.filter_cons_of_neg (by simpa using hkey)]
    · rw [List.eraseP_cons_of_neg (by simpa using hkey),
        List.filter_cons_of_pos (by simpa using hkey),
        List.filter_cons_of_pos (by simpa using hkey), ih]

theorem names_erase (t : TagTable) (name : Text) : (t.erase name).names = t.names.erase name := by
  rw [names, erase, names]
  induction t.entries with
  | nil => rfl
  | cons entry entries ih =>
    by_cases hkey : entry.1 = name
    · rw [List.eraseP_cons_of_pos (by simpa using hkey), List.map_cons, hkey,
        List.erase_cons_head]
    · rw [List.eraseP_cons_of_neg (by simpa using hkey), List.map_cons, List.map_cons, ih,
        List.erase_cons_tail (by simpa using hkey)]

/-- A tag that is there once is gone when it is removed. -/
theorem contains_erase (ht : t.names.Nodup) (name : Text) : (t.erase name).contains name = false := by
  rw [contains_eq_false_iff, names_erase]
  exact ht.not_mem_erase

/-- From a table that has each tag once, the entries whose tags are absent are added in their
    order. -/
theorem entries_fillMissing_of_nodup (t : TagTable) {other : TagTable} (h : other.names.Nodup) :
    (t.fillMissing other).entries =
      t.entries ++ other.entries.filter fun entry => !t.contains entry.1 := by
  rw [entries_fillMissing]
  rw [names] at h
  generalize other.entries = more at h ⊢
  induction more using List.reverseRecOn with
  | nil => exact (List.append_nil _).symm
  | append_singleton more entry ih =>
    rw [List.map_append, List.map_singleton, ← List.concat_eq_append, List.nodup_concat] at h
    obtain ⟨hnew, hnodup⟩ := h
    -- the tag is not among those filled in before, so only the table itself can have it
    have hpresent : entry.1 ∈ (Keyed.addNew Prod.fst t.entries more).map Prod.fst ↔
        t.contains entry.1 = true := by
      rw [Keyed.mem_keys_addNew, ← Bool.not_eq_false, contains_eq_false_iff, not_not, names]
      exact or_iff_left hnew
    rw [Keyed.addNew_concat, List.filter_append, ← List.append_assoc, ← ih hnodup]
    by_cases hcontains : t.contains entry.1 = true
    · rw [if_pos (hpresent.mpr hcontains)]
      simp [hcontains]
    · rw [if_neg (mt hpresent.mp hcontains)]
      simp [hcontains]

/-- Updates keep lists to where there are several values, if what they write does. -/
theorem isPromoted_update {change : TagValue → TagValue} {new : TagValue}
    (hchange : ∀ v : TagValue, v.IsPromoted → (change v).IsPromoted) (hnew : new.IsPromoted)
    (ht : t.IsPromoted) : IsPromoted ⟨Dictionary.update name change new t.entries⟩ := by
  intro entry hentry
  rcases Keyed.mem_of_mem_upsert hentry with rfl | hold | ⟨old, hold, -, rfl⟩
  · exact hnew
  · exact ht entry hold
  · exact hchange old.2 (ht old hold)

/-- Lists stand only for several values in every table that the operations make, however often tags
    were removed and added again. -/
theorem Made.isPromoted (ht : t.Made) : t.IsPromoted := by
  induction ht with
  | empty => exact fun _ hentry => absurd hentry List.not_mem_nil
  | insert _ name value ih => exact isPromoted_update (fun _ h => h.push value) trivial ih
  | set _ name value ih => exact isPromoted_update (fun _ _ => trivial) trivial ih
  | erase _ name ih => exact fun entry hentry => ih entry (List.mem_of_mem_eraseP hentry)
  | @fillMissing t other _ hother ih ihother =>
    intro entry hentry
    rw [entries_fillMissing_of_nodup t hother.nodup_names] at hentry
    rcases List.mem_append.mp hentry with hentry | hentry
    · exact ih entry hentry
    · exact ihother entry (List.mem_of_mem_filter hentry)

theorem values_set (t : TagTable) (name value : Text) : (t.set name value).values name = [value] := by
  rw [values, get?_set, if_pos rfl]
  rfl

/-- Whatever history a table has, each tag is in it once and single until it repeats. Adding a value
    puts it behind the values of its tag, setting leaves that value alone, removing leaves none, and
    the entries of all other tags stay as they are and in their order. Filling in keeps the table
    and adds what it lacks. -/
theorem Made.updates_only_named (ht : t.Made) :
    (t.names.Nodup ∧ ∀ key values, (key, .list values) ∈ t.entries → 2 ≤ values.length) ∧
    (∀ name value, (t.insert name value).values name = t.values name ++ [value] ∧
      (t.insert name value).others name = t.others name) ∧
    (∀ name value, (t.set name value).values name = [value] ∧
      (t.set name value).others name = t.others name) ∧
    (∀ name, (t.erase name).contains name = false ∧ (t.erase name).others name = t.others name) ∧
    ∀ other : TagTable, other.Made → (t.fillMissing other).entries =
      t.entries ++ other.entries.filter fun entry => !t.contains entry.1 := by
  refine ⟨⟨ht.nodup_names, ?_⟩, ?_, ?_, ?_, ?_⟩
  · intro key values hentry
    exact ht.isPromoted _ hentry
  · intro name value
    refine ⟨?_, others_update _ _ t.entries⟩
    rw [values_insert, if_pos rfl]
  · intro name value
    exact ⟨values_set t name value, others_update _ _ t.entries⟩
  · intro name
    exact ⟨contains_erase ht.nodup_names name, others_erase t name⟩
  · intro other hother
    exact entries_fillMissing_of_nodup t hother.nodup_names

/-- A table in which one tag was set after values had been added, and another one removed and then
    added again. -/
def reworked : TagTable :=
  let documented := ((({} : TagTable).insert "see" "a").insert "see" "b").insert "param" "x"
  let changed := (documented.set "see" "c").erase "param"
  ((changed.insert "return" "y").insert "param" "z").insert "param" "w"

theorem Made.updates_only_named_reworked :
    reworked =
        ⟨[("see", .single "c"), ("return", .single "y"), ("param", .list ["z", "w"])]⟩ ∧
      reworked.names.Nodup ∧
      (reworked.insert "see" "d").values "see" = ["c", "d"] ∧
      (reworked.erase "return").contains "return" = false ∧
      (({} : TagTable).insert "param" "v").fillMissing reworked =
        ⟨[("param", .single "v"), ("see", .single "c"), ("return", .single "y")]⟩ := by
  have hmade : reworked.Made :=
    ((((((((Made.empty.insert _ _).insert _ _).insert _ _).set _ _).erase _).insert _ _).insert
      _ _).insert _ _)
  obtain ⟨⟨hnodup, -⟩, hinsert, -, herase, -⟩ := hmade.updates_only_named
  obtain ⟨-, -, -, -, hfill⟩ := (Made.empty.insert "param" "v").updates_only_named
  refine ⟨by decide, hnodup, ?_, (herase "return").1, ?_⟩
  · rw [(hinsert "see" "d").1]
    decide
  · refine congrArg TagTable.mk ((hfill reworked hmade).trans ?_)
    decide

end TagTable

end SourceDoc
