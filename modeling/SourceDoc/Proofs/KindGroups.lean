import Mathlib.Data.List.Perm.Basic
import SourceDoc.Proofs.Except
import SourceDoc.Proofs.KindList

namespace SourceDoc

/-- Grouping by distinct keys that cover all entries rearranges the entries. -/
theorem flatMap_filter_key_perm {α : Type} (key : α → Text) {keys : List Text}
    (hnodup : keys.Nodup) (entries : List α) (hcover : ∀ e ∈ entries, key e ∈ keys) :
    (keys.flatMap fun k => entries.filter (key · = k)).Perm entries := by
  induction keys generalizing entries with
  | nil =>
    cases entries with
    | nil => exact .nil
    | cons e entries => exact absurd (hcover e List.mem_cons_self) List.not_mem_nil
  | cons k keys ih =>
    obtain ⟨hnew, hnodup⟩ := List.nodup_cons.mp hnodup
    have hrest : (keys.flatMap fun other => entries.filter (key · = other)) =
        keys.flatMap fun other => (entries.filter fun e => !decide (key e = k)).filter
          (key · = other) := by
      apply List.flatMap_congr
      intro other hother
      rw [List.filter_filter]
      apply List.filter_congr
      intro e _
      by_cases hkey : key e = other
      · have hne : ¬ key e = k := fun h => hnew (h ▸ hkey ▸ hother)
        simp [hne]
      · simp [hkey]
    have hcover' : ∀ e ∈ entries.filter (fun e => !decide (key e = k)), key e ∈ keys := by
      intro e he
      obtain ⟨he, hne⟩ := List.mem_filter.mp he
      rcases List.mem_cons.mp (hcover e he) with hk | hother
      · simp [hk] at hne
      · exact hother
    rw [List.flatMap_cons, hrest]
    exact ((ih hnodup _ hcover').append_left _).trans (List.filter_append_perm _ entries)

namespace KindList

variable {α : Type} {l : KindList} {key : α → Text} {entries : List α}

/-- What a group is: a kind of the list with all entries under its id, in their order. A kind
    without entries has no group. -/
theorem mem_groups_iff {group : Kind × List α} :
    group ∈ l.groups key entries ↔
      group.2 ≠ [] ∧ group.1 ∈ l.kinds ∧ group.2 = entries.filter (key · = group.1.id) := by
  rw [groups, List.mem_filter, List.mem_map, and_comm]
  refine and_congr (by simp) ?_
  constructor
  · rintro ⟨kind, hkind, rfl⟩
    exact ⟨hkind, rfl⟩
  · rintro ⟨hkind, hfound⟩
    exact ⟨group.1, hkind, Prod.ext rfl hfound.symm⟩

/-- Every kind of an entry has its group. -/
theorem exists_mem_groups {e : α} (he : e ∈ entries) (hkind : l.contains (key e) = true) :
    ∃ group ∈ l.groups key entries, group.1.id = key e ∧ e ∈ group.2 := by
  obtain ⟨kind, hmem, hid⟩ := (l.contains_iff (key e)).mp hkind
  have hfound : e ∈ entries.filter (key · = kind.id) := List.mem_filter.mpr ⟨he, by simp [hid]⟩
  exact ⟨(kind, _), mem_groups_iff.mpr ⟨List.ne_nil_of_mem hfound, hmem, rfl⟩, hid, hfound⟩

/-- Groups stand in the order in which their kinds were registered. -/
theorem ids_groups_sublist (l : KindList) (key : α → Text) (entries : List α) :
    ((l.groups key entries).map (·.1.id)).Sublist (l.kinds.map (·.id)) := by
  have hsublist := (List.filter_sublist (p := (!·.2.isEmpty))
    (l := l.kinds.map fun kind => (kind, entries.filter (key · = kind.id)))).map (·.1.id)
  rwa [List.map_map] at hsublist

/-- No two groups are of one id, so a group can be referred to by it. -/
theorem Registered.nodup_ids_groups (hl : l.Registered) (key : α → Text) (entries : List α) :
    ((l.groups key entries).map (·.1.id)).Nodup :=
  (l.ids_groups_sublist key entries).nodup hl.nodup_ids

theorem flatMap_filter_nonempty (gs : List (Kind × List α)) :
    (gs.filter (!·.2.isEmpty)).flatMap (·.2) = gs.flatMap (·.2) := by
  induction gs with
  | nil => rfl
  | cons g gs ih =>
    obtain ⟨kind, found⟩ := g
    cases found with
    | nil => exact ih
    | cons e found => exact congrArg (e :: found ++ ·) ih

/-- The entries of all groups. Kinds without entries may be counted in, since they add none. -/
theorem flatMap_groups (l : KindList) (key : α → Text) (entries : List α) :
    (l.groups key entries).flatMap (·.2) =
      l.kinds.flatMap fun kind => entries.filter (key · = kind.id) := by
  rw [groups, flatMap_filter_nonempty, List.flatMap_map]

/-- The groups rearrange the entries: none is lost and none is in two groups. -/
theorem flatMap_groups_perm (hl : l.Registered) (hall : ∀ e ∈ entries, l.contains (key e) = true) :
    ((l.groups key entries).flatMap (·.2)).Perm entries := by
  have hcover : ∀ e ∈ entries, key e ∈ l.kinds.map (·.id) :=
    fun e he => (l.contains_iff_mem_ids (key e)).mp (hall e he)
  have hperm := flatMap_filter_key_perm key hl.nodup_ids entries hcover
  rwa [List.flatMap_map, ← flatMap_groups] at hperm

/-- The entries of a kind are in its group, in their order, and in no other. -/
theorem flatMap_groups_of_id (hl : l.Registered)
    (hall : ∀ e ∈ entries, l.contains (key e) = true) (id : Text) :
    ((l.groups key entries).filter (·.1.id = id)).flatMap (·.2) = entries.filter (key · = id) := by
  rw [groups, List.filter_comm, flatMap_filter_nonempty, List.filter_map, List.flatMap_map]
  by_cases hid : l.contains id = true
  · obtain ⟨kind, hmem, rfl⟩ := (l.contains_iff id).mp hid
    change (l.kinds.filter (·.id = kind.id)).flatMap _ = _
    rw [hl.filter_id_eq hmem, List.flatMap_singleton]
  · have hnone : entries.filter (key · = id) = [] := by
      rw [List.filter_eq_nil_iff]
      intro e he hkey
      exact hid (of_decide_eq_true hkey ▸ hall e he)
    have hnoKind : l.kinds.filter (·.id = id) = [] := by
      rw [List.filter_eq_nil_iff]
      intro kind hkind hkindId
      exact hid ((l.contains_iff id).mpr ⟨kind, hkind, of_decide_eq_true hkindId⟩)
    change (l.kinds.filter (·.id = id)).flatMap _ = _
    rw [hnone, hnoKind, List.flatMap_nil]

/-- A change that keeps the kinds of entries can be made before they are grouped or after it. -/
theorem groups_map (l : KindList) (key : α → Text) (change : α → α)
    (hkey : ∀ a, key (change a) = key a) (entries : List α) :
    l.groups key (entries.map change) =
      (l.groups key entries).map fun group => (group.1, group.2.map change) := by
  have hfilter (id : Text) : (entries.map change).filter (key · = id) =
      (entries.filter (key · = id)).map change := by
    simp [List.filter_map, Function.comp_def, hkey]
  simp only [groups, hfilter, List.filter_map, List.map_map, Function.comp_def, List.isEmpty_map]

/-- Entries can be left out before they are grouped or after it, but for groups that have no entries
    left. -/
theorem groups_filter (keep : α → Bool) (l : KindList) (key : α → Text) (entries : List α) :
    l.groups key (entries.filter keep) =
      ((l.groups key entries).map fun group => (group.1, group.2.filter keep)).filter
        (!·.2.isEmpty) := by
  have hfilter (id : Text) : (entries.filter keep).filter (key · = id) =
      (entries.filter (key · = id)).filter keep := List.filter_comm ..
  have hempty (found : List α) : (!(found.filter keep).isEmpty && !found.isEmpty) =
      !(found.filter keep).isEmpty := by
    cases found <;> simp
  simp only [groups, hfilter, List.filter_map, List.map_map, Function.comp_def]
  rw [List.filter_filter]
  simp only [hempty]

/-- Entries can be grouped if their kinds are all registered. -/
theorem groupBy_map_eq_ok_iff {place : α → Path × Nat} {β : Type}
    {f : List (Kind × List α) → β} {b : β} :
    (do return f (← l.groupBy key place entries)) = Except.ok b ↔
      (∀ e ∈ entries, l.contains (key e) = true) ∧ b = f (l.groups key entries) := by
  have hall : (entries.find? fun e => !l.contains (key e)) = none ↔
      ∀ e ∈ entries, l.contains (key e) = true := by simp
  rw [← hall, groupBy]
  cases entries.find? fun e => !l.contains (key e) with
  | some e => simp [bind, Except.bind]
  | none => simp [bind, Except.bind, pure, Except.pure, eq_comm]

/-- Grouping fails at the place of an entry whose kind is not registered. -/
theorem exists_of_groupBy_map_eq_error {place : α → Path × Nat} {β : Type}
    {f : List (Kind × List α) → β} {failure : Failure}
    (h : (do return f (← l.groupBy key place entries)) = Except.error failure) :
    ∃ e ∈ entries, l.contains (key e) = false ∧
      failure = .unknownKind l.group (key e) (place e).1 (place e).2 := by
  unfold groupBy at h
  split at h
  · rename_i e hfind
    cases h
    exact ⟨e, List.mem_of_find?_eq_some hfind, by simpa using List.find?_some hfind, rfl⟩
  · cases h

end KindList

end SourceDoc
