import SourceDoc.Module.Merge
import SourceDoc.Proofs.Keyed

namespace SourceDoc.ModuleDraft

/-- The items of all modules of a name, in order. -/
def itemsNamed (name : Text) (ms : List ModuleDraft) : List Item :=
  (ms.filter (·.name = name)).flatMap (·.items)

@[simp] theorem itemsNamed_nil (name : Text) : itemsNamed name [] = [] := rfl

theorem itemsNamed_cons (name : Text) (m : ModuleDraft) (ms : List ModuleDraft) :
    itemsNamed name (m :: ms) = (if m.name = name then m.items else []) ++ itemsNamed name ms := by
  by_cases hname : m.name = name <;> simp [itemsNamed, hname]

theorem itemsNamed_append (name : Text) (ms others : List ModuleDraft) :
    itemsNamed name (ms ++ others) = itemsNamed name ms ++ itemsNamed name others := by
  simp [itemsNamed]

theorem itemsNamed_flatMap {α : Type} (name : Text) (xs : List α) (f : α → List ModuleDraft) :
    itemsNamed name (xs.flatMap f) = xs.flatMap fun x => itemsNamed name (f x) := by
  induction xs with
  | nil => rfl
  | cons x xs ih => rw [List.flatMap_cons, itemsNamed_append, ih, List.flatMap_cons]

theorem itemsNamed_of_not_mem {name : Text} {ms : List ModuleDraft}
    (hname : name ∉ ms.map (·.name)) : itemsNamed name ms = [] := by
  have hnone : ms.filter (·.name = name) = [] := by
    rw [List.filter_eq_nil_iff]
    intro m hm heq
    exact hname (List.mem_map.mpr ⟨m, hm, by simpa using heq⟩)
  rw [itemsNamed, hnone, List.flatMap_nil]

/-- A change of the items of each module, given its name, is a change of the items under each
    name. -/
theorem itemsNamed_map (change : Text → List Item → List Item) (hnil : ∀ name, change name [] = [])
    (happend : ∀ name xs ys, change name (xs ++ ys) = change name xs ++ change name ys)
    (name : Text) (ms : List ModuleDraft) :
    itemsNamed name (ms.map fun m => { m with items := change m.name m.items }) =
      change name (itemsNamed name ms) := by
  induction ms with
  | nil => simp [hnil]
  | cons m ms ih =>
    rw [List.map_cons, itemsNamed_cons, itemsNamed_cons, ih, happend]
    by_cases hname : m.name = name
    · simp [hname]
    · simp [hname, hnil]

theorem mergeInto_cons (m first : ModuleDraft) (rest : List ModuleDraft) :
    mergeInto m (first :: rest) =
      if first.name = m.name then first.absorb m :: rest else first :: mergeInto m rest :=
  rfl

/-- Adding a module keeps the names and their order; a new name comes last. -/
theorem names_mergeInto (m : ModuleDraft) (ms : List ModuleDraft) :
    (mergeInto m ms).map (·.name) =
      if m.name ∈ ms.map (·.name) then ms.map (·.name) else ms.map (·.name) ++ [m.name] :=
  Keyed.map_key_upsert (by exact fun _ h => h) ms

/-- A module that is added to modules of distinct names puts its items behind those of its name. -/
theorem itemsNamed_mergeInto (name : Text) (m : ModuleDraft) {ms : List ModuleDraft}
    (hnodup : (ms.map (·.name)).Nodup) :
    itemsNamed name (mergeInto m ms) = itemsNamed name ms ++ itemsNamed name [m] := by
  induction ms with
  | nil => rfl
  | cons first rest ih =>
    obtain ⟨hnew, hnodup⟩ := List.nodup_cons.mp hnodup
    rw [mergeInto_cons]
    by_cases hsame : first.name = m.name
    · rw [if_pos hsame]
      by_cases hname : first.name = name
      · have hrest : itemsNamed name rest = [] := itemsNamed_of_not_mem (hname ▸ hnew)
        have hm : m.name = name := hsame.symm.trans hname
        simp [itemsNamed_cons, absorb, hname, hm, hrest]
      · have hm : ¬ m.name = name := fun h => hname (hsame.trans h)
        simp [itemsNamed_cons, absorb, hname, hm]
    · rw [if_neg hsame, itemsNamed_cons, itemsNamed_cons, ih hnodup, List.append_assoc]

/-- Modules are merged one after the other. What holds of merged modules follows by induction from
    the last one. -/
theorem merge_concat (ms : List ModuleDraft) (m : ModuleDraft) :
    merge (ms ++ [m]) = mergeInto m (merge ms) := by
  simp [merge, List.foldl_append]

/-- Merged modules have distinct names, whatever the names of the modules were. -/
theorem nodup_names_merge (ms : List ModuleDraft) : ((merge ms).map (·.name)).Nodup := by
  induction ms using List.reverseRecOn with
  | nil => exact List.nodup_nil
  | append_singleton ms m ih =>
    rw [merge_concat]
    exact Keyed.nodup_map_key_upsert (by exact fun _ h => h) ih

/-- Merging leaves each name once, where it first appears. -/
theorem names_merge (ms : List ModuleDraft) :
    (merge ms).map (·.name) = (ms.map (·.name)).eraseDups := by
  induction ms using List.reverseRecOn with
  | nil => rfl
  | append_singleton ms m ih =>
    rw [merge_concat, names_mergeInto, ih, List.map_append, List.map_singleton,
      Keyed.eraseDups_concat]
    simp only [List.mem_eraseDups]

/-- Merging neither loses nor moves an item: each name keeps the items declared under it. -/
theorem itemsNamed_merge (name : Text) (ms : List ModuleDraft) :
    itemsNamed name (merge ms) = itemsNamed name ms := by
  induction ms using List.reverseRecOn with
  | nil => rfl
  | append_singleton ms m ih =>
    rw [merge_concat, itemsNamed_mergeInto name m (nodup_names_merge ms), ih, itemsNamed_append]

end SourceDoc.ModuleDraft
