import SourceDoc.Proofs.Project.Placement

namespace SourceDoc

/-- A module keeps its kind when another one is absorbed. -/
theorem ModuleDraft.kind_of_mem_mergeInto {m found : ModuleDraft} {ms : List ModuleDraft}
    (h : found ∈ mergeInto m ms) : found.kind ∈ (m :: ms).map (·.kind) := by
  rcases Keyed.mem_of_mem_upsert h with rfl | hold | ⟨old, hold, -, rfl⟩
  · exact List.mem_cons_self
  · exact List.mem_cons_of_mem _ (List.mem_map_of_mem hold)
  · have hkind : old.kind ∈ ms.map (·.kind) := List.mem_map_of_mem hold
    exact List.mem_cons_of_mem _ hkind

/-- Merging makes up no kinds. -/
theorem ModuleDraft.kind_of_mem_merge {found : ModuleDraft} {ms : List ModuleDraft}
    (h : found ∈ merge ms) : found.kind ∈ ms.map (·.kind) := by
  induction ms using List.reverseRecOn generalizing found with
  | nil => cases h
  | append_singleton ms m ih =>
    rw [merge_concat] at h
    rw [List.map_append, List.mem_append]
    rcases List.mem_cons.mp (kind_of_mem_mergeInto h) with hnew | hold
    · exact .inr (List.mem_singleton.mpr hnew)
    · obtain ⟨merged, hmerged, hkind⟩ := List.mem_map.mp hold
      exact .inl (hkind ▸ ih hmerged)

namespace SourceFile

variable {f : SourceFile} {kinds : KindList} {options : ProjectOptions}

/-- A module that a file goes on to open is of a registered kind, since only such items open one. -/
theorem kind_of_mem_discoverFrom {current m : ModuleDraft} {renamable : Bool} {items : List Item}
    (h : m ∈ discoverFrom f kinds options current renamable items) :
    m.kind = current.kind ∨ kinds.contains m.kind = true := by
  induction items generalizing current renamable with
  | nil =>
    rw [discoverFrom, List.mem_singleton] at h
    exact .inl (h ▸ rfl)
  | cons item items ih =>
    rw [discoverFrom] at h
    split at h
    · rename_i hkind
      split at h
      · rcases ih h with hrenamed | hkinds
        · have hitem : m.kind = item.kind := hrenamed
          exact .inr (hitem ▸ hkind)
        · exact .inr hkinds
      · rcases List.mem_cons.mp h with rfl | h
        · exact .inl rfl
        · rcases ih h with hopened | hkinds
          · have hitem : m.kind = item.kind := hopened
            exact .inr (hitem ▸ hkind)
          · exact .inr hkinds
    · rcases ih h with hadded | hkinds
      · exact .inl hadded
      · exact .inr hkinds

/-- A module found in a file is of the kind of the item that opens it, or its name and kind are
    inferred. -/
theorem kind_of_mem_discover {m : ModuleDraft} (h : m ∈ f.discover kinds options) :
    m.kind = Kind.moduleId ∨ kinds.contains m.kind = true := by
  unfold discover at h
  split at h
  · cases h
  · rename_i item items hitems
    split at h
    · rename_i hkind
      rcases kind_of_mem_discoverFrom h with hopened | hkinds
      · have hitem : m.kind = item.kind := hopened
        exact .inr (hitem ▸ hkind)
      · exact .inr hkinds
    · exact kind_of_mem_discoverFrom h

end SourceFile

namespace Project

variable {files : List SourceFile} {itemKinds moduleKinds : KindList} {options : ProjectOptions}

/-- The kinds of modules are no reason to fail: they are registered, if that of inferred modules
    is. -/
theorem contains_kind_of_mem_shown (hmodule : moduleKinds.contains Kind.moduleId = true)
    {m : ModuleDraft} (hm : m ∈ shown files moduleKinds options) :
    moduleKinds.contains m.kind = true := by
  rw [shown_eq_map_filter] at hm
  obtain ⟨merged, hmerged, rfl⟩ := List.mem_map.mp hm
  obtain ⟨draft, hdraft, hkind⟩ := List.mem_map.mp (ModuleDraft.kind_of_mem_merge hmerged)
  obtain ⟨f, -, hfound⟩ := List.mem_flatMap.mp hdraft
  change moduleKinds.contains merged.kind = true
  rw [← hkind]
  rcases SourceFile.kind_of_mem_discover hfound with hinferred | hkinds
  · rw [hinferred, hmodule]
  · exact hkinds

/-- An item that is shown comes from a file and is of no module kind. -/
theorem exists_source_of_mem_shown {m : ModuleDraft} (hm : m ∈ shown files moduleKinds options)
    {item : Item} (hitem : item ∈ m.items) :
    ∃ f ∈ files, ∃ source ∈ f.items, moduleKinds.contains source.kind = false ∧
      item = SourceFile.shortened m.name source := by
  have hnamed : item ∈ ModuleDraft.itemsNamed m.name (shown files moduleKinds options) :=
    List.mem_flatMap.mpr ⟨m, List.mem_filter.mpr ⟨hm, by simp⟩, hitem⟩
  rw [itemsNamed_shown] at hnamed
  obtain ⟨source, hsource, rfl⟩ := List.mem_map.mp hnamed
  obtain ⟨f, hf, howned⟩ := List.mem_flatMap.mp (List.mem_filter.mp hsource).1
  obtain ⟨⟨owned, i⟩, hzip, rfl⟩ := List.mem_map.mp howned
  obtain ⟨hmem, howner⟩ := List.mem_filter.mp hzip
  have hkind : moduleKinds.contains owned.kind = false := by
    simpa using (Bool.and_eq_true_iff.mp howner).1
  exact ⟨f, hf, owned, (List.mem_zipIdx' hmem).2 ▸ List.getElem_mem _, hkind, rfl⟩

/-- Where inferred modules have a registered kind, a project fails only over an item of a file whose
    class is neither a kind of items nor a kind of modules, and it fails at the place of that
    item. -/
theorem source_of_assemble_eq_error (hmodule : moduleKinds.contains Kind.moduleId = true)
    {e : Failure} (hp : assemble files itemKinds moduleKinds options = .error e) :
    ∃ f ∈ files, ∃ item ∈ f.items, moduleKinds.contains item.kind = false ∧
      itemKinds.contains item.kind = false ∧
      e = .unknownKind itemKinds.group item.kind item.file item.line := by
  rw [assemble, bind_eq_error_iff] at hp
  rcases hp with hitems | ⟨modules, hmodules, hp⟩
  · obtain ⟨linked, hlinked, herror⟩ := exists_of_mapM_eq_error hitems
    obtain ⟨item, hitem, hkind, rfl⟩ := KindList.exists_of_groupBy_map_eq_error herror
    obtain ⟨m, hm, rfl⟩ := List.mem_map.mp hlinked
    obtain ⟨shownItem, hshown, rfl⟩ := List.mem_map.mp hitem
    obtain ⟨f, hf, source, hsource, hnotModule, rfl⟩ := exists_source_of_mem_shown hm hshown
    exact ⟨f, hf, source, hsource, hnotModule, hkind, rfl⟩
  · rcases bind_eq_error_iff.mp hp with hindex | ⟨index, -, hreturn⟩
    · obtain ⟨-, rfl⟩ := (mapM_eq_ok_iff (Module.ofDraft_eq_ok_iff itemKinds)).mp hmodules
      have hall : ∀ m ∈ linked itemKinds (shown files moduleKinds options),
          moduleKinds.contains m.kind = true := by
        intro m hm
        obtain ⟨draft, hdraft, rfl⟩ := List.mem_map.mp hm
        obtain ⟨source, hsource, rfl⟩ := List.mem_map.mp hdraft
        exact contains_kind_of_mem_shown hmodule hsource
      have hok := IndexSection.ofModules_eq_ok_iff.mpr ⟨hall, rfl⟩
      rw [linked] at hok
      rw [hok] at hindex
      cases hindex
    · cases hreturn

end Project

end SourceDoc
