import SourceDoc.Proofs.Project.Placement

namespace SourceDoc

namespace KindList

/-- Whether the first of two ids is registered, and the second one at a later position. -/
def Before (l : KindList) (id other : Text) : Prop :=
  ∃ i j, l.position? id = some i ∧ l.position? other = some j ∧ i < j

variable {l : KindList}

/-- Each kind is found under its id. -/
theorem Registered.get?_id (hl : l.Registered) {kind : Kind} (hmem : kind ∈ l.kinds) :
    l.get? kind.id = some kind := by
  rw [get?, ← List.head?_filter, hl.filter_id_eq hmem]
  rfl

theorem Registered.position?_getElem (hl : l.Registered) {i : Nat} (hi : i < l.kinds.length) :
    l.position? (l.kinds[i].id) = some i := by
  rw [position?, List.findIdx?_eq_some_iff_getElem]
  refine ⟨hi, by simp, ?_⟩
  intro j hj hid
  have hids : (l.kinds.map (·.id))[j]? = (l.kinds.map (·.id))[i]? := by
    have hj' : j < l.kinds.length := Nat.lt_trans hj hi
    simp only [List.getElem?_map, List.getElem?_eq_getElem hi, List.getElem?_eq_getElem hj']
    simpa using hid
  have hlt : j < (l.kinds.map (·.id)).length := by simpa using Nat.lt_trans hj hi
  have heq := (List.getElem?_inj hlt hl.nodup_ids).mp hids
  omega

/-- The ids of registered kinds are listed in the order of their positions. -/
theorem Registered.pairwise_before (hl : l.Registered) :
    (l.kinds.map (·.id)).Pairwise l.Before := by
  rw [List.pairwise_map, List.pairwise_iff_getElem]
  intro i j hi hj hij
  exact ⟨i, j, hl.position?_getElem hi, hl.position?_getElem hj, hij⟩

theorem Registered.ordered_ids_groups {α : Type} (hl : l.Registered) (key : α → Text)
    (entries : List α) : ((l.groups key entries).map (·.1.id)).Pairwise l.Before :=
  hl.pairwise_before.sublist (l.ids_groups_sublist key entries)

end KindList

/-- A module whose sections are groups of its items by kind: none is empty, no kind has two of them,
    and they stand in the order in which the kinds are registered. -/
structure Module.GroupedBy (kinds : KindList) (m : Module) : Prop where
  nonempty : ∀ s ∈ m.sections, s.items ≠ []
  distinct : (m.sections.map (·.kind)).Nodup
  ordered : (m.sections.map (·.kind)).Pairwise kinds.Before
  titles : ∀ s ∈ m.sections, kinds.get? s.kind = some ⟨s.kind, s.title, s.childTitle⟩
  items : ∀ s ∈ m.sections, ∀ item ∈ s.items, item.kind = s.kind

/-- A project whose index is made of groups of its modules by kind. -/
structure Project.IndexedBy (kinds : KindList) (p : Project) : Prop where
  nonempty : ∀ s ∈ p.index, s.modules ≠ []
  distinct : (p.index.map (·.kind)).Nodup
  ordered : (p.index.map (·.kind)).Pairwise kinds.Before
  titles : ∀ s ∈ p.index, ∃ childTitle, kinds.get? s.kind = some ⟨s.kind, s.title, childTitle⟩
  /-- A section names the modules of its kind in the order of the project. -/
  modules : ∀ s ∈ p.index, s.modules = (p.modules.filter (·.kind = s.kind)).map (·.name)
  listed : ∀ m ∈ p.modules, ∃ s ∈ p.index, s.kind = m.kind ∧ m.name ∈ s.modules
  once : ∀ m ∈ p.modules, (p.index.flatMap (·.modules)).count m.name = 1

/-- Grouping gives the sections of a module this shape, whatever its items are. -/
theorem Module.groupedBy_grouped {kinds : KindList} (hkinds : kinds.Registered) (m : ModuleDraft) :
    (grouped kinds m).GroupedBy kinds where
  nonempty := List.forall_mem_map.mpr fun _ hgroup => (KindList.mem_groups_iff.mp hgroup).1
  distinct := by
    rw [grouped, List.map_map]
    exact hkinds.nodup_ids_groups Item.kind m.items
  ordered := by
    rw [grouped, List.map_map]
    exact hkinds.ordered_ids_groups Item.kind m.items
  titles := List.forall_mem_map.mpr fun _ hgroup =>
    hkinds.get?_id (KindList.mem_groups_iff.mp hgroup).2.1
  items := by
    refine List.forall_mem_map.mpr fun group hgroup item hitem => ?_
    rw [Section.ofGroup, (KindList.mem_groups_iff.mp hgroup).2.2] at hitem
    exact of_decide_eq_true (List.mem_filter.mp hitem).2

/-- The index rearranges the names of the modules: none is left out and none is named twice. -/
theorem IndexSection.modules_grouped_perm {kinds : KindList} (hkinds : kinds.Registered)
    {modules : List Module} (hmodules : ∀ m ∈ modules, kinds.contains m.kind = true) :
    ((grouped kinds modules).flatMap (·.modules)).Perm (modules.map (·.name)) := by
  have hperm := (KindList.flatMap_groups_perm hkinds hmodules).map Module.name
  rw [grouped, List.flatMap_map]
  rwa [List.map_flatMap] at hperm

namespace Project

variable {files : List SourceFile} {itemKinds moduleKinds : KindList} {options : ProjectOptions}

/-- Grouping gives the index the same shape, if modules have distinct names and registered kinds. -/
theorem indexedBy_grouped {kinds : KindList} (hkinds : kinds.Registered) {title : Option Text}
    {modules : List Module} (hnames : (modules.map (·.name)).Nodup)
    (hmodules : ∀ m ∈ modules, kinds.contains m.kind = true) :
    IndexedBy kinds ⟨title, modules, IndexSection.grouped kinds modules⟩ where
  nonempty := List.forall_mem_map.mpr fun _ hgroup => by
    simpa [IndexSection.ofGroup] using (KindList.mem_groups_iff.mp hgroup).1
  distinct := by
    rw [IndexSection.grouped, List.map_map]
    exact hkinds.nodup_ids_groups Module.kind modules
  ordered := by
    rw [IndexSection.grouped, List.map_map]
    exact hkinds.ordered_ids_groups Module.kind modules
  titles := List.forall_mem_map.mpr fun group hgroup =>
    ⟨group.1.childTitle, hkinds.get?_id (KindList.mem_groups_iff.mp hgroup).2.1⟩
  modules := List.forall_mem_map.mpr fun _ hgroup =>
    congrArg (List.map Module.name) (KindList.mem_groups_iff.mp hgroup).2.2
  listed := by
    intro m hm
    obtain ⟨group, hgroup, hid, hmem⟩ := KindList.exists_mem_groups hm (hmodules m hm)
    exact ⟨_, List.mem_map_of_mem hgroup, hid, List.mem_map_of_mem hmem⟩
  once := by
    intro m hm
    have hperm := IndexSection.modules_grouped_perm hkinds hmodules
    exact (hperm.count_eq m.name).trans
      (List.count_eq_one_of_mem hnames (List.mem_map_of_mem hm))

/-- The shape of every project. The modules have distinct names. In each of them the sections are
    the groups of its items by kind, in the order in which the kinds are registered and under their
    titles. So are the sections of the index for the modules, of which each is named once in all of
    the index, in the section of its kind. -/
theorem assemble_shape (hitemKinds : itemKinds.Registered) (hmoduleKinds : moduleKinds.Registered)
    {p : Project} (hp : assemble files itemKinds moduleKinds options = .ok p) :
    (p.modules.map (·.name)).Nodup ∧ (∀ m ∈ p.modules, m.GroupedBy itemKinds) ∧
      p.IndexedBy moduleKinds := by
  obtain ⟨-, hkinds, rfl⟩ := assemble_eq_ok_iff.mp hp
  have hnames : ((linked itemKinds (shown files moduleKinds options)).map (·.name)).Nodup := by
    rw [names_linked]
    exact nodup_names_shown
  refine ⟨hnames, ?_, ?_⟩
  · intro m hm
    obtain ⟨draft, -, rfl⟩ := List.mem_map.mp hm
    exact Module.groupedBy_grouped hitemKinds draft
  · apply indexedBy_grouped hmoduleKinds hnames
    intro m hm
    obtain ⟨draft, hdraft, rfl⟩ := List.mem_map.mp hm
    obtain ⟨source, hsource, rfl⟩ := List.mem_map.mp hdraft
    exact hkinds source hsource

/-- With its local functions shown, the module has sections of two kinds. -/
theorem assemble_shape_util :
    ∃ p, assemble utilFiles .ofItems .ofModules { keepLocals := true } = .ok p ∧
      (p.modules.flatMap (·.sections)).map (·.kind) = [Kind.functionId, Kind.localFunctionId] ∧
      (∀ m ∈ p.modules, m.GroupedBy .ofItems) ∧ p.IndexedBy .ofModules := by
  obtain ⟨p, hp, hsections⟩ :
      ∃ p, assemble utilFiles .ofItems .ofModules { keepLocals := true } = .ok p ∧
        (p.modules.flatMap (·.sections)).map (·.kind) = [Kind.functionId, Kind.localFunctionId] :=
    ⟨_, rfl, by decide⟩
  obtain ⟨-, hgrouped, hindexed⟩ :=
    assemble_shape KindList.registered_ofItems KindList.registered_ofModules hp
  exact ⟨p, hp, hsections, hgrouped, hindexed⟩

end Project

end SourceDoc
