import SourceDoc.Project.Assemble
import SourceDoc.Proofs.KindGroups

namespace SourceDoc

namespace Module

/-- The module of a draft whose items are all of registered kinds. -/
def grouped (kinds : KindList) (m : ModuleDraft) : Module :=
  ⟨m.name, m.kind, m.summary, m.description, m.tags, m.files,
    (kinds.groups Item.kind m.items).map Section.ofGroup⟩

/-- A module can be shown exactly if the kinds of its items are registered, and then in one way. -/
theorem ofDraft_eq_ok_iff (kinds : KindList) (m : ModuleDraft) (result : Module) :
    ofDraft kinds m = .ok result ↔
      (∀ item ∈ m.items, kinds.contains item.kind = true) ∧ result = grouped kinds m :=
  KindList.groupBy_map_eq_ok_iff

theorem items_grouped (kinds : KindList) (m : ModuleDraft) :
    (grouped kinds m).items = (kinds.groups Item.kind m.items).flatMap (·.2) :=
  List.flatMap_map ..

end Module

namespace IndexSection

/-- The index of modules whose kinds are all registered. -/
def grouped (kinds : KindList) (modules : List Module) : List IndexSection :=
  (kinds.groups Module.kind modules).map ofGroup

/-- The modules can be indexed exactly if their kinds are registered. -/
theorem ofModules_eq_ok_iff {kinds : KindList} {modules : List Module}
    {index : List IndexSection} :
    ofModules kinds modules = .ok index ↔
      (∀ m ∈ modules, kinds.contains m.kind = true) ∧ index = grouped kinds modules :=
  KindList.groupBy_map_eq_ok_iff

end IndexSection

namespace Project

/-- The modules of a project, given the modules shown. -/
def linked (itemKinds : KindList) (ms : List ModuleDraft) : List Module :=
  (ModuleDraft.linkAll ms).map (Module.grouped itemKinds)

/-- A project can be assembled exactly if the kinds of all shown items and of all modules are
    registered; it then consists of the shown modules, linked and grouped. -/
theorem assemble_eq_ok_iff {files : List SourceFile} {itemKinds moduleKinds : KindList}
    {options : ProjectOptions} {p : Project} :
    assemble files itemKinds moduleKinds options = .ok p ↔
      (∀ m ∈ shown files moduleKinds options,
        ∀ item ∈ m.items, itemKinds.contains item.kind = true) ∧
      (∀ m ∈ shown files moduleKinds options, moduleKinds.contains m.kind = true) ∧
      p = ⟨options.title, linked itemKinds (shown files moduleKinds options),
        IndexSection.grouped moduleKinds (linked itemKinds (shown files moduleKinds options))⟩ := by
  have hitemKinds : (∀ m ∈ ModuleDraft.linkAll (shown files moduleKinds options),
      ∀ item ∈ m.items, itemKinds.contains item.kind = true) ↔
      ∀ m ∈ shown files moduleKinds options,
        ∀ item ∈ m.items, itemKinds.contains item.kind = true := by
    simp [ModuleDraft.linkAll, ModuleDraft.linkItem]
  have hmoduleKinds : (∀ m ∈ linked itemKinds (shown files moduleKinds options),
      moduleKinds.contains m.kind = true) ↔
      ∀ m ∈ shown files moduleKinds options, moduleKinds.contains m.kind = true := by
    simp [linked, ModuleDraft.linkAll, Module.grouped]
  rw [assemble, bind_eq_ok_iff]
  constructor
  · rintro ⟨modules, hm, h⟩
    obtain ⟨index, hi, h⟩ := bind_eq_ok_iff.mp h
    cases h
    obtain ⟨hitems, rfl⟩ := (mapM_eq_ok_iff (Module.ofDraft_eq_ok_iff itemKinds)).mp hm
    obtain ⟨hkinds, rfl⟩ := IndexSection.ofModules_eq_ok_iff.mp hi
    exact ⟨hitemKinds.mp hitems, hmoduleKinds.mp hkinds, rfl⟩
  · rintro ⟨hitems, hkinds, rfl⟩
    refine ⟨_, (mapM_eq_ok_iff (Module.ofDraft_eq_ok_iff itemKinds)).mpr
      ⟨hitemKinds.mpr hitems, rfl⟩, ?_⟩
    exact bind_eq_ok_iff.mpr
      ⟨_, IndexSection.ofModules_eq_ok_iff.mpr ⟨hmoduleKinds.mpr hkinds, rfl⟩, rfl⟩

end Project

end SourceDoc
