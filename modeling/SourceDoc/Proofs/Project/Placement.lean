import SourceDoc.Proofs.Module.Ownership
import SourceDoc.Proofs.Project.Assemble

namespace SourceDoc

/-- Whether an item is left out of a project: a local function, unless these are asked for. -/
def ProjectOptions.hides (options : ProjectOptions) (item : Item) : Bool :=
  item.isLocal && !options.keepLocals

/-- Linking changes items where they are. -/
theorem ModuleDraft.itemsNamed_linkAll (name : Text) (ms : List ModuleDraft) :
    itemsNamed name (linkAll ms) = (itemsNamed name ms).map (linkItem ms name) :=
  itemsNamed_map (fun name items => items.map (linkItem ms name)) (fun _ => rfl)
    (fun _ _ _ => List.map_append) name ms

namespace Project

/-- The items that a project shows under a kind in the module of a name, none if it has no such
    module or section. -/
def itemsIn (p : Project) (module kind : Text) : List Item :=
  (p.modules.filter (·.name = module)).flatMap fun m =>
    (m.sections.filter (·.kind = kind)).flatMap (·.items)

/-- The items of a kind that belong to the module of a name and are not hidden, file by file. -/
def belonging (files : List SourceFile) (moduleKinds : KindList) (options : ProjectOptions)
    (module kind : Text) : List Item :=
  files.flatMap fun f => (f.owned moduleKinds options module).filter fun item =>
    item.kind = kind && !options.hides item

variable {files : List SourceFile} {itemKinds moduleKinds : KindList} {options : ProjectOptions}

/-- The shown modules are the merged ones without their hidden items. -/
theorem shown_eq_map_filter :
    shown files moduleKinds options =
      (ModuleDraft.merge (declared files moduleKinds options)).map fun m =>
        { m with items := m.items.filter (!options.hides ·) } := by
  rw [shown]
  split
  · rename_i hkeep
    simp [ProjectOptions.hides, hkeep]
  · rename_i hdrop
    simp [ProjectOptions.hides, hdrop, ModuleDraft.hideLocals]

/-- Hiding items removes no module, even if none of its items is left. -/
theorem names_shown_eq_merge :
    (shown files moduleKinds options).map (·.name) =
      (ModuleDraft.merge (declared files moduleKinds options)).map (·.name) := by
  rw [shown_eq_map_filter, List.map_map]
  rfl

theorem nodup_names_shown : ((shown files moduleKinds options).map (·.name)).Nodup := by
  rw [names_shown_eq_merge]
  exact ModuleDraft.nodup_names_merge (declared files moduleKinds options)

/-- The shown modules are named after what opens modules in the files, each name once. -/
theorem names_shown :
    (shown files moduleKinds options).map (·.name) =
      (files.flatMap (·.moduleNames moduleKinds options)).eraseDups := by
  rw [names_shown_eq_merge, ModuleDraft.names_merge, declared, List.map_flatMap]
  simp only [SourceFile.names_discover]

/-- Before modules are merged, the items under a name are those of the files, one file after the
    other. -/
theorem itemsNamed_declared (name : Text) :
    ModuleDraft.itemsNamed name (declared files moduleKinds options) =
      (files.flatMap fun f => f.owned moduleKinds options name).map (SourceFile.shortened name) := by
  rw [declared, ModuleDraft.itemsNamed_flatMap, List.map_flatMap]
  simp only [SourceFile.itemsNamed_discover]

/-- Under each name the shown modules have the items that belong there and are not hidden. -/
theorem itemsNamed_shown (name : Text) :
    ModuleDraft.itemsNamed name (shown files moduleKinds options) =
      ((files.flatMap fun f => f.owned moduleKinds options name).filter (!options.hides ·)).map
        (SourceFile.shortened name) := by
  rw [shown_eq_map_filter,
    ModuleDraft.itemsNamed_map (fun _ items => items.filter (!options.hides ·))
      (fun _ => rfl) (fun _ xs ys => List.filter_append xs ys),
    ModuleDraft.itemsNamed_merge, itemsNamed_declared, List.filter_map]
  rfl

/-- The sections of one kind in linked modules hold the items of that kind in their order. -/
theorem itemsIn_linked (hkinds : itemKinds.Registered) {ms : List ModuleDraft}
    (hitems : ∀ m ∈ ms, ∀ item ∈ m.items, itemKinds.contains item.kind = true)
    (title : Option Text) (index : List IndexSection) (module kind : Text) :
    itemsIn ⟨title, linked itemKinds ms, index⟩ module kind =
      ((ModuleDraft.itemsNamed module ms).filter (·.kind = kind)).map
        (ModuleDraft.linkItem ms module) := by
  have hsections : ∀ m ∈ ModuleDraft.linkAll ms,
      ((Module.grouped itemKinds m).sections.filter (·.kind = kind)).flatMap (·.items) =
        m.items.filter (·.kind = kind) := by
    intro m hm
    rw [Module.grouped, List.filter_map, List.flatMap_map]
    apply KindList.flatMap_groups_of_id hkinds
    obtain ⟨draft, hdraft, rfl⟩ := List.mem_map.mp hm
    simpa [ModuleDraft.linkItem] using hitems draft hdraft
  have hlinked : itemsIn ⟨title, linked itemKinds ms, index⟩ module kind =
      (ModuleDraft.itemsNamed module (ModuleDraft.linkAll ms)).filter (·.kind = kind) := by
    rw [itemsIn, linked, List.filter_map, List.flatMap_map, ModuleDraft.itemsNamed,
      List.filter_flatMap]
    apply List.flatMap_congr
    intro m hm
    exact hsections m (List.mem_filter.mp hm).1
  rw [hlinked, ModuleDraft.itemsNamed_linkAll, List.filter_map]
  rfl

theorem names_linked (ms : List ModuleDraft) :
    (linked itemKinds ms).map (·.name) = ms.map (·.name) := by
  rw [linked, ModuleDraft.linkAll, List.map_map, List.map_map]
  rfl

/-- Assembling a project loses, repeats, misplaces and reorders no item. The modules are those that
    the files open, each name once. In the module of a name, the items of a kind are those that
    belong to that name and are not hidden; they are changed in nothing but their name, which is
    shortened, and the targets of their references. -/
theorem assemble_places_items (hkinds : itemKinds.Registered) {p : Project}
    (hp : assemble files itemKinds moduleKinds options = .ok p) :
    p.modules.map (·.name) = (files.flatMap (·.moduleNames moduleKinds options)).eraseDups ∧
      (p.modules.map (·.name)).Nodup ∧
      ∀ module kind, p.itemsIn module kind =
        (belonging files moduleKinds options module kind).map fun item =>
          { item with
            name := ModuleName.shortName item.name module
            see := item.see.map fun r =>
              { r with
                target := ModuleDraft.target? (shown files moduleKinds options) module r.text } } := by
  obtain ⟨hitems, -, rfl⟩ := assemble_eq_ok_iff.mp hp
  refine ⟨?_, ?_, ?_⟩
  · rw [names_linked, names_shown]
  · rw [names_linked]
    exact nodup_names_shown
  · intro module kind
    rw [itemsIn_linked hkinds hitems, itemsNamed_shown, List.filter_map, List.map_map, belonging,
      ← List.filter_flatMap, List.filter_filter]
    rfl

/-- An item of the given name, kind and references that says nothing else. -/
def bareItem (name kind : Text) (inferred : Bool) (see : List Text := []) : Item :=
  { name, kind, summary := [], description := [], see := see.map ({ text := · }), tags := {},
    line := 1, inferred, file := ⟨"m.lua"⟩ }

/-- Two files of one module: the first is documented before it is named, and has a local
    function. -/
def utilFiles : List SourceFile :=
  [{ path := ⟨"m.lua"⟩, language := "lua", moduleCall := none,
     items := [bareItem [] Kind.moduleId true, bareItem "util" Kind.moduleId false,
       bareItem "M.add" Kind.functionId true ["sub", "util", "helper"],
       bareItem "helper" Kind.localFunctionId true] },
   { path := ⟨"n.lua"⟩, language := "lua", moduleCall := none,
     items := [bareItem "util" Kind.moduleId false, bareItem "sub" Kind.functionId true] }]

theorem assemble_places_items_util :
    ∃ p, assemble utilFiles .ofItems .ofModules {} = .ok p ∧
      p.modules.map (·.name) = [("util" : Text)] ∧
      (p.itemsIn "util" Kind.functionId).map (·.name) = [("add" : Text), "sub"] := by
  obtain ⟨p, hp⟩ : ∃ p, assemble utilFiles .ofItems .ofModules {} = .ok p := ⟨_, rfl⟩
  obtain ⟨hnames, -, hitems⟩ := assemble_places_items KindList.registered_ofItems hp
  refine ⟨p, hp, ?_, ?_⟩
  · rw [hnames]
    decide
  · rw [hitems, List.map_map]
    decide

end Project

end SourceDoc
