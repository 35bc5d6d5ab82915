import SourceDoc.Proofs.Project.HiddenLocals

namespace SourceDoc

/-- An item whose references have no targets. -/
def Item.unlinked (item : Item) : Item :=
  { item with see := item.see.map fun r => { text := r.text } }

namespace Section

/-- A section with its items changed. -/
def mapItems (change : Item → Item) (s : Section) : Section :=
  { s with items := s.items.map change }

/-- A section without its local functions. -/
def withoutLocals (s : Section) : Section :=
  { s with items := s.items.filter (!·.isLocal) }

end Section

namespace Module

/-- A module whose items have no links. -/
def unlinked (m : Module) : Module :=
  { m with sections := m.sections.map (·.mapItems Item.unlinked) }

/-- A module without its local functions; a section in which nothing is left is removed. -/
def withoutLocals (m : Module) : Module :=
  { m with sections := (m.sections.map (·.withoutLocals)).filter (!·.items.isEmpty) }

end Module

namespace Project

/-- A project without links. -/
def unlinked (p : Project) : Project :=
  { p with modules := p.modules.map (·.unlinked) }

/-- A project without its local functions. -/
def withoutLocals (p : Project) : Project :=
  { p with modules := p.modules.map (·.withoutLocals) }

end Project

/-- Linking changes nothing in an item but where its references lead. -/
theorem ModuleDraft.unlinked_linkItem (ms : List ModuleDraft) (current : Text) (item : Item) :
    (linkItem ms current item).unlinked = item.unlinked := by
  simp [Item.unlinked, linkItem]

namespace Module

variable {kinds : KindList}

/-- Grouping does not look at links, so these may be dropped before it. -/
theorem unlinked_grouped (m : ModuleDraft) :
    (grouped kinds m).unlinked = grouped kinds { m with items := m.items.map Item.unlinked } := by
  have hgroups := kinds.groups_map Item.kind Item.unlinked (fun _ => rfl) m.items
  simp [unlinked, grouped, hgroups, Section.ofGroup, Section.mapItems]

/-- Local functions can be left out before the items are grouped or after it. -/
theorem withoutLocals_grouped (m : ModuleDraft) :
    (grouped kinds m).withoutLocals = grouped kinds m.hideLocals := by
  simp [withoutLocals, grouped, ModuleDraft.hideLocals, KindList.groups_filter, List.filter_map,
    Function.comp_def, Section.withoutLocals, Section.ofGroup]

end Module

/-- The index depends on the names and kinds of modules only. -/
theorem IndexSection.grouped_map (change : Module → Module)
    (hname : ∀ m, (change m).name = m.name) (hkind : ∀ m, (change m).kind = m.kind)
    (kinds : KindList) (modules : List Module) :
    grouped kinds (modules.map change) = grouped kinds modules := by
  simp [grouped, kinds.groups_map Module.kind change hkind, ofGroup, Function.comp_def, hname]

namespace SourceFile

variable {f : SourceFile} {kinds : KindList} {options options' : ProjectOptions}

/-- Of the choices on a project, only the package root matters to the modules of a file. -/
theorem discoverFrom_congr (hpackage : options.package = options'.package) (current : ModuleDraft)
    (renamable : Bool) (items : List Item) :
    discoverFrom f kinds options current renamable items =
      discoverFrom f kinds options' current renamable items := by
  have hname : f.inferredName options = f.inferredName options' := by
    rw [inferredName, inferredName, hpackage]
  have hopened (item : Item) : f.opened options item = f.opened options' item := by
    rw [opened, opened, openedName, openedName, hname]
  have hrenamed (m : ModuleDraft) (item : Item) :
      f.renamed options m item = f.renamed options' m item := by
    rw [renamed, renamed, openedName, openedName, hname]
  induction items generalizing current renamable with
  | nil => rfl
  | cons item items ih =>
    rw [discoverFrom, discoverFrom, hopened, hrenamed, ih, ih, ih]

theorem discover_congr (hpackage : options.package = options'.package) :
    f.discover kinds options = f.discover kinds options' := by
  have hname : f.inferredName options = f.inferredName options' := by
    rw [inferredName, inferredName, hpackage]
  unfold discover
  cases f.items with
  | nil => rfl
  | cons item items =>
    dsimp only
    rw [discoverFrom_congr hpackage, discoverFrom_congr hpackage, opened, opened, openedName,
      openedName, inferred, inferred, hname]

end SourceFile

namespace Project

variable {files : List SourceFile} {itemKinds moduleKinds : KindList}

/-- What is shown without local functions is what is shown with them, and these hidden. -/
theorem shown_hiding_eq_map (options : ProjectOptions) :
    shown files moduleKinds { options with keepLocals := false } =
      (shown files moduleKinds { options with keepLocals := true }).map (·.hideLocals) := by
  have hdeclared : declared files moduleKinds { options with keepLocals := false } =
      declared files moduleKinds { options with keepLocals := true } := by
    unfold declared
    apply List.flatMap_congr
    intro f _
    exact SourceFile.discover_congr rfl
  simp only [shown, hdeclared, Bool.false_eq_true, if_false, if_true]

/-- Hiding local functions before linking and grouping is leaving them out afterwards, up to where
    references lead. -/
theorem unlinked_linked_map_hideLocals (itemKinds : KindList) (ms : List ModuleDraft) :
    (linked itemKinds (ms.map (·.hideLocals))).map Module.unlinked =
      ((linked itemKinds ms).map Module.withoutLocals).map Module.unlinked := by
  simp only [linked, ModuleDraft.linkAll, List.map_map]
  apply List.map_congr_left
  intro m _
  have hlocal (current : Text) (item : Item) :
      (ModuleDraft.linkItem ms current item).isLocal = item.isLocal := rfl
  simp [Module.withoutLocals_grouped, Module.unlinked_grouped, ModuleDraft.hideLocals,
    ModuleDraft.unlinked_linkItem, List.filter_map, Function.comp_def, hlocal]

/-- Showing local functions only adds them. Where a project can be assembled that shows local
    functions, one that hides them can be, too; it has the same modules and the same index, and in
    each module the same sections and items in the same order, but for the local functions and a
    section that has nothing else. Only the targets of references may differ. -/
theorem assemble_hiding_locals (options : ProjectOptions) {p : Project}
    (hp : assemble files itemKinds moduleKinds { options with keepLocals := true } = .ok p) :
    ∃ q, assemble files itemKinds moduleKinds { options with keepLocals := false } = .ok q ∧
      q.unlinked = p.withoutLocals.unlinked := by
  obtain ⟨hitems, hkinds, rfl⟩ := assemble_eq_ok_iff.mp hp
  refine ⟨_, assemble_eq_ok_iff.mpr ⟨?_, ?_, rfl⟩, ?_⟩
  · rw [shown_hiding_eq_map]
    intro m hm item hitem
    obtain ⟨source, hsource, rfl⟩ := List.mem_map.mp hm
    exact hitems source hsource item (List.mem_filter.mp hitem).1
  · rw [shown_hiding_eq_map]
    intro m hm
    obtain ⟨source, hsource, rfl⟩ := List.mem_map.mp hm
    exact hkinds source hsource
  · rw [shown_hiding_eq_map]
    generalize shown files moduleKinds { options with keepLocals := true } = ms
    have hmodules := unlinked_linked_map_hideLocals itemKinds ms
    have hunlinked (modules : List Module) :
        IndexSection.grouped moduleKinds (modules.map Module.unlinked) =
          IndexSection.grouped moduleKinds modules :=
      IndexSection.grouped_map Module.unlinked (fun _ => rfl) (fun _ => rfl) moduleKinds modules
    have hwithout (modules : List Module) :
        IndexSection.grouped moduleKinds (modules.map Module.withoutLocals) =
          IndexSection.grouped moduleKinds modules :=
      IndexSection.grouped_map Module.withoutLocals (fun _ => rfl) (fun _ => rfl) moduleKinds
        modules
    have hindex : IndexSection.grouped moduleKinds (linked itemKinds (ms.map (·.hideLocals))) =
        IndexSection.grouped moduleKinds (linked itemKinds ms) := by
      rw [← hunlinked, hmodules, hunlinked, hwithout]
    simp only [unlinked, withoutLocals, hmodules, hindex]

/-- Hiding the local function removes its section and leaves a reference to it without a target. -/
theorem assemble_hiding_locals_util :
    ∃ p q, assemble utilFiles .ofItems .ofModules { keepLocals := true } = .ok p ∧
      assemble utilFiles .ofItems .ofModules { keepLocals := false } = .ok q ∧
      (p.modules.flatMap (·.items)).map (·.name) = [("add" : Text), "sub", "helper"] ∧
      (q.modules.flatMap (·.items)).map (·.name) = [("add" : Text), "sub"] ∧
      q.unlinked = p.withoutLocals.unlinked := by
  obtain ⟨p, hp, hnames⟩ :
      ∃ p, assemble utilFiles .ofItems .ofModules { keepLocals := true } = .ok p ∧
        (p.modules.flatMap (·.items)).map (·.name) = [("add" : Text), "sub", "helper"] :=
    ⟨_, rfl, by decide⟩
  obtain ⟨q, hq, hunlinked⟩ := assemble_hiding_locals {} hp
  have hrest : (q.modules.flatMap (·.items)).map (·.name) = [("add" : Text), "sub"] := by
    cases hq
    decide
  exact ⟨p, q, hp, hq, hnames, hrest, hunlinked⟩

end Project

end SourceDoc
