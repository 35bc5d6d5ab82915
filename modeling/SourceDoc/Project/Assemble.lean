import SourceDoc.Module.References
import SourceDoc.Project.Basic

namespace SourceDoc

/-- The section that shows the items of a kind. -/
def Section.ofGroup (group : Kind × List Item) : Section :=
  ⟨group.1.id, group.1.title, group.1.childTitle, group.2⟩

/-- Groups the items of a module into sections. The first item whose kind is not registered is an
    error. -/
def Module.ofDraft (kinds : KindList) (m : ModuleDraft) : Except Failure Module := do
  let groups ← kinds.groupBy Item.kind (fun item => (item.file, item.line)) m.items
  return ⟨m.name, m.kind, m.summary, m.description, m.tags, m.files, groups.map Section.ofGroup⟩

/-- The part of the index that names the modules of a kind. -/
def IndexSection.ofGroup (group : Kind × List Module) : IndexSection :=
  ⟨group.1.id, group.1.title, group.2.map (·.name)⟩

/-- The index of modules by kind. The first module whose kind is not registered is an error, placed
    in its first file. -/
def IndexSection.ofModules (kinds : KindList) (modules : List Module) :
    Except Failure (List IndexSection) := do
  let groups ← kinds.groupBy Module.kind (fun m => (m.files.headD ⟨[]⟩, 0)) modules
  return groups.map IndexSection.ofGroup

namespace Project

/-- The modules declared in files, file by file. -/
def declared (files : List SourceFile) (moduleKinds : KindList) (options : ProjectOptions) :
    List ModuleDraft :=
  files.flatMap (·.discover moduleKinds options)

/-- The modules of a project with the items that are shown. -/
def shown (files : List SourceFile) (moduleKinds : KindList) (options : ProjectOptions) :
    List ModuleDraft :=
  let merged := ModuleDraft.merge (declared files moduleKinds options)
  if options.keepLocals then merged else merged.map (·.hideLocals)

/-- Assembles a project, given the kinds of items and of modules: the modules of all files are
    merged by name, local functions are hidden unless asked for, references are linked, and items
    and modules are grouped by kind. -/
def assemble (files : List SourceFile) (itemKinds moduleKinds : KindList)
    (options : ProjectOptions) : Except Failure Project := do
  let drafts := ModuleDraft.linkAll (shown files moduleKinds options)
  let modules ← drafts.mapM (Module.ofDraft itemKinds)
  let index ← IndexSection.ofModules moduleKinds modules
  return ⟨options.title, modules, index⟩

/-- What assembling a project reports, in the order of its steps. -/
def assembleEvents (files : List SourceFile) (moduleKinds : KindList)
    (options : ProjectOptions) : List Event :=
  files.flatMap (·.discoverEvents moduleKinds options)
    ++ ModuleDraft.mergeEvents [] (declared files moduleKinds options)
    ++ ModuleDraft.linkEvents (shown files moduleKinds options)

end Project

end SourceDoc
