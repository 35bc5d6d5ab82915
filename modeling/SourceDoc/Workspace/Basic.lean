import SourceDoc.Config.Basic
import SourceDoc.Language.Table
import SourceDoc.Project.Assemble
import SourceDoc.Tag.Rules
import SourceDoc.Text.Uppercase

namespace SourceDoc

/-- State of one run: the languages, tags, kinds and options in force, and the files scanned so
    far. -/
structure Workspace where
  languages : LanguageTable := .standard
  rules : TagRules := .standard
  itemKinds : KindList := .ofItems
  moduleKinds : KindList := .ofModules
  options : ProjectOptions := {}
  files : List SourceFile := []
  deriving DecidableEq, Repr

namespace Workspace

/-- Makes a name of a tag stand for another one. -/
def addAlias (w : Workspace) (source target : Text) : Workspace :=
  { w with rules := w.rules.addAlias source target }

/-- Makes a tag known. A tag that opens modules needs a kind of modules; if there is none of its
    name, one titled like the tag is registered. -/
def addTag (w : Workspace) (name : Text) (isProjectLevel : Bool) : Workspace :=
  { w with
    moduleKinds :=
      if isProjectLevel && !w.moduleKinds.contains name then
        w.moduleKinds.register name (Text.capitalized name) none
      else w.moduleKinds
    rules := w.rules.add name ⟨isProjectLevel, false⟩ }

/-- Registers a kind of items or modules, and the tag of its id that names what it documents. -/
def addType (w : Workspace) (id title : Text) (isProjectLevel : Bool) (childTitle : Option Text) :
    Workspace :=
  let rules := w.rules.add id ⟨isProjectLevel, true⟩
  if isProjectLevel then
    { w with rules, moduleKinds := w.moduleKinds.register id title childTitle }
  else { w with rules, itemKinds := w.itemKinds.register id title childTitle }

/-- Registers a kind of items without a tag. -/
def addSection (w : Workspace) (id title : Text) (childTitle : Option Text) : Workspace :=
  { w with itemKinds := w.itemKinds.register id title childTitle }

/-- Gives an extension a language. -/
def addExtension (w : Workspace) (extension language : Text) : Except Failure Workspace := do
  let languages ← w.languages.addExtension extension language
  return { w with languages }

/-- Gives extensions their languages up to the first that fails. -/
def addExtensions (w : Workspace) : List (Text × Text) → Workspace × Option Failure
  | [] => (w, none)
  | (extension, language) :: rest =>
    match w.addExtension extension language with
    | .ok w => addExtensions w rest
    | .error failure => (w, some failure)

/-- Registers the aliases, tags, types and sections of a configuration. -/
def addNames (w : Workspace) (c : Config) : Workspace :=
  let w := c.aliases.foldl (fun w entry => w.addAlias entry.1 entry.2) w
  let w := c.tags.foldl (fun w t => w.addTag t.name t.isProjectLevel) w
  let w := c.types.foldl (fun w t => w.addType t.id t.title t.isProjectLevel t.childTitle) w
  c.sections.foldl (fun w s => w.addSection s.id s.title s.childTitle) w

/-- Takes over the options of a configuration as far as it has them. -/
def setOptions (w : Workspace) (c : Config) : Workspace :=
  { w with
    options := {
      keepLocals := w.options.keepLocals || c.keepLocals
      package := c.package.or w.options.package
      title := c.project.or w.options.title } }

/-- Applies a configuration. When it fails, what was applied before the failure stays. -/
def apply (w : Workspace) (c : Config) : Workspace × Option Failure :=
  match (w.addNames c).addExtensions c.extensions with
  | (w, some failure) => (w, some failure)
  | (w, none) => (w.setOptions c, none)

/-- A new workspace with a configuration applied. -/
def ofConfig (c : Config) : Except Failure Workspace :=
  match ({} : Workspace).apply c with
  | (_, some failure) => .error failure
  | (w, none) => .ok w

/-- Whether the language of a file is known. -/
def supports (w : Workspace) (path : Path) : Bool :=
  (w.languages.ofPath? path).isSome

/-- The project of all scanned files. -/
def project (w : Workspace) : Except Failure Project :=
  Project.assemble w.files w.itemKinds w.moduleKinds w.options

/-- What assembling the project reports. -/
def projectEvents (w : Workspace) : List Event :=
  Project.assembleEvents w.files w.moduleKinds w.options

end Workspace

end SourceDoc
