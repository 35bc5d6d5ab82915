import SourceDoc.Item.Basic
import SourceDoc.Language.Lua.ModuleCall
import SourceDoc.Module.Name

namespace SourceDoc

/-- Items of one scanned file. -/
structure SourceFile where
  path : Path
  /-- Name of the file's language. -/
  language : Text
  /-- The items in source order, with the ones that open modules among them. -/
  items : List Item
  /-- The call in the file that defines a module. -/
  moduleCall : Option ModuleCall
  deriving DecidableEq, Repr

/-- Choices on how a project is assembled. -/
structure ProjectOptions where
  /-- Local functions are shown, too. -/
  keepLocals : Bool := false
  /-- Directory that paths of modules are relative to. -/
  package : Option Path := none
  title : Option Text := none
  deriving DecidableEq, Repr

/-- A module whose items are being collected. -/
structure ModuleDraft where
  name : Text
  kind : Text
  summary : Text := []
  description : Text := []
  tags : TagTable := {}
  files : List Path
  items : List Item := []
  deriving DecidableEq, Repr

/-- The first text that is not empty. -/
def Text.orElse (t other : Text) : Text :=
  if t.isEmpty then other else t

namespace ModuleDraft

/-- Takes over what a doc block says, as far as the module does not say it already. -/
def absorbDoc (m : ModuleDraft) (item : Item) : ModuleDraft :=
  { m with
    summary := Text.orElse m.summary item.summary
    description := Text.orElse m.description item.description
    tags := m.tags.fillMissing item.tags }

/-- Adds an item under its short name. -/
def addItem (m : ModuleDraft) (item : Item) : ModuleDraft :=
  { m with items := m.items ++ [{ item with name := ModuleName.shortName item.name m.name }] }

end ModuleDraft

namespace SourceFile

/-- Name of a module for which the file's doc blocks give none: the one in its module call, else the
    one its path gives. -/
def inferredName (f : SourceFile) (options : ProjectOptions) : Text :=
  match f.moduleCall with
  | some (.named name) => name
  | _ => ModuleName.ofPath f.path options.package

/-- What inferring a name reports. -/
def inferredNameEvents (f : SourceFile) (options : ProjectOptions) : List Event :=
  match f.moduleCall with
  | some (.named _) => []
  | _ => ModuleName.events f.path options.package

/-- Name of the module an item opens. -/
def openedName (f : SourceFile) (options : ProjectOptions) (item : Item) : Text :=
  Text.orElse item.name (f.inferredName options)

/-- The module an item opens. -/
def opened (f : SourceFile) (options : ProjectOptions) (item : Item) : ModuleDraft :=
  { name := f.openedName options item, kind := item.kind, files := [f.path] : ModuleDraft }.absorbDoc
    item

/-- The module of items that no doc block opens a module for. -/
def inferred (f : SourceFile) (options : ProjectOptions) : ModuleDraft :=
  { name := f.inferredName options, kind := Kind.moduleId, files := [f.path] }

/-- Gives a module the name and kind of an item that opens one. -/
def renamed (f : SourceFile) (options : ProjectOptions) (m : ModuleDraft) (item : Item) :
    ModuleDraft :=
  { m with name := f.openedName options item, kind := item.kind }.absorbDoc item

/-- Deals items out to modules while `current` is open: an item of a module kind opens a module, and
    all other items go to the module open at that point. A module whose opening was only inferred
    and that is still `renamable` takes its name from an explicit opening right after it. -/
def discoverFrom (f : SourceFile) (kinds : KindList) (options : ProjectOptions)
    (current : ModuleDraft) (renamable : Bool) : List Item → List ModuleDraft
  | [] => [current]
  | item :: items =>
    if kinds.contains item.kind then
      if renamable && !item.inferred then
        discoverFrom f kinds options (f.renamed options current item) false items
      else
        current :: discoverFrom f kinds options (f.opened options item) item.inferred items
    else discoverFrom f kinds options (current.addItem item) false items

/-- The modules of a file, given the kinds of modules. Items before any opening belong to a module
    with an inferred name. -/
def discover (f : SourceFile) (kinds : KindList) (options : ProjectOptions) : List ModuleDraft :=
  match f.items with
  | [] => []
  | item :: items =>
    if kinds.contains item.kind then
      discoverFrom f kinds options (f.opened options item) item.inferred items
    else discoverFrom f kinds options ((f.inferred options).addItem item) false items

/-- What finding the modules of a file reports: an inferred module for items at its start, and what
    inferring names reports. -/
def discoverEvents (f : SourceFile) (kinds : KindList) (options : ProjectOptions) : List Event :=
  let nameless := f.items.filter fun item => kinds.contains item.kind && item.name.isEmpty
  let openings := nameless.flatMap fun _ => f.inferredNameEvents options
  match f.items with
  | [] => []
  | item :: _ =>
    if kinds.contains item.kind then openings
    else
      f.inferredNameEvents options
        ++ .inferredModule f.path (f.inferredName options) :: openings

end SourceFile

end SourceDoc
