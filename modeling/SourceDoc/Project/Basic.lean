import SourceDoc.Item.Basic

namespace SourceDoc

/-- The items of one kind in a module. -/
structure Section where
  kind : Text
  title : Text
  childTitle : Option Text
  items : List Item
  deriving DecidableEq, Repr

/-- A documented module. -/
structure Module where
  name : Text
  kind : Text
  summary : Text
  description : Text
  tags : TagTable
  files : List Path
  sections : List Section
  deriving DecidableEq, Repr

namespace Module

/-- The items of all sections. -/
def items (m : Module) : List Item :=
  m.sections.flatMap (·.items)

/-- The first item of a name. -/
def item? (m : Module) (name : Text) : Option Item :=
  m.items.find? (·.name = name)

/-- The first section of a title. -/
def section? (m : Module) (title : Text) : Option Section :=
  m.sections.find? (·.title = title)

end Module

/-- The names of the modules of one kind. -/
structure IndexSection where
  kind : Text
  title : Text
  modules : List Text
  deriving DecidableEq, Repr

/-- The documentation of a project: its modules with their items in sections, and an index. -/
structure Project where
  title : Option Text
  modules : List Module
  index : List IndexSection
  deriving DecidableEq, Repr

/-- The module of a name. -/
def Project.module? (p : Project) (name : Text) : Option Module :=
  p.modules.find? (·.name = name)

end SourceDoc
