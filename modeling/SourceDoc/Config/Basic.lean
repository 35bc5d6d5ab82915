import SourceDoc.Failure

namespace SourceDoc

/-- A tag to make known. -/
structure TagConfig where
  name : Text
  /-- The tag may open a module. -/
  isProjectLevel : Bool
  deriving DecidableEq, Repr

/-- A kind of item or module, which is also a tag that names what it documents. -/
structure TypeConfig where
  id : Text
  title : Text
  /-- The kind is one of modules. -/
  isProjectLevel : Bool
  childTitle : Option Text
  deriving DecidableEq, Repr

/-- A kind of item that has no tag of its own. -/
structure SectionConfig where
  id : Text
  title : Text
  childTitle : Option Text
  deriving DecidableEq, Repr

/-- A configuration: tags, kinds and extensions to add, and choices on the output. -/
structure Config where
  project : Option Text := none
  package : Option Path := none
  keepLocals : Bool := false
  format : Option Text := none
  /-- Names of tags by the name they are written with, in the order of code points. -/
  aliases : List (Text × Text) := []
  tags : List TagConfig := []
  types : List TypeConfig := []
  sections : List SectionConfig := []
  /-- Names of languages by extension, in the order of code points. -/
  extensions : List (Text × Text) := []
  deriving DecidableEq, Repr

namespace Config

/-- What is wrong with a configuration: a format that does not exist, then a type without an id or a
    title, then an alias of a tag for itself. -/
def fault? (c : Config) : Option ConfigFault :=
  match c.format.filter (· ≠ ("json" : Text)) with
  | some format => some (.unknownFormat format)
  | none =>
    if c.types.any fun t => t.id.isEmpty || t.title.isEmpty then some .incompleteType
    else (c.aliases.find? fun entry => entry.1 = entry.2).map fun entry => .selfAlias entry.1

/-- A configuration without faults. -/
def validated (c : Config) : Except Failure Config :=
  match c.fault? with
  | some fault => .error (.config fault)
  | none => .ok c

end Config

end SourceDoc
