import SourceDoc.Kind
import SourceDoc.Link
import SourceDoc.Tag.Table

namespace SourceDoc

/-- A named child of an item: a parameter of a function or a field of a table. -/
structure Param where
  name : Text
  type : Option Text
  description : Text
  deriving DecidableEq, Repr

/-- A value a function gives back. -/
structure ReturnValue where
  type : Option Text
  description : Text
  deriving DecidableEq, Repr

/-- A reference to another entity, linked once its target is known. -/
structure Reference where
  text : Text
  target : Option Link := none
  deriving DecidableEq, Repr

/-- One documented entity: a function, a table or a field, or the doc block that opens a module. -/
structure Item where
  name : Text
  /-- Id of the item's kind. -/
  kind : Text
  summary : Text
  description : Text
  params : List Param := []
  returns : List ReturnValue := []
  fields : List Param := []
  see : List Reference := []
  usage : List Text := []
  raise : List Text := []
  tags : TagTable
  line : Nat
  /-- The class or the name comes from the declaration after the block, not from tags. -/
  inferred : Bool
  file : Path
  deriving DecidableEq, Repr

/-- Whether an item is a local function, which is hidden unless asked for. -/
def Item.isLocal (i : Item) : Bool :=
  i.kind = Kind.localFunctionId

namespace Param

/-- The first word of a text and what follows it, trimmed. -/
def splitWord (t : Text) : Text × Text :=
  match Text.cutBefore? Text.isBlank (Text.trim t) with
  | some (word, rest) => (word, Text.trim rest)
  | none => (Text.trim t, [])

/-- Reads a name with a description after it. -/
def named? (type : Option Text) (value : Text) : Option Param :=
  let (name, description) := splitWord value
  if name.isEmpty then none else some ⟨name, type, description⟩

/-- Reads a type, a name and a description. -/
def typed? (value : Text) : Option Param :=
  let (type, rest) := splitWord value
  named? (some type) rest

/-- The children in a tag table: those of the plain tag, then those of the tag with types. Values
    without a name are dropped. -/
def ofTags (tags : TagTable) (plain typed : Text) : List Param :=
  (tags.values plain).filterMap (named? none) ++ (tags.values typed).filterMap typed?

/-- The documented parameters left over after each declared name has taken the first one of its name
    that is still there. -/
def undeclared : List Text → List Param → List Param
  | [], ps => ps
  | name :: names, ps => undeclared names (ps.eraseP (·.name = name))

/-- The declared parameters in their order, each with the first documentation of its name that no
    other has taken. -/
def declared : List Text → List Param → List Param
  | [], _ => []
  | name :: names, ps =>
    (ps.find? (·.name = name)).getD ⟨name, none, []⟩
      :: declared names (ps.eraseP (·.name = name))

/-- The parameters of a function in the order of its declaration, followed by the documented ones
    that are not declared. -/
def ordered (names : List Text) (ps : List Param) : List Param :=
  declared names ps ++ undeclared names ps

end Param

end SourceDoc
