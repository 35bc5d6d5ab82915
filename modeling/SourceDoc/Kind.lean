import SourceDoc.Failure
import SourceDoc.Keyed

namespace SourceDoc

/-- A kind of entity. -/
structure Kind where
  id : Text
  title : Text
  /-- Title of the children an entity of this kind has, such as parameters or fields. -/
  childTitle : Option Text
  deriving DecidableEq, Repr

namespace Kind

/-- Id of the kind of functions. -/
def functionId : Text := "function"

/-- Id of the kind of functions not visible outside their file. -/
def localFunctionId : Text := "local-function"

/-- Id of the kind of tables. -/
def tableId : Text := "table"

/-- Id of the kind of fields and variables. -/
def fieldId : Text := "field"

/-- Id of the kind of modules. -/
def moduleId : Text := "module"

/-- Id of the kind of scripts. -/
def scriptId : Text := "script"

/-- Registers a kind: in place of one with the same id, else at the end. -/
def registerIn (kind : Kind) (kinds : List Kind) : List Kind :=
  Keyed.upsert id (fun _ => kind) kind kinds

end Kind

/-- Registered kinds, in order of registration, which is the order in which they are shown. -/
structure KindList where
  /-- Word for what the kinds group, used in reports. -/
  group : Text
  kinds : List Kind := []
  deriving DecidableEq, Repr

namespace KindList

/-- Registers a kind. An id that is registered already keeps its position and takes the new
    titles. -/
def register (l : KindList) (id title : Text) (childTitle : Option Text) : KindList :=
  { l with kinds := Kind.registerIn ⟨id, title, childTitle⟩ l.kinds }

/-- The kind registered under an id. -/
def get? (l : KindList) (id : Text) : Option Kind :=
  l.kinds.find? (·.id = id)

/-- Whether a kind is registered under an id. -/
def contains (l : KindList) (id : Text) : Bool :=
  (l.get? id).isSome

/-- Position of a kind in the order of registration. -/
def position? (l : KindList) (id : Text) : Option Nat :=
  l.kinds.findIdx? (·.id = id)

/-- Kind of a class found at a place; it is an error if no kind has that id. -/
def classify (l : KindList) (kindId : Text) (file : Path) (line : Nat) : Except Failure Kind :=
  match l.get? kindId with
  | some kind => .ok kind
  | none => .error (.unknownKind l.group kindId file line)

/-- The entries of each kind, in the order in which the kinds are registered. A kind of which there
    is no entry has no group. -/
def groups {α : Type} (l : KindList) (key : α → Text) (entries : List α) : List (Kind × List α) :=
  (l.kinds.map fun kind => (kind, entries.filter (key · = kind.id))).filter (!·.2.isEmpty)

/-- The groups of entries, if their kinds are all registered. The first entry of another kind is an
    error at the place of that entry. -/
def groupBy {α : Type} (l : KindList) (key : α → Text) (place : α → Path × Nat)
    (entries : List α) : Except Failure (List (Kind × List α)) :=
  match entries.find? fun e => !l.contains (key e) with
  | some e => .error (.unknownKind l.group (key e) (place e).1 (place e).2)
  | none => .ok (l.groups key entries)

/-- The kinds of items, which group the items of a module into sections. -/
def ofItems : KindList where
  group := "section"
  kinds :=
    [⟨Kind.functionId, "Functions", some "Parameters"⟩, ⟨Kind.tableId, "Tables", some "Fields"⟩,
     ⟨Kind.fieldId, "Fields", none⟩,
     ⟨Kind.localFunctionId, "Local Functions", some "Parameters"⟩]

/-- The kinds of modules, which group the modules of a project. -/
def ofModules : KindList where
  group := "type"
  kinds := [⟨Kind.moduleId, "Modules", none⟩, ⟨Kind.scriptId, "Scripts", none⟩]

end KindList

end SourceDoc
