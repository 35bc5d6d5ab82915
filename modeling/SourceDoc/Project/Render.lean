import SourceDoc.Json
import SourceDoc.Project.Basic

namespace SourceDoc

/-- A single value is a string, a repeated one an array. -/
def TagValue.toJson : TagValue → Json
  | .single value => .str value
  | .list values => .ofTexts values

/-- Tags are the members of an object, in order of first appearance. -/
def TagTable.toJson (t : TagTable) : Json :=
  .obj (t.entries.map fun (name, value) => (name, value.toJson))

/-- A parameter or field; its type is left out if there is none. -/
def Param.toJson (p : Param) : Json :=
  .obj (Json.member "name" (.str p.name) ++ Json.member? "type" p.type
    ++ Json.member "description" (.str p.description))

/-- A return value; its type is left out if there is none. -/
def ReturnValue.toJson (r : ReturnValue) : Json :=
  .obj (Json.member? "type" r.type ++ Json.member "description" (.str r.description))

/-- A link; the item is left out if it leads to a module. -/
def Link.toJson (l : Link) : Json :=
  .obj (Json.member "module" (.str l.module) ++ Json.member? "item" l.item
    ++ Json.member "href" (.str l.href))

/-- A reference with its target, null if it has none. -/
def Reference.toJson (r : Reference) : Json :=
  .obj [("text", .str r.text), ("target", r.target.elim .null Link.toJson)]

/-- An item with all its members, also the empty ones. -/
def Item.toJson (i : Item) : Json :=
  .obj [
    ("name", .str i.name),
    ("class", .str i.kind),
    ("summary", .str i.summary),
    ("description", .str i.description),
    ("params", .arr (i.params.map Param.toJson)),
    ("returns", .arr (i.returns.map ReturnValue.toJson)),
    ("fields", .arr (i.fields.map Param.toJson)),
    ("see", .arr (i.see.map Reference.toJson)),
    ("usage", .ofTexts i.usage),
    ("raise", .ofTexts i.raise),
    ("tags", i.tags.toJson),
    ("line", .nat i.line),
    ("inferred", .bool i.inferred),
    ("file", .str i.file.text)]

/-- A section; the title of the children is left out if there is none. -/
def Section.toJson (s : Section) : Json :=
  .obj (Json.member "kind" (.str s.kind) ++ Json.member "title" (.str s.title)
    ++ Json.member? "child_title" s.childTitle
    ++ Json.member "items" (.arr (s.items.map Item.toJson)))

/-- A module with its sections. -/
def Module.toJson (m : Module) : Json :=
  .obj [
    ("name", .str m.name),
    ("kind", .str m.kind),
    ("summary", .str m.summary),
    ("description", .str m.description),
    ("tags", m.tags.toJson),
    ("files", .arr (m.files.map fun file => .str file.text)),
    ("sections", .arr (m.sections.map Section.toJson))]

/-- A section of the index, which names its modules only. -/
def IndexSection.toJson (s : IndexSection) : Json :=
  .obj [("kind", .str s.kind), ("title", .str s.title), ("modules", .ofTexts s.modules)]

/-- A project for tools and templates: its title, its modules by name and its index. Modules and
    tags are objects in the order of the model. -/
def Project.toJson (p : Project) : Json :=
  .obj [
    ("project", .ofOption p.title),
    ("modules", .obj (p.modules.map fun m => (m.name, m.toJson))),
    ("index", .arr (p.index.map IndexSection.toJson))]

/-- The text of a project, ended by a line feed. -/
def Project.render (p : Project) : Text :=
  p.toJson.print ++ ['\n']

/-- An output format. -/
inductive Format where
  | json
  deriving DecidableEq, Repr

/-- The format of a name. -/
def Format.ofName (name : Text) : Except Failure Format :=
  if name = "json" then .ok .json else .error (.config (.unsupportedFormat name))

/-- The text of a project in a format. -/
def Format.render : Format → Project → Text
  | .json, p => p.render

end SourceDoc
