import SourceDoc.Declaration
import SourceDoc.Item.Basic
import SourceDoc.Tag.DocText

namespace SourceDoc.Item

/-- The kind a declaration suggests. -/
def kindOfShape : Declaration.Shape → Text
  | .function _ => Kind.functionId
  | .table => Kind.tableId
  | .variable => Kind.fieldId

/-- Kind of a block, which is its class, and whether it comes from the declaration. -/
def kind? (doc : DocText) (decl : Option Declaration) : Option (Text × Bool) :=
  match doc.tags.first? "class" with
  | some kind => some (kind, false)
  | none => decl.map fun d => (kindOfShape d.shape, true)

/-- Name of a block and whether it comes from the declaration. An empty name counts as none. -/
def name? (doc : DocText) (decl : Option Declaration) : Option (Text × Bool) :=
  match (doc.tags.first? "name").filter (!·.isEmpty) with
  | some name => some (name, false)
  | none => (decl.filter (!·.name.isEmpty)).map fun d => (d.name, true)

/-- The tags of a block without those that give its class and name. -/
def otherTags (doc : DocText) : TagTable :=
  (doc.tags.erase "class").erase "name"

/-- A function is a local function if a tag or its declaration says so. -/
def finalKind (kind : Text) (tags : TagTable) (decl : Option Declaration) : Text :=
  if kind = Kind.functionId ∧ (tags.contains "local" || decl.any (·.isLocal)) = true then
    Kind.localFunctionId
  else kind

/-- Names of the parameters a declaration has, if it is a function's. -/
def declaredParams? (decl : Option Declaration) : Option (List Text) :=
  match decl with
  | some ⟨_, .function params, _⟩ => some params
  | _ => none

/-- Parameters of an item: as documented, or in the order of a declared function. -/
def paramsOf (tags : TagTable) (decl : Option Declaration) : List Param :=
  let documented := Param.ofTags tags "param" "tparam"
  match declaredParams? decl with
  | some names => Param.ordered names documented
  | none => documented

/-- Values a function gives back: those without a type, then those with one. -/
def returnsOf (tags : TagTable) : List ReturnValue :=
  (tags.values "return").map (fun value => ⟨none, value⟩)
    ++ (tags.values "treturn").map fun value =>
      let (type, description) := Param.splitWord value
      ⟨some type, description⟩

/-- References of an item: the parts of its `see` values between commas. -/
def referencesOf (tags : TagTable) : List Reference :=
  let parts := ((tags.values "see").flatMap (Text.split ',')).map Text.trim
  (parts.filter (!·.isEmpty)).map fun part => { text := part }

/-- Builds an item from a doc block and the declaration after it; `none` if it has no class or no
    name. Both come from tags, or else from the declaration. -/
def build? (doc : DocText) (decl : Option Declaration) (file : Path) (line : Nat) : Option Item := do
  let (kind, kindInferred) ← kind? doc decl
  let (name, nameInferred) ← name? doc decl
  let tags := otherTags doc
  return {
    name
    kind := finalKind kind tags decl
    summary := doc.summary
    description := doc.description
    params := paramsOf tags decl
    returns := returnsOf tags
    fields := Param.ofTags tags "field" "tfield"
    see := referencesOf tags
    usage := tags.values "usage"
    raise := tags.values "raise"
    tags
    line
    inferred := kindInferred || nameInferred
    file }

/-- An item that is built has a class and a name, and all else from the block. -/
theorem eq_of_build? {doc : DocText} {decl : Option Declaration} {file : Path} {line : Nat}
    {item : Item} (h : build? doc decl file line = some item) :
    ∃ kind kindInferred name nameInferred, kind? doc decl = some (kind, kindInferred) ∧
      name? doc decl = some (name, nameInferred) ∧
      item =
        { name
          kind := finalKind kind (otherTags doc) decl
          summary := doc.summary
          description := doc.description
          params := paramsOf (otherTags doc) decl
          returns := returnsOf (otherTags doc)
          fields := Param.ofTags (otherTags doc) "field" "tfield"
          see := referencesOf (otherTags doc)
          usage := (otherTags doc).values "usage"
          raise := (otherTags doc).values "raise"
          tags := otherTags doc
          line
          inferred := kindInferred || nameInferred
          file } := by
  obtain ⟨⟨kind, kindInferred⟩, hkind, h⟩ := Option.bind_eq_some_iff.mp h
  obtain ⟨⟨name, nameInferred⟩, hname, h⟩ := Option.bind_eq_some_iff.mp h
  exact ⟨kind, kindInferred, name, nameInferred, hkind, hname, (Option.some.inj h).symm⟩

/-- What building an item reports: a class without a name, or each documented parameter that the
    declared function does not have. -/
def buildEvents (doc : DocText) (decl : Option Declaration) (file : Path) (line : Nat) :
    List Event :=
  match kind? doc decl, name? doc decl with
  | none, _ => []
  | some (kind, _), none => [.namelessBlock file line kind]
  | some _, some (name, _) =>
    match declaredParams? decl with
    | none => []
    | some names =>
      (Param.undeclared names (Param.ofTags (otherTags doc) "param" "tparam")).map fun param =>
        .undeclaredParam file line name param.name

/-- The item for a doc block that opens a module. Its name may be empty until one is inferred. -/
def seed (doc : DocText) (kind : Text) (file : Path) (line : Nat) (inferred : Bool) : Item :=
  let tags := otherTags doc
  { name := (doc.tags.first? "name").getD []
    kind
    summary := doc.summary
    description := doc.description
    usage := tags.values "usage"
    tags
    line
    inferred
    file }

end SourceDoc.Item
