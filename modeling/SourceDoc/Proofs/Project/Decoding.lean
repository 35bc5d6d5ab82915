import SourceDoc.Project.Render
import SourceDoc.Proofs.Json.Reader

namespace SourceDoc

namespace Json

/-- The value of the first member of a name. Members are looked up by name, so their order does not
    matter, except where it is part of the project: that of modules and of tags. -/
def get? (name : Text) : Json → Option Json
  | .obj ms => ms.lookup name
  | _ => none

/-- The text that a value is. -/
def text? : Json → Option Text
  | .str t => some t
  | _ => none

/-- The number that a value is. -/
def nat? : Json → Option Nat
  | .nat n => some n
  | _ => none

/-- The truth value that a value is. -/
def bool? : Json → Option Bool
  | .bool b => some b
  | _ => none

/-- The list that an array is, given how its values are read. -/
def list? {α : Type} (read : Json → Option α) : Json → Option (List α)
  | .arr vs => vs.mapM read
  | _ => none

/-- The text of a member that may be left out. -/
def optional? (name : Text) (v : Json) : Option (Option Text) :=
  match v.get? name with
  | none => some none
  | some v => v.text?.map some

/-- What a value stands for that is null if there is none. -/
def nullable? {α : Type} (read : Json → Option α) : Json → Option (Option α)
  | .null => some none
  | v => (read v).map some

end Json

/-- Reads the value of a tag: a string is a single value, an array a list. -/
def TagValue.ofJson? : Json → Option TagValue
  | .str t => some (.single t)
  | v => (v.list? Json.text?).map .list

/-- Reads a tag with its value from a member. -/
def TagTable.entryOfMember? (m : Text × Json) : Option (Text × TagValue) :=
  (TagValue.ofJson? m.2).map (m.1, ·)

/-- Reads tags from the members of an object. -/
def TagTable.ofJson? : Json → Option TagTable
  | .obj ms => (ms.mapM entryOfMember?).map TagTable.mk
  | _ => none

/-- Reads a parameter or field. -/
def Param.ofJson? (v : Json) : Option Param := do
  let name ← (← v.get? "name").text?
  let type ← v.optional? "type"
  let description ← (← v.get? "description").text?
  return { name, type, description }

/-- Reads a return value. -/
def ReturnValue.ofJson? (v : Json) : Option ReturnValue := do
  let type ← v.optional? "type"
  let description ← (← v.get? "description").text?
  return { type, description }

/-- Reads a link. -/
def Link.ofJson? (v : Json) : Option Link := do
  let module ← (← v.get? "module").text?
  let item ← v.optional? "item"
  let href ← (← v.get? "href").text?
  return { module, item, href }

/-- Reads a reference. -/
def Reference.ofJson? (v : Json) : Option Reference := do
  let text ← (← v.get? "text").text?
  let target ← (← v.get? "target").nullable? Link.ofJson?
  return { text, target }

/-- Reads a path, which is its text. -/
def Path.ofJson? (v : Json) : Option Path :=
  v.text?.map Path.mk

/-- Reads an item. -/
def Item.ofJson? (v : Json) : Option Item := do
  let name ← (← v.get? "name").text?
  let kind ← (← v.get? "class").text?
  let summary ← (← v.get? "summary").text?
  let description ← (← v.get? "description").text?
  let params ← (← v.get? "params").list? Param.ofJson?
  let returns ← (← v.get? "returns").list? ReturnValue.ofJson?
  let fields ← (← v.get? "fields").list? Param.ofJson?
  let see ← (← v.get? "see").list? Reference.ofJson?
  let usage ← (← v.get? "usage").list? Json.text?
  let raise ← (← v.get? "raise").list? Json.text?
  let tags ← TagTable.ofJson? (← v.get? "tags")
  let line ← (← v.get? "line").nat?
  let inferred ← (← v.get? "inferred").bool?
  let file ← Path.ofJson? (← v.get? "file")
  return { name, kind, summary, description, params, returns, fields, see, usage, raise, tags, line,
           inferred, file }

/-- Reads a section. -/
def Section.ofJson? (v : Json) : Option Section := do
  let kind ← (← v.get? "kind").text?
  let title ← (← v.get? "title").text?
  let childTitle ← v.optional? "child_title"
  let items ← (← v.get? "items").list? Item.ofJson?
  return { kind, title, childTitle, items }

/-- Reads a module. -/
def Module.ofJson? (v : Json) : Option Module := do
  let name ← (← v.get? "name").text?
  let kind ← (← v.get? "kind").text?
  let summary ← (← v.get? "summary").text?
  let description ← (← v.get? "description").text?
  let tags ← TagTable.ofJson? (← v.get? "tags")
  let files ← (← v.get? "files").list? Path.ofJson?
  let sections ← (← v.get? "sections").list? Section.ofJson?
  return { name, kind, summary, description, tags, files, sections }

/-- Reads the modules that are the members of an object; each has its name inside, too. -/
def Module.allOfJson? : Json → Option (List Module)
  | .obj ms => ms.mapM fun member => Module.ofJson? member.2
  | _ => none

/-- Reads a section of the index. -/
def IndexSection.ofJson? (v : Json) : Option IndexSection := do
  let kind ← (← v.get? "kind").text?
  let title ← (← v.get? "title").text?
  let modules ← (← v.get? "modules").list? Json.text?
  return { kind, title, modules }

namespace Project

/-- Reads a project. -/
def ofJson? (v : Json) : Option Project := do
  let title ← (← v.get? "project").nullable? Json.text?
  let modules ← Module.allOfJson? (← v.get? "modules")
  let index ← (← v.get? "index").list? IndexSection.ofJson?
  return { title, modules, index }

/-- The project that a text stands for. -/
def decode? (t : Text) : Option Project :=
  (Json.read? t).bind ofJson?

end Project

/-- A list is read back if each of its members is. -/
theorem mapM_map_eq_some {α β : Type} {write : α → β} {read : β → Option α}
    (hread : ∀ a, read (write a) = some a) (as : List α) : (as.map write).mapM read = some as := by
  induction as with
  | nil => rfl
  | cons a as ih => simp [List.mapM_cons, hread, ih]

namespace Json

@[simp] theorem text?_str (t : Text) : (Json.str t).text? = some t := rfl

@[simp] theorem nat?_nat (n : Nat) : (Json.nat n).nat? = some n := rfl

@[simp] theorem bool?_bool (b : Bool) : (Json.bool b).bool? = some b := rfl

theorem list?_arr_map {α : Type} {write : α → Json} {read : Json → Option α}
    (hread : ∀ a, read (write a) = some a) (as : List α) :
    (Json.arr (as.map write)).list? read = some as :=
  mapM_map_eq_some hread as

@[simp] theorem list?_ofTexts (ts : List Text) : (ofTexts ts).list? text? = some ts :=
  list?_arr_map text?_str ts

@[simp] theorem nullable?_ofOption (t : Option Text) :
    (ofOption t).nullable? text? = some t := by
  cases t <;> rfl

end Json

/-- A single value and a list of one value are written differently, so neither is taken for the
    other. -/
@[simp] theorem TagValue.ofJson?_toJson (v : TagValue) : ofJson? v.toJson = some v := by
  cases v with
  | single value => rfl
  | list values =>
    have hlist := Json.list?_ofTexts values
    exact congrArg (Option.map TagValue.list) hlist

@[simp] theorem TagTable.ofJson?_toJson (t : TagTable) : ofJson? t.toJson = some t := by
  have hentry (entry : Text × TagValue) :
      entryOfMember? (entry.1, entry.2.toJson) = some entry := by
    simp [entryOfMember?]
  have hentries := mapM_map_eq_some hentry t.entries
  exact congrArg (Option.map TagTable.mk) hentries

theorem Param.ofJson?_toJson (p : Param) : ofJson? p.toJson = some p := by
  obtain ⟨name, type, description⟩ := p
  cases type <;> rfl

theorem ReturnValue.ofJson?_toJson (r : ReturnValue) : ofJson? r.toJson = some r := by
  obtain ⟨type, description⟩ := r
  cases type <;> rfl

theorem Link.ofJson?_toJson (l : Link) : ofJson? l.toJson = some l := by
  obtain ⟨module, item, href⟩ := l
  cases item <;> rfl

theorem Reference.ofJson?_toJson (r : Reference) : ofJson? r.toJson = some r := by
  obtain ⟨text, target⟩ := r
  cases target with
  | none => rfl
  | some link =>
    have hlink : link.toJson.nullable? Link.ofJson? = some (some link) :=
      congrArg (Option.map some) (Link.ofJson?_toJson link)
    simp [ofJson?, toJson, Json.get?, List.lookup_cons, hlink]

@[simp] theorem Path.ofJson?_str (path : Path) : ofJson? (.str path.text) = some path := rfl

/-- All that an item says is written, also what is empty or not there. -/
theorem Item.ofJson?_toJson (i : Item) : ofJson? i.toJson = some i := by
  have hparams := Json.list?_arr_map Param.ofJson?_toJson
  have hreturns := Json.list?_arr_map ReturnValue.ofJson?_toJson i.returns
  have hsee := Json.list?_arr_map Reference.ofJson?_toJson i.see
  simp [ofJson?, toJson, Json.get?, List.lookup_cons, hparams, hreturns, hsee]

theorem Section.ofJson?_toJson (s : Section) : ofJson? s.toJson = some s := by
  obtain ⟨kind, title, childTitle, items⟩ := s
  have hitems := Json.list?_arr_map Item.ofJson?_toJson items
  cases childTitle <;>
    simp [ofJson?, toJson, Json.get?, Json.optional?, Json.member, Json.member?, List.lookup_cons,
      hitems]

theorem Module.ofJson?_toJson (m : Module) : ofJson? m.toJson = some m := by
  have hfiles := Json.list?_arr_map Path.ofJson?_str m.files
  have hsections := Json.list?_arr_map Section.ofJson?_toJson m.sections
  simp [ofJson?, toJson, Json.get?, List.lookup_cons, hfiles, hsections]

/-- Modules are read back in their order, each under the name it has inside. -/
theorem Module.allOfJson?_toJson (ms : List Module) :
    allOfJson? (.obj (ms.map fun m => (m.name, m.toJson))) = some ms := by
  apply mapM_map_eq_some
  intro m
  exact ofJson?_toJson m

theorem IndexSection.ofJson?_toJson (s : IndexSection) : ofJson? s.toJson = some s := by
  simp [ofJson?, toJson, Json.get?, List.lookup_cons]

namespace Project

/-- No part of a project is left out or mixed up with another. -/
theorem ofJson?_toJson (p : Project) : ofJson? p.toJson = some p := by
  have hmodules := Module.allOfJson?_toJson p.modules
  have hindex := Json.list?_arr_map IndexSection.ofJson?_toJson p.index
  simp [ofJson?, toJson, Json.get?, List.lookup_cons, hmodules, hindex]

theorem read?_render (p : Project) : Json.read? p.render = some p.toJson :=
  Json.read?_print p.toJson rfl

/-- A rendered text loses nothing of the project. -/
theorem decode?_render (p : Project) : decode? p.render = some p := by
  rw [decode?, read?_render, Option.bind_some, ofJson?_toJson]

end Project

end SourceDoc
