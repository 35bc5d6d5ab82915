import SourceDoc.Config.Basic
import SourceDoc.Toml.Document

namespace SourceDoc

namespace Toml

/-- The text of a string value. -/
def asText? : Toml → Option Text
  | .str t => some t
  | _ => none

/-- The truth value of a boolean value. -/
def asBool? : Toml → Option Bool
  | .bool b => some b
  | _ => none

/-- The values of an array, each read in the same way. -/
def asList? {α : Type} (read : Toml → Option α) : Toml → Option (List α)
  | .array vs => vs.mapM read
  | _ => none

/-- Key under which a date or time stands when it is read as a table. -/
def momentKey : Text :=
  "$__toml_private_datetime"

/-- A table of texts, in the order of its keys. A date or time is a table with one entry. -/
def asTexts? : Toml → Option (List (Text × Text))
  | .table ms => do
    let entries ← ms.mapM fun (key, v) => v.asText?.map (key, ·)
    return entries.mergeSort fun a b => Text.le a.1 b.1
  | .moment t => some [(momentKey, t)]
  | _ => none

/-- Reads a member that may be missing. -/
def optional? {α : Type} (read : Toml → Option α) (key : Text) (ms : List (Text × Toml)) :
    Option (Option α) :=
  match ms.lookup key with
  | none => some none
  | some v => (read v).map some

/-- Reads a member that may be missing and then has a default. -/
def withDefault? {α : Type} (read : Toml → Option α) (key : Text) (default : α)
    (ms : List (Text × Toml)) : Option α :=
  (optional? read key ms).map (·.getD default)

/-- Reads a member that has to be there. -/
def required? {α : Type} (read : Toml → Option α) (key : Text) (ms : List (Text × Toml)) :
    Option α :=
  (ms.lookup key).bind read

/-- Reads the first of several values in order; a missing one has a default. -/
def first? {α : Type} (read : Toml → Option α) (default : α) : List Toml → Option α
  | [] => some default
  | v :: _ => read v

end Toml

open Toml

/-- A tag as configured. Written as an array, the name comes first and may stand alone. -/
def TagConfig.ofToml? : Toml → Option TagConfig
  | .table ms => do
    return ⟨← required? asText? "name" ms, ← withDefault? asBool? "project" false ms⟩
  | .array (name :: rest) => do
    return ⟨← name.asText?, ← first? asBool? false rest⟩
  | _ => none

/-- A kind of modules or items as configured. Written as an array, no field may be missing. -/
def TypeConfig.ofToml? : Toml → Option TypeConfig
  | .table ms => do
    return ⟨← required? asText? "id" ms, ← required? asText? "title" ms,
      ← withDefault? asBool? "project" false ms, ← optional? asText? "child_title" ms⟩
  | .array (id :: title :: isProjectLevel :: childTitle :: _) => do
    return ⟨← id.asText?, ← title.asText?, ← isProjectLevel.asBool?, some (← childTitle.asText?)⟩
  | _ => none

/-- A kind of items as configured. Written as an array, no field may be missing. -/
def SectionConfig.ofToml? : Toml → Option SectionConfig
  | .table ms => do
    return ⟨← required? asText? "id" ms, ← required? asText? "title" ms,
      ← optional? asText? "child_title" ms⟩
  | .array (id :: title :: childTitle :: _) => do
    return ⟨← id.asText?, ← title.asText?, some (← childTitle.asText?)⟩
  | _ => none

/-- Reads a configuration from the members of a document. Keys without a meaning are passed over,
    and a record may be written as a table or as an array of its fields in order. -/
def Config.ofMembers? (ms : List (Text × Toml)) : Option Config := do
  return {
    project := ← optional? asText? "project" ms
    package := (← optional? asText? "package" ms).map Path.mk
    keepLocals := ← withDefault? asBool? "all" false ms
    format := ← optional? asText? "format" ms
    aliases := ← withDefault? asTexts? "aliases" [] ms
    tags := ← withDefault? (asList? TagConfig.ofToml?) "tags" [] ms
    types := ← withDefault? (asList? TypeConfig.ofToml?) "types" [] ms
    sections := ← withDefault? (asList? SectionConfig.ofToml?) "sections" [] ms
    extensions := ← withDefault? asTexts? "extensions" [] ms }

/-- Reads a configuration and checks it for faults. -/
def Config.parse (t : Text) : Except Failure Config :=
  match (Toml.document? t).bind Config.ofMembers? with
  | none => .error .toml
  | some c => c.validated

end SourceDoc
