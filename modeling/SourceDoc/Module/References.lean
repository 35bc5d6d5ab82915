import SourceDoc.Module.Merge

namespace SourceDoc

namespace ModuleDraft

/-- Whether a module has an item of the given name. -/
def hasItem (m : ModuleDraft) (name : Text) : Bool :=
  m.items.any (·.name = name)

/-- Whether the module of the given name has an item of the given name. -/
def defines (ms : List ModuleDraft) (module item : Text) : Bool :=
  ms.any fun m => m.name = module && m.hasItem item

/-- The link to an item qualified by its module: the part before the last point or colon. -/
def qualified? (ms : List ModuleDraft) (t : Text) : Option Link :=
  match Text.cutAroundLast? (fun c => c == '.' || c == ':') t with
  | some (module, item) => if defines ms module item then some (.toItem module item) else none
  | none => none

/-- The target of a reference made in the module `current`: an item of that module, an item of
    another one, a module, or an item qualified by its module, tried in this order. -/
def target? (ms : List ModuleDraft) (current t : Text) : Option Link :=
  if Link.isExternal t then none
  else if defines ms current t then some (.toItem current t)
  else
    match ms.find? (·.hasItem t) with
    | some m => some (.toItem m.name t)
    | none => if ms.any (·.name = t) then some (.toModule t) else qualified? ms t

/-- An item of the module `current` with its references linked. -/
def linkItem (ms : List ModuleDraft) (current : Text) (item : Item) : Item :=
  { item with see := item.see.map fun r => { r with target := target? ms current r.text } }

/-- Links every reference of every item. -/
def linkAll (ms : List ModuleDraft) : List ModuleDraft :=
  ms.map fun m => { m with items := m.items.map (linkItem ms m.name) }

/-- What linking an item reports: each reference without a target that is no link already. -/
def linkItemEvents (ms : List ModuleDraft) (current : Text) (item : Item) : List Event :=
  item.see.filterMap fun r =>
    if (target? ms current r.text).isNone && !Link.isExternal r.text then
      some (.unresolvedReference item.file item.line r.text)
    else none

/-- What linking all references reports. -/
def linkEvents (ms : List ModuleDraft) : List Event :=
  ms.flatMap fun m => m.items.flatMap (linkItemEvents ms m.name)

end ModuleDraft

end SourceDoc
