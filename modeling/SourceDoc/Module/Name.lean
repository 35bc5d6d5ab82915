import SourceDoc.Event

namespace SourceDoc.ModuleName

open SourceDoc.Path (Component)

/-- The components of a path below a package root, if it lies there. Components for the current
    directory do not count. -/
def below? (root path : Path) : Option (List Component) :=
  root.withoutCurrent.isPrefixOf? path.withoutCurrent

/-- The components a name is made of: those below the package root, all of them if the path lies
    elsewhere, and only the file name if there is no package root. -/
def relative (path : Path) : Option Path → List Component
  | some root => (below? root path).getD path.withoutCurrent
  | none => path.fileName?.elim path.components fun name => [.normal name]

/-- Removes the extension of a last component that is a name. -/
def dropExtension (cs : List Component) : List Component :=
  match cs.getLast? with
  | some (.normal name) => cs.dropLast ++ (Component.ofPiece? (Path.splitName name).1).toList
  | _ => cs

/-- The name of a component that has one. -/
def nameOf? : Component → Option Text
  | .normal name => some name
  | _ => none

/-- A directory's own module lives in a file `init`, which is left out of its name. -/
def dropInit (parts : List Text) : List Text :=
  if 1 < parts.length ∧ parts.getLast? = some ("init" : Text) then parts.dropLast else parts

/-- Name of the module in a file: the components below the package root, joined by points, without
    the extension. -/
def ofPath (path : Path) (package : Option Path) : Text :=
  match dropInit ((dropExtension (relative path package)).filterMap nameOf?) with
  | [] => path.text
  | parts => Text.join "." parts

/-- What naming the module in a file reports: a file outside the package root. -/
def events (path : Path) : Option Path → List Event
  | none => []
  | some root =>
    if (below? root path).isSome then []
    else [.outsidePackage (.ofComponents path.withoutCurrent) (.ofComponents root.withoutCurrent)]

/-- The name of an item without the table it is a member of, if that table stands for the module:
    it has the last part of the module's name, or is `M` or `_M`. Methods keep their table. -/
def shortName (name module : Text) : Text :=
  match Text.cutBefore? (fun c => c == '.' || c == ':') name with
  | some (table, _ :: rest) =>
    let last := ((Text.split '.' module).getLast?).getD module
    let isModuleTable := table = last ∨ table = "M" ∨ table = "_M"
    if rest ≠ [] ∧ isModuleTable ∧ ':' ∉ rest then rest else name
  | _ => name

end SourceDoc.ModuleName
