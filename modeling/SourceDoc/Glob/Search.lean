import SourceDoc.FileTree.Access
import SourceDoc.Glob.Pattern

namespace SourceDoc.Glob

/-- Whether the last name of a path matches a part. -/
def Part.acceptsName (part : Part) (path : Path) : Bool :=
  match part, path.fileName? with
  | .name tokens, some last => accepts tokens last
  | _, _ => false

/-- The current and the parent directory, as far as a part that starts with a dot matches them. -/
def specials (tokens : List Token) : List Text :=
  if tokens.head? = some (.char '.') then [(".." : Text), "."].filter (accepts tokens) else []

/-- The paths below a directory that match the parts of a pattern. -/
def search (fs : FileSystem) (requiresDir : Bool) : List Part → Path → List Path
  | [], path => if !requiresDir || fs.isDir path then [path] else []
  | [.deep], path =>
    (((fs.tree? path).getD (.dir [])).descendants path).filterMap fun (found, tree) =>
      if tree.isDir then some found else none
  | .deep :: part :: parts, path =>
    let found := (((fs.tree? path).getD (.dir [])).descendants path).map (·.1)
    (found.filter part.acceptsName).flatMap (search fs requiresDir parts)
  | .name tokens :: parts, path =>
    match literal? tokens with
    | some name =>
      let next := FileTree.entryPath path name
      let isSpecial := name = "." ∨ name = ".."
      if (isSpecial ∧ fs.isDir path = true) ∨ (¬isSpecial ∧ fs.contains next = true) then
        search fs requiresDir parts next
      else []
    | none =>
      match fs.tree? path with
      | some (.dir es) =>
        let names := (es.map (·.1)).filter (accepts tokens)
        (specials tokens).flatMap (fun name => search fs requiresDir parts (path.append name))
          ++ names.flatMap fun name => search fs requiresDir parts (FileTree.entryPath path name)
      | _ => []

/-- The paths that match a pattern. Names with a leading dot match like any other. -/
def Pattern.matching (p : Pattern) (fs : FileSystem) : List Path :=
  search fs p.requiresDir p.parts (if p.isAbsolute then ⟨"/"⟩ else ⟨"."⟩)

/-- A way to find the paths that match a pattern, given as text. -/
abbrev Finder := Text → Except PatternFault (List Path)

/-- The paths in a file system that match a pattern. -/
def finder (fs : FileSystem) : Finder := fun t =>
  (Pattern.parse t).map (·.matching fs)

end SourceDoc.Glob
