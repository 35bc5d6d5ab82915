import SourceDoc.CommandLine.Report
import SourceDoc.Glob.Search
import SourceDoc.Path
import SourceDoc.Workspace.Basic

namespace SourceDoc.Inputs

/-- The pattern for everything below a directory. -/
def walkPattern (dir : Path) : Text :=
  ((dir.append "**").append "*").text

variable (find : Glob.Finder) (fs : FileSystem)

/-- The files among the paths that match a pattern. -/
def filesMatching (summary pattern : Text) : Except Report (List Path) :=
  match find pattern with
  | .error fault => .error ⟨summary, [fault.message]⟩
  | .ok paths => .ok (paths.filter fs.isFile)

/-- The files one input stands for: a file, a directory whose files with a known extension are
    taken, or a pattern. How the paths that match a pattern are found is left open. -/
def expandOne (w : Workspace) (input : Text) : Except Report (List Path) :=
  let path : Path := ⟨input⟩
  if fs.isFile path then .ok [path]
  else if fs.isDir path then
    (filesMatching find fs ("failed to read directory: " ++ input) (walkPattern path)).map
      (·.filter w.supports)
  else filesMatching find fs ("invalid glob pattern: " ++ input) input

/-- The files all inputs stand for, in the order of paths and each place once. -/
def expand (w : Workspace) (inputs : List Text) : Except Report (List Path) := do
  let found ← inputs.mapM (expandOne find fs w)
  return Path.sorted found.flatten

/-- What expanding an input reports: a pattern that no file matches. -/
def expandOneEvents (input : Text) : List Event :=
  if fs.isFile ⟨input⟩ || fs.isDir ⟨input⟩ then []
  else
    match filesMatching find fs input input with
    | .ok [] => [.unmatchedPattern input]
    | _ => []

/-- What expanding inputs reports, up to the first that fails. -/
def expandEvents (w : Workspace) : List Text → List Event
  | [] => []
  | input :: rest =>
    match expandOne find fs w input with
    | .error _ => []
    | .ok _ => expandOneEvents find fs input ++ expandEvents w rest

end SourceDoc.Inputs
