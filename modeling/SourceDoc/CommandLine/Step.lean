import SourceDoc.CommandLine.Report
import SourceDoc.FileTree.Access

namespace SourceDoc

/-- What a run can see and change. -/
structure World where
  files : FileSystem
  /-- What was printed so far. -/
  printed : Text := []

/-- A step of a run. It may look at the files, write one, print, or fail with a report. A failure
    does not undo what was done before it. -/
abbrev Step (α : Type) : Type :=
  ExceptT Report (StateM World) α

namespace Step

/-- Carries out a step. -/
def runIn {α : Type} (s : Step α) (w : World) : Except Report α × World :=
  StateT.run (ExceptT.run s) w

/-- Finds something out from the files as they are. -/
def look {α : Type} (find : FileSystem → Except Report α) : Step α := do
  match find (← get).files with
  | .ok a => return a
  | .error report => throw report

/-- Prints a text. -/
def print (t : Text) : Step Unit :=
  modify fun w => { w with printed := w.printed ++ t }

/-- Writes a text to a file, or prints it if the file is one that prints. -/
def write (path : Path) (t : Text) : Step Unit := do
  let w ← get
  match w.files.write path t with
  | .ok written => set (World.mk written.files (w.printed ++ written.printed))
  | .error fault => throw ⟨"failed to write " ++ path.text, [fault.message]⟩

end Step

end SourceDoc
