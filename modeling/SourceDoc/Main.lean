import SourceDoc.CommandLine.Run

namespace SourceDoc.Main

/-- The name of a place in the real file system. -/
def nameOf (place : List Text) : String :=
  "/" ++ String.intercalate "/" (place.map String.ofList)

/-- Loads a file, or a directory with all that is below it. What can not be read is left out, and a
    device is not read. -/
partial def loadTree (place : List Text) : IO (Option FileTree) := do
  let path := (← IO.currentDir) / nameOf place
  try
    match (← path.metadata).type with
    | .dir =>
      let mut entries := []
      for entry in ← path.readDir do
        let name := entry.fileName.toList
        if let some tree ← loadTree (place ++ [name]) then
          entries := (name, tree) :: entries
      return some (.dir entries)
    | .file => return some (.file (← IO.FS.readBinFile path))
    | _ => return some (.device { sink := .discard })
  catch _ => return none

/-- Loads what stands at a place, without the entries of a directory, unless it is known already. -/
def loadEntry (fs : FileSystem) (place : List Text) : IO (Option FileSystem) := do
  if (fs.root.at? place).isSome then return some fs
  let path := (← IO.currentDir) / nameOf place
  if ← path.isDir then return some { fs with root := fs.root.put (.dir []) place }
  match ← loadTree place with
  | some tree => return some { fs with root := fs.root.put tree place }
  | none => return none

/-- Loads what stands along the pieces of a path, and all below its end. -/
def loadPieces (fs : FileSystem) (place : List Text) : List Text → IO FileSystem
  | [] => do
    match ← loadTree place with
    | some tree => return { fs with root := fs.root.put tree place }
    | none => return fs
  | piece :: pieces => do
    if piece = "" ∨ piece = "." then loadPieces fs place pieces
    else if piece = ".." then loadPieces fs place.dropLast pieces
    else
      match ← loadEntry fs (place ++ [piece]) with
      | some fs => loadPieces fs (place ++ [piece]) pieces
      | none => return fs

/-- Whether a piece of a pattern has to be compared with names. -/
def isWild (piece : Text) : Bool :=
  piece.any fun c => c == '*' || c == '?' || c == '['

/-- Loads what a path or a pattern can lead to. -/
def load (fs : FileSystem) (t : Text) : IO FileSystem :=
  let (start, pieces) := fs.startOf ⟨t⟩
  loadPieces fs start (pieces.takeWhile (!isWild ·))

/-- Reads the device a path leads to, if it is one. -/
def loadDevice (fs : FileSystem) (path : Path) : IO FileSystem := do
  match fs.locate path with
  | .error _ => return fs
  | .ok place =>
    match fs.root.at? place with
    | some (.device d) =>
      try
        let content ← IO.FS.readBinFile (String.ofList path.text)
        return { fs with root := fs.root.put (.device { d with content }) place }
      catch _ => return fs
    | _ => return fs

/-- Loads what the output path leads through. -/
def loadOutput (fs : FileSystem) (path : Path) : IO FileSystem := do
  let (start, pieces) := fs.startOf path
  let mut known := fs
  let mut place := start
  for piece in pieces do
    if piece = ".." then place := place.dropLast
    else if piece ≠ "" ∧ piece ≠ "." then
      place := place ++ [piece]
      match ← loadEntry known place with
      | some more => known := more
      | none => return known
  return known

/-- Loads all that a run can look at. -/
def loadFor (i : Invocation) : IO FileSystem := do
  let current := (Text.split '/' (← IO.currentDir).toString.toList).filter (!·.isEmpty)
  let start : FileSystem :=
    { root := FileTree.put (.dir []) (.dir []) current, current }
  let mut fs ← load start (i.config.getD Invocation.defaultConfig).text
  if let some path := i.config then
    fs ← loadDevice fs path
  for input in i.inputs do
    fs ← load fs input
  match i.output with
  | some path => loadOutput fs path
  | none => return fs

/-- Writes the output file of a run. -/
def store (path : Path) (t : Text) : IO UInt32 := do
  try
    IO.FS.withFile (String.ofList path.text) .write fun handle => do
      handle.write (FileSystem.encode t)
      handle.flush
    return 0
  catch e =>
    let report : Report := ⟨"failed to write " ++ path.text, [(toString e).toList]⟩
    IO.eprint (String.ofList report.text)
    return 1

/-- Carries out an invocation: loads the files a run can look at into a `FileSystem`, carries out
    the run there, and passes on what the run prints and writes. -/
def execute (i : Invocation) : IO UInt32 := do
  let fs ← loadFor i
  for event in i.events fs do
    if i.verbose || event.level == .warn then
      IO.eprintln (String.ofList event.line)
  let (result, after) := i.perform.runIn { files := fs }
  IO.print (String.ofList after.printed)
  match result, i.output with
  | .error report, _ =>
    IO.eprint (String.ofList report.text)
    return 1
  | .ok _, none => return 0
  | .ok document, some path => store path document

end SourceDoc.Main

/-- The program: 0 when it succeeds, 1 when a run fails, 2 when the arguments are refused. -/
def main (arguments : List String) : IO UInt32 := do
  match SourceDoc.Invocation.parse (arguments.map String.toList) with
  | .ok i => SourceDoc.Main.execute i
  | .error .help =>
    IO.print (String.ofList SourceDoc.Invocation.usage)
    return 0
  | .error refusal =>
    IO.eprintln (String.ofList ("error: ".toList ++ refusal.message))
    return 2
