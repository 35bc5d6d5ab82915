import SourceDoc.Failure
import SourceDoc.FileTree.Basic

namespace SourceDoc

/-- A tree of files with a directory in which relative paths start. -/
structure FileSystem where
  root : FileTree
  /-- Names that lead from the root to the current directory. -/
  current : List Text := []

namespace FileSystem

/-- Largest number of bytes of a name in a directory. -/
def maxNameBytes : Nat :=
  255

/-- Largest number of bytes of a path. -/
def maxPathBytes : Nat :=
  4095

/-- Follows one piece of a path from a place given by names from the root. -/
def step (fs : FileSystem) (place : List Text) (piece : Text) : Except FileFault (List Text) :=
  match fs.root.at? place with
  | none => .error .notFound
  | some (.file _) | some (.device _) => .error .notDirectory
  | some (.dir es) =>
    if piece = "" ∨ piece = "." then .ok place
    else if piece = ".." then .ok place.dropLast
    else if maxNameBytes < piece.byteLength then .error .nameTooLong
    else if (es.lookup piece).isSome then .ok (place ++ [piece])
    else .error .notFound

/-- Where a path starts, and the pieces to follow from there. -/
def startOf (fs : FileSystem) (path : Path) : List Text × List Text :=
  match Text.split '/' path.text with
  | [] :: rest => if rest.isEmpty then (fs.current, []) else ([], rest)
  | pieces => (fs.current, pieces)

/-- The place a path leads to. It is followed piece by piece: every piece but the last has to lead
    to a directory, and so has the last one if a slash or a dot follows it. Names and paths have a
    largest length. -/
def locate (fs : FileSystem) (path : Path) : Except FileFault (List Text) :=
  if path.text.isEmpty then .error .notFound
  else if maxPathBytes < path.text.byteLength then .error .nameTooLong
  else
    let (start, pieces) := fs.startOf path
    pieces.foldlM fs.step start

/-- The tree a path leads to. -/
def tree? (fs : FileSystem) (path : Path) : Option FileTree :=
  match fs.locate path with
  | .ok place => fs.root.at? place
  | .error _ => none

/-- Whether a path leads to anything. -/
def contains (fs : FileSystem) (path : Path) : Bool :=
  (fs.tree? path).isSome

/-- Whether a path leads to a regular file. -/
def isFile (fs : FileSystem) (path : Path) : Bool :=
  (fs.tree? path).any (·.isFile)

/-- Whether a path leads to a directory. -/
def isDir (fs : FileSystem) (path : Path) : Bool :=
  (fs.tree? path).any (·.isDir)

/-- The text in UTF-8 bytes. -/
def decode? (content : ByteArray) : Option Text :=
  (String.fromUTF8? content).map String.toList

/-- The UTF-8 bytes of a text. -/
def encode (t : Text) : ByteArray :=
  (String.ofList t).toUTF8

/-- Reads bytes as text. -/
def decode (content : ByteArray) : Except FileFault Text :=
  match decode? content with
  | none => .error .notText
  | some t => .ok t

/-- Reads a file as text. -/
def read (fs : FileSystem) (path : Path) : Except FileFault Text := do
  let place ← fs.locate path
  match fs.root.at? place with
  | none => .error .notFound
  | some (.dir _) => .error .isDirectory
  | some (.device d) => decode d.content
  | some (.file content) => decode content

/-- The place a path would be written to. Its directory has to exist; a path that ends with a slash
    or leads to a directory can not be written. -/
def target (fs : FileSystem) (path : Path) : Except FileFault (List Text) :=
  let (start, pieces) := fs.startOf path
  let trimmed := (pieces.reverse.dropWhile (·.isEmpty)).reverse
  if maxPathBytes < path.text.byteLength then .error .nameTooLong
  else match trimmed.getLast? with
  | none => .error .isDirectory
  | some last => do
    let dir ← (trimmed.dropLast ++ [[]]).foldlM fs.step start
    let isSpecial := last = "." ∨ last = ".."
    if isSpecial ∨ trimmed.length < pieces.length then .error .isDirectory
    else if maxNameBytes < last.byteLength then .error .nameTooLong
    else if (fs.root.at? (dir ++ [last])).any (·.isDir) then .error .isDirectory
    else .ok (dir ++ [last])

/-- The files after a write, and what the write printed. -/
structure Written where
  files : FileSystem
  printed : Text := []

/-- Writes a text to a file, in place of what was there. A device stays as it is. -/
def write (fs : FileSystem) (path : Path) (t : Text) : Except FileFault Written := do
  let place ← fs.target path
  match fs.root.at? place with
  | some (.device d) =>
    match d.sink with
    | .discard => return ⟨fs, []⟩
    | .full => .error .noSpace
    | .output => return ⟨fs, t⟩
  | _ => return ⟨{ fs with root := fs.root.put (.file (encode t)) place }, []⟩

/-- The tree of the current directory. -/
def currentTree (fs : FileSystem) : FileTree :=
  (fs.root.at? fs.current).getD (.dir [])

end FileSystem

end SourceDoc
