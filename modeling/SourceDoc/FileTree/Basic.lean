import SourceDoc.Keyed
import SourceDoc.Path

namespace SourceDoc

/-- What becomes of text that is written to a device. -/
inductive Device.Sink where
  /-- It is forgotten. -/
  | discard
  /-- There is no room for it. -/
  | full
  /-- It is printed. -/
  | output
  deriving DecidableEq, Repr

/-- A file that is not a regular one. It keeps nothing that is written to it. -/
structure Device where
  /-- What reading it gives. -/
  content : ByteArray := .empty
  sink : Device.Sink

/-- A file with its bytes, a device, or a directory with its entries by name. -/
inductive FileTree where
  | file (content : ByteArray)
  | device (device : Device)
  | dir (entries : List (Text × FileTree))

namespace FileTree

/-- Whether a tree is a single regular file. -/
def isFile : FileTree → Bool
  | .file _ => true
  | _ => false

/-- Whether a tree is a directory. -/
def isDir : FileTree → Bool
  | .dir _ => true
  | _ => false

/-- The entries of a directory; nothing else has any. -/
def entries : FileTree → List (Text × FileTree)
  | .dir es => es
  | _ => []

/-- The tree a list of names leads to. -/
def at? (t : FileTree) : List Text → Option FileTree
  | [] => some t
  | name :: names => (t.entries.lookup name).bind (·.at? names)

/-- Puts a tree where a list of names leads. Directories missing on the way are made. -/
def put (t : FileTree) (new : FileTree) : List Text → FileTree
  | [] => new
  | name :: names =>
    let child := (t.entries.lookup name).getD (.dir [])
    .dir (Dictionary.put name (child.put new names) t.entries)

/-- The path of an entry of a directory. Entries of the current directory are given by their bare
    names. -/
def entryPath (dir : Path) (name : Text) : Path :=
  if dir.same ⟨"."⟩ then ⟨name⟩ else dir.append name

mutual

/-- Everything below a directory of the given path, each directory before its entries. -/
def descendants (path : Path) : FileTree → List (Path × FileTree)
  | .file _ => []
  | .device _ => []
  | .dir es => descendantsOf path es

/-- The given entries of a directory and everything below them. -/
def descendantsOf (path : Path) : List (Text × FileTree) → List (Path × FileTree)
  | [] => []
  | (name, t) :: rest =>
    (entryPath path name, t) :: t.descendants (entryPath path name) ++ descendantsOf path rest

end

/-- The bytes of all regular files below a directory, by path. -/
def contents (t : FileTree) : List (Path × ByteArray) :=
  (t.descendants ⟨"."⟩).filterMap fun (path, node) =>
    match node with
    | .file content => some (path, content)
    | _ => none

/-- The directory of devices that every system has. Nothing is waiting to be read, and what goes to
    the standard error is not part of the output. -/
def standardDevices : FileTree :=
  .dir [
    ("null", .device { sink := .discard }),
    ("full", .device { sink := .full }),
    ("stdin", .device { sink := .discard }),
    ("stdout", .device { sink := .output }),
    ("stderr", .device { sink := .discard })]

end FileTree

end SourceDoc
