import SourceDoc.Text.Basic

namespace SourceDoc

/-- A path, as written. Two spellings with the same components name the same place; the text is kept
    because it is what reports show. -/
structure Path where
  text : Text
  deriving DecidableEq, Repr

namespace Path

/-- One step of a path. -/
inductive Component where
  | root
  /-- The directory a relative path starts from, written as a leading dot. -/
  | current
  | parent
  | normal (name : Text)
  deriving DecidableEq, Repr

/-- The component a piece between two slashes stands for. An empty piece or a single dot stands for
    none. -/
def Component.ofPiece? (piece : Text) : Option Component :=
  if piece = "" ∨ piece = "." then none
  else if piece = ".." then some .parent
  else some (.normal piece)

/-- The component the first piece of a path stands for: an empty one before a slash is the root, a
    dot is kept. -/
def Component.ofFirst? (piece : Text) (isOnly : Bool) : Option Component :=
  if piece = "" then if isOnly then none else some .root
  else if piece = "." then some .current
  else ofPiece? piece

/-- The components of a path. -/
def components (p : Path) : List Component :=
  match Text.split '/' p.text with
  | [] => []
  | first :: rest =>
    (Component.ofFirst? first rest.isEmpty).toList ++ rest.filterMap Component.ofPiece?

/-- Whether two paths have the same components. -/
def same (p q : Path) : Bool :=
  p.components == q.components

/-- How a component is written between slashes. -/
def Component.text : Component → Text
  | .root => []
  | .current => "."
  | .parent => ".."
  | .normal name => name

/-- The path with the given components, one slash between neighbours. -/
def ofComponents : List Component → Path
  | [.root] => ⟨"/"⟩
  | cs => ⟨Text.join "/" (cs.map Component.text)⟩

/-- The path without the components that stand for the current directory. -/
def withoutCurrent (p : Path) : List Component :=
  p.components.filter (· ≠ .current)

/-- Name of the file or directory a path leads to; `none` if it ends with the root, the current or a
    parent directory. -/
def fileName? (p : Path) : Option Text :=
  match p.components.getLast? with
  | some (.normal name) => some name
  | _ => none

/-- Splits a file name at its last dot. A name without a dot, or with none but a leading one, has no
    extension. -/
def splitName (name : Text) : Text × Option Text :=
  match Text.cutAroundLast? (· == '.') name with
  | some (c :: cs, extension) => (c :: cs, some extension)
  | _ => (name, none)

/-- Extension of the file a path leads to. -/
def extension? (p : Path) : Option Text :=
  p.fileName?.bind fun name => (splitName name).2

/-- A path with one more piece after it. -/
def append (p : Path) (piece : Text) : Path :=
  if p.text = "" ∨ p.text.getLast? = some '/' then ⟨p.text ++ piece⟩
  else ⟨p.text ++ '/' :: piece⟩

/-- Whether a component comes before another one or equals it. -/
def Component.le : Component → Component → Bool
  | .root, _ => true
  | _, .root => false
  | .current, _ => true
  | _, .current => false
  | .parent, _ => true
  | _, .parent => false
  | .normal a, .normal b => Text.le a b

/-- Whether a list of components comes before another one or equals it. -/
def componentsLe : List Component → List Component → Bool
  | [], _ => true
  | _ :: _, [] => false
  | a :: as, b :: bs => if a = b then componentsLe as bs else a.le b

/-- Whether a path comes before another one or has the same components. These are compared one after
    the other: the root comes first, then the current and the parent directory, then names by code
    points. -/
def le (p q : Path) : Bool :=
  componentsLe p.components q.components

/-- Keeps the first of neighbouring paths with the same components. -/
def dedupNeighbours : List Path → List Path
  | [] => []
  | [p] => [p]
  | p :: q :: rest =>
    if p.same q then dedupNeighbours (p :: rest) else p :: dedupNeighbours (q :: rest)
termination_by ps => ps.length

/-- The paths in order, each place once. Of several spellings the first one given stays. -/
def sorted (ps : List Path) : List Path :=
  dedupNeighbours (ps.mergeSort le)

end Path

end SourceDoc
