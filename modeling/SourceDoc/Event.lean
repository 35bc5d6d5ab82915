import SourceDoc.Path

namespace SourceDoc

/-- How much an event matters. -/
inductive Event.Level where
  | debug
  | warn
  deriving DecidableEq, Repr

/-- Something that the documentation reader reports on the way, without stopping. -/
inductive Event where
  | unknownTag (tag : Text)
  | namelessBlock (file : Path) (line : Nat) (kind : Text)
  | undeclaredParam (file : Path) (line : Nat) (item param : Text)
  | scanned (file : Path) (items : Nat)
  | inferredModule (file : Path) (name : Text)
  | outsidePackage (file package : Path)
  | mergedModule (name : Text)
  | kindConflict (name kept dropped : Text)
  | unresolvedReference (file : Path) (line : Nat) (reference : Text)
  | unmatchedPattern (pattern : Text)
  | resolved (modules : Nat)
  deriving DecidableEq, Repr

namespace Event

/-- Steps taken as intended are for debugging; what the author of the sources should look at is a
    warning. -/
def level : Event → Level
  | unknownTag .. | scanned .. | inferredModule .. | mergedModule .. | resolved .. => .debug
  | namelessBlock .. | undeclaredParam .. | outsidePackage .. | kindConflict ..
  | unresolvedReference .. | unmatchedPattern .. => .warn

/-- The wording of an event, without its details. -/
def message : Event → Text
  | unknownTag .. => "unknown tag kept as extension tag"
  | namelessBlock .. => "doc block has no name; dropped"
  | undeclaredParam .. => "documented parameter is not declared"
  | scanned .. => "scanned"
  | inferredModule .. => "no module declaration; inferred"
  | outsidePackage .. => "file is outside the package root"
  | mergedModule .. => "merging module declared in several places"
  | kindConflict .. => "module redeclared with a different kind"
  | unresolvedReference .. => "unresolved reference"
  | unmatchedPattern .. => "no files matched"
  | resolved .. => "resolved"

/-- The details of an event, by name. -/
def fields : Event → List (Text × Text)
  | unknownTag tag => [("tag", tag)]
  | namelessBlock file line kind =>
    [("file", file.text), ("line", Text.ofNat line), ("class", kind)]
  | undeclaredParam file line item param =>
    [("file", file.text), ("line", Text.ofNat line), ("item", item), ("param", param)]
  | scanned file items => [("file", file.text), ("items", Text.ofNat items)]
  | inferredModule file name => [("file", file.text), ("module", name)]
  | outsidePackage file package => [("file", file.text), ("package", package.text)]
  | mergedModule name => [("module", name)]
  | kindConflict name kept dropped => [("module", name), ("kept", kept), ("dropped", dropped)]
  | unresolvedReference file line reference =>
    [("file", file.text), ("line", Text.ofNat line), ("reference", reference)]
  | unmatchedPattern pattern => [("pattern", pattern)]
  | resolved modules => [("modules", Text.ofNat modules)]

/-- An event as one line of a log. -/
def line (e : Event) : Text :=
  let level : Text :=
    match e.level with
    | .debug => "DEBUG"
    | .warn => "WARN"
  level ++ ' ' :: e.message
    ++ e.fields.flatMap fun (name, value) => ' ' :: name ++ '=' :: value

end Event

end SourceDoc
