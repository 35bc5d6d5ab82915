import SourceDoc.Keyed
import SourceDoc.Text.Basic

namespace SourceDoc

/-- Value of a tag: single until the tag repeats, then a list in source order. -/
inductive TagValue where
  | single (value : Text)
  | list (values : List Text)
  deriving DecidableEq, Repr

namespace TagValue

/-- All values, in order. -/
def toList : TagValue → List Text
  | .single value => [value]
  | .list values => values

/-- First value; empty for an empty list. -/
def first (v : TagValue) : Text :=
  v.toList.headD []

/-- The value with one more at its end. -/
def push : TagValue → Text → TagValue
  | .single existing, value => .list [existing, value]
  | .list values, value => .list (values ++ [value])

end TagValue

/-- The tags of one doc block with their values, in order of first appearance. The operations on
    tables give no tag a second entry. -/
structure TagTable where
  entries : List (Text × TagValue) := []
  deriving DecidableEq, Repr

namespace TagTable

/-- Whether there is no tag. -/
def isEmpty (t : TagTable) : Bool :=
  t.entries.isEmpty

/-- Value of a tag. -/
def get? (t : TagTable) (name : Text) : Option TagValue :=
  t.entries.lookup name

/-- Whether a tag is present. -/
def contains (t : TagTable) (name : Text) : Bool :=
  (t.get? name).isSome

/-- First value of a tag. -/
def first? (t : TagTable) (name : Text) : Option Text :=
  (t.get? name).map TagValue.first

/-- All values of a tag, none if it is absent. -/
def values (t : TagTable) (name : Text) : List Text :=
  (t.get? name).elim [] TagValue.toList

/-- Adds a value to a tag. -/
def insert (t : TagTable) (name value : Text) : TagTable :=
  ⟨Dictionary.update name (·.push value) (.single value) t.entries⟩

/-- Gives a tag a single value instead of what it had. -/
def set (t : TagTable) (name value : Text) : TagTable :=
  ⟨Dictionary.put name (.single value) t.entries⟩

/-- Removes the first entry of a tag. -/
def erase (t : TagTable) (name : Text) : TagTable :=
  ⟨t.entries.eraseP (·.1 = name)⟩

/-- Adds the entries of another table whose tags are absent, in their order. -/
def fillMissing (t other : TagTable) : TagTable :=
  other.entries.foldl
    (fun acc entry => if acc.contains entry.1 then acc else ⟨acc.entries ++ [entry]⟩) t

end TagTable

end SourceDoc
