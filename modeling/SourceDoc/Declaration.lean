import SourceDoc.Token.Basic

namespace SourceDoc

/-- What a declaration declares. -/
inductive Declaration.Shape where
  | function (params : List Text)
  | table
  | variable
  deriving DecidableEq, Repr

/-- A declaration found right after a doc comment. -/
structure Declaration where
  name : Text
  shape : Declaration.Shape
  /-- The declared entity is not visible outside its file. -/
  isLocal : Bool
  deriving DecidableEq, Repr

namespace Declaration

/-- How far a declaration has been read. -/
inductive Stage where
  /-- Collecting a dotted name after a function keyword. -/
  | name
  /-- A name was read; an assignment, a parameter list or the end may follow. -/
  | afterName
  /-- After the assignment sign. -/
  | afterAssign
  /-- After a function keyword that is being assigned. -/
  | functionKeyword
  /-- Inside the parameter list. -/
  | params
  deriving DecidableEq, Repr

/-- A declaration of which a part has been read. -/
structure Draft where
  isLocal : Bool
  stage : Stage
  name : Text
  /-- Words read before the name, such as types and qualifiers. -/
  leading : List Text := []
  params : List Text := []
  /-- Words of the parameter being read. -/
  segment : List Text := []
  /-- Number of parentheses open inside the parameter list. -/
  depth : Nat := 0
  deriving DecidableEq, Repr

/-- A draft as a finished declaration of the given shape. -/
def Draft.finish (d : Draft) (shape : Shape) : Declaration :=
  ⟨d.name, shape, d.isLocal⟩

/-- State of reading a declaration. -/
inductive Progress where
  /-- Nothing but leading qualifiers has been read. -/
  | awaiting (isLocal : Bool)
  | reading (draft : Draft)
  /-- Reading is over, with a declaration or without. -/
  | done (declaration : Option Declaration)
  deriving DecidableEq, Repr

namespace Progress

/-- State before the first token. -/
def start : Progress :=
  .awaiting false

/-- Reading ended with the given shape. -/
def finished (d : Draft) (shape : Shape) : Progress :=
  .done (some (d.finish shape))

/-- Reading ended without a declaration. -/
def failed : Progress :=
  .done none

/-- Whether no part of a declaration has been read yet. -/
def isAwaiting : Progress → Bool
  | .awaiting _ => true
  | _ => false

/-- Whether no further token can change the result. -/
def isDone : Progress → Bool
  | .done _ => true
  | _ => false

/-- The declaration read when the input ends. A local name of which nothing else has been read
    declares a variable. -/
def result : Progress → Option Declaration
  | .done declaration => declaration
  | .reading d =>
    if d.stage = .afterName ∧ d.isLocal = true then some (d.finish .variable) else none
  | .awaiting _ => none

end Progress

end Declaration

end SourceDoc
