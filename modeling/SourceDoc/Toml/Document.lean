import SourceDoc.Toml.Moment
import SourceDoc.Toml.Strings
import SourceDoc.Toml.Tree

namespace SourceDoc.Toml

/-- Whether a character may stand in a key without quotes. -/
def isBareKeyChar (c : Char) : Bool :=
  Text.isIdentChar c || c == '-'

/-- Reads one part of a key. -/
def keyPart : Reader Text := fun t =>
  match t with
  | '"' :: rest => basicRest rest
  | '\'' :: rest => literalRest rest
  | _ =>
    match t.takeWhile isBareKeyChar with
    | [] => none
    | part => some (part, t.dropWhile isBareKeyChar)

/-- Reads the parts of a key, which points separate. Spaces may stand around each part. -/
def keyParts : Reader (List Text) := fun t =>
  match keyPart (skipSpaces t) with
  | none => none
  | some (part, rest) =>
    match skipSpaces rest with
    | '.' :: more =>
      if more.length < t.length then
        (keyParts more).map fun (parts, rest) => (part :: parts, rest)
      else none
    | rest => some ([part], rest)
termination_by t => t.length

/-- Arrays and inline tables may be nested this deep, and keys may have as many parts. -/
def nestingLimit : Nat :=
  79

/-- Reads a key. -/
def key : Reader (List Text) := fun t =>
  match keyParts t with
  | some (parts, rest) => if parts.length ≤ nestingLimit then some (parts, rest) else none
  | none => none

/-- Reads a value that is neither an array nor a table. -/
def scalar : Reader Toml := fun t =>
  match t with
  | [] => none
  | c :: _ =>
    if c = '"' ∨ c = '\'' then (stringLiteral t).map fun (v, rest) => (.str v, rest)
    else if c = 't' then (after? "true" t).map fun rest => (.bool true, rest)
    else if c = 'f' then (after? "false" t).map fun rest => (.bool false, rest)
    else
      match momentLiteral t with
      | some (v, rest) => some (.moment v, rest)
      | none =>
        match floatLiteral t with
        | some (v, rest) => some (.float v, rest)
        | none => (integerLiteral t).map fun (v, rest) => (.integer v, rest)

/-- Reads the values of an array and its closing bracket. A comma may stand after the last value. -/
def arrayRest (value : Reader Toml) : Reader (List Toml) := fun t =>
  match skipGap false t with
  | ']' :: rest => some ([], rest)
  | start =>
    match value start with
    | none => none
    | some (v, rest) =>
      match skipGap false rest with
      | ']' :: rest => some ([v], rest)
      | ',' :: more =>
        if more.length < t.length then
          (arrayRest value more).map fun (vs, rest) => (v :: vs, rest)
        else none
      | _ => none
termination_by t => t.length

/-- Reads a key and its value. -/
def pair (value : Reader Toml) : Reader (List Text × Toml) := fun t => do
  let (keys, t) ← key t
  let t ← after? "=" t
  let (v, t) ← value (skipSpaces t)
  return ((keys, v), t)

/-- Reads the pairs of an inline table, at least one, and its closing brace. -/
def inlinePairs (value : Reader Toml) : Reader (List (List Text × Toml)) := fun t =>
  match pair value t with
  | none => none
  | some (p, rest) =>
    match skipSpaces rest with
    | '\x7d' :: rest => some ([p], rest)
    | ',' :: more =>
      if more.length < t.length then
        (inlinePairs value more).map fun (ps, rest) => (p :: ps, rest)
      else none
    | _ => none
termination_by t => t.length

/-- Reads the rest of an inline table after its opening brace. -/
def inlineRest (value : Reader Toml) : Reader (List (Text × Toml)) := fun t =>
  match skipSpaces t with
  | '\x7d' :: rest => some ([], rest)
  | start => do
    let (pairs, rest) ← inlinePairs value start
    let tree ← Tree.insertAll pairs .empty
    return (tree.members, rest)

/-- Reads a value with arrays and inline tables nested at most to the given depth. -/
def value : Nat → Reader Toml
  | 0 => scalar
  | depth + 1 => fun t =>
    match t with
    | '[' :: rest => (arrayRest (value depth) rest).map fun (vs, rest) => (.array vs, rest)
    | '\x7b' :: rest => (inlineRest (value depth) rest).map fun (ms, rest) => (.table ms, rest)
    | _ => scalar t

/-- The head of a part of a document. -/
inductive Header where
  | table (keys : List Text)
  | arrayTable (keys : List Text)

/-- A line of a document. -/
inductive Line where
  | blank
  | header (h : Header)
  | pair (keys : List Text) (v : Toml)

/-- Reads a line with its end. A value may extend over several lines of the text. -/
def line : Reader Line := fun t =>
  match skipSpaces t with
  | '[' :: '[' :: rest => do
    let (keys, rest) ← key rest
    let rest ← after? "]]" rest
    let rest ← afterLine? rest
    return (.header (.arrayTable keys), rest)
  | '[' :: rest => do
    let (keys, rest) ← key rest
    let rest ← after? "]" rest
    let rest ← afterLine? rest
    return (.header (.table keys), rest)
  | start =>
    match afterLine? start with
    | some rest => some (.blank, rest)
    | none => do
      let ((keys, v), rest) ← pair (value nestingLimit) start
      let rest ← afterLine? rest
      return (.pair keys v, rest)

/-- The lines of a document. -/
def lines (t : Text) : Option (List Line) :=
  if t.isEmpty then some []
  else
    match line t with
    | none => none
    | some (l, rest) =>
      if rest.length < t.length then (lines rest).map (l :: ·) else none
termination_by t.length

/-- The pairs up to the next header. -/
def leadingPairs : List Line → List (List Text × Toml)
  | [] => []
  | .blank :: rest => leadingPairs rest
  | .pair keys v :: rest => (keys, v) :: leadingPairs rest
  | .header _ :: _ => []

/-- Adds the tables that headers among the lines define. -/
def addTables : List Line → Tree → Option Tree
  | [], t => some t
  | .header (.table keys) :: rest, t => (t.define keys (leadingPairs rest)).bind (addTables rest)
  | .header (.arrayTable keys) :: rest, t =>
    (t.append keys (leadingPairs rest)).bind (addTables rest)
  | _ :: rest, t => addTables rest t

/-- The members of a document, given as a text that may start with a byte order mark. -/
def document? (t : Text) : Option (List (Text × Toml)) := do
  let body := if t.head? = some '\ufeff' then t.drop 1 else t
  let ls ← lines body
  let root ← Tree.insertAll (leadingPairs ls) .empty
  let full ← addTables ls root
  return full.members

end SourceDoc.Toml
