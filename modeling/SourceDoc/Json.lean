import SourceDoc.Text.Basic

namespace SourceDoc

/-- A JSON value, of the sorts that the documentation of a project needs. The members of an object
    keep their order. -/
inductive Json where
  | null
  | bool (value : Bool)
  | nat (value : Nat)
  | str (value : Text)
  | arr (values : List Json)
  | obj (members : List (Text × Json))
  deriving Repr

namespace Json

/-- A text, or null if there is none. -/
def ofOption : Option Text → Json
  | none => .null
  | some t => .str t

/-- An array of texts. -/
def ofTexts (ts : List Text) : Json :=
  .arr (ts.map .str)

/-- A list of one member. -/
def member (name : Text) (value : Json) : List (Text × Json) :=
  [(name, value)]

/-- A list of one member, or of none if it has no value. -/
def member? (name : Text) : Option Text → List (Text × Json)
  | none => []
  | some t => [(name, .str t)]

/-- Lower case hexadecimal digit of a number below 16. -/
def hexDigit (n : Nat) : Char :=
  Nat.digitChar n

/-- A character inside a string. Quotes and backslashes get a backslash; control characters have a
    short form or four hexadecimal digits; all others stand for themselves. -/
def escape (c : Char) : Text :=
  match c with
  | '"' => ['\\', '"']
  | '\\' => ['\\', '\\']
  | '\n' => ['\\', 'n']
  | '\r' => ['\\', 'r']
  | '\t' => ['\\', 't']
  | '\x08' => ['\\', 'b']
  | '\x0c' => ['\\', 'f']
  | c =>
    if c.toNat < 0x20 then
      ['\\', 'u', '0', '0', hexDigit (c.toNat / 16), hexDigit (c.toNat % 16)]
    else [c]

/-- A string with its quotes. -/
def quote (t : Text) : Text :=
  '"' :: (t.flatMap escape ++ ['"'])

/-- The start of a line at a level of nesting. -/
def indent (level : Nat) : Text :=
  '\n' :: List.replicate (2 * level) ' '

mutual

/-- The text of a value that starts at a level of nesting. -/
def printAt (level : Nat) : Json → Text
  | .null => "null"
  | .bool true => "true"
  | .bool false => "false"
  | .nat n => Text.ofNat n
  | .str t => quote t
  | .arr [] => "[]"
  | .arr (v :: vs) =>
    '[' :: (indent (level + 1) ++ printAt (level + 1) v ++ printValues (level + 1) vs
      ++ indent level ++ [']'])
  | .obj [] => "\x7b\x7d"
  | .obj ((name, v) :: ms) =>
    '\x7b' :: (indent (level + 1) ++ quote name ++ ": ".toList ++ printAt (level + 1) v
      ++ printMembers (level + 1) ms ++ indent level ++ ['\x7d'])

/-- The values of an array after the first. -/
def printValues (level : Nat) : List Json → Text
  | [] => []
  | v :: vs => ',' :: (indent level ++ printAt level v ++ printValues level vs)

/-- The members of an object after the first. -/
def printMembers (level : Nat) : List (Text × Json) → Text
  | [] => []
  | (name, v) :: ms =>
    ',' :: (indent level ++ quote name ++ ": ".toList ++ printAt level v ++ printMembers level ms)

end

/-- The text of a value, with one value or member on a line, indented by two spaces for each level.
    Arrays and objects without content are written without a line break. -/
def print (v : Json) : Text :=
  printAt 0 v

end Json

end SourceDoc
