import SourceDoc.Text.Basic

namespace SourceDoc

/-- A TOML value. -/
inductive Toml where
  | str (value : Text)
  | integer (value : Int)
  /-- A floating point number, as written. -/
  | float (lexeme : Text)
  | bool (value : Bool)
  /-- A date, a time or both, in normal form. -/
  | moment (text : Text)
  | array (values : List Toml)
  | table (members : List (Text × Toml))
  deriving Repr

namespace Toml

/-- Reads a value from the front of a text and gives it back with the rest of the text, or fails. -/
abbrev Reader (α : Type) := Text → Option (α × Text)

/-- Whether a character is a space or a tab. -/
def isSpace (c : Char) : Bool :=
  c == ' ' || c == '\t'

/-- Whether a character may stand in a comment or a string: a tab or any other character that is not
    an ASCII control character. -/
def isPrintable (c : Char) : Bool :=
  c == '\t' || (0x20 ≤ c.toNat && c.toNat ≠ 0x7F)

/-- Drops spaces and tabs. -/
def skipSpaces (t : Text) : Text :=
  t.dropWhile isSpace

/-- The text after a line end: a line feed, or a carriage return and a line feed. -/
def afterNewline? : Text → Option Text
  | '\n' :: rest => some rest
  | '\r' :: '\n' :: rest => some rest
  | _ => none

/-- Drops spaces, tabs and line ends. -/
def skipBlankLines : Text → Text
  | [] => []
  | c :: cs =>
    if isSpace c || c == '\n' || (c == '\r' && cs.head? == some '\n') then skipBlankLines cs
    else c :: cs

/-- Drops spaces, tabs, line ends and comments. A control character in a comment is left
    standing. -/
def skipGap (inComment : Bool) : Text → Text
  | [] => []
  | c :: cs =>
    if c == '\n' then skipGap false cs
    else if c == '\r' && cs.head? == some '\n' then skipGap inComment cs
    else if inComment then if isPrintable c then skipGap true cs else c :: cs
    else if isSpace c then skipGap false cs
    else if c == '#' then skipGap true cs
    else c :: cs

/-- The text after the end of a line, before which only spaces and a comment may stand. The end of
    the text ends a line, too. -/
def afterLine? (t : Text) : Option Text :=
  let rest :=
    match skipSpaces t with
    | '#' :: comment => comment.dropWhile isPrintable
    | other => other
  if rest.isEmpty then some [] else afterNewline? rest

/-- The text after a given start. -/
def after? (start t : Text) : Option Text :=
  start.isPrefixOf? t

end Toml

end SourceDoc
