import SourceDoc.Token.Basic

namespace SourceDoc.C

/-- Operators of more than one character. -/
def operators : List Text :=
  ["->", "::", "..."]

/-- The token at the start of a text. A preprocessor line is one token. -/
def lexeme : Lexeme := fun c cs =>
  if Text.isBlank c then (.space, Lexeme.run Text.isBlank cs)
  else if c = '/' ∧ cs.head? = some '/' then (.comment, Lexeme.restOfLine cs)
  else if c = '/' ∧ cs.head? = some '*' then (.comment, 1 + Lexeme.through "*/" (cs.drop 1))
  else if c = '#' then (.other, Lexeme.restOfLine cs)
  else Lexeme.code operators c cs

/-- The tokens of a source text. -/
def tokens (src : Text) : List Token :=
  lexeme.tokens 1 src

/-- Whether a comment is a doc comment: a block comment with two stars, or a line comment with three
    slashes. The empty block comment is none. -/
def isDoc (comment : Text) : Bool :=
  (("/**" : Text).isPrefixOf comment && comment != "/**/") || ("///" : Text).isPrefixOf comment

/-- Whether a comment ends the block before it. Line comments never do, so that a run of them is
    one block. -/
def opensBlock (comment : Text) : Bool :=
  ("/**" : Text).isPrefixOf comment

/-- Whether a text is blanks, at least one star and a final slash. -/
def isClosing (t : Text) : Bool :=
  match t.dropWhile Text.isBlank with
  | '*' :: rest => rest.dropWhile (· == '*') == ['/']
  | _ => false

/-- Drops the star a line of a block comment starts with, the blanks before it and one space after
    it. A line without such a star stays as it is. -/
def dropStar (line : Text) : Text :=
  match line.dropWhile Text.isBlank with
  | '*' :: rest => Text.dropSpace rest
  | _ => line

/-- Text of a comment without its markers. -/
def body (comment : Text) : Text :=
  match comment with
  | '/' :: '*' :: rest =>
    let content := Text.dropSpace (rest.dropWhile (· == '*'))
    Text.join "\n" ((Text.lines (Text.dropLongestEnd isClosing content)).map dropStar)
  | '/' :: '/' :: rest => Text.dropSpace (rest.dropWhile (· == '/'))
  | _ => comment

end SourceDoc.C
