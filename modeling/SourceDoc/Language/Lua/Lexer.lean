import SourceDoc.Token.Basic

namespace SourceDoc.Lua

/-- Level of the long bracket a text opens with: the number of equals signs between its two square
    brackets. -/
def bracketLevel? : Text → Option Nat
  | '[' :: cs =>
    let level := Lexeme.run (· == '=') cs
    if (cs.drop level).head? = some '[' then some level else none
  | _ => none

/-- The bracket that closes a long bracket of the given level. -/
def closingBracket (level : Nat) : Text :=
  ']' :: (List.replicate level '=' ++ [']'])

/-- Number of characters after the first square bracket that belong to a long bracket of the given
    level. Without a closing bracket it takes the rest of the text. -/
def longBracket (level : Nat) (cs : Text) : Nat :=
  (level + 1) + Lexeme.through (closingBracket level) (cs.drop (level + 1))

/-- Number of characters after two dashes that belong to the comment: a long bracket or the rest of
    the line. -/
def comment (cs : Text) : Nat :=
  match bracketLevel? cs with
  | some level => 1 + longBracket level (cs.drop 1)
  | none => Lexeme.restOfLine cs

/-- Operators of more than one character. -/
def operators : List Text :=
  ["...", "..", "==", "~=", "<=", ">=", "::"]

/-- The token at the start of a text. -/
def lexeme : Lexeme := fun c cs =>
  if Text.isBlank c then (.space, Lexeme.run Text.isBlank cs)
  else if c = '-' ∧ cs.head? = some '-' then (.comment, 1 + comment (cs.drop 1))
  else
    match bracketLevel? (c :: cs) with
    | some level => (.str, longBracket level cs)
    | none => Lexeme.code operators c cs

/-- Tokens of a text that is not at the beginning of a file. -/
def tokensFrom (line : Nat) (src : Text) : List Token :=
  lexeme.tokens line src

/-- The tokens of a source text. If it begins with a number sign and an exclamation mark, its first
    line is set apart as one token. -/
def tokens (src : Text) : List Token :=
  if ("#!" : Text).isPrefixOf src then
    let n := Lexeme.restOfLine src
    ⟨.other, src.take n, 1⟩ :: tokensFrom 1 (src.drop n)
  else tokensFrom 1 src

/-- Content of a long comment from after its opening bracket on; `none` for any other text. -/
def longContent? (comment : Text) : Option Text :=
  match comment with
  | '-' :: '-' :: rest => (bracketLevel? rest).map fun level => rest.drop (level + 2)
  | _ => none

/-- Whether a comment is a doc comment: it starts with three dashes, or with two dashes directly
    inside the long bracket of a long comment. -/
def isDoc (comment : Text) : Bool :=
  ("---" : Text).isPrefixOf comment
    || (longContent? comment).any (("--" : Text).isPrefixOf ·)

/-- Drops the dashes a text starts with and one space after them. -/
def dropDashes (t : Text) : Text :=
  Text.dropSpace (t.dropWhile (· == '-'))

/-- Whether a text is a closing long bracket of any level followed by nothing but blanks. -/
def isClosing : Text → Bool
  | ']' :: cs =>
    match cs.dropWhile (· == '=') with
    | ']' :: rest => rest.all Text.isBlank
    | _ => false
  | _ => false

/-- Text of a comment without its markers. -/
def body (comment : Text) : Text :=
  match longContent? comment with
  | some content => Text.dropLongestEnd isClosing (dropDashes content)
  | none => if comment.head? = some '-' then dropDashes comment else comment

end SourceDoc.Lua
