import SourceDoc.Text.Basic

namespace SourceDoc

/-- What a token is to the documentation reader. -/
inductive Token.Kind where
  | comment
  | space
  /-- A name, a keyword or a number. -/
  | word
  /-- A string literal. -/
  | str
  /-- An operator, a bracket or any other character. -/
  | other
  deriving DecidableEq, Repr

/-- A piece of a source text. -/
structure Token where
  kind : Token.Kind
  text : Text
  /-- Line the token starts on, counted from 1. -/
  line : Nat
  deriving DecidableEq, Repr

namespace Token

/-- Line on which a token ends. -/
def endLine (t : Token) : Nat :=
  t.line + Text.newlines t.text

/-- Whether a token is the operator or bracket `s`. -/
def isOther (t : Token) (s : Text) : Bool :=
  t.kind == .other && t.text == s

/-- Whether a token is the word `s`. -/
def isWord (t : Token) (s : Text) : Bool :=
  t.kind == .word && t.text == s

/-- Whether a token is code: neither space nor a comment. -/
def isCode (t : Token) : Bool :=
  t.kind != .space && t.kind != .comment

end Token

/-- A rule for the token at the start of a text: given its first character and the characters after
    it, the token's kind and the number of characters after the first that belong to it. -/
abbrev Lexeme := Char → Text → Token.Kind × Nat

namespace Lexeme

/-- The tokens of a text that starts on a given line. A rule only counts characters after the first
    one, so every token has at least one character, no character is lost, and the loop ends,
    whatever the rule says. -/
def tokens (rule : Lexeme) (line : Nat) : Text → List Token
  | [] => []
  | c :: cs =>
    let (kind, more) := rule c cs
    let text := c :: cs.take more
    ⟨kind, text, line⟩ :: tokens rule (line + Text.newlines text) (cs.drop more)
termination_by t => t.length

/-- Number of characters up to the end of the line. -/
def restOfLine (cs : Text) : Nat :=
  (cs.takeWhile (· ≠ '\n')).length

/-- Number of characters of a class that a text starts with. -/
def run (isMember : Char → Bool) (cs : Text) : Nat :=
  (cs.takeWhile isMember).length

/-- Number of characters up to the end of the first occurrence of `close`, or to the end of the
    text if it never occurs. -/
def through (close cs : Text) : Nat :=
  match Text.offset? close cs with
  | some n => n + close.length
  | none => cs.length

/-- Whether a character opens a quoted literal. -/
def isQuote (c : Char) : Bool :=
  c == '"' || c == '\''

/-- Number of characters after an opening quote that belong to the literal. It ends with the same
    quote; a line feed, or a backslash that no character follows on the same line, ends it too and
    is not part of it. -/
def quoted (quote : Char) : Text → Nat
  | [] => 0
  | [c] => if c = quote then 1 else if c = '\\' || c = '\n' then 0 else 1
  | c :: d :: cs =>
    if c = quote then 1
    else if c = '\\' then if d = '\n' then 0 else quoted quote cs + 2
    else if c = '\n' then 0
    else quoted quote (d :: cs) + 1

/-- Whether a character can continue a number: digits, letters, low lines and points. -/
def isNumberChar (c : Char) : Bool :=
  Text.isIdentChar c || c == '.'

/-- Number of characters after `c` that belong to an operator, given the operators of more than one
    character, longer ones first. Any other character is an operator on its own. -/
def operator (operators : List Text) (c : Char) (cs : Text) : Nat :=
  match operators.find? (·.isPrefixOf (c :: cs)) with
  | some op => op.length - 1
  | none => 0

/-- The rule for what is no space, no comment and special in no other way: literals, words, numbers
    and operators, given the operators of more than one character. -/
def code (operators : List Text) : Lexeme := fun c cs =>
  if isQuote c then (.str, quoted c cs)
  else if Text.isIdentStart c then (.word, run Text.isIdentChar cs)
  else if Text.isAsciiDigit c then (.word, run isNumberChar cs)
  else (.other, operator operators c cs)

end Lexeme

end SourceDoc
