import SourceDoc.Toml.Basic

namespace SourceDoc.Toml

/-- Value of a hexadecimal digit. -/
def hexValue? (c : Char) : Option Nat :=
  if '0' ≤ c && c ≤ '9' then some (c.toNat - '0'.toNat)
  else if 'a' ≤ c && c ≤ 'f' then some (c.toNat - 'a'.toNat + 10)
  else if 'A' ≤ c && c ≤ 'F' then some (c.toNat - 'A'.toNat + 10)
  else none

/-- Reads a number of the given count of hexadecimal digits. -/
def hexNumber (count acc : Nat) : Reader Nat := fun t =>
  match count, t with
  | 0, t => some (acc, t)
  | _ + 1, [] => none
  | count + 1, c :: cs => (hexValue? c).bind fun d => hexNumber count (16 * acc + d) cs

/-- Reads a character given by its code point, which may not be a surrogate. -/
def codePoint (count : Nat) : Reader Char := fun t =>
  match hexNumber count 0 t with
  | some (n, rest) => if n.isValidChar then some (Char.ofNat n, rest) else none
  | none => none

/-- Reads what follows a backslash. -/
def escape : Reader Char
  | 'b' :: cs => some ('\x08', cs)
  | 't' :: cs => some ('\t', cs)
  | 'n' :: cs => some ('\n', cs)
  | 'f' :: cs => some ('\x0c', cs)
  | 'r' :: cs => some ('\r', cs)
  | '"' :: cs => some ('"', cs)
  | '\\' :: cs => some ('\\', cs)
  | 'u' :: cs => codePoint 4 cs
  | 'U' :: cs => codePoint 8 cs
  | _ => none

/-- Puts characters before a text that has been read. -/
def prepend (t : Text) : Option (Text × Text) → Option (Text × Text) :=
  Option.map fun (read, rest) => (t ++ read, rest)

/-- Reads the rest of a basic string on one line, up to its closing quote. -/
def basicRest : Reader Text
  | [] => none
  | c :: cs =>
    if c = '"' then some ([], cs)
    else if c = '\\' then
      match escape cs with
      | none => none
      | some (d, rest) => if rest.length < cs.length then prepend [d] (basicRest rest) else none
    else if isPrintable c then prepend [c] (basicRest cs)
    else none
termination_by t => t.length
decreasing_by all_goals simp only [List.length_cons]; omega

/-- Reads the rest of a literal string on one line, up to its closing quote. -/
def literalRest : Reader Text
  | [] => none
  | c :: cs =>
    if c = '\'' then some ([], cs)
    else if isPrintable c then prepend [c] (literalRest cs)
    else none

/-- Whether a text starts with three of the given quotes. -/
def startsClosing (quote : Char) (t : Text) : Bool :=
  [quote, quote, quote].isPrefixOf t

/-- Reads three closing quotes. Up to two more quotes before them belong to the string. -/
def closing (quote : Char) (t : Text) : Text × Text :=
  let extra := min 2 (((t.drop 3).takeWhile (· == quote)).length)
  (List.replicate extra quote, t.drop (3 + extra))

/-- The text after a backslash that ends a line, with the blank lines and indentation after it. -/
def afterLineContinuation? (t : Text) : Option Text :=
  (afterNewline? (skipSpaces t)).map skipBlankLines

/-- Reads the rest of a basic string on several lines. Line ends become line feeds. -/
def multiBasicRest : Reader Text
  | [] => none
  | c :: cs =>
    if startsClosing '"' (c :: cs) then some (closing '"' (c :: cs))
    else if c = '\\' then
      match afterLineContinuation? cs with
      | some rest => if rest.length < cs.length then multiBasicRest rest else none
      | none =>
        match escape cs with
        | none => none
        | some (d, rest) =>
          if rest.length < cs.length then prepend [d] (multiBasicRest rest) else none
    else if c = '\r' ∧ cs.head? = some '\n' then multiBasicRest cs
    else if c = '\n' ∨ isPrintable c = true then prepend [c] (multiBasicRest cs)
    else none
termination_by t => t.length
decreasing_by all_goals simp only [List.length_cons]; omega

/-- Reads the rest of a literal string on several lines. Line ends become line feeds. -/
def multiLiteralRest : Reader Text
  | [] => none
  | c :: cs =>
    if startsClosing '\'' (c :: cs) then some (closing '\'' (c :: cs))
    else if c = '\r' ∧ cs.head? = some '\n' then multiLiteralRest cs
    else if c = '\n' ∨ isPrintable c = true then prepend [c] (multiLiteralRest cs)
    else none

/-- Drops a line end right after an opening delimiter. -/
def skipFirstNewline (t : Text) : Text :=
  (afterNewline? t).getD t

/-- Reads a string of any kind. -/
def stringLiteral : Reader Text := fun t =>
  match t with
  | '"' :: '"' :: '"' :: rest => multiBasicRest (skipFirstNewline rest)
  | '\'' :: '\'' :: '\'' :: rest => multiLiteralRest (skipFirstNewline rest)
  | '"' :: rest => basicRest rest
  | '\'' :: rest => literalRest rest
  | _ => none

end SourceDoc.Toml
