namespace SourceDoc

/-- A text is the list of its characters, so that every operation on it is a recursion on data. -/
abbrev Text := List Char

/-- String literals are texts. -/
instance : Coe String Text := ⟨String.toList⟩

namespace Text

/-- Whether `n` lies in one of the ranges, both ends included. The ranges are sorted, so the search
    ends at the first range above `n`. -/
def inRanges (n : Nat) : List (Nat × Nat) → Bool
  | [] => false
  | (lo, hi) :: rest => if n < lo then false else n ≤ hi || inRanges n rest

/-- Whether a character is blank: tab, line feed, vertical tab, form feed, carriage return, space,
    next line, no-break space, and the spaces and separators of other scripts. -/
def isBlank (c : Char) : Bool :=
  let n := c.toNat
  (9 ≤ n && n ≤ 13) || n == 0x20 || n == 0x85 || n == 0xA0 || n == 0x1680
    || (0x2000 ≤ n && n ≤ 0x200A) || n == 0x2028 || n == 0x2029 || n == 0x202F || n == 0x205F
    || n == 0x3000

/-- Whether a character is one of the digits 0 to 9. -/
def isAsciiDigit (c : Char) : Bool :=
  '0' ≤ c && c ≤ '9'

/-- Whether a character is an ASCII letter. -/
def isAsciiLetter (c : Char) : Bool :=
  ('A' ≤ c && c ≤ 'Z') || ('a' ≤ c && c ≤ 'z')

/-- Whether a character can start an identifier: an ASCII letter or the low line. -/
def isIdentStart (c : Char) : Bool :=
  isAsciiLetter c || c == '_'

/-- Whether a character can continue an identifier. -/
def isIdentChar (c : Char) : Bool :=
  isIdentStart c || isAsciiDigit c

/-- Number of line feeds in a text. -/
def newlines (t : Text) : Nat :=
  t.count '\n'

/-- Drops the blanks a text starts with. -/
def trimStart (t : Text) : Text :=
  t.dropWhile isBlank

/-- Drops the blanks a text ends with. -/
def trimEnd (t : Text) : Text :=
  (t.reverse.dropWhile isBlank).reverse

/-- Drops the blanks at both ends of a text. -/
def trim (t : Text) : Text :=
  trimEnd (trimStart t)

/-- The pieces between the occurrences of a separator; a text without it is one piece. -/
def split (separator : Char) : Text → List Text
  | [] => [[]]
  | c :: cs =>
    if c = separator then [] :: split separator cs
    else
      match split separator cs with
      | [] => [[c]]
      | piece :: pieces => (c :: piece) :: pieces

/-- The texts one after the other, with a separator between neighbours. -/
def join (separator : Text) (ts : List Text) : Text :=
  List.intercalate separator ts

/-- Drops one carriage return at the end of a text. -/
def dropReturn (t : Text) : Text :=
  if t.getLast? = some '\r' then t.dropLast else t

/-- The lines in the pieces between line feeds: the last piece is a line only if it is not empty,
    and every other piece loses a carriage return at its end. -/
def linesOfPieces : List Text → List Text
  | [] => []
  | [piece] => if piece.isEmpty then [] else [piece]
  | piece :: pieces => dropReturn piece :: linesOfPieces pieces

/-- The lines of a text without their line ends, which are a line feed or a carriage return and a
    line feed. A last line need not be ended; it keeps a carriage return at its end. -/
def lines (t : Text) : List Text :=
  linesOfPieces (split '\n' t)

/-- Number of characters before the first occurrence of `needle`. -/
def offset? (needle : Text) : Text → Option Nat
  | [] => if needle.isEmpty then some 0 else none
  | c :: cs =>
    if needle.isPrefixOf (c :: cs) then some 0 else (offset? needle cs).map (· + 1)

/-- Whether `needle` occurs in a text. -/
def includes (needle t : Text) : Bool :=
  (offset? needle t).isSome

/-- Cuts a text before its first character in a class; `none` if no character is in it. The second
    part starts with that character. -/
def cutBefore? (isCut : Char → Bool) (t : Text) : Option (Text × Text) :=
  match t.dropWhile (!isCut ·) with
  | [] => none
  | rest => some (t.takeWhile (!isCut ·), rest)

/-- Cuts a text around its last character in a class; `none` if no character is in it. -/
def cutAroundLast? (isCut : Char → Bool) (t : Text) : Option (Text × Text) :=
  match cutBefore? isCut t.reverse with
  | some (after, _ :: before) => some (before.reverse, after.reverse)
  | _ => none

/-- Drops the longest end of a text that a predicate accepts; the text itself if it accepts none. -/
def dropLongestEnd (accepts : Text → Bool) : Text → Text
  | [] => []
  | c :: cs => if accepts (c :: cs) then [] else c :: dropLongestEnd accepts cs

/-- Drops one space at the start of a text. -/
def dropSpace : Text → Text
  | ' ' :: cs => cs
  | t => t

/-- Number of bytes of a text in UTF-8. -/
def byteLength : Text → Nat
  | [] => 0
  | c :: cs => c.utf8Size + byteLength cs

/-- A number in decimal digits. -/
def ofNat (n : Nat) : Text :=
  Nat.toDigits 10 n

/-- Whether the first text comes before the second or equals it in the order of code points. -/
def le : Text → Text → Bool
  | [], _ => true
  | _ :: _, [] => false
  | a :: as, b :: bs => a < b || (a == b && le as bs)

end Text

end SourceDoc
