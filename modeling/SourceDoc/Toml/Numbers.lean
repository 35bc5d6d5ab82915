import SourceDoc.Toml.Basic

namespace SourceDoc.Toml

/-- Digits of a class from the front of a text, with single low lines between digits left out. -/
def digitsRest (isDigit : Char → Bool) : Text → Text × Text
  | [] => ([], [])
  | [c] => if isDigit c then ([c], []) else ([], [c])
  | c :: d :: cs =>
    if isDigit c then
      let (digits, rest) := digitsRest isDigit (d :: cs)
      (c :: digits, rest)
    else if c = '_' ∧ isDigit d = true then
      let (digits, rest) := digitsRest isDigit cs
      (d :: digits, rest)
    else ([], c :: d :: cs)

/-- Reads at least one digit of a class. -/
def digits (isDigit : Char → Bool) : Reader Text := fun t =>
  match t with
  | [] => none
  | c :: cs =>
    if isDigit c then
      let (more, rest) := digitsRest isDigit cs
      some (c :: more, rest)
    else none

/-- Value of digits in a base up to 16. -/
def numberOfDigits (base : Nat) (ds : Text) : Nat :=
  ds.foldl (fun acc c => base * acc + (if Text.isAsciiDigit c then c.toNat - '0'.toNat
    else c.toLower.toNat - 'a'.toNat + 10)) 0

/-- Reads an optional sign; the result says whether it is a minus. -/
def sign : Text → Bool × Text
  | '+' :: cs => (false, cs)
  | '-' :: cs => (true, cs)
  | t => (false, t)

/-- Reads decimal digits without leading zeros: a zero stands alone. -/
def decimalDigits : Reader Text
  | '0' :: cs => some (['0'], cs)
  | t => digits Text.isAsciiDigit t

/-- Least integer that can be written, two to the power of 63 below zero. -/
def minInteger : Int := -9223372036854775808

/-- Largest integer that can be written. -/
def maxInteger : Int := 9223372036854775807

/-- An integer, if it is in range. -/
def integerOf? (isNegative : Bool) (n : Nat) : Option Int :=
  let value : Int := if isNegative then -(n : Int) else n
  if minInteger ≤ value ∧ value ≤ maxInteger then some value else none

/-- Reads an unsigned integer of a base after its mark. -/
def basedInteger (base : Nat) (isDigit : Char → Bool) : Reader Int := fun t => do
  let (ds, rest) ← digits isDigit t
  let value ← integerOf? false (numberOfDigits base ds)
  return (value, rest)

/-- Digits to base 16, in either case. -/
def isHexDigit (c : Char) : Bool :=
  Text.isAsciiDigit c || ('a' ≤ c && c ≤ 'f') || ('A' ≤ c && c ≤ 'F')

/-- Digits to base 8. -/
def isOctalDigit (c : Char) : Bool :=
  '0' ≤ c && c ≤ '7'

/-- Digits to base 2. -/
def isBinaryDigit (c : Char) : Bool :=
  c == '0' || c == '1'

/-- Reads an integer. -/
def integerLiteral : Reader Int := fun t =>
  match t with
  | '0' :: 'x' :: cs => basedInteger 16 isHexDigit cs
  | '0' :: 'o' :: cs => basedInteger 8 isOctalDigit cs
  | '0' :: 'b' :: cs => basedInteger 2 isBinaryDigit cs
  | _ => do
    let (isNegative, unsigned) := sign t
    let (ds, rest) ← decimalDigits unsigned
    let value ← integerOf? isNegative (numberOfDigits 10 ds)
    return (value, rest)

/-- Reads an optional fraction; its digits are empty if there is none. -/
def fraction : Reader Text
  | '.' :: cs => digits Text.isAsciiDigit cs
  | t => some ([], t)

/-- Reads an optional exponent. -/
def exponent : Reader (Option Int) := fun t =>
  match t with
  | c :: cs =>
    if c = 'e' ∨ c = 'E' then do
      let (isNegative, unsigned) := sign cs
      let (ds, rest) ← digits Text.isAsciiDigit unsigned
      let n := numberOfDigits 10 ds
      return (some (if isNegative then -(n : Int) else n), rest)
    else some (none, t)
  | [] => some (none, t)

/-- Least number that is nearer to two to the power of 1024 than to any double precision number
    below it. -/
def overflowBound : Nat :=
  Nat.pow 2 1024 - Nat.pow 2 970

/-- Whether `mantissa` times ten to the power of `scale` is too large for double precision. -/
def overflows (mantissa : Nat) (scale : Int) : Bool :=
  let magnitude := (Nat.toDigits 10 mantissa).length + scale
  if mantissa = 0 ∨ magnitude < 300 then false
  else if 320 < magnitude then true
  else if 0 ≤ scale then overflowBound ≤ mantissa * Nat.pow 10 scale.toNat
  else overflowBound * Nat.pow 10 (-scale).toNat ≤ mantissa

/-- The characters of a text before the rest of it. -/
def lexeme (t rest : Text) : Text :=
  t.take (t.length - rest.length)

/-- Reads a number with a fraction or an exponent. A positive number may not overflow. -/
def decimalFloat : Reader Text := fun t => do
  let (isNegative, unsigned) := sign t
  let (whole, afterWhole) ← decimalDigits unsigned
  let (part, afterPart) ← fraction afterWhole
  let (power, rest) ← exponent afterPart
  let mantissa := numberOfDigits 10 (whole ++ part)
  if part.isEmpty ∧ power.isNone then none
  else if !isNegative && overflows mantissa (power.getD 0 - part.length) then none
  else some (lexeme t rest, rest)

/-- Reads an infinity or a value that is not a number. -/
def specialFloat : Reader Text := fun t => do
  let (_, unsigned) := sign t
  let rest ← (after? "inf" unsigned).or (after? "nan" unsigned)
  return (lexeme t rest, rest)

/-- Reads a floating point number. -/
def floatLiteral : Reader Text := fun t =>
  (decimalFloat t).or (specialFloat t)

end SourceDoc.Toml
