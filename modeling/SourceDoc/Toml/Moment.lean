import SourceDoc.Toml.Numbers

namespace SourceDoc.Toml

/-- Reads a number of exactly the given count of digits within bounds. -/
def boundedDigits (count least most : Nat) : Reader Text := fun t =>
  let ds := t.take count
  let n := numberOfDigits 10 ds
  if ds.length = count ∧ ds.all Text.isAsciiDigit = true ∧ least ≤ n ∧ n ≤ most then
    some (ds, t.drop count)
  else none

/-- Number of days in a month. -/
def daysInMonth (year month : Nat) : Nat :=
  if month = 2 then if year % 4 = 0 ∧ (year % 100 ≠ 0 ∨ year % 400 = 0) then 29 else 28
  else if month = 4 ∨ month = 6 ∨ month = 9 ∨ month = 11 then 30
  else 31

/-- Reads a date. -/
def date : Reader Text := fun t => do
  let (year, t) ← boundedDigits 4 0 9999 t
  let t ← after? "-" t
  let (month, t) ← boundedDigits 2 1 12 t
  let t ← after? "-" t
  let days := daysInMonth (numberOfDigits 10 year) (numberOfDigits 10 month)
  let (day, t) ← boundedDigits 2 1 days t
  return (year ++ '-' :: month ++ '-' :: day, t)

/-- Fraction of a second in normal form. -/
def normalFraction (ds : Text) : Text :=
  match ((ds.take 9).reverse.dropWhile (· == '0')).reverse with
  | [] => []
  | kept => '.' :: kept

/-- Reads an optional fraction of a second. -/
def secondFraction (t : Text) : Text × Text :=
  match t with
  | '.' :: cs =>
    match cs.takeWhile Text.isAsciiDigit with
    | [] => ([], t)
    | ds => (normalFraction ds, cs.dropWhile Text.isAsciiDigit)
  | _ => ([], t)

/-- Reads a time of day. -/
def time : Reader Text := fun t => do
  let (hour, t) ← boundedDigits 2 0 23 t
  let t ← after? ":" t
  let (minute, t) ← boundedDigits 2 0 59 t
  let t ← after? ":" t
  let (second, t) ← boundedDigits 2 0 60 t
  let (part, t) := secondFraction t
  return (hour ++ ':' :: minute ++ ':' :: second ++ part, t)

/-- Reads an offset from universal time after its sign. -/
def signedOffset (sign : Char) : Reader Text := fun t => do
  let (hour, t) ← boundedDigits 2 0 23 t
  let t ← after? ":" t
  let (minute, t) ← boundedDigits 2 0 59 t
  let isZero := numberOfDigits 10 (hour ++ minute) = 0
  return ((if isZero then '+' else sign) :: hour ++ ':' :: minute, t)

/-- Reads an optional offset from universal time. -/
def offset (t : Text) : Text × Text :=
  match t with
  | 'Z' :: cs => (['Z'], cs)
  | 'z' :: cs => (['Z'], cs)
  | '+' :: cs => (signedOffset '+' cs).getD ([], t)
  | '-' :: cs => (signedOffset '-' cs).getD ([], t)
  | _ => ([], t)

/-- Reads a time with an optional offset after a date and a delimiter. -/
def timeAfterDate : Reader Text := fun t =>
  match t with
  | c :: cs =>
    if c = 'T' ∨ c = 't' ∨ c = ' ' then do
      let (clock, t) ← time cs
      let (shift, t) := offset t
      return ('T' :: clock ++ shift, t)
    else none
  | [] => none

/-- Reads a date, a time, or both, and gives it in normal form: a `T` between date and time, a `Z`
    or a signed offset after the time, and fractions of a second without trailing zeros and with at
    most nine digits. -/
def momentLiteral : Reader Text := fun t =>
  match date t with
  | some (day, t) =>
    match timeAfterDate t with
    | some (clock, rest) => some (day ++ clock, rest)
    | none => some (day, t)
  | none => time t

end SourceDoc.Toml
