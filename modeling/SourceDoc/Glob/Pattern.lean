import SourceDoc.Text.Basic

namespace SourceDoc.Glob

/-- What is wrong with a pattern. -/
inductive Problem where
  | tooManyStars
  | recursiveNotAlone
  | invalidRange
  deriving DecidableEq, Repr

/-- A fault of a pattern, with the position it is noticed at, counted in characters. -/
structure PatternFault where
  position : Nat
  problem : Problem
  deriving DecidableEq, Repr

/-- How a problem is worded. -/
def Problem.message : Problem → Text
  | .tooManyStars => "wildcards are either regular `*` or recursive `**`"
  | .recursiveNotAlone => "recursive wildcards must form a single path component"
  | .invalidRange => "invalid range pattern"

/-- How a fault is worded, with its position. -/
def PatternFault.message (f : PatternFault) : Text :=
  "Pattern syntax error near position " ++ Text.ofNat f.position ++ ": ".toList ++ f.problem.message

/-- Characters of a class. -/
inductive Range where
  | single (c : Char)
  | span (first last : Char)
  deriving DecidableEq, Repr

/-- Whether a character is in a range; both ends of a span belong to it. -/
def Range.contains : Range → Char → Bool
  | .single d, c => c == d
  | .span first last, c => first ≤ c && c ≤ last

/-- A part of a pattern. -/
inductive Token where
  | char (c : Char)
  | anyChar
  | anyOf (ranges : List Range)
  | noneOf (ranges : List Range)
  | anySequence
  | recursive
  deriving DecidableEq, Repr

/-- The classes between two brackets: a dash between two characters makes a span. -/
def ranges : Text → List Range
  | [] => []
  | [a] => [.single a]
  | [a, b] => [.single a, .single b]
  | a :: b :: c :: cs =>
    if b = '-' then .span a c :: ranges cs else .single a :: ranges (b :: c :: cs)

/-- Reads a class after its opening bracket. It has at least one character, which may be a closing
    bracket; an exclamation mark before it negates the class. -/
def bracket? (cs : Text) : Option (Token × Text) :=
  match cs with
  | '!' :: c :: rest =>
    (Text.cutBefore? (· == ']') rest).map fun (more, tail) =>
      (.noneOf (ranges (c :: more)), tail.drop 1)
  | c :: rest =>
    if c = '!' then none
    else
      (Text.cutBefore? (· == ']') rest).map fun (more, tail) =>
        (.anyOf (ranges (c :: more)), tail.drop 1)
  | [] => none

/-- The parts of a pattern, given its rest from a position on and the character before it. -/
def tokensFrom (position : Nat) (before : Option Char) : Text → Except PatternFault (List Token)
  | [] => .ok []
  | c :: cs =>
    if c = '?' then (tokensFrom (position + 1) (some c) cs).map (.anyChar :: ·)
    else if c = '*' then
      match cs with
      | '*' :: '*' :: _ => .error ⟨position + 2, .tooManyStars⟩
      | '*' :: rest =>
        if position = 0 ∨ before = some '/' then
          match rest with
          | [] => .ok [.recursive]
          | '/' :: more => (tokensFrom (position + 3) (some '/') more).map (.recursive :: ·)
          | _ => .error ⟨position + 2, .recursiveNotAlone⟩
        else .error ⟨position - 1, .recursiveNotAlone⟩
      | rest => (tokensFrom (position + 1) (some c) rest).map (.anySequence :: ·)
    else if c = '[' then
      match bracket? cs with
      | none => .error ⟨position, .invalidRange⟩
      | some (token, rest) =>
        if rest.length < cs.length then
          (tokensFrom (position + 1 + (cs.length - rest.length)) (some ']') rest).map (token :: ·)
        else .error ⟨position, .invalidRange⟩
    else (tokensFrom (position + 1) (some c) cs).map (.char c :: ·)
termination_by t => t.length
decreasing_by all_goals simp only [List.length_cons]; omega

/-- Whether a part for one character accepts a character. -/
def Token.accepts : Token → Char → Bool
  | .char d, c => c == d
  | .anyChar, _ => true
  | .anyOf ranges, c => ranges.any (·.contains c)
  | .noneOf ranges, c => !ranges.any (·.contains c)
  | .anySequence, _ => true
  | .recursive, _ => true

/-- Whether a part stands for any number of characters. -/
def Token.isSequence : Token → Bool
  | .anySequence | .recursive => true
  | _ => false

/-- One row of a table with a column for every end of a name, the whole name first and the empty end
    last. Given which ends match the rest of a pattern, it says which match a part before that
    rest. -/
def Token.row (token : Token) : Text → List Bool → List Bool
  | c :: cs, here :: rest =>
    let row := token.row cs rest
    let isMatch :=
      if token.isSequence then here || row.headD false else token.accepts c && rest.headD false
    isMatch :: row
  | _, rest => if token.isSequence then rest else [false]

/-- Which ends of a name match the parts of a pattern: only the empty end matches no parts. -/
def rows (t : Text) : List Token → List Bool
  | [] => t.map (fun _ => false) ++ [true]
  | token :: tokens => token.row t (rows t tokens)

/-- Whether a name matches the parts of a pattern. The work grows with the product of both lengths,
    however many parts stand for any number of characters. -/
def accepts (tokens : List Token) (t : Text) : Bool :=
  (rows t tokens).headD false

/-- The table of a name is the table of its tail with one column more. -/
theorem rows_cons (c : Char) (cs : Text) (tokens : List Token) :
    rows (c :: cs) tokens = accepts tokens (c :: cs) :: rows cs tokens := by
  induction tokens with
  | nil => simp [accepts, rows]
  | cons token tokens ih =>
    have hrow : rows (c :: cs) (token :: tokens)
        = (if token.isSequence then accepts tokens (c :: cs) || accepts (token :: tokens) cs
          else token.accepts c && accepts tokens cs) :: rows cs (token :: tokens) := by
      simp only [rows, accepts]
      rw [ih]
      simp only [Token.row, accepts, List.headD_cons]
    simp [accepts, hrow]

/-- Without parts only the empty name matches. -/
@[simp]
theorem accepts_nil (t : Text) : accepts [] t = t.isEmpty := by
  cases t <;> simp [accepts, rows]

/-- The empty name matches parts that all stand for any number of characters. -/
@[simp]
theorem accepts_cons_nil (token : Token) (tokens : List Token) :
    accepts (token :: tokens) [] = (token.isSequence && accepts tokens []) := by
  cases h : token.isSequence <;> simp [accepts, rows, Token.row, h]

/-- A part for any number of characters either ends or takes one more; any other part takes one
    character that it accepts. -/
theorem accepts_cons_cons (token : Token) (tokens : List Token) (c : Char) (cs : Text) :
    accepts (token :: tokens) (c :: cs)
      = if token.isSequence then accepts tokens (c :: cs) || accepts (token :: tokens) cs
        else token.accepts c && accepts tokens cs := by
  simp only [accepts, rows]
  rw [rows_cons]
  simp only [Token.row, List.headD_cons, accepts]

/-- A pattern for one component of a path. -/
inductive Part where
  /-- Any number of directories. -/
  | deep
  | name (tokens : List Token)
  deriving DecidableEq, Repr

/-- The name a part without wildcards stands for. -/
def literal? (tokens : List Token) : Option Text :=
  tokens.mapM fun token =>
    match token with
    | .char c => some c
    | _ => none

/-- Reads the pattern of one component. -/
def Part.parse (t : Text) : Except PatternFault Part :=
  (tokensFrom 0 none t).map fun tokens => if tokens = [.recursive] then .deep else .name tokens

/-- Patterns with neighbouring `deep` parts made into one. -/
def collapse : List Part → List Part
  | [] => []
  | part :: rest =>
    match part, collapse rest with
    | .deep, .deep :: more => .deep :: more
    | part, more => part :: more

/-- A pattern for paths: `?` stands for one character, `*` for any number of characters, brackets
    for one character of a class, and `**`, on its own between slashes, for any number of
    directories. -/
structure Pattern where
  /-- The pattern starts at the root. -/
  isAbsolute : Bool
  parts : List Part
  /-- Only directories match. -/
  requiresDir : Bool
  deriving DecidableEq, Repr

/-- The pieces of a pattern between slashes; a slash at its end ends the last piece. -/
def pieces (t : Text) : List Text :=
  let all := Text.split '/' t
  if all.getLast? = some [] then all.dropLast else all

/-- Reads a pattern. The whole pattern is checked before its components are. -/
def Pattern.parse (t : Text) : Except PatternFault Pattern := do
  let _ ← tokensFrom 0 none t
  let isAbsolute := t.head? = some '/'
  let relative := if isAbsolute then t.drop 1 else t
  let parts ← (if relative.isEmpty then [[]] else pieces relative).mapM Part.parse
  return ⟨isAbsolute, collapse parts, t.getLast? = some '/'⟩

end SourceDoc.Glob
