import SourceDoc.Declaration
import SourceDoc.Text.WordChar

namespace SourceDoc.C

open Declaration

/-- Words before a declaration that do not belong to its type or name. -/
def qualifiers : List Text :=
  ["extern", "inline", "const", "volatile", "typedef", "LUALIB_API", "LUA_API"]

/-- Words that start a statement, so that no declaration follows. -/
def statements : List Text :=
  ["return", "if", "else", "for", "while", "do", "switch", "case", "break", "goto"]

/-- Words that introduce a type with members. -/
def aggregates : List Text :=
  ["struct", "union", "enum", "class"]

/-- Whether a word introduces a type with members. -/
def isAggregate (word : Text) : Bool :=
  aggregates.contains word

/-- Reads a name and the parameters after it from what follows `define` and the blanks. -/
def macroNamed? (t : Text) : Option Declaration :=
  match t with
  | [] => none
  | c :: cs =>
    if Text.isIdentStart c then
      let name := c :: cs.takeWhile Text.isWordChar
      match cs.dropWhile Text.isWordChar with
      | '(' :: rest =>
        match Text.cutBefore? (· == ')') rest with
        | some (inner, _) =>
          let params := ((Text.split ',' inner).map Text.trim).filter (!·.isEmpty)
          some ⟨name, .function params, false⟩
        | none => some ⟨name, .variable, false⟩
      | _ => some ⟨name, .variable, false⟩
    else none

/-- The macro a preprocessor line defines. With a parameter list right after its name it is a
    function. -/
def macro? (line : Text) : Option Declaration :=
  match line with
  | '#' :: rest =>
    let directive := rest.dropWhile Text.isBlank
    if ("define" : Text).isPrefixOf directive then
      let after := directive.drop 6
      if after.head?.any Text.isBlank then macroNamed? (after.dropWhile Text.isBlank) else none
    else none
  | _ => none

/-- A step before any type or name. `static` makes the declaration local. -/
def stepAwaiting (isLocal : Bool) (t : Token) : Progress :=
  match t.kind with
  | .word =>
    if t.text = "static" then .awaiting true
    else if qualifiers.contains t.text then .awaiting isLocal
    else if statements.contains t.text then .failed
    else .reading { isLocal, stage := .afterName, name := t.text }
  | .other => if t.text.head? = some '#' then .done (macro? t.text) else .failed
  | _ => .failed

/-- Ends the parameter being read: its last word is its name. A lone `void` is no parameter. -/
def flushParam (d : Draft) : Draft :=
  match d.segment.getLast? with
  | none => d
  | some last =>
    if d.segment = [("void" : Text)] then { d with segment := [] }
    else { d with segment := [], params := d.params ++ [last] }

/-- A step in the parameter list. Commas and `...` count only outside inner parentheses. -/
def stepParams (d : Draft) (t : Token) : Progress :=
  if t.kind == .word then .reading { d with segment := d.segment ++ [t.text] }
  else if t.isOther "(" then .reading { d with depth := d.depth + 1 }
  else if t.isOther ")" then
    if 0 < d.depth then .reading { d with depth := d.depth - 1 }
    else .finished d (.function (flushParam d).params)
  else if t.isOther "," && d.depth == 0 then .reading (flushParam d)
  else if t.isOther "..." && d.depth == 0 then .reading { d with segment := [t.text] }
  else .reading d

/-- Tokens that may stand between the words of a type and a name. -/
def typeMarks : List Text :=
  ["*", "&", "::", "<", ">"]

/-- Tokens that end the declaration of a variable. -/
def variableEnds : List Text :=
  ["=", ";", "[", ","]

/-- A step in the words of a type and a name: the last word is the name so far. -/
def stepWords (d : Draft) (t : Token) : Progress :=
  match t.kind with
  | .word =>
    .reading { d with
      leading := if d.name.isEmpty then d.leading else d.leading ++ [d.name]
      name := t.text }
  | .other =>
    if typeMarks.contains t.text then .reading d
    else if d.name.isEmpty || isAggregate d.name then .failed
    else if t.text = "(" then .reading { d with stage := .params }
    else if variableEnds.contains t.text then .finished d .variable
    else if t.text = "\x7b" ∧ d.leading.any isAggregate then .finished d .table
    else .failed
  | _ => .failed

/-- Reads one token of a declaration of C or of its relatives: a prototype or definition of a
    function, a variable, an aggregate or a macro. -/
def step : Progress → Token → Progress
  | .awaiting isLocal, t => stepAwaiting isLocal t
  | .reading d, t => if d.stage = .params then stepParams d t else stepWords d t
  | .done declaration, _ => .done declaration

end SourceDoc.C
