import SourceDoc.Declaration

namespace SourceDoc.Lua

open Declaration

/-- The reserved words that start no declaration. -/
def keywords : List Text :=
  ["and", "break", "do", "else", "elseif", "end", "false", "for", "goto", "if", "in", "nil", "not",
   "or", "repeat", "return", "then", "true", "until", "while"]

/-- Whether a word can not start a declaration. -/
def isKeyword (word : Text) : Bool :=
  keywords.contains word

/-- Whether a token separates the words of a dotted name. -/
def isSeparator (t : Token) : Bool :=
  t.isOther "." || t.isOther ":"

/-- Whether a name ends with a separator, so that a word has to follow. -/
def isOpenName (name : Text) : Bool :=
  name.getLast? = some '.' || name.getLast? = some ':'

/-- A step before any name: `local` and `function` are taken, any other word that is no keyword is
    the start of a name. -/
def stepAwaiting (isLocal : Bool) (t : Token) : Progress :=
  if t.isWord "local" then .awaiting true
  else if t.isWord "function" then .reading { isLocal, stage := .name, name := [] }
  else if t.kind == .word && !isKeyword t.text then
    .reading { isLocal, stage := .afterName, name := t.text }
  else .failed

/-- A step in the name after `function`: words and separators are taken as they come. -/
def stepName (d : Draft) (t : Token) : Progress :=
  if t.kind == .word || isSeparator t then .reading { d with name := d.name ++ t.text }
  else if t.isOther "(" && !d.name.isEmpty then .reading { d with stage := .params }
  else .failed

/-- A step after a name. Words and separators alternate; an assignment goes on, a comma ends a
    variable, and so does any token after a local name. -/
def stepAfterName (d : Draft) (t : Token) : Progress :=
  if t.kind == .word && isOpenName d.name then .reading { d with name := d.name ++ t.text }
  else if isSeparator t && !isOpenName d.name then .reading { d with name := d.name ++ t.text }
  else if t.isOther "=" then .reading { d with stage := .afterAssign }
  else if t.isOther "," then .finished d .variable
  else if d.isLocal && !isOpenName d.name then .finished d .variable
  else .failed

/-- A step after an assignment: a function, a table, or any other value. -/
def stepAfterAssign (d : Draft) (t : Token) : Progress :=
  if t.isWord "function" then .reading { d with stage := .functionKeyword }
  else if t.isOther "\x7b" then .finished d .table
  else .finished d .variable

/-- A step after an assigned `function`: only a parameter list may follow. -/
def stepFunctionKeyword (d : Draft) (t : Token) : Progress :=
  if t.isOther "(" then .reading { d with stage := .params } else .failed

/-- A step in the parameter list: words and `...` are parameters, all else but the closing
    parenthesis is passed over. -/
def stepParams (d : Draft) (t : Token) : Progress :=
  if t.kind == .word || t.isOther "..." then .reading { d with params := d.params ++ [t.text] }
  else if t.isOther ")" then .finished d (.function d.params)
  else .reading d

/-- A step inside a declaration. -/
def stepDraft (d : Draft) (t : Token) : Progress :=
  match d.stage with
  | .name => stepName d t
  | .afterName => stepAfterName d t
  | .afterAssign => stepAfterAssign d t
  | .functionKeyword => stepFunctionKeyword d t
  | .params => stepParams d t

/-- Reads one token of a declaration: a function, an assigned function, a table or a variable, each
    with an optional `local`. -/
def step : Progress → Token → Progress
  | .awaiting isLocal, t => stepAwaiting isLocal t
  | .reading d, t => stepDraft d t
  | .done declaration, _ => .done declaration

end SourceDoc.Lua
