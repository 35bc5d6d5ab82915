import SourceDoc.Language.Lua.Declaration

namespace SourceDoc

/-- A call of `module`, by which a file names the module it defines. -/
inductive ModuleCall where
  /-- The call gives the name. -/
  | named (name : Text)
  /-- The call takes the name from the file's path. -/
  | fromPath
  deriving DecidableEq, Repr

/-- Content of a literal that begins and ends with the same quote; `none` if the closing quote is
    missing. -/
def unquote? (literal : Text) : Option Text :=
  match Text.trim literal with
  | quote :: rest =>
    if Lexeme.isQuote quote ∧ rest.getLast? = some quote then some rest.dropLast else none
  | [] => none

namespace Lua

/-- What a call with the given argument defines, if the argument can name a module at all. A literal
    that is empty or has no closing quote leaves the name to the path, and so does `...`. -/
def calledModule? (argument : Token) : Option ModuleCall :=
  if argument.kind = .str then
    match unquote? argument.text with
    | some (c :: cs) => some (.named (c :: cs))
    | _ => some .fromPath
  else if argument.isOther "..." then some .fromPath
  else none

/-- Searches tokens of code, none of them space or comment. The word `module` counts unless it is a
    member of something; its argument stands right after it or after one opening parenthesis. -/
def findModuleCall (afterSeparator : Bool) : List Token → Option ModuleCall
  | [] => none
  | t :: ts =>
    if t.isWord "module" && !afterSeparator then
      match ts with
      | [] => none
      | next :: rest =>
        if next.isOther "(" then
          match rest with
          | [] => none
          | argument :: rest =>
            (calledModule? argument).or (findModuleCall (isSeparator argument) rest)
        else (calledModule? next).or (findModuleCall (isSeparator next) rest)
    else findModuleCall (isSeparator t) ts

/-- The first call of `module` among tokens of a file. -/
def moduleCall? (ts : List Token) : Option ModuleCall :=
  findModuleCall false (ts.filter Token.isCode)

end Lua

end SourceDoc
