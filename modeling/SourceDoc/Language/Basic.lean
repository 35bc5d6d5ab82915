import SourceDoc.Language.C.Declaration
import SourceDoc.Language.C.Lexer
import SourceDoc.Language.Lua.Lexer
import SourceDoc.Language.Lua.ModuleCall

namespace SourceDoc

/-- A source language. -/
inductive Language where
  | lua
  /-- C and its relatives. -/
  | c
  deriving DecidableEq, Repr

namespace Language

/-- Name by which a configuration speaks of a language. -/
def name : Language → Text
  | .lua => "lua"
  | .c => "c"

/-- The tokens of a source text, space and comments included. -/
def tokens : Language → Text → List Token
  | .lua => Lua.tokens
  | .c => C.tokens

/-- Whether a comment is a doc comment. -/
def isDoc : Language → Text → Bool
  | .lua => Lua.isDoc
  | .c => C.isDoc

/-- Whether a comment opens a block of its own even when it directly follows another one. -/
def opensBlock : Language → Text → Bool
  | .lua => Lua.isDoc
  | .c => C.opensBlock

/-- Text of a comment without its markers. -/
def body : Language → Text → Text
  | .lua => Lua.body
  | .c => C.body

/-- Reads one token of a declaration. -/
def step : Language → Declaration.Progress → Token → Declaration.Progress
  | .lua => Lua.step
  | .c => C.step

/-- The first call among the tokens that defines a module; only Lua has such calls. -/
def moduleCall? : Language → List Token → Option ModuleCall
  | .lua => Lua.moduleCall?
  | .c => fun _ => none

end Language

end SourceDoc
