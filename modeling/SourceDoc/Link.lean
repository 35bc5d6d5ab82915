import SourceDoc.Text.Basic
import SourceDoc.Text.WordChar

namespace SourceDoc

/-- The place a reference leads to. -/
structure Link where
  module : Text
  item : Option Text
  /-- Address of the module's page, with an anchor if the link leads to an item. -/
  href : Text
  deriving DecidableEq, Repr

namespace Link

/-- What a character of a name becomes in an anchor: alphanumeric characters, `_`, `-` and `.` stay,
    a colon becomes a point and a space a dash, and all others are dropped. -/
def anchorChar? (c : Char) : Option Char :=
  if Text.isAlphanumeric c || c == '_' || c == '-' || c == '.' then some c
  else if c = ':' then some '.'
  else if c = ' ' then some '-'
  else none

/-- Anchor of an item name. -/
def anchor (name : Text) : Text :=
  name.filterMap anchorChar?

/-- Address of a module, or of an item in it. -/
def address (module : Text) : Option Text → Text
  | none => module ++ ".html".toList
  | some item => module ++ ".html#".toList ++ anchor item

/-- The link to a module. -/
def toModule (module : Text) : Link :=
  ⟨module, none, address module none⟩

/-- The link to an item of a module. -/
def toItem (module item : Text) : Link :=
  ⟨module, some item, address module (some item)⟩

/-- Whether a text has an inline link: square brackets with a parenthesis right after them. An
    opening bracket that no closing one follows ends the search. -/
def hasInlineLink : Text → Bool
  | [] => false
  | c :: cs =>
    if c = '[' then
      match Text.cutBefore? (· == ']') cs with
      | none => false
      | some (_, rest) => ("](" : Text).isPrefixOf rest || hasInlineLink cs
    else hasInlineLink cs

/-- Whether a reference is a link already: a relative or absolute path, an inline link or an address
    with a scheme. -/
def isExternal (t : Text) : Bool :=
  ("/" : Text).isPrefixOf t || ("./" : Text).isPrefixOf t || ("../" : Text).isPrefixOf t
    || hasInlineLink t || Text.includes "://" t

end Link

end SourceDoc
