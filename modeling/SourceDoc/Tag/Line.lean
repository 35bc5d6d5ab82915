import SourceDoc.Text.Basic
import SourceDoc.Text.WordChar

namespace SourceDoc

/-- A tag as written on its line, which consists of blanks, an at sign and a word, followed by
    nothing or by a blank and a value. -/
structure TagLine where
  name : Text
  /-- The rest of the line after one blank. -/
  value : Text
  deriving DecidableEq, Repr

namespace TagLine

/-- Reads a line as a tag line. -/
def ofLine? (line : Text) : Option TagLine :=
  match line.dropWhile Text.isBlank with
  | '@' :: cs =>
    let name := cs.takeWhile Text.isWordChar
    if name.isEmpty then none
    else
      match cs.dropWhile Text.isWordChar with
      | [] => some ⟨name, []⟩
      | c :: value => if Text.isBlank c then some ⟨name, value⟩ else none
  | _ => none

/-- Whether a line is a tag line. -/
def isTagLine (line : Text) : Bool :=
  (ofLine? line).isSome

/-- Whether a text has a tag line. -/
def occursIn (t : Text) : Bool :=
  (Text.lines t).any isTagLine

end TagLine

end SourceDoc
