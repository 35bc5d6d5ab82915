import SourceDoc.Event
import SourceDoc.Tag.Line
import SourceDoc.Tag.Rules
import SourceDoc.Tag.Table

namespace SourceDoc

/-- What a doc block says: its text, split into a summary and a description, and its tags. -/
structure DocText where
  summary : Text := []
  description : Text := []
  tags : TagTable := {}
  /-- The first tag of the block that may open a module. -/
  projectTag : Option Text := none
  deriving DecidableEq, Repr

namespace DocText

/-- Whether a block has neither text nor tags. -/
def isBlank (d : DocText) : Bool :=
  d.summary.isEmpty && d.description.isEmpty && d.tags.isEmpty

/-- Cuts a text after its first full stop or question mark that a blank follows. -/
def cutSentence? : Text → Option (Text × Text)
  | [] => none
  | [_] => none
  | c :: d :: cs =>
    if (c = '.' ∨ c = '?') ∧ Text.isBlank d = true then some ([c], d :: cs)
    else (cutSentence? (d :: cs)).map fun (sentence, rest) => (c :: sentence, rest)

/-- The first sentence of a text and what follows it, both trimmed. A text without an end of a
    sentence is its own summary. -/
def splitSummary (t : Text) : Text × Text :=
  match cutSentence? t with
  | some (sentence, rest) => (Text.trim sentence, Text.trim rest)
  | none => (t, [])

/-- The lines before the first tag line. -/
def preamble (t : Text) : Text :=
  Text.join "\n" ((Text.lines t).takeWhile (!TagLine.isTagLine ·))

/-- The tags among lines, each with the rest of its line and all lines up to the next tag line as
    its value, trimmed. -/
def tagsOfLines : List Text → List (Text × Text)
  | [] => []
  | line :: rest =>
    match TagLine.ofLine? line with
    | none => tagsOfLines rest
    | some tag =>
      let more := rest.takeWhile (!TagLine.isTagLine ·)
      (tag.name, Text.trim (Text.join "\n" (tag.value :: more))) :: tagsOfLines rest

/-- The tags of a text as written, with their values. -/
def writtenTags (t : Text) : List (Text × Text) :=
  tagsOfLines (Text.lines t)

/-- The tags of a text by their canonical names, with their values. -/
def canonicalTags (rules : TagRules) (t : Text) : List (Text × Text) :=
  (writtenTags t).map fun (tag, value) => (rules.canonical tag, value)

/-- Splits a value into the name of an entity, which is its first word, and the prose after it. -/
def splitEntity (value : Text) : Text × Text :=
  match Text.cutBefore? Text.isBlank value with
  | some (entity, rest) => (entity, Text.trim (rest.drop 1))
  | none => (value, [])

/-- A description with prose on a new line after it. -/
def appendProse (description prose : Text) : Text :=
  if prose.isEmpty then description
  else if description.isEmpty then prose
  else description ++ '\n' :: prose

/-- Takes a tag as the class of the block and the first word of its value as the name; the rest of
    the value goes into the description. -/
def nameEntity (d : DocText) (tag value : Text) : DocText :=
  let (entity, prose) := splitEntity value
  let classed := d.tags.set "class" tag
  { d with
    tags := if entity.isEmpty then classed else classed.set "name" entity
    description := appendProse d.description prose }

/-- Adds a tag to a block. Tags that open a module and shorthand tags name the entity, all others
    keep their value. -/
def addTag (d : DocText) (rules : TagRules) (tag value : Text) : DocText :=
  let d :=
    if rules.isProjectLevel tag then { d with projectTag := d.projectTag.or (some tag) } else d
  match rules.rule? tag with
  | some rule =>
    if rule.isShorthand || rule.isProjectLevel then d.nameEntity tag value
    else { d with tags := d.tags.insert tag value }
  | none => { d with tags := d.tags.insert tag value }

/-- Reads the text of a doc block. -/
def read (rules : TagRules) (t : Text) : DocText :=
  let (summary, description) := splitSummary (Text.trim (preamble t))
  (canonicalTags rules t).foldl (fun d entry => d.addTag rules entry.1 entry.2)
    { summary, description }

/-- What reading the text of a doc block reports: every tag without a rule. -/
def readEvents (rules : TagRules) (t : Text) : List Event :=
  (canonicalTags rules t).filterMap fun entry =>
    if (rules.rule? entry.1).isNone then some (.unknownTag entry.1) else none

end DocText

end SourceDoc
