import SourceDoc.Keyed
import SourceDoc.Text.Basic

namespace SourceDoc

/-- What a tag does beyond holding a value. -/
structure TagRule where
  /-- The tag may open a module. -/
  isProjectLevel : Bool := false
  /-- The tag is the class of the entity and its value is the entity's name. -/
  isShorthand : Bool := false
  deriving DecidableEq, Repr

/-- The known tags, and aliases by the name they are written with. -/
structure TagRules where
  rules : List (Text × TagRule)
  aliases : List (Text × Text)
  deriving DecidableEq, Repr

namespace TagRules

/-- Makes a tag known under a rule, instead of the rule it had. -/
def add (r : TagRules) (tag : Text) (rule : TagRule) : TagRules :=
  { r with rules := Dictionary.put tag rule r.rules }

/-- Makes a name stand for another one. -/
def addAlias (r : TagRules) (source target : Text) : TagRules :=
  { r with aliases := Dictionary.put source target r.aliases }

/-- The name a tag goes by, after one step through the aliases. -/
def canonical (r : TagRules) (tag : Text) : Text :=
  (r.aliases.lookup tag).getD tag

/-- Rule of a tag given by its canonical name. -/
def rule? (r : TagRules) (tag : Text) : Option TagRule :=
  r.rules.lookup tag

/-- Whether a tag may open a module. -/
def isProjectLevel (r : TagRules) (tag : Text) : Bool :=
  (r.rule? tag).any (·.isProjectLevel)

/-- Tags that only hold values. -/
def plainTags : List Text :=
  ["param", "tparam", "return", "treturn", "see", "usage", "name", "class", "field", "tfield",
   "local", "raise", "author", "copyright", "license", "release", "within", "export"]

/-- Tags that name the entity they document. -/
def namingTags : List (Text × TagRule) :=
  [("function", ⟨false, true⟩), ("table", ⟨false, true⟩), ("module", ⟨true, true⟩),
   ("script", ⟨true, true⟩)]

/-- The rules a reader starts with. -/
def standard : TagRules where
  rules := plainTags.map (·, {}) ++ namingTags
  aliases := [("returns", "return"), ("params", "param")]

end TagRules

end SourceDoc
