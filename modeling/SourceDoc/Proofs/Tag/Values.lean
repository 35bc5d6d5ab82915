import SourceDoc.Proofs.Tag.Table
import SourceDoc.Tag.DocText

namespace SourceDoc

/-- Whether a tag is the class of the entity it stands with, so that its value is not kept. -/
def TagRules.isNaming (rules : TagRules) (tag : Text) : Bool :=
  (rules.rule? tag).any fun rule => rule.isShorthand || rule.isProjectLevel

/-- A tag that only holds values: it names no entity, and no tag that does writes to it. -/
structure TagRules.OnlyHolds (rules : TagRules) (tag : Text) : Prop where
  not_naming : rules.isNaming tag = false
  ne_class : tag ≠ "class"
  ne_name : tag ≠ "name"

/-- Decidable, so that it can be checked for a given tag under given rules. -/
instance (rules : TagRules) (tag : Text) : Decidable (rules.OnlyHolds tag) :=
  decidable_of_iff (rules.isNaming tag = false ∧ tag ≠ "class" ∧ tag ≠ "name")
    ⟨fun h => ⟨h.1, h.2.1, h.2.2⟩, fun h => ⟨h.not_naming, h.ne_class, h.ne_name⟩⟩

namespace DocText

variable {rules : TagRules} {key : Text}

/-- Naming an entity writes to the class and the name only. -/
theorem values_nameEntity (hclass : key ≠ "class") (hname : key ≠ "name") (d : DocText)
    (tag value : Text) : (d.nameEntity tag value).tags.values key = d.tags.values key := by
  rw [nameEntity]
  dsimp only
  split
  · exact TagTable.values_set_of_ne hclass
  · rw [TagTable.values_set_of_ne hname, TagTable.values_set_of_ne hclass]

/-- Adding a tag adds to its own values only. -/
theorem values_addTag (hkey : rules.OnlyHolds key) (d : DocText) (tag value : Text) :
    (d.addTag rules tag value).tags.values key =
      d.tags.values key ++ if key = tag then [value] else [] := by
  have hopened : (if rules.isProjectLevel tag then
      { d with projectTag := d.projectTag.or (some tag) } else d).tags = d.tags := by
    split <;> rfl
  unfold addTag
  dsimp only
  split
  · rename_i rule hrule
    split
    · rename_i hnames
      have htag : key ≠ tag := by
        rintro rfl
        have hnot := hkey.not_naming
        rw [TagRules.isNaming, hrule, Option.any_some, hnames] at hnot
        cases hnot
      rw [values_nameEntity hkey.ne_class hkey.ne_name, hopened, if_neg htag, List.append_nil]
    · dsimp only
      rw [hopened, TagTable.values_insert]
  · dsimp only
    rw [hopened, TagTable.values_insert]

/-- The values of a tag that only holds values are those it is written with, in their order. -/
theorem values_read (hkey : rules.OnlyHolds key) (t : Text) :
    (read rules t).tags.values key =
      ((canonicalTags rules t).filter (·.1 = key)).map (·.2) :=
  TagTable.values_foldl DocText.tags (fun d entry => values_addTag hkey d entry.1 entry.2) _ _

end DocText

end SourceDoc
