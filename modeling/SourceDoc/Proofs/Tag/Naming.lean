import SourceDoc.Proofs.Tag.Table
import SourceDoc.Tag.DocText

namespace SourceDoc.DocText

/-- The block is known to be open to modules only through tags that may open one, and its class, if
    it has one, is accounted for by the tags read so far: it is a value of the tag for classes or
    the name of a tag that names entities. Tags that may open a module are never passed over. -/
structure Sourced (rules : TagRules) (entries : List (Text × Text)) (d : DocText) : Prop where
  projectTag : ∀ tag, d.projectTag = some tag → rules.isProjectLevel tag = true
  kind : ∀ kind, d.tags.first? "class" = some kind →
    (("class" : Text), kind) ∈ entries ∨
      ∃ rule, rules.rule? kind = some rule ∧
        (rule.isProjectLevel = true ∧ d.projectTag.isSome = true ∨
          rule.isProjectLevel = false ∧ rule.isShorthand = true)

variable {rules : TagRules} {entries : List (Text × Text)} {d : DocText}

/-- A tag that names an entity is its class, also if a class was written out before. -/
theorem first?_class_nameEntity (d : DocText) (tag value : Text) :
    (d.nameEntity tag value).tags.first? "class" = some tag := by
  have hset : (d.tags.set "class" tag).first? "class" = some tag := by
    rw [TagTable.first?_set, if_pos rfl]
  rw [nameEntity]
  dsimp only
  split
  · exact hset
  · rw [TagTable.first?_set, if_neg (by decide)]
    exact hset

theorem projectTag_addTag (d : DocText) (rules : TagRules) (tag value : Text) :
    (d.addTag rules tag value).projectTag =
      if rules.isProjectLevel tag then d.projectTag.or (some tag) else d.projectTag := by
  unfold addTag
  by_cases hlevel : rules.isProjectLevel tag = true
  · simp only [if_pos hlevel]
    split
    · split <;> rfl
    · rfl
  · simp only [if_neg hlevel]
    split
    · split <;> rfl
    · rfl

/-- Adding a tag makes it the class, leaves the class alone, or adds to the values of the tag for
    classes. -/
theorem first?_class_addTag {tag value kind : Text}
    (h : (d.addTag rules tag value).tags.first? "class" = some kind) :
    d.tags.first? "class" = some kind ∨ (("class" : Text), kind) = (tag, value) ∨
      ∃ rule, kind = tag ∧ rules.rule? tag = some rule ∧
        (rule.isShorthand || rule.isProjectLevel) = true := by
  have hplain (d' : DocText) (htags : d'.tags = d.tags)
      (h : (d'.tags.insert tag value).first? "class" = some kind) :
      d.tags.first? "class" = some kind ∨ (("class" : Text), kind) = (tag, value) := by
    rw [htags] at h
    refine (TagTable.first?_insert h).imp_right ?_
    rintro ⟨rfl, rfl⟩
    rfl
  have htags : (if rules.isProjectLevel tag then
      { d with projectTag := d.projectTag.or (some tag) } else d).tags = d.tags := by
    split <;> rfl
  unfold addTag at h
  dsimp only at h
  split at h
  · rename_i rule hrule
    split at h
    · rename_i hnames
      rw [first?_class_nameEntity] at h
      cases h
      exact .inr (.inr ⟨rule, rfl, hrule, hnames⟩)
    · exact (hplain _ htags h).imp_right .inl
  · exact (hplain _ htags h).imp_right .inl

/-- Adding a tag keeps what is known of the tags before it. -/
theorem Sourced.addTag (hd : d.Sourced rules entries) (tag value : Text) :
    (d.addTag rules tag value).Sourced rules (entries ++ [(tag, value)]) := by
  refine ⟨?_, ?_⟩
  · intro opener hopener
    rw [projectTag_addTag] at hopener
    split at hopener
    · rename_i hlevel
      cases hold : d.projectTag with
      | none =>
        rw [hold] at hopener
        cases hopener
        exact hlevel
      | some old =>
        rw [hold] at hopener
        cases hopener
        exact hd.projectTag _ hold
    · exact hd.projectTag opener hopener
  · intro kind hkind
    rcases first?_class_addTag hkind with hold | hwritten | ⟨rule, rfl, hrule, hnames⟩
    · rcases hd.kind kind hold with hmem | ⟨rule, hrule, hlevel⟩
      · exact .inl (List.mem_append_left _ hmem)
      · refine .inr ⟨rule, hrule, hlevel.imp_left ?_⟩
        rintro ⟨hlevel, hopener⟩
        refine ⟨hlevel, ?_⟩
        rw [projectTag_addTag]
        split
        · rw [Option.isSome_or, hopener, Bool.true_or]
        · exact hopener
    · exact .inl (List.mem_append_right _ (List.mem_singleton.mpr hwritten))
    · refine .inr ⟨rule, hrule, ?_⟩
      by_cases hlevel : rule.isProjectLevel = true
      · refine .inl ⟨hlevel, ?_⟩
        have hopens : rules.isProjectLevel kind = true := by
          simp [TagRules.isProjectLevel, hrule, hlevel]
        rw [projectTag_addTag, if_pos hopens, Option.isSome_or]
        simp
      · exact .inr ⟨by simpa using hlevel, by simpa [hlevel] using hnames⟩

theorem Sourced.foldl_addTag (hd : d.Sourced rules entries) (more : List (Text × Text)) :
    (more.foldl (fun d entry => d.addTag rules entry.1 entry.2) d).Sourced rules
      (entries ++ more) := by
  induction more generalizing d entries with
  | nil =>
    rw [List.append_nil]
    exact hd
  | cons entry more ih =>
    rw [List.foldl_cons, List.append_cons]
    exact ih (hd.addTag entry.1 entry.2)

/-- What is read from a text is accounted for by its tags. -/
theorem sourced_read (rules : TagRules) (t : Text) :
    (read rules t).Sourced rules (canonicalTags rules t) := by
  have hstart (summary description : Text) :
      ({ summary, description } : DocText).Sourced rules [] := by
    refine ⟨?_, ?_⟩
    · intro tag htag
      cases htag
    · intro kind hkind
      cases hkind
  exact (hstart _ _).foldl_addTag (canonicalTags rules t)

end SourceDoc.DocText
