import SourceDoc.Proofs.Tag.Names
import SourceDoc.Proofs.Tag.Values

namespace SourceDoc

namespace TagValue

/-- What a table holds of a tag that was given the values one after the other. -/
def ofList? : List Text → Option TagValue
  | [] => none
  | [value] => some (.single value)
  | values => some (.list values)

/-- One more value makes a single one a list and is put at the end of a list. -/
theorem ofList?_concat (values : List Text) (value : Text) :
    ofList? (values ++ [value]) = some ((ofList? values).elim (.single value) (·.push value)) := by
  match values with
  | [] => rfl
  | [_] => rfl
  | _ :: _ :: _ => rfl

/-- No value is lost in the two forms. -/
theorem elim_toList_ofList? (values : List Text) : (ofList? values).elim [] toList = values := by
  match values with
  | [] => rfl
  | [_] => rfl
  | _ :: _ :: _ => rfl

end TagValue

/-- Of the names with a property, an update adds its own one if that is new. -/
theorem TagTable.filter_names_update (p : Text → Bool) (name : Text)
    (change : TagValue → TagValue) (new : TagValue) (entries : List (Text × TagValue)) :
    (names ⟨Dictionary.update name change new entries⟩).filter p =
      if p name = true ∧ name ∉ names ⟨entries⟩ then (names ⟨entries⟩).filter p ++ [name]
      else (names ⟨entries⟩).filter p := by
  rw [names_update]
  by_cases hmem : name ∈ names ⟨entries⟩
  · simp [hmem]
  · cases hp : p name <;> simp [hmem, hp]

/-- The names after an update are those before it and that of its tag. -/
theorem TagTable.mem_names_update {name key : Text} {change : TagValue → TagValue}
    {new : TagValue} {entries : List (Text × TagValue)}
    (hkey : key ∈ names ⟨Dictionary.update name change new entries⟩) :
    key ∈ names ⟨entries⟩ ∨ key = name := by
  rw [names_update] at hkey
  split at hkey
  · exact .inl hkey
  · exact (List.mem_append.mp hkey).imp_right List.mem_singleton.mp

theorem TagTable.mem_names_set {t : TagTable} {name value key : Text}
    (hkey : key ∈ (t.set name value).names) : key ∈ t.names ∨ key = name := by
  rw [set, Dictionary.put] at hkey
  exact mem_names_update hkey

namespace DocText

variable {rules : TagRules} {key : Text}

/-- The tag on a line, with the rest of the line and the lines after it up to the next tag line as
    its value. -/
def tagAt? (lines : List Text) (i : Nat) : Option (Text × Text) :=
  ((lines[i]?).bind TagLine.ofLine?).map fun tag =>
    let more := (lines.drop (i + 1)).takeWhile (!TagLine.isTagLine ·)
    (tag.name, Text.trim (Text.join "\n" (tag.value :: more)))

/-- The tags that stand on the lines of a text. -/
def tagsOnLines (t : Text) : List (Text × Text) :=
  (List.range (Text.lines t).length).filterMap (tagAt? (Text.lines t))

/-- The recursion over lines is a search for tag lines by position, where each takes the lines up to
    the next. -/
theorem tagsOfLines_eq_filterMap (lines : List Text) :
    tagsOfLines lines = (List.range lines.length).filterMap (tagAt? lines) := by
  induction lines with
  | nil => rfl
  | cons line rest ih =>
    have hrest : tagAt? (line :: rest) ∘ Nat.succ = tagAt? rest := rfl
    rw [List.length_cons, List.range_succ_eq_map, List.filterMap_cons, List.filterMap_map, hrest,
      ← ih, tagsOfLines]
    cases hline : TagLine.ofLine? line with
    | none => simp [tagAt?, hline]
    | some tag => simp [tagAt?, hline]

/-- Which operations on the table adding a tag comes down to. -/
theorem tags_addTag (d : DocText) (rules : TagRules) (tag value : Text) :
    (d.addTag rules tag value).tags =
      if rules.isNaming tag then (d.nameEntity tag value).tags else d.tags.insert tag value := by
  have hopened : (if rules.isProjectLevel tag then
      { d with projectTag := d.projectTag.or (some tag) } else d).tags = d.tags := by
    split <;> rfl
  unfold addTag
  dsimp only
  rw [TagRules.isNaming]
  cases rules.rule? tag with
  | none => simp only [Option.any_none, Bool.false_eq_true, if_false, hopened]
  | some rule =>
    simp only [Option.any_some]
    split
    · simp only [nameEntity, hopened]
    · simp only [hopened]

/-- Naming an entity does not write to tags that only hold values. -/
theorem get?_nameEntity (hkey : rules.OnlyHolds key) (d : DocText) (tag value : Text) :
    (d.nameEntity tag value).tags.get? key = d.tags.get? key := by
  rw [nameEntity]
  dsimp only
  split
  · rw [TagTable.get?_set, if_neg hkey.ne_class]
  · rw [TagTable.get?_set, if_neg hkey.ne_name, TagTable.get?_set, if_neg hkey.ne_class]

theorem filter_names_nameEntity (d : DocText) (tag value : Text) :
    (d.nameEntity tag value).tags.names.filter (rules.OnlyHolds ·) =
      d.tags.names.filter (rules.OnlyHolds ·) := by
  have hset (table : TagTable) {name : Text} (hname : ¬ rules.OnlyHolds name) (value : Text) :
      (table.set name value).names.filter (rules.OnlyHolds ·) =
        table.names.filter (rules.OnlyHolds ·) := by
    rw [TagTable.set, Dictionary.put, TagTable.filter_names_update, if_neg]
    rintro ⟨hholds, -⟩
    exact hname (of_decide_eq_true hholds)
  have hclass : ¬ rules.OnlyHolds "class" := fun h => h.ne_class rfl
  have hname : ¬ rules.OnlyHolds "name" := fun h => h.ne_name rfl
  rw [nameEntity]
  dsimp only
  split
  · exact hset _ hclass _
  · rw [hset _ hname, hset _ hclass]

/-- Adding a tag is seen, among tags that only hold values, under its own name. -/
theorem get?_addTag (hkey : rules.OnlyHolds key) (d : DocText) (tag value : Text) :
    (d.addTag rules tag value).tags.get? key =
      if key = tag then some ((d.tags.get? tag).elim (.single value) (·.push value))
      else d.tags.get? key := by
  rw [tags_addTag]
  split
  · rename_i hnaming
    have htag : key ≠ tag := by
      rintro rfl
      exact Bool.false_ne_true (hkey.not_naming.symm.trans hnaming)
    rw [get?_nameEntity hkey, if_neg htag]
  · exact TagTable.get?_insert d.tags tag value key

/-- A tag that only holds values comes last where it first appears. -/
theorem filter_names_addTag (d : DocText) (tag value : Text) :
    (d.addTag rules tag value).tags.names.filter (rules.OnlyHolds ·) =
      if rules.OnlyHolds tag ∧ tag ∉ d.tags.names then
        d.tags.names.filter (rules.OnlyHolds ·) ++ [tag]
      else d.tags.names.filter (rules.OnlyHolds ·) := by
  rw [tags_addTag]
  split
  · rename_i hnaming
    rw [filter_names_nameEntity, if_neg]
    rintro ⟨hholds, -⟩
    exact Bool.false_ne_true (hholds.not_naming.symm.trans hnaming)
  · rw [TagTable.insert, TagTable.filter_names_update]
    simp only [decide_eq_true_eq]

/-- A table that entries are added to has, of a tag that only holds values, the values of its
    entries. -/
theorem get?_foldl_addTag (hkey : rules.OnlyHolds key) (entries : List (Text × Text))
    {d : DocText} (values : List Text) (hd : d.tags.get? key = TagValue.ofList? values) :
    (entries.foldl (fun d entry => d.addTag rules entry.1 entry.2) d).tags.get? key =
      TagValue.ofList? (values ++ (entries.filter (·.1 = key)).map (·.2)) := by
  induction entries generalizing d values with
  | nil => simpa using hd
  | cons entry entries ih =>
    rw [List.foldl_cons]
    by_cases htag : entry.1 = key
    · rw [List.filter_cons_of_pos (by simpa using htag), List.map_cons, List.append_cons]
      apply ih
      rw [get?_addTag hkey, if_pos htag.symm, htag, hd, TagValue.ofList?_concat]
    · rw [List.filter_cons_of_neg (by simpa using htag)]
      apply ih
      rw [get?_addTag hkey, if_neg (Ne.symm htag), hd]

/-- The tags that only hold values stand in the order of their first entries. -/
theorem filter_names_foldl_addTag (entries : List (Text × Text)) {d : DocText}
    (hd : d.tags.names = []) :
    (entries.foldl (fun d entry => d.addTag rules entry.1 entry.2) d).tags.names.filter
        (rules.OnlyHolds ·) =
      ((entries.map (·.1)).filter (rules.OnlyHolds ·)).eraseDups := by
  -- from the end: whether an entry brings a new name is decided by the entries before it
  induction entries using List.reverseRecOn with
  | nil => simp [hd]
  | append_singleton entries entry ih =>
    rw [List.foldl_concat, filter_names_addTag, List.map_append, List.filter_append,
      List.map_singleton]
    by_cases hholds : rules.OnlyHolds entry.1
    · have hmem := List.mem_eraseDups (a := entry.1)
        (l := (entries.map (·.1)).filter (rules.OnlyHolds ·))
      rw [← ih, List.mem_filter, and_iff_left (decide_eq_true hholds)] at hmem
      rw [List.filter_cons_of_pos (by simpa using hholds), List.filter_nil,
        Keyed.eraseDups_concat, ih]
      simp only [hholds, true_and, hmem, ite_not]
    · rw [if_neg fun h => hholds h.1, List.filter_cons_of_neg (by simpa using hholds),
        List.filter_nil, List.append_nil, ih]

/-- Adding a tag brings in no other names than its own and the two for the entity. -/
theorem mem_names_addTag {d : DocText} {tag value : Text}
    (hkey : key ∈ (d.addTag rules tag value).tags.names) :
    key ∈ d.tags.names ∨ key = "class" ∨ key = "name" ∨ rules.OnlyHolds key := by
  rw [tags_addTag] at hkey
  split at hkey
  · rw [nameEntity] at hkey
    dsimp only at hkey
    split at hkey
    · exact (TagTable.mem_names_set hkey).imp_right .inl
    · obtain hclassed | hname := TagTable.mem_names_set hkey
      · exact (TagTable.mem_names_set hclassed).imp_right .inl
      · exact .inr (.inr (.inl hname))
  · rename_i hnaming
    refine (TagTable.mem_names_update hkey).imp_right ?_
    rintro rfl
    by_cases hclass : key = "class"
    · exact .inl hclass
    by_cases hname : key = "name"
    · exact .inr (.inl hname)
    exact .inr (.inr ⟨Bool.not_eq_true _ ▸ hnaming, hclass, hname⟩)

theorem mem_names_foldl_addTag (entries : List (Text × Text)) {d : DocText}
    (hkey : key ∈ (entries.foldl (fun d entry => d.addTag rules entry.1 entry.2) d).tags.names) :
    key ∈ d.tags.names ∨ key = "class" ∨ key = "name" ∨ rules.OnlyHolds key := by
  induction entries generalizing d with
  | nil => exact .inl hkey
  | cons entry entries ih =>
    obtain hadded | hother := ih hkey
    · exact mem_names_addTag hadded
    · exact .inr hother

/-- The values on the tag lines of a text that name a tag, directly or by an alias. -/
def valuesOnLines (rules : TagRules) (t key : Text) : List Text :=
  ((tagsOnLines t).filter (rules.canonical ·.1 = key)).map (·.2)

/-- The tags of a text are those on its lines, each under the name it stands for. -/
theorem canonicalTags_eq_map (rules : TagRules) (t : Text) :
    canonicalTags rules t = (tagsOnLines t).map fun tag => (rules.canonical tag.1, tag.2) := by
  rw [canonicalTags, writtenTags, tagsOfLines_eq_filterMap, tagsOnLines]

/-- The values of a tag are found on the lines that name it, directly or by an alias. -/
theorem values_canonicalTags (rules : TagRules) (t key : Text) :
    ((canonicalTags rules t).filter (·.1 = key)).map (·.2) = valuesOnLines rules t key := by
  rw [canonicalTags_eq_map, List.filter_map, List.map_map, valuesOnLines]
  rfl

/-- **Every value is kept, in its order**: a tag that only holds values has in the table those of
    its tag lines, a single one alone and several as a list; such tags stand in the order of their
    first tag lines, and the only other keys are those of the class and the name. -/
theorem tags_read (rules : TagRules) (t : Text) :
    (∀ key, rules.OnlyHolds key →
        (read rules t).tags.values key = valuesOnLines rules t key ∧
          (read rules t).tags.get? key = TagValue.ofList? (valuesOnLines rules t key)) ∧
      (read rules t).tags.names.filter (rules.OnlyHolds ·) =
        (((tagsOnLines t).map (rules.canonical ·.1)).filter (rules.OnlyHolds ·)).eraseDups ∧
      ∀ key ∈ (read rules t).tags.names, key = "class" ∨ key = "name" ∨ rules.OnlyHolds key := by
  refine ⟨?_, ?_, ?_⟩
  · intro key hkey
    have hget : (read rules t).tags.get? key = TagValue.ofList? (valuesOnLines rules t key) := by
      rw [← values_canonicalTags]
      exact get?_foldl_addTag hkey (canonicalTags rules t) [] rfl
    exact ⟨by rw [TagTable.values, hget, TagValue.elim_toList_ofList?], hget⟩
  · have hnames : (tagsOnLines t).map (rules.canonical ·.1) =
        (canonicalTags rules t).map (·.1) := by
      rw [canonicalTags_eq_map, List.map_map]
      rfl
    rw [hnames]
    exact filter_names_foldl_addTag (canonicalTags rules t) rfl
  · intro key hkey
    exact (mem_names_foldl_addTag (canonicalTags rules t) hkey).resolve_left List.not_mem_nil

theorem tags_read_params :
    let tags := (read .standard "@param a one\n more\n@function f\n@foo\n@params b").tags
    TagRules.standard.OnlyHolds "param" ∧
      tags.get? "param" = some (.list ["a one\n more", "b"]) ∧
      tags.get? "foo" = some (.single "") ∧
      tags.names.filter (TagRules.standard.OnlyHolds ·) = [("param" : Text), ("foo" : Text)] := by
  obtain ⟨hvalues, hnames, -⟩ :=
    tags_read .standard "@param a one\n more\n@function f\n@foo\n@params b"
  have hparam : TagRules.standard.OnlyHolds "param" := by decide
  refine ⟨hparam, ?_, ?_, ?_⟩
  · rw [(hvalues "param" hparam).2]
    decide +kernel
  · rw [(hvalues "foo" (by decide)).2]
    decide +kernel
  · rw [hnames]
    decide +kernel

end DocText

end SourceDoc
