import SourceDoc.Proofs.DocBlock.Basic
import SourceDoc.Proofs.Tag.Extraction
import SourceDoc.Proofs.Text.Words
import SourceDoc.Proofs.Workspace.Classes

namespace SourceDoc

namespace Text

/-- The characters of a text up to its first blank. -/
def firstWord (t : Text) : Text :=
  t.takeWhile (!isBlank ·)

theorem isBlank_head_trim (t : Text) : ∀ c ∈ (trim t).head?, isBlank c = false := by
  intro c hc
  have hstart : ∀ c ∈ (trimStart t).head?, isBlank c = false :=
    trimStart_eq_self_iff.mp (List.dropWhile_idempotent isBlank t)
  have hprefix : trim t <+: trimStart t := List.rdropWhile_prefix isBlank (trimStart t)
  obtain ⟨more, hmore⟩ := hprefix
  apply hstart
  rw [← hmore, List.head?_append, Option.mem_def.mp hc]
  rfl

theorem firstWord_ne_nil {t : Text} (ht : t ≠ []) (hhead : ∀ c ∈ t.head?, isBlank c = false) :
    firstWord t ≠ [] := by
  obtain ⟨c, cs, rfl⟩ := List.exists_cons_of_ne_nil ht
  simp [firstWord, hhead c rfl]

end Text

namespace DocText

variable {rules : TagRules}

theorem splitEntity_fst (value : Text) : (splitEntity value).1 = Text.firstWord value := by
  unfold splitEntity Text.cutBefore?
  split
  · rename_i entity rest hcut
    split at hcut
    · cases hcut
    · cases hcut
      rfl
  · rename_i hcut
    split at hcut
    · rename_i hnone
      exact (List.takeWhile_eq_self_iff.mpr (List.dropWhile_eq_nil_iff.mp hnone)).symm
    · cases hcut

/-- The values of tags begin with no blank. -/
theorem isBlank_head_of_mem_canonicalTags {t : Text} {tag : Text × Text}
    (h : tag ∈ canonicalTags rules t) : ∀ c ∈ tag.2.head?, Text.isBlank c = false := by
  rw [canonicalTags_eq_map, List.mem_map] at h
  obtain ⟨written, hwritten, rfl⟩ := h
  obtain ⟨i, -, hi⟩ := List.mem_filterMap.mp hwritten
  obtain ⟨line, -, rfl⟩ := Option.map_eq_some_iff.mp hi
  exact Text.isBlank_head_trim _

/-- Whether a tag line gives an entity its name: its tag names entities, and it has a value. -/
def givesName (rules : TagRules) (tag : Text × Text) : Bool :=
  rules.isNaming tag.1 && !tag.2.isEmpty

/-- A tag that names an entity sets the name, or leaves it if it has no value. -/
theorem values_name_nameEntity (d : DocText) (tag : Text) {value : Text}
    (hvalue : ∀ c ∈ value.head?, Text.isBlank c = false) :
    (d.nameEntity tag value).tags.values "name" =
      if value.isEmpty then d.tags.values "name" else [Text.firstWord value] := by
  have hclass : (d.tags.set "class" tag).values "name" = d.tags.values "name" :=
    TagTable.values_set_of_ne (by decide)
  rw [nameEntity]
  dsimp only
  rw [splitEntity_fst]
  by_cases hempty : value = []
  · rw [hempty]
    exact hclass
  · have hword := Text.firstWord_ne_nil hempty hvalue
    rw [if_neg (by simpa using hword), if_neg (by simpa using hempty), TagTable.values,
      TagTable.get?_set, if_pos rfl]
    rfl

/-- A tag line that gives a name replaces all names before it; any other leaves the first of
    them. -/
theorem values_name_addTag (rules : TagRules) (d : DocText) {tag : Text × Text}
    (htag : ∀ c ∈ tag.2.head?, Text.isBlank c = false) :
    ∃ added, (d.addTag rules tag.1 tag.2).tags.values "name" =
      if givesName rules tag then [Text.firstWord tag.2] else d.tags.values "name" ++ added := by
  rw [tags_addTag, givesName]
  cases hnaming : rules.isNaming tag.1 with
  | false => exact ⟨_, TagTable.values_insert d.tags tag.1 tag.2 "name"⟩
  | true =>
    refine ⟨[], ?_⟩
    rw [if_pos rfl, values_name_nameEntity d tag.1 htag, List.append_nil, Bool.true_and]
    cases tag.2.isEmpty <;> rfl

/-- Behind a tag line that gives a name, the last such line decides. -/
theorem values_name_foldl {d : DocText} {opener : Text × Text} {more : List Text}
    (hd : d.tags.values "name" = Text.firstWord opener.2 :: more) {tags : List (Text × Text)}
    (htags : ∀ tag ∈ tags, ∀ c ∈ tag.2.head?, Text.isBlank c = false) :
    ∃ others, (tags.foldl (fun d tag => d.addTag rules tag.1 tag.2) d).tags.values "name" =
      Text.firstWord ((tags.filter (givesName rules)).getLastD opener).2 :: others := by
  induction tags generalizing d opener more with
  | nil => exact ⟨more, hd⟩
  | cons tag tags ih =>
    obtain ⟨htag, htags⟩ := List.forall_mem_cons.mp htags
    obtain ⟨added, hadded⟩ := values_name_addTag rules d htag
    rw [List.foldl_cons]
    by_cases hgives : givesName rules tag = true
    · rw [if_pos hgives] at hadded
      rw [List.filter_cons_of_pos hgives, List.getLastD_cons]
      exact ih hadded htags
    · rw [if_neg hgives, hd, List.cons_append] at hadded
      rw [List.filter_cons_of_neg hgives]
      exact ih hadded htags

/-- The first tag that may open a module is remembered, whatever tags follow. -/
theorem projectTag_foldl (d : DocText) (tags : List (Text × Text)) :
    (tags.foldl (fun d tag => d.addTag rules tag.1 tag.2) d).projectTag =
      d.projectTag.or ((tags.find? (rules.isProjectLevel ·.1)).map (·.1)) := by
  induction tags generalizing d with
  | nil => simp
  | cons tag tags ih =>
    rw [List.foldl_cons, ih, projectTag_addTag, List.find?_cons]
    cases rules.isProjectLevel tag.1 with
    | true => simp
    | false => simp

section Read

variable {t : Text} {before after : List (Text × Text)} {opener : Text × Text}
  (htags : canonicalTags rules t = before ++ opener :: after)
include htags

/-- The tag that opens the module is the first one that may, even if tags before it name
    entities. -/
theorem projectTag_read (hopener : rules.isProjectLevel opener.1 = true)
    (hfirst : ∀ tag ∈ before, rules.isProjectLevel tag.1 = false) :
    (read rules t).projectTag = some opener.1 := by
  have hnone : before.find? (rules.isProjectLevel ·.1) = none :=
    List.find?_eq_none.mpr fun tag htag => by simp [hfirst tag htag]
  rw [read]
  dsimp only
  rw [projectTag_foldl, htags, List.find?_append, hnone, List.find?_cons, hopener]
  rfl

/-- The name that is left is that of the last tag line which gives one. -/
theorem first?_name_read (hopener : givesName rules opener = true) :
    (read rules t).tags.first? "name" =
      some (Text.firstWord ((after.filter (givesName rules)).getLastD opener).2) := by
  have hvalues : ∀ tag ∈ before ++ opener :: after, ∀ c ∈ tag.2.head?, Text.isBlank c = false := by
    intro tag htag
    exact isBlank_head_of_mem_canonicalTags (htags ▸ htag)
  obtain ⟨hvalue, hafter⟩ := List.forall_mem_cons.mp (List.forall_mem_append.mp hvalues).2
  have hread : ∃ others, (read rules t).tags.values "name" =
      Text.firstWord ((after.filter (givesName rules)).getLastD opener).2 :: others := by
    rw [read]
    dsimp only
    rw [htags, List.foldl_append, List.foldl_cons]
    obtain ⟨added, hadded⟩ := values_name_addTag rules
      (before.foldl (fun d tag => d.addTag rules tag.1 tag.2) _) hvalue
    rw [if_pos hopener] at hadded
    exact values_name_foldl hadded hafter
  obtain ⟨others, hothers⟩ := hread
  rw [TagTable.values] at hothers
  rw [TagTable.first?]
  cases hname : (read rules t).tags.get? "name" with
  | none =>
    rw [hname] at hothers
    cases hothers
  | some value =>
    rw [hname] at hothers
    rw [Option.map_some, TagValue.first, show value.toList = _ :: others from hothers,
      List.headD_cons]

end Read

end DocText

namespace Workspace

open DocText (canonicalTags givesName)

/-- A block with a tag that may open a module opens one: the first such tag is its kind. If that tag
    has a value, the name is the first word of the last value that gives a name, which need not be
    the value of the same tag. -/
theorem Coherent.seed_of_block {w : Workspace} (hw : w.Coherent) {path : Path} {block : DocBlock}
    {before after : List (Text × Text)} {opener : Text × Text}
    (htags : canonicalTags w.rules block.text = before ++ opener :: after)
    (hopener : w.rules.isProjectLevel opener.1 = true)
    (hfirst : ∀ tag ∈ before, w.rules.isProjectLevel tag.1 = false) :
    ∃ item, w.itemOfBlock? path block = some item ∧ item.line = block.line ∧
      item.kind = opener.1 ∧
      (opener.2 ≠ [] → item.name =
        Text.firstWord ((after.filter (givesName w.rules)).getLastD opener).2) := by
  obtain ⟨rule, hrule, hlevel⟩ := (Option.any_eq_true _ _).mp hopener
  have hregistered := hw.projectTags opener.1 rule hrule hlevel
  have hopened : w.openedKind? (.read w.rules block.text) = some opener.1 := by
    rw [openedKind?, DocText.projectTag_read htags hopener hfirst, Option.some_or,
      Option.filter_some, if_pos hregistered]
  refine ⟨Item.seed (.read w.rules block.text) opener.1 path block.line false, ?_, rfl, rfl, ?_⟩
  · rw [itemOfBlock?]
    simp only [hopened]
  · intro hvalue
    have hgives : givesName w.rules opener = true := by
      simp [givesName, TagRules.isNaming, hrule, hlevel, hvalue]
    change ((DocText.read w.rules block.text).tags.first? "name").getD [] = _
    rw [DocText.first?_name_read htags hgives, Option.getD_some]

/-- Whatever a workspace was put together from, a scanned block with a tag that may open a module is
    stored as a module of the kind of its first such tag. When that tag line has a value, the module
    is named by the last tag line behind it that gives a name, and by itself if there is none. -/
theorem run_stores_seed (actions : List Action) {path : Path} {src : Text} {lang : Language}
    {blocks : List DocBlock} {block : DocBlock} {before after : List (Text × Text)}
    {opener : Text × Text} (hlang : (run actions).languages.ofPath? path = some lang)
    (hblocks : DocBlock.scan lang path src = .ok blocks) (hblock : block ∈ blocks)
    (htags : canonicalTags (run actions).rules block.text = before ++ opener :: after)
    (hopener : (run actions).rules.isProjectLevel opener.1 = true)
    (hfirst : ∀ tag ∈ before, (run actions).rules.isProjectLevel tag.1 = false) :
    ∃ file item, (run actions).scanFile path src = .ok file ∧ item ∈ file.items ∧
      (run actions).itemOfBlock? path block = some item ∧ item.line = block.line ∧
      item.kind = opener.1 ∧
      (opener.2 ≠ [] → item.name =
        Text.firstWord ((after.filter (givesName (run actions).rules)).getLastD opener).2) := by
  obtain ⟨item, hitem, hline, hkind, hname⟩ :=
    (coherent_run actions).seed_of_block htags hopener hfirst
  obtain ⟨hscanned, -⟩ := scanFile_of_scan hlang hblocks
  have hstored : item ∈ blocks.filterMap ((run actions).itemOfBlock? path) :=
    List.mem_filterMap.mpr ⟨block, hblock, hitem⟩
  exact ⟨_, item, hscanned, hstored, hitem, hline, hkind, hname⟩

/-- A block with two tags that may open a module, and names and other tags around them. -/
def seedSource : Text :=
  "--- Helpers.\n-- @name early\n-- @module util and more\n-- @function add\n-- @script\n-- @name late\n"

/-- The text of the block of `seedSource`. -/
def seedText : Text :=
  "Helpers.\n@name early\n@module util and more\n@function add\n@script\n@name late"

theorem scan_seedSource :
    DocBlock.scan .lua ⟨"m.lua"⟩ seedSource = .ok [⟨seedText, 1, 6, none, true⟩] :=
  DocBlock.ofTokens_eq_ok_iff.mpr ⟨by decide +kernel, by decide +kernel⟩

/-- The tag lines of `seedText` from the one that opens a module on. -/
def seedTags : List (Text × Text) :=
  [("module", "util and more"), ("function", "add"), ("script", ""), ("name", "late")]

theorem canonicalTags_seedText :
    canonicalTags (run []).rules seedText = [(("name" : Text), ("early" : Text))] ++ seedTags := by
  decide +kernel

/-- The function that is named behind the module takes its name away. -/
theorem run_stores_seed_renamed :
    ∃ file item, (run []).scanFile ⟨"m.lua"⟩ seedSource = .ok file ∧ item ∈ file.items ∧
      item.kind = ("module" : Text) ∧ item.name = ("add" : Text) := by
  obtain ⟨file, item, hfile, hstored, -, -, hkind, hname⟩ :=
    run_stores_seed [] (by decide : (run []).languages.ofPath? ⟨"m.lua"⟩ = some .lua)
      scan_seedSource List.mem_cons_self canonicalTags_seedText (by decide) (by decide)
  exact ⟨file, item, hfile, hstored, hkind, (hname (by decide)).trans (by decide)⟩

/-- The name of a module need not come from the tag line that opens it. -/
theorem run_seed_name_lost :
    ∃ block blocks opener after item, DocBlock.scan .lua ⟨"m.lua"⟩
        "--- Helpers.\n-- @module util\n-- @function add\n" = .ok blocks ∧ block ∈ blocks ∧
      canonicalTags (run []).rules block.text = opener :: after ∧
      (run []).rules.isProjectLevel opener.1 = true ∧ opener.2 ≠ [] ∧
      (run []).itemOfBlock? ⟨"m.lua"⟩ block = some item ∧ item.kind = opener.1 ∧
      item.name ≠ Text.firstWord opener.2 := by
  have hscan : DocBlock.scan .lua ⟨"m.lua"⟩ "--- Helpers.\n-- @module util\n-- @function add\n" =
      .ok [⟨"Helpers.\n@module util\n@function add", 1, 3, none, true⟩] :=
    DocBlock.ofTokens_eq_ok_iff.mpr ⟨by decide +kernel, by decide +kernel⟩
  refine ⟨_, _, ("module", "util"), [("function", "add")], _, hscan, List.mem_cons_self,
    by decide +kernel, by decide, by decide, rfl, ?_, ?_⟩
  · decide +kernel
  · decide +kernel

end Workspace

end SourceDoc
