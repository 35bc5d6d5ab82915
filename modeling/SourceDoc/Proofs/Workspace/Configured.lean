import SourceDoc.Proofs.Keyed
import SourceDoc.Proofs.Workspace.Runs

namespace SourceDoc

namespace KindList

/-- Registers the kind of modules that a tag needs, unless there is one of its name. -/
def provide (l : KindList) (tag : TagConfig) : KindList :=
  if tag.isProjectLevel && !l.contains tag.name then
    l.register tag.name (Text.capitalized tag.name) none
  else l

/-- What a tag needs is registered behind the kinds there are. -/
theorem extends_provide (l : KindList) (tag : TagConfig) : l.Extends (l.provide tag) := by
  rw [provide]
  split
  · exact extends_register ..
  · exact .refl l

theorem contains_provide (l : KindList) {tag : TagConfig} (htag : tag.isProjectLevel = true) :
    (l.provide tag).contains tag.name = true := by
  rw [provide]
  split
  · exact contains_register ..
  · rename_i hknown
    simpa [htag] using hknown

theorem extends_foldl_provide (l : KindList) (tags : List TagConfig) :
    l.Extends (tags.foldl provide l) := by
  induction tags generalizing l with
  | nil => exact .refl l
  | cons tag tags ih => exact (extends_provide l tag).trans (ih _)

/-- Each of several tags has its kind afterwards, since kinds stay. -/
theorem contains_foldl_provide (l : KindList) {tags : List TagConfig} {tag : TagConfig}
    (hmem : tag ∈ tags) (htag : tag.isProjectLevel = true) :
    (tags.foldl provide l).contains tag.name = true := by
  induction tags generalizing l with
  | nil => cases hmem
  | cons first tags ih =>
    rcases List.mem_cons.mp hmem with rfl | hrest
    · exact (extends_foldl_provide _ tags).contains (contains_provide l htag)
    · exact ih (l.provide first) hrest

/-- Where all kinds are there that tags need, none is registered. -/
theorem foldl_provide_eq_self {l : KindList} {tags : List TagConfig}
    (hknown : ∀ tag ∈ tags, tag.isProjectLevel = true → l.contains tag.name = true) :
    tags.foldl provide l = l := by
  induction tags with
  | nil => rfl
  | cons tag tags ih =>
    have hfirst : l.provide tag = l := by
      rw [provide, if_neg]
      simpa using hknown tag List.mem_cons_self
    rw [List.foldl_cons, hfirst]
    exact ih fun tag hmem => hknown tag (List.mem_cons_of_mem _ hmem)

end KindList

namespace LanguageTable

/-- The entry that gives an extension the registered language of a name. -/
def assigned? (t : LanguageTable) (given : Text × Text) : Option (Text × Language) :=
  (t.registered.find? (·.name = given.2)).map (given.1.dropWhile (· == '.'), ·)

end LanguageTable

/-- The rule that a configured tag has. -/
def TagConfig.rule (t : TagConfig) : Text × TagRule :=
  (t.name, ⟨t.isProjectLevel, false⟩)

/-- The rule that the tag of a configured type has. -/
def TypeConfig.rule (t : TypeConfig) : Text × TagRule :=
  (t.id, ⟨t.isProjectLevel, true⟩)

/-- The kind that a configured type registers. -/
def TypeConfig.kind (t : TypeConfig) : Kind :=
  ⟨t.id, t.title, t.childTitle⟩

/-- The kind that a configured section registers. -/
def SectionConfig.kind (s : SectionConfig) : Kind :=
  ⟨s.id, s.title, s.childTitle⟩

namespace Config

/-- The rules of a configuration: those of its tags, then those of its types. -/
def rules (c : Config) : List (Text × TagRule) :=
  c.tags.map TagConfig.rule ++ c.types.map TypeConfig.rule

/-- The kinds of items of a configuration: types, then sections. -/
def itemKinds (c : Config) : List Kind :=
  (c.types.filter (!·.isProjectLevel)).map TypeConfig.kind ++ c.sections.map SectionConfig.kind

/-- The kinds of modules that a configuration gives titles. -/
def moduleKinds (c : Config) : List Kind :=
  (c.types.filter (·.isProjectLevel)).map TypeConfig.kind

end Config

namespace Workspace

/-- Gives extensions languages that are registered. -/
def assign (w : Workspace) (entries : List (Text × Language)) : Workspace :=
  { w with languages.extensions := Dictionary.putAll entries w.languages.extensions }

section Stages

variable (w : Workspace)

theorem foldl_addAlias (aliases : List (Text × Text)) :
    aliases.foldl (fun w entry => w.addAlias entry.1 entry.2) w =
      { w with rules.aliases := Dictionary.putAll aliases w.rules.aliases } := by
  induction aliases generalizing w with
  | nil => rfl
  | cons entry aliases ih => exact ih (w.addAlias entry.1 entry.2)

/-- The rules of tags go into the dictionary of rules, and the kinds they need are provided. -/
theorem foldl_addTag (tags : List TagConfig) :
    tags.foldl (fun w t => w.addTag t.name t.isProjectLevel) w =
      { w with
        rules.rules := Dictionary.putAll (tags.map TagConfig.rule) w.rules.rules
        moduleKinds := tags.foldl KindList.provide w.moduleKinds } := by
  induction tags generalizing w with
  | nil => rfl
  | cons tag tags ih => exact ih (w.addTag tag.name tag.isProjectLevel)

/-- Types go into the rules and, by their sort, to one of the two lists of kinds. -/
theorem foldl_addType (types : List TypeConfig) :
    types.foldl (fun w t => w.addType t.id t.title t.isProjectLevel t.childTitle) w =
      { w with
        rules.rules := Dictionary.putAll (types.map TypeConfig.rule) w.rules.rules
        itemKinds :=
          w.itemKinds.registerAll ((types.filter (!·.isProjectLevel)).map TypeConfig.kind)
        moduleKinds :=
          w.moduleKinds.registerAll ((types.filter (·.isProjectLevel)).map TypeConfig.kind) } := by
  induction types generalizing w with
  | nil => rfl
  | cons type types ih =>
    obtain ⟨id, title, level, childTitle⟩ := type
    cases level with
    | false => exact ih (w.addType id title false childTitle)
    | true => exact ih (w.addType id title true childTitle)

theorem foldl_addSection (sections : List SectionConfig) :
    sections.foldl (fun w s => w.addSection s.id s.title s.childTitle) w =
      { w with itemKinds := w.itemKinds.registerAll (sections.map SectionConfig.kind) } := by
  induction sections generalizing w with
  | nil => rfl
  | cons s sections ih => exact ih (w.addSection s.id s.title s.childTitle)

/-- The names of a configuration, table by table. Tags come before types, so a type decides about
    the rule and the titles of an id that a tag has too. -/
theorem addNames_eq (c : Config) :
    w.addNames c =
      { w with
        rules := {
          rules := Dictionary.putAll c.rules w.rules.rules
          aliases := Dictionary.putAll c.aliases w.rules.aliases }
        itemKinds := w.itemKinds.registerAll c.itemKinds
        moduleKinds := (c.tags.foldl KindList.provide w.moduleKinds).registerAll c.moduleKinds } := by
  simp only [addNames, foldl_addAlias, foldl_addTag, foldl_addType, foldl_addSection, Config.rules,
    Config.itemKinds, Config.moduleKinds, Dictionary.putAll_append, KindList.registerAll_append]

/-- Names that are there are not changed by adding them again. -/
theorem addNames_eq_self {c : Config}
    (hrules : Dictionary.putAll c.rules w.rules.rules = w.rules.rules)
    (haliases : Dictionary.putAll c.aliases w.rules.aliases = w.rules.aliases)
    (hitems : w.itemKinds.registerAll c.itemKinds = w.itemKinds)
    (htags : ∀ tag ∈ c.tags, tag.isProjectLevel = true → w.moduleKinds.contains tag.name = true)
    (hmodules : w.moduleKinds.registerAll c.moduleKinds = w.moduleKinds) : w.addNames c = w := by
  rw [addNames_eq, hrules, haliases, hitems, KindList.foldl_provide_eq_self htags, hmodules]

/-- Names that are added twice are there as if they had been added once. -/
theorem addNames_addNames (c : Config) : (w.addNames c).addNames c = w.addNames c := by
  apply addNames_eq_self
  all_goals rw [addNames_eq]
  · exact Dictionary.putAll_putAll ..
  · exact Dictionary.putAll_putAll ..
  · exact KindList.registerAll_registerAll ..
  · intro tag hmem htag
    -- a kind that a tag has registered is kept, under other titles, when types are registered
    exact (KindList.extends_registerAll _ c.moduleKinds).contains
      (KindList.contains_foldl_provide w.moduleKinds hmem htag)
  · exact KindList.registerAll_registerAll ..

/-- Giving an extension its language is one entry, if the language is registered. -/
theorem addExtension_eq (extension language : Text) :
    w.addExtension extension language =
      match w.languages.assigned? (extension, language) with
      | none => .error (.config (.unknownLanguage language extension))
      | some entry => .ok { w with
          languages.extensions := Dictionary.put entry.1 entry.2 w.languages.extensions } := by
  rw [addExtension, LanguageTable.addExtension, LanguageTable.assigned?]
  cases w.languages.registered.find? (·.name = language) <;> rfl

/-- Giving extensions their languages succeeds exactly if each of the languages is registered. -/
theorem addExtensions_eq_none_iff (given : List (Text × Text)) (later : Workspace) :
    w.addExtensions given = (later, none) ↔
      ∃ entries, given.mapM w.languages.assigned? = some entries ∧ later = w.assign entries := by
  induction given generalizing w with
  | nil => simp [addExtensions, assign, Dictionary.putAll, eq_comm]
  | cons first given ih =>
    obtain ⟨extension, language⟩ := first
    rw [addExtensions, addExtension_eq, List.mapM_cons]
    cases w.languages.assigned? (extension, language) with
    | none => simp
    | some entry =>
      -- the registered languages stay, so the other entries are those of the table after the first
      have hassigned : LanguageTable.assigned? { w.languages with
          extensions := Dictionary.put entry.1 entry.2 w.languages.extensions } =
            w.languages.assigned? := rfl
      simp only [ih, hassigned]
      cases given.mapM w.languages.assigned? with
      | none => simp
      | some entries => simp [assign, Dictionary.putAll_cons]

/-- Applying a configuration succeeds exactly if the languages of its extensions are registered. It
    is applied in three stages then. -/
theorem apply_eq_none_iff (c : Config) (later : Workspace) :
    w.apply c = (later, none) ↔
      ∃ entries, c.extensions.mapM w.languages.assigned? = some entries ∧
        later = ((w.addNames c).assign entries).setOptions c := by
  have hlanguages : (w.addNames c).languages = w.languages := by rw [addNames_eq]
  have hextensions (added : Workspace) :=
    (w.addNames c).addExtensions_eq_none_iff c.extensions added
  rw [apply]
  cases hadd : (w.addNames c).addExtensions c.extensions with
  | mk added failed =>
    rw [hlanguages, hadd] at hextensions
    cases failed with
    | some failure =>
      constructor
      · intro h
        cases h
      · rintro ⟨entries, hentries, -⟩
        cases (hextensions _).mpr ⟨entries, hentries, rfl⟩
    | none =>
      obtain ⟨entries, hentries, hadded⟩ := (hextensions added).mp rfl
      simp [hentries, hadded, eq_comm]

theorem assign_assign (entries : List (Text × Language)) :
    (w.assign entries).assign entries = w.assign entries := by
  simp only [assign, Dictionary.putAll_putAll]

theorem setOptions_setOptions (c : Config) : (w.setOptions c).setOptions c = w.setOptions c := by
  simp only [setOptions, Bool.or_assoc, Bool.or_self]
  cases c.package <;> cases c.project <;> rfl

/-- Names and languages are kept in different tables, so their order does not matter. -/
theorem addNames_assign (entries : List (Text × Language)) (c : Config) :
    (w.assign entries).addNames c = (w.addNames c).assign entries := by
  simp only [addNames_eq, assign]

theorem addNames_setOptions (options c : Config) :
    (w.setOptions options).addNames c = (w.addNames c).setOptions options := by
  simp only [addNames_eq, setOptions]

theorem assign_setOptions (options : Config) (entries : List (Text × Language)) :
    (w.setOptions options).assign entries = (w.assign entries).setOptions options :=
  rfl

/-- A configuration that was applied to a workspace can be applied to the result, and changes
    nothing there. -/
theorem apply_apply (c : Config) (h : (w.apply c).2 = none) :
    (w.apply c).1.apply c = ((w.apply c).1, none) := by
  have hfirst : w.apply c = ((w.apply c).1, none) := Prod.ext rfl h
  obtain ⟨entries, hentries, hlater⟩ := (w.apply_eq_none_iff c _).mp hfirst
  have hassigned : (w.apply c).1.languages.assigned? = w.languages.assigned? := by
    rw [hlater, addNames_eq]
    rfl
  refine ((w.apply c).1.apply_eq_none_iff c _).mpr ⟨entries, hassigned ▸ hentries, ?_⟩
  rw [hlater]
  -- the stages change different tables, so each of them meets its own result
  rw [addNames_setOptions, addNames_assign, addNames_addNames, assign_setOptions, assign_assign,
    setOptions_setOptions]

end Stages

/-- A configuration in which one id is a tag, a type of modules, a type of items and a section, with
    other titles each time, in which a tag and an extension are given twice. -/
def contradictory : Config where
  project := some "Demo"
  keepLocals := true
  aliases := [("arg", "param"), ("params", "tparam")]
  tags := [⟨"service", true⟩, ⟨"plugin", true⟩, ⟨"service", false⟩]
  types := [⟨"service", "Services", true, some "Endpoints"⟩, ⟨"service", "Service", false, none⟩,
    ⟨"function", "Procedures", false, none⟩, ⟨"service", "All Services", true, none⟩]
  sections := [⟨"service", "Parts", some "Members"⟩, ⟨"constant", "Constants", none⟩]
  extensions := [(".inc", "c"), ("inc", "lua"), ("lua", "c")]

/-- A workspace in which the ids of `contradictory` have a meaning already. -/
def customized : Workspace :=
  run [.addType "plugin" "Plugins" false none, .addSection "constant" "Values" none,
    .addAlias "arg" "tparam", .addExtension "inc" "c", .addTag "service" true]

theorem apply_apply_contradictory :
    (customized.apply contradictory).2 = none ∧
    (customized.apply contradictory).1 ≠ customized ∧
    (customized.apply contradictory).1.apply contradictory =
      ((customized.apply contradictory).1, none) := by
  have h : (customized.apply contradictory).2 = none := by decide +kernel
  exact ⟨h, by decide +kernel, apply_apply customized contradictory h⟩

end Workspace

end SourceDoc
