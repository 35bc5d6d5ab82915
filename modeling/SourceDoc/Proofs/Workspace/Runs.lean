import Mathlib.Data.List.Induction
import SourceDoc.Proofs.KindList
import SourceDoc.Proofs.Tag.Table
import SourceDoc.Workspace.Scan

namespace SourceDoc.Workspace

/-- Something that is done to a workspace. -/
inductive Action where
  | addAlias (source target : Text)
  | addTag (name : Text) (isProjectLevel : Bool)
  | addType (id title : Text) (isProjectLevel : Bool) (childTitle : Option Text)
  | addSection (id title : Text) (childTitle : Option Text)
  | addExtension (extension language : Text)
  | apply (config : Config)
  | scan (path : Path) (src : Text)

/-- The workspace after an action. What an action does before it fails stays; only applying a
    configuration does anything before. -/
def perform (w : Workspace) : Action → Workspace
  | .addAlias source target => w.addAlias source target
  | .addTag name isProjectLevel => w.addTag name isProjectLevel
  | .addType id title isProjectLevel childTitle => w.addType id title isProjectLevel childTitle
  | .addSection id title childTitle => w.addSection id title childTitle
  | .addExtension extension language => (w.addExtension extension language).toOption.getD w
  | .apply config => (w.apply config).1
  | .scan path src => (w.addFile path src).toOption.getD w

/-- The workspace that actions make of a new one. -/
def run (actions : List Action) : Workspace :=
  actions.foldl perform {}

/-- A workspace whose tables agree: each kind is listed once, each tag that may open modules is a
    kind of modules, each other tag that names entities is a kind of items, and the language of each
    extension is registered. -/
structure Coherent (w : Workspace) : Prop where
  itemIds : (w.itemKinds.kinds.map (·.id)).Nodup
  moduleIds : (w.moduleKinds.kinds.map (·.id)).Nodup
  projectTags : ∀ tag rule, w.rules.rule? tag = some rule → rule.isProjectLevel = true →
    w.moduleKinds.contains tag = true
  shorthandTags : ∀ tag rule, w.rules.rule? tag = some rule → rule.isShorthand = true →
    rule.isProjectLevel = false → w.itemKinds.contains tag = true
  extensions : ∀ entry ∈ w.languages.extensions, entry.2 ∈ w.languages.registered

/-- What an action keeps: coherence, and every kind at its position. -/
structure Keeps (w later : Workspace) : Prop where
  coherent : w.Coherent → later.Coherent
  itemKinds : w.itemKinds.Extends later.itemKinds
  moduleKinds : w.moduleKinds.Extends later.moduleKinds

theorem Keeps.refl (w : Workspace) : w.Keeps w :=
  ⟨id, .refl _, .refl _⟩

theorem Keeps.trans {u v w : Workspace} (huv : u.Keeps v) (hvw : v.Keeps w) : u.Keeps w :=
  ⟨hvw.coherent ∘ huv.coherent, huv.itemKinds.trans hvw.itemKinds,
    huv.moduleKinds.trans hvw.moduleKinds⟩

/-- What everything but the scan of a file keeps: the files, too. -/
structure Configures (w later : Workspace) : Prop extends Keeps w later where
  files : later.files = w.files

theorem Configures.refl (w : Workspace) : w.Configures w :=
  ⟨.refl w, rfl⟩

theorem Configures.trans {u v w : Workspace} (huv : u.Configures v) (hvw : v.Configures w) :
    u.Configures w :=
  ⟨huv.toKeeps.trans hvw.toKeeps, hvw.files.trans huv.files⟩

/-- Any number of such steps are one, by induction on what they are made for. -/
theorem configures_foldl {α : Type} {step : Workspace → α → Workspace}
    (hstep : ∀ w x, Configures w (step w x)) (w : Workspace) (xs : List α) :
    w.Configures (xs.foldl step w) :=
  List.foldlRecOn xs step (.refl w) fun v hv x _ => hv.trans (hstep v x)

/-- The rule of a tag after one was made known. -/
theorem rule?_add (r : TagRules) (tag : Text) (rule : TagRule) (key : Text) :
    (r.add tag rule).rule? key = if key = tag then some rule else r.rule? key :=
  Dictionary.lookup_put tag rule r.rules key

section Actions

variable (w : Workspace)

theorem configures_addAlias (source target : Text) : w.Configures (w.addAlias source target) :=
  ⟨⟨fun hw => ⟨hw.itemIds, hw.moduleIds, hw.projectTags, hw.shorthandTags, hw.extensions⟩,
    .refl _, .refl _⟩, rfl⟩

/-- Making a tag known keeps a workspace coherent if the kinds have grown by what the tag needs. -/
theorem Coherent.addRule {w later : Workspace} (hw : w.Coherent) {tag : Text} {rule : TagRule}
    (hrules : later.rules = w.rules.add tag rule) (hlanguages : later.languages = w.languages)
    (hitemIds : (later.itemKinds.kinds.map (·.id)).Nodup)
    (hmoduleIds : (later.moduleKinds.kinds.map (·.id)).Nodup)
    (hitems : w.itemKinds.Extends later.itemKinds)
    (hmodules : w.moduleKinds.Extends later.moduleKinds)
    (hproject : rule.isProjectLevel = true → later.moduleKinds.contains tag = true)
    (hshorthand : rule.isShorthand = true → rule.isProjectLevel = false →
      later.itemKinds.contains tag = true) : later.Coherent where
  itemIds := hitemIds
  moduleIds := hmoduleIds
  projectTags := by
    intro key found hfound hlevel
    rw [hrules, rule?_add] at hfound
    split at hfound
    · rename_i hkey
      cases hfound
      exact hkey ▸ hproject hlevel
    · exact hmodules.contains (hw.projectTags key found hfound hlevel)
  shorthandTags := by
    intro key found hfound hshort hlevel
    rw [hrules, rule?_add] at hfound
    split at hfound
    · rename_i hkey
      cases hfound
      exact hkey ▸ hshorthand hshort hlevel
    · exact hitems.contains (hw.shorthandTags key found hfound hshort hlevel)
  extensions := by
    rw [hlanguages]
    exact hw.extensions

/-- A tag is made known together with the kind of modules it may open. -/
theorem configures_addTag (name : Text) (isProjectLevel : Bool) :
    w.Configures (w.addTag name isProjectLevel) := by
  by_cases hnew : (isProjectLevel && !w.moduleKinds.contains name) = true
  · have hkinds : (w.addTag name isProjectLevel).moduleKinds =
        w.moduleKinds.register name (Text.capitalized name) none := by rw [addTag, if_pos hnew]
    have hextends : w.moduleKinds.Extends (w.addTag name isProjectLevel).moduleKinds :=
      hkinds ▸ KindList.extends_register ..
    refine ⟨⟨?_, .refl _, hextends⟩, rfl⟩
    intro hw
    refine hw.addRule rfl rfl hw.itemIds ?_ (.refl _) hextends ?_ ?_
    · rw [hkinds]
      exact KindList.nodup_ids_register hw.moduleIds ..
    · intro _
      rw [hkinds]
      exact KindList.contains_register ..
    · intro hshort
      cases hshort
  · have hkinds : (w.addTag name isProjectLevel).moduleKinds = w.moduleKinds := by
      rw [addTag, if_neg hnew]
    have hextends : w.moduleKinds.Extends (w.addTag name isProjectLevel).moduleKinds :=
      hkinds ▸ .refl _
    refine ⟨⟨?_, .refl _, hextends⟩, rfl⟩
    intro hw
    refine hw.addRule rfl rfl hw.itemIds (hkinds ▸ hw.moduleIds) (.refl _) hextends ?_ ?_
    · intro hlevel
      have hlevel : isProjectLevel = true := hlevel
      rw [hkinds]
      simpa [hlevel] using hnew
    · intro hshort
      cases hshort

/-- A type is made known together with its kind, of modules or of items. -/
theorem configures_addType (id title : Text) (isProjectLevel : Bool) (childTitle : Option Text) :
    w.Configures (w.addType id title isProjectLevel childTitle) := by
  cases isProjectLevel with
  | true =>
    have hextends := KindList.extends_register w.moduleKinds id title childTitle
    refine ⟨⟨?_, .refl _, hextends⟩, rfl⟩
    intro hw
    refine hw.addRule rfl rfl hw.itemIds ?_ (.refl _) hextends ?_ ?_
    · exact KindList.nodup_ids_register hw.moduleIds ..
    · exact fun _ => KindList.contains_register ..
    · intro _ hlevel
      cases hlevel
  | false =>
    have hextends := KindList.extends_register w.itemKinds id title childTitle
    refine ⟨⟨?_, hextends, .refl _⟩, rfl⟩
    intro hw
    refine hw.addRule rfl rfl ?_ hw.moduleIds hextends (.refl _) ?_ ?_
    · exact KindList.nodup_ids_register hw.itemIds ..
    · intro hlevel
      cases hlevel
    · exact fun _ _ => KindList.contains_register ..

/-- A section adds a kind of items and no tag. -/
theorem configures_addSection (id title : Text) (childTitle : Option Text) :
    w.Configures (w.addSection id title childTitle) := by
  have hextends := KindList.extends_register w.itemKinds id title childTitle
  refine ⟨⟨?_, hextends, .refl _⟩, rfl⟩
  intro hw
  refine ⟨KindList.nodup_ids_register hw.itemIds .., hw.moduleIds, hw.projectTags, ?_,
    hw.extensions⟩
  intro tag rule hrule hshort hlevel
  exact hextends.contains (hw.shorthandTags tag rule hrule hshort hlevel)

/-- What a language table becomes when an extension is added: the language of the new extension is a
    registered one. -/
theorem mem_registered_addExtension {t later : LanguageTable} {extension language : Text}
    (h : t.addExtension extension language = .ok later)
    (ht : ∀ entry ∈ t.extensions, entry.2 ∈ t.registered) :
    ∀ entry ∈ later.extensions, entry.2 ∈ later.registered := by
  unfold LanguageTable.addExtension at h
  split at h
  · cases h
  · rename_i lang hfound
    cases h
    intro entry hentry
    rcases Keyed.mem_of_mem_upsert hentry with rfl | hold | ⟨old, hold, -, rfl⟩
    · exact List.mem_of_find?_eq_some hfound
    · exact ht entry hold
    · exact List.mem_of_find?_eq_some hfound

/-- An extension is given only a language that is registered. -/
theorem configures_addExtension {w later : Workspace} {extension language : Text}
    (h : w.addExtension extension language = .ok later) : w.Configures later := by
  unfold addExtension at h
  cases hlanguages : w.languages.addExtension extension language with
  | error failure =>
    rw [hlanguages] at h
    cases h
  | ok languages =>
    rw [hlanguages] at h
    cases h
    refine ⟨⟨?_, .refl _, .refl _⟩, rfl⟩
    intro hw
    exact ⟨hw.itemIds, hw.moduleIds, hw.projectTags, hw.shorthandTags,
      mem_registered_addExtension hlanguages hw.extensions⟩

/-- Adding extensions keeps all this even if one of them fails. -/
theorem configures_addExtensions (extensions : List (Text × Text)) :
    w.Configures (w.addExtensions extensions).1 := by
  induction extensions generalizing w with
  | nil => exact .refl w
  | cons entry rest ih =>
    rw [addExtensions]
    split
    · rename_i later hlater
      exact (configures_addExtension hlater).trans (ih later)
    · exact .refl w

theorem configures_addNames (c : Config) : w.Configures (w.addNames c) :=
  (((configures_foldl (fun w entry => configures_addAlias w entry.1 entry.2) w c.aliases).trans
    (configures_foldl (fun w t => configures_addTag w t.name t.isProjectLevel) _ c.tags)).trans
    (configures_foldl (fun w t => configures_addType w t.id t.title t.isProjectLevel t.childTitle) _
      c.types)).trans
    (configures_foldl (fun w s => configures_addSection w s.id s.title s.childTitle) _ c.sections)

theorem configures_setOptions (c : Config) : w.Configures (w.setOptions c) :=
  ⟨⟨fun hw => ⟨hw.itemIds, hw.moduleIds, hw.projectTags, hw.shorthandTags, hw.extensions⟩,
    .refl _, .refl _⟩, rfl⟩

/-- Applying a configuration keeps what each part of it keeps, even if it fails on the way. -/
theorem configures_apply (c : Config) : w.Configures (w.apply c).1 := by
  have hparts :=
    (configures_addNames w c).trans (configures_addExtensions (w.addNames c) c.extensions)
  unfold apply
  split
  · rename_i later failure hextensions
    rw [hextensions] at hparts
    exact hparts
  · rename_i later hextensions
    rw [hextensions] at hparts
    exact hparts.trans (configures_setOptions later c)

/-- What scanning a file gives and reports once its blocks are known. -/
theorem scanFile_of_scan {w : Workspace} {path : Path} {src : Text} {lang : Language}
    {blocks : List DocBlock} (hlanguage : w.languages.ofPath? path = some lang)
    (hscan : DocBlock.scan lang path src = .ok blocks) :
    w.scanFile path src = .ok (w.fileOfBlocks path lang (lang.tokens src) blocks) ∧
      w.scanFileEvents path src = blocks.flatMap (w.itemOfBlockEvents path) ++
        [.scanned path (blocks.filterMap (w.itemOfBlock? path)).length] := by
  refine ⟨?_, ?_⟩
  · rw [scanFile, hlanguage]
    simp only [hscan]
    rfl
  · rw [scanFileEvents, hlanguage]
    simp only [hscan]

/-- Scanning a file either fails or adds the file and nothing else. -/
theorem addFile_cases (path : Path) (src : Text) :
    (∃ failure, w.addFile path src = .error failure) ∨
      ∃ file, w.scanFile path src = .ok file ∧
        w.addFile path src = .ok { w with files := w.files ++ [file] } := by
  unfold addFile
  cases hscan : w.scanFile path src with
  | error failure => exact .inl ⟨failure, rfl⟩
  | ok file => exact .inr ⟨file, rfl, rfl⟩

/-- Only a scan that succeeds adds a file, and it does nothing else. -/
theorem perform_cases (a : Action) :
    w.Configures (w.perform a) ∨
      ∃ path src file, a = .scan path src ∧ w.scanFile path src = .ok file ∧
        w.perform a = { w with files := w.files ++ [file] } := by
  cases a with
  | addAlias source target => exact .inl (configures_addAlias w source target)
  | addTag name isProjectLevel => exact .inl (configures_addTag w name isProjectLevel)
  | addType id title isProjectLevel childTitle =>
    exact .inl (configures_addType w id title isProjectLevel childTitle)
  | addSection id title childTitle => exact .inl (configures_addSection w id title childTitle)
  | addExtension extension language =>
    rw [perform]
    cases hadded : w.addExtension extension language with
    | error failure => exact .inl (.refl w)
    | ok later => exact .inl (configures_addExtension hadded)
  | apply config => exact .inl (configures_apply w config)
  | scan path src =>
    rw [perform]
    rcases addFile_cases w path src with ⟨failure, hfailed⟩ | ⟨file, hfile, hadded⟩
    · rw [hfailed]
      exact .inl (.refl w)
    · rw [hadded]
      exact .inr ⟨path, src, file, rfl, hfile, rfl⟩

/-- Every action keeps the tables in agreement, also one that fails. -/
theorem keeps_perform (a : Action) : w.Keeps (w.perform a) := by
  rcases perform_cases w a with hconfigures | ⟨path, src, file, -, -, hadded⟩
  · exact hconfigures.toKeeps
  · rw [hadded]
    exact ⟨fun hw => ⟨hw.itemIds, hw.moduleIds, hw.projectTags, hw.shorthandTags, hw.extensions⟩,
      .refl _, .refl _⟩

end Actions

section Runs

/-- A run keeps what each of its actions keeps. -/
theorem keeps_run_append (earlier later : List Action) :
    (run earlier).Keeps (run (earlier ++ later)) := by
  rw [run, run, List.foldl_append]
  exact List.foldlRecOn later perform (.refl _) fun w hw a _ => hw.trans (keeps_perform w a)

theorem coherent_start : ({} : Workspace).Coherent := by
  have hmem {tag : Text} {rule : TagRule} (h : TagRules.standard.rule? tag = some rule) :
      (tag, rule) ∈ TagRules.standard.rules := by
    obtain ⟨before, after, hrules, -⟩ := List.lookup_eq_some_iff.mp h
    rw [hrules]
    simp
  have hproject : ∀ entry ∈ TagRules.standard.rules, entry.2.isProjectLevel = true →
      KindList.ofModules.contains entry.1 = true := by decide
  have hshorthand : ∀ entry ∈ TagRules.standard.rules, entry.2.isShorthand = true →
      entry.2.isProjectLevel = false → KindList.ofItems.contains entry.1 = true := by decide
  exact ⟨by decide, by decide, fun _ _ hrule => hproject _ (hmem hrule),
    fun _ _ hrule => hshorthand _ (hmem hrule), by decide⟩

/-- The tables agree after every run, by induction on its actions. -/
theorem coherent_run (actions : List Action) : (run actions).Coherent :=
  (keeps_run_append [] actions).coherent coherent_start

/-- The kinds a run has are those of the start, and maybe more behind them. -/
theorem extends_run (actions : List Action) :
    KindList.ofItems.Extends (run actions).itemKinds ∧
      KindList.ofModules.Extends (run actions).moduleKinds :=
  ⟨(keeps_run_append [] actions).itemKinds, (keeps_run_append [] actions).moduleKinds⟩

/-- Each file of a run was scanned by one of its actions, under the tables of that moment. -/
theorem exists_scan_of_mem_files {actions : List Action} {file : SourceFile}
    (h : file ∈ (run actions).files) :
    ∃ before path src after, actions = before ++ .scan path src :: after ∧
      (run before).scanFile path src = .ok file := by
  induction actions using List.reverseRecOn with
  | nil => cases h
  | append_singleton actions a ih =>
    have hstep : run (actions ++ [a]) = (run actions).perform a := by
      rw [run, List.foldl_append]
      rfl
    have hearlier (h : file ∈ (run actions).files) :
        ∃ before path src after, actions ++ [a] = before ++ .scan path src :: after ∧
          (run before).scanFile path src = .ok file := by
      obtain ⟨before, path, src, after, hactions, hscan⟩ := ih h
      exact ⟨before, path, src, after ++ [a], by rw [hactions]; simp, hscan⟩
    rw [hstep] at h
    rcases perform_cases (run actions) a with hconfigures | ⟨path, src, scanned, rfl, hscan, hadded⟩
    · exact hearlier (hconfigures.files ▸ h)
    · rw [hadded, List.mem_append, List.mem_singleton] at h
      rcases h with hold | rfl
      · exact hearlier hold
      · exact ⟨actions, path, src, [], rfl, hscan⟩

end Runs

end SourceDoc.Workspace
