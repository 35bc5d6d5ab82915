import SourceDoc.Proofs.Module.Union
import SourceDoc.Proofs.Project.Decoding
import SourceDoc.Proofs.Project.Failures
import SourceDoc.Proofs.Project.Shape
import SourceDoc.Proofs.Tag.Names
import SourceDoc.Workspace.Scan

namespace SourceDoc

namespace Json

/-- No object in a value has two members of one name. A reader of the text then need not decide
    between them. -/
inductive DistinctKeys : Json → Prop
  | null : DistinctKeys .null
  | bool (b : Bool) : DistinctKeys (.bool b)
  | nat (n : Nat) : DistinctKeys (.nat n)
  | str (t : Text) : DistinctKeys (.str t)
  | arr {vs : List Json} (hvalues : ∀ v ∈ vs, DistinctKeys v) : DistinctKeys (.arr vs)
  | obj {ms : List (Text × Json)} (hnames : (ms.map (·.1)).Nodup)
      (hvalues : ∀ m ∈ ms, DistinctKeys m.2) : DistinctKeys (.obj ms)

attribute [simp] DistinctKeys.null DistinctKeys.bool DistinctKeys.nat DistinctKeys.str

/-- What is to be shown of an object: its own names, and each of its values. -/
theorem distinctKeys_obj_iff {ms : List (Text × Json)} :
    (Json.obj ms).DistinctKeys ↔ (ms.map (·.1)).Nodup ∧ ∀ m ∈ ms, m.2.DistinctKeys := by
  constructor
  · intro h
    cases h with
    | obj hnames hvalues => exact ⟨hnames, hvalues⟩
  · rintro ⟨hnames, hvalues⟩
    exact .obj hnames hvalues

theorem distinctKeys_arr_map {α : Type} {write : α → Json} {as : List α}
    (hwrite : ∀ a ∈ as, (write a).DistinctKeys) : (Json.arr (as.map write)).DistinctKeys :=
  .arr (List.forall_mem_map.mpr hwrite)

/-- An object that is written from a list has the names of its entries. -/
theorem distinctKeys_obj_map {α : Type} {name : α → Text} {write : α → Json} {as : List α}
    (hnames : (as.map name).Nodup) (hwrite : ∀ a ∈ as, (write a).DistinctKeys) :
    (Json.obj (as.map fun a => (name a, write a))).DistinctKeys := by
  apply DistinctKeys.obj
  · rw [List.map_map]
    exact hnames
  · exact List.forall_mem_map.mpr hwrite

@[simp] theorem distinctKeys_ofTexts (ts : List Text) : (ofTexts ts).DistinctKeys :=
  distinctKeys_arr_map fun t _ => .str t

@[simp] theorem distinctKeys_ofOption (t : Option Text) : (ofOption t).DistinctKeys := by
  cases t <;> simp [ofOption]

end Json

@[simp] theorem TagValue.distinctKeys_toJson (v : TagValue) : v.toJson.DistinctKeys := by
  cases v <;> simp [toJson]

/-- Tags are written under their names, so these have to be distinct. -/
theorem TagTable.distinctKeys_toJson {t : TagTable} (ht : t.names.Nodup) :
    t.toJson.DistinctKeys :=
  Json.distinctKeys_obj_map ht fun entry _ => entry.2.distinctKeys_toJson

@[simp] theorem Param.distinctKeys_toJson (p : Param) : p.toJson.DistinctKeys := by
  cases htype : p.type <;>
    simp [toJson, htype, Json.distinctKeys_obj_iff, Json.member, Json.member?]

@[simp] theorem ReturnValue.distinctKeys_toJson (r : ReturnValue) : r.toJson.DistinctKeys := by
  cases htype : r.type <;>
    simp [toJson, htype, Json.distinctKeys_obj_iff, Json.member, Json.member?]

@[simp] theorem Link.distinctKeys_toJson (l : Link) : l.toJson.DistinctKeys := by
  cases hitem : l.item <;>
    simp [toJson, hitem, Json.distinctKeys_obj_iff, Json.member, Json.member?]

@[simp] theorem Reference.distinctKeys_toJson (r : Reference) : r.toJson.DistinctKeys := by
  cases htarget : r.target <;> simp [toJson, htarget, Json.distinctKeys_obj_iff]

/-- Only the tags of an item have names that are not fixed. -/
theorem Item.distinctKeys_toJson {i : Item} (htags : i.tags.names.Nodup) :
    i.toJson.DistinctKeys := by
  have hparams (ps : List Param) : (Json.arr (ps.map Param.toJson)).DistinctKeys :=
    Json.distinctKeys_arr_map fun p _ => p.distinctKeys_toJson
  have hreturns := Json.distinctKeys_arr_map fun r (_ : r ∈ i.returns) => r.distinctKeys_toJson
  have hsee := Json.distinctKeys_arr_map fun r (_ : r ∈ i.see) => r.distinctKeys_toJson
  have htags := TagTable.distinctKeys_toJson htags
  simp [toJson, Json.distinctKeys_obj_iff, hparams, hreturns, hsee, htags]

theorem Section.distinctKeys_toJson {s : Section}
    (htags : ∀ item ∈ s.items, item.tags.names.Nodup) : s.toJson.DistinctKeys := by
  have hitems := Json.distinctKeys_arr_map fun item hitem =>
    Item.distinctKeys_toJson (htags item hitem)
  cases htitle : s.childTitle <;>
    simp [toJson, htitle, Json.distinctKeys_obj_iff, Json.member, Json.member?, hitems]

theorem Module.distinctKeys_toJson {m : Module} (htags : m.tags.names.Nodup)
    (hitems : ∀ item ∈ m.items, item.tags.names.Nodup) : m.toJson.DistinctKeys := by
  have hfiles := Json.distinctKeys_arr_map fun (file : Path) (_ : file ∈ m.files) =>
    Json.DistinctKeys.str file.text
  have hsections : (Json.arr (m.sections.map Section.toJson)).DistinctKeys := by
    apply Json.distinctKeys_arr_map
    intro s hs
    apply Section.distinctKeys_toJson
    intro item hitem
    exact hitems item (List.mem_flatMap.mpr ⟨s, hs, hitem⟩)
  have htags := TagTable.distinctKeys_toJson htags
  simp [toJson, Json.distinctKeys_obj_iff, hfiles, hsections, htags]

@[simp] theorem IndexSection.distinctKeys_toJson (s : IndexSection) :
    s.toJson.DistinctKeys := by
  simp [toJson, Json.distinctKeys_obj_iff]

/-- Modules are written under their names, too. -/
theorem Project.distinctKeys_toJson {p : Project} (hnames : (p.modules.map (·.name)).Nodup)
    (hmodules : ∀ m ∈ p.modules, m.toJson.DistinctKeys) : p.toJson.DistinctKeys := by
  have hmembers := Json.distinctKeys_obj_map hnames hmodules
  have hindex := Json.distinctKeys_arr_map fun s (_ : s ∈ p.index) => s.distinctKeys_toJson
  simp [toJson, Json.distinctKeys_obj_iff, hmembers, hindex]

/-- Grouping makes up no items. -/
theorem Module.mem_items_of_mem_grouped {kinds : KindList} {m : ModuleDraft} {item : Item}
    (h : item ∈ (grouped kinds m).items) : item ∈ m.items := by
  rw [items_grouped] at h
  obtain ⟨group, hgroup, hitem⟩ := List.mem_flatMap.mp h
  rw [(KindList.mem_groups_iff.mp hgroup).2.2] at hitem
  exact List.mem_of_mem_filter hitem

namespace ModuleDraft

/-- A module takes over no second entry of a tag when it absorbs another. -/
theorem nodup_tags_absorb {m : ModuleDraft} (hm : m.tags.names.Nodup) (other : ModuleDraft) :
    (m.absorb other).tags.names.Nodup :=
  TagTable.nodup_names_fillMissing hm other.tags

theorem nodup_tags_mergeInto {m : ModuleDraft} (hm : m.tags.names.Nodup) {ms : List ModuleDraft}
    (hms : ∀ d ∈ ms, d.tags.names.Nodup) : ∀ d ∈ mergeInto m ms, d.tags.names.Nodup := by
  intro d hd
  rcases Keyed.mem_of_mem_upsert hd with rfl | hold | ⟨old, hold, -, rfl⟩
  · exact hm
  · exact hms d hold
  · exact nodup_tags_absorb (hms old hold) m

/-- Merging any number of modules keeps each tag once, if each of the modules has it once. -/
theorem nodup_tags_merge {ms : List ModuleDraft} (hms : ∀ d ∈ ms, d.tags.names.Nodup) :
    ∀ d ∈ merge ms, d.tags.names.Nodup := by
  induction ms using List.reverseRecOn with
  | nil => exact hms
  | append_singleton ms m ih =>
    rw [List.forall_mem_append, List.forall_mem_singleton] at hms
    rw [merge_concat]
    exact nodup_tags_mergeInto hms.2 (ih hms.1)

end ModuleDraft

namespace Item

/-- Items that doc blocks become, whatever the block says and declares. -/
inductive Built : Item → Prop
  | build {doc : DocText} (hdoc : doc.tags.Made) {decl : Option Declaration} {file : Path}
      {line : Nat} {item : Item} (hitem : build? doc decl file line = some item) : Built item
  | seed {doc : DocText} (hdoc : doc.tags.Made) (kind : Text) (file : Path) (line : Nat)
      (inferred : Bool) : Built (Item.seed doc kind file line inferred)

/-- The tags of an item that was built are those of its doc block, each once. -/
theorem Built.nodup_tags {item : Item} (h : item.Built) : item.tags.names.Nodup := by
  have hother {doc : DocText} (hdoc : doc.tags.Made) : (otherTags doc).names.Nodup :=
    ((hdoc.erase "class").erase "name").nodup_names
  cases h with
  | build hdoc hitem =>
    obtain ⟨kind, kindInferred, name, nameInferred, -, -, rfl⟩ := eq_of_build? hitem
    exact hother hdoc
  | seed hdoc kind file line inferred => exact hother hdoc

end Item

/-- Scanning a file makes items in no other way. -/
theorem Workspace.built_of_itemOfBlock? {w : Workspace} {path : Path} {block : DocBlock}
    {item : Item} (h : w.itemOfBlock? path block = some item) : item.Built := by
  have hdoc := DocText.made_tags_read w.rules block.text
  unfold itemOfBlock? at h
  extract_lets doc at h
  split at h
  · cases h
    exact .seed hdoc _ _ _ _
  · split at h
    · cases h
      exact .seed hdoc _ _ _ _
    · exact .build hdoc h

namespace Project

variable {files : List SourceFile} {itemKinds moduleKinds : KindList} {options : ProjectOptions}

/-- The modules of a project have each tag once, whatever the tags of their items are. -/
theorem nodup_tags_shown :
    ∀ m ∈ shown files moduleKinds options, m.tags.names.Nodup := by
  intro m hm
  rw [shown_eq_map_filter] at hm
  obtain ⟨merged, hmerged, rfl⟩ := List.mem_map.mp hm
  apply ModuleDraft.nodup_tags_merge _ merged hmerged
  intro d hd
  obtain ⟨f, -, hfound⟩ := List.mem_flatMap.mp hd
  exact f.nodup_tags_discover moduleKinds options d hfound

/-- A project of items that were built has distinct names in all of its parts. -/
theorem distinctKeys_of_assemble (hbuilt : ∀ f ∈ files, ∀ item ∈ f.items, item.Built)
    {p : Project} (hp : assemble files itemKinds moduleKinds options = .ok p) :
    p.toJson.DistinctKeys := by
  obtain ⟨-, -, rfl⟩ := assemble_eq_ok_iff.mp hp
  apply distinctKeys_toJson
  · rw [names_linked]
    exact nodup_names_shown
  · intro m hm
    obtain ⟨linkedDraft, hlinked, rfl⟩ := List.mem_map.mp hm
    obtain ⟨draft, hdraft, rfl⟩ := List.mem_map.mp hlinked
    apply Module.distinctKeys_toJson
    · exact nodup_tags_shown draft hdraft
    · intro item hitem
      obtain ⟨shownItem, hshown, rfl⟩ := List.mem_map.mp (Module.mem_items_of_mem_grouped hitem)
      obtain ⟨f, hf, source, hsource, -, rfl⟩ := exists_source_of_mem_shown hdraft hshown
      exact (hbuilt f hf source hsource).nodup_tags

/-- Rendering loses nothing: every project is read back from its text, so no two projects have the
    same text, and in the text of a project whose items are built from doc blocks no object has two
    members of one name. -/
theorem render_loses_nothing :
    (∀ p : Project, decode? p.render = some p) ∧
      (∀ p q : Project, p.render = q.render → p = q) ∧
      ∀ (files : List SourceFile) (itemKinds moduleKinds : KindList) (options : ProjectOptions)
        (p : Project), (∀ f ∈ files, ∀ item ∈ f.items, item.Built) →
        assemble files itemKinds moduleKinds options = .ok p →
        Json.read? p.render = some p.toJson ∧ p.toJson.DistinctKeys := by
  refine ⟨decode?_render, ?_, ?_⟩
  · intro p q heq
    have hp := decode?_render p
    rw [heq, decode?_render q] at hp
    exact (Option.some.inj hp).symm
  · intro files itemKinds moduleKinds options p hbuilt hp
    exact ⟨read?_render p, distinctKeys_of_assemble hbuilt hp⟩

/-- A doc block of a function with a tag of its own, given twice. -/
def notedDoc : DocText where
  summary := "Adds."
  tags := ((({} : TagTable).set "class" Kind.functionId).insert "note" "a").insert "note" "b"

/-- A file with a module and a function in it. -/
def notedFiles : List SourceFile :=
  [{ path := ⟨"m.lua"⟩, language := "lua", moduleCall := none,
     items := Item.seed {} Kind.moduleId ⟨"m.lua"⟩ 1 true
       :: (Item.build? notedDoc (some ⟨"add", .function [], false⟩) ⟨"m.lua"⟩ 2).toList }]

theorem render_loses_nothing_noted :
    ∃ p, assemble notedFiles .ofItems .ofModules {} = .ok p ∧ decode? p.render = some p ∧
      p.modules.flatMap (·.items.map (·.tags)) = [⟨[("note", .list ["a", "b"])]⟩] ∧
      p.toJson.DistinctKeys := by
  obtain ⟨p, hp, htags⟩ : ∃ p, assemble notedFiles .ofItems .ofModules {} = .ok p ∧
      p.modules.flatMap (·.items.map (·.tags)) = [⟨[("note", .list ["a", "b"])]⟩] :=
    ⟨_, rfl, by decide⟩
  have hdoc : notedDoc.tags.Made := ((TagTable.Made.empty.set _ _).insert _ _).insert _ _
  have hbuilt : ∀ f ∈ notedFiles, ∀ item ∈ f.items, item.Built := by
    intro f hf item hitem
    rw [notedFiles, List.mem_singleton] at hf
    subst hf
    rcases List.mem_cons.mp hitem with rfl | hitem
    · exact .seed .empty _ _ _ _
    · exact .build hdoc (Option.mem_toList.mp hitem)
  obtain ⟨hdecode, -, hkeys⟩ := render_loses_nothing
  exact ⟨p, hp, hdecode p, htags, (hkeys notedFiles _ _ _ p hbuilt hp).2⟩

end Project

end SourceDoc
