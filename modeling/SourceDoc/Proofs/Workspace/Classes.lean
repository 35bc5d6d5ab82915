import SourceDoc.Proofs.Project.Failures
import SourceDoc.Proofs.Tag.Naming
import SourceDoc.Proofs.Workspace.Runs

namespace SourceDoc

namespace Item

variable {doc : DocText} {decl : Option Declaration} {file : Path} {line : Nat} {item : Item}

/-- An item stands where its block does, and its class is that of the block or makes it a local
    function. -/
theorem kind_of_build? (h : build? doc decl file line = some item) :
    item.file = file ∧ item.line = line ∧
      ∃ kind inferred, kind? doc decl = some (kind, inferred) ∧
        (item.kind = kind ∨ item.kind = Kind.localFunctionId) := by
  obtain ⟨kind, kindInferred, name, nameInferred, hkind, -, rfl⟩ := eq_of_build? h
  refine ⟨rfl, rfl, kind, kindInferred, hkind, ?_⟩
  change finalKind kind _ decl = kind ∨ finalKind kind _ decl = Kind.localFunctionId
  unfold finalKind
  split
  · exact .inr rfl
  · exact .inl rfl

end Item

namespace Workspace

variable {w : Workspace} {path : Path} {block : DocBlock} {item : Item}

/-- The class of a block that opens no module is written out under the tag for classes or is a kind
    of items: a tag that may open a module would have opened one. -/
theorem Coherent.class_of_read (hw : w.Coherent) {t kind : Text}
    (hopened : w.openedKind? (DocText.read w.rules t) = none)
    (hkind : (DocText.read w.rules t).tags.first? "class" = some kind) :
    (("class" : Text), kind) ∈ DocText.canonicalTags w.rules t ∨
      w.itemKinds.contains kind = true := by
  have hsourced := DocText.sourced_read w.rules t
  rcases hsourced.kind kind hkind with hwritten | ⟨rule, hrule, hlevel⟩
  · exact .inl hwritten
  rcases hlevel with ⟨-, hopener⟩ | ⟨hlevel, hshort⟩
  · obtain ⟨opener, hopener⟩ := Option.isSome_iff_exists.mp hopener
    obtain ⟨rule, hrule, hlevel⟩ := (Option.any_eq_true _ _).mp (hsourced.projectTag opener hopener)
    have hregistered := hw.projectTags opener rule hrule hlevel
    simp [openedKind?, hopener, hregistered] at hopened
  · exact .inr (hw.shorthandTags kind rule hrule hshort hlevel)

/-- The class of a block that opens no module: as written out in it, or a kind of items. -/
theorem Coherent.kind_of_kind? (hw : w.Coherent) (hitems : KindList.ofItems.Extends w.itemKinds)
    {t kind : Text} {decl : Option Declaration} {inferred : Bool}
    (hopened : w.openedKind? (DocText.read w.rules t) = none)
    (hkind : Item.kind? (DocText.read w.rules t) decl = some (kind, inferred)) :
    (("class" : Text), kind) ∈ DocText.canonicalTags w.rules t ∨
      w.itemKinds.contains kind = true := by
  unfold Item.kind? at hkind
  split at hkind
  · rename_i written hwritten
    cases hkind
    exact hw.class_of_read hopened hwritten
  · obtain ⟨d, -, hd⟩ := Option.map_eq_some_iff.mp hkind
    cases hd
    refine .inr (hitems.contains ?_)
    cases d.shape <;> simp only [Item.kindOfShape] <;> decide

/-- An item that a block becomes stands where the block does. It is of a registered kind, or its
    class is written out in the block. -/
theorem Coherent.kind_of_itemOfBlock? (hw : w.Coherent)
    (hitems : KindList.ofItems.Extends w.itemKinds)
    (hmodules : KindList.ofModules.Extends w.moduleKinds)
    (h : w.itemOfBlock? path block = some item) :
    item.file = path ∧ item.line = block.line ∧
      (w.moduleKinds.contains item.kind = true ∨ w.itemKinds.contains item.kind = true ∨
        (("class" : Text), item.kind) ∈ DocText.canonicalTags w.rules block.text) := by
  unfold itemOfBlock? at h
  dsimp only at h
  split at h
  · rename_i kind hopened
    cases h
    exact ⟨rfl, rfl, .inl (Option.filter_eq_some_iff.mp hopened).2⟩
  · rename_i hopened
    split at h
    · cases h
      have hmodule : KindList.ofModules.contains Kind.moduleId = true := by decide
      exact ⟨rfl, rfl, .inl (hmodules.contains hmodule)⟩
    · obtain ⟨hfile, hline, kind, inferred, hkind, hfinal⟩ := Item.kind_of_build? h
      refine ⟨hfile, hline, .inr ?_⟩
      rcases hfinal with hfinal | hlocal
      · rw [hfinal]
        exact (hw.kind_of_kind? hitems hopened hkind).symm
      · have hlocals : KindList.ofItems.contains Kind.localFunctionId = true := by decide
        rw [hlocal]
        exact .inl (hitems.contains hlocals)

/-- A file is scanned into the items of its blocks. -/
theorem exists_block_of_mem_items {src : Text} {file : SourceFile}
    (hscan : w.scanFile path src = .ok file) (hitem : item ∈ file.items) :
    ∃ lang blocks block, w.languages.ofPath? path = some lang ∧
      DocBlock.scan lang path src = .ok blocks ∧ block ∈ blocks ∧
      w.itemOfBlock? path block = some item := by
  unfold scanFile at hscan
  split at hscan
  · cases hscan
  · rename_i lang hlang
    obtain ⟨blocks, hblocks, hfile⟩ := bind_eq_ok_iff.mp hscan
    cases hfile
    obtain ⟨block, hblock, hitem⟩ := List.mem_filterMap.mp hitem
    exact ⟨lang, blocks, block, hlang, hblocks, hblock, hitem⟩

/-- However a workspace is put together, even by configurations that fail on the way, its tables
    agree, and no kind is ever lost or moved. So its project can only fail over a class that is no
    kind of items, and then at a scanned block that writes this class out. -/
theorem run_coherent (actions : List Action) :
    (run actions).Coherent ∧
    (∀ earlier later, actions = earlier ++ later →
      (run earlier).itemKinds.kinds.map (·.id) <+: (run actions).itemKinds.kinds.map (·.id) ∧
      (run earlier).moduleKinds.kinds.map (·.id) <+: (run actions).moduleKinds.kinds.map (·.id)) ∧
    ∀ e, (run actions).project = .error e →
      ∃ before path src after lang blocks block kind,
        actions = before ++ .scan path src :: after ∧
        (run before).languages.ofPath? path = some lang ∧
        DocBlock.scan lang path src = .ok blocks ∧ block ∈ blocks ∧
        (("class" : Text), kind) ∈ DocText.canonicalTags (run before).rules block.text ∧
        e = .unknownKind "section" kind path block.line := by
  refine ⟨coherent_run actions, ?_, ?_⟩
  · rintro earlier later rfl
    have hkeeps := keeps_run_append earlier later
    exact ⟨hkeeps.itemKinds.ids, hkeeps.moduleKinds.ids⟩
  · intro e he
    obtain ⟨hitems, hmodules⟩ := extends_run actions
    have hmodule : KindList.ofModules.contains Kind.moduleId = true := by decide
    obtain ⟨file, hfile, item, hitem, hnoModule, hnoItem, rfl⟩ :=
      Project.source_of_assemble_eq_error (hmodules.contains hmodule) he
    obtain ⟨before, path, src, after, rfl, hscan⟩ := exists_scan_of_mem_files hfile
    obtain ⟨lang, blocks, block, hlang, hblocks, hblock, hmade⟩ :=
      exists_block_of_mem_items hscan hitem
    obtain ⟨hplace, hline, hkind⟩ := (coherent_run before).kind_of_itemOfBlock?
      (extends_run before).1 (extends_run before).2 hmade
    refine ⟨before, path, src, after, lang, blocks, block, item.kind, rfl, hlang, hblocks, hblock,
      ?_, ?_⟩
    · -- a kind that was registered at the scan still is when the project is assembled
      have hkeeps := keeps_run_append before (.scan path src :: after)
      rcases hkind with hmoduleKind | hitemKind | hwritten
      · rw [hkeeps.moduleKinds.contains hmoduleKind] at hnoModule
        cases hnoModule
      · rw [hkeeps.itemKinds.contains hitemKind] at hnoItem
        cases hnoItem
      · exact hwritten
    · rw [hplace, hline, hitems.group]
      rfl

example : (run [.addSection "gadget" "Gadgets" none,
      .scan ⟨"a.lua"⟩ "--- F\n-- @class widget\n-- @name f\n"]).project =
    .error (.unknownKind "section" "widget" ⟨"a.lua"⟩ 1) := by decide +kernel

end Workspace

end SourceDoc
