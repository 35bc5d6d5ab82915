import SourceDoc.Proofs.Project.Placement

namespace SourceDoc

/-- Items that are equal, or two local functions that may differ in everything. -/
def Item.SameButLocal (a b : Item) : Prop :=
  a = b ∨ a.isLocal = true ∧ b.isLocal = true

theorem Item.SameButLocal.kind_eq {a b : Item} (h : a.SameButLocal b) : a.kind = b.kind := by
  rcases h with rfl | ⟨ha, hb⟩
  · rfl
  · simp only [isLocal, decide_eq_true_eq] at ha hb
    rw [ha, hb]

/-- Files that differ in nothing but their local functions, which stand at the same positions. -/
structure SourceFile.SameButLocals (f g : SourceFile) : Prop where
  path : f.path = g.path
  language : f.language = g.language
  moduleCall : f.moduleCall = g.moduleCall
  items : List.Forall₂ Item.SameButLocal f.items g.items

namespace ModuleDraft

@[simp] theorem name_hideLocals (m : ModuleDraft) : m.hideLocals.name = m.name := rfl

/-- A local function that is hidden need not have been added. -/
theorem hideLocals_addItem (m : ModuleDraft) (item : Item) :
    (m.addItem item).hideLocals =
      if item.isLocal then m.hideLocals else m.hideLocals.addItem item := by
  have hlocal : ({ item with name := ModuleName.shortName item.name m.name } : Item).isLocal =
      item.isLocal := rfl
  by_cases hitem : item.isLocal = true
  · simp [hideLocals, addItem, List.filter_append, hlocal, hitem]
  · simp [hideLocals, addItem, List.filter_append, hlocal, hitem]

/-- Two items that are the same up to local functions make no difference in a module that hides
    these. -/
theorem hideLocals_addItem_congr {m m' : ModuleDraft} (hm : m.hideLocals = m'.hideLocals)
    {a b : Item} (hitem : a.SameButLocal b) :
    (m.addItem a).hideLocals = (m'.addItem b).hideLocals := by
  rw [hideLocals_addItem, hideLocals_addItem, hm]
  rcases hitem with rfl | ⟨ha, hb⟩
  · rfl
  · rw [if_pos ha, if_pos hb]

theorem hideLocals_absorb (m other : ModuleDraft) :
    (m.absorb other).hideLocals = m.hideLocals.absorb other.hideLocals := by
  simp [hideLocals, absorb, List.filter_append]

/-- Hiding local functions commutes with merging one module into others, whose names it does not
    change. -/
theorem map_hideLocals_mergeInto (m : ModuleDraft) (ms : List ModuleDraft) :
    (mergeInto m ms).map hideLocals = mergeInto m.hideLocals (ms.map hideLocals) :=
  Keyed.map_upsert (by exact fun _ => rfl) (by exact fun first _ => hideLocals_absorb first m) ms

/-- Local functions can be hidden before modules are merged or after it. -/
theorem map_hideLocals_merge (ms : List ModuleDraft) :
    (merge ms).map hideLocals = merge (ms.map hideLocals) := by
  induction ms using List.reverseRecOn with
  | nil => rfl
  | append_singleton ms m ih =>
    rw [merge_concat, map_hideLocals_mergeInto, ih, List.map_append, List.map_singleton,
      merge_concat]

theorem mergeIntoEvents_hideLocals (m : ModuleDraft) (seen : List ModuleDraft) :
    mergeIntoEvents m.hideLocals (seen.map hideLocals) = mergeIntoEvents m seen := by
  unfold mergeIntoEvents
  rw [List.find?_map]
  have hfind : seen.find? ((fun m' => decide (m'.name = m.hideLocals.name)) ∘ hideLocals) =
      seen.find? (·.name = m.name) := rfl
  rw [hfind]
  cases seen.find? (·.name = m.name) <;> rfl

/-- What merging reports does not depend on local functions. -/
theorem mergeEvents_map_hideLocals (seen ms : List ModuleDraft) :
    mergeEvents (seen.map hideLocals) (ms.map hideLocals) = mergeEvents seen ms := by
  induction ms generalizing seen with
  | nil => rfl
  | cons m ms ih =>
    rw [List.map_cons, mergeEvents, mergeEvents, mergeIntoEvents_hideLocals,
      ← map_hideLocals_mergeInto, ih]

end ModuleDraft

namespace SourceFile

variable {f g : SourceFile} {kinds : KindList} (options : ProjectOptions)

/-- A module is named after its file by the path and the calls in it, and items do not matter. -/
theorem SameButLocals.inferredName_eq (h : f.SameButLocals g) :
    f.inferredName options = g.inferredName options := by
  rw [inferredName, inferredName, h.moduleCall, h.path]

theorem SameButLocals.inferredNameEvents_eq (h : f.SameButLocals g) :
    f.inferredNameEvents options = g.inferredNameEvents options := by
  rw [inferredNameEvents, inferredNameEvents, h.moduleCall, h.path]

theorem SameButLocals.opened_eq (h : f.SameButLocals g) (item : Item) :
    f.opened options item = g.opened options item := by
  rw [opened, opened, openedName, openedName, h.inferredName_eq, h.path]

theorem SameButLocals.inferred_eq (h : f.SameButLocals g) :
    f.inferred options = g.inferred options := by
  rw [inferred, inferred, h.inferredName_eq, h.path]

/-- Renaming the inferred module keeps its items, so it commutes with hiding some. -/
theorem SameButLocals.hideLocals_renamed (h : f.SameButLocals g) {m m' : ModuleDraft}
    (hm : m.hideLocals = m'.hideLocals) (item : Item) :
    (f.renamed options m item).hideLocals = (g.renamed options m' item).hideLocals := by
  have hrenamed (file : SourceFile) (draft : ModuleDraft) :
      (file.renamed options draft item).hideLocals =
        file.renamed options draft.hideLocals item := rfl
  rw [hrenamed, hrenamed, hm, renamed, renamed, openedName, openedName, h.inferredName_eq]

/-- A module kind tells two items apart only if they are equal, because no local function is of a
    module kind. -/
theorem eq_of_contains {a b : Item} (hlocal : kinds.contains Kind.localFunctionId = false)
    (hitem : a.SameButLocal b) (hkind : kinds.contains a.kind = true) : a = b := by
  rcases hitem with rfl | ⟨ha, -⟩
  · rfl
  · have hid : a.kind = Kind.localFunctionId := by simpa [Item.isLocal] using ha
    rw [hid, hlocal] at hkind
    cases hkind

/-- Dealing out items in two files at once: as long as the open modules are the same up to local
    functions, so are all modules found. -/
theorem SameButLocals.map_hideLocals_discoverFrom (h : f.SameButLocals g)
    (hlocal : kinds.contains Kind.localFunctionId = false) {items items' : List Item}
    (hitems : List.Forall₂ Item.SameButLocal items items') {current current' : ModuleDraft}
    (hcurrent : current.hideLocals = current'.hideLocals) (renamable : Bool) :
    (discoverFrom f kinds options current renamable items).map ModuleDraft.hideLocals =
      (discoverFrom g kinds options current' renamable items').map ModuleDraft.hideLocals := by
  induction hitems generalizing current current' renamable with
  | nil => simp [discoverFrom, hcurrent]
  | @cons a b items items' hitem hitems ih =>
    rw [discoverFrom, discoverFrom, ← hitem.kind_eq]
    by_cases hkind : kinds.contains a.kind = true
    · obtain rfl := eq_of_contains hlocal hitem hkind
      rw [if_pos hkind, if_pos hkind]
      split
      · exact ih (h.hideLocals_renamed options hcurrent a) false
      · rw [List.map_cons, List.map_cons, hcurrent, h.opened_eq]
        rw [ih rfl a.inferred]
    · rw [if_neg hkind, if_neg hkind]
      exact ih (ModuleDraft.hideLocals_addItem_congr hcurrent hitem) false

/-- The modules found in both files are the same once local functions are hidden, if these are no
    modules. -/
theorem SameButLocals.map_hideLocals_discover (h : f.SameButLocals g)
    (hlocal : kinds.contains Kind.localFunctionId = false) :
    (f.discover kinds options).map ModuleDraft.hideLocals =
      (g.discover kinds options).map ModuleDraft.hideLocals := by
  have hitems := h.items
  unfold discover
  cases hf : f.items with
  | nil =>
    rw [hf, List.forall₂_nil_left_iff] at hitems
    rw [hitems]
  | cons a items =>
    rw [hf] at hitems
    obtain ⟨b, items', hitem, hitems, hg⟩ := List.forall₂_cons_left_iff.mp hitems
    rw [hg]
    dsimp only
    rw [← hitem.kind_eq]
    by_cases hkind : kinds.contains a.kind = true
    · obtain rfl := eq_of_contains hlocal hitem hkind
      rw [if_pos hkind, if_pos hkind]
      exact h.map_hideLocals_discoverFrom options hlocal hitems (by rw [h.opened_eq]) a.inferred
    · rw [if_neg hkind, if_neg hkind]
      apply h.map_hideLocals_discoverFrom options hlocal hitems
      exact ModuleDraft.hideLocals_addItem_congr (by rw [h.inferred_eq]) hitem

/-- The items of module kinds are no local functions, so both files have the same ones. -/
theorem filter_contains_eq (hlocal : kinds.contains Kind.localFunctionId = false)
    {items items' : List Item} (hitems : List.Forall₂ Item.SameButLocal items items') :
    items.filter (kinds.contains ·.kind) = items'.filter (kinds.contains ·.kind) := by
  induction hitems with
  | nil => rfl
  | @cons a b items items' hitem hitems ih =>
    by_cases hkind : kinds.contains a.kind = true
    · obtain rfl := eq_of_contains hlocal hitem hkind
      simp [hkind, ih]
    · have hkind' : ¬ kinds.contains b.kind = true := by
        rw [← hitem.kind_eq]
        exact hkind
      simp [hkind, hkind', ih]

theorem SameButLocals.discoverEvents_eq (h : f.SameButLocals g)
    (hlocal : kinds.contains Kind.localFunctionId = false) :
    f.discoverEvents kinds options = g.discoverEvents kinds options := by
  have hnameless : (f.items.filter fun item => kinds.contains item.kind && item.name.isEmpty) =
      g.items.filter fun item => kinds.contains item.kind && item.name.isEmpty := by
    have hopening := filter_contains_eq hlocal h.items
    have hfilter (items : List Item) :
        (items.filter fun item => kinds.contains item.kind && item.name.isEmpty) =
          (items.filter (kinds.contains ·.kind)).filter (·.name.isEmpty) := by
      rw [List.filter_filter]
      apply List.filter_congr
      intro item _
      exact Bool.and_comm _ _
    rw [hfilter, hfilter, hopening]
  have hitems := h.items
  unfold discoverEvents
  rw [hnameless, h.inferredNameEvents_eq, h.inferredName_eq, h.path]
  cases hf : f.items with
  | nil =>
    rw [hf, List.forall₂_nil_left_iff] at hitems
    rw [hitems]
  | cons a items =>
    rw [hf] at hitems
    obtain ⟨b, items', hitem, -, hg⟩ := List.forall₂_cons_left_iff.mp hitems
    rw [hg]
    dsimp only
    rw [hitem.kind_eq]

end SourceFile

namespace Project

variable {files files' : List SourceFile} {moduleKinds : KindList} {options : ProjectOptions}

/-- What holds of the modules of one file holds of those of all files, as long as the files
    correspond in their order. -/
theorem map_hideLocals_declared (hfiles : List.Forall₂ SourceFile.SameButLocals files files')
    (hlocal : moduleKinds.contains Kind.localFunctionId = false) :
    (declared files moduleKinds options).map ModuleDraft.hideLocals =
      (declared files' moduleKinds options).map ModuleDraft.hideLocals := by
  unfold declared
  induction hfiles with
  | nil => rfl
  | cons hfile _ ih =>
    rw [List.flatMap_cons, List.flatMap_cons, List.map_append, List.map_append, ih,
      hfile.map_hideLocals_discover options hlocal]

/-- A project that hides local functions shows the same modules for both lists of files, before any
    linking. -/
theorem shown_eq_of_sameButLocals (hfiles : List.Forall₂ SourceFile.SameButLocals files files')
    (hlocal : moduleKinds.contains Kind.localFunctionId = false)
    (hhidden : options.keepLocals = false) :
    shown files moduleKinds options = shown files' moduleKinds options := by
  have hshown (fs : List SourceFile) : shown fs moduleKinds options =
      ModuleDraft.merge ((declared fs moduleKinds options).map ModuleDraft.hideLocals) := by
    rw [shown, hhidden, ← ModuleDraft.map_hideLocals_merge]
    rfl
  rw [hshown, hshown, map_hideLocals_declared hfiles hlocal]

theorem flatMap_discoverEvents_eq (hfiles : List.Forall₂ SourceFile.SameButLocals files files')
    (hlocal : moduleKinds.contains Kind.localFunctionId = false) :
    files.flatMap (·.discoverEvents moduleKinds options) =
      files'.flatMap (·.discoverEvents moduleKinds options) := by
  induction hfiles with
  | nil => rfl
  | cons hfile _ ih =>
    rw [List.flatMap_cons, List.flatMap_cons, hfile.discoverEvents_eq options hlocal, ih]

/-- Merging the modules of all files reports the same. -/
theorem mergeEvents_declared_eq (hfiles : List.Forall₂ SourceFile.SameButLocals files files')
    (hlocal : moduleKinds.contains Kind.localFunctionId = false) :
    ModuleDraft.mergeEvents [] (declared files moduleKinds options) =
      ModuleDraft.mergeEvents [] (declared files' moduleKinds options) := by
  have hhidden (fs : List SourceFile) :
      ModuleDraft.mergeEvents [] ((declared fs moduleKinds options).map ModuleDraft.hideLocals) =
        ModuleDraft.mergeEvents [] (declared fs moduleKinds options) :=
    ModuleDraft.mergeEvents_map_hideLocals [] _
  rw [← hhidden, map_hideLocals_declared hfiles hlocal, hhidden]

/-- Hidden local functions leak nothing. Where local functions are not shown and are no kind of
    module, files that differ in nothing but the content of their local functions give the same
    project or the same failure, and the same reports. -/
theorem assemble_eq_of_sameButLocals (hfiles : List.Forall₂ SourceFile.SameButLocals files files')
    (itemKinds : KindList) (hlocal : moduleKinds.contains Kind.localFunctionId = false)
    (hhidden : options.keepLocals = false) :
    assemble files itemKinds moduleKinds options = assemble files' itemKinds moduleKinds options ∧
      assembleEvents files moduleKinds options = assembleEvents files' moduleKinds options := by
  have hshown := shown_eq_of_sameButLocals hfiles hlocal hhidden
  refine ⟨?_, ?_⟩
  · rw [assemble, assemble, hshown]
  · rw [assembleEvents, assembleEvents, flatMap_discoverEvents_eq hfiles hlocal,
      mergeEvents_declared_eq hfiles hlocal, hshown]

/-- The files of `utilFiles` with another local function in the place of `helper`: it has the name
    of an item that is shown, and a reference of its own. -/
def disguisedFiles : List SourceFile :=
  [{ path := ⟨"m.lua"⟩, language := "lua", moduleCall := none,
     items := [bareItem [] Kind.moduleId true, bareItem "util" Kind.moduleId false,
       bareItem "M.add" Kind.functionId true ["sub", "util", "helper"],
       bareItem "M.sub" Kind.localFunctionId false ["nowhere"]] },
   { path := ⟨"n.lua"⟩, language := "lua", moduleCall := none,
     items := [bareItem "util" Kind.moduleId false, bareItem "sub" Kind.functionId true] }]

theorem assemble_utilFiles_eq_disguisedFiles :
    List.Forall₂ SourceFile.SameButLocals utilFiles disguisedFiles ∧ utilFiles ≠ disguisedFiles ∧
      ∃ p, assemble utilFiles .ofItems .ofModules {} = .ok p ∧
        assemble disguisedFiles .ofItems .ofModules {} = .ok p := by
  have hfiles : List.Forall₂ SourceFile.SameButLocals utilFiles disguisedFiles := by
    refine .cons ⟨rfl, rfl, rfl, ?_⟩ (.cons ⟨rfl, rfl, rfl, ?_⟩ .nil)
    · exact .cons (.inl rfl) (.cons (.inl rfl) (.cons (.inl rfl)
        (.cons (.inr ⟨rfl, rfl⟩) .nil)))
    · exact .cons (.inl rfl) (.cons (.inl rfl) .nil)
  obtain ⟨p, hp⟩ : ∃ p, assemble utilFiles .ofItems .ofModules {} = .ok p := ⟨_, rfl⟩
  have hsame : assemble utilFiles .ofItems .ofModules {} =
      assemble disguisedFiles .ofItems .ofModules {} :=
    (assemble_eq_of_sameButLocals hfiles .ofItems (by decide) rfl).1
  exact ⟨hfiles, by decide, p, hp, by rw [← hsame, hp]⟩

end Project

end SourceDoc
